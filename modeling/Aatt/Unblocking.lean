import Mathlib.Logic.Function.Basic
import Aatt.Lib.Transition

/-! Blocking app threads and unblocking them over `Troy`. A thread of the app blocks by putting a fresh
semaphore under its id into `__SEMS` and acquiring it. Each command runs in a handler thread of its
own, and getting a semaphore, releasing it and removing the entry are separate steps that interleave
with everything else. `__SEMS` belongs to a class that is injected into the app, so the kind of map is an assumption:
the iterator of `unblockThreadAll` is taken to be weakly consistent. It may return any entry that has been in the map
since it was made, it may end at any time, and its `remove` removes the key. -/
namespace Aatt.Troy

open Aatt.Lib

abbrev ThreadId := BitVec 32

/-- The semaphores of a thread in the order it makes them. -/
structure Semaphore where
  owner : ThreadId
  number : Nat
  deriving DecidableEq, Repr

/-- Where a thread of the app stands: it has put its semaphore, or it is in `acquire`. -/
inductive Phase where
  | running
  | registered (sem : Semaphore)
  | waiting (sem : Semaphore)
  deriving DecidableEq, Repr

def Phase.sem? : Phase → Option Semaphore
  | .running => none
  | .registered sem | .waiting sem => some sem

/-- Where a handler thread stands. After `remove` a handler of `unblockThreadAll` goes on with its
iterator; `finished` is its local. -/
inductive Handler where
  | idle
  | get (id : ThreadId)
  | iterate (finished : Bool)
  | release (id : ThreadId) (sem : Semaphore) (all : Bool)
  | remove (id : ThreadId) (all : Bool)
  deriving DecidableEq, Repr

/-- The handler has read the entry of the thread and has not removed it yet. -/
def Handler.busy (id : ThreadId) : Handler → Bool
  | .release id' _ _ | .remove id' _ => id' = id
  | _ => false

/-- The handler is about to remove the entry of the thread. -/
def Handler.removing (id : ThreadId) : Handler → Bool
  | .remove id' _ => id' = id
  | _ => false

/-- `oldest` has, for the iterator of a handler, the first semaphore of each thread that was in the map when the
iterator was made or later. `releases` counts the calls of `release` and is not in the code. -/
structure State (n : Nat) where
  phase : ThreadId → Phase
  made : ThreadId → Nat
  sems : ThreadId → Option Semaphore
  permits : Semaphore → Nat
  releases : Semaphore → Nat
  handlers : Fin n → Handler
  oldest : Fin n → ThreadId → Nat

inductive Action (n : Nat) where
  | put (id : ThreadId)
  | beginAcquire (id : ThreadId)
  | acquire (id : ThreadId)
  | unblockThread (h : Fin n) (id : ThreadId)
  | unblockThreadAll (h : Fin n)
  /-- The next step of a handler; at the iterator, the entry that `next` returns, if any. -/
  | handle (h : Fin n) (next : Option Semaphore)
  deriving DecidableEq, Repr

namespace State

variable {n : Nat}

def start (n : Nat) : State n :=
  ⟨fun _ => .running,fun _ => 0,fun _ => none,fun _ => 0,fun _ => 0,fun _ => .idle,fun _ _ => 0⟩

def setHandler (s : State n) (h : Fin n) (handler : Handler) : State n :=
  { s with handlers := Function.update s.handlers h handler }

/-- `sems.entrySet().iterator()`. -/
def iterator (s : State n) (h : Fin n) : State n :=
  { s with oldest := Function.update s.oldest h fun id => ((s.sems id).map Semaphore.number).getD (s.made id) }

/-- `Semaphore.release`. -/
def addPermit (s : State n) (sem : Semaphore) : State n :=
  { s with
    permits := Function.update s.permits sem (s.permits sem + 1)
    releases := Function.update s.releases sem (s.releases sem + 1) }

def fresh (s : State n) (id : ThreadId) : Semaphore := ⟨id,s.made id⟩

def put (id : ThreadId) (s : State n) : Option (State n) :=
  match s.phase id with
  | .running => some { s with
      phase := Function.update s.phase id (.registered (s.fresh id))
      made := Function.update s.made id (s.made id + 1)
      sems := Function.update s.sems id (some (s.fresh id)) }
  | _ => none

def beginAcquire (id : ThreadId) (s : State n) : Option (State n) :=
  match s.phase id with
  | .registered sem => some { s with phase := Function.update s.phase id (.waiting sem) }
  | _ => none

def acquire (id : ThreadId) (s : State n) : Option (State n) :=
  match s.phase id with
  | .waiting sem =>
    if s.permits sem = 0 then none else
    some { s with
      phase := Function.update s.phase id .running
      permits := Function.update s.permits sem (s.permits sem - 1) }
  | _ => none

/-- One step of `unblockThread` or `unblockThreadAll0`. Releasing a null semaphore ends the handler. -/
def handle (h : Fin n) (next : Option Semaphore) (s : State n) : Option (State n) :=
  match s.handlers h with
  | .idle => none
  | .get id =>
    match s.sems id with
    | none => some (s.setHandler h .idle)
    | some sem => some (s.setHandler h (.release id sem false))
  | .iterate finished =>
    match next with
    | none => if finished then some (s.setHandler h .idle) else some ((s.setHandler h (.iterate true)).iterator h)
    | some sem =>
      if s.oldest h sem.owner ≤ sem.number ∧ sem.number < s.made sem.owner then
        some (s.setHandler h (.release sem.owner sem true))
      else none
  | .release id sem all => some ((s.setHandler h (.remove id all)).addPermit sem)
  | .remove id all =>
    some { s.setHandler h (if all then .iterate false else .idle) with sems := Function.update s.sems id none }

def step : Action n → State n → Option (State n)
  | .put id, s => s.put id
  | .beginAcquire id, s => s.beginAcquire id
  | .acquire id, s => s.acquire id
  | .unblockThread h id, s => if s.handlers h = .idle then some (s.setHandler h (.get id)) else none
  | .unblockThreadAll h, s => if s.handlers h = .idle then some ((s.setHandler h (.iterate true)).iterator h) else none
  | .handle h next, s => s.handle h next

/-- No thread waits for a semaphore that nobody can find, and no semaphore is released twice. -/
def Findable (s : State n) : Prop :=
  (∀ id sem, s.phase id = .waiting sem → s.releases sem = 0 → s.sems id = some sem) ∧
    ∀ sem, s.releases sem ≤ 1

/-- A handler reads an entry that is still in the map and that no handler is busy with. -/
def ReadsOrderly (s : State n) : Handler → Option Semaphore → Prop
  | .get id,_ => ∀ h, (s.handlers h).busy id = false
  | .iterate _,some sem => s.sems sem.owner = some sem ∧ ∀ h, (s.handlers h).busy sem.owner = false
  | _,_ => True

/-- A thread does not register again before the handler that released it has removed its entry, and handlers read
in order. -/
def Orderly (action : Action n) (s : State n) : Prop :=
  match action with
  | .put id => ∀ h, (s.handlers h).removing id = false
  | .handle h next => s.ReadsOrderly (s.handlers h) next
  | _ => True

instance (s : State n) : (handler : Handler) → (next : Option Semaphore) → Decidable (s.ReadsOrderly handler next)
  | .get id,_ => inferInstanceAs (Decidable (∀ h, (s.handlers h).busy id = false))
  | .iterate _,some sem =>
    inferInstanceAs (Decidable (s.sems sem.owner = some sem ∧ ∀ h, (s.handlers h).busy sem.owner = false))
  | .iterate _,none | .idle,_ | .release _ _ _,_ | .remove _ _,_ => inferInstanceAs (Decidable True)

instance : (action : Action n) → (s : State n) → Decidable (Orderly action s)
  | .put id,s => inferInstanceAs (Decidable (∀ h, (s.handlers h).removing id = false))
  | .handle h next,s => inferInstanceAs (Decidable (s.ReadsOrderly (s.handlers h) next))
  | .beginAcquire _,_ | .acquire _,_ | .unblockThread _ _,_ | .unblockThreadAll _,_ => inferInstanceAs (Decidable True)

/-- The invariant. A handler that has read an entry finds its thread still waiting, and until it has removed the
entry the thread has no other semaphore. -/
structure Sound (s : State n) : Prop where
  permits : ∀ sem, s.permits sem ≤ s.releases sem
  once : ∀ sem, s.releases sem ≤ 1
  own : ∀ id sem, (s.phase id).sem? = some sem → sem.owner = id ∧ sem.number < s.made id
  unmade : ∀ sem, s.made sem.owner ≤ sem.number → s.releases sem = 0
  registered : ∀ id sem, (s.phase id).sem? = some sem → s.releases sem = 0 → s.sems id = some sem
  entry : ∀ id sem, s.sems id = some sem →
    (s.phase id).sem? = some sem ∧ s.releases sem = 0 ∨ ∃ h, (s.handlers h).removing id = true
  releasing : ∀ h id sem all, s.handlers h = .release id sem all → (s.phase id).sem? = some sem ∧ s.releases sem = 0
  removing : ∀ h id sem, (s.handlers h).removing id = true → (s.phase id).sem? = some sem → s.releases sem ≠ 0
  single : ∀ h h' id, (s.handlers h).busy id = true → (s.handlers h').busy id = true → h = h'

theorem start_sound (n : Nat) : (start n).Sound := by
  constructor <;> simp [start,Phase.sem?,Handler.removing,Handler.busy]

theorem setHandler_same (s : State n) (h : Fin n) (handler : Handler) : (s.setHandler h handler).handlers h = handler :=
  Function.update_self ..

theorem setHandler_other (s : State n) (h h' : Fin n) (handler : Handler) (apart : h' ≠ h) :
    (s.setHandler h handler).handlers h' = s.handlers h' :=
  Function.update_of_ne apart ..

@[simp] theorem addPermit_handlers (s : State n) (sem : Semaphore) : (s.addPermit sem).handlers = s.handlers := rfl

theorem removing_busy {id : ThreadId} {handler : Handler} (removing : handler.removing id = true) :
    handler.busy id = true := by
  cases handler <;> simp_all [Handler.removing,Handler.busy]

theorem removing_of_free {id : ThreadId} {handler : Handler} (free : handler.busy id = false) :
    handler.removing id = false := by
  by_contra removes
  rw [removing_busy ((Bool.not_eq_false _).mp removes)] at free
  cases free

theorem setHandler_busy (s : State n) (h h' : Fin n) (handler : Handler) (id : ThreadId)
    (after : handler.busy id = false) (busy : ((s.setHandler h handler).handlers h').busy id = true) :
    (s.setHandler h handler).handlers h' = s.handlers h' := by
  refine setHandler_other _ _ _ _ ?_
  rintro rfl
  rw [setHandler_same,after] at busy
  cases busy

theorem setHandler_removing (s : State n) (h h' : Fin n) (handler : Handler) (id : ThreadId)
    (other : (s.handlers h).removing id = false) (removes : (s.handlers h').removing id = true) :
    ((s.setHandler h handler).handlers h').removing id = true := by
  have apart : h' ≠ h := by
    rintro rfl
    rw [other] at removes
    cases removes
  rw [setHandler_other _ _ _ _ apart]
  exact removes

theorem Sound.setHandler {s : State n} (sound : s.Sound) (h : Fin n) (handler : Handler)
    (before : ∀ id, (s.handlers h).busy id = false) (after : ∀ id, handler.busy id = false) :
    (s.setHandler h handler).Sound := by
  have kept : ∀ h' id, ((s.setHandler h handler).handlers h').busy id = true →
      (s.setHandler h handler).handlers h' = s.handlers h' :=
    fun h' id => setHandler_busy s h h' handler id (after id)
  refine ⟨sound.permits,sound.once,sound.own,sound.unmade,sound.registered,fun id sem entry => ?_,
    fun h' id sem all handles => ?_,fun h' id sem removes => ?_,fun h' h'' id first second => ?_⟩
  · exact (sound.entry id sem entry).imp_right fun ⟨h',removes⟩ =>
      ⟨h',setHandler_removing s h h' handler id (removing_of_free (before id)) removes⟩
  · rw [kept h' id (by rw [handles]; simp [Handler.busy])] at handles
    exact sound.releasing h' id sem all handles
  · rw [kept h' id (removing_busy removes)] at removes
    exact sound.removing h' id sem removes
  · rw [kept h' id first] at first
    rw [kept h'' id second] at second
    exact sound.single h' h'' id first second

theorem Sound.iterator {s : State n} (sound : s.Sound) (h : Fin n) : (s.iterator h).Sound :=
  ⟨sound.permits,sound.once,sound.own,sound.unmade,sound.registered,sound.entry,sound.releasing,sound.removing,
    sound.single⟩

theorem Sound.put {s next : State n} (sound : s.Sound) (id : ThreadId) (orderly : Orderly (.put id) s)
    (taken : s.put id = some next) : next.Sound := by
  unfold State.put at taken
  cases phase : s.phase id with
  | registered sem | waiting sem =>
    rw [phase] at taken
    cases taken
  | running =>
    rw [phase] at taken
    cases taken
    have idle : (s.phase id).sem? = none := by rw [phase]; rfl
    have unreleased : s.releases (s.fresh id) = 0 := sound.unmade _ (Nat.le_refl _)
    refine ⟨sound.permits,sound.once,fun id' sem holds => ?_,fun sem bound => ?_,fun id' sem holds free => ?_,
      fun id' sem entry => ?_,fun h id' sem all handles => ?_,fun h id' sem removes holds => ?_,sound.single⟩
    · by_cases eq : id' = id
      · subst eq
        simp only [Function.update_self,Phase.sem?,Option.some.injEq] at holds ⊢
        subst holds
        exact ⟨rfl,Nat.lt_succ_self _⟩
      · simp only [Function.update_of_ne eq] at holds ⊢
        exact sound.own id' sem holds
    · refine sound.unmade sem (Nat.le_trans ?_ bound)
      by_cases eq : sem.owner = id
      · rw [eq]
        simp
      · simp [Function.update_of_ne eq]
    · by_cases eq : id' = id
      · subst eq
        simpa [Phase.sem?] using holds
      · simp only [Function.update_of_ne eq] at holds ⊢
        exact sound.registered id' sem holds free
    · by_cases eq : id' = id
      · subst eq
        simp only [Function.update_self,Option.some.injEq] at entry
        subst entry
        exact .inl ⟨by simp [Phase.sem?],unreleased⟩
      · simp only [Function.update_of_ne eq] at entry ⊢
        exact sound.entry id' sem entry
    · have held := sound.releasing h id' sem all handles
      by_cases eq : id' = id
      · rw [eq,idle] at held
        cases held.1
      · simp only [Function.update_of_ne eq]
        exact held
    · by_cases eq : id' = id
      · rw [eq,orderly h] at removes
        cases removes
      · simp only [Function.update_of_ne eq] at holds
        exact sound.removing h id' sem removes holds

theorem Sound.beginAcquire {s next : State n} (sound : s.Sound) (id : ThreadId)
    (taken : s.beginAcquire id = some next) : next.Sound := by
  unfold State.beginAcquire at taken
  cases phase : s.phase id with
  | running | waiting sem =>
    rw [phase] at taken
    cases taken
  | registered sem =>
    rw [phase] at taken
    cases taken
    have same : ∀ id', (Function.update s.phase id (.waiting sem) id').sem? = (s.phase id').sem? := by
      intro id'
      by_cases eq : id' = id
      · rw [eq,Function.update_self,phase]
        rfl
      · rw [Function.update_of_ne eq]
    refine ⟨sound.permits,sound.once,fun id' sem' holds => ?_,sound.unmade,fun id' sem' holds => ?_,
      fun id' sem' entry => ?_,fun h id' sem' all handles => ?_,fun h id' sem' removes holds => ?_,sound.single⟩
    · exact sound.own id' sem' ((same id').symm.trans holds)
    · exact sound.registered id' sem' ((same id').symm.trans holds)
    · rw [same id']
      exact sound.entry id' sem' entry
    · rw [same id']
      exact sound.releasing h id' sem' all handles
    · exact sound.removing h id' sem' removes ((same id').symm.trans holds)

theorem Sound.acquire {s next : State n} (sound : s.Sound) (id : ThreadId) (taken : s.acquire id = some next) :
    next.Sound := by
  unfold State.acquire at taken
  cases phase : s.phase id with
  | running | registered sem =>
    rw [phase] at taken
    cases taken
  | waiting sem =>
    rw [phase] at taken
    dsimp only at taken
    split at taken
    · cases taken
    rename_i available
    cases taken
    have held : (s.phase id).sem? = some sem := by rw [phase]; rfl
    have released : s.releases sem ≠ 0 := by
      have := sound.permits sem
      omega
    have other : ∀ id' sem', (Function.update s.phase id .running id').sem? = some sem' →
        (s.phase id').sem? = some sem' := by
      intro id' sem' holds
      by_cases eq : id' = id
      · rw [eq,Function.update_self] at holds
        cases holds
      · rwa [Function.update_of_ne eq] at holds
    have unreleased : ∀ id' sem', (s.phase id').sem? = some sem' → s.releases sem' = 0 →
        (Function.update s.phase id .running id').sem? = some sem' := by
      intro id' sem' holds free
      have apart : id' ≠ id := by
        rintro rfl
        rw [held] at holds
        cases holds
        exact released free
      rw [Function.update_of_ne apart]
      exact holds
    refine ⟨fun sem' => ?_,sound.once,fun id' sem' holds => sound.own id' sem' (other id' sem' holds),sound.unmade,
      fun id' sem' holds => sound.registered id' sem' (other id' sem' holds),fun id' sem' entry => ?_,
      fun h id' sem' all handles => ?_,fun h id' sem' removes holds => ?_,sound.single⟩
    · have bound := sound.permits sem'
      by_cases eq : sem' = sem
      · subst eq
        simp only [Function.update_self]
        omega
      · simp only [Function.update_of_ne eq]
        exact bound
    · exact (sound.entry id' sem' entry).imp_left fun ⟨holds,free⟩ => ⟨unreleased id' sem' holds free,free⟩
    · obtain ⟨holds,free⟩ := sound.releasing h id' sem' all handles
      exact ⟨unreleased id' sem' holds free,free⟩
    · exact sound.removing h id' sem' removes (other id' sem' holds)

theorem Sound.read {s : State n} (sound : s.Sound) (h : Fin n) (id : ThreadId) (sem : Semaphore) (all : Bool)
    (entry : s.sems id = some sem) (before : ∀ id', (s.handlers h).busy id' = false)
    (free : ∀ h', (s.handlers h').busy id = false) : (s.setHandler h (.release id sem all)).Sound := by
  have held : (s.phase id).sem? = some sem ∧ s.releases sem = 0 := by
    rcases sound.entry id sem entry with held | ⟨h',removes⟩
    · exact held
    · rw [removing_of_free (free h')] at removes
      cases removes
  have removes : ∀ h' id', ((s.setHandler h (.release id sem all)).handlers h').removing id' = true →
      (s.handlers h').removing id' = true := by
    intro h' id' removes
    by_cases eq : h' = h
    · rw [eq,setHandler_same] at removes
      cases removes
    · rwa [setHandler_other _ _ _ _ eq] at removes
  have busy : ∀ h' id', ((s.setHandler h (.release id sem all)).handlers h').busy id' = true →
      h' = h ∧ id' = id ∨ h' ≠ h ∧ id' ≠ id ∧ (s.handlers h').busy id' = true := by
    intro h' id' busy
    by_cases eq : h' = h
    · rw [eq,setHandler_same] at busy
      exact .inl ⟨eq,(of_decide_eq_true busy).symm⟩
    · rw [setHandler_other _ _ _ _ eq] at busy
      refine .inr ⟨eq,?_,busy⟩
      rintro rfl
      rw [free] at busy
      cases busy
  refine ⟨sound.permits,sound.once,sound.own,sound.unmade,sound.registered,fun id' sem' entry => ?_,
    fun h' id' sem' all' handles => ?_,fun h' id' sem' removing => ?_,fun h' h'' id' first second => ?_⟩
  · exact (sound.entry id' sem' entry).imp_right fun ⟨h',removing⟩ =>
      ⟨h',setHandler_removing s h h' _ id' (removing_of_free (before id')) removing⟩
  · by_cases eq : h' = h
    · rw [eq,setHandler_same] at handles
      cases handles
      exact held
    · rw [setHandler_other _ _ _ _ eq] at handles
      exact sound.releasing h' id' sem' all' handles
  · exact sound.removing h' id' sem' (removes h' id' removing)
  · rcases busy h' id' first with ⟨rfl,rfl⟩ | ⟨-,apart,first⟩
    · rcases busy h'' id' second with ⟨rfl,-⟩ | ⟨-,apart,-⟩
      · rfl
      · exact absurd rfl apart
    · rcases busy h'' id' second with ⟨-,eq⟩ | ⟨-,-,second⟩
      · exact absurd eq apart
      · exact sound.single h' h'' id' first second

theorem Sound.release {s : State n} (sound : s.Sound) (h : Fin n) (id : ThreadId) (sem : Semaphore) (all : Bool)
    (handles : s.handlers h = .release id sem all) : ((s.setHandler h (.remove id all)).addPermit sem).Sound := by
  obtain ⟨held,unreleased⟩ := sound.releasing h id sem all handles
  have mine := sound.own id sem held
  have once : ((s.setHandler h (.remove id all)).addPermit sem).releases sem = 1 :=
    (Function.update_self ..).trans (congrArg (· + 1) unreleased)
  have kept : ∀ sem', sem' ≠ sem →
      ((s.setHandler h (.remove id all)).addPermit sem).releases sem' = s.releases sem' :=
    fun sem' apart => Function.update_of_ne apart ..
  have only : ∀ h', (s.handlers h').busy id = true → h' = h :=
    fun h' busy => sound.single h' h id busy (by rw [handles]; simp [Handler.busy])
  have busy : ∀ h' id', ((s.setHandler h (.remove id all)).handlers h').busy id' = true →
    (s.handlers h').busy id' = true := by
    intro h' id' busy
    by_cases eq : h' = h
    · rw [eq,setHandler_same] at busy
      rw [eq,handles]
      exact busy
    · rwa [setHandler_other _ _ _ _ eq] at busy
  refine ⟨fun sem' => ?_,fun sem' => ?_,sound.own,fun sem' bound => ?_,fun id' sem' holds free => ?_,
    fun id' sem' entry => ?_,fun h' id' sem' all' handles' => ?_,fun h' id' sem' removes holds => ?_,
    fun h' h'' id' first second => sound.single h' h'' id' (busy h' id' first) (busy h'' id' second)⟩
  · have bound := sound.permits sem'
    by_cases eq : sem' = sem
    · subst eq
      simp only [addPermit,Function.update_self]
      exact Nat.succ_le_succ bound
    · simp only [addPermit,Function.update_of_ne eq]
      exact bound
  · by_cases eq : sem' = sem
    · rw [eq]
      exact Nat.le_of_eq once
    · rw [kept sem' eq]
      exact sound.once sem'
  · have apart : sem' ≠ sem := by
      rintro rfl
      rw [mine.1] at bound
      exact absurd mine.2 (Nat.not_lt.mpr bound)
    exact (kept sem' apart).trans (sound.unmade sem' bound)
  · have apart : sem' ≠ sem := by
      rintro rfl
      rw [once] at free
      cases free
    exact sound.registered id' sem' holds ((kept sem' apart).symm.trans free)
  · rcases sound.entry id' sem' entry with ⟨holds,free⟩ | ⟨h',removes⟩
    · by_cases eq : sem' = sem
      · subst eq
        have : id' = id := (sound.own id' sem' holds).1.symm.trans mine.1
        subst this
        exact .inr ⟨h,by rw [addPermit_handlers,setHandler_same]; simp [Handler.removing]⟩
      · exact .inl ⟨holds,(kept sem' eq).trans free⟩
    · exact .inr ⟨h',setHandler_removing s h h' _ id' (by rw [handles]; rfl) removes⟩
  · have apart : h' ≠ h := by
      rintro rfl
      rw [addPermit_handlers,setHandler_same] at handles'
      cases handles'
    rw [addPermit_handlers,setHandler_other _ _ _ _ apart] at handles'
    obtain ⟨holds,free⟩ := sound.releasing h' id' sem' all' handles'
    refine ⟨holds,(kept sem' ?_).trans free⟩
    rintro rfl
    have : id' = id := (sound.own id' sem' holds).1.symm.trans mine.1
    subst this
    exact apart (only h' (by rw [handles']; simp [Handler.busy]))
  · by_cases eq : sem' = sem
    · subst eq
      rw [once]
      exact Nat.one_ne_zero
    · rw [kept sem' eq]
      have apart : h' ≠ h := by
        rintro rfl
        rw [addPermit_handlers,setHandler_same] at removes
        have : id = id' := of_decide_eq_true removes
        subst this
        exact eq (Option.some.inj (holds.symm.trans held))
      rw [addPermit_handlers,setHandler_other _ _ _ _ apart] at removes
      exact sound.removing h' id' sem' removes holds

theorem Sound.remove {s : State n} (sound : s.Sound) (h : Fin n) (id : ThreadId) (all : Bool) (handler : Handler)
    (handles : s.handlers h = .remove id all) (after : ∀ id', handler.busy id' = false) :
    Sound { s.setHandler h handler with sems := Function.update s.sems id none } := by
  have removes : (s.handlers h).removing id = true := by rw [handles]; simp [Handler.removing]
  have kept : ∀ h' id', ((s.setHandler h handler).handlers h').busy id' = true →
      (s.setHandler h handler).handlers h' = s.handlers h' :=
    fun h' id' => setHandler_busy s h h' handler id' (after id')
  refine ⟨sound.permits,sound.once,sound.own,sound.unmade,fun id' sem holds free => ?_,fun id' sem entry => ?_,
    fun h' id' sem all' handles' => ?_,fun h' id' sem removing holds => ?_,fun h' h'' id' first second => ?_⟩
  · have apart : id' ≠ id := by
      rintro rfl
      exact sound.removing h id' sem removes holds free
    simp only [Function.update_of_ne apart]
    exact sound.registered id' sem holds free
  · have apart : id' ≠ id := by
      rintro rfl
      simp at entry
    simp only [Function.update_of_ne apart] at entry
    have other : (s.handlers h).removing id' = false := by
      rw [handles]
      exact decide_eq_false apart.symm
    exact (sound.entry id' sem entry).imp_right fun ⟨h',removing⟩ =>
      ⟨h',setHandler_removing s h h' handler id' other removing⟩
  · rw [kept h' id' (by rw [handles']; simp [Handler.busy])] at handles'
    exact sound.releasing h' id' sem all' handles'
  · rw [kept h' id' (removing_busy removing)] at removing
    exact sound.removing h' id' sem removing holds
  · rw [kept h' id' first] at first
    rw [kept h'' id' second] at second
    exact sound.single h' h'' id' first second

theorem Sound.handle {s next : State n} (sound : s.Sound) (h : Fin n) (found : Option Semaphore)
    (orderly : Orderly (.handle h found) s) (taken : s.handle h found = some next) : next.Sound := by
  unfold State.handle at taken
  cases handles : s.handlers h with
  | idle =>
    rw [handles] at taken
    cases taken
  | get id =>
    rw [handles] at taken
    dsimp only at taken
    have before : ∀ id', (s.handlers h).busy id' = false := by simp [handles,Handler.busy]
    cases entry : s.sems id with
    | none =>
      rw [entry] at taken
      cases taken
      exact sound.setHandler h .idle before fun _ => rfl
    | some sem =>
      rw [entry] at taken
      cases taken
      exact sound.read h id sem false entry before (by simpa [Orderly,ReadsOrderly,handles] using orderly)
  | iterate finished =>
    rw [handles] at taken
    dsimp only at taken
    have before : ∀ id', (s.handlers h).busy id' = false := by simp [handles,Handler.busy]
    cases found with
    | none =>
      dsimp only at taken
      split at taken
      · cases taken
        exact sound.setHandler h .idle before fun _ => rfl
      · cases taken
        exact (sound.setHandler h (.iterate true) before fun _ => rfl).iterator h
    | some sem =>
      obtain ⟨-,taken⟩ := Option.ite_none_right_eq_some.mp taken
      cases taken
      simp only [Orderly,ReadsOrderly,handles] at orderly
      exact sound.read h sem.owner sem true orderly.1 before orderly.2
  | release id sem all =>
    rw [handles] at taken
    cases taken
    exact sound.release h id sem all handles
  | remove id all =>
    rw [handles] at taken
    cases taken
    exact sound.remove h id all _ handles fun _ => by cases all <;> rfl

theorem sound_step (action : Action n) (s next : State n) (sound : s.Sound) (orderly : Orderly action s)
    (taken : step action s = some next) : next.Sound := by
  have command : ∀ (h : Fin n) (handler : Handler), (∀ id, handler.busy id = false) → s.handlers h = .idle →
      (s.setHandler h handler).Sound := by
    intro h handler after idle
    exact sound.setHandler h handler (by simp [idle,Handler.busy]) after
  cases action with
  | put id => exact sound.put id orderly taken
  | beginAcquire id => exact sound.beginAcquire id taken
  | acquire id => exact sound.acquire id taken
  | unblockThread h id =>
    obtain ⟨idle,taken⟩ := Option.ite_none_right_eq_some.mp taken
    cases taken
    exact command h (.get id) (fun _ => rfl) idle
  | unblockThreadAll h =>
    obtain ⟨idle,taken⟩ := Option.ite_none_right_eq_some.mp taken
    cases taken
    exact (command h (.iterate true) (fun _ => rfl) idle).iterator h
  | handle h found => exact sound.handle h found orderly taken

/-- With any number of threads and handlers: in a run whose steps are orderly every thread that waits for an
unreleased semaphore can be found under its id, and no semaphore is released twice. -/
theorem blocked_threads_findable (actions : List (Action n))
    (orderly : EachStep step Orderly actions (start n)) : Throughout step Findable actions (start n) := by
  intro front back middle split reached
  have sound := throughout_of_each Sound sound_step actions (start n) orderly
    (start_sound n) front back middle split reached
  exact ⟨fun id sem waits free => sound.registered id sem (by rw [waits]; rfl) free,sound.once⟩

/-- The released thread blocks again before the handler removes its entry. -/
def forgottenRun : List (Action 1) :=
  [.put 1,.beginAcquire 1,.unblockThread 0 1,.handle 0 none,.handle 0 none,.acquire 1,.put 1,.beginAcquire 1,
    .handle 0 none]

theorem blocked_thread_forgotten : ∃ final, run step forgottenRun (start 1) = some final ∧
    final.phase 1 = .waiting ⟨1,1⟩ ∧ final.releases ⟨1,1⟩ = 0 ∧ final.sems 1 = none ∧ ¬ final.Findable := by
  refine ⟨_,rfl,by decide,by decide,by decide,fun findable => ?_⟩
  have registered := findable.1 1 ⟨1,1⟩ (by decide) (by decide)
  revert registered
  decide

/-- The handler finishes before the thread blocks again; a second command releases all threads. -/
def twiceRun (h k : Fin n) : List (Action n) :=
  [.put 1,.beginAcquire 1,.unblockThread h 1,.handle h none,.handle h none,.acquire 1,.handle h none,.put 1,
    .unblockThreadAll k,.handle k (some ⟨1,1⟩),.beginAcquire 1,.handle k none,.handle k none,.handle k none]

theorem blocked_threads_findable_twice : (run step (twiceRun 0 1) (start 2)).isSome = true ∧
    Throughout step Findable (twiceRun 0 1) (start 2) :=
  ⟨by decide +kernel,blocked_threads_findable _ (eachStep_of_check Orderly _ _ (by decide +kernel))⟩

end State

end Aatt.Troy
