import Aatt.Lib.Locks
import Aatt.ClassInit

/-! A class initializer runs at most once, after the superclass, whichever threads ask for it. -/
namespace Aatt.ClassInit

open Aatt.Lib

variable {k n : Nat}

namespace Place

/-- Between the two critical sections: the class is Initializing by this call. -/
def active : Place → Bool
  | .check | .section | .waiting => false
  | _ => true

def started : Place → Bool
  | .clinit | .finish _ => true
  | _ => false

def grounded : Place → Bool
  | .answered true | .clinit | .finish _ => true
  | _ => false

/-- Where a call stands while another one above it runs. -/
def inner : Place → Bool
  | .awaitSuper | .clinit => true
  | _ => false

theorem active_of_grounded {place : Place} (grounded : place.grounded = true) : place.active = true := by
  cases place <;> first | rfl | nomatch grounded

theorem grounded_of_started {place : Place} (started : place.started = true) : place.grounded = true := by
  cases place <;> first | rfl | nomatch started

end Place

/-- Initialized, or being initialized by one of these calls. -/
def Underway (m : Machine k n) (stack : List (Frame k)) (x : Fin k) : Prop :=
  m.status x = .initialized ∨ ∃ f ∈ stack, f.klass = x ∧ f.place.active = true

/-- What a call relies on, over the calls below it. -/
structure Frame.Fits (super : Fin k → Option (Fin k)) (m : Machine k n) (t : Fin n) (f : Frame k)
    (rest : List (Frame k)) :
    Prop where
  owns : f.place.active = true → m.status f.klass = .initializing ∧ m.clinitThread f.klass = some t
  alone : f.place.active = true → ∀ g ∈ rest, g.place.active = true → g.klass ≠ f.klass
  clinits : f.place.active = true → m.clinits f.klass = f.place.started.toNat
  waits : f.place = .waiting → (m.status f.klass = .initializing ∨ m.status f.klass = .initialized ∨
    m.status f.klass = .error) ∧ m.clinitThread f.klass ≠ some t
  grounded : f.place.grounded = true → ∀ y, super f.klass = some y → Underway m (f :: rest) y
  failed : f.place = .answered false → ∃ y, super f.klass = some y ∧ m.status y = .error
  inner : ∀ g ∈ rest.head?, g.place.inner = true ∧ (g.place = .awaitSuper → super g.klass = some f.klass)

def Untouched (m : Machine k n) (x : Fin k) : Prop := m.status x = .resolved ∨ m.status x = .verified

def Fits (super : Fin k → Option (Fin k)) (m : Machine k n) (t : Fin n) : List (Frame k) → Prop
  | [] => True
  | f :: rest => f.Fits super m t rest ∧ Fits super m t rest

structure Consistent (super : Fin k → Option (Fin k)) (m : Machine k n) : Prop where
  alive : m.aborted = false
  linked : ∀ x, Untouched m x ∨ m.status x = .initializing ∨ m.status x = .initialized ∨ m.status x = .error
  fresh : ∀ x, Untouched m x → m.clinitThread x = none ∧ m.clinits x = 0
  fits : ∀ t, Fits super m t (m.stack t)
  head : ∀ t, ∀ f ∈ (m.stack t).head?, f.place ≠ .awaitSuper
  owner : ∀ x, m.status x = .initializing → ∃ t, m.clinitThread x = some t ∧ ∃ f ∈ m.stack t, f.klass = x ∧
    f.place.active = true
  asleep : ∀ t x, m.asleep t = some x → m.status x = .initializing ∧ ∃ rest, m.stack t = ⟨x,.waiting⟩ :: rest
  clinits : ∀ x, m.clinits x ≤ 1

/-- A step has changed nothing but the class `x`, and that only forwards. -/
structure Grows (m m' : Machine k n) (x : Fin k) : Prop where
  status : ∀ y, y ≠ x → m'.status y = m.status y
  clinitThread : ∀ y, y ≠ x → m'.clinitThread y = m.clinitThread y
  clinits : ∀ y, y ≠ x → m'.clinits y = m.clinits y
  initialized : m.status x = .initialized → m'.status x = .initialized
  error : m.status x = .error → m'.status x = .error
  initializing : m.status x = .initializing →
    m'.status x = .initializing ∨ m'.status x = .initialized ∨ m'.status x = .error
  owner : ¬ Untouched m x → m'.clinitThread x = m.clinitThread x

section Step

variable {super : Fin k → Option (Fin k)} {m m' : Machine k n} {t u : Fin n} {x y : Fin k} {rest stack : List (Frame k)}

theorem Grows.keeps_initialized (grows : Grows m m' x) (y : Fin k) (done : m.status y = .initialized) :
    m'.status y = .initialized := by
  by_cases same : y = x
  · subst same
    exact grows.initialized done
  · rw [grows.status y same]
    exact done

theorem Grows.keeps_error (grows : Grows m m' x) (y : Fin k) (failed : m.status y = .error) : m'.status y = .error := by
  by_cases same : y = x
  · subst same
    exact grows.error failed
  · rw [grows.status y same]
    exact failed

theorem Grows.keeps_owner (grows : Grows m m' x) (begun : ¬ Untouched m y) : m'.clinitThread y = m.clinitThread y := by
  by_cases same : y = x
  · subst same
    exact grows.owner begun
  · exact grows.clinitThread y same

theorem Untouched.not_of (begun : m.status x = .initializing ∨ m.status x = .initialized ∨ m.status x = .error) :
    ¬ Untouched m x := by
  rintro (before | before) <;> simp [before] at begun

theorem Frame.Fits.keep {f : Frame k} (fits : f.Fits super m t rest) (grows : Grows m m' x)
    (idle : f.place.active = true → f.klass ≠ x) : f.Fits super m' t rest where
  owns := fun active => by
    rw [grows.status _ (idle active),grows.clinitThread _ (idle active)]
    exact fits.owns active
  alone := fits.alone
  clinits := fun active => by
    rw [grows.clinits _ (idle active)]
    exact fits.clinits active
  waits := fun place => by
    obtain ⟨begun,other⟩ := fits.waits place
    refine ⟨?_,(grows.keeps_owner (Untouched.not_of begun)).symm ▸ other⟩
    rcases begun with busy | done | failed
    · by_cases same : f.klass = x
      · rw [same] at busy ⊢
        exact grows.initializing busy
      · rw [grows.status _ same]
        exact .inl busy
    · exact .inr (.inl (grows.keeps_initialized _ done))
    · exact .inr (.inr (grows.keeps_error _ failed))
  grounded := fun place y super => (fits.grounded place y super).imp_left (grows.keeps_initialized y)
  failed := fun place => by
    obtain ⟨y,super,failed⟩ := fits.failed place
    exact ⟨y,super,grows.keeps_error y failed⟩
  inner := fits.inner

theorem Fits.keep (grows : Grows m m' x) (fits : Fits super m t stack)
    (idle : ∀ f ∈ stack, f.place.active = true → f.klass ≠ x) : Fits super m' t stack := by
  induction stack with
  | nil => trivial
  | cons f rest ih =>
    obtain ⟨first,others⟩ := fits
    exact ⟨first.keep grows (idle f List.mem_cons_self),ih others fun g member =>
      idle g (List.mem_cons_of_mem f member)⟩

theorem Fits.owns {f : Frame k} (fits : Fits super m t stack) (member : f ∈ stack) (active : f.place.active = true) :
    m.status f.klass = .initializing ∧ m.clinitThread f.klass = some t := by
  induction stack with
  | nil => nomatch member
  | cons g rest ih =>
    rcases List.mem_cons.mp member with rfl | deeper
    · exact fits.1.owns active
    · exact ih fits.2 deeper

theorem Fits.grounded {f : Frame k} (fits : Fits super m t stack) (member : f ∈ stack)
    (grounded : f.place.grounded = true) (parent : super f.klass = some y) : Underway m stack y := by
  induction stack with
  | nil => nomatch member
  | cons g rest ih =>
    rcases List.mem_cons.mp member with rfl | deeper
    · exact fits.1.grounded grounded y parent
    · exact (ih fits.2 deeper).imp_right fun ⟨f,below,same⟩ => ⟨f,List.mem_cons_of_mem _ below,same⟩

theorem Fits.idle (fits : Fits super m t stack) (other : m.status x ≠ .initializing) :
    ∀ f ∈ stack, f.place.active = true → f.klass ≠ x := by
  rintro f member active rfl
  exact other (fits.owns member active).1

theorem Fits.idle_other (fits : Fits super m u stack) (owned : m.clinitThread x = some t) (other : u ≠ t) :
    ∀ f ∈ stack, f.place.active = true → f.klass ≠ x := by
  rintro f member active rfl
  exact other (Option.some.inj ((fits.owns member active).2.symm.trans owned))

/-- The invariant after a step of the thread `t` for the class `x`, from what the step does to both. -/
theorem Consistent.after (c : Consistent super m) (alive : m'.aborted = false) (grows : Grows m m' x)
    (moved : m'.stack = Function.update m.stack t stack)
    (idle : ∀ u, u ≠ t → ∀ f ∈ m.stack u, f.place.active = true → f.klass ≠ x) (fits : Fits super m' t stack)
    (head : ∀ f ∈ stack.head?, f.place ≠ .awaitSuper)
    (linked : Untouched m' x ∨ m'.status x = .initializing ∨ m'.status x = .initialized ∨ m'.status x = .error)
    (fresh : Untouched m' x → m'.clinitThread x = none ∧ m'.clinits x = 0)
    (kept : ∀ f ∈ m.stack t, f.place.active = true → f.klass ≠ x → ∃ g ∈ stack, g.klass = f.klass ∧
      g.place.active = true)
    (owner : m'.status x = .initializing → ∃ u, m'.clinitThread x = some u ∧
      ∃ f ∈ m'.stack u, f.klass = x ∧ f.place.active = true)
    (asleep : ∀ u y, m'.asleep u = some y → m'.status y = .initializing ∧ ∃ rest, m'.stack u = ⟨y,.waiting⟩ :: rest)
    (clinits : m'.clinits x ≤ 1) : Consistent super m' := by
  refine ⟨alive,fun y => ?_,fun y untouched => ?_,fun u => ?_,fun u => ?_,fun y busy => ?_,asleep,fun y => ?_⟩
  · by_cases same : y = x
    · exact same ▸ linked
    · rw [Untouched,grows.status y same]
      exact c.linked y
  · by_cases same : y = x
    · subst same
      exact fresh untouched
    · rw [grows.clinitThread y same,grows.clinits y same]
      rw [Untouched,grows.status y same] at untouched
      exact c.fresh y untouched
  · rw [moved]
    by_cases acting : u = t
    · subst acting
      rw [Function.update_self]
      exact fits
    · rw [Function.update_of_ne acting]
      exact (c.fits u).keep grows (idle u acting)
  · rw [moved]
    by_cases acting : u = t
    · subst acting
      rw [Function.update_self]
      exact head
    · rw [Function.update_of_ne acting]
      exact c.head u
  · by_cases same : y = x
    · subst same
      exact owner busy
    · rw [grows.status y same] at busy
      obtain ⟨u,owned,f,member,rfl,active⟩ := c.owner y busy
      refine ⟨u,(grows.clinitThread _ same).trans owned,?_⟩
      rw [moved]
      by_cases acting : u = t
      · subst acting
        rw [Function.update_self]
        exact kept f member active same
      · rw [Function.update_of_ne acting]
        exact ⟨f,member,rfl,active⟩
  · by_cases same : y = x
    · exact same ▸ clinits
    · rw [grows.clinits y same]
      exact c.clinits y

theorem Consistent.asleep_go (c : Consistent super m) (awake : m.asleep t = none) (u : Fin n) (y : Fin k)
    (sleeps : m.asleep u = some y) :
    m.status y = .initializing ∧ ∃ rest, Function.update m.stack t stack u = ⟨y,.waiting⟩ :: rest := by
  have other : u ≠ t := by
    rintro rfl
    nomatch awake.symm.trans sleeps
  rw [Function.update_of_ne other]
  exact c.asleep u y sleeps

theorem Consistent.awake (c : Consistent super m) {place : Place} (top : m.stack t = ⟨x,place⟩ :: rest)
    (other : place ≠ .waiting) : m.asleep t = none := by
  cases sleeps : m.asleep t with
  | none => rfl
  | some y =>
    obtain ⟨-,rest',same⟩ := c.asleep t y sleeps
    rw [top] at same
    cases same
    exact absurd rfl other

def Result (m : Machine k n) (rest : List (Frame k)) (x : Fin k) : Bool → Prop
  | true => Underway m rest x
  | false => m.status x = .error

theorem deliver_fits {success : Bool} (fits : Fits super m t rest)
    (above : ∀ g ∈ rest.head?, g.place.inner = true ∧ (g.place = .awaitSuper → super g.klass = some x))
    (result : Result m rest x success) : Fits super m t (Machine.deliver success rest) := by
  unfold Machine.deliver
  split
  · rename_i y rest
    obtain ⟨first,others⟩ := fits
    have own := (above ⟨y,.awaitSuper⟩ rfl).2 rfl
    refine ⟨⟨first.owns,first.alone,first.clinits,nofun,fun place z parent => ?_,fun place => ?_,first.inner⟩,others⟩
    · cases success with
      | false => nomatch place
      | true =>
        obtain rfl : x = z := Option.some.inj (own.symm.trans parent)
        refine Or.imp_right (fun ⟨f,member,same,active⟩ => ?_) result
        rcases List.mem_cons.mp member with rfl | deeper
        · exact ⟨⟨y,.answered true⟩,List.mem_cons_self,same,rfl⟩
        · exact ⟨f,List.mem_cons_of_mem _ deeper,same,active⟩
    · cases success with
      | false => exact ⟨x,own,result⟩
      | true => nomatch place
  · exact fits

theorem deliver_head {success : Bool} : ∀ f ∈ (Machine.deliver success rest).head?, f.place ≠ .awaitSuper := by
  unfold Machine.deliver
  split
  · rintro f ⟨⟩
    nofun
  · rename_i other
    rintro ⟨y,place⟩ member rfl
    obtain ⟨others,rfl⟩ : ∃ others, rest = ⟨y,.awaitSuper⟩ :: others := List.head?_eq_some_iff.mp member
    exact other y others rfl

theorem deliver_kept {success : Bool} {f : Frame k} (member : f ∈ rest) (active : f.place.active = true) :
    ∃ g ∈ Machine.deliver success rest, g.klass = f.klass ∧ g.place.active = true := by
  unfold Machine.deliver
  split
  · rename_i y rest
    rcases List.mem_cons.mp member with rfl | deeper
    · exact ⟨⟨y,.answered success⟩,List.mem_cons_self,rfl,rfl⟩
    · exact ⟨f,List.mem_cons_of_mem _ deeper,rfl,active⟩
  · exact ⟨f,member,rfl,active⟩

/-- Each call that initializes a class still does after a step, if the calls below the last one have not changed. -/
theorem kept_below {place : Place} (top : m.stack t = ⟨x,place⟩ :: rest)
    (own : place.active = true → ∃ g ∈ stack, g.klass = x ∧ g.place.active = true)
    (below : ∀ f ∈ rest, f.place.active = true → ∃ g ∈ stack, g.klass = f.klass ∧ g.place.active = true) :
    ∀ f ∈ m.stack t, f.place.active = true → ∃ g ∈ stack, g.klass = f.klass ∧ g.place.active = true := by
  rw [top]
  exact List.forall_mem_cons.mpr ⟨own,below⟩

theorem kept_tail {f : Frame k} : ∀ g ∈ rest, g.place.active = true →
    ∃ h ∈ f :: rest, h.klass = g.klass ∧ h.place.active = true :=
  fun g deeper works => ⟨g,List.mem_cons_of_mem f deeper,rfl,works⟩

theorem Fits.congr (status : m'.status = m.status) (thread : m'.clinitThread = m.clinitThread)
    (clinits : m'.clinits = m.clinits) (fits : Fits super m t stack) : Fits super m' t stack := by
  induction stack with
  | nil => trivial
  | cons f rest ih =>
    obtain ⟨first,others⟩ := fits
    refine ⟨⟨?_,first.alone,?_,?_,fun place y parent => ?_,?_,first.inner⟩,ih others⟩
    · rw [status,thread]
      exact first.owns
    · rw [clinits]
      exact first.clinits
    · rw [status,thread]
      exact first.waits
    · rw [Underway,status]
      exact first.grounded place y parent
    · rw [status]
      exact first.failed

theorem Consistent.same (c : Consistent super m) (alive : m'.aborted = m.aborted) (status : m'.status = m.status)
    (thread : m'.clinitThread = m.clinitThread) (clinits : m'.clinits = m.clinits)
    (moved : m'.stack = Function.update m.stack t stack) (fits : Fits super m t stack)
    (head : ∀ f ∈ stack.head?, f.place ≠ .awaitSuper)
    (kept : ∀ f ∈ m.stack t, f.place.active = true → ∃ g ∈ stack, g.klass = f.klass ∧ g.place.active = true)
    (asleep : ∀ u y, m'.asleep u = some y → m.status y = .initializing ∧
      ∃ rest, Function.update m.stack t stack u = ⟨y,.waiting⟩ :: rest) : Consistent super m' := by
  refine ⟨alive.trans c.alive,?_,?_,fun u => ?_,fun u => ?_,?_,?_,?_⟩
  · simpa only [Untouched,status] using c.linked
  · simpa only [Untouched,status,thread,clinits] using c.fresh
  · rw [moved]
    by_cases acting : u = t
    · subst acting
      rw [Function.update_self]
      exact fits.congr status thread clinits
    · rw [Function.update_of_ne acting]
      exact (c.fits u).congr status thread clinits
  · rw [moved]
    by_cases acting : u = t
    · subst acting
      rw [Function.update_self]
      exact head
    · rw [Function.update_of_ne acting]
      exact c.head u
  · rw [status,thread,moved]
    intro y busy
    obtain ⟨u,owned,f,member,rfl,active⟩ := c.owner y busy
    refine ⟨u,owned,?_⟩
    by_cases acting : u = t
    · subst acting
      rw [Function.update_self]
      exact kept f member active
    · rw [Function.update_of_ne acting]
      exact ⟨f,member,rfl,active⟩
  · rw [status,moved]
    exact asleep
  · rw [clinits]
    exact c.clinits

theorem head_ne {place : Place} (other : place ≠ .awaitSuper) :
    ∀ f ∈ (⟨x,place⟩ :: rest).head?, f.place ≠ .awaitSuper := by
  rintro f ⟨⟩
  exact other

theorem Consistent.move (c : Consistent super m) {place place' : Place} (top : m.stack t = ⟨x,place⟩ :: rest)
    (awake : place ≠ .waiting) (fits : Frame.Fits super m t ⟨x,place'⟩ rest)
    (head : place' ≠ .awaitSuper) (active : place.active = true → place'.active = true) :
    Consistent super (m.goto t x rest place') := by
  have below := c.fits t
  rw [top] at below
  exact c.same (t := t) rfl rfl rfl rfl rfl ⟨fits,below.2⟩ (head_ne head)
    (kept_below top (fun busy => ⟨⟨x,place'⟩,List.mem_cons_self,rfl,active busy⟩) kept_tail)
    (fun u y => c.asleep_go (c.awake top awake) u y)

theorem Consistent.back (c : Consistent super m) {place : Place} {success : Bool} (top : m.stack t = ⟨x,place⟩ :: rest)
    (passive : place.active = false) (awake : m.asleep t = none) (result : Result m rest x success) :
    Consistent super (m.returns t x rest success) := by
  have below := c.fits t
  rw [top] at below
  exact c.same (t := t) rfl rfl rfl rfl rfl (deliver_fits below.2 below.1.inner result) deliver_head
    (kept_below top (fun busy => nomatch passive.symm.trans busy) fun f => deliver_kept)
    (fun u y => c.asleep_go awake u y)

theorem passive_fits {f : Frame k} (passive : f.place.active = false) (awake : f.place ≠ .waiting)
    (inner : ∀ g ∈ rest.head?, g.place.inner = true ∧ (g.place = .awaitSuper → super g.klass = some f.klass)) :
    f.Fits super m t rest where
  owns := fun active => nomatch passive.symm.trans active
  alone := fun active => nomatch passive.symm.trans active
  clinits := fun active => nomatch passive.symm.trans active
  waits := fun place => absurd place awake
  grounded := fun place => nomatch passive.symm.trans (Place.active_of_grounded place)
  failed := fun place => by
    rw [place] at passive
    nomatch passive
  inner := inner

def Onward (old new : Status) : Prop := old.value < new.value ∨ new = .error ∧ old ≠ .error

theorem setStatus_eq {status : Status} (onward : Onward (m.status x) status) :
    m.setStatus x status = { m with
      status := Function.update m.status x status
      asleep := fun t => if m.asleep t = some x then none else m.asleep t } := by
  refine if_neg ?_
  rintro (⟨low,other⟩ | ⟨failed,already⟩)
  · rcases onward with grows | ⟨failed,-⟩
    · omega
    · exact other failed
  · rcases onward with grows | ⟨-,fresh⟩
    · rw [failed,already] at grows
      exact absurd grows (by decide)
    · exact fresh already

theorem setStatus_frame (status : Status) : (m.setStatus x status).stack = m.stack ∧
    (m.setStatus x status).clinitThread = m.clinitThread ∧ (m.setStatus x status).clinits = m.clinits ∧
    (m.setStatus x status).told = m.told := by
  unfold Machine.setStatus
  split <;> exact ⟨rfl,rfl,rfl,rfl⟩

/-- Whoever still sleeps after a change of the class `x` sleeps on another class. -/
theorem Consistent.asleep_set (c : Consistent super m) {status : Status} (awake : m.asleep t = none)
    (u : Fin n) (y : Fin k) (sleeps : (if m.asleep u = some x then none else m.asleep u) = some y) :
    Function.update m.status x status y = .initializing ∧
      ∃ rest, Function.update m.stack t stack u = ⟨y,.waiting⟩ :: rest := by
  split at sleeps
  · nomatch sleeps
  · rename_i other
    have apart : y ≠ x := by
      rintro rfl
      exact other sleeps
    rw [Function.update_of_ne apart]
    exact c.asleep_go awake u y sleeps

theorem Consistent.settle (c : Consistent super m) {place : Place} {success : Bool} {status : Status}
    (final : status = if success then .initialized else .error) (top : m.stack t = ⟨x,place⟩ :: rest)
    (awake : place ≠ .waiting) (unsettled : Untouched m x ∨ m.status x = .initializing)
    (idle : ∀ u, u ≠ t → ∀ f ∈ m.stack u, f.place.active = true → f.klass ≠ x)
    (alone : ∀ f ∈ rest, f.place.active = true → f.klass ≠ x) :
    Consistent super ((m.setStatus x status).returns t x rest success) := by
  have below := c.fits t
  rw [top] at below
  have ended : status = .initialized ∨ status = .error := by
    cases success
    · exact .inr final
    · exact .inl final
  have onward : Onward (m.status x) status := by
    rcases unsettled with (before | before) | before <;> rcases ended with rfl | rfl <;> rw [before] <;>
      first | exact .inl (by decide) | exact .inr ⟨rfl,by decide⟩
  rw [setStatus_eq onward]
  have grows : Grows m (Machine.returns { m with
      status := Function.update m.status x status
      asleep := fun t => if m.asleep t = some x then none else m.asleep t } t x rest success) x := by
    refine ⟨fun y other => Function.update_of_ne other _ _,fun _ _ => rfl,fun _ _ => rfl,fun done => ?_,
      fun failed => ?_,
      fun _ => .inr ?_,fun _ => ?_⟩
    · rcases unsettled with (before | before) | before <;> nomatch before.symm.trans done
    · rcases unsettled with (before | before) | before <;> nomatch before.symm.trans failed
    · simpa only [Machine.returns,Function.update_self] using ended
    · exact rfl
  have now : Function.update m.status x status x = status := Function.update_self ..
  refine c.after c.alive grows rfl idle (deliver_fits (below.2.keep grows alone) below.1.inner ?_) deliver_head
    (.inr (.inr (ended.imp now.trans now.trans)))
    (fun untouched => ?_) (fun f member active other => ?_) (fun busy => ?_)
    (fun u y => c.asleep_set (c.awake top awake) u y) (c.clinits x)
  · cases success with
    | false => exact now.trans final
    | true => exact .inl (now.trans final)
  · rcases ended with rfl | rfl <;> rcases untouched with before | before <;> nomatch now.symm.trans before
  · rw [top] at member
    rcases List.mem_cons.mp member with rfl | deeper
    · exact absurd rfl other
    · exact deliver_kept deeper active
  · rcases ended with rfl | rfl <;> nomatch now.symm.trans busy

theorem Untouched.unsettled (untouched : Untouched m x) :
    m.status x ≠ .initialized ∧ m.status x ≠ .error ∧ m.status x ≠ .initializing := by
  rcases untouched with before | before <;> simp [before]

theorem Untouched.grows (untouched : Untouched m x) (status : ∀ y, y ≠ x → m'.status y = m.status y)
    (thread : ∀ y, y ≠ x → m'.clinitThread y = m.clinitThread y) (clinits : m'.clinits = m.clinits) : Grows m m' x where
  status := status
  clinitThread := thread
  clinits := fun _ _ => by rw [clinits]
  initialized := fun done => absurd done untouched.unsettled.1
  error := fun failed => absurd failed untouched.unsettled.2.1
  initializing := fun busy => absurd busy untouched.unsettled.2.2
  owner := fun begun => absurd untouched begun

theorem Consistent.verify (c : Consistent super m) (awake : m.asleep t = none) (before : m.status x = .resolved) :
    Consistent super (m.setStatus x .verified) := by
  have untouched : Untouched m x := .inl before
  have onward : Onward (m.status x) .verified := .inl (by rw [before]; decide)
  rw [setStatus_eq onward]
  have grows : Grows m { m with
      status := Function.update m.status x .verified
      asleep := fun t => if m.asleep t = some x then none else m.asleep t } x :=
    untouched.grows (fun y other => Function.update_of_ne other _ _) (fun _ _ => rfl) rfl
  have idle (u : Fin n) := (c.fits u).idle untouched.unsettled.2.2
  have now : Function.update m.status x .verified x = .verified := Function.update_self ..
  refine c.after c.alive grows (Function.update_eq_self t m.stack).symm (fun u _ => idle u)
    ((c.fits t).keep grows (idle t)) (c.head t) (.inl (.inr now)) (fun _ => c.fresh x untouched)
    (fun f member active _ => ⟨f,member,rfl,active⟩) (fun busy => nomatch now.symm.trans busy) (fun u y sleeps => ?_)
    (c.clinits x)
  have stays : Function.update m.status x .verified y = .initializing ∧
      ∃ rest, Function.update m.stack t (m.stack t) u = ⟨y,.waiting⟩ :: rest := c.asleep_set awake u y sleeps
  rwa [Function.update_eq_self] at stays

theorem Consistent.begin (c : Consistent super m) {place : Place} (top : m.stack t = ⟨x,place⟩ :: rest)
    (passive : place.active = false) (awake : place ≠ .waiting) (before : m.status x = .verified) :
    Consistent super (({ m with clinitThread := Function.update m.clinitThread x (some t) }.setStatus
      x .initializing).goto t x
      rest .superclass) := by
  have below := c.fits t
  rw [top] at below
  have untouched : Untouched m x := .inr before
  have onward : Onward (m.status x) .initializing := .inl (by rw [before]; decide)
  rw [setStatus_eq (m := { m with clinitThread := Function.update m.clinitThread x (some t) }) onward]
  have grows : Grows m { m with
      status := Function.update m.status x .initializing
      clinitThread := Function.update m.clinitThread x (some t)
      stack := Function.update m.stack t (⟨x,.superclass⟩ :: rest)
      asleep := fun t => if m.asleep t = some x then none else m.asleep t } x :=
    untouched.grows (fun y other => Function.update_of_ne other _ _)
      (fun y other => Function.update_of_ne other _ _) rfl
  have idle (u : Fin n) := (c.fits u).idle untouched.unsettled.2.2
  have nobody := below.2.idle untouched.unsettled.2.2
  have now : Function.update m.status x .initializing x = .initializing := Function.update_self ..
  have mine : Function.update m.clinitThread x (some t) x = some t := Function.update_self ..
  refine c.after c.alive grows rfl (fun u _ => idle u) ⟨⟨fun _ => ⟨now,mine⟩,fun _ => nobody,
    fun _ => (c.fresh x untouched).2,nofun,nofun,nofun,below.1.inner⟩,below.2.keep grows nobody⟩ (head_ne nofun)
      (.inr (.inl now))
    (fun fresh => ?_) (fun f member active _ => kept_below top (fun works => nomatch passive.symm.trans works)
      kept_tail f
      member active) (fun _ => ⟨t,mine,⟨x,.superclass⟩,?_,rfl,rfl⟩)
    (fun u y => c.asleep_set (c.awake top awake) u y) (c.clinits x)
  · rcases fresh with before | before <;> nomatch now.symm.trans before
  · simp [Machine.goto]

theorem Consistent.clinit (c : Consistent super m) {place : Place} (top : m.stack t = ⟨x,place⟩ :: rest)
    (active : place.active = true) (early : place.started = false)
    (grounded : ∀ y, super x = some y → Underway m (⟨x,place⟩ :: rest) y) :
    Consistent super (m.runClinit t x rest) := by
  have below := c.fits t
  rw [top] at below
  obtain ⟨busy,mine⟩ := below.1.owns active
  have alone := below.1.alone active
  have awake : place ≠ .waiting := by
    rintro rfl
    nomatch active
  have none_before : m.clinits x = 0 := by
    rw [below.1.clinits active,early]
    rfl
  have now : Function.update m.clinits x (m.clinits x + 1) x = 1 := by simp [none_before]
  have keep {y : Fin k} : Underway m (⟨x,place⟩ :: rest) y → Underway (m.runClinit t x rest)
    (⟨x,.clinit⟩ :: rest) y := by
    rintro (done | ⟨f,member,same,works⟩)
    · exact .inl done
    · rcases List.mem_cons.mp member with rfl | deeper
      · exact .inr ⟨⟨x,.clinit⟩,List.mem_cons_self,same,rfl⟩
      · exact .inr ⟨f,List.mem_cons_of_mem _ deeper,same,works⟩
  have grows : Grows m (m.runClinit t x rest) x := ⟨fun _ _ => rfl,fun _ _ => rfl,
    fun y other => Function.update_of_ne other _ _,id,id,.inl,fun _ => rfl⟩
  refine c.after c.alive grows rfl (fun u other => (c.fits u).idle_other mine other)
    ⟨⟨fun _ => ⟨busy,mine⟩,fun _ => alone,fun _ => now,nofun,fun _ y parent => keep (grounded y parent),nofun,
      below.1.inner⟩,below.2.keep grows alone⟩ (head_ne nofun) (.inr (.inl busy)) (fun fresh =>
        absurd busy fresh.unsettled.2.2)
    (fun f member works _ => kept_below top (fun _ => ⟨⟨x,.clinit⟩,List.mem_cons_self,rfl,rfl⟩) kept_tail
      f member works)
    (fun _ => ⟨t,mine,⟨x,.clinit⟩,?_,rfl,rfl⟩)
    (fun u y => c.asleep_go (c.awake top awake) u y) (le_of_eq now)
  simp [Machine.runClinit]

theorem Consistent.wait (c : Consistent super m) {place : Place} (top : m.stack t = ⟨x,place⟩ :: rest)
    (passive : place.active = false) (busy : m.status x = .initializing) (other : m.clinitThread x ≠ some t) :
    Consistent super (Machine.goto { m with asleep := Function.update m.asleep t (some x) } t x rest .waiting) := by
  have below := c.fits t
  rw [top] at below
  refine c.same (t := t) rfl rfl rfl rfl rfl ⟨⟨nofun,nofun,nofun,fun _ => ⟨.inl busy,other⟩,nofun,nofun,
    below.1.inner⟩,below.2⟩
    (head_ne nofun) (kept_below top (fun works => nomatch passive.symm.trans works) kept_tail) (fun u y sleeps => ?_)
  by_cases acting : u = t
  · subst acting
    obtain rfl : x = y := by simpa [Machine.goto] using sleeps
    exact ⟨busy,rest,Function.update_self ..⟩
  · simp only [Machine.goto,Function.update_of_ne acting] at sleeps ⊢
    exact c.asleep u y sleeps

theorem Consistent.underway (c : Consistent super m) {place : Place} (top : m.stack t = ⟨x,place⟩ :: rest)
    (passive : place.active = false) (busy : m.status x = .initializing) (mine : m.clinitThread x = some t) :
    Underway m rest x := by
  obtain ⟨u,owned,f,member,same,works⟩ := c.owner x busy
  obtain rfl : t = u := Option.some.inj (mine.symm.trans owned)
  rw [top] at member
  rcases List.mem_cons.mp member with rfl | deeper
  · nomatch passive.symm.trans works
  · exact .inr ⟨f,deeper,same,works⟩

theorem Consistent.claim (c : Consistent super m) {valid : Bool} (top : m.stack t = ⟨x,.section⟩ :: rest)
    (ready : m.status x = .verified ∨ m.status x = .initializing) : Consistent super (m.claim t x rest valid) := by
  have below := c.fits t
  rw [top] at below
  unfold Machine.claim
  split
  next busy =>
    split
    next mine => exact c.back top rfl (c.awake top nofun) (c.underway top rfl busy mine)
    next other => exact c.wait top rfl busy other
  next free =>
    have verified := ready.resolve_right free
    split
    · have untouched : Untouched m x := .inr verified
      exact c.settle rfl top nofun (.inl untouched) (fun u _ => (c.fits u).idle free) (below.2.idle free)
    · exact c.begin top rfl nofun verified

theorem Consistent.enter (c : Consistent super m) {verifies valid : Bool} (top : m.stack t = ⟨x,.section⟩ :: rest) :
    Consistent super (m.enter t x rest verifies valid) := by
  have below := c.fits t
  rw [top] at below
  have awake := c.awake top nofun
  unfold Machine.enter
  split
  next done => exact c.back top rfl awake (.inl done)
  next unready =>
    split
    next failed => exact c.back top rfl awake failed
    next unfailed =>
      split
      next resolved =>
        have free := Untouched.unsettled (.inl resolved)
        split
        · refine (c.verify awake resolved).claim ((congrFun (setStatus_frame _).1 t).trans top) (.inl ?_)
          have onward : Onward (m.status x) .verified := .inl (by rw [resolved]; decide)
          rw [setStatus_eq onward]
          exact Function.update_self ..
        · exact c.settle rfl top nofun (.inl (.inl resolved)) (fun u _ => (c.fits u).idle free.2.2)
            (below.2.idle free.2.2)
      next unresolved =>
        refine c.claim top ?_
        rcases c.linked x with (resolved | verified) | busy | done | failed
        · exact absurd resolved unresolved
        · exact .inl verified
        · exact .inr busy
        · exact absurd done unready
        · exact absurd failed unfailed

theorem Consistent.leave (c : Consistent super m) {place : Place} {success : Bool} {status : Status}
    (final : status = if success then .initialized else .error) (top : m.stack t = ⟨x,place⟩ :: rest)
    (active : place.active = true) : Consistent super ((m.setStatus x status).returns t x rest success) := by
  have below := c.fits t
  rw [top] at below
  obtain ⟨busy,mine⟩ := below.1.owns active
  refine c.settle final top ?_ (.inr busy) (fun u other => (c.fits u).idle_other mine other) (below.1.alone active)
  rintro rfl
  nomatch active

/-- A call of `InitializeClass` begins. -/
theorem Consistent.push (c : Consistent super m) (awake : m.asleep t = none) (below : Fits super m t rest)
    (inner : ∀ g ∈ rest.head?, g.place.inner = true ∧ (g.place = .awaitSuper → super g.klass = some x))
    (kept : ∀ f ∈ m.stack t, f.place.active = true → ∃ g ∈ rest, g.klass = f.klass ∧ g.place.active = true) :
    Consistent super (m.goto t x rest .check) := by
  refine c.same (t := t) rfl rfl rfl rfl rfl ⟨passive_fits rfl nofun inner,below⟩ (head_ne nofun)
    (fun f member works => ?_)
    (fun u y => c.asleep_go awake u y)
  obtain ⟨g,deeper,same⟩ := kept f member works
  exact ⟨g,List.mem_cons_of_mem _ deeper,same⟩

theorem Frame.Fits.finish (success : Bool) (fits : Frame.Fits super m t ⟨x,.clinit⟩ rest) :
    Frame.Fits super m t ⟨x,.finish success⟩ rest := by
  refine ⟨fits.owns,fits.alone,fits.clinits,nofun,fun _ y parent => ?_,nofun,fits.inner⟩
  refine (fits.grounded rfl y parent).imp_right fun ⟨f,member,same,works⟩ => ?_
  rcases List.mem_cons.mp member with rfl | deeper
  · exact ⟨_,List.mem_cons_self,same,rfl⟩
  · exact ⟨f,List.mem_cons_of_mem _ deeper,same,works⟩

theorem Consistent.superclass (c : Consistent super m) (top : m.stack t = ⟨x,.superclass⟩ :: rest)
    (parent : super x = some y) :
    Consistent super { m with stack := Function.update m.stack t (⟨y,.check⟩ :: ⟨x,.awaitSuper⟩ :: rest) } := by
  have below := c.fits t
  rw [top] at below
  obtain ⟨first,others⟩ := below
  refine c.push (x := y) (c.awake top nofun) ⟨⟨first.owns,first.alone,first.clinits,nofun,nofun,nofun,
    first.inner⟩,others⟩
    ?_ (kept_below top (fun _ => ⟨⟨x,.awaitSuper⟩,List.mem_cons_self,rfl,rfl⟩) kept_tail)
  rintro g ⟨⟩
  exact ⟨rfl,fun _ => parent⟩

/-- Back from `WaitIgnoringInterrupts`. -/
theorem Consistent.woken (c : Consistent super m) {verifies valid success : Bool}
    (top : m.stack t = ⟨x,.waiting⟩ :: rest) (taken : next super m t verifies valid success x rest .waiting =
      some m') : Consistent super m' := by
  have below := c.fits t
  rw [top] at below
  obtain ⟨begun,other⟩ := below.1.waits rfl
  rw [next] at taken
  split at taken
  · nomatch taken
  · rename_i up
    have awake : m.asleep t = none := by
      cases sleeps : m.asleep t with
      | none => rfl
      | some y =>
        obtain ⟨-,others,same⟩ := c.asleep t y sleeps
        cases top.symm.trans same
        exact absurd sleeps up
    rcases begun with busy | done | failed
    · simp only [busy,Option.some.injEq] at taken
      subst taken
      have again := c.wait top rfl busy other
      rwa [Machine.goto,← top,Function.update_eq_self] at again
    · simp only [done,Option.some.injEq] at taken
      subst taken
      exact c.back top rfl awake (.inl done)
    · simp only [failed,Option.some.injEq] at taken
      subst taken
      exact c.back top rfl awake failed

theorem consistent_next (c : Consistent super m) {verifies valid success : Bool} {place : Place}
    (top : m.stack t = ⟨x,place⟩ :: rest) (taken : next super m t verifies valid success x rest place = some m') :
    Consistent super m' := by
  have below := c.fits t
  rw [top] at below
  obtain ⟨first,-⟩ := below
  cases place with
  | check =>
    cases taken
    split
    next done => exact c.back top rfl (c.awake top nofun) (.inl done)
    next => exact c.move top nofun (passive_fits rfl nofun first.inner) nofun nofun
  | «section» =>
    cases taken
    exact c.enter top
  | waiting => exact c.woken top taken
  | superclass =>
    rw [next] at taken
    split at taken
    next root =>
      cases taken
      exact c.clinit top rfl rfl fun y parent => nomatch root.symm.trans parent
    next y parent =>
      split at taken
      next done =>
        cases taken
        refine c.clinit top rfl rfl fun z parent' => .inl ?_
        cases parent.symm.trans parent'
        exact done
      next =>
        cases taken
        exact c.superclass top parent
  | awaitSuper => nomatch taken
  | answered answer =>
    cases answer with
    | true =>
      cases taken
      exact c.clinit top rfl rfl (first.grounded rfl)
    | false =>
      obtain ⟨y,parent,failed⟩ := first.failed rfl
      rw [next,parent] at taken
      simp only [failed,if_true,Option.some.injEq] at taken
      subst taken
      exact c.move top nofun ⟨first.owns,first.alone,first.clinits,nofun,nofun,nofun,first.inner⟩ nofun fun _ => rfl
  | failed =>
    cases taken
    exact c.leave rfl top rfl
  | clinit =>
    cases taken
    exact c.move top nofun (first.finish success) nofun fun _ => rfl
  | finish outcome =>
    cases outcome <;> cases taken
    · exact c.leave rfl top rfl
    · exact c.leave rfl top rfl

theorem consistent_step {action : Action k n} (c : Consistent super m) (taken : step super action m = some m') :
    Consistent super m' := by
  cases action with
  | call t x =>
    simp only [step,c.alive,Bool.false_eq_true,if_false] at taken
    split at taken
    next idle =>
      cases taken
      have awake : m.asleep t = none := by
        cases sleeps : m.asleep t with
        | none => rfl
        | some y =>
          obtain ⟨-,others,same⟩ := c.asleep t y sleeps
          nomatch idle.symm.trans same
      refine c.push awake trivial nofun ?_
      rw [idle]
      nofun
    next y rest top =>
      cases taken
      have below := c.fits t
      rw [top] at below
      refine c.push (c.awake top nofun) below ?_ fun f member works => ⟨f,top ▸ member,rfl,works⟩
      rintro g ⟨⟩
      exact ⟨rfl,nofun⟩
    next => nomatch taken
  | step t verifies valid success =>
    simp only [step,c.alive,Bool.false_eq_true,if_false] at taken
    split at taken
    next => nomatch taken
    next x place rest top => exact consistent_next c top taken
  | wake t =>
    simp only [step,c.alive,Bool.false_eq_true,if_false] at taken
    split at taken
    · nomatch taken
    · cases taken
      refine c.same (t := t) c.alive.symm rfl rfl rfl (Function.update_eq_self t m.stack).symm (c.fits t) (c.head t)
        (fun f member works => ⟨f,member,rfl,works⟩) (fun u y sleeps => ?_)
      rw [Function.update_eq_self]
      by_cases acting : u = t
      · subst acting
        simp at sleeps
      · simp only [Function.update_of_ne acting] at sleeps
        exact c.asleep u y sleeps

def Settled (status : Status) : Prop := status = .initialized ∨ status = .error

theorem setStatus_other {status : Status} (other : y ≠ x) : (m.setStatus x status).status y = m.status y := by
  unfold Machine.setStatus
  split
  · rfl
  · exact Function.update_of_ne other ..

theorem claim_other {valid : Bool} (other : y ≠ x) :
    (m.claim t x rest valid).status y = m.status y := by
  unfold Machine.claim
  split
  · split <;> rfl
  · split
    · exact setStatus_other other
    · split
      · exact setStatus_other other
      · rfl

theorem enter_settled {verifies valid : Bool} (settled : Settled (m.status y)) :
    (m.enter t x rest verifies valid).status y = m.status y := by
  unfold Machine.enter
  split
  next => rfl
  next unready =>
    split
    next => rfl
    next unfailed =>
      have other : y ≠ x := by
        rintro rfl
        exact settled.elim unready unfailed
      split
      · split
        · rw [claim_other other,setStatus_other other]
        · exact setStatus_other other
      · exact claim_other other

theorem settled_next (c : Consistent super m) {verifies valid success : Bool} {place : Place}
    (top : m.stack t = ⟨x,place⟩ :: rest) (taken : next super m t verifies valid success x rest place = some m')
    (settled : Settled (m.status y)) : m'.status y = m.status y := by
  have below := c.fits t
  rw [top] at below
  have other (active : place.active = true) : y ≠ x := by
    rintro rfl
    have busy := (below.1.owns active).1
    rcases settled with done | failed
    · nomatch busy.symm.trans done
    · nomatch busy.symm.trans failed
  cases place with
  | check =>
    cases taken
    split <;> rfl
  | «section» =>
    cases taken
    exact enter_settled settled
  | waiting =>
    rw [next] at taken
    split at taken
    · nomatch taken
    · split at taken <;> cases taken <;> rfl
  | superclass =>
    rw [next] at taken
    split at taken
    · cases taken
      rfl
    · split at taken <;> cases taken <;> rfl
  | awaitSuper => nomatch taken
  | answered answer =>
    cases answer with
    | true =>
      cases taken
      rfl
    | false =>
      rw [next] at taken
      split at taken
      · split at taken <;> cases taken <;> rfl
      · cases taken
        rfl
  | failed =>
    cases taken
    exact setStatus_other (other rfl)
  | clinit =>
    cases taken
    rfl
  | finish outcome =>
    cases outcome <;> cases taken
    · exact setStatus_other (other rfl)
    · exact setStatus_other (other rfl)

theorem settled_step {action : Action k n} (c : Consistent super m) (taken : step super action m = some m')
    (settled : Settled (m.status y)) : m'.status y = m.status y := by
  cases action with
  | call t x =>
    simp only [step,c.alive,Bool.false_eq_true,if_false] at taken
    split at taken <;> cases taken <;> rfl
  | step t verifies valid success =>
    simp only [step,c.alive,Bool.false_eq_true,if_false] at taken
    split at taken
    next => nomatch taken
    next x place rest top => exact settled_next c top taken settled
  | wake t =>
    simp only [step,c.alive,Bool.false_eq_true,if_false] at taken
    split at taken <;> cases taken
    rfl

/-- Where `InitializeClass` returns true, the class is initialized or the thread that gets the answer is initializing
it. -/
def Answers (m m' : Machine k n) : Prop := ∀ t x, m'.told t x ≠ m.told t x →
  m'.status x = .initialized ∨ m'.status x = .initializing ∧ m'.clinitThread x = some t

theorem answers_of_told (same : m'.told = m.told) : Answers m m' := fun t x told => absurd (by rw [same]) told

theorem answers_returns {success : Bool} (same : m'.told = m.told) (trusted : success = true →
      m'.status x = .initialized ∨ m'.status x = .initializing ∧ m'.clinitThread x = some t) :
    Answers m (m'.returns t x rest success) := by
  intro u y told
  cases success with
  | false => exact absurd (congrFun (congrFun same u) y) told
  | true =>
    by_cases own : u = t
    · subst own
      by_cases klass : y = x
      · subst klass
        exact trusted rfl
      · simp [Machine.returns,same,klass] at told
    · simp [Machine.returns,same,own] at told

theorem answers_claim {valid : Bool} : Answers m (m.claim t x rest valid) := by
  unfold Machine.claim
  split
  next busy =>
    split
    next mine => exact answers_returns rfl fun _ => .inr ⟨busy,mine⟩
    next => exact answers_of_told rfl
  next =>
    split
    · exact answers_returns (setStatus_frame _).2.2.2 nofun
    · split
      · exact answers_of_told (setStatus_frame _).2.2.2
      · exact answers_of_told rfl

theorem answers_enter {verifies valid : Bool} : Answers m (m.enter t x rest verifies valid) := by
  unfold Machine.enter
  split
  next done => exact answers_returns rfl fun _ => .inl done
  next =>
    split
    · exact answers_returns rfl nofun
    · split
      · split
        · intro u y told
          refine answers_claim u y ?_
          rwa [(setStatus_frame _).2.2.2]
        · exact answers_returns (setStatus_frame _).2.2.2 nofun
      · exact answers_claim

theorem answers_next (c : Consistent super m) {verifies valid success : Bool} {place : Place}
    (top : m.stack t = ⟨x,place⟩ :: rest) (taken : next super m t verifies valid success x rest place = some m') :
    Answers m m' := by
  cases place with
  | check =>
    cases taken
    split
    next done => exact answers_returns rfl fun _ => .inl done
    next => exact answers_of_told rfl
  | «section» =>
    cases taken
    exact answers_enter
  | waiting =>
    rw [next] at taken
    split at taken
    · nomatch taken
    · split at taken
      next => cases taken; exact answers_of_told rfl
      next => cases taken; exact answers_returns rfl nofun
      next done => cases taken; exact answers_returns rfl fun _ => .inl done
      next => cases taken; exact answers_of_told rfl
  | superclass =>
    rw [next] at taken
    split at taken
    · cases taken
      exact answers_of_told rfl
    · split at taken <;> cases taken <;> exact answers_of_told rfl
  | awaitSuper => nomatch taken
  | answered answer =>
    cases answer with
    | true =>
      cases taken
      exact answers_of_told rfl
    | false =>
      rw [next] at taken
      split at taken
      · split at taken <;> cases taken <;> exact answers_of_told rfl
      · cases taken
        exact answers_of_told rfl
  | failed =>
    cases taken
    exact answers_returns (setStatus_frame _).2.2.2 nofun
  | clinit =>
    cases taken
    exact answers_of_told rfl
  | finish outcome =>
    cases outcome with
    | false =>
      cases taken
      exact answers_returns (setStatus_frame _).2.2.2 nofun
    | true =>
      cases taken
      have below := c.fits t
      rw [top] at below
      have busy := (below.1.owns rfl).1
      refine answers_returns (setStatus_frame _).2.2.2 fun _ => .inl ?_
      have onward : Onward (m.status x) .initialized := .inl (by rw [busy]; decide)
      rw [setStatus_eq onward]
      exact Function.update_self ..

theorem answers_step {action : Action k n} (c : Consistent super m) (taken : step super action m = some m') :
    Answers m m' := by
  cases action with
  | call t x =>
    simp only [step,c.alive,Bool.false_eq_true,if_false] at taken
    split at taken <;> cases taken <;> exact answers_of_told rfl
  | step t verifies valid success =>
    simp only [step,c.alive,Bool.false_eq_true,if_false] at taken
    split at taken
    next => nomatch taken
    next x place rest top => exact answers_next c top taken
  | wake t =>
    simp only [step,c.alive,Bool.false_eq_true,if_false] at taken
    split at taken <;> cases taken
    exact answers_of_told rfl

end Step

theorem consistent_start (super : Fin k → Option (Fin k)) (verified : Fin k → Bool) :
    Consistent super (Machine.start n verified) := by
  have untouched (x : Fin k) : Untouched (Machine.start n verified) x := by
    by_cases early : verified x = true
    · exact .inr (if_pos early)
    · exact .inl (if_neg early)
  exact ⟨rfl,fun x => .inl (untouched x),fun _ _ => ⟨rfl,rfl⟩,fun _ => trivial,fun _ => nofun,
    fun x busy => absurd busy (untouched x).unsettled.2.2,nofun,fun _ => Nat.zero_le 1⟩

theorem consistent_run (super : Fin k → Option (Fin k)) (verified : Fin k → Bool) (actions : List (Action k n)) :
    Throughout (step super) (Consistent super) actions (Machine.start n verified) :=
  throughout_of_step _ (fun _ _ _ c taken => consistent_step c taken) actions _ (consistent_start super verified)

/-- No `CHECK` of `InitializeClass` and `SetStatus` fails, no class initializer runs twice, and while one runs the
superclass is initialized, or the same thread is initializing it. -/
theorem clinit_once (super : Fin k → Option (Fin k)) (verified : Fin k → Bool) (actions : List (Action k n)) :
    Throughout (step super) (fun m => m.aborted = false ∧ (∀ x, m.clinits x ≤ 1) ∧
      ∀ t, ∀ f ∈ m.stack t, f.place.started = true → ∀ y, super f.klass = some y →
        m.status y = .initialized ∨ m.status y = .initializing ∧ m.clinitThread y = some t)
      actions (Machine.start n verified) := by
  intro front back m split reached
  have c := consistent_run super verified actions front back m split reached
  refine ⟨c.alive,c.clinits,fun t f member started y parent => ?_⟩
  refine ((c.fits t).grounded member (Place.grounded_of_started started) parent).imp_right ?_
  rintro ⟨g,other,rfl,active⟩
  exact (c.fits t).owns other active

/-- Whenever `InitializeClass` returns true to a thread, the class is initialized or that thread is initializing it,
and what is initialized or has failed stays so. -/
theorem initialized_stays (super : Fin k → Option (Fin k)) (verified : Fin k → Bool) (actions : List (Action k n)) :
    EachStep (step super) (fun a m => ∀ next, step super a m = some next → ∀ t x, next.told t x ≠ m.told t x →
      next.status x = .initialized ∨ next.status x = .initializing ∧ next.clinitThread x = some t)
      actions (Machine.start n verified) ∧
    Throughout (step super) (fun m => ∀ x, Settled (m.status x) →
      ∀ later, Throughout (step super) (fun m' => m'.status x = m.status x) later m)
      actions (Machine.start n verified) := by
  have run := consistent_run super verified actions
  constructor
  · intro front a back m next split reached _ after taken
    exact answers_step (run front (a :: back) m split reached) taken
  · intro front back m split reached x settled later
    have c := run front back m split reached
    have kept : Throughout (step super) (fun m' => Consistent super m' ∧ m'.status x = m.status x) later m := by
      refine throughout_of_step _ ?_ later m ⟨c,rfl⟩
      rintro action m₁ m₂ ⟨c₁,same⟩ taken
      exact ⟨consistent_step c₁ taken,(settled_step c₁ taken (same ▸ settled)).trans same⟩
    intro before after m' cut ran
    exact (kept before after m' cut ran).2

/-- A thread sleeps on the lock of a class that another one initializes. -/
def WaitsFor (m : Machine k n) (t u : Fin n) : Prop := ∃ x, m.asleep t = some x ∧ m.clinitThread x = some u

section Progress

variable {super : Fin k → Option (Fin k)} {m : Machine k n} {t u : Fin n}

theorem enabled (c : Consistent super m) (busy : m.stack t ≠ []) (awake : m.asleep t = none)
    (verifies valid success : Bool) :
    (step super (.step t verifies valid success) m).isSome = true := by
  obtain ⟨⟨x,place⟩,rest,top⟩ := List.exists_cons_of_ne_nil busy
  have head : place ≠ .awaitSuper := c.head t ⟨x,place⟩ (by rw [top]; rfl)
  simp only [step,c.alive,Bool.false_eq_true,if_false,top]
  cases place with
  | awaitSuper => exact absurd rfl head
  | waiting =>
    rw [next,awake,if_neg nofun]
    split <;> rfl
  | superclass =>
    rw [next]
    split
    · rfl
    · split <;> rfl
  | answered answer =>
    cases answer
    · rw [next]
      split <;> rfl
    · rfl
  | finish outcome => cases outcome <;> rfl
  | _ => rfl

theorem Consistent.at_work (c : Consistent super m) (waits : WaitsFor m t u) : m.stack u ≠ [] := by
  obtain ⟨x,sleeps,owned⟩ := waits
  obtain ⟨v,owner,f,member,-⟩ := c.owner x (c.asleep t x sleeps).1
  cases owned.symm.trans owner
  exact List.ne_nil_of_mem member

theorem Consistent.awake_of_free (c : Consistent super m) (free : ∀ v, ¬ WaitsFor m u v) : m.asleep u = none := by
  cases sleeps : m.asleep u with
  | none => rfl
  | some x =>
    obtain ⟨v,owner,-⟩ := c.owner x (c.asleep u x sleeps).1
    exact absurd ⟨x,sleeps,owner⟩ (free v)

end Progress

/-- No thread sleeps for ever unless class initializers wait for each other in a circle: otherwise each call of
`InitializeClass` can go on, or waits in the end for a thread that can. -/
theorem initializeClass_progress (super : Fin k → Option (Fin k)) (verified : Fin k → Bool)
    (actions : List (Action k n)) :
    Throughout (step super) (fun m => Acyclic (WaitsFor m) → ∀ t, m.stack t ≠ [] →
      ∃ u, Relation.ReflTransGen (WaitsFor m) t u ∧
        ∀ verifies valid success, (step super (.step u verifies valid success) m).isSome = true)
      actions (Machine.start n verified) := by
  intro front back m split reached acyclic t busy
  have c := consistent_run super verified actions front back m split reached
  obtain ⟨u,path,free⟩ := acyclic.terminal t
  have works : m.stack u ≠ [] := by
    rcases Relation.ReflTransGen.cases_tail path with rfl | ⟨w,-,edge⟩
    · exact busy
    · exact c.at_work edge
  exact ⟨u,path,enabled c works (c.awake_of_free free)⟩

/-- Two threads ask for two classes whose initializers ask for each other: each waits for the other. -/
example : ∃ m : Machine 2 2, run (step fun _ => none) (List.flatten
      [[.call 0 0],.replicate 3 (.step 0 true true true),[.call 1 1],.replicate 3 (.step 1 true true true),
        [.call 0 1],.replicate 2 (.step 0 true true true),[.call 1 0],.replicate 2 (.step 1 true true true)])
      (Machine.start 2 fun _ => true) = some m ∧ m.asleep 0 = some 1 ∧ m.asleep 1 = some 0 ∧
      m.clinitThread 0 = some 0 ∧ m.clinitThread 1 = some 1 :=
  ⟨_,rfl,by decide +kernel⟩

end Aatt.ClassInit
