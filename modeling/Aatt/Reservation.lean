import Aatt.Threads

/-! Bounds of the slots that the reservation loop hands out. The only step that can break them
is a compare-and-swap that follows `continue`: it still carries the offset that did not fit, and
succeeds when the buffer has meanwhile been flushed and filled up to the same offset again. -/
namespace Aatt.Threads

open Aatt.Lib

/-- The offset is inside the buffer, and so is every slot that a thread owns. -/
structure SlotsInside (m : Machine n) : Prop where
  offset : m.curOffset ≤ m.bufferSize
  slots : ∀ t oldOffset remaining, m.threads t = .write oldOffset remaining →
    oldOffset + kMiniTraceRecordSize ≤ m.bufferSize

def Overflows (m : Machine n) (offset : Nat) : Prop := m.bufferSize < offset + kMiniTraceRecordSize

/-- A thread that has come to its compare-and-swap by `continue` evaluates it while the buffer is full again. -/
def RefilledExchange (a : Action n) (m : Machine n) : Prop :=
  ∃ t job oldOffset, a = .step t ∧ m.threads t = .exchange job oldOffset ∧ Overflows m oldOffset ∧
    Overflows m m.curOffset

/-- The offset that a thread has loaded and will compare with. -/
def Pc.loaded : Pc → Option Nat
  | .check _ oldOffset | .overflow _ oldOffset | .acquire _ oldOffset _ | .locked _ oldOffset _ | .flushLoad _ oldOffset
  | .flushWrite _ oldOffset _ _ | .flushVisit _ oldOffset _ _ | .flushStore _ oldOffset | .release _ oldOffset _
  | .exchange _ oldOffset => some oldOffset
  | _ => none

theorem SlotsInside.move {m : Machine n} (inside : SlotsInside m) (t : Fin n) (pc : Pc)
    (owns : ∀ oldOffset remaining, pc = .write oldOffset remaining → oldOffset + kMiniTraceRecordSize ≤ m.bufferSize)
    (u : Fin n) (oldOffset : Nat) (remaining : List Store)
    (at_u : (m.setPc t pc).threads u = .write oldOffset remaining) :
    oldOffset + kMiniTraceRecordSize ≤ m.bufferSize := by
  by_cases same : u = t
  · subst same
    exact owns oldOffset remaining (by simpa using at_u)
  · rw [Machine.setPc_of_ne m t u pc same] at at_u
    exact inside.slots u oldOffset remaining at_u

theorem plain_owns_none {pc : Pc} (plain : pc.plain) (oldOffset : Nat) (remaining : List Store) :
    pc ≠ .write oldOffset remaining := by
  rintro rfl
  cases plain

theorem slotsInside_step (a : Action n) (m next : Machine n) (inside : SlotsInside m)
    (calm : ¬ RefilledExchange a m) (taken : step a m = some next) : SlotsInside next := by
  have effect := step_effect a m next taken
  have size := effect.bufferSize_eq
  constructor
  · rw [size]
    cases effect with
    | visit t job oldOffset curOffset index trace before visits =>
      have same : trace.curOffset = m.curOffset := by rw [visits.frame]
      exact same ▸ inside.offset
    | reset => exact Nat.zero_le _
    | reserve t job oldOffset action before unchanged =>
      exact Nat.le_of_not_lt fun beyond => calm ⟨t,job,oldOffset,action,before,beyond,unchanged ▸ beyond⟩
    | _ => exact inside.offset
  · rw [size]
    cases effect with
    | skip => exact inside.slots
    | move t pc before after same =>
      exact inside.move t pc fun _ _ eq => absurd eq (plain_owns_none after _ _)
    | acquire t pc before after free =>
      exact inside.move t pc fun _ _ eq => absurd eq (plain_owns_none after _ _)
    | count t pc before after held =>
      exact inside.move t pc fun _ _ eq => absurd eq (plain_owns_none after _ _)
    | release t pc before after held leaves =>
      exact inside.move t pc fun _ _ eq => absurd eq (plain_owns_none after _ _)
    | wrote t job oldOffset curOffset written count pc before within after =>
      refine inside.move t pc fun _ _ eq => ?_
      rcases after with rfl | ⟨-,rfl⟩ <;> cases eq
    | reserve t job oldOffset action before unchanged =>
      refine inside.move t _ fun other remaining eq => ?_
      cases eq
      exact Nat.le_of_not_lt fun beyond => calm ⟨t,job,oldOffset,action,before,beyond,unchanged ▸ beyond⟩
    | store t oldOffset store rest before =>
      refine inside.move t _ fun other remaining eq => ?_
      cases eq
      exact inside.slots t _ _ before
    | beginFlush t | writeError t | visit t | visited t | reset t => exact inside.move t _ nofun

/-- A thread moves and keeps the offset that it has loaded, or loads the current one. -/
def Moves (m next : Machine n) (t : Fin n) (pc : Pc) : Prop :=
  ∃ after, next.threads = Function.update m.threads t after ∧
    ∀ offset, after.loaded = some offset → pc.loaded = some offset ∨ offset = m.curOffset

theorem nothing_loaded {p : Nat → Prop} (offset : Nat) (loaded : none = some offset) : p offset := by cases loaded

theorem advance_moves (m next : Machine n) (t : Fin n) (pc : Pc) (taken : advance m t pc = some next) :
    Moves m next t pc := by
  cases pc with
  | idle => cases taken
  | load job =>
    cases taken
    exact ⟨_,rfl,fun _ loaded => .inr (Option.some.inj loaded).symm⟩
  | check job oldOffset =>
    simp only [advance] at taken
    split at taken <;> cases taken <;> exact ⟨_,rfl,fun _ => .inl⟩
  | overflow job oldOffset =>
    simp only [advance] at taken
    split at taken <;> cases taken
    · exact ⟨_,rfl,nothing_loaded⟩
    · exact ⟨_,rfl,fun _ => .inl⟩
  | acquire job oldOffset localCount =>
    simp only [advance] at taken
    split at taken <;> cases taken
    exact ⟨_,rfl,fun _ => .inl⟩
  | locked job oldOffset localCount =>
    simp only [advance] at taken
    split at taken <;> cases taken <;> exact ⟨_,rfl,fun _ => .inl⟩
  | flushLoad job oldOffset =>
    simp only [advance] at taken
    split at taken <;> cases taken <;> exact ⟨_,rfl,fun _ => .inl⟩
  | flushWrite job oldOffset curOffset written => cases taken
  | flushVisit job oldOffset curOffset index =>
    simp only [advance] at taken
    split at taken
    · split at taken <;> cases taken
      exact ⟨_,rfl,fun _ => .inl⟩
    · cases taken
      exact ⟨_,rfl,fun _ => .inl⟩
  | flushStore job oldOffset =>
    cases taken
    exact ⟨_,rfl,fun _ => .inl⟩
  | release job oldOffset result =>
    cases taken
    cases result with
    | true => exact ⟨_,rfl,fun _ => .inl⟩
    | false => exact ⟨_,rfl,nothing_loaded⟩
  | exchange job oldOffset =>
    simp only [advance] at taken
    split at taken <;> cases taken <;> exact ⟨_,rfl,nothing_loaded⟩
  | write oldOffset remaining =>
    cases remaining with
    | nil =>
      cases taken
      exact ⟨_,rfl,nothing_loaded⟩
    | cons store rest =>
      simp only [advance] at taken
      split at taken <;> cases taken
      exact ⟨_,rfl,nothing_loaded⟩

theorem step_moves (a : Action n) (m next : Machine n) (taken : step a m = some next) :
    next.threads = m.threads ∨ ∃ t, Moves m next t (m.threads t) := by
  cases a with
  | call t call =>
    simp only [step,beginCall] at taken
    split at taken
    · cases taken
    split at taken
    · cases taken
      exact .inl rfl
    · obtain ⟨action,-,rfl⟩ := Option.map_eq_some_iff.mp taken
      exact .inr ⟨t,_,rfl,nothing_loaded⟩
  | step t => exact .inr ⟨t,advance_moves m next t _ taken⟩
  | spurious t =>
    simp only [step] at taken
    cases pc : m.threads t <;> rw [pc] at taken <;> cases taken
    exact .inr ⟨t,_,rfl,nothing_loaded⟩
  | wrote t count =>
    simp only [step] at taken
    cases pc : m.threads t <;> rw [pc] at taken <;> simp only [writeSome,reduceCtorEq] at taken
    split at taken <;> cases taken
    refine .inr ⟨t,_,rfl,fun _ loaded => .inl ?_⟩
    split at loaded <;> simpa [pc,Pc.loaded] using loaded
  | writeError t =>
    simp only [step] at taken
    cases pc : m.threads t <;> rw [pc] at taken <;> cases taken
    exact .inr ⟨t,_,rfl,fun _ loaded => .inl (pc ▸ loaded)⟩

/-- Offsets are multiples of the record size, so a buffer is full at one of them only. -/
structure Slotted (m : Machine n) : Prop where
  inside : SlotsInside m
  current : kMiniTraceRecordSize ∣ m.curOffset
  loaded : ∀ t offset, (m.threads t).loaded = some offset → kMiniTraceRecordSize ∣ offset ∧ offset ≤ m.bufferSize

namespace Slotted

theorem start (n bufferSize : Nat) : Slotted (Machine.start n bufferSize) :=
  ⟨⟨Nat.zero_le _,nofun⟩,Nat.dvd_zero _,nofun⟩

theorem current_step {a : Action n} {m next : Machine n} (slotted : Slotted m) (effect : Effect a m next) :
    kMiniTraceRecordSize ∣ next.curOffset := by
  cases effect with
  | visit t job oldOffset curOffset index trace before visits =>
    have same : trace.curOffset = m.curOffset := by rw [visits.frame]
    exact same ▸ slotted.current
  | reset => exact Nat.dvd_zero _
  | reserve t job oldOffset action before unchanged =>
    exact Nat.dvd_add (unchanged ▸ slotted.current) (Nat.dvd_refl _)
  | _ => exact slotted.current

theorem step (a : Action n) (m next : Machine n) (slotted : Slotted m) (calm : ¬ RefilledExchange a m)
    (taken : step a m = some next) : Slotted next := by
  have effect := step_effect a m next taken
  refine ⟨slotsInside_step a m next slotted.inside calm taken,slotted.current_step effect,fun u offset loaded => ?_⟩
  rw [effect.bufferSize_eq]
  rcases step_moves a m next taken with same | ⟨t,after,moved,keeps⟩
  · exact slotted.loaded u offset (same ▸ loaded)
  rw [moved] at loaded
  by_cases own : u = t
  · subst own
    rcases keeps offset (by simpa using loaded) with before | rfl
    · exact slotted.loaded u offset before
    · exact ⟨slotted.current,slotted.inside.offset⟩
  · rw [Function.update_of_ne own] at loaded
    exact slotted.loaded u offset loaded

theorem same_offset {m : Machine n} (slotted : Slotted m) {t : Fin n} {job : Job} {oldOffset : Nat}
    (before : m.threads t = .exchange job oldOffset) (overflowed : Overflows m oldOffset)
    (full : Overflows m m.curOffset) :
    m.curOffset = oldOffset := by
  obtain ⟨⟨i,rfl⟩,bound⟩ := slotted.loaded t oldOffset (by rw [before]; rfl)
  obtain ⟨j,current⟩ := slotted.current
  have inside := slotted.inside.offset
  unfold Overflows at overflowed full
  rw [current] at inside full ⊢
  simp only [kMiniTraceRecordSize] at *
  omega

end Slotted

/-- Over every interleaving of any number of threads, the offset and all owned slots stay inside the buffer in every
reached state exactly when no compare-and-swap after `continue` is evaluated while the buffer is full again. -/
theorem slots_inside_iff (n bufferSize : Nat) (actions : List (Action n)) :
    Throughout step SlotsInside actions (Machine.start n bufferSize) ↔
      EachStep step (fun a m => ¬ RefilledExchange a m) actions (Machine.start n bufferSize) := by
  refine throughout_iff_each Slotted SlotsInside (fun _ slotted => slotted.inside) Slotted.step ?_ actions _
    (Slotted.start n bufferSize)
  rintro _ m next slotted taken after ⟨t,job,oldOffset,rfl,before,overflowed,full⟩
  have unchanged := slotted.same_offset before overflowed full
  have advanced : next.curOffset = oldOffset + kMiniTraceRecordSize := by
    simp only [step,before,advance,if_pos unchanged,Option.some.injEq] at taken
    rw [← taken]
  have inside := after.offset
  rw [advanced,(step_effect _ _ _ taken).bufferSize_eq] at inside
  exact absurd overflowed (Nat.not_lt.mpr inside)

/-- A buffer of one slot. Thread 0 logs and fills it; thread 1 finds it full and flushes it; thread 0
fills it again before thread 1 gets to its compare-and-swap. -/
def staleRun : List (Action 2) :=
  .call 0 (.monitor 10 8 0 true) :: List.replicate 14 (.step 0) ++
    .call 1 (.monitor 11 8 0 true) :: List.replicate 6 (.step 1) ++
    .wrote 1 14 :: List.replicate 4 (.step 1) ++
    .call 0 (.monitor 10 8 0 false) :: List.replicate 3 (.step 0) ++ [.step 1]

theorem stale_exchange_leaves_buffer : ∃ final, run step staleRun (Machine.start 2 14) = some final ∧
    final.bufferSize = 14 ∧ final.curOffset = 28 ∧
    final.threads 1 = .write 14 (TraceCall.stores .monitorEnter (.monitor 11 8 0 true)) := by
  refine ⟨_,rfl,?_,?_,?_⟩ <;> decide

end Aatt.Threads
