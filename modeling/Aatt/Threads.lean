import Mathlib.Logic.Function.Basic
import Aatt.Lib.Transition
import Aatt.MiniTrace

/-! Logging by any number of threads. Each access to `cur_offset_`, `buffer_overflow_count_`,
`trace_lock_`, the data file or a byte of the buffer is one step, and the threads interleave
freely. A step that would access the buffer out of its bounds or abort the process has no
successor. -/
namespace Aatt.Threads

open Aatt.Lib

/-- Runs of two threads number them by literals. -/
scoped instance two_threads : NeZero 2 := ⟨by decide⟩

structure Job where
  call : TraceCall
  action : MiniTraceAction
  deriving DecidableEq, Repr

def Job.stores (job : Job) : List Store := job.call.stores job.action

/-- Where a thread stands. `oldOffset` is the local of the reservation loop; during a flush the
thread also holds the local `cur_offset` and how far it has written or parsed. -/
inductive Pc where
  | idle
  | load (job : Job)
  | check (job : Job) (oldOffset : Nat)
  | overflow (job : Job) (oldOffset : Nat)
  | acquire (job : Job) (oldOffset localCount : Nat)
  | locked (job : Job) (oldOffset localCount : Nat)
  | flushLoad (job : Job) (oldOffset : Nat)
  | flushWrite (job : Job) (oldOffset curOffset written : Nat)
  | flushVisit (job : Job) (oldOffset curOffset index : Nat)
  | flushStore (job : Job) (oldOffset : Nat)
  | release (job : Job) (oldOffset : Nat) (result : Bool)
  | exchange (job : Job) (oldOffset : Nat)
  | write (oldOffset : Nat) (remaining : List Store)
  deriving DecidableEq, Repr

/-- The shared state. `accepted` is not in the code: it collects the record of each call whose
compare-and-swap succeeds, the stores of the call over what its slot held then. -/
structure Machine (n : Nat) extends MiniTrace where
  lock : Option (Fin n)
  threads : Fin n → Pc
  accepted : List (List Byte)

namespace Machine

def start (n bufferSize : Nat) : Machine n :=
  { MiniTrace.new bufferSize with lock := none, threads := fun _ => .idle, accepted := [] }

def setPc (m : Machine n) (t : Fin n) (pc : Pc) : Machine n :=
  { m with threads := Function.update m.threads t pc }

end Machine

/-- A thread begins a call, takes its next step, fails its weak compare-and-swap spuriously, or
gets the answer of a `write` call. -/
inductive Action (n : Nat) where
  | call (t : Fin n) (call : TraceCall)
  | step (t : Fin n)
  | spurious (t : Fin n)
  | wrote (t : Fin n) (count : Nat)
  | writeError (t : Fin n)
  deriving DecidableEq, Repr

def beginCall (m : Machine n) (t : Fin n) (call : TraceCall) : Option (Machine n) :=
  if m.threads t ≠ .idle then none else
  if !call.traceable then some m else
  call.action.map fun action => m.setPc t (.load ⟨call,action⟩)

def advance (m : Machine n) (t : Fin n) : Pc → Option (Machine n)
  | .idle => none
  | .load job => some (m.setPc t (.check job m.curOffset))
  | .check job oldOffset =>
    if oldOffset + kMiniTraceRecordSize > m.bufferSize then some (m.setPc t (.overflow job oldOffset))
    else some (m.setPc t (.exchange job oldOffset))
  | .overflow job oldOffset =>
    if m.bufferOverflowCount > 1024 then some (m.setPc t .idle)
    else some (m.setPc t (.acquire job oldOffset m.bufferOverflowCount))
  | .acquire job oldOffset localCount =>
    if m.lock = none then some { m.setPc t (.locked job oldOffset localCount) with lock := some t } else none
  | .locked job oldOffset localCount =>
    if localCount ≠ m.bufferOverflowCount then some (m.setPc t (.release job oldOffset true))
    else some { m.setPc t (.flushLoad job oldOffset) with bufferOverflowCount := m.bufferOverflowCount + 1 }
  | .flushLoad job oldOffset =>
    if m.curOffset = 0 then some (m.setPc t (.release job oldOffset true))
    else some (m.setPc t (.flushWrite job oldOffset m.curOffset 0))
  | .flushWrite .. => none
  | .flushVisit job oldOffset curOffset index =>
    if kMiniTraceRecordSize * index < curOffset then
      match visitRecord m.toMiniTrace (kMiniTraceRecordSize * index) with
      | .error _ => none
      | .ok trace =>
        some { m.setPc t (.flushVisit job oldOffset curOffset (index + 1)) with toMiniTrace := trace }
    else some (m.setPc t (.flushStore job oldOffset))
  | .flushStore job oldOffset => some { m.setPc t (.release job oldOffset true) with curOffset := 0 }
  | .release job oldOffset result =>
    -- after a flush that worked the loop condition is evaluated with the offsets loaded before
    some { m.setPc t (if result then .exchange job oldOffset else .idle) with lock := none }
  | .exchange job oldOffset =>
    if m.curOffset = oldOffset then
      some { m.setPc t (.write oldOffset job.stores) with
        curOffset := oldOffset + kMiniTraceRecordSize
        accepted := m.accepted ++ [writeStores (slot m.buf oldOffset kMiniTraceRecordSize) job.stores] }
    else some (m.setPc t (.load job))
  | .write _ [] => some (m.setPc t .idle)
  | .write oldOffset (store :: rest) =>
    if oldOffset + store.1 < m.bufferSize then
      some { m.setPc t (.write oldOffset rest) with buf := m.buf.set (oldOffset + store.1) store.2 }
    else none

/-- One `write` call of `WriteFully` that takes `count` bytes. -/
def writeSome (m : Machine n) (t : Fin n) (count : Nat) : Pc → Option (Machine n)
  | .flushWrite job oldOffset curOffset written =>
    if curOffset ≤ m.bufferSize ∧ written + count ≤ curOffset then
      some { m.setPc t (if written + count = curOffset then .flushVisit job oldOffset curOffset 0
          else .flushWrite job oldOffset curOffset (written + count)) with
        traceDataFile := m.traceDataFile ++ slot m.buf written count }
    else none
  | _ => none

def failWrite (m : Machine n) (t : Fin n) : Pc → Option (Machine n)
  | .flushWrite job oldOffset _ _ => some (m.setPc t (.release job oldOffset false))
  | _ => none

def failExchange (m : Machine n) (t : Fin n) : Pc → Option (Machine n)
  | .exchange job _ => some (m.setPc t (.load job))
  | _ => none

def step : Action n → Machine n → Option (Machine n)
  | .call t call, m => beginCall m t call
  | .step t, m => advance m t (m.threads t)
  | .spurious t, m => failExchange m t (m.threads t)
  | .wrote t count, m => writeSome m t count (m.threads t)
  | .writeError t, m => failWrite m t (m.threads t)

namespace Pc

/-- Holding `trace_lock_`. -/
def critical : Pc → Bool
  | .locked .. | .flushLoad .. | .flushWrite .. | .flushVisit .. | .flushStore .. | .release .. => true
  | _ => false

def plain : Pc → Bool
  | .flushWrite .. | .flushVisit .. | .flushStore .. | .write .. => false
  | _ => true

def resting : Pc → Bool
  | .flushWrite .. | .flushVisit .. | .flushStore .. | .write _ (_ :: _) => false
  | _ => true

end Pc

/-- Everything a step can do, by its effect on the shared state. -/
inductive Effect (a : Action n) (m : Machine n) : Machine n → Prop where
  | skip : Effect a m m
  | move (t : Fin n) (pc : Pc) (before : (m.threads t).resting) (after : pc.plain)
      (same : pc.critical = (m.threads t).critical) : Effect a m (m.setPc t pc)
  | acquire (t : Fin n) (pc : Pc) (before : (m.threads t).resting) (after : pc.plain) (free : m.lock = none) :
      Effect a m { m.setPc t pc with lock := some t }
  | count (t : Fin n) (pc : Pc) (before : (m.threads t).resting) (after : pc.plain)
      (held : (m.threads t).critical) :
      Effect a m { m.setPc t pc with bufferOverflowCount := m.bufferOverflowCount + 1 }
  | beginFlush (t : Fin n) (job : Job) (oldOffset : Nat) (action : a = .step t)
      (before : m.threads t = .flushLoad job oldOffset) :
      Effect a m (m.setPc t (.flushWrite job oldOffset m.curOffset 0))
  | wrote (t : Fin n) (job : Job) (oldOffset curOffset written count : Nat) (pc : Pc)
      (before : m.threads t = .flushWrite job oldOffset curOffset written)
      (inside : written + count ≤ curOffset)
      (after : pc = .flushWrite job oldOffset curOffset (written + count) ∨
        written + count = curOffset ∧ pc = .flushVisit job oldOffset curOffset 0) :
      Effect a m { m.setPc t pc with traceDataFile := m.traceDataFile ++ slot m.buf written count }
  | writeError (t : Fin n) (job : Job) (oldOffset : Nat) (action : a = .writeError t)
      (held : (m.threads t).critical) : Effect a m (m.setPc t (.release job oldOffset false))
  | visit (t : Fin n) (job : Job) (oldOffset curOffset index : Nat) (trace : MiniTrace)
      (before : m.threads t = .flushVisit job oldOffset curOffset index)
      (visits : Visits m.toMiniTrace trace [slot m.buf (kMiniTraceRecordSize * index) kMiniTraceRecordSize]) :
      Effect a m { m.setPc t (.flushVisit job oldOffset curOffset (index + 1)) with toMiniTrace := trace }
  | visited (t : Fin n) (job : Job) (oldOffset curOffset index : Nat)
      (before : m.threads t = .flushVisit job oldOffset curOffset index) :
      Effect a m (m.setPc t (.flushStore job oldOffset))
  | reset (t : Fin n) (job : Job) (oldOffset : Nat) (before : m.threads t = .flushStore job oldOffset) :
      Effect a m { m.setPc t (.release job oldOffset true) with curOffset := 0 }
  | release (t : Fin n) (pc : Pc) (before : (m.threads t).resting) (after : pc.plain)
      (held : (m.threads t).critical) (leaves : pc.critical = false) : Effect a m { m.setPc t pc with lock := none }
  | reserve (t : Fin n) (job : Job) (oldOffset : Nat) (action : a = .step t)
      (before : m.threads t = .exchange job oldOffset) (unchanged : m.curOffset = oldOffset) :
      Effect a m { m.setPc t (.write oldOffset job.stores) with
        curOffset := oldOffset + kMiniTraceRecordSize
        accepted := m.accepted ++ [writeStores (slot m.buf oldOffset kMiniTraceRecordSize) job.stores] }
  | store (t : Fin n) (oldOffset : Nat) (store : Store) (rest : List Store)
      (before : m.threads t = .write oldOffset (store :: rest)) :
      Effect a m { m.setPc t (.write oldOffset rest) with buf := m.buf.set (oldOffset + store.1) store.2 }

theorem beginCall_effect (a : Action n) (m next : Machine n) (t : Fin n) (call : TraceCall)
    (taken : beginCall m t call = some next) : Effect a m next := by
  unfold beginCall at taken
  by_cases busy : m.threads t ≠ .idle
  · rw [if_pos busy] at taken
    cases taken
  · rw [if_neg busy] at taken
    have idle : m.threads t = .idle := not_not.mp busy
    split at taken
    · cases taken
      exact .skip
    · obtain ⟨action,-,rfl⟩ := Option.map_eq_some_iff.mp taken
      exact .move t _ (by rw [idle]; rfl) rfl (by rw [idle]; rfl)

theorem advance_effect (m next : Machine n) (t : Fin n) (taken : advance m t (m.threads t) = some next) :
    Effect (.step t) m next := by
  cases pc : m.threads t with
  | idle =>
    rw [pc] at taken
    cases taken
  | load job =>
    rw [pc] at taken
    cases taken
    exact .move t _ (by rw [pc]; rfl) rfl (by rw [pc]; rfl)
  | check job oldOffset =>
    rw [pc] at taken
    simp only [advance] at taken
    split at taken <;> cases taken <;> exact .move t _ (by rw [pc]; rfl) rfl (by rw [pc]; rfl)
  | overflow job oldOffset =>
    rw [pc] at taken
    simp only [advance] at taken
    split at taken <;> cases taken <;> exact .move t _ (by rw [pc]; rfl) rfl (by rw [pc]; rfl)
  | acquire job oldOffset localCount =>
    rw [pc] at taken
    simp only [advance] at taken
    split at taken
    · cases taken
      exact .acquire t _ (by rw [pc]; rfl) rfl ‹_›
    · cases taken
  | locked job oldOffset localCount =>
    rw [pc] at taken
    simp only [advance] at taken
    split at taken <;> cases taken
    · exact .move t _ (by rw [pc]; rfl) rfl (by rw [pc]; rfl)
    · exact .count t _ (by rw [pc]; rfl) rfl (by rw [pc]; rfl)
  | flushLoad job oldOffset =>
    rw [pc] at taken
    simp only [advance] at taken
    split at taken <;> cases taken
    · exact .move t _ (by rw [pc]; rfl) rfl (by rw [pc]; rfl)
    · exact .beginFlush t job oldOffset rfl pc
  | flushWrite job oldOffset curOffset written =>
    rw [pc] at taken
    cases taken
  | flushVisit job oldOffset curOffset index =>
    rw [pc] at taken
    simp only [advance] at taken
    split at taken
    · split at taken
      · cases taken
      · cases taken
        exact .visit t job oldOffset curOffset index _ pc (visitRecord_visits _ _ _ ‹_›)
    · cases taken
      exact .visited t job oldOffset curOffset index pc
  | flushStore job oldOffset =>
    rw [pc] at taken
    cases taken
    exact .reset t job oldOffset pc
  | release job oldOffset result =>
    rw [pc] at taken
    cases taken
    cases result <;> exact .release t _ (by rw [pc]; rfl) rfl (by rw [pc]; rfl) rfl
  | exchange job oldOffset =>
    rw [pc] at taken
    simp only [advance] at taken
    split at taken <;> cases taken
    · exact .reserve t job oldOffset rfl pc ‹_›
    · exact .move t _ (by rw [pc]; rfl) rfl (by rw [pc]; rfl)
  | write oldOffset remaining =>
    rw [pc] at taken
    cases remaining with
    | nil =>
      cases taken
      exact .move t _ (by rw [pc]; rfl) rfl (by rw [pc]; rfl)
    | cons store rest =>
      simp only [advance] at taken
      split at taken
      · cases taken
        exact .store t oldOffset store rest pc
      · cases taken

theorem writeSome_effect (a : Action n) (m next : Machine n) (t : Fin n) (count : Nat)
    (taken : writeSome m t count (m.threads t) = some next) : Effect a m next := by
  cases pc : m.threads t <;> rw [pc] at taken <;> simp only [writeSome,reduceCtorEq] at taken
  case flushWrite job oldOffset curOffset written =>
    split at taken
    · rename_i inside
      cases taken
      refine .wrote t job oldOffset curOffset written count _ pc inside.2 ?_
      split
      · exact .inr ⟨‹_›,rfl⟩
      · exact .inl rfl
    · cases taken

theorem failWrite_effect (m next : Machine n) (t : Fin n) (taken : failWrite m t (m.threads t) = some next) :
    Effect (.writeError t) m next := by
  cases pc : m.threads t <;> rw [pc] at taken <;> simp only [failWrite,reduceCtorEq] at taken
  case flushWrite job oldOffset curOffset written =>
    cases taken
    exact .writeError t job oldOffset rfl (by rw [pc]; rfl)

theorem failExchange_effect (a : Action n) (m next : Machine n) (t : Fin n)
    (taken : failExchange m t (m.threads t) = some next) : Effect a m next := by
  cases pc : m.threads t <;> rw [pc] at taken <;> simp only [failExchange,reduceCtorEq] at taken
  case exchange job oldOffset =>
    cases taken
    exact .move t _ (by rw [pc]; rfl) rfl (by rw [pc]; rfl)

theorem step_effect (a : Action n) (m next : Machine n) (taken : step a m = some next) : Effect a m next := by
  cases a with
  | call t call => exact beginCall_effect _ m next t call taken
  | step t => exact advance_effect m next t taken
  | spurious t => exact failExchange_effect _ m next t taken
  | wrote t count => exact writeSome_effect _ m next t count taken
  | writeError t => exact failWrite_effect m next t taken

namespace Machine

@[simp] theorem setPc_self (m : Machine n) (t : Fin n) (pc : Pc) : (m.setPc t pc).threads t = pc := by
  simp [setPc]

theorem setPc_of_ne (m : Machine n) (t u : Fin n) (pc : Pc) (apart : u ≠ t) :
    (m.setPc t pc).threads u = m.threads u := by
  simp [setPc,apart]

@[simp] theorem setPc_toMiniTrace (m : Machine n) (t : Fin n) (pc : Pc) :
    (m.setPc t pc).toMiniTrace = m.toMiniTrace := rfl

@[simp] theorem setPc_accepted (m : Machine n) (t : Fin n) (pc : Pc) : (m.setPc t pc).accepted = m.accepted := rfl

end Machine

theorem Effect.bufferSize_eq {a : Action n} {m next : Machine n} (effect : Effect a m next) :
    next.bufferSize = m.bufferSize := by
  cases effect with
  | store t oldOffset store rest before => exact List.length_set
  | visit t job oldOffset curOffset index trace before visits => exact congrArg List.length visits.buf_eq
  | _ => rfl

end Aatt.Threads
