import Aatt.Record

/-! The trace object of `mini_trace.cc` and its buffer, as one thread runs it: reservation of
a slot, overflow handling, flushing with the re-parsing of the raw bytes, and the three log
functions. Offsets are natural numbers: `Start` only builds buffers whose size is a multiple of
1024 in an `int`, so `old_offset + 14` does not overflow. -/
namespace Aatt

open Aatt.Lib

/-- Answer of one `write` system call: an error or the number of bytes it took. -/
inductive WriteOutcome where
  | error
  | wrote (count : Nat)
  deriving DecidableEq, Repr

/-- `FdFile::WriteFully`, given what the next `write` calls answer. Once the answers are used
up a call takes all the bytes it is given. -/
def writeFully : List WriteOutcome → List Byte → List Byte → List WriteOutcome × List Byte × Bool
  | outcomes, file, [] => (outcomes,file,true)
  | [], file, bytes => ([],file ++ bytes,true)
  | .error :: rest, file, _ => (rest,file,false)
  | .wrote count :: rest, file, bytes => writeFully rest (file ++ bytes.take count) (bytes.drop count)

/-- The fields of `MiniTrace` that logging reads or writes. `buffer_size_` is the length of
`buf_`, both being set once from the same constructor argument. -/
structure MiniTrace where
  buf : List Byte
  curOffset : Nat
  bufferOverflowCount : Nat
  traceDataFile : List Byte
  visitedMethods : Finset Address
  visitedFields : Finset Address
  deriving DecidableEq

def MiniTrace.bufferSize (t : MiniTrace) : Nat := t.buf.length

/-- The constructor, with the data file as `Start` creates it. -/
def MiniTrace.new (bufferSize : Nat) : MiniTrace where
  buf := List.replicate bufferSize 0
  curOffset := 0
  bufferOverflowCount := 0
  traceDataFile := []
  visitedMethods := ∅
  visitedFields := ∅

/-- A trace run by a single thread, with the answers that its environment will give: those of
`write`, and the spurious failures of the weak compare-and-swap. -/
structure Session extends MiniTrace where
  writes : List WriteOutcome
  spurious : List Bool
  deriving DecidableEq

/-- Why a call does not return: `UNIMPLEMENTED(FATAL)` aborts the process, and so does a read through a wild pointer. -/
inductive Halt where
  | fatal
  | crash
  | fuel
  deriving DecidableEq, Repr

/-- One round of the parsing loop of `FlushBuffer`. -/
def visitRecord (t : MiniTrace) (ptr : Nat) : Except Halt MiniTrace :=
  let aid := recordWord (slot t.buf ptr kMiniTraceRecordSize)
  match decodeMiniTraceAction aid with
  | .methodEnter | .methodExit | .unroll =>
    .ok { t with visitedMethods := insert (decodeMiniTraceMethodId aid) t.visitedMethods }
  | .fieldRead | .fieldWrite =>
    .ok { t with visitedFields := insert (decodeMiniTraceFieldId aid) t.visitedFields }
  | .monitorEnter | .monitorExit => .ok t
  | .actionMask => .error .fatal

/-- How many records `FlushBuffer` parses: those that start below the offset. -/
def recordCount (curOffset : Nat) : Nat :=
  (curOffset + (kMiniTraceRecordSize - 1)) / kMiniTraceRecordSize

def visitFirst (t : MiniTrace) (n : Nat) : Except Halt MiniTrace :=
  (List.range n).foldlM (fun t i => visitRecord t (kMiniTraceRecordSize * i)) t

/-- `while (ptr < end)`: one round for each record that starts below `curOffset`. -/
def visitRecords (t : MiniTrace) (curOffset : Nat) : Except Halt MiniTrace :=
  visitFirst t (recordCount curOffset)

def flushBuffer (s : Session) : Except Halt (Session × Bool) :=
  if s.curOffset = 0 then .ok (s,true) else
  let (writes,file,written) := writeFully s.writes s.traceDataFile (s.buf.take s.curOffset)
  let s := { s with writes := writes, traceDataFile := file }
  if !written then .ok (s,false) else
  match visitRecords s.toMiniTrace s.curOffset with
  | .error halt => .error halt
  | .ok t => .ok ({ s with toMiniTrace := { t with curOffset := 0 } },true)

def handleOverflow (s : Session) : Except Halt (Session × Bool) :=
  let localCount := s.bufferOverflowCount
  if localCount > 1024 then .ok (s,false) else
  if localCount ≠ s.bufferOverflowCount then .ok (s,true) else
  flushBuffer { s with bufferOverflowCount := s.bufferOverflowCount + 1 }

def compareExchangeWeak (s : Session) (oldOffset newOffset : Nat) : Session × Bool :=
  if s.curOffset = oldOffset then
    match s.spurious with
    | true :: rest => ({ s with spurious := rest },false)
    | _ => ({ s with spurious := s.spurious.tail, curOffset := newOffset },true)
  else (s,false)

/-- The reservation loop. `continue` in a do-while goes to the loop condition, so the
exchange is also tried after an overflow, with the offsets loaded before it. -/
def reserve : Nat → Session → Except Halt (Session × Option Nat)
  | 0, _ => .error .fuel
  | fuel + 1, s =>
    let oldOffset := s.curOffset
    let newOffset := oldOffset + kMiniTraceRecordSize
    match (if newOffset > s.bufferSize then handleOverflow s else .ok (s,true)) with
    | .error halt => .error halt
    | .ok (s,false) => .ok (s,none)
    | .ok (s,true) =>
      match compareExchangeWeak s oldOffset newOffset with
      | (s,true) => .ok (s,some oldOffset)
      | (s,false) => reserve fuel s

/-- What the three log functions share: reserve a slot, then write the record into it. -/
def logTraceEvent (stores : List Store) (s : Session) : Except Halt Session :=
  match reserve (s.spurious.length + 2) s with
  | .error halt => .error halt
  | .ok (s,none) => .ok s
  | .ok (s,some oldOffset) => .ok { s with buf := writeStores s.buf (shiftStores oldOffset stores) }

def logMethodTraceEvent (thread : BitVec 32) (method : Address) (accessFlags : AccessFlags)
    (event : InstrumentationEvent) (returnValue : BitVec 64) (s : Session) : Except Halt Session :=
  if !isMiniTraceable accessFlags then .ok s else
  match methodAction event with
  | none => .error .fatal
  | some action => logTraceEvent (methodStores thread method action returnValue) s

def logFieldTraceEvent (thread : BitVec 32) (thisObject field : Address) (accessFlags : AccessFlags)
    (dexPc : BitVec 32) (readEvent : Bool) (s : Session) : Except Halt Session :=
  if !isMiniTraceable accessFlags then .ok s else
  logTraceEvent (fieldStores thread thisObject field (fieldAction readEvent) dexPc) s

def logMonitorTraceEvent (thread : BitVec 32) (lockObject : Address) (dexPc : BitVec 32)
    (enterEvent : Bool) (s : Session) : Except Halt Session :=
  logTraceEvent (monitorStores thread lockObject (monitorAction enterEvent) dexPc) s

def log : TraceCall → Session → Except Halt Session
  | .method thread method accessFlags event returnValue =>
    logMethodTraceEvent thread method accessFlags event returnValue
  | .field thread thisObject field accessFlags dexPc readEvent =>
    logFieldTraceEvent thread thisObject field accessFlags dexPc readEvent
  | .monitor thread lockObject dexPc enterEvent => logMonitorTraceEvent thread lockObject dexPc enterEvent

def logAll : List TraceCall → Session → Except Halt Session
  | [], s => .ok s
  | call :: rest, s =>
    match log call s with
    | .error halt => .error halt
    | .ok next => logAll rest next

/-- No `write` call fails; short counts may occur. -/
def Reliable (outcomes : List WriteOutcome) : Prop := WriteOutcome.error ∉ outcomes

instance (outcomes : List WriteOutcome) : Decidable (Reliable outcomes) :=
  inferInstanceAs (Decidable (WriteOutcome.error ∉ outcomes))

theorem writeFully_wrote (count : Nat) (rest : List WriteOutcome) (file : List Byte) (byte : Byte)
    (bytes : List Byte) : writeFully (.wrote count :: rest) file (byte :: bytes) =
      writeFully rest (file ++ (byte :: bytes).take count) ((byte :: bytes).drop count) := rfl

theorem writeFully_reliable (outcomes : List WriteOutcome) (file bytes : List Byte)
    (reliable : Reliable outcomes) :
    ∃ rest, writeFully outcomes file bytes = (rest,file ++ bytes,true) ∧ Reliable rest := by
  induction outcomes generalizing file bytes with
  | nil =>
    cases bytes with
    | nil => exact ⟨[],by simp [writeFully],reliable⟩
    | cons byte bytes => exact ⟨[],rfl,reliable⟩
  | cons outcome outcomes ih =>
    cases bytes with
    | nil => exact ⟨outcome :: outcomes,by simp [writeFully],reliable⟩
    | cons byte bytes =>
      obtain ⟨noError,later⟩ : .error ≠ outcome ∧ WriteOutcome.error ∉ outcomes := by
        simpa [Reliable] using reliable
      cases outcome with
      | error => exact absurd rfl noError
      | wrote count =>
        obtain ⟨rest,written,still⟩ := ih (file ++ (byte :: bytes).take count)
          ((byte :: bytes).drop count) later
        refine ⟨rest,?_,still⟩
        rw [writeFully_wrote,written,List.append_assoc,List.take_append_drop]

/-- A write that is reported as complete has put all the bytes into the file, however short
the single calls were. -/
theorem writeFully_true (outcomes rest : List WriteOutcome) (file file' bytes : List Byte)
    (written : writeFully outcomes file bytes = (rest,file',true)) :
    file' = file ++ bytes ∧ (Reliable outcomes → Reliable rest) := by
  induction outcomes generalizing file bytes with
  | nil =>
    cases bytes with
    | nil =>
      simp only [writeFully,Prod.mk.injEq,and_true] at written
      exact ⟨by simp [written.2],by simp [written.1]⟩
    | cons byte bytes =>
      simp only [writeFully,Prod.mk.injEq,and_true] at written
      exact ⟨written.2.symm,by simp [← written.1]⟩
  | cons outcome outcomes ih =>
    cases bytes with
    | nil =>
      simp only [writeFully,Prod.mk.injEq,and_true] at written
      exact ⟨by simp [written.2],by simp [written.1]⟩
    | cons byte bytes =>
      cases outcome with
      | error => simp [writeFully] at written
      | wrote count =>
        rw [writeFully_wrote] at written
        obtain ⟨eq,still⟩ := ih _ _ written
        refine ⟨by rw [eq,List.append_assoc,List.take_append_drop],fun reliable => still ?_⟩
        exact fun member => reliable (List.mem_cons_of_mem _ member)

theorem writeFully_false (outcomes rest : List WriteOutcome) (file file' bytes : List Byte)
    (written : writeFully outcomes file bytes = (rest,file',false)) :
    ∃ k ≤ bytes.length, file' = file ++ bytes.take k := by
  induction outcomes generalizing file bytes with
  | nil => cases bytes <;> simp [writeFully] at written
  | cons outcome outcomes ih =>
    cases bytes with
    | nil => simp [writeFully] at written
    | cons byte bytes =>
      cases outcome with
      | error =>
        simp only [writeFully,Prod.mk.injEq,and_true] at written
        exact ⟨0,Nat.zero_le _,by simp [written.2]⟩
      | wrote count =>
        rw [writeFully_wrote] at written
        obtain ⟨k,bound,eq⟩ := ih _ _ written
        refine ⟨min count (byte :: bytes).length + k,?_,?_⟩
        · rw [List.length_drop] at bound
          omega
        · rw [eq,List.append_assoc,List.take_add,← List.take_eq_take_min,← List.drop_eq_drop_min]

def recordsOf (buf : List Byte) (n : Nat) : List (List Byte) := blocks kMiniTraceRecordSize n buf

/-- The two kinds of members whose identifiers `FlushBuffer` collects. -/
inductive MemberKind where
  | method
  | field
  deriving DecidableEq, Repr

theorem MemberKind.forall_iff {p : MemberKind → Prop} : (∀ kind, p kind) ↔ p .method ∧ p .field :=
  ⟨fun all => ⟨all .method,all .field⟩,fun both kind => MemberKind.rec both.1 both.2 kind⟩

def MemberKind.actions : MemberKind → List MiniTraceAction
  | .method => [.methodEnter,.methodExit,.unroll]
  | .field => [.fieldRead,.fieldWrite]

def MemberKind.decodeId : MemberKind → BitVec 32 → Address
  | .method => decodeMiniTraceMethodId
  | .field => decodeMiniTraceFieldId

def MiniTrace.visited (t : MiniTrace) : MemberKind → Finset Address
  | .method => t.visitedMethods
  | .field => t.visitedFields

/-- The record makes `FlushBuffer` insert `p` into the set of the kind. -/
def Names (kind : MemberKind) (record : List Byte) (p : Address) : Prop :=
  decodeMiniTraceAction (recordWord record) ∈ kind.actions ∧ kind.decodeId (recordWord record) = p

def Readable (record : List Byte) : Prop := decodeMiniTraceAction (recordWord record) ≠ .actionMask

instance (record : List Byte) : Decidable (Readable record) := inferInstanceAs (Decidable (_ ≠ _))

/-- `t'` is `t` after the records have been parsed. -/
structure Visits (t t' : MiniTrace) (records : List (List Byte)) : Prop where
  frame : t' = { t with visitedMethods := t'.visitedMethods, visitedFields := t'.visitedFields }
  visited : ∀ kind p, p ∈ t'.visited kind ↔ p ∈ t.visited kind ∨ ∃ record ∈ records, Names kind record p

theorem visitRecord_visits (t t' : MiniTrace) (ptr : Nat) (visited : visitRecord t ptr = .ok t') :
    Visits t t' [slot t.buf ptr kMiniTraceRecordSize] := by
  unfold visitRecord at visited
  generalize slot t.buf ptr kMiniTraceRecordSize = record at visited ⊢
  cases action : decodeMiniTraceAction (recordWord record) <;> simp only [action] at visited
  case actionMask => cases visited
  all_goals
    cases visited
    refine ⟨rfl,fun kind p => ?_⟩
    cases kind <;>
      simp [Names,MemberKind.actions,MemberKind.decodeId,MiniTrace.visited,action,eq_comm,or_comm]

theorem visitRecord_total (t : MiniTrace) (ptr : Nat)
    (readable : Readable (slot t.buf ptr kMiniTraceRecordSize)) : ∃ t', visitRecord t ptr = .ok t' := by
  unfold visitRecord
  unfold Readable at readable
  generalize slot t.buf ptr kMiniTraceRecordSize = record at readable ⊢
  cases action : decodeMiniTraceAction (recordWord record) <;> simp_all

theorem Visits.refl (t : MiniTrace) : Visits t t [] := by
  refine ⟨rfl,fun kind p => ?_⟩
  simp

theorem Visits.trans {t t' t'' : MiniTrace} {front back : List (List Byte)} (first : Visits t t' front)
    (second : Visits t' t'' back) : Visits t t'' (front ++ back) := by
  constructor
  · rw [second.frame,first.frame]
  · intro kind p
    rw [second.visited,first.visited]
    simp only [List.mem_append,or_and_right,exists_or,or_assoc]

theorem Visits.buf_eq {t t' : MiniTrace} {records : List (List Byte)} (visits : Visits t t' records) :
    t'.buf = t.buf := by
  rw [visits.frame]

theorem visitFirst_succ (t : MiniTrace) (n : Nat) : visitFirst t (n + 1) =
    (visitFirst t n).bind fun middle => visitRecord middle (kMiniTraceRecordSize * n) := by
  simp only [visitFirst,List.range_succ,List.foldlM_append,List.foldlM_cons,List.foldlM_nil]
  cases (List.range n).foldlM (fun t i => visitRecord t (kMiniTraceRecordSize * i)) t with
  | error halt => rfl
  | ok middle =>
    change (visitRecord middle (kMiniTraceRecordSize * n) >>= pure) = _
    rw [bind_pure]
    rfl

theorem visitFirst_visits (t t' : MiniTrace) (n : Nat) (visited : visitFirst t n = .ok t') :
    Visits t t' (recordsOf t.buf n) := by
  induction n generalizing t' with
  | zero =>
    cases visited
    exact Visits.refl t
  | succ n ih =>
    rw [visitFirst_succ] at visited
    cases first : visitFirst t n with
    | error halt =>
      rw [first] at visited
      cases visited
    | ok middle =>
      rw [first] at visited
      have front := ih middle first
      have last := visitRecord_visits middle t' _ visited
      rw [front.buf_eq] at last
      rw [recordsOf,blocks_succ]
      exact front.trans last

theorem visitFirst_total (t : MiniTrace) (n : Nat) (readable : ∀ record ∈ recordsOf t.buf n, Readable record) :
    ∃ t', visitFirst t n = .ok t' := by
  induction n with
  | zero => exact ⟨t,rfl⟩
  | succ n ih =>
    rw [recordsOf,blocks_succ] at readable
    obtain ⟨middle,first⟩ := ih fun record member => readable record (List.mem_append_left _ member)
    have kept := (visitFirst_visits t middle n first).buf_eq
    obtain ⟨t',last⟩ := visitRecord_total middle (kMiniTraceRecordSize * n)
      (by rw [kept]; exact readable _ (by simp))
    exact ⟨t',by rw [visitFirst_succ,first]; exact last⟩

end Aatt
