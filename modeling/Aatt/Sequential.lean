import Aatt.MiniTrace

/-! Logging by a single thread. The data file followed by the used part of the buffer is an
append-only log with a fixed capacity: every accepted record is appended to it, and a record
is refused exactly when no room is left. -/
namespace Aatt

open Aatt.Lib

/-- `s'` is `s` after a successful `FlushBuffer`. -/
structure Flushed (s s' : Session) : Prop where
  visits : Visits { s.toMiniTrace with traceDataFile := s.traceDataFile ++ s.buf.take s.curOffset, curOffset := 0 }
    s'.toMiniTrace (recordsOf s.buf (recordCount s.curOffset))
  spurious : s'.spurious = s.spurious
  reliable : Reliable s.writes → Reliable s'.writes

namespace Flushed

variable {s s' : Session} (flushed : Flushed s s')
include flushed

theorem buf_eq : s'.buf = s.buf := by rw [flushed.visits.frame]

theorem curOffset_eq : s'.curOffset = 0 := by rw [flushed.visits.frame]

theorem count_eq : s'.bufferOverflowCount = s.bufferOverflowCount := by rw [flushed.visits.frame]

theorem file_eq : s'.traceDataFile = s.traceDataFile ++ s.buf.take s.curOffset := by
  rw [flushed.visits.frame]

end Flushed

theorem Visits.withFields {t t' : MiniTrace} {records : List (List Byte)} (visits : Visits t t' records)
    (offset : Nat) : Visits { t with curOffset := offset } { t' with curOffset := offset } records := by
  constructor
  · rw [visits.frame]
  · intro kind p
    have visited := visits.visited kind p
    cases kind <;> exact visited

theorem flushBuffer_flushed (s s' : Session) (returned : flushBuffer s = .ok (s',true)) : Flushed s s' := by
  unfold flushBuffer at returned
  by_cases empty : s.curOffset = 0
  · rw [if_pos empty] at returned
    cases returned
    refine ⟨?_,rfl,id⟩
    have unchanged : { s.toMiniTrace with traceDataFile := s.traceDataFile ++ s.buf.take s.curOffset, curOffset := 0 }
        = s.toMiniTrace := by
      rw [empty,List.take_zero,List.append_nil,← empty]
    rw [unchanged,empty]
    exact Visits.refl _
  · rw [if_neg empty] at returned
    rcases written : writeFully s.writes s.traceDataFile (s.buf.take s.curOffset) with ⟨rest,file,complete⟩
    cases complete with
    | false => simp [written] at returned
    | true =>
      obtain ⟨rfl,still⟩ := writeFully_true _ _ _ _ _ written
      simp only [written,Bool.not_true,Bool.false_eq_true,if_false] at returned
      split at returned
      · cases returned
      · rename_i t visited
        cases returned
        exact ⟨(visitFirst_visits _ _ _ visited).withFields 0,rfl,still⟩

theorem flushBuffer_reliable (s s' : Session) (result : Bool) (reliable : Reliable s.writes)
    (returned : flushBuffer s = .ok (s',result)) : result = true := by
  unfold flushBuffer at returned
  by_cases empty : s.curOffset = 0
  · rw [if_pos empty] at returned
    cases returned
    rfl
  · rw [if_neg empty] at returned
    obtain ⟨rest,written,still⟩ := writeFully_reliable s.writes s.traceDataFile (s.buf.take s.curOffset) reliable
    simp only [written,Bool.not_true,Bool.false_eq_true,if_false] at returned
    split at returned
    · cases returned
    · cases returned
      rfl

theorem flushBuffer_total (s : Session) (reliable : Reliable s.writes)
    (readable : ∀ record ∈ recordsOf s.buf (recordCount s.curOffset), Readable record) :
    ∃ s', flushBuffer s = .ok (s',true) := by
  unfold flushBuffer
  by_cases empty : s.curOffset = 0
  · exact ⟨s,if_pos empty⟩
  · rw [if_neg empty]
    obtain ⟨rest,written,still⟩ := writeFully_reliable s.writes s.traceDataFile (s.buf.take s.curOffset) reliable
    obtain ⟨t,visited⟩ := visitFirst_total
      { s.toMiniTrace with traceDataFile := s.traceDataFile ++ s.buf.take s.curOffset } _ readable
    simp only [written,Bool.not_true,Bool.false_eq_true,if_false,visitRecords,visited]
    exact ⟨_,rfl⟩

theorem compareExchangeWeak_apart (s : Session) (oldOffset newOffset : Nat)
    (apart : s.curOffset ≠ oldOffset) : compareExchangeWeak s oldOffset newOffset = (s,false) :=
  if_neg apart

theorem reserve_fits (fuel : Nat) (s : Session) (enough : s.spurious.length < fuel)
    (fits : s.curOffset + kMiniTraceRecordSize ≤ s.bufferSize) :
    ∃ rest, reserve fuel s = .ok ({ s with
      spurious := rest, curOffset := s.curOffset + kMiniTraceRecordSize },some s.curOffset) := by
  induction fuel generalizing s with
  | zero => omega
  | succ fuel ih =>
    have inside : ¬ s.curOffset + kMiniTraceRecordSize > s.bufferSize := by omega
    rw [reserve]
    simp only [if_neg inside,compareExchangeWeak,if_true]
    rcases answers : s.spurious with _ | ⟨answer,rest⟩
    · exact ⟨_,rfl⟩
    · cases answer with
      | false => exact ⟨_,rfl⟩
      | true =>
        simp only [answers,List.length_cons] at enough
        obtain ⟨after,reserved⟩ := ih { s with spurious := rest } (by simpa using enough) fits
        exact ⟨after,reserved⟩

/-- The overflow has been counted, the flush not yet begun. -/
def Session.counted (s : Session) : Session := { s with bufferOverflowCount := s.bufferOverflowCount + 1 }

/-- The slot that a call gets is the next one of `m`: the session itself, or what the flush
of a full buffer leaves. -/
inductive Opened (s : Session) : Session → Prop where
  | fits (fits : s.curOffset + kMiniTraceRecordSize ≤ s.bufferSize) : Opened s s
  | flushed (m : Session) (full : s.bufferSize < s.curOffset + kMiniTraceRecordSize)
      (below : s.bufferOverflowCount ≤ 1024) (flushed : Flushed s.counted m) : Opened s m

/-- The next slot does not fit and the overflow count has passed its cap. -/
def Exhausted (s : Session) : Prop :=
  s.bufferSize < s.curOffset + kMiniTraceRecordSize ∧ 1024 < s.bufferOverflowCount

theorem reserve_exhausted (fuel : Nat) (s : Session) (exhausted : Exhausted s) :
    reserve (fuel + 1) s = .ok (s,none) := by
  rw [reserve]
  simp only [gt_iff_lt,if_pos exhausted.1,handleOverflow,if_pos exhausted.2]

theorem Flushed.opens {s m : Session} (size : kMiniTraceRecordSize ≤ s.bufferSize)
    (flushed : Flushed s.counted m) :
    m.curOffset + kMiniTraceRecordSize ≤ m.bufferSize := by
  rw [flushed.curOffset_eq,MiniTrace.bufferSize,flushed.buf_eq,Nat.zero_add]
  exact size

theorem handleOverflow_below (s : Session) (below : ¬ 1024 < s.bufferOverflowCount) :
    handleOverflow s = flushBuffer s.counted := by
  simp only [handleOverflow,gt_iff_lt,if_neg below,ne_eq,not_true,if_false,Session.counted]

theorem reserve_overflow (fuel : Nat) (s m : Session) (size : kMiniTraceRecordSize ≤ s.bufferSize)
    (full : s.bufferSize < s.curOffset + kMiniTraceRecordSize) (below : s.bufferOverflowCount ≤ 1024)
    (flush : flushBuffer s.counted = .ok (m,true)) : reserve (fuel + 1) s = reserve fuel m := by
  have apart : m.curOffset ≠ s.curOffset := by
    rw [(flushBuffer_flushed _ _ flush).curOffset_eq]
    omega
  rw [reserve]
  simp only [gt_iff_lt,if_pos full,handleOverflow_below s (Nat.not_lt.mpr below),flush,
    compareExchangeWeak_apart _ _ _ apart]

/-- The overflow was counted but the write of the buffer failed. -/
def WriteFailed (s s' : Session) : Prop :=
  s.bufferSize < s.curOffset + kMiniTraceRecordSize ∧ s.bufferOverflowCount ≤ 1024 ∧
    flushBuffer s.counted = .ok (s',false)

theorem reserve_cases (s s' : Session) (reserved : Option Nat) (size : kMiniTraceRecordSize ≤ s.bufferSize)
    (returned : reserve (s.spurious.length + 2) s = .ok (s',reserved)) :
    (reserved = none ∧ (Exhausted s ∧ s' = s ∨ WriteFailed s s')) ∨
      ∃ m rest, Opened s m ∧ m.curOffset + kMiniTraceRecordSize ≤ m.bufferSize ∧
        s' = { m with spurious := rest, curOffset := m.curOffset + kMiniTraceRecordSize } ∧
        reserved = some m.curOffset := by
  by_cases fits : s.curOffset + kMiniTraceRecordSize ≤ s.bufferSize
  · obtain ⟨rest,eq⟩ := reserve_fits (s.spurious.length + 2) s (by omega) fits
    rw [eq] at returned
    cases returned
    exact .inr ⟨s,rest,.fits fits,fits,rfl,rfl⟩
  · have full := Nat.lt_of_not_le fits
    by_cases capped : 1024 < s.bufferOverflowCount
    · rw [reserve_exhausted _ s ⟨full,capped⟩] at returned
      cases returned
      exact .inl ⟨rfl,.inl ⟨⟨full,capped⟩,rfl⟩⟩
    · have below := Nat.le_of_not_lt capped
      cases flush : flushBuffer s.counted with
      | error halt =>
        rw [reserve] at returned
        simp only [gt_iff_lt,if_pos full,handleOverflow_below s capped,flush] at returned
        cases returned
      | ok flushResult =>
        obtain ⟨m,result⟩ := flushResult
        cases result with
        | false =>
          rw [reserve] at returned
          simp only [gt_iff_lt,if_pos full,handleOverflow_below s capped,flush] at returned
          cases returned
          exact .inl ⟨rfl,.inr ⟨full,below,flush⟩⟩
        | true =>
          have flushed := flushBuffer_flushed s.counted m flush
          rw [reserve_overflow _ s m size full below flush] at returned
          have opens := flushed.opens size
          obtain ⟨rest,eq⟩ := reserve_fits (s.spurious.length + 1) m
            (by rw [flushed.spurious]; simp [Session.counted]) opens
          rw [eq] at returned
          cases returned
          exact .inr ⟨m,rest,.flushed m full below flushed,opens,rfl,rfl⟩

/-- A call that passes its filter, with the action it records. -/
def Accepts (call : TraceCall) (action : MiniTraceAction) : Prop :=
  call.traceable = true ∧ call.action = some action

theorem Accepts.ne_mask {call : TraceCall} {action : MiniTraceAction} (accepts : Accepts call action) :
    action ≠ .actionMask := by
  rintro rfl
  have eq := accepts.2
  cases call with
  | method thread callee accessFlags event returnValue => cases event <;> simp [TraceCall.action,methodAction] at eq
  | field thread thisObject member accessFlags dexPc readEvent =>
    cases readEvent <;> simp [TraceCall.action,fieldAction] at eq
  | monitor thread lockObject dexPc enterEvent =>
    cases enterEvent <;> simp [TraceCall.action,monitorAction] at eq

theorem log_cases (call : TraceCall) (s : Session) :
    (call.traceable = false ∧ log call s = .ok s) ∨
      (call.traceable = true ∧ call.action = none ∧ log call s = .error .fatal) ∨
      ∃ action, Accepts call action ∧ log call s = logTraceEvent (call.stores action) s := by
  cases call with
  | method thread callee accessFlags event returnValue =>
    simp only [log,logMethodTraceEvent,Accepts,TraceCall.traceable,TraceCall.action,TraceCall.stores]
    cases isMiniTraceable accessFlags with
    | false => exact .inl ⟨rfl,rfl⟩
    | true =>
      cases methodAction event with
      | none => exact .inr (.inl ⟨rfl,rfl,rfl⟩)
      | some action => exact .inr (.inr ⟨action,⟨rfl,rfl⟩,rfl⟩)
  | field thread thisObject member accessFlags dexPc readEvent =>
    simp only [log,logFieldTraceEvent,Accepts,TraceCall.traceable,TraceCall.action,TraceCall.stores]
    cases isMiniTraceable accessFlags with
    | false => exact .inl ⟨rfl,rfl⟩
    | true => exact .inr (.inr ⟨fieldAction readEvent,⟨rfl,rfl⟩,rfl⟩)
  | monitor thread lockObject dexPc enterEvent =>
    exact .inr (.inr ⟨monitorAction enterEvent,⟨rfl,rfl⟩,rfl⟩)

/-- A log call that returns has done nothing, or it is the common part of the log functions that has returned. -/
theorem log_returned {call : TraceCall} {s s' : Session} (returned : log call s = .ok s') :
    (call.traceable = false ∧ s' = s) ∨
      ∃ action, Accepts call action ∧ logTraceEvent (call.stores action) s = .ok s' := by
  rcases log_cases call s with ⟨untraceable,same⟩ | ⟨-,-,aborts⟩ | ⟨action,accepts,common⟩
  · rw [same] at returned
    cases returned
    exact .inl ⟨untraceable,rfl⟩
  · rw [aborts] at returned
    cases returned
  · rw [common] at returned
    exact .inr ⟨action,accepts,returned⟩

/-- `s'` is `s` after a record has been written into the slot that `m` opens. -/
structure Appended (stores : List Store) (s m s' : Session) : Prop where
  opened : Opened s m
  fits : m.curOffset + kMiniTraceRecordSize ≤ m.bufferSize
  buf : s'.buf = writeStores m.buf (shiftStores m.curOffset stores)
  curOffset : s'.curOffset = m.curOffset + kMiniTraceRecordSize
  count : s'.bufferOverflowCount = m.bufferOverflowCount
  file : s'.traceDataFile = m.traceDataFile
  visited : s'.visited = m.visited
  writes : s'.writes = m.writes

theorem logTraceEvent_cases (stores : List Store) (s s' : Session) (size : kMiniTraceRecordSize ≤ s.bufferSize)
    (returned : logTraceEvent stores s = .ok s') :
    (reserve (s.spurious.length + 2) s = .ok (s',none) ∧ (Exhausted s ∧ s' = s ∨ WriteFailed s s')) ∨
      ∃ after m, reserve (s.spurious.length + 2) s = .ok (after,some m.curOffset) ∧ Appended stores s m s' := by
  unfold logTraceEvent at returned
  cases outcome : reserve (s.spurious.length + 2) s with
  | error halt =>
    rw [outcome] at returned
    cases returned
  | ok result =>
    obtain ⟨after,reserved⟩ := result
    rw [outcome] at returned
    rcases reserve_cases s after reserved size outcome with ⟨rfl,refused⟩ | ⟨m,rest,opened,fits,rfl,rfl⟩
    · cases returned
      exact .inl ⟨rfl,refused⟩
    · cases returned
      exact .inr ⟨_,m,rfl,opened,fits,rfl,rfl,rfl,rfl,funext fun kind => by cases kind <;> rfl,rfl⟩

/-- The invariant of a session between calls. -/
structure Ready (s : Session) : Prop where
  size : kMiniTraceRecordSize ≤ s.bufferSize
  bounded : s.curOffset ≤ s.bufferSize
  aligned : kMiniTraceRecordSize ∣ s.curOffset
  reliable : Reliable s.writes

/-- Everything logged so far: the data file, then the used part of the buffer. -/
def content (s : Session) : List Byte := s.traceDataFile ++ s.buf.take s.curOffset

def room (s : Session) : Nat :=
  (1025 - s.bufferOverflowCount) * (s.bufferSize / kMiniTraceRecordSize) +
    (s.bufferSize / kMiniTraceRecordSize - s.curOffset / kMiniTraceRecordSize)

def lastSlot (s : Session) : List Byte := slot s.buf (s.curOffset - kMiniTraceRecordSize) kMiniTraceRecordSize

theorem Flushed.content_eq {s s' : Session} (flushed : Flushed s s') : content s' = content s := by
  simp only [content,flushed.curOffset_eq,List.take_zero,List.append_nil]
  exact flushed.file_eq

theorem Flushed.ready {s s' : Session} (flushed : Flushed s s') (ready : Ready s) : Ready s' := by
  refine ⟨?_,?_,?_,flushed.reliable ready.reliable⟩
  · rw [MiniTrace.bufferSize,flushed.buf_eq]
    exact ready.size
  · rw [flushed.curOffset_eq]
    exact Nat.zero_le _
  · rw [flushed.curOffset_eq]
    exact Nat.dvd_zero _

namespace Opened

variable {s m : Session} (opened : Opened s m)
include opened

theorem buf_eq : m.buf = s.buf := by
  cases opened with
  | fits => rfl
  | flushed _ full below flushed => exact flushed.buf_eq

theorem content_eq : content m = content s := by
  cases opened with
  | fits => rfl
  | flushed _ full below flushed => exact flushed.content_eq

theorem ready (ready : Ready s) : Ready m := by
  cases opened with
  | fits => exact ready
  | flushed _ full below flushed =>
    exact flushed.ready ⟨ready.size,ready.bounded,ready.aligned,ready.reliable⟩

theorem room_eq (ready : Ready s) : room m = room s := by
  cases opened with
  | fits => rfl
  | flushed _ full below flushed =>
    have bufEq : m.buf = s.buf := flushed.buf_eq
    have countEq : m.bufferOverflowCount = s.bufferOverflowCount + 1 := flushed.count_eq
    obtain ⟨n,offset⟩ := ready.aligned
    have bounded := ready.bounded
    simp only [kMiniTraceRecordSize] at full offset
    have used : s.bufferSize / 14 = n := by omega
    have left : 1025 - s.bufferOverflowCount = (1025 - (s.bufferOverflowCount + 1)) + 1 := by omega
    simp only [room,kMiniTraceRecordSize,MiniTrace.bufferSize,bufEq,countEq,flushed.curOffset_eq,
      left,Nat.add_mul,Nat.one_mul] at used ⊢
    rw [used,offset]
    omega

end Opened

theorem exhausted_iff_no_room (s : Session) (ready : Ready s) : Exhausted s ↔ room s = 0 := by
  have size := ready.size
  have bounded := ready.bounded
  obtain ⟨n,offset⟩ := ready.aligned
  simp only [Exhausted,room,kMiniTraceRecordSize,Nat.add_eq_zero_iff,Nat.mul_eq_zero] at *
  omega

namespace Appended

variable {stores : List Store} {s m s' : Session} (appended : Appended stores s m s')
include appended

theorem bufferSize_eq : s'.bufferSize = s.bufferSize := by
  rw [MiniTrace.bufferSize,appended.buf,writeStores_length,appended.opened.buf_eq,MiniTrace.bufferSize]

theorem ready (ready : Ready s) : Ready s' := by
  have opened := appended.opened.ready ready
  refine ⟨?_,?_,?_,?_⟩
  · rw [appended.bufferSize_eq]
    exact ready.size
  · rw [appended.curOffset,MiniTrace.bufferSize,appended.buf,writeStores_length]
    exact appended.fits
  · rw [appended.curOffset]
    exact Nat.dvd_add_self_right.mpr opened.aligned
  · rw [appended.writes]
    exact opened.reliable

theorem lastSlot_eq : lastSlot s' = writeStores (slot m.buf m.curOffset kMiniTraceRecordSize) stores := by
  rw [lastSlot,appended.curOffset,Nat.add_sub_cancel,appended.buf,slot_writeStores_inside]

theorem room_succ (ready : Ready s) : room s = room s' + 1 := by
  rw [← appended.opened.room_eq ready]
  obtain ⟨n,offset⟩ := (appended.opened.ready ready).aligned
  have fits := appended.fits
  have sizeEq : s'.bufferSize = m.bufferSize := by
    rw [MiniTrace.bufferSize,appended.buf,writeStores_length,MiniTrace.bufferSize]
  simp only [room,sizeEq,appended.count,appended.curOffset,kMiniTraceRecordSize] at *
  omega

theorem content_eq (inside : StoresIn 0 kMiniTraceRecordSize stores) :
    content s' = content s ++ lastSlot s' := by
  have kept := slot_storesIn m.buf 0 m.curOffset _ _ _ (inside.shift m.curOffset) (.inr (by omega))
  simp only [slot,List.drop_zero] at kept
  rw [← appended.opened.content_eq,content,content,appended.file,appended.curOffset,take_add_slot,
    appended.buf,kept,List.append_assoc,lastSlot,appended.curOffset,Nat.add_sub_cancel,appended.buf]

end Appended

/-- What a call does to a session when writes succeed and it returns. -/
inductive Logs (call : TraceCall) (s s' : Session) : Prop where
  | filtered (untraceable : call.traceable = false) (same : s' = s)
  | refused (traceable : call.traceable = true) (exhausted : Exhausted s) (same : s' = s)
  | appended (action : MiniTraceAction) (m : Session) (accepts : Accepts call action)
      (appended : Appended (call.stores action) s m s')

theorem log_logs (call : TraceCall) (s s' : Session) (ready : Ready s) (returned : log call s = .ok s') :
    Logs call s s' := by
  rcases log_returned returned with ⟨untraceable,same⟩ | ⟨action,accepts,common⟩
  · exact .filtered untraceable same
  · rcases logTraceEvent_cases _ s s' ready.size common with
      ⟨-,⟨exhausted,same⟩ | failed⟩ | ⟨-,m,-,appended⟩
    · exact .refused accepts.1 exhausted same
    · exact absurd (flushBuffer_reliable s.counted s' false ready.reliable failed.2.2) Bool.false_ne_true
    · exact .appended action m accepts appended

theorem Logs.ready {call : TraceCall} {s s' : Session} (logs : Logs call s s') (ready : Ready s) : Ready s' := by
  cases logs with
  | filtered untraceable same => exact same ▸ ready
  | refused traceable exhausted same => exact same ▸ ready
  | appended action m accepts appended => exact appended.ready ready

/-- The slot of each call that passes its filter, as it stands when the call returns. -/
def slotsOf : List TraceCall → Session → List (List Byte)
  | [], _ => []
  | call :: rest, s =>
    match log call s with
    | .error _ => []
    | .ok next => if call.traceable then lastSlot next :: slotsOf rest next else slotsOf rest next

theorem logAll_cons (call : TraceCall) (rest : List TraceCall) (s final : Session)
    (returned : logAll (call :: rest) s = .ok final) :
    ∃ next, log call s = .ok next ∧ logAll rest next = .ok final := by
  rw [logAll] at returned
  split at returned
  · cases returned
  · exact ⟨_,‹_›,returned⟩

/-- The first `room s` records are appended in order, and no later one. -/
theorem logAll_content (calls : List TraceCall) (s final : Session) (ready : Ready s)
    (returned : logAll calls s = .ok final) :
    Ready final ∧ content final = content s ++ ((slotsOf calls s).take (room s)).flatten ∧
      room final = room s - calls.countP TraceCall.traceable := by
  induction calls generalizing s with
  | nil =>
    cases returned
    exact ⟨ready,by simp [slotsOf],by simp⟩
  | cons call rest ih =>
    obtain ⟨next,logged,onward⟩ := logAll_cons call rest s final returned
    have logs := log_logs call s next ready logged
    obtain ⟨final_ready,final_content,final_room⟩ := ih next (logs.ready ready) onward
    refine ⟨final_ready,?_,?_⟩
    · simp only [slotsOf,logged]
      cases logs with
      | filtered untraceable same => rw [final_content,same,untraceable]; simp
      | refused traceable exhausted same =>
        have full : room s = 0 := (exhausted_iff_no_room s ready).mp exhausted
        rw [final_content,same,full,List.take_zero,List.take_zero]
      | appended action m accepts appended =>
        rw [final_content,appended.content_eq (stores_inside call action),appended.room_succ ready,
          accepts.1,if_pos rfl,List.take_succ_cons,List.flatten_cons,List.append_assoc]
    · rw [final_room,List.countP_cons]
      cases logs with
      | filtered untraceable same => simp [same,untraceable]
      | refused traceable exhausted same =>
        have full : room s = 0 := (exhausted_iff_no_room s ready).mp exhausted
        rw [same,full,Nat.zero_sub,Nat.zero_sub]
      | appended action m accepts appended =>
        have one := appended.room_succ ready
        simp only [accepts.1,if_true]
        omega

/-- The call names an object of the runtime and its event is one the log function knows. -/
def TraceCall.WellFormed (call : TraceCall) : Prop := Aligned call.subject ∧ call.action ≠ none

instance (call : TraceCall) : Decidable call.WellFormed :=
  inferInstanceAs (Decidable (Aligned call.subject ∧ call.action ≠ none))

def AllReadable (s : Session) : Prop :=
  ∀ record ∈ recordsOf s.buf (recordCount s.curOffset), Readable record

instance (s : Session) : Decidable (AllReadable s) := inferInstanceAs (Decidable (∀ record ∈ _, _))

theorem recordCount_mul (n : Nat) : recordCount (kMiniTraceRecordSize * n) = n := by
  simp only [recordCount,kMiniTraceRecordSize]
  omega

theorem Appended.records_eq {stores : List Store} {s m s' : Session} (appended : Appended stores s m s')
    (ready : Ready s) (inside : StoresIn 0 kMiniTraceRecordSize stores) :
    recordsOf s'.buf (recordCount s'.curOffset) =
      recordsOf m.buf (recordCount m.curOffset) ++ [lastSlot s'] := by
  obtain ⟨n,offset⟩ := (appended.opened.ready ready).aligned
  have next : s'.curOffset = kMiniTraceRecordSize * (n + 1) := by
    rw [appended.curOffset,offset,Nat.mul_succ]
  have kept : recordsOf s'.buf n = recordsOf m.buf n := by
    apply List.map_congr_left
    intro i member
    have bound := List.mem_range.mp member
    rw [appended.buf]
    refine slot_storesIn _ _ _ _ _ _ (inside.shift _) (.inr ?_)
    rw [offset,← Nat.mul_succ]
    exact Nat.mul_le_mul_left _ bound
  rw [next,recordCount_mul,recordsOf,blocks_succ,lastSlot,next,Nat.mul_succ,Nat.add_sub_cancel,offset,
    recordCount_mul]
  exact congrArg (· ++ _) kept

theorem Flushed.readable {s s' : Session} (flushed : Flushed s s') : AllReadable s' := by
  intro record member
  rw [flushed.curOffset_eq] at member
  exact absurd member List.not_mem_nil

theorem Opened.readable {s m : Session} (opened : Opened s m) (readable : AllReadable s) : AllReadable m := by
  cases opened with
  | fits => exact readable
  | flushed _ full below flushed => exact flushed.readable

theorem Logs.readable {call : TraceCall} {s s' : Session} (logs : Logs call s s') (ready : Ready s)
    (aligned : Aligned call.subject) (readable : AllReadable s) : AllReadable s' := by
  cases logs with
  | filtered untraceable same => exact same ▸ readable
  | refused traceable exhausted same => exact same ▸ readable
  | appended action m accepts appended =>
    intro record member
    rw [appended.records_eq ready (stores_inside call action)] at member
    rcases List.mem_append.mp member with earlier | last
    · exact appended.opened.readable readable record earlier
    · rw [List.mem_singleton] at last
      rw [last,appended.lastSlot_eq,Readable,record_action _ (slot_length _ _ _ appended.fits) call action aligned]
      exact accepts.ne_mask

theorem reserve_total (s : Session) (ready : Ready s) (readable : AllReadable s) :
    ∃ result, reserve (s.spurious.length + 2) s = .ok result := by
  by_cases fits : s.curOffset + kMiniTraceRecordSize ≤ s.bufferSize
  · obtain ⟨rest,eq⟩ := reserve_fits (s.spurious.length + 2) s (by omega) fits
    exact ⟨_,eq⟩
  · have full := Nat.lt_of_not_le fits
    by_cases capped : 1024 < s.bufferOverflowCount
    · exact ⟨_,reserve_exhausted _ s ⟨full,capped⟩⟩
    · obtain ⟨m,flush⟩ := flushBuffer_total s.counted ready.reliable readable
      have flushed := flushBuffer_flushed s.counted m flush
      rw [reserve_overflow _ s m ready.size full (Nat.le_of_not_lt capped) flush]
      obtain ⟨rest,eq⟩ := reserve_fits (s.spurious.length + 1) m (by rw [flushed.spurious]; simp [Session.counted])
        (flushed.opens ready.size)
      exact ⟨_,eq⟩

theorem log_total (call : TraceCall) (s : Session) (ready : Ready s) (readable : AllReadable s)
    (wellFormed : call.WellFormed) : ∃ s', log call s = .ok s' := by
  rcases log_cases call s with ⟨untraceable,same⟩ | ⟨-,noAction,-⟩ | ⟨action,accepts,common⟩
  · exact ⟨s,same⟩
  · exact absurd noAction wellFormed.2
  · obtain ⟨⟨after,reserved⟩,outcome⟩ := reserve_total s ready readable
    rw [common,logTraceEvent,outcome]
    cases reserved with
    | none => exact ⟨after,rfl⟩
    | some oldOffset => exact ⟨_,rfl⟩

theorem logAll_total (calls : List TraceCall) (s : Session) (ready : Ready s) (readable : AllReadable s)
    (wellFormed : ∀ call ∈ calls, call.WellFormed) : ∃ s', logAll calls s = .ok s' ∧ AllReadable s' := by
  induction calls generalizing s with
  | nil => exact ⟨s,rfl,readable⟩
  | cons call rest ih =>
    have first := wellFormed call List.mem_cons_self
    obtain ⟨next,logged⟩ := log_total call s ready readable first
    have logs := log_logs call s next ready logged
    obtain ⟨final,onward,still⟩ := ih next (logs.ready ready) (logs.readable ready first.1 readable)
      fun later member => wellFormed later (List.mem_cons_of_mem _ member)
    exact ⟨final,by rw [logAll,logged]; exact onward,still⟩

/-- A new trace, with the answers its environment will give. -/
def Session.start (bufferSize : Nat) (writes : List WriteOutcome) (spurious : List Bool) : Session :=
  { MiniTrace.new bufferSize with writes := writes, spurious := spurious }

theorem start_ready (bufferSize : Nat) (writes : List WriteOutcome) (spurious : List Bool)
    (size : kMiniTraceRecordSize ≤ bufferSize) (reliable : Reliable writes) :
    Ready (Session.start bufferSize writes spurious) :=
  ⟨by simpa [Session.start,MiniTrace.new,MiniTrace.bufferSize] using size,Nat.zero_le _,Nat.dvd_zero _,reliable⟩

theorem start_readable (bufferSize : Nat) (writes : List WriteOutcome) (spurious : List Bool) :
    AllReadable (.start bufferSize writes spurious) := by
  intro record member
  exact absurd member (by simp [Session.start,MiniTrace.new,recordCount,kMiniTraceRecordSize,recordsOf,blocks])

theorem start_room (bufferSize : Nat) (writes : List WriteOutcome) (spurious : List Bool) :
    room (Session.start bufferSize writes spurious) = 1026 * (bufferSize / kMiniTraceRecordSize) := by
  simp only [room,Session.start,MiniTrace.new,MiniTrace.bufferSize,List.length_replicate,kMiniTraceRecordSize]
  omega

theorem slotsOf_length (calls : List TraceCall) (s final : Session) (returned : logAll calls s = .ok final) :
    (slotsOf calls s).length = calls.countP TraceCall.traceable := by
  induction calls generalizing s with
  | nil => rfl
  | cons call rest ih =>
    obtain ⟨next,logged,onward⟩ := logAll_cons call rest s final returned
    simp only [slotsOf,logged,List.countP_cons]
    split
    · rw [List.length_cons,ih next onward]
    · rw [ih next onward,Nat.add_zero]

/-- The data file after a final flush is the concatenation of the slots of the first
`1026 * (bufferSize / 14)` calls that pass their filter, in order; a call after these changes
neither the offset nor the buffer nor the file. Calls about objects of the runtime return. -/
theorem data_file_exact (bufferSize : Nat) (writes : List WriteOutcome) (spurious : List Bool)
    (calls : List TraceCall) (size : kMiniTraceRecordSize ≤ bufferSize) (reliable : Reliable writes) :
    ((∀ call ∈ calls, call.WellFormed) → ∃ s final,
      logAll calls (.start bufferSize writes spurious) = .ok s ∧ flushBuffer s = .ok (final,true)) ∧
    (∀ s final result, logAll calls (.start bufferSize writes spurious) = .ok s →
      flushBuffer s = .ok (final,result) → result = true ∧
        final.traceDataFile = ((slotsOf calls (.start bufferSize writes spurious)).take
          (1026 * (bufferSize / kMiniTraceRecordSize))).flatten ∧
        (slotsOf calls (.start bufferSize writes spurious)).length = calls.countP TraceCall.traceable) ∧
    (∀ front call back s next, calls = front ++ call :: back →
      1026 * (bufferSize / kMiniTraceRecordSize) ≤ front.countP TraceCall.traceable →
      logAll front (.start bufferSize writes spurious) = .ok s → log call s = .ok next →
        next.curOffset = s.curOffset ∧ next.buf = s.buf ∧ next.traceDataFile = s.traceDataFile) := by
  have ready := start_ready bufferSize writes spurious size reliable
  have capacity := start_room bufferSize writes spurious
  refine ⟨?_,?_,?_⟩
  · intro wellFormed
    obtain ⟨s,logged,readable⟩ := logAll_total calls _ ready (start_readable bufferSize writes spurious) wellFormed
    obtain ⟨final,flush⟩ := flushBuffer_total s (logAll_content calls _ s ready logged).1.reliable readable
    exact ⟨s,final,logged,flush⟩
  · intro s final result logged flush
    obtain ⟨s_ready,s_content,-⟩ := logAll_content calls _ s ready logged
    obtain rfl := flushBuffer_reliable s final result s_ready.reliable flush
    refine ⟨rfl,?_,slotsOf_length calls _ s logged⟩
    rw [(flushBuffer_flushed s final flush).file_eq,← capacity]
    exact s_content
  · intro front call back s next _ later logged returned
    obtain ⟨s_ready,-,s_room⟩ := logAll_content front _ s ready logged
    have full : room s = 0 := by omega
    cases log_logs call s next s_ready returned with
    | filtered untraceable same => exact same ▸ ⟨rfl,rfl,rfl⟩
    | refused traceable exhausted same => exact same ▸ ⟨rfl,rfl,rfl⟩
    | appended action m accepts appended =>
      have one := appended.room_succ s_ready
      omega

theorem data_file_exact_two_calls : kMiniTraceRecordSize ≤ 20 ∧ Reliable [.wrote 3] ∧
    ∃ s final, logAll [.monitor 1 8 0 true,.method 1 16 kAccIsMiniTraceable .methodExited 7]
      (.start 20 [.wrote 3] [true]) = .ok s ∧ flushBuffer s = .ok (final,true) :=
  ⟨by decide,by decide,(data_file_exact 20 [.wrote 3] [true]
    [.monitor 1 8 0 true,.method 1 16 kAccIsMiniTraceable .methodExited 7] (by decide) (by decide)).1 (by decide)⟩

end Aatt
