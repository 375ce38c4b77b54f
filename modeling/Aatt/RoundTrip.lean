import Aatt.Sequential

/-! Decoding the slot that a log call leaves. Field and monitor records are read back exactly.
`LogMethodTraceEvent` stores the return value two bytes too early, so a method record is read
back only when the value happens to repeat the upper half of the method's address. -/
namespace Aatt

open Aatt.Lib

namespace TraceCall

/-- The decoder that `FlushBuffer` applies to the word of such a record. -/
def decodeId : TraceCall → BitVec 32 → Address
  | .method .. => decodeMiniTraceMethodId
  | .field .. => decodeMiniTraceFieldId
  | .monitor .. => decodeMiniTraceMethodId

/-- The receiver of a field access is a 32-bit heap address. -/
def HeapReceiver : TraceCall → Prop
  | .field _ thisObject .. => thisObject.toNat < 2 ^ 32
  | _ => True

/-- The payload is read back, the return value of a method event from offset `start` on. -/
def DecodesPayload (start : Nat) (record : List Byte) : TraceCall → Prop
  | .method _ _ _ _ returnValue => readLE 64 (slot record start 8) = returnValue
  | .field _ thisObject _ _ dexPc _ =>
    (readLE 32 (slot record 6 4)).setWidth 64 = thisObject ∧ readLE 32 (slot record 10 4) = dexPc
  | .monitor _ _ dexPc _ => readLE 32 (slot record 6 4) = dexPc

/-- Decoding the record gives back what the call logged. -/
def Decodes (start : Nat) (action : MiniTraceAction) (record : List Byte) (call : TraceCall) : Prop :=
  (recordTid record).toNat = call.thread.toNat ∧
    decodeMiniTraceAction (recordWord record) = action ∧
    call.decodeId (recordWord record) = call.subject ∧ call.DecodesPayload start record

instance (start : Nat) (record : List Byte) : (call : TraceCall) → Decidable (call.DecodesPayload start record)
  | .method .. => inferInstanceAs (Decidable (_ = _))
  | .field .. => inferInstanceAs (Decidable (_ ∧ _))
  | .monitor .. => inferInstanceAs (Decidable (_ = _))

instance (start : Nat) (action : MiniTraceAction) (record : List Byte) (call : TraceCall) :
    Decidable (call.Decodes start action record) :=
  inferInstanceAs (Decidable (_ ∧ _ ∧ _ ∧ _))

/-- The low half of the return value equals the half of the method's address it overwrites. -/
def WordSurvives : TraceCall → Prop
  | .method _ callee _ _ returnValue => returnValue.toNat % 2 ^ 16 = callee.toNat / 2 ^ 16
  | _ => True

/-- The return value read from the eight bytes behind the word: its upper 48 bits under the
two bytes that the call leaves as they were. -/
def PayloadSurvives (old : List Byte) : TraceCall → Prop
  | .method _ _ _ _ returnValue =>
    (readLE 16 (slot old 12 2) ++ (returnValue >>> 16).setWidth 48 : BitVec 64) = returnValue
  | _ => True

end TraceCall

theorem overwritten_eq_iff (method : Address) (returnValue : BitVec 64) :
    overwritten method returnValue = method ↔ returnValue.toNat % 2 ^ 16 = method.toNat / 2 ^ 16 := by
  rw [← BitVec.toNat_inj,overwritten_toNat]
  omega

theorem named_eq_subject_iff (call : TraceCall) :
    call.named = call.subject ↔ call.WordSurvives := by
  cases call with
  | method thread callee accessFlags event returnValue => exact overwritten_eq_iff callee returnValue
  | field => exact iff_of_true rfl trivial
  | monitor => exact iff_of_true rfl trivial

section Slot

variable (old : List Byte) (size : old.length = kMiniTraceRecordSize) (call : TraceCall)
  (action : MiniTraceAction)
include size

/-- The address that `FlushBuffer` reads from the record. -/
theorem record_id (low : call.subject.toNat < 2 ^ 32) (aligned : Aligned call.subject) :
    call.decodeId (recordWord (writeStores old (call.stores action))) = call.named := by
  rw [record_word old size]
  have alignedNamed := named_aligned call aligned
  have lowNamed := named_low call low
  cases call with
  | method => exact decode_method_encode _ action lowNamed alignedNamed
  | field => exact decode_field_encode _ action lowNamed alignedNamed
  | monitor => exact decode_method_encode _ action lowNamed alignedNamed

theorem payload_stored (receiver : call.HeapReceiver) :
    call.DecodesPayload 4 (writeStores old (call.stores action)) := by
  cases call with
  | method thread callee accessFlags event returnValue =>
    exact method_payload old size thread callee action returnValue
  | field thread thisObject member accessFlags dexPc readEvent =>
    refine ⟨?_,field_dexPc old size thread thisObject member action dexPc⟩
    exact (congrArg (BitVec.setWidth 64) (field_object old size thread thisObject member action dexPc)).trans
      (lowMem_setWidth thisObject receiver)
  | monitor thread lockObject dexPc enterEvent => exact monitor_dexPc old size thread lockObject action dexPc

theorem method_payload_behind (thread : BitVec 32) (method : Address) (returnValue : BitVec 64) :
    readLE 64 (slot (writeStores old (methodStores thread method action returnValue)) 6 8) =
      (readLE 16 (slot old 12 2) ++ (returnValue >>> 16).setWidth 48 : BitVec 64) := by
  have fits : old.length = 14 := size
  have early : StoresIn 0 12 (methodStores thread method action returnValue) :=
    (storesIn_append2LE _ _ _ _ (by omega) (by omega)).append
      ((storesIn_append4LE _ _ _ _ (by omega) (by omega)).append
        (storesIn_append8LE _ _ _ _ (by omega) (by omega)))
  have stored : slot (writeStores old (methodStores thread method action returnValue)) 6 8 =
      wordBytes 6 (returnValue >>> 16) ++ slot old 12 2 := by
    rw [slot_add _ 6 6 2,slot_storesIn _ 12 2 0 12 _ early (.inl (by omega)),methodStores,
      ← List.append_assoc,writeStores_append,append8LE,
      slot_littleEndian _ 8 4 2 6 _ (by simp [fits]) (by omega),slot_wordBytes_back 2 6]
  rw [stored]
  exact readLE_append 6 16 (returnValue >>> 16) (slot old 12 2)

theorem payload_behind_iff (receiver : call.HeapReceiver) :
    call.DecodesPayload 6 (writeStores old (call.stores action)) ↔ call.PayloadSurvives old := by
  have stored := payload_stored old size call action receiver
  cases call with
  | method thread callee accessFlags event returnValue =>
    exact iff_of_eq (congrArg (· = returnValue) (method_payload_behind old size action thread callee returnValue))
  | field => exact iff_of_true stored trivial
  | monitor => exact iff_of_true stored trivial

theorem decodes_iff (start : Nat) (tid : call.thread.toNat < 2 ^ 16) (low : call.subject.toNat < 2 ^ 32)
    (aligned : Aligned call.subject) :
    call.Decodes start action (writeStores old (call.stores action)) ↔
      call.WordSurvives ∧ call.DecodesPayload start (writeStores old (call.stores action)) := by
  have thread : (recordTid (writeStores old (call.stores action))).toNat = call.thread.toNat := by
    rw [record_tid old size,BitVec.toNat_setWidth,Nat.mod_eq_of_lt tid]
  rw [TraceCall.Decodes,record_action old size call action aligned,record_id old size call action low aligned,
    named_eq_subject_iff call]
  exact ⟨fun decodes => decodes.2.2,fun survives => ⟨thread,rfl,survives⟩⟩

end Slot

theorem slot_after_log (call : TraceCall) (action : MiniTraceAction) (s m s' : Session) (oldOffset : Nat)
    (size : kMiniTraceRecordSize ≤ s.bufferSize) (accepts : Accepts call action)
    (reserved : reserve (s.spurious.length + 2) s = .ok (m,some oldOffset)) (returned : log call s = .ok s') :
    (slot m.buf oldOffset kMiniTraceRecordSize).length = kMiniTraceRecordSize ∧
      slot s'.buf oldOffset kMiniTraceRecordSize =
        writeStores (slot m.buf oldOffset kMiniTraceRecordSize) (call.stores action) := by
  rcases reserve_cases s m _ size reserved with ⟨refused,-⟩ | ⟨opened,rest,-,fits,rfl,offset⟩
  · cases refused
  · obtain rfl := Option.some.inj offset
    rcases log_returned returned with ⟨untraceable,-⟩ | ⟨taken,accepted,common⟩
    · exact absurd (untraceable.symm.trans accepts.1) Bool.false_ne_true
    · obtain rfl := Option.some.inj (accepted.2.symm.trans accepts.2)
      rw [logTraceEvent,reserved] at common
      cases common
      exact ⟨slot_length _ _ _ fits,slot_writeStores_inside _ _ _ _⟩

/-- Decoding the slot after a log call. Wherever the eight payload bytes of a method record are
taken to start (where the code stores them, or behind the word), the call is read back exactly
when the return value repeats what it overwrites; field and monitor calls always are. -/
theorem record_round_trip_iff (call : TraceCall) (action : MiniTraceAction) (s m s' : Session) (oldOffset : Nat)
    (size : kMiniTraceRecordSize ≤ s.bufferSize) (accepts : Accepts call action)
    (reserved : reserve (s.spurious.length + 2) s = .ok (m,some oldOffset)) (returned : log call s = .ok s')
    (tid : call.thread.toNat < 2 ^ 16) (low : call.subject.toNat < 2 ^ 32) (aligned : Aligned call.subject)
    (receiver : call.HeapReceiver) :
    (call.Decodes 4 action (slot s'.buf oldOffset kMiniTraceRecordSize) ↔ call.WordSurvives) ∧
    (call.Decodes 6 action (slot s'.buf oldOffset kMiniTraceRecordSize) ↔
      call.WordSurvives ∧ call.PayloadSurvives (slot m.buf oldOffset kMiniTraceRecordSize)) := by
  obtain ⟨length,slotEq⟩ := slot_after_log call action s m s' oldOffset size accepts reserved returned
  rw [slotEq]
  constructor
  · rw [decodes_iff _ length call action 4 tid low aligned]
    exact and_iff_left (payload_stored _ length call action receiver)
  · rw [decodes_iff _ length call action 6 tid low aligned,payload_behind_iff _ length call action receiver]

/-- A method entry at an address above 2^16: the record names the address with its upper half
cleared. -/
theorem method_entry_not_decoded : ∃ s', log (.method 1 0x70001238 kAccIsMiniTraceable .methodEntered 0)
      (.start 14 [] []) = .ok s' ∧
    decodeMiniTraceMethodId (recordWord (slot s'.buf 0 kMiniTraceRecordSize)) = 0x1238 ∧
    ¬ TraceCall.Decodes 4 .methodEnter (slot s'.buf 0 kMiniTraceRecordSize)
      (.method 1 0x70001238 kAccIsMiniTraceable .methodEntered 0) ∧
    ¬ TraceCall.Decodes 6 .methodEnter (slot s'.buf 0 kMiniTraceRecordSize)
      (.method 1 0x70001238 kAccIsMiniTraceable .methodEntered 0) := by
  refine ⟨_,rfl,?_,?_,?_⟩ <;> decide

theorem record_round_trip_exit : ∃ m s', reserve 2 (.start 14 [] []) = .ok (m,some 0) ∧
    log (.method 1 0x70001238 kAccIsMiniTraceable .methodExited 0x7000) (.start 14 [] []) = .ok s' ∧
    TraceCall.Decodes 4 .methodExit (slot s'.buf 0 kMiniTraceRecordSize)
      (.method 1 0x70001238 kAccIsMiniTraceable .methodExited 0x7000) := by
  refine ⟨_,_,rfl,rfl,?_⟩
  exact (record_round_trip_iff (.method 1 0x70001238 kAccIsMiniTraceable .methodExited 0x7000) .methodExit
    (.start 14 [] []) _ _ 0 (by decide) ⟨rfl,rfl⟩ rfl rfl (by decide) (by decide) (by decide) trivial).1.mpr rfl

end Aatt
