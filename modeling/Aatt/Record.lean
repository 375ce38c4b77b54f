import Mathlib.Data.Finset.Basic
import Aatt.Lib.Bytes
import Aatt.Modifiers

/-! The 14-byte trace record of `mini_trace.cc`: how an event is packed, which bytes each
of the three writers stores, and how `FlushBuffer` reads a record back. -/
namespace Aatt

open Aatt.Lib

abbrev Address := BitVec 64

inductive MiniTraceAction where
  | methodEnter | methodExit | unroll | fieldRead | fieldWrite | monitorEnter | monitorExit | actionMask
  deriving DecidableEq, Repr

def MiniTraceAction.value : MiniTraceAction → BitVec 32
  | .methodEnter => 0x00#32
  | .methodExit => 0x01#32
  | .unroll => 0x02#32
  | .fieldRead => 0x03#32
  | .fieldWrite => 0x04#32
  | .monitorEnter => 0x05#32
  | .monitorExit => 0x06#32
  | .actionMask => 0x07#32

def kMiniTraceRecordSize : Nat := 14

def decodeMiniTraceMethodId (tmid : BitVec 32) : Address :=
  (tmid &&& ~~~ MiniTraceAction.actionMask.value).setWidth 64

def decodeMiniTraceFieldId (tfid : BitVec 32) : Address :=
  (tfid &&& ~~~ MiniTraceAction.actionMask.value).setWidth 64

/-- The cast of the three low bits to the enumeration. -/
def decodeMiniTraceAction (tmid : BitVec 32) : MiniTraceAction :=
  match (tmid &&& MiniTraceAction.actionMask.value).toNat with
  | 0 => .methodEnter
  | 1 => .methodExit
  | 2 => .unroll
  | 3 => .fieldRead
  | 4 => .fieldWrite
  | 5 => .monitorEnter
  | 6 => .monitorExit
  | _ => .actionMask

def pointerToLowMemUInt32 (p : Address) : BitVec 32 := p.setWidth 32

def encodeAddressAndAction (p : Address) (action : MiniTraceAction) : BitVec 32 :=
  pointerToLowMemUInt32 p ||| action.value

def encodeMiniTraceMethodAndAction (method : Address) (action : MiniTraceAction) : BitVec 32 :=
  encodeAddressAndAction method action

def encodeMiniTraceFieldAndAction (field : Address) (action : MiniTraceAction) : BitVec 32 :=
  encodeAddressAndAction field action

def encodeMiniTraceObjectAndAction (object : Address) (action : MiniTraceAction) : BitVec 32 :=
  encodeAddressAndAction object action

def encodeMiniTraceObject (object : Address) : BitVec 32 := pointerToLowMemUInt32 object

def append2LE (buf : Nat) (val : BitVec 16) : List Store := littleEndian 2 buf val

def append4LE (buf : Nat) (val : BitVec 32) : List Store := littleEndian 4 buf val

def append8LE (buf : Nat) (val : BitVec 64) : List Store := littleEndian 8 buf val

/-- `Instrumentation::InstrumentationEvent`. -/
inductive InstrumentationEvent where
  | methodEntered | methodExited | methodUnwind | dexPcMoved | fieldRead | fieldWritten
  | exceptionCaught | backwardBranch
  deriving DecidableEq, Repr

/-- One call of a log function. Methods and fields come with the access flags the
function tests; a lock object has no mark. -/
inductive TraceCall where
  | method (thread : BitVec 32) (method : Address) (accessFlags : AccessFlags)
      (event : InstrumentationEvent) (returnValue : BitVec 64)
  | field (thread : BitVec 32) (thisObject field : Address) (accessFlags : AccessFlags)
      (dexPc : BitVec 32) (readEvent : Bool)
  | monitor (thread : BitVec 32) (lockObject : Address) (dexPc : BitVec 32) (enterEvent : Bool)
  deriving DecidableEq, Repr

/-- The switch of `LogMethodTraceEvent`; the other events are fatal there. -/
def methodAction : InstrumentationEvent → Option MiniTraceAction
  | .methodEntered => some .methodEnter
  | .methodExited => some .methodExit
  | .methodUnwind => some .unroll
  | _ => none

def fieldAction (readEvent : Bool) : MiniTraceAction :=
  if readEvent then .fieldRead else .fieldWrite

def monitorAction (enterEvent : Bool) : MiniTraceAction :=
  if enterEvent then .monitorEnter else .monitorExit

/-- The stores of `LogMethodTraceEvent`, relative to the slot and in program order. The
return value is stored at `ptr + 4`, over the upper half of the method word. -/
def methodStores (thread : BitVec 32) (method : Address) (action : MiniTraceAction)
    (returnValue : BitVec 64) : List Store :=
  append2LE 0 (thread.setWidth 16) ++ (append4LE 2 (encodeMiniTraceMethodAndAction method action) ++
    append8LE 4 returnValue)

def fieldStores (thread : BitVec 32) (thisObject field : Address) (action : MiniTraceAction)
    (dexPc : BitVec 32) : List Store :=
  append2LE 0 (thread.setWidth 16) ++ (append4LE 2 (encodeMiniTraceFieldAndAction field action) ++
    (append4LE 6 (encodeMiniTraceObject thisObject) ++ append4LE (6 + 4) dexPc))

/-- The last four bytes of the slot are left as they were. -/
def monitorStores (thread : BitVec 32) (lockObject : Address) (action : MiniTraceAction)
    (dexPc : BitVec 32) : List Store :=
  append2LE 0 (thread.setWidth 16) ++ (append4LE 2 (encodeMiniTraceObjectAndAction lockObject action) ++
    append4LE 6 dexPc)

/-- `ptr[2] | (ptr[3] << 8) | (ptr[4] << 16) | (ptr[5] << 24)` of a record. -/
def recordWord (record : List Byte) : BitVec 32 := readLE 32 (slot record 2 4)

def recordTid (record : List Byte) : BitVec 16 := readLE 16 (slot record 0 2)

namespace TraceCall

def traceable : TraceCall → Bool
  | .method _ _ accessFlags _ _ => isMiniTraceable accessFlags
  | .field _ _ _ accessFlags _ _ => isMiniTraceable accessFlags
  | .monitor .. => true

def thread : TraceCall → BitVec 32
  | .method thread .. => thread
  | .field thread .. => thread
  | .monitor thread .. => thread

/-- The method, field or lock object the call is about. -/
def subject : TraceCall → Address
  | .method _ callee .. => callee
  | .field _ _ member .. => member
  | .monitor _ lockObject .. => lockObject

def action : TraceCall → Option MiniTraceAction
  | .method _ _ _ event _ => methodAction event
  | .field _ _ _ _ _ readEvent => some (fieldAction readEvent)
  | .monitor _ _ _ enterEvent => some (monitorAction enterEvent)

def stores (action : MiniTraceAction) : TraceCall → List Store
  | .method thread callee _ _ returnValue => methodStores thread callee action returnValue
  | .field thread thisObject member _ dexPc _ => fieldStores thread thisObject member action dexPc
  | .monitor thread lockObject dexPc _ => monitorStores thread lockObject action dexPc

end TraceCall

/-- The pointer is a multiple of 8, as every object, method and field of the runtime is. -/
def Aligned (p : Address) : Prop := 8 ∣ p.toNat

instance (p : Address) : Decidable (Aligned p) := inferInstanceAs (Decidable (8 ∣ p.toNat))

/-- The address that the record of a method event names: the low half of the method's
address under the low half of the return value. -/
def overwritten (method : Address) (returnValue : BitVec 64) : Address :=
  (returnValue.setWidth 16 ++ method.setWidth 16 : BitVec 32).setWidth 64

def TraceCall.named : TraceCall → Address
  | .method _ callee _ _ returnValue => overwritten callee returnValue
  | .field _ _ member .. => member
  | .monitor _ lockObject .. => lockObject

theorem overwritten_toNat (method : Address) (returnValue : BitVec 64) :
    (overwritten method returnValue).toNat = returnValue.toNat % 2 ^ 16 * 2 ^ 16 + method.toNat % 2 ^ 16 := by
  have low : method.toNat % 2 ^ 16 < 2 ^ 16 := Nat.mod_lt _ (by decide)
  simp only [overwritten,BitVec.toNat_setWidth,BitVec.toNat_append,Nat.shiftLeft_eq]
  rw [Nat.mul_comm _ (2 ^ 16),← Nat.two_pow_add_eq_or_of_lt low]
  omega

theorem overwritten_aligned (method : Address) (returnValue : BitVec 64) (aligned : Aligned method) :
    Aligned (overwritten method returnValue) := by
  unfold Aligned at *
  rw [overwritten_toNat]
  omega

theorem overwritten_low (method : Address) (returnValue : BitVec 64) :
    (overwritten method returnValue).toNat < 2 ^ 32 := by
  rw [overwritten_toNat]
  omega

theorem named_aligned (call : TraceCall) (aligned : Aligned call.subject) : Aligned call.named := by
  cases call with
  | method => exact overwritten_aligned _ _ aligned
  | field => exact aligned
  | monitor => exact aligned

theorem named_low (call : TraceCall) (low : call.subject.toNat < 2 ^ 32) : call.named.toNat < 2 ^ 32 := by
  cases call with
  | method thread callee accessFlags event returnValue => exact overwritten_low callee returnValue
  | field => exact low
  | monitor => exact low

theorem value_upper (action : MiniTraceAction) (i : Nat) (high : 3 ≤ i) :
    action.value.getLsbD i = false := by
  have small : action.value.toNat < 2 ^ 3 := by cases action <;> decide
  exact Nat.testBit_lt_two_pow (Nat.lt_of_lt_of_le small (Nat.pow_le_pow_right (by decide) high))

theorem low_bits_zero (p : Address) (aligned : Aligned p) :
    pointerToLowMemUInt32 p &&& MiniTraceAction.actionMask.value = 0#32 := by
  apply BitVec.eq_of_toNat_eq
  obtain ⟨q,eq⟩ := aligned
  simp only [pointerToLowMemUInt32,MiniTraceAction.value,BitVec.toNat_and,BitVec.toNat_setWidth,eq]
  have mask := Nat.and_two_pow_sub_one_eq_mod (8 * q % 2 ^ 32) 3
  simp only [Nat.reducePow,Nat.reduceSub,BitVec.toNat_ofNat,Nat.reduceMod] at mask ⊢
  omega

theorem decode_action_encode (p : Address) (action : MiniTraceAction) (aligned : Aligned p) :
    decodeMiniTraceAction (encodeAddressAndAction p action) = action := by
  have bits : encodeAddressAndAction p action &&& MiniTraceAction.actionMask.value = action.value := by
    rw [encodeAddressAndAction,or_and_mask,low_bits_zero p aligned]
    cases action <;> decide
  unfold decodeMiniTraceAction
  rw [bits]
  cases action <;> rfl

theorem mask_encode (p : Address) (action : MiniTraceAction) (aligned : Aligned p) :
    encodeAddressAndAction p action &&& ~~~ MiniTraceAction.actionMask.value = pointerToLowMemUInt32 p := by
  have cleared : action.value &&& ~~~ MiniTraceAction.actionMask.value = 0#32 := by
    cases action <;> decide
  have whole : pointerToLowMemUInt32 p &&& ~~~ MiniTraceAction.actionMask.value =
      pointerToLowMemUInt32 p := by
    have zero := low_bits_zero p aligned
    generalize pointerToLowMemUInt32 p = x at zero ⊢
    apply BitVec.eq_of_getLsbD_eq
    intro i bound
    have bit := congrArg (fun v => v.getLsbD i) zero
    simp only [BitVec.getLsbD_and,BitVec.getLsbD_not] at bit ⊢
    grind
  rw [encodeAddressAndAction,or_and_mask,cleared,whole,BitVec.or_zero]

theorem lowMem_setWidth (p : Address) (low : p.toNat < 2 ^ 32) :
    (pointerToLowMemUInt32 p).setWidth 64 = p := by
  apply BitVec.eq_of_toNat_eq
  have := p.isLt
  simp only [pointerToLowMemUInt32,BitVec.toNat_setWidth]
  omega

theorem decode_method_encode (p : Address) (action : MiniTraceAction) (low : p.toNat < 2 ^ 32)
    (aligned : Aligned p) : decodeMiniTraceMethodId (encodeAddressAndAction p action) = p := by
  rw [decodeMiniTraceMethodId,mask_encode p action aligned,lowMem_setWidth p low]

theorem decode_field_encode (p : Address) (action : MiniTraceAction) (low : p.toNat < 2 ^ 32)
    (aligned : Aligned p) : decodeMiniTraceFieldId (encodeAddressAndAction p action) = p := by
  rw [decodeMiniTraceFieldId,mask_encode p action aligned,lowMem_setWidth p low]

theorem storesIn_append2LE (low high buf : Nat) (val : BitVec 16) (above : low ≤ buf)
    (below : buf + 2 ≤ high) : StoresIn low high (append2LE buf val) :=
  storesIn_littleEndian low high 2 buf val above below

theorem storesIn_append4LE (low high buf : Nat) (val : BitVec 32) (above : low ≤ buf)
    (below : buf + 4 ≤ high) : StoresIn low high (append4LE buf val) :=
  storesIn_littleEndian low high 4 buf val above below

theorem storesIn_append8LE (low high buf : Nat) (val : BitVec 64) (above : low ≤ buf)
    (below : buf + 8 ≤ high) : StoresIn low high (append8LE buf val) :=
  storesIn_littleEndian low high 8 buf val above below

theorem stores_split (call : TraceCall) (action : MiniTraceAction) :
    ∃ rest, call.stores action = append2LE 0 (call.thread.setWidth 16) ++ rest ∧
      StoresIn 2 kMiniTraceRecordSize rest := by
  unfold kMiniTraceRecordSize
  cases call with
  | method thread callee accessFlags event returnValue =>
    exact ⟨_,rfl,(storesIn_append4LE _ _ _ _ (by omega) (by omega)).append
      (storesIn_append8LE _ _ _ _ (by omega) (by omega))⟩
  | field thread thisObject member accessFlags dexPc readEvent =>
    exact ⟨_,rfl,(storesIn_append4LE _ _ _ _ (by omega) (by omega)).append
      ((storesIn_append4LE _ _ _ _ (by omega) (by omega)).append
        (storesIn_append4LE _ _ _ _ (by omega) (by omega)))⟩
  | monitor thread lockObject dexPc enterEvent =>
    exact ⟨_,rfl,(storesIn_append4LE _ _ _ _ (by omega) (by omega)).append
      (storesIn_append4LE _ _ _ _ (by omega) (by omega))⟩

theorem stores_inside (call : TraceCall) (action : MiniTraceAction) :
    StoresIn 0 kMiniTraceRecordSize (call.stores action) := by
  obtain ⟨rest,eq,inside⟩ := stores_split call action
  rw [eq]
  unfold kMiniTraceRecordSize at inside ⊢
  refine (storesIn_append2LE _ _ _ _ (by omega) (by omega)).append fun store member => ?_
  exact ⟨Nat.zero_le _,(inside store member).2⟩

section Contents

variable (old : List Byte) (size : old.length = kMiniTraceRecordSize)
include size

theorem record_tid (call : TraceCall) (action : MiniTraceAction) :
    recordTid (writeStores old (call.stores action)) = call.thread.setWidth 16 := by
  obtain ⟨rest,eq,inside⟩ := stores_split call action
  rw [eq]
  exact readLE_stored old [] rest 2 0 _ _ rfl (by simp [size,kMiniTraceRecordSize]) inside

theorem field_word (thread : BitVec 32) (thisObject field : Address) (action : MiniTraceAction)
    (dexPc : BitVec 32) : recordWord (writeStores old (fieldStores thread thisObject field action dexPc)) =
      encodeAddressAndAction field action :=
  readLE_stored old _ _ 4 2 14 _ rfl (by simp [size,kMiniTraceRecordSize])
    ((storesIn_append4LE _ _ _ _ (by omega) (by omega)).append
      (storesIn_append4LE _ _ _ _ (by omega) (by omega)))

theorem field_object (thread : BitVec 32) (thisObject field : Address) (action : MiniTraceAction)
    (dexPc : BitVec 32) :
    readLE 32 (slot (writeStores old (fieldStores thread thisObject field action dexPc)) 6 4) =
      encodeMiniTraceObject thisObject := by
  rw [fieldStores,← List.append_assoc]
  exact readLE_stored old _ _ 4 6 14 _ rfl (by simp [size,kMiniTraceRecordSize])
    (storesIn_append4LE _ _ _ _ (by omega) (by omega))

theorem field_dexPc (thread : BitVec 32) (thisObject field : Address) (action : MiniTraceAction)
    (dexPc : BitVec 32) :
    readLE 32 (slot (writeStores old (fieldStores thread thisObject field action dexPc)) 10 4) = dexPc := by
  rw [fieldStores,← List.append_assoc,← List.append_assoc]
  exact readLE_stored_last old _ 4 10 _ rfl (by simp [size,kMiniTraceRecordSize])

theorem monitor_word (thread : BitVec 32) (lockObject : Address) (action : MiniTraceAction)
    (dexPc : BitVec 32) : recordWord (writeStores old (monitorStores thread lockObject action dexPc)) =
      encodeAddressAndAction lockObject action :=
  readLE_stored old _ _ 4 2 14 _ rfl (by simp [size,kMiniTraceRecordSize])
    (storesIn_append4LE _ _ _ _ (by omega) (by omega))

theorem monitor_dexPc (thread : BitVec 32) (lockObject : Address) (action : MiniTraceAction)
    (dexPc : BitVec 32) :
    readLE 32 (slot (writeStores old (monitorStores thread lockObject action dexPc)) 6 4) = dexPc := by
  rw [monitorStores,← List.append_assoc]
  exact readLE_stored_last old _ 4 6 _ rfl (by simp [size,kMiniTraceRecordSize])

theorem method_payload (thread : BitVec 32) (method : Address) (action : MiniTraceAction)
    (returnValue : BitVec 64) :
    readLE 64 (slot (writeStores old (methodStores thread method action returnValue)) 4 8) =
      returnValue := by
  rw [methodStores,← List.append_assoc]
  exact readLE_stored_last old _ 8 4 _ rfl (by simp [size,kMiniTraceRecordSize])

theorem method_word (thread : BitVec 32) (method : Address) (action : MiniTraceAction)
    (returnValue : BitVec 64) :
    recordWord (writeStores old (methodStores thread method action returnValue)) =
      encodeAddressAndAction (overwritten method returnValue) action := by
  have fits : old.length = 14 := size
  have stored : slot (writeStores old (methodStores thread method action returnValue)) 2 4 =
      wordBytes 2 (encodeMiniTraceMethodAndAction method action) ++ wordBytes 2 returnValue := by
    simp only [slot_add _ 2 2 2,methodStores,writeStores_append]
    rw [slot_storesIn _ 2 2 4 12 _ (storesIn_append8LE _ _ _ _ (by omega) (by omega)) (.inr (by decide)),
      append4LE,append8LE,slot_littleEndian_front _ 4 2 2 _ (by simp [fits]) (by decide),
      slot_littleEndian_front _ 8 4 2 _ (by simp [fits]) (by decide)]
  rw [recordWord,stored,readLE_append 2 16,readLE_wordBytes_low 2 returnValue]
  simp only [encodeMiniTraceMethodAndAction,encodeAddressAndAction,pointerToLowMemUInt32,overwritten]
  apply BitVec.eq_of_getLsbD_eq
  intro i bound
  simp only [BitVec.getLsbD_append,BitVec.getLsbD_or,BitVec.getLsbD_setWidth]
  have word : i < 32 := bound
  have wide : i < 64 := by omega
  by_cases below : i < 16
  · simp only [below,word,wide,decide_true,Bool.true_and,if_true,Nat.reduceMul]
  · simp only [below,word,wide,decide_true,Bool.true_and,if_false,Nat.reduceMul,
      value_upper action i (by omega),Bool.or_false]

/-- What `FlushBuffer` reads from the record of any call. -/
theorem record_word (call : TraceCall) (action : MiniTraceAction) :
    recordWord (writeStores old (call.stores action)) = encodeAddressAndAction call.named action := by
  cases call with
  | method thread callee accessFlags event returnValue => exact method_word old size thread callee action returnValue
  | field thread thisObject member accessFlags dexPc readEvent =>
    exact field_word old size thread thisObject member action dexPc
  | monitor thread lockObject dexPc enterEvent => exact monitor_word old size thread lockObject action dexPc

theorem record_action (call : TraceCall) (action : MiniTraceAction) (aligned : Aligned call.subject) :
    decodeMiniTraceAction (recordWord (writeStores old (call.stores action))) = action := by
  rw [record_word old size,decode_action_encode _ _ (named_aligned call aligned)]

end Contents

end Aatt
