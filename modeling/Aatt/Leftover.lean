import Aatt.Lib.Reuse
import Aatt.RoundTrip

/-! What is left of a slot's old content in a record. The buffer is used again after every flush without being cleared,
and only the record of a field access covers its slot: the record of a method event leaves two bytes of it, that of a
monitor event four. Where a byte of the data file comes from is followed with the number of the call that stored it. -/
namespace Aatt

open Aatt.Lib

namespace TraceCall

/-- Where the bytes of the slot begin that the call leaves as they were. -/
def recordEnd : TraceCall → Nat
  | .method .. => 12
  | .field .. => 14
  | .monitor .. => 10

/-- The bytes that the call stores. Of the method word the return value leaves the lower half. -/
def front (action : MiniTraceAction) : TraceCall → List Byte
  | .method thread callee _ _ returnValue => wordBytes 2 (thread.setWidth 16) ++
    (wordBytes 4 (encodeMiniTraceMethodAndAction callee action)).take 2 ++ wordBytes 8 returnValue
  | .field thread thisObject member _ dexPc _ => wordBytes 2 (thread.setWidth 16) ++
    wordBytes 4 (encodeMiniTraceFieldAndAction member action) ++ wordBytes 4 (encodeMiniTraceObject thisObject) ++
      wordBytes 4 dexPc
  | .monitor thread lockObject dexPc _ => wordBytes 2 (thread.setWidth 16) ++
    wordBytes 4 (encodeMiniTraceObjectAndAction lockObject action) ++ wordBytes 4 dexPc

def write (call : TraceCall) (old : List Byte) : List Byte :=
  match call.action with
  | some action => writeStores old (call.stores action)
  | none => old

/-- Two contents of a slot agree in the bytes that the call leaves. -/
def LeavesAlike (call : TraceCall) (first second : List Byte) : Prop :=
  first.drop call.recordEnd = second.drop call.recordEnd

instance (call : TraceCall) (first second : List Byte) : Decidable (call.LeavesAlike first second) :=
  inferInstanceAs (Decidable (_ = _))

end TraceCall

theorem record_eq (call : TraceCall) (action : MiniTraceAction) {old : List Byte}
    (size : old.length = kMiniTraceRecordSize) :
    writeStores old (call.stores action) = call.front action ++ old.drop call.recordEnd := by
  have fits : old.length = 14 := size
  have start (value : BitVec 16) : writeStores old (append2LE 0 value) = wordBytes 2 value ++ old.drop 2 :=
    writeStores_littleEndian 2 value old (by omega)
  cases call with
  | method thread callee accessFlags event returnValue =>
    simp only [TraceCall.stores,methodStores,writeStores_append,start,append4LE,append8LE]
    rw [writeStores_word _ _ 4 2 _ (by simp) (by simp [fits])]
    generalize word : wordBytes 4 (encodeMiniTraceMethodAndAction callee action) = bytes
    have length : bytes.length = 4 := by rw [← word,wordBytes_length]
    rw [← List.take_append_drop 2 bytes,← List.append_assoc,List.append_assoc (_ ++ _),
      writeStores_word _ _ 8 4 _ (by simp [length]) (by simp [length,fits]),List.drop_append]
    simp [TraceCall.front,TraceCall.recordEnd,word,length]
  | field thread thisObject member accessFlags dexPc readEvent =>
    simp only [TraceCall.stores,fieldStores,writeStores_append,start,append4LE]
    rw [writeStores_word _ _ 4 2 _ (by simp) (by simp [fits]),writeStores_word _ _ 4 6 _ (by simp) (by simp [fits]),
      writeStores_word _ _ 4 10 _ (by simp) (by simp [fits])]
    simp [TraceCall.front,TraceCall.recordEnd]
  | monitor thread lockObject dexPc enterEvent =>
    simp only [TraceCall.stores,monitorStores,writeStores_append,start,append4LE]
    rw [writeStores_word _ _ 4 2 _ (by simp) (by simp [fits]),writeStores_word _ _ 4 6 _ (by simp) (by simp [fits])]
    simp [TraceCall.front,TraceCall.recordEnd]

theorem write_accepts {call : TraceCall} {action : MiniTraceAction} (accepts : Accepts call action) (old : List Byte) :
    call.write old = writeStores old (call.stores action) := by
  rw [TraceCall.write,accepts.2]

theorem write_length (call : TraceCall) (old : List Byte) : (call.write old).length = old.length := by
  unfold TraceCall.write
  split
  · rw [writeStores_length]
  · rfl

theorem write_eq_iff {call : TraceCall} (known : call.action ≠ none) {first second : List Byte}
    (size : first.length = kMiniTraceRecordSize) (size' : second.length = kMiniTraceRecordSize) :
    call.write first = call.write second ↔ call.LeavesAlike first second := by
  obtain ⟨action,shown⟩ := Option.ne_none_iff_exists'.mp known
  simp only [TraceCall.write,shown,record_eq call action size,record_eq call action size',TraceCall.LeavesAlike,
    List.append_cancel_left_eq]

/-- The call passes its filter, gets the slot at `offset` and returns. -/
structure TakesSlot (call : TraceCall) (offset : Nat) (s s' : Session) : Prop where
  size : kMiniTraceRecordSize ≤ s.bufferSize
  accepts : ∃ action, Accepts call action
  reserved : ∃ m, reserve (s.spurious.length + 2) s = .ok (m,some offset)
  returned : log call s = .ok s'

namespace TakesSlot

variable {call : TraceCall} {offset : Nat} {s s' : Session} (takes : TakesSlot call offset s s')
include takes

theorem known : call.action ≠ none := by
  obtain ⟨action,accepts⟩ := takes.accepts
  rw [accepts.2]
  nofun

theorem slot_eq : (slot s.buf offset kMiniTraceRecordSize).length = kMiniTraceRecordSize ∧
    slot s'.buf offset kMiniTraceRecordSize = call.write (slot s.buf offset kMiniTraceRecordSize) := by
  obtain ⟨action,accepts⟩ := takes.accepts
  obtain ⟨m,reserved⟩ := takes.reserved
  have same : m.buf = s.buf := by
    rcases reserve_cases s m _ takes.size reserved with ⟨refused,-⟩ | ⟨opened,rest,opens,-,rfl,-⟩
    · nomatch refused
    · exact opens.buf_eq
  have after := slot_after_log call action s m s' offset takes.size accepts reserved takes.returned
  rw [same] at after
  rw [write_accepts accepts]
  exact after

end TakesSlot

def Session.slots (s : Session) : List (List Byte) := recordsOf s.buf (s.bufferSize / kMiniTraceRecordSize)

def waiting (s : Session) : List (List Byte) := inTurn s.slots (s.curOffset / kMiniTraceRecordSize)

theorem slots_length (s : Session) : s.slots.length = s.bufferSize / kMiniTraceRecordSize := by
  simp [Session.slots,recordsOf,blocks]

theorem slots_eq {s m : Session} (same : m.buf = s.buf) : m.slots = s.slots := by
  rw [Session.slots,Session.slots,MiniTrace.bufferSize,MiniTrace.bufferSize,same]

theorem slots_getElem (s : Session) (k : Nat) (inside : k < s.slots.length) :
    s.slots[k] = slot s.buf (kMiniTraceRecordSize * k) kMiniTraceRecordSize := by
  simp [Session.slots,recordsOf,blocks]

theorem waiting_size (s : Session) : ∀ old ∈ waiting s, old.length = kMiniTraceRecordSize := by
  intro old member
  obtain ⟨k,inside,rfl⟩ := List.mem_iff_getElem.mp (mem_of_mem_inTurn member)
  rw [slots_getElem s k inside]
  refine slot_length _ _ _ ?_
  rw [slots_length] at inside
  simp only [MiniTrace.bufferSize,kMiniTraceRecordSize] at inside ⊢
  omega

theorem Opened.waiting_eq {s m : Session} (opened : Opened s m) (ready : Ready s) : waiting m = waiting s := by
  cases opened with
  | fits => rfl
  | flushed _ full below flushed =>
    have all : s.curOffset / kMiniTraceRecordSize = s.slots.length := by
      obtain ⟨k,offset⟩ := ready.aligned
      have bounded := ready.bounded
      rw [slots_length]
      simp only [kMiniTraceRecordSize] at full offset bounded ⊢
      omega
    have same : m.buf = s.buf := flushed.buf_eq
    rw [waiting,waiting,flushed.curOffset_eq,Nat.zero_div,slots_eq same,all,inTurn_wrap]

theorem Appended.waiting_eq {stores : List Store} {s m s' : Session} (appended : Appended stores s m s')
    (ready : Ready s) (inside : StoresIn 0 kMiniTraceRecordSize stores) :
    ∃ old rest, waiting s = old :: rest ∧ waiting s' = rest ++ [lastSlot s'] ∧
      lastSlot s' = writeStores old stores := by
  obtain ⟨k,offset⟩ := (appended.opened.ready ready).aligned
  have size : s'.bufferSize = m.bufferSize := by
    rw [MiniTrace.bufferSize,appended.buf,writeStores_length,MiniTrace.bufferSize]
  have here : m.curOffset / kMiniTraceRecordSize = k := by
    rw [offset,Nat.mul_div_cancel_left k (by decide)]
  have next : s'.curOffset / kMiniTraceRecordSize = k + 1 := by
    rw [appended.curOffset,Nat.add_div_right _ (by decide),here]
  have bound : k < m.slots.length := by
    have fits := appended.fits
    rw [slots_length]
    simp only [kMiniTraceRecordSize] at fits offset ⊢
    omega
  have written : lastSlot s' = writeStores m.slots[k] stores := by
    rw [appended.lastSlot_eq,offset,slots_getElem]
  have slots : s'.slots = m.slots.set k (lastSlot s') := by
    rw [written,slots_getElem,Session.slots,size,appended.buf,offset]
    exact blocks_writeStores _ _ _ _ inside
  refine ⟨_,m.slots.drop (k + 1) ++ m.slots.take k,?_,?_,written⟩
  · rw [← appended.opened.waiting_eq ready,waiting,here,inTurn_next m.slots bound]
  · rw [waiting,next,slots,inTurn_set m.slots bound]

def recordedCalls (calls : List TraceCall) (s : Session) : List TraceCall :=
    (calls.filter TraceCall.traceable).take (room s)

theorem logAll_reuse (calls : List TraceCall) (s final : Session) (ready : Ready s)
    (returned : logAll calls s = .ok final) :
    content final = content s ++ (reuse (waiting s) ((recordedCalls calls s).map TraceCall.write)).flatten := by
  induction calls generalizing s with
  | nil =>
    cases returned
    simp [recordedCalls,reuse]
  | cons call rest ih =>
    obtain ⟨next,logged,onward⟩ := logAll_cons call rest s final returned
    have logs := log_logs call s next ready logged
    rw [ih next (logs.ready ready) onward]
    cases logs with
    | filtered untraceable same =>
      subst same
      rw [recordedCalls,recordedCalls,List.filter_cons_of_neg (by simp [untraceable])]
    | refused traceable exhausted same =>
      subst same
      have full : room next = 0 := (exhausted_iff_no_room next ready).mp exhausted
      rw [recordedCalls,recordedCalls,full,List.take_zero,List.take_zero]
    | appended action m accepts appended =>
      obtain ⟨old,others,before,after,written⟩ := appended.waiting_eq ready (stores_inside call action)
      rw [← write_accepts accepts] at written
      have more : recordedCalls (call :: rest) s = call :: recordedCalls rest next := by
        rw [recordedCalls,recordedCalls,appended.room_succ ready,List.filter_cons_of_pos accepts.1,List.take_succ_cons]
      rw [more,before,List.map_cons,reuse,← written,← after,List.flatten_cons,
        appended.content_eq (stores_inside call action),List.append_assoc]

theorem recorded_known (calls : List TraceCall) (s final : Session) (returned : logAll calls s = .ok final) :
    ∀ call ∈ calls, call.traceable = true → call.action ≠ none := by
  induction calls generalizing s with
  | nil => nofun
  | cons call rest ih =>
    obtain ⟨next,logged,onward⟩ := logAll_cons call rest s final returned
    refine List.forall_mem_cons.mpr ⟨fun traceable => ?_,ih next onward⟩
    rcases log_returned logged with ⟨untraceable,-⟩ | ⟨action,accepts,-⟩
    · rw [untraceable] at traceable
      nomatch traceable
    · rw [accepts.2]
      nofun

/-- The data file after the calls and a last flush. -/
def DataFile (calls : List TraceCall) (s : Session) (file : List Byte) : Prop :=
  ∃ final flushed, logAll calls s = .ok final ∧ flushBuffer final = .ok (flushed,true) ∧ flushed.traceDataFile = file

theorem DataFile.eq_reuse {calls : List TraceCall} {s : Session} {file : List Byte} (ends : DataFile calls s file)
    (ready : Ready s) : file = content s ++ (reuse (waiting s)
      ((recordedCalls calls s).map TraceCall.write)).flatten := by
  obtain ⟨final,flushed,logged,flush,rfl⟩ := ends
  rw [(flushBuffer_flushed final flushed flush).file_eq]
  exact logAll_reuse calls s final ready logged

/-- A byte of the buffer and the number of the recorded call that stored it, if one has. -/
abbrev LabelledByte := Byte × Option Nat

def TraceCall.writeLabelled (call : TraceCall) (label : Nat) (old : List LabelledByte) : List LabelledByte :=
  match call.action with
  | some action => Lib.writeLabelled label old (call.stores action)
  | none => old

/-- The records of the calls, each byte with the number of the call that stored it. -/
def labelledRecords (calls : List TraceCall) (s : Session) : List (List LabelledByte) :=
  reuse ((waiting s).map fun old => old.map fun byte => (byte,none))
    ((recordedCalls calls s).mapIdx fun i call => call.writeLabelled i)

/-- No byte of a record was stored by a call of an earlier generation. -/
def OwnBytes (calls : List TraceCall) (s : Session) : Prop :=
  ∀ (i : Nat) (record : List LabelledByte), (labelledRecords calls s)[i]? = some record →
    ∀ byte ∈ record, byte.2 = none ∨ byte.2 = some i

/-- A call that is recorded over a used slot stores all bytes that the call before it in this slot has stored. -/
def CoversEarlier (calls : List TraceCall) (s : Session) : Prop :=
  ∀ i earlier later, (recordedCalls calls s)[i]? = some earlier →
    (recordedCalls calls s)[i + (waiting s).length]? = some later → earlier.recordEnd ≤ later.recordEnd

theorem writeLabelled_erases (call : TraceCall) (label : Nat) (old : List LabelledByte) :
    (call.writeLabelled label old).map Prod.fst = call.write (old.map Prod.fst) := by
  unfold TraceCall.writeLabelled TraceCall.write
  split
  · exact writeLabelled_erase ..
  · rfl

theorem labelledRecords_erase (calls : List TraceCall) (s : Session) :
    (labelledRecords calls s).map (List.map Prod.fst) =
      reuse (waiting s) ((recordedCalls calls s).map TraceCall.write) := by
  unfold labelledRecords
  have matched : List.Forall₂ (fun write write' => ∀ slot, List.map Prod.fst (write slot) = write' (slot.map Prod.fst))
      ((recordedCalls calls s).mapIdx fun i call => call.writeLabelled i)
        ((recordedCalls calls s).map TraceCall.write) := by
    refine List.forall₂_iff_get.mpr ⟨by simp,fun i inside inside' old => ?_⟩
    simpa using writeLabelled_erases _ i old
  rw [reuse_map matched,List.map_map]
  congr 1
  refine (List.map_congr_left fun old _ => ?_).trans (List.map_id _)
  simp [Function.comp_def]

theorem DataFile.eq_labelled {calls : List TraceCall} {s : Session} {file : List Byte} (ends : DataFile calls s file)
    (ready : Ready s) (begins : content s = []) : file =
      ((labelledRecords calls s).map (List.map Prod.fst)).flatten := by
  rw [labelledRecords_erase,ends.eq_reuse ready,begins,List.nil_append]

theorem stores_front (call : TraceCall) (action : MiniTraceAction) (i : Nat) :
    (∃ store ∈ call.stores action, store.1 = i) ↔ i < call.recordEnd := by
  have word {w : Nat} (n offset : Nat) (value : BitVec w) :
      (∃ store ∈ littleEndian n offset value, store.1 = i) ↔ offset ≤ i ∧ i < offset + n := by
    simp only [littleEndian,List.mem_map,List.mem_range]
    constructor
    · rintro ⟨_,⟨k,inside,rfl⟩,rfl⟩
      simp only
      omega
    · rintro ⟨above,below⟩
      exact ⟨_,⟨i - offset,by omega,rfl⟩,by simp only; omega⟩
  have both (front back : List Store) : (∃ store ∈ front ++ back, store.1 = i) ↔
      (∃ store ∈ front, store.1 = i) ∨ ∃ store ∈ back, store.1 = i := by
    simp only [List.mem_append,or_and_right,exists_or]
  cases call with
  | method =>
    simp only [TraceCall.stores,methodStores,append2LE,append4LE,append8LE,both,word,TraceCall.recordEnd]
    omega
  | field =>
    simp only [TraceCall.stores,fieldStores,append2LE,append4LE,both,word,TraceCall.recordEnd]
    omega
  | monitor =>
    simp only [TraceCall.stores,monitorStores,append2LE,append4LE,both,word,TraceCall.recordEnd]
    omega

theorem writeLabelled_front {call : TraceCall} (known : call.action ≠ none) (label : Nat) (old : List LabelledByte)
    (i : Nat) :
    (call.writeLabelled label old)[i]?.map Prod.snd =
      if i < call.recordEnd then old[i]?.map fun _ => some label else old[i]?.map Prod.snd := by
  obtain ⟨action,shown⟩ := Option.ne_none_iff_exists'.mp known
  simp only [TraceCall.writeLabelled,shown,writeLabelled_label,stores_front]

theorem waiting_pos {s : Session} (ready : Ready s) : 0 < (waiting s).length := by
  rw [waiting,inTurn_length,slots_length]
  exact Nat.div_pos ready.size (by decide)

theorem labelledRecords_getElem? {calls : List TraceCall} {s : Session} {i : Nat} {record : List LabelledByte}
    (found : (labelledRecords calls s)[i]? = some record) : ∃ call old, (recordedCalls calls s)[i]? = some call ∧
      record = call.writeLabelled i old ∧
      if i < (waiting s).length then ∃ bytes, (waiting s)[i]? = some bytes ∧ old = bytes.map fun byte => (byte,none)
      else (labelledRecords calls s)[i - (waiting s).length]? = some old := by
  obtain ⟨write,old,taken,rfl,before⟩ := reuse_getElem? found
  rw [List.getElem?_mapIdx] at taken
  obtain ⟨call,recorded,rfl⟩ := Option.map_eq_some_iff.mp taken
  refine ⟨call,old,recorded,rfl,?_⟩
  rw [List.length_map] at before
  split
  · rename_i first
    rw [if_pos first,List.getElem?_map] at before
    obtain ⟨bytes,here,rfl⟩ := Option.map_eq_some_iff.mp before
    exact ⟨bytes,here,rfl⟩
  · rename_i again
    rw [if_neg again] at before
    exact before

section Origins

variable {calls : List TraceCall} {s : Session} (ready : Ready s)

theorem writeLabelled_length (call : TraceCall) (label : Nat) (old : List LabelledByte) :
    (call.writeLabelled label old).length = old.length := by
  have erased := congrArg List.length (writeLabelled_erases call label old)
  rwa [List.length_map,write_length,List.length_map] at erased

include ready

theorem labelledRecords_size (i : Nat) : ∀ {record : List LabelledByte}, (labelledRecords calls s)[i]? = some record →
    record.length = kMiniTraceRecordSize := by
  induction i using Nat.strong_induction_on with
  | h i ih =>
    intro record found
    obtain ⟨call,old,-,rfl,before⟩ := labelledRecords_getElem? found
    rw [writeLabelled_length]
    split at before
    · obtain ⟨bytes,here,rfl⟩ := before
      rw [List.length_map]
      exact waiting_size s bytes (List.mem_of_getElem? here)
    · have slots := waiting_pos ready
      exact ih (i - (waiting s).length) (by omega) before

variable (known : ∀ call ∈ recordedCalls calls s, call.action ≠ none)
include known

/-- If the calls cover what was stored before them, a byte comes from the call of its record or from before the
trace. -/
theorem label_of_covers (covers : CoversEarlier calls s) (i : Nat) : ∀ {record : List LabelledByte} {call : TraceCall},
    (labelledRecords calls s)[i]? = some record → (recordedCalls calls s)[i]? = some call →
      ∀ (p : Nat) byte, record[p]? = some byte → byte.2 = if p < call.recordEnd then some i else none := by
  induction i using Nat.strong_induction_on with
  | h i ih =>
    intro record call found recorded p byte shown
    obtain ⟨call',old,recorded',rfl,before⟩ := labelledRecords_getElem? found
    obtain rfl := Option.some.inj (recorded.symm.trans recorded')
    have label := writeLabelled_front (known call (List.mem_of_getElem? recorded)) i old p
    rw [shown,Option.map_some] at label
    split at label
    · rename_i stored
      obtain ⟨_,-,same⟩ := Option.map_eq_some_iff.mp label.symm
      rw [if_pos stored,same]
    · rename_i left
      obtain ⟨kept,held,same⟩ := Option.map_eq_some_iff.mp label.symm
      rw [if_neg left,← same]
      split at before
      · obtain ⟨bytes,-,rfl⟩ := before
        rw [List.getElem?_map] at held
        obtain ⟨_,-,rfl⟩ := Option.map_eq_some_iff.mp held
        rfl
      · rename_i again
        have slots := waiting_pos ready
        obtain ⟨earlier,_,recordedEarlier,-⟩ := labelledRecords_getElem? before
        have covered := covers (i - (waiting s).length) earlier call recordedEarlier (by
          rw [Nat.sub_add_cancel (Nat.le_of_not_lt again)]
          exact recorded)
        rw [ih (i - (waiting s).length) (by omega) before recordedEarlier p kept held,if_neg (by omega)]

theorem covers_of_ownBytes (own : OwnBytes calls s) : CoversEarlier calls s := by
  intro i earlier later recorded recorded'
  by_contra shorter
  have slots := waiting_pos ready
  have length : (labelledRecords calls s).length = (recordedCalls calls s).length := by
    rw [labelledRecords,reuse_length (by rw [← List.length_pos_iff,List.length_map]; exact slots),List.length_mapIdx]
  obtain ⟨inside,-⟩ := List.getElem?_eq_some_iff.mp recorded'
  have found := List.getElem?_eq_getElem (l := labelledRecords calls s) (length ▸ inside)
  obtain ⟨later',old,same,shape,before⟩ := labelledRecords_getElem? found
  obtain rfl := Option.some.inj (recorded'.symm.trans same)
  rw [if_neg (by omega),Nat.add_sub_cancel] at before
  obtain ⟨earlier',older,same,rfl,-⟩ := labelledRecords_getElem? before
  obtain rfl := Option.some.inj (recorded.symm.trans same)
  have bound : earlier.recordEnd - 1 < kMiniTraceRecordSize := by
    cases earlier <;> simp [TraceCall.recordEnd,kMiniTraceRecordSize]
  have size := labelledRecords_size ready i before
  rw [writeLabelled_length] at size
  have stored := writeLabelled_front (known earlier (List.mem_of_getElem? recorded)) i older (earlier.recordEnd - 1)
  rw [if_pos (by omega),List.getElem?_eq_getElem (l := older) (size ▸ bound),Option.map_some] at stored
  have left := writeLabelled_front (known later (List.mem_of_getElem? recorded')) (i + (waiting s).length)
    (earlier.writeLabelled i older) (earlier.recordEnd - 1)
  rw [if_neg (by omega),stored] at left
  obtain ⟨byte,here,label⟩ := Option.map_eq_some_iff.mp left
  rw [← shape] at here
  have mine := own _ _ found byte (List.mem_of_getElem? here)
  rw [label] at mine
  rcases mine with unlabelled | same
  · cases unlabelled
  · have := Option.some.inj same
    omega

theorem ownBytes_iff : OwnBytes calls s ↔ CoversEarlier calls s := by
  refine ⟨covers_of_ownBytes ready known,fun covers i record found byte member => ?_⟩
  obtain ⟨call,-,recorded,-⟩ := labelledRecords_getElem? found
  obtain ⟨p,shown⟩ := List.getElem?_of_mem member
  rw [label_of_covers ready known covers i found recorded p byte shown]
  split
  · exact .inr rfl
  · exact .inl rfl

end Origins

/-- The slot after a call depends on what it held before exactly in the bytes that the call leaves. In a trace, no byte
of an earlier buffer generation reaches the data file in a later record exactly if every call that is recorded over a
used slot stores all bytes that were stored there before. -/
theorem record_determined_iff (s : Session) :
    (∀ (s' : Session) (call : TraceCall) (offset : Nat) (next next' : Session), TakesSlot call offset s next →
      TakesSlot call offset s' next' →
        (slot next.buf offset kMiniTraceRecordSize = slot next'.buf offset kMiniTraceRecordSize ↔
          call.LeavesAlike (slot s.buf offset kMiniTraceRecordSize) (slot s'.buf offset kMiniTraceRecordSize))) ∧
    ∀ (calls : List TraceCall) (file : List Byte), Ready s → content s = [] → DataFile calls s file →
      file = ((labelledRecords calls s).map (List.map Prod.fst)).flatten ∧
        (OwnBytes calls s ↔ CoversEarlier calls s) := by
  constructor
  · intro s' call offset next next' takes takes'
    obtain ⟨size,after⟩ := takes.slot_eq
    obtain ⟨size',after'⟩ := takes'.slot_eq
    rw [after,after',write_eq_iff takes.known size size']
  · intro calls file ready begins ends
    have known : ∀ call ∈ recordedCalls calls s, call.action ≠ none := by
      obtain ⟨final,-,logged,-⟩ := ends
      intro call member
      obtain ⟨inside,traceable⟩ := List.mem_filter.mp (List.mem_of_mem_take member)
      exact recorded_known calls s final logged call inside traceable
    exact ⟨ends.eq_labelled ready begins,ownBytes_iff ready known⟩

/-- A trace whose buffer has one slot, with ones left in it. -/
def usedSlot : Session := { Session.start 14 [] [] with buf := List.replicate 14 0xFF }

/-- A monitor event, a method entry and a field access, each in the slot of the one before. -/
def growingCalls : List TraceCall :=
  [.monitor 1 8 0 true,.method 1 16 kAccIsMiniTraceable .methodEntered 0,.field 1 16 24 kAccIsMiniTraceable 5 true]

theorem field_record_determined :
    (∃ next next', TakesSlot (.field 1 16 24 kAccIsMiniTraceable 5 true) 0 (.start 14 [] []) next ∧
      TakesSlot (.field 1 16 24 kAccIsMiniTraceable 5 true) 0 usedSlot next' ∧
      slot next.buf 0 kMiniTraceRecordSize = slot next'.buf 0 kMiniTraceRecordSize) ∧
    ∃ file, DataFile growingCalls (.start 14 [] []) file ∧ file.length = 42 ∧
      OwnBytes growingCalls (.start 14 [] []) := by
  have takes : TakesSlot (.field 1 16 24 kAccIsMiniTraceable 5 true) 0 (.start 14 [] []) _ :=
    ⟨by decide,⟨_,rfl,rfl⟩,⟨_,rfl⟩,rfl⟩
  have takes' : TakesSlot (.field 1 16 24 kAccIsMiniTraceable 5 true) 0 usedSlot _ :=
    ⟨by decide,⟨_,rfl,rfl⟩,⟨_,rfl⟩,rfl⟩
  have ends : DataFile growingCalls (.start 14 [] []) _ := ⟨_,_,rfl,rfl,rfl⟩
  have covers : CoversEarlier growingCalls (.start 14 [] []) := by
    intro i earlier later recorded recorded'
    match i with
    | 0 | 1 =>
      cases recorded
      cases recorded'
      decide
    | i + 2 => nomatch recorded'
  refine ⟨⟨_,_,takes,takes',((record_determined_iff _).1 _ _ 0 _ _ takes takes').mpr (by decide)⟩,_,ends,by decide,?_⟩
  exact ((record_determined_iff _).2 _ _ (start_ready 14 [] [] (by decide) (by decide)) rfl ends).2.mpr covers

/-- The slot of a method entry and that of a monitor event keep bytes that were there before; and the file of a trace
whose buffer has one slot ends with the `dex_pc` of a field access inside the record of the monitor event behind it. -/
theorem record_keeps_old_bytes :
    (∃ next next', TakesSlot (.method 1 16 kAccIsMiniTraceable .methodEntered 0) 0 (.start 14 [] []) next ∧
      TakesSlot (.method 1 16 kAccIsMiniTraceable .methodEntered 0) 0 usedSlot next' ∧
      slot next.buf 0 kMiniTraceRecordSize ≠ slot next'.buf 0 kMiniTraceRecordSize) ∧
    (∃ next next', TakesSlot (.monitor 1 8 0 true) 0 (.start 14 [] []) next ∧
      TakesSlot (.monitor 1 8 0 true) 0 usedSlot next' ∧
      slot next.buf 0 kMiniTraceRecordSize ≠ slot next'.buf 0 kMiniTraceRecordSize) ∧
    (∃ file, DataFile [.field 1 16 24 kAccIsMiniTraceable 0x11223344 true,.monitor 1 8 0 true] (.start 14 [] []) file ∧
      file.length = 28 ∧ file.drop 24 = wordBytes 4 0x11223344#32) ∧
    ¬ OwnBytes [.field 1 16 24 kAccIsMiniTraceable 0x11223344 true,.monitor 1 8 0 true] (.start 14 [] []) := by
  refine ⟨⟨_,_,⟨by decide,⟨_,rfl,rfl⟩,⟨_,rfl⟩,rfl⟩,⟨by decide,⟨_,rfl,rfl⟩,⟨_,rfl⟩,rfl⟩,by decide⟩,
    ⟨_,_,⟨by decide,⟨_,rfl,rfl⟩,⟨_,rfl⟩,rfl⟩,⟨by decide,⟨_,rfl,rfl⟩,⟨_,rfl⟩,rfl⟩,by decide⟩,
    ⟨_,⟨_,_,rfl,rfl,rfl⟩,by decide,by decide⟩,fun own => ?_⟩
  rcases own 1 _ rfl (0x44#8,some 0) (by decide) with unlabelled | same
  · nomatch unlabelled
  · nomatch same

end Aatt
