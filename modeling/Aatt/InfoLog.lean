import Mathlib.Data.Finset.Sort
import Aatt.Sequential

/-! The info log of `FinishTracing`: the methods and fields that the flushes of a trace have
collected by re-parsing the raw buffer. A field is listed exactly when a record of it was
written; a method is listed under the address that its record names. -/
namespace Aatt

open Aatt.Lib

structure MethodText where
  declaringClass : String
  name : String
  signature : String
  sourceFile : String
  deriving DecidableEq, Repr

structure FieldText where
  declaringClass : String
  name : String
  type : String
  deriving DecidableEq, Repr

/-- What the runtime reads through a pointer that it prints, which has to point to a method or field. -/
structure MemberTexts where
  isMember : MemberKind → Address → Bool
  methodText : Address → MethodText
  fieldText : Address → FieldText

/-- A `std::set` of pointers is iterated in ascending order. -/
def inOrder (pointers : Finset Address) : List Address :=
  ((pointers.image BitVec.toNat).sort (· ≤ ·)).map (BitVec.ofNat 64)

def dumpMethodList (texts : MemberTexts) (t : MiniTrace) : List (Address × MethodText) :=
  (inOrder t.visitedMethods).map fun method => (method,texts.methodText method)

def dumpFieldList (texts : MemberTexts) (t : MiniTrace) : List (Address × FieldText) :=
  (inOrder t.visitedFields).map fun field => (field,texts.fieldText field)

/-- The method and field sections that `DumpList` prints, line by line. -/
structure InfoLog where
  methods : List (Address × MethodText)
  fields : List (Address × FieldText)

def dumpList (texts : MemberTexts) (t : MiniTrace) : InfoLog where
  methods := dumpMethodList texts t
  fields := dumpFieldList texts t

/-- All pointers that `DumpList` reads through point to methods and fields. -/
def MemberTexts.Reads (texts : MemberTexts) (t : MiniTrace) : Prop :=
  ∀ kind, ∀ p ∈ t.visited kind, texts.isMember kind p = true

instance (texts : MemberTexts) (t : MiniTrace) : Decidable (texts.Reads t) :=
  decidable_of_iff _ (MemberKind.forall_iff (p := fun kind => ∀ p ∈ t.visited kind, texts.isMember kind p = true)).symm

def finishTracing (texts : MemberTexts) (s : Session) : Except Halt (Session × InfoLog) :=
  match flushBuffer s with
  | .error halt => .error halt
  | .ok (s,_) => if texts.Reads s.toMiniTrace then .ok (s,dumpList texts s.toMiniTrace) else .error .crash

/-- The pointers in the first column of the section of a kind. -/
def InfoLog.printed (info : InfoLog) : MemberKind → Finset Address
  | .method => (info.methods.map Prod.fst).toFinset
  | .field => (info.fields.map Prod.fst).toFinset

theorem finishTracing_eq_ok {texts : MemberTexts} {s final : Session} {info : InfoLog} {result : Bool}
    (flush : flushBuffer s = .ok (final,result)) : finishTracing texts s = .ok (final,info) ↔
      texts.Reads final.toMiniTrace ∧ dumpList texts final.toMiniTrace = info := by
  simp only [finishTracing,flush]
  split <;> simp [*]

theorem inOrder_toFinset (pointers : Finset Address) : (inOrder pointers).toFinset = pointers := by
  ext p
  simp only [inOrder,List.mem_toFinset,List.mem_map,Finset.mem_sort,Finset.mem_image]
  constructor
  · rintro ⟨_,⟨q,member,rfl⟩,rfl⟩
    simpa using member
  · intro member
    exact ⟨p.toNat,⟨p,member,rfl⟩,by simp⟩

theorem printed_dumpList (texts : MemberTexts) (t : MiniTrace) (kind : MemberKind) :
    (dumpList texts t).printed kind = t.visited kind := by
  cases kind with
  | method =>
    simp only [InfoLog.printed,dumpList,dumpMethodList,List.map_map,Function.comp_def,List.map_id']
    exact inOrder_toFinset t.visitedMethods
  | field =>
    simp only [InfoLog.printed,dumpList,dumpFieldList,List.map_map,Function.comp_def,List.map_id']
    exact inOrder_toFinset t.visitedFields

/-- The pointer has been collected, or will be by the next flush. -/
def Seen (kind : MemberKind) (s : Session) (p : Address) : Prop :=
  p ∈ s.visited kind ∨ ∃ record ∈ recordsOf s.buf (recordCount s.curOffset), Names kind record p

theorem Flushed.visited_iff {s s' : Session} (flushed : Flushed s s') (kind : MemberKind) (p : Address) :
    p ∈ s'.visited kind ↔ Seen kind s p := by
  have visited := flushed.visits.visited kind p
  cases kind <;> exact visited

theorem Flushed.seen_iff {s s' : Session} (flushed : Flushed s s') (kind : MemberKind) (p : Address) :
    Seen kind s' p ↔ Seen kind s p := by
  have emptied : recordsOf s'.buf (recordCount s'.curOffset) = [] := by
    rw [flushed.curOffset_eq]
    rfl
  rw [Seen,emptied,flushed.visited_iff kind p]
  simp

theorem Opened.seen_iff {s m : Session} (opened : Opened s m) (kind : MemberKind) (p : Address) :
    Seen kind m p ↔ Seen kind s p := by
  cases opened with
  | fits => exact Iff.rfl
  | flushed _ full below flushed =>
    rw [flushed.seen_iff kind p]
    cases kind <;> exact Iff.rfl

def TraceCall.memberKind : TraceCall → Option MemberKind
  | .method .. => some .method
  | .field .. => some .field
  | .monitor .. => none

theorem Accepts.action_kind {call : TraceCall} {action : MiniTraceAction} (accepts : Accepts call action)
    (kind : MemberKind) : action ∈ kind.actions ↔ call.memberKind = some kind := by
  have taken := accepts.2
  cases call with
  | method thread callee accessFlags event returnValue =>
    cases event <;> simp only [TraceCall.action,methodAction,Option.some.injEq,reduceCtorEq] at taken <;>
      subst taken <;> simp only [TraceCall.memberKind] <;> cases kind <;> decide
  | field thread thisObject member accessFlags dexPc readEvent =>
    simp only [TraceCall.action,Option.some.injEq] at taken
    subst taken
    simp only [TraceCall.memberKind]
    cases readEvent <;> cases kind <;> decide
  | monitor thread lockObject dexPc enterEvent =>
    simp only [TraceCall.action,Option.some.injEq] at taken
    subst taken
    simp only [TraceCall.memberKind]
    cases enterEvent <;> cases kind <;> decide

theorem decodeId_encode (kind : MemberKind) (p : Address) (action : MiniTraceAction) (low : p.toNat < 2 ^ 32)
    (aligned : Aligned p) : kind.decodeId (encodeAddressAndAction p action) = p := by
  cases kind with
  | method => exact decode_method_encode p action low aligned
  | field => exact decode_field_encode p action low aligned

/-- What the record of a call makes `FlushBuffer` collect. -/
theorem record_names_iff (old : List Byte) (size : old.length = kMiniTraceRecordSize) (call : TraceCall)
    (action : MiniTraceAction) (accepts : Accepts call action) (low : call.subject.toNat < 2 ^ 32)
    (aligned : Aligned call.subject) (kind : MemberKind) (p : Address) :
    Names kind (writeStores old (call.stores action)) p ↔ call.memberKind = some kind ∧ call.named = p := by
  rw [Names,record_action old size call action aligned,record_word old size,
    decodeId_encode kind _ action (named_low call low) (named_aligned call aligned),accepts.action_kind kind]

theorem Appended.seen_iff {call : TraceCall} {action : MiniTraceAction} {s m s' : Session}
    (appended : Appended (call.stores action) s m s') (ready : Ready s) (accepts : Accepts call action)
    (low : call.subject.toNat < 2 ^ 32) (aligned : Aligned call.subject) (kind : MemberKind) (p : Address) :
    Seen kind s' p ↔ Seen kind s p ∨ call.memberKind = some kind ∧ call.named = p := by
  have names : Names kind (lastSlot s') p ↔ call.memberKind = some kind ∧ call.named = p := by
    rw [appended.lastSlot_eq]
    exact record_names_iff _ (slot_length _ _ _ appended.fits) call action accepts low aligned kind p
  rw [← appended.opened.seen_iff kind p,Seen,Seen,appended.records_eq ready (stores_inside call action),
    appended.visited,← names]
  simp only [List.mem_append,List.mem_singleton,or_and_right,exists_or,exists_eq_left,or_assoc]

/-- The calls that a trace with so much room accepts. -/
def accepted (room : Nat) (calls : List TraceCall) : List TraceCall :=
  (calls.filter TraceCall.traceable).take room

/-- The addresses of the given kind under which the calls are looked up. -/
def membersOf (kind : MemberKind) (identifier : TraceCall → Address) (calls : List TraceCall) : Finset Address :=
  ((calls.filter fun call => call.memberKind = some kind).map identifier).toFinset

theorem mem_membersOf (kind : MemberKind) (identifier : TraceCall → Address) (calls : List TraceCall)
    (p : Address) : p ∈ membersOf kind identifier calls ↔
      ∃ call ∈ calls, call.memberKind = some kind ∧ identifier call = p := by
  simp [membersOf,and_assoc]

theorem logAll_seen (calls : List TraceCall) (s final : Session) (ready : Ready s)
    (returned : logAll calls s = .ok final) (wellFormed : ∀ call ∈ calls, call.WellFormed)
    (low : ∀ call ∈ calls, call.subject.toNat < 2 ^ 32) (kind : MemberKind) (p : Address) :
    Seen kind final p ↔ Seen kind s p ∨ p ∈ membersOf kind TraceCall.named (accepted (room s) calls) := by
  induction calls generalizing s with
  | nil =>
    cases returned
    simp [accepted,membersOf]
  | cons call rest ih =>
    obtain ⟨next,logged,onward⟩ := logAll_cons call rest s final returned
    have logs := log_logs call s next ready logged
    rw [ih next (logs.ready ready) onward (fun later member => wellFormed later (List.mem_cons_of_mem _ member))
      (fun later member => low later (List.mem_cons_of_mem _ member))]
    cases logs with
    | filtered untraceable same => rw [same,accepted,accepted,List.filter_cons_of_neg (by simp [untraceable])]
    | refused traceable exhausted same =>
      have full : room s = 0 := (exhausted_iff_no_room s ready).mp exhausted
      rw [same,accepted,accepted,full,List.take_zero,List.take_zero]
    | appended action m accepts appended =>
      rw [appended.seen_iff ready accepts (low call List.mem_cons_self) (wellFormed call List.mem_cons_self).1,
        appended.room_succ ready,accepted,accepted,List.filter_cons_of_pos accepts.1,List.take_succ_cons,
        mem_membersOf,mem_membersOf]
      simp only [List.mem_cons,or_and_right,exists_or,exists_eq_left,or_assoc]

theorem start_not_seen (bufferSize : Nat) (writes : List WriteOutcome) (spurious : List Bool)
    (kind : MemberKind) (p : Address) : ¬ Seen kind (.start bufferSize writes spurious) p := by
  cases kind <;>
    simp [Seen,Session.start,MiniTrace.new,MiniTrace.visited,recordsOf,recordCount,kMiniTraceRecordSize,blocks]

theorem printed_eq_named (texts : MemberTexts) (bufferSize : Nat) (writes : List WriteOutcome)
    (spurious : List Bool) (calls : List TraceCall) (s final : Session) (size : kMiniTraceRecordSize ≤ bufferSize)
    (reliable : Reliable writes) (wellFormed : ∀ call ∈ calls, call.WellFormed)
    (low : ∀ call ∈ calls, call.subject.toNat < 2 ^ 32)
    (logged : logAll calls (.start bufferSize writes spurious) = .ok s) (flush : flushBuffer s = .ok (final,true))
    (kind : MemberKind) :
    (dumpList texts final.toMiniTrace).printed kind = membersOf kind TraceCall.named
      (accepted (1026 * (bufferSize / kMiniTraceRecordSize)) calls) := by
  ext p
  rw [printed_dumpList,(flushBuffer_flushed s final flush).visited_iff kind p,
    logAll_seen calls _ s (start_ready bufferSize writes spurious size reliable) logged wellFormed low kind p,
    start_room]
  exact or_iff_right (start_not_seen bufferSize writes spurious kind p)

theorem field_named_eq_subject (calls : List TraceCall) :
    membersOf .field TraceCall.named calls = membersOf .field TraceCall.subject calls := by
  ext p
  simp only [mem_membersOf]
  constructor <;> rintro ⟨call,member,kind,rfl⟩ <;> refine ⟨call,member,kind,?_⟩ <;> cases call <;>
    first | rfl | cases kind

theorem isMember_of_accepted {texts : MemberTexts} {calls : List TraceCall}
    (members : ∀ call ∈ calls, ∀ kind ∈ call.memberKind, texts.isMember kind call.subject = true) {room : Nat}
    (kind : MemberKind) : ∀ p ∈ membersOf kind TraceCall.subject (accepted room calls),
      texts.isMember kind p = true := by
  intro p member
  obtain ⟨call,inside,same,rfl⟩ := (mem_membersOf ..).mp member
  exact members call (List.mem_of_mem_filter (List.mem_of_mem_take inside)) kind same

/-- After any run of methods and fields that can be printed, the method and field lists are printed and show what was
written to the data file exactly when writing the low half of the return values over the upper halves of the methods'
addresses gives the same set of methods. A method list that names no method crashes; a field list always agrees. -/
theorem info_log_agrees_iff (texts : MemberTexts) (bufferSize : Nat) (writes : List WriteOutcome)
    (spurious : List Bool) (calls : List TraceCall) (size : kMiniTraceRecordSize ≤ bufferSize)
    (reliable : Reliable writes) (wellFormed : ∀ call ∈ calls, call.WellFormed)
    (low : ∀ call ∈ calls, call.subject.toNat < 2 ^ 32)
    (members : ∀ call ∈ calls, ∀ kind ∈ call.memberKind, texts.isMember kind call.subject = true) :
    ∃ s final, logAll calls (.start bufferSize writes spurious) = .ok s ∧ flushBuffer s = .ok (final,true) ∧
      final.traceDataFile = ((slotsOf calls (.start bufferSize writes spurious)).take
        (1026 * (bufferSize / kMiniTraceRecordSize))).flatten ∧
      ((∃ info, finishTracing texts s = .ok (final,info)) ↔ ∀ method ∈ membersOf .method TraceCall.named
        (accepted (1026 * (bufferSize / kMiniTraceRecordSize)) calls), texts.isMember .method method = true) ∧
      (∀ info, finishTracing texts s = .ok (final,info) → info.printed .field = membersOf .field TraceCall.subject
        (accepted (1026 * (bufferSize / kMiniTraceRecordSize)) calls)) ∧
      ((∃ info, finishTracing texts s = .ok (final,info) ∧ ∀ kind, info.printed kind = membersOf kind TraceCall.subject
          (accepted (1026 * (bufferSize / kMiniTraceRecordSize)) calls)) ↔
        membersOf .method TraceCall.named (accepted (1026 * (bufferSize / kMiniTraceRecordSize)) calls) =
          membersOf .method TraceCall.subject (accepted (1026 * (bufferSize / kMiniTraceRecordSize)) calls)) := by
  have ready := start_ready bufferSize writes spurious size reliable
  obtain ⟨s,logged,readable⟩ := logAll_total calls _ ready (start_readable bufferSize writes spurious) wellFormed
  obtain ⟨s_ready,s_content,-⟩ := logAll_content calls _ s ready logged
  obtain ⟨final,flush⟩ := flushBuffer_total s s_ready.reliable readable
  have printed := printed_eq_named texts bufferSize writes spurious calls s final size reliable wellFormed low
    logged flush
  have reads : texts.Reads final.toMiniTrace ↔ ∀ method ∈ membersOf .method TraceCall.named
      (accepted (1026 * (bufferSize / kMiniTraceRecordSize)) calls), texts.isMember .method method = true := by
    simp only [MemberTexts.Reads,← printed_dumpList texts,printed]
    refine ⟨fun all => all .method,fun methods => MemberKind.forall_iff.mpr ⟨methods,?_⟩⟩
    rw [field_named_eq_subject]
    exact isMember_of_accepted members .field
  refine ⟨s,final,logged,flush,?_,?_,?_,?_⟩
  · rw [(flushBuffer_flushed s final flush).file_eq,← start_room bufferSize writes spurious]
    exact s_content
  · simp [finishTracing_eq_ok flush,reads]
  · intro info finished
    rw [← ((finishTracing_eq_ok flush).mp finished).2,printed,field_named_eq_subject]
  · constructor
    · rintro ⟨info,finished,agrees⟩
      rw [← printed,((finishTracing_eq_ok flush).mp finished).2,agrees]
    · intro same
      refine ⟨dumpList texts final.toMiniTrace,(finishTracing_eq_ok flush).mpr ⟨reads.mpr ?_,rfl⟩,
        MemberKind.forall_iff.mpr ⟨(printed .method).trans same,(printed .field).trans (field_named_eq_subject _)⟩⟩
      rw [same]
      exact isMember_of_accepted members .method

def blankTexts (isMember : MemberKind → Address → Bool) : MemberTexts :=
  ⟨isMember,fun _ => ⟨"","","",""⟩,fun _ => ⟨"","",""⟩⟩

/-- One method entry above 2^16: if the address with its upper half cleared, which was never logged, can be read, the
method list prints it; if it is no method the process crashes. -/
theorem info_log_prints_unlogged : ∃ s final info,
    logAll [.method 1 0x70001238 kAccIsMiniTraceable .methodEntered 0] (.start 14 [] []) = .ok s ∧
    finishTracing (blankTexts fun _ _ => true) s = .ok (final,info) ∧
    (info.printed .method = {0x1238} ∧ info.printed .method ≠ membersOf .method TraceCall.subject
      [.method 1 0x70001238 kAccIsMiniTraceable .methodEntered 0]) ∧
    finishTracing (blankTexts fun _ p => p == 0x70001238) s = .error .crash := by
  obtain ⟨s,final,logged,flush,visited⟩ : ∃ s final,
      logAll [.method 1 0x70001238 kAccIsMiniTraceable .methodEntered 0] (.start 14 [] []) = .ok s ∧
      flushBuffer s = .ok (final,true) ∧ final.visited .method = {0x1238} := ⟨_,_,rfl,rfl,by decide⟩
  refine ⟨s,final,_,logged,(finishTracing_eq_ok flush).mpr ⟨fun _ _ _ => rfl,rfl⟩,?_,?_⟩
  · rw [printed_dumpList,visited]
    decide
  · simp only [finishTracing,flush]
    refine if_neg fun reads => ?_
    have wild := reads .method 0x1238 (by rw [visited]; decide)
    cases wild

theorem info_log_agrees_exit : Reliable [] ∧ ∃ s final info,
    logAll [.method 1 0x70001238 kAccIsMiniTraceable .methodExited 0x7000] (.start 14 [] []) = .ok s ∧
    finishTracing (blankTexts fun _ p => p == 0x70001238) s = .ok (final,info) ∧
    ∀ kind, info.printed kind = membersOf kind TraceCall.subject
      (accepted (1026 * (14 / kMiniTraceRecordSize))
        [.method 1 0x70001238 kAccIsMiniTraceable .methodExited 0x7000]) := by
  obtain ⟨s,final,logged,-,-,-,-,agrees⟩ := info_log_agrees_iff (blankTexts fun _ p => p == 0x70001238) 14 [] []
    [.method 1 0x70001238 kAccIsMiniTraceable .methodExited 0x7000] (by decide) (by decide) (by decide)
      (by decide) (by decide)
  obtain ⟨info,finished,same⟩ := agrees.mpr (by decide)
  exact ⟨by decide,s,final,info,logged,finished,same⟩

end Aatt
