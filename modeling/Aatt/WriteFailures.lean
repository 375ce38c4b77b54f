import Aatt.Lib.Transition
import Aatt.Sequential

/-! Failing `write` calls. `FlushBuffer` writes the whole buffer again after a failure, although a part
of it may be in the file, and the event that met the failure is dropped while later ones may be
recorded. The trace stays a front of the events as long as no later flush succeeds and at most one
failed flush has written anything. -/
namespace Aatt

open Aatt.Lib

/-- The reservation loop of a call gives it a slot. -/
def getsSlot (s : Session) : Bool :=
  match reserve (s.spurious.length + 2) s with
  | .ok (_,some _) => true
  | _ => false

/-- A session with what the code does not keep: how many bytes of the buffer failed flushes have put into
the file, and for each event that passed its filter its slot, or `none` if it was dropped. -/
structure Ledger where
  session : Session
  landed : Nat
  events : List (Option (List Byte))

namespace Ledger

def start (bufferSize : Nat) (writes : List WriteOutcome) (spurious : List Bool) : Ledger :=
  ⟨.start bufferSize writes spurious,0,[]⟩

def step (call : TraceCall) (l : Ledger) : Option Ledger :=
  match log call l.session with
  | .error _ => none
  | .ok next =>
    if !call.traceable then some { l with session := next }
    else if getsSlot l.session then some ⟨next,0,l.events ++ [some (lastSlot next)]⟩
    else some ⟨next,max l.landed (next.traceDataFile.length - l.session.traceDataFile.length),l.events ++ [none]⟩

/-- The data file and the bytes of the buffer that are not in it yet. -/
def trace (l : Ledger) : List Byte :=
  l.session.traceDataFile ++ (l.session.buf.take l.session.curOffset).drop l.landed

/-- The trace consists of the whole slots of a front of the events, and all events after it were dropped. -/
def Uncorrupted (l : Ledger) : Prop :=
  ∃ (slots : List (List Byte)) (dropped : Nat),
    (∀ record ∈ slots, record.length = kMiniTraceRecordSize) ∧
      l.events = slots.map some ++ List.replicate dropped none ∧ l.trace = slots.flatten

/-- Once an event has been dropped, a flush that is tried again fails too, and it writes nothing if a failed one
has written something. -/
def FailsAgain (call : TraceCall) (l : Ledger) : Prop :=
  none ∈ l.events → call.traceable = true → ¬ Exhausted l.session →
    (writeFully l.session.writes l.session.traceDataFile (l.session.buf.take l.session.curOffset)).2.2 = false ∧
    (l.landed = 0 ∨
      (writeFully l.session.writes l.session.traceDataFile (l.session.buf.take l.session.curOffset)).2.1 =
        l.session.traceDataFile)

end Ledger

instance (s : Session) : Decidable (Exhausted s) := inferInstanceAs (Decidable (_ ∧ _))

instance (call : TraceCall) (l : Ledger) : Decidable (l.FailsAgain call) :=
  inferInstanceAs (Decidable (_ → _ → _ → _ ∧ (_ ∨ _)))

theorem writeFully_interrupted (k : Nat) (rest : List WriteOutcome) (file bytes : List Byte)
    (short : k < bytes.length) :
    writeFully (.wrote k :: .error :: rest) file bytes = (rest,file ++ bytes.take k,false) := by
  cases bytes with
  | nil => cases short
  | cons byte bytes =>
    rw [writeFully_wrote]
    cases left : (byte :: bytes).drop k with
    | nil =>
      rw [List.drop_eq_nil_iff] at left
      omega
    | cons next later => rfl

theorem flushBuffer_failed (s s' : Session) (returned : flushBuffer s = .ok (s',false)) :
    s.curOffset ≠ 0 ∧ s' = { s with writes := s'.writes, traceDataFile := s'.traceDataFile } ∧
      writeFully s.writes s.traceDataFile (s.buf.take s.curOffset) = (s'.writes,s'.traceDataFile,false) := by
  unfold flushBuffer at returned
  by_cases empty : s.curOffset = 0
  · rw [if_pos empty] at returned
    cases returned
  rw [if_neg empty] at returned
  rcases written : writeFully s.writes s.traceDataFile (s.buf.take s.curOffset) with ⟨rest,file,complete⟩
  rw [written] at returned
  cases complete with
  | false =>
    cases returned
    exact ⟨empty,rfl,rfl⟩
  | true =>
    simp only [Bool.not_true,Bool.false_eq_true,if_false] at returned
    split at returned <;> cases returned

theorem flushBuffer_fails (s : Session) (used : s.curOffset ≠ 0)
    (fails : (writeFully s.writes s.traceDataFile (s.buf.take s.curOffset)).2.2 = false) :
    ∃ s', flushBuffer s = .ok (s',false) := by
  unfold flushBuffer
  rw [if_neg used]
  rcases written : writeFully s.writes s.traceDataFile (s.buf.take s.curOffset) with ⟨rest,file,complete⟩
  rw [written] at fails
  cases fails
  exact ⟨_,rfl⟩

theorem reserve_failed (fuel : Nat) (s s' : Session) (failed : WriteFailed s s') :
    reserve (fuel + 1) s = .ok (s',none) := by
  obtain ⟨full,below,flush⟩ := failed
  rw [reserve]
  simp only [gt_iff_lt,if_pos full,handleOverflow_below s (Nat.not_lt.mpr below),flush]

/-- What a call does, whatever the writes answer. -/
inductive Outcome (call : TraceCall) (s s' : Session) : Prop where
  | filtered (untraceable : call.traceable = false) (same : s' = s)
  | exhausted (traceable : call.traceable = true) (unslotted : getsSlot s = false) (exhausted : Exhausted s)
    (same : s' = s)
  | failed (traceable : call.traceable = true) (unslotted : getsSlot s = false) (failed : WriteFailed s s')
  | appended (traceable : call.traceable = true) (slotted : getsSlot s = true) (action : MiniTraceAction) (m : Session)
      (appended : Appended (call.stores action) s m s')

theorem log_outcome (call : TraceCall) (s s' : Session) (size : kMiniTraceRecordSize ≤ s.bufferSize)
    (returned : log call s = .ok s') : Outcome call s s' := by
  rcases log_returned returned with ⟨untraceable,same⟩ | ⟨action,accepts,common⟩
  · exact .filtered untraceable same
  · rcases logTraceEvent_cases _ s s' size common with ⟨reserved,refused⟩ | ⟨after,m,reserved,appended⟩
    · have unslotted : getsSlot s = false := by rw [getsSlot,reserved]
      obtain ⟨exhausted,same⟩ | failed := refused
      · exact .exhausted accepts.1 unslotted exhausted same
      · exact .failed accepts.1 unslotted failed
    · have slotted : getsSlot s = true := by rw [getsSlot,reserved]
      exact .appended accepts.1 slotted action m appended

theorem Appended.lastSlot_length {stores : List Store} {s m s' : Session} (appended : Appended stores s m s') :
    (lastSlot s').length = kMiniTraceRecordSize := by
  rw [appended.lastSlot_eq,writeStores_length,slot_length _ _ _ appended.fits]

namespace Ledger

theorem step_log (call : TraceCall) (l next : Ledger) (taken : step call l = some next) :
    ∃ s', log call l.session = .ok s' ∧ next =
      if call.traceable then
        if getsSlot l.session then ⟨s',0,l.events ++ [some (lastSlot s')]⟩
        else ⟨s',max l.landed (s'.traceDataFile.length - l.session.traceDataFile.length),l.events ++ [none]⟩
      else { l with session := s' } := by
  unfold step at taken
  cases returned : log call l.session with
  | error halt =>
    rw [returned] at taken
    cases taken
  | ok s' =>
    rw [returned] at taken
    refine ⟨s',rfl,?_⟩
    revert taken
    cases call.traceable <;> cases getsSlot l.session <;> exact fun taken => (Option.some.inj taken).symm

/-- The invariant: what the trace consists of, and that the buffer is full once an event has been dropped. -/
structure Kept (l : Ledger) (slots : List (List Byte)) (dropped : Nat) : Prop where
  size : kMiniTraceRecordSize ≤ l.session.bufferSize
  bounded : l.session.curOffset ≤ l.session.bufferSize
  whole : ∀ record ∈ slots, record.length = kMiniTraceRecordSize
  events : l.events = slots.map some ++ List.replicate dropped none
  trace : l.trace = slots.flatten
  fresh : dropped = 0 → l.landed = 0
  full : dropped ≠ 0 → l.session.bufferSize < l.session.curOffset + kMiniTraceRecordSize

theorem Kept.dropped_mem {l : Ledger} {slots : List (List Byte)} {dropped : Nat} (kept : l.Kept slots dropped)
    (some_ : dropped ≠ 0) : none ∈ l.events := by
  rw [kept.events]
  exact List.mem_append_right _ (List.mem_replicate.mpr ⟨some_,rfl⟩)

theorem trace_fresh (l : Ledger) (fresh : l.landed = 0) : l.trace = content l.session := by
  rw [trace,fresh,List.drop_zero,content]

theorem Kept.drops {l next : Ledger} {slots : List (List Byte)} {dropped : Nat} (kept : l.Kept slots dropped)
    (buf : next.session.buf = l.session.buf) (offset : next.session.curOffset = l.session.curOffset)
    (events : next.events = l.events ++ [none]) (same : next.trace = l.trace)
    (full : l.session.bufferSize < l.session.curOffset + kMiniTraceRecordSize) : next.Kept slots (dropped + 1) where
  size := by rw [MiniTrace.bufferSize,buf]; exact kept.size
  bounded := by rw [offset,MiniTrace.bufferSize,buf]; exact kept.bounded
  whole := kept.whole
  events := by rw [events,kept.events,List.append_assoc,← List.replicate_succ']
  trace := same.trans kept.trace
  fresh := nofun
  full _ := by rw [offset,MiniTrace.bufferSize,buf]; exact full

theorem failed_trace (l : Ledger) (s' : Session) (failed : WriteFailed l.session s')
    (once : l.landed = 0 ∨ s'.traceDataFile = l.session.traceDataFile) :
    Ledger.trace ⟨s',max l.landed (s'.traceDataFile.length - l.session.traceDataFile.length),l.events ++ [none]⟩ =
      l.trace := by
  obtain ⟨-,same,written⟩ := flushBuffer_failed _ _ failed.2.2
  have buf : s'.buf = l.session.buf := by rw [same]; rfl
  have offset : s'.curOffset = l.session.curOffset := by rw [same]; rfl
  unfold trace
  dsimp only
  rw [buf,offset]
  obtain empty | unchanged := once
  · obtain ⟨k,bound,file⟩ := writeFully_false _ _ _ _ _ written
    have file : s'.traceDataFile = l.session.traceDataFile ++ (l.session.buf.take l.session.curOffset).take k := file
    have grown : s'.traceDataFile.length - l.session.traceDataFile.length = k := by
      rw [file,List.length_append,List.length_take,Nat.add_sub_cancel_left]
      exact Nat.min_eq_left bound
    rw [grown,file,empty,Nat.zero_max,List.append_assoc,List.take_append_drop,List.drop_zero]
  · rw [unchanged,Nat.sub_self,Nat.max_zero]

theorem Kept.slotted {l : Ledger} {slots : List (List Byte)} {dropped : Nat} {call : TraceCall}
    (kept : l.Kept slots dropped) (again : l.FailsAgain call) (traceable : call.traceable = true)
    (slotted : getsSlot l.session = true) : dropped = 0 := by
  by_contra some_
  have full := kept.full some_
  have refused : ∃ s', reserve (l.session.spurious.length + 2) l.session = .ok (s',none) := by
    by_cases exhausted : Exhausted l.session
    · exact ⟨_,reserve_exhausted _ l.session exhausted⟩
    · obtain ⟨fails,-⟩ := again (kept.dropped_mem some_) traceable exhausted
      have used : l.session.curOffset ≠ 0 := by
        have size := kept.size
        omega
      obtain ⟨s',flush⟩ := flushBuffer_fails l.session.counted used fails
      have below : l.session.bufferOverflowCount ≤ 1024 := by
        by_contra above
        exact exhausted ⟨full,Nat.lt_of_not_le above⟩
      exact ⟨s',reserve_failed _ l.session s' ⟨full,below,flush⟩⟩
  obtain ⟨s',refused⟩ := refused
  rw [getsSlot,refused] at slotted
  cases slotted

theorem kept_step (call : TraceCall) (l next : Ledger) (kept : ∃ slots dropped, l.Kept slots dropped)
    (again : l.FailsAgain call) (taken : step call l = some next) : ∃ slots dropped, next.Kept slots dropped := by
  obtain ⟨slots,dropped,kept⟩ := kept
  obtain ⟨s',returned,eq⟩ := step_log call l next taken
  cases log_outcome call l.session s' kept.size returned with
  | filtered untraceable same =>
    subst same
    simp only [untraceable,Bool.false_eq_true,if_false] at eq
    subst eq
    exact ⟨slots,dropped,kept⟩
  | exhausted traceable unslotted exhausted same =>
    subst same
    simp only [traceable,unslotted,Bool.false_eq_true,if_true,if_false] at eq
    subst eq
    refine ⟨slots,dropped + 1,kept.drops rfl rfl rfl ?_ exhausted.1⟩
    simp [trace]
  | failed traceable unslotted failed =>
    simp only [traceable,unslotted,Bool.false_eq_true,if_true,if_false] at eq
    subst eq
    obtain ⟨-,same,written⟩ := flushBuffer_failed _ _ failed.2.2
    refine ⟨slots,dropped + 1,kept.drops (by rw [same]; rfl) (by rw [same]; rfl) rfl ?_ failed.1⟩
    refine failed_trace l s' failed ?_
    by_cases none_ : dropped = 0
    · exact .inl (kept.fresh none_)
    · refine (again (kept.dropped_mem none_) traceable fun exhausted => ?_).2.imp_right fun unchanged => ?_
      · have := exhausted.2
        have := failed.2.1
        omega
      · exact (congrArg (·.2.1) written).symm.trans unchanged
  | appended traceable slotted action m appended =>
    have none_ := kept.slotted again traceable slotted
    simp only [traceable,slotted,if_true] at eq
    subst eq
    subst none_
    refine ⟨slots ++ [lastSlot s'],0,?_,?_,?_,?_,?_,fun _ => rfl,nofun⟩
    · rw [appended.bufferSize_eq]
      exact kept.size
    · rw [appended.curOffset,MiniTrace.bufferSize,appended.buf,writeStores_length]
      exact appended.fits
    · intro record member
      rcases List.mem_append.mp member with early | last
      · exact kept.whole record early
      · rw [List.mem_singleton.mp last]
        exact appended.lastSlot_length
    · simp [kept.events]
    · rw [trace_fresh _ rfl,appended.content_eq (stores_inside call action),← trace_fresh l (kept.fresh rfl),kept.trace]
      simp

theorem Kept.slots_eq {l next : Ledger} {slots slots' : List (List Byte)} {dropped dropped' : Nat}
    (kept : l.Kept slots dropped) (later : next.events = l.events ++ [none])
    (events : next.events = slots'.map some ++ List.replicate dropped' none) : slots' = slots := by
  have same := congrArg (List.filterMap id) (events.symm.trans later)
  simpa [kept.events,List.filterMap_map] using same

/-- An event that is recorded after a dropped one, or a second part of the buffer in the file, is a corruption. -/
theorem kept_needs (call : TraceCall) (l next : Ledger) (kept : ∃ slots dropped, l.Kept slots dropped)
    (taken : step call l = some next) (uncorrupted : next.Uncorrupted) : l.FailsAgain call := by
  intro dropped traceable unexhausted
  obtain ⟨slots,n,kept⟩ := kept
  obtain ⟨slots',n',-,events,trace⟩ := uncorrupted
  obtain ⟨s',returned,eq⟩ := step_log call l next taken
  cases log_outcome call l.session s' kept.size returned with
  | filtered untraceable same =>
    rw [untraceable] at traceable
    cases traceable
  | exhausted _ unslotted exhausted same => exact absurd exhausted unexhausted
  | failed _ unslotted failed =>
    simp only [traceable,unslotted,Bool.false_eq_true,if_true,if_false] at eq
    subst eq
    obtain ⟨-,same,written⟩ := flushBuffer_failed _ _ failed.2.2
    have written : writeFully l.session.writes l.session.traceDataFile (l.session.buf.take l.session.curOffset) =
      (s'.writes,s'.traceDataFile,false) := written
    rw [written]
    refine ⟨rfl,?_⟩
    by_contra both
    obtain ⟨some_,more⟩ := not_or.mp both
    obtain ⟨k,bound,file⟩ := writeFully_false _ _ _ _ _ written
    have positive : k ≠ 0 := by
      rintro rfl
      exact more (by rw [file,List.take_zero,List.append_nil])
    have lengths := congrArg List.length (trace.trans ((congrArg _ (kept.slots_eq rfl events)).trans kept.trace.symm))
    rw [Ledger.trace,Ledger.trace,file,same] at lengths
    simp only [List.length_append,List.length_drop,List.length_take,Session.counted] at lengths bound
    omega
  | appended _ slotted action m appended =>
    simp only [traceable,slotted,if_true] at eq
    subst eq
    cases n' with
    | zero =>
      have member : none ∈ slots'.map some ++ List.replicate 0 none := events ▸ List.mem_append_left _ dropped
      simp at member
    | succ n' =>
      rw [List.replicate_succ',← List.append_assoc] at events
      have last := (List.append_inj' events rfl).2
      simp at last

theorem start_kept (bufferSize : Nat) (writes : List WriteOutcome) (spurious : List Bool)
    (size : kMiniTraceRecordSize ≤ bufferSize) : (start bufferSize writes spurious).Kept [] 0 := by
  refine ⟨?_,Nat.zero_le _,nofun,rfl,?_,fun _ => rfl,nofun⟩
  · simpa [start,Session.start,MiniTrace.new,MiniTrace.bufferSize] using size
  · simp [trace,start,Session.start,MiniTrace.new]

/-- Whatever the writes answer and however short they are: the trace is at every moment a front of the events
exactly when no flush succeeds after a failed one, and at most one failed flush writes anything. -/
theorem run_uncorrupted_iff (bufferSize : Nat) (writes : List WriteOutcome) (spurious : List Bool)
    (calls : List TraceCall) (size : kMiniTraceRecordSize ≤ bufferSize) :
    Throughout step Uncorrupted calls (start bufferSize writes spurious) ↔
      EachStep step (fun call l => l.FailsAgain call) calls (start bufferSize writes spurious) :=
  throughout_iff_each (fun l => ∃ slots dropped, l.Kept slots dropped) Uncorrupted
    (fun _ ⟨slots,dropped,kept⟩ => ⟨slots,dropped,kept.whole,kept.events,kept.trace⟩) kept_step kept_needs calls _
    ⟨[],0,start_kept bufferSize writes spurious size⟩

theorem step_fits (call : TraceCall) (action : MiniTraceAction) (l : Ledger) (accepts : Accepts call action)
    (common : log call l.session = logTraceEvent (call.stores action) l.session)
    (fits : l.session.curOffset + kMiniTraceRecordSize ≤ l.session.bufferSize) :
    ∃ s', step call l = some ⟨s',0,l.events ++ [some (lastSlot s')]⟩ ∧
      Appended (call.stores action) l.session l.session s' := by
  obtain ⟨rest,reserved⟩ := reserve_fits (l.session.spurious.length + 2) l.session (by omega) fits
  refine ⟨{ l.session with
    spurious := rest
    curOffset := l.session.curOffset + kMiniTraceRecordSize
    buf := writeStores l.session.buf (shiftStores l.session.curOffset (call.stores action)) },?_,
    .fits fits,fits,rfl,rfl,rfl,rfl,funext fun kind => by cases kind <;> rfl,rfl⟩
  unfold step
  rw [common,logTraceEvent,reserved,accepts.1,getsSlot,reserved]
  rfl

theorem step_fails (call : TraceCall) (action : MiniTraceAction) (l : Ledger) (s' : Session)
    (accepts : Accepts call action) (common : log call l.session = logTraceEvent (call.stores action) l.session)
    (failed : WriteFailed l.session s') : step call l =
      some ⟨s',max l.landed (s'.traceDataFile.length - l.session.traceDataFile.length),l.events ++ [none]⟩ := by
  have refused : reserve (l.session.spurious.length + 2) l.session = .ok (s',none) := reserve_failed _ _ _ failed
  unfold step
  rw [common,logTraceEvent,refused,accepts.1,getsSlot,refused]
  rfl

theorem run_fits (call : TraceCall) (action : MiniTraceAction) (n bufferSize : Nat) (writes : List WriteOutcome)
    (spurious : List Bool) (accepts : Accepts call action)
    (common : ∀ s, log call s = logTraceEvent (call.stores action) s)
    (fits : n * kMiniTraceRecordSize ≤ bufferSize) :
    ∃ (l : Ledger) (slots : List (List Byte)), run step (List.replicate n call)
    (start bufferSize writes spurious) = some l ∧
      l.session.bufferSize = bufferSize ∧ l.session.curOffset = n * kMiniTraceRecordSize ∧
      l.session.bufferOverflowCount = 0 ∧ l.session.traceDataFile = [] ∧ l.session.writes = writes ∧
      l.landed = 0 ∧ l.events = slots.map some ∧ slots.flatten = content l.session := by
  induction n with
  | zero =>
    refine ⟨_,[],rfl,?_,?_,rfl,rfl,rfl,rfl,rfl,?_⟩
    · simp [start,Session.start,MiniTrace.new,MiniTrace.bufferSize]
    · simp [start,Session.start,MiniTrace.new]
    · simp [content,start,Session.start,MiniTrace.new]
  | succ n ih =>
    rw [Nat.succ_mul] at fits
    obtain ⟨l,slots,ran,size,offset,count,file,left,landed,events,kept⟩ := ih (by omega)
    obtain ⟨s',taken,appended⟩ := step_fits call action l accepts (common _) (by rw [offset,size]; exact fits)
    refine ⟨⟨s',0,l.events ++ [some (lastSlot s')]⟩,slots ++ [lastSlot s'],?_,?_,?_,?_,?_,?_,rfl,?_,?_⟩
    · rw [List.replicate_succ',run_append,ran,Option.bind_some,run_cons,taken]
      rfl
    · exact appended.bufferSize_eq.trans size
    · rw [Nat.succ_mul,appended.curOffset,offset]
    · exact appended.count.trans count
    · exact appended.file.trans file
    · exact appended.writes.trans left
    · simp [events]
    · rw [appended.content_eq (stores_inside _ _),← kept]
      simp

/-- A full buffer whose flush is interrupted after `k` bytes. -/
theorem step_interrupted (call : TraceCall) (action : MiniTraceAction) (l : Ledger) (k : Nat) (rest : List WriteOutcome)
    (accepts : Accepts call action) (common : log call l.session = logTraceEvent (call.stores action) l.session)
    (full : l.session.bufferSize < l.session.curOffset + kMiniTraceRecordSize)
    (below : l.session.bufferOverflowCount ≤ 1024) (bounded : l.session.curOffset ≤ l.session.bufferSize)
    (short : k < l.session.curOffset) (writes : l.session.writes = .wrote k :: .error :: rest) :
    ∃ s', step call l = some ⟨s',max l.landed k,l.events ++ [none]⟩ ∧
      s' = { l.session.counted with
        writes := rest, traceDataFile := l.session.traceDataFile ++
          (l.session.buf.take l.session.curOffset).take k } := by
  have used : (l.session.buf.take l.session.curOffset).length = l.session.curOffset := by
    rw [List.length_take]
    exact Nat.min_eq_left bounded
  have written : writeFully l.session.writes l.session.traceDataFile (l.session.buf.take l.session.curOffset) =
      (rest,l.session.traceDataFile ++ (l.session.buf.take l.session.curOffset).take k,false) := by
    rw [writes]
    exact writeFully_interrupted k rest _ _ (by rw [used]; exact short)
  have flush : flushBuffer l.session.counted = .ok ({ l.session.counted with
      writes := rest, traceDataFile := l.session.traceDataFile ++
        (l.session.buf.take l.session.curOffset).take k },false) := by
    unfold flushBuffer
    rw [if_neg (show l.session.counted.curOffset ≠ 0 from Nat.ne_of_gt (Nat.zero_lt_of_lt short))]
    simp only [Session.counted,written]
    rfl
  refine ⟨_,?_,rfl⟩
  have grown : ((l.session.traceDataFile ++ (l.session.buf.take l.session.curOffset).take k).length -
      l.session.traceDataFile.length) = k := by
    rw [List.length_append,Nat.add_sub_cancel_left,List.length_take,used]
    exact Nat.min_eq_left (Nat.le_of_lt short)
  rw [step_fails call action l _ accepts common ⟨full,below,flush⟩,grown]

end Ledger

/-- Two interrupted writes: the first puts 5 bytes of the full buffer into the file, the second the first 6 bytes
again. -/
theorem interrupted_writes_repeat_bytes :
    ¬ Throughout Ledger.step Ledger.Uncorrupted (List.replicate 75 (.monitor 10 16 3 true))
      (Ledger.start 1024 [.wrote 5,.error,.wrote 6,.error] []) := by
  intro throughout
  obtain ⟨l,slots,ran,size,offset,count,file,writes,landed,events,kept⟩ := Ledger.run_fits (.monitor 10 16 3 true)
    (monitorAction true) 73 1024 [.wrote 5,.error,.wrote 6,.error] [] ⟨rfl,rfl⟩ (fun _ => rfl) (by decide)
  have offset : l.session.curOffset = 1022 := offset
  obtain ⟨s,first,state⟩ := Ledger.step_interrupted (.monitor 10 16 3 true) (monitorAction true) l 5 [.wrote 6,.error]
    ⟨rfl,rfl⟩ rfl (by rw [size,offset]; decide) (by omega) (by omega) (by omega) writes
  have size' : s.bufferSize = 1024 := by rw [state]; exact size
  have offset' : s.curOffset = 1022 := by rw [state]; exact offset
  obtain ⟨s',second,state'⟩ := Ledger.step_interrupted (.monitor 10 16 3 true) (monitorAction true)
    ⟨s,max l.landed 5,l.events ++ [none]⟩ 6 [] ⟨rfl,rfl⟩ rfl (by rw [size',offset']; decide)
    (by rw [state]; simp [Session.counted,count]) (by rw [offset',size']; decide) (by rw [offset']; decide)
    (by rw [state])
  have reached : run Ledger.step (List.replicate 75 (.monitor 10 16 3 true))
      (Ledger.start 1024 [.wrote 5,.error,.wrote 6,.error] []) =
        some ⟨s',max (max l.landed 5) 6,l.events ++ [none] ++ [none]⟩ := by
    rw [show 75 = 73 + 2 from rfl,List.replicate_add,run_append,ran,Option.bind_some]
    simp only [List.replicate_succ,List.replicate_zero,run_cons,first,second,Option.bind_some,run_nil]
  obtain ⟨slots',dropped,-,same,trace⟩ := throughout.final reached
  have same : slots = slots' := by
    have := congrArg (List.filterMap id) same
    simpa [events] using this
  have recorded : slots.flatten.length = 1022 := by
    rw [kept,content,file,List.nil_append,List.length_take,offset]
    exact Nat.min_eq_left (by rw [MiniTrace.bufferSize] at size; omega)
  have bytes := congrArg List.length trace
  rw [← same,recorded] at bytes
  rw [MiniTrace.bufferSize] at size
  simp [Ledger.trace,state',state,Session.counted,file,landed,offset,size] at bytes

/-- After a failed write nothing more is written. -/
theorem Ledger.run_uncorrupted_full_disk : kMiniTraceRecordSize ≤ 28 ∧
    Throughout Ledger.step Ledger.Uncorrupted (List.replicate 4 (.monitor 10 16 3 true))
      (Ledger.start 28 [.wrote 5,.error,.error] []) :=
  ⟨by decide,(Ledger.run_uncorrupted_iff 28 [.wrote 5,.error,.error] [] _ (by decide)).mpr
    (eachStep_of_check _ _ _ (by decide +kernel))⟩

end Aatt
