import Aatt.StackEvents

/-! What `Stop` leaves in the buffer. `FinishTracing` flushes before `DisableMethodTracing` walks the
stacks, and the listener is removed after it, so a callback of that walk logs into a buffer that
is not written any more. -/
namespace Aatt

open Aatt.Lib

theorem Appended.offset_pos {stores : List Store} {s m s' : Session} (appended : Appended stores s m s') :
    s'.curOffset ≠ 0 := by
  rw [appended.curOffset]
  simp [kMiniTraceRecordSize]

theorem logAll_used (calls : List TraceCall) (s final : Session) (ready : Ready s) (used : s.curOffset ≠ 0)
    (returned : logAll calls s = .ok final) : final.curOffset ≠ 0 := by
  induction calls generalizing s with
  | nil =>
    cases returned
    exact used
  | cons call rest ih =>
    obtain ⟨next,logged,onward⟩ := logAll_cons call rest s final returned
    have logs := log_logs call s next ready logged
    refine ih next (logs.ready ready) ?_ onward
    cases logs with
    | filtered untraceable same => exact same ▸ used
    | refused traceable exhausted same => exact same ▸ used
    | appended action m accepts appended => exact appended.offset_pos

theorem logAll_empty_iff (calls : List TraceCall) (s final : Session) (ready : Ready s) (empty : s.curOffset = 0)
    (returned : logAll calls s = .ok final) :
    final.curOffset = 0 ↔ ∀ call ∈ calls, call.traceable = false := by
  induction calls generalizing s with
  | nil =>
    cases returned
    simp [empty]
  | cons call rest ih =>
    obtain ⟨next,logged,onward⟩ := logAll_cons call rest s final returned
    have logs := log_logs call s next ready logged
    cases logs with
    | filtered untraceable same =>
      subst same
      rw [ih next ready empty onward]
      simp [untraceable]
    | refused traceable exhausted same =>
      have full := exhausted.1
      have size := ready.size
      omega
    | appended action m accepts appended =>
      have used := logAll_used rest next final (appended.ready ready) appended.offset_pos onward
      simp [used,accepts.1]

theorem file_complete_iff (s : Session) (ready : Ready s) : s.traceDataFile = content s ↔ s.curOffset = 0 := by
  have used : (s.buf.take s.curOffset).length = s.curOffset := by
    rw [List.length_take]
    exact Nat.min_eq_left ready.bounded
  rw [content,List.self_eq_append_right,← List.length_eq_zero_iff,used]

namespace Process

theorem finishTracing_flushed (texts : MemberTexts) (s flushed : Session) (info : InfoLog) (ready : Ready s)
    (finished : finishTracing texts s = .ok (flushed,info)) : Flushed s flushed := by
  unfold finishTracing at finished
  split at finished
  · cases finished
  · rename_i after result flush
    split_ifs at finished
    cases finished
    obtain rfl := flushBuffer_reliable s flushed result ready.reliable flush
    exact flushBuffer_flushed s flushed flush

theorem stop_cases (texts : MemberTexts) (p final : Process) (info : Option InfoLog)
    (active : p.runtime.theTrace ≠ none) (returned : p.stop texts = .ok (final,info)) :
    ∃ flushed log threads calls, finishTracing texts p.session = .ok (flushed,log) ∧ info = some log ∧
      p.stopWalk = .ok (threads,calls) ∧ logAll calls flushed = .ok final.session := by
  unfold stop at returned
  split at returned
  · rename_i idle
    exact absurd idle active
  split at returned
  · cases returned
  rename_i flushed log finished
  split at returned
  · cases returned
  rename_i threads calls walked
  split at returned
  · cases returned
  rename_i session logged
  cases returned
  exact ⟨flushed,log,threads,calls,finished,rfl,walked,logged⟩

/-- The highest level that the other clients of the instrumentation ask for. -/
def othersLevel (p : Process) : InstrumentationLevel :=
  highestLevel (setLevel .kMiniTracerInstrumentationKey .nothing p.runtime.instrumentation.requestedLevels)

/-- No client is left, and a traceable method that a quick frame is in has an exit stub. -/
def ExitsLate (p : Process) : Prop :=
  p.othersLevel = .nothing ∧ p.runtime.instrumentation.deoptimizedMethods = [] ∧
    .miniTrace ∈ p.listeners.methodExit ∧
    ∃ thread ∈ p.threads, ∃ method ∈ thread.exiting, p.runtime.traceable method = true

/-- Another client keeps the exit stubs, so that stubs are installed again, and a traceable method is among those
that get an enter event for it. -/
def EntersLate (p : Process) : Prop :=
  p.othersLevel = .withInstrumentationStubs ∧ .miniTrace ∈ p.listeners.methodEntry ∧
    ∃ thread ∈ p.threads, ∃ method ∈ thread.entering, p.runtime.traceable method = true

/-- `DisableMethodTracing` will have something to tell that `MiniTrace` records. -/
def RecordsLate (p : Process) : Prop :=
  p.listeners.deoptimizationEnabled = false ∧
    p.othersLevel ≠ p.runtime.instrumentation.getCurrentInstrumentationLevel ∧ (p.ExitsLate ∨ p.EntersLate)

instance (p : Process) : Decidable p.ExitsLate := inferInstanceAs (Decidable (_ ∧ _))

instance (p : Process) : Decidable p.EntersLate := inferInstanceAs (Decidable (_ ∧ _))

instance (p : Process) : Decidable p.RecordsLate := inferInstanceAs (Decidable (_ ∧ _))

/-- Which walk `DisableMethodTracing` makes, and whether the interpreter stubs are there during it. -/
theorem disable_cases (p : Process) (i : Instrumentation) (classes : List Class) (walk : StackWalk)
    (disabled : disableMethodTracing .kMiniTracerInstrumentationKey p.runtime.instrumentation p.runtime.classes =
      (i,classes,walk)) :
    walk = .none ∧ (p.othersLevel = p.runtime.instrumentation.getCurrentInstrumentationLevel ∨
      p.othersLevel = .nothing ∧ p.runtime.instrumentation.deoptimizedMethods ≠ []) ∨
    p.othersLevel ≠ p.runtime.instrumentation.getCurrentInstrumentationLevel ∧
      (walk = .install ∧ p.othersLevel ≠ .nothing ∧
          i.interpreterStubsInstalled = decide (p.othersLevel = .withInterpreter) ∨
        walk = .restore ∧ p.othersLevel = .nothing ∧ p.runtime.instrumentation.deoptimizedMethods = [] ∧
          i.interpreterStubsInstalled = false) := by
  unfold disableMethodTracing configureStubs at disabled
  dsimp only at disabled
  rw [← othersLevel] at disabled
  split at disabled
  · rename_i same
    cases disabled
    exact .inl ⟨rfl,.inl same⟩
  rename_i differs
  split at disabled
  · rename_i wanted
    cases disabled
    exact .inr ⟨differs,.inl ⟨rfl,wanted,rfl⟩⟩
  rename_i unwanted
  split at disabled
  · rename_i empty
    cases disabled
    exact .inr ⟨differs,.inr ⟨rfl,not_not.mp unwanted,empty,rfl⟩⟩
  · rename_i kept
    cases disabled
    exact .inl ⟨rfl,.inr ⟨not_not.mp unwanted,kept⟩⟩

theorem disable_traceable (p : Process) (i : Instrumentation) (method : Address) :
    Runtime.traceable { p.runtime with
      classes := (disableMethodTracing .kMiniTracerInstrumentationKey p.runtime.instrumentation p.runtime.classes).2.1
      instrumentation := i } method = p.runtime.traceable method := by
  obtain ⟨f,classes,keeps⟩ := configureStubs_classes .kMiniTracerInstrumentationKey .nothing p.runtime.instrumentation
    p.runtime.classes
  rw [Runtime.traceable,Runtime.traceable,accessFlagsOf_eq,accessFlagsOf_eq,disableMethodTracing,classes,
    List.flatMap_map]
  simp only [flags_of_shape (keeps _)]

theorem stopWalk_records_iff (p : Process) (threads : List ThreadStack) (calls : List TraceCall)
    (walked : p.stopWalk = .ok (threads,calls)) : (∃ call ∈ calls, call.traceable = true) ↔ p.RecordsLate := by
  have marks := p.disable_traceable
  unfold stopWalk at walked
  generalize disabled :
    disableMethodTracing .kMiniTracerInstrumentationKey p.runtime.instrumentation p.runtime.classes = outcome
    at walked marks
  obtain ⟨i,classes,walk⟩ := outcome
  dsimp only at walked marks
  split at walked
  · cases walked
  rename_i final events walks
  cases walked
  obtain ⟨reported,-⟩ := walkStacks_events walk p.listeners i p.threads threads events walks
  have told : (∃ call ∈ events.flatMap
      (p.listeners.deliver { p.runtime with classes := classes, instrumentation := i }), call.traceable = true) ↔
      p.listeners.shouldNotifyMethodEnterExitEvents i = true ∧ ∃ event, walk.Reports p.threads event ∧
        .miniTrace ∈ p.listeners.ofEvent event ∧ p.runtime.traceable event.method = true := by
    simp only [List.mem_flatMap,Listeners.deliver_eq,List.mem_replicate,ne_eq,List.count_eq_zero,not_not,reported]
    constructor
    · rintro ⟨call,⟨event,⟨notify,reports⟩,listens,rfl⟩,traceable⟩
      rw [traceCall_traceable,marks] at traceable
      exact ⟨notify,event,reports,listens,traceable⟩
    · rintro ⟨notify,event,reports,listens,traceable⟩
      refine ⟨_,⟨event,⟨notify,reports⟩,listens,rfl⟩,?_⟩
      rw [traceCall_traceable,marks]
      exact traceable
  rw [told,shouldNotify_iff,RecordsLate,ExitsLate,EntersLate]
  obtain ⟨rfl,quiet⟩ | ⟨differs,⟨rfl,wanted,stubs⟩ | ⟨rfl,unwanted,empty,stubs⟩⟩ :=
    p.disable_cases i classes walk disabled
  · constructor
    · rintro ⟨-,event,reports,-⟩
      exact reports.elim
    · rintro ⟨-,differs,⟨unwanted,empty,-⟩ | ⟨level,-⟩⟩
      · obtain same | ⟨-,kept⟩ := quiet
        · exact absurd same differs
        · exact absurd empty kept
      · obtain same | ⟨unwanted,-⟩ := quiet
        · exact absurd same differs
        · rw [unwanted] at level
          cases level
  · constructor
    · rintro ⟨⟨-,debugger,interpreter⟩,event,⟨thread,member,method,entering,rfl⟩,listens,traceable⟩
      rw [stubs,decide_eq_false_iff_not] at interpreter
      have level : p.othersLevel = .withInstrumentationStubs := by
        cases others : p.othersLevel <;> simp_all
      exact ⟨debugger,differs,.inr ⟨level,listens,thread,member,method,entering,traceable⟩⟩
    · rintro ⟨debugger,-,⟨unwanted,-⟩ | ⟨level,listens,thread,member,method,entering,traceable⟩⟩
      · exact absurd unwanted wanted
      · refine ⟨⟨.inl (List.ne_nil_of_mem listens),debugger,?_⟩,.entered thread.tid method,
          ⟨thread,member,method,entering,rfl⟩,listens,traceable⟩
        rw [stubs,level]
        rfl
  · constructor
    · rintro ⟨⟨-,debugger,-⟩,event,⟨thread,member,method,exiting,rfl⟩,listens,traceable⟩
      exact ⟨debugger,differs,.inl ⟨unwanted,empty,listens,thread,member,method,exiting,traceable⟩⟩
    · rintro ⟨debugger,-,⟨-,-,listens,thread,member,method,exiting,traceable⟩ | ⟨level,-⟩⟩
      · exact ⟨⟨.inr (List.ne_nil_of_mem listens),debugger,stubs⟩,.exited thread.tid method 0,
          ⟨thread,member,method,exiting,rfl⟩,listens,traceable⟩
      · rw [unwanted] at level
        cases level

/-- With reliable writes, a buffer that can be parsed and methods and fields that can be printed, `Stop` returns if the
walk of the stacks does. -/
theorem stop_returns (texts : MemberTexts) (p : Process) (threads : List ThreadStack) (calls : List TraceCall)
    (active : p.runtime.theTrace ≠ none) (ready : Ready p.session) (readable : AllReadable p.session)
    (members : ∀ kind member, Seen kind p.session member → texts.isMember kind member = true)
    (walked : p.stopWalk = .ok (threads,calls)) (wellFormed : ∀ call ∈ calls, call.WellFormed) :
    ∃ flushed final info, Flushed p.session flushed ∧ logAll calls flushed = .ok final.session ∧
      p.stop texts = .ok (final,info) := by
  obtain ⟨flushed,flush⟩ := flushBuffer_total p.session ready.reliable readable
  have clean := flushBuffer_flushed p.session flushed flush
  have reads : texts.Reads flushed.toMiniTrace :=
    fun kind member visited => members kind member ((clean.visited_iff kind member).mp visited)
  obtain ⟨session,logged,-⟩ := logAll_total calls flushed (clean.ready ready) clean.readable wellFormed
  cases trace : p.runtime.theTrace with
  | none => exact absurd trace active
  | some object =>
    have returned : ∃ info, p.stop texts =
        .ok (⟨p.runtime.stop,session,p.listeners.removeListener .miniTrace object.events,threads⟩,info) :=
      ⟨_,by simp only [stop,trace,(finishTracing_eq_ok flush).mpr ⟨reads,rfl⟩,walked,logged]; rfl⟩
    obtain ⟨info,returned⟩ := returned
    exact ⟨flushed,_,info,clean,logged,returned⟩

/-- When `Stop` returns, the data file holds all records placed in the buffer before and during it
exactly when the walk of the stacks has nothing to tell that is recorded; and `Stop` returns if the
checks of this walk hold and what the records name can be printed. -/
theorem stop_keeps_records_iff (texts : MemberTexts) (p : Process) (active : p.runtime.theTrace ≠ none)
    (ready : Ready p.session) :
    (∀ threads calls, AllReadable p.session →
      (∀ kind member, Seen kind p.session member → texts.isMember kind member = true) →
      p.stopWalk = .ok (threads,calls) → (∀ call ∈ calls, call.WellFormed) → ∃ final info,
        p.stop texts = .ok (final,info)) ∧
    ∀ final info, p.stop texts = .ok (final,info) → ∃ flushed log threads calls,
      finishTracing texts p.session = .ok (flushed,log) ∧ p.stopWalk = .ok (threads,calls) ∧
      (final.session.traceDataFile = content p.session ++ ((slotsOf calls flushed).take (room flushed)).flatten ↔
        ¬ p.RecordsLate) := by
  constructor
  · intro threads calls readable members walked wellFormed
    obtain ⟨flushed,final,info,-,-,returned⟩ :=
      p.stop_returns texts threads calls active ready readable members walked wellFormed
    exact ⟨final,info,returned⟩
  · intro final info returned
    obtain ⟨flushed,log,threads,calls,finished,-,walked,logged⟩ := stop_cases texts p final info active returned
    have clean := finishTracing_flushed texts p.session flushed log ready finished
    have flushedReady := clean.ready ready
    obtain ⟨finalReady,finalContent,-⟩ := logAll_content calls flushed final.session flushedReady logged
    refine ⟨flushed,log,threads,calls,finished,walked,?_⟩
    rw [← clean.content_eq,← finalContent,file_complete_iff final.session finalReady,
      logAll_empty_iff calls flushed final.session flushedReady clean.curOffset_eq logged,
      ← p.stopWalk_records_iff threads calls walked]
    simp

/-- A trace of the method at address 96 by one thread. -/
def tracedThread (thread : ThreadStack) (session : Session) : Process where
  runtime := (Runtime.fresh.startTrace ⟨7,1024,[['L','a']]⟩).define (compiledClass ['L','a',';']) .resolved
  session := session
  listeners := ⟨[.miniTrace],[.miniTrace],[.miniTrace],false⟩
  threads := [thread]

/-- The thread is in the compiled code of the method, with an exit stub. -/
def stubbedThread : Process :=
  tracedThread ⟨10,[.quick 96 .method instrumentationExitPc],[⟨96,5,1,false⟩]⟩ (.start 1024 [] [])

/-- The exit event of the restored stack stays in the buffer. -/
theorem stop_loses_exit_event : ∃ final info, stubbedThread.stop (blankTexts fun _ p => p == 96) = .ok (final,info) ∧
    final.session.traceDataFile = [] ∧ final.session.curOffset = 14 ∧ recordTid (lastSlot final.session) = 10 ∧
    decodeMiniTraceAction (recordWord (lastSlot final.session)) = .methodExit := by
  have ready : Ready stubbedThread.session := start_ready 1024 [] [] (by decide) (by decide)
  have walked : stubbedThread.stopWalk =
      .ok ([⟨10,[.quick 96 .method 5],[]⟩],[.method 10 96 (1 ||| kAccIsMiniTraceable) .methodExited 0]) := rfl
  obtain ⟨flushed,final,info,clean,logged,returned⟩ := stubbedThread.stop_returns _ _ _ (by decide) ready
    (start_readable 1024 [] []) (fun kind member seen => absurd seen (start_not_seen 1024 [] [] kind member)) walked
      (by decide)
  obtain ⟨next,first,last⟩ := logAll_cons _ _ _ _ logged
  cases last
  have empty := clean.curOffset_eq
  refine ⟨final,info,returned,?_⟩
  cases log_logs _ flushed final.session (clean.ready ready) first with
  | filtered untraceable same => exact absurd untraceable (by decide)
  | refused traceable exhausted same =>
    have full := exhausted.1
    have size := (clean.ready ready).size
    omega
  | appended action m accepts appended =>
    have size := (clean.ready ready).size
    have length := slot_length _ _ _ appended.fits
    obtain rfl : MiniTraceAction.methodExit = action := Option.some.inj accepts.2
    have same : m = flushed := by
      cases appended.opened with
      | fits => rfl
      | flushed _ full => omega
    subst same
    rw [appended.file,clean.file_eq,appended.curOffset,empty,appended.lastSlot_eq,record_tid _ length,
      record_action _ length _ _ (by decide)]
    decide

/-- The trace has recorded one read of the field at address 24, in a buffer of two slots. -/
def waitingRead : Session :=
  (log (.field 10 8 24 kAccIsMiniTraceable 5 true) (.start 28 [] [])).toOption.getD (.start 28 [] [])

/-- The thread is in the interpreter and the record waits. -/
def interpretedThread : Process := tracedThread ⟨10,[.shadow 96],[]⟩ waitingRead

theorem stop_keeps_waiting_record :
    logAll [.field 10 8 24 kAccIsMiniTraceable 5 true] (.start 28 [] []) = .ok interpretedThread.session ∧
    ∃ final info, interpretedThread.stop (blankTexts fun kind p => kind == .field && p == 24) = .ok (final,info) ∧
      final.session.traceDataFile = content interpretedThread.session ∧ final.session.traceDataFile.length = 14 := by
  have logged : logAll [.field 10 8 24 kAccIsMiniTraceable 5 true] (.start 28 [] []) =
    .ok interpretedThread.session := rfl
  have begins := start_ready 28 [] [] (by decide) (by decide)
  have ready := (logAll_content _ _ _ begins logged).1
  obtain ⟨returns,complete⟩ := stop_keeps_records_iff (blankTexts fun kind p => kind == .field && p == 24)
    interpretedThread
    (by decide) ready
  have walked : interpretedThread.stopWalk = .ok ([⟨10,[.shadow 96],[]⟩],[]) := rfl
  have members : ∀ kind p, Seen kind interpretedThread.session p → (kind == .field && p == 24) = true := by
    intro kind p seen
    rcases (logAll_seen _ _ _ begins logged (by decide) (by decide) kind p).mp seen with before | named
    · exact absurd before (start_not_seen 28 [] [] kind p)
    · obtain ⟨call,member,same,rfl⟩ := (mem_membersOf ..).mp named
      obtain rfl := List.mem_singleton.mp (List.mem_of_mem_filter (List.mem_of_mem_take member))
      cases same
      rfl
  obtain ⟨final,info,returned⟩ := returns _ _ (by decide) members walked nofun
  obtain ⟨flushed,log,threads,calls,-,same,iff⟩ := complete final info returned
  cases walked.symm.trans same
  have silent : ¬ interpretedThread.RecordsLate := by
    rintro ⟨-,-,⟨-,-,-,thread,member,method,exiting,-⟩ | ⟨level,-⟩⟩
    · obtain rfl := List.mem_singleton.mp member
      cases exiting
    · cases level
  have kept : final.session.traceDataFile = content interpretedThread.session := by simpa [slotsOf] using iff.mpr silent
  exact ⟨logged,final,info,returned,kept,by rw [kept]; decide⟩

end Process

end Aatt
