import Aatt.Traceability

/-! Whether traced methods run in the interpreter. `Start` installs the stubs before it marks
classes, and `InstallStubsForClass` skips a class without a mark, so the methods of a class that
`Start` marks keep the entry points they had. -/
namespace Aatt

open Aatt.Lib

def ArtMethod.Interpreted (klass : Class) (method : ArtMethod) : Prop :=
  method.entryPoint = .quickToInterpreterBridge ∨
    (method.entryPoint = .quickResolutionStub ∧ method.isStatic ∧ method.isConstructor = false ∧
      klass.isInitialized = false)

instance (klass : Class) (method : ArtMethod) : Decidable (method.Interpreted klass) :=
  inferInstanceAs (Decidable (_ ∨ _))

/-- All methods of a resolved class that are not abstract, native, of a proxy class or `Proxy.<init>`. -/
def Class.Interpreted (klass : Class) : Prop :=
  klass.isResolved → klass.isErroneous = false → ∀ method ∈ klass.methods,
    keepsStubs klass method = false → method.isNative = false → method.Interpreted klass

instance (klass : Class) : Decidable klass.Interpreted :=
  inferInstanceAs (Decidable (_ → _ → ∀ method ∈ klass.methods, _))

/-- The stub flags are those of the highest requested level. -/
structure Instrumentation.Consistent (i : Instrumentation) : Prop where
  level : i.getCurrentInstrumentationLevel = highestLevel i.requestedLevels
  installed : i.getCurrentInstrumentationLevel ≠ .nothing → i.instrumentationStubsInstalled = true
  interpretOnly : i.interpretOnly = (decide (highestLevel i.requestedLevels = .withInterpreter) ||
    i.forcedInterpretOnly)

namespace Runtime

def TracedInterpreted (s : Runtime) : Prop :=
  s.theTrace ≠ none → ∀ klass ∈ s.classes, klass.isMiniTraceable → klass.Interpreted

/-- Each class that `Start` is about to mark for the first time has interpreted methods already. -/
def StartsInterpreted : Operation → Runtime → Prop
  | .start environment, s => ∀ config ∈ (s.decision environment).config?, ∀ klass ∈ s.classes,
    klass.isMiniTraceable = false → klass.excluded = false → doTrace (some config.whitelist) klass → klass.Interpreted
  | .stop, _ => True
  | .define .., _ => True
  | .ensureInitialized .., _ => True

instance : ∀ operation s, Decidable (StartsInterpreted operation s)
  | .start _, _ => inferInstanceAs (Decidable (∀ config ∈ _, ∀ klass ∈ _, _))
  | .stop, _ => isTrue trivial
  | .define .., _ => isTrue trivial
  | .ensureInitialized .., _ => isTrue trivial

end Runtime

theorem highestLevel_request (key : ClientKey) (levels : List (ClientKey × InstrumentationLevel)) :
    highestLevel (setLevel key .withInterpreter levels) = .withInterpreter := by
  simp only [highestLevel,setLevel,reduceCtorEq,if_false,List.foldl_append,List.foldl_cons,List.foldl_nil]
  generalize List.foldl _ _ _ = level
  cases level <;> rfl

theorem getCurrent_withInterpreter_iff (i : Instrumentation) :
    i.getCurrentInstrumentationLevel = .withInterpreter ↔ i.interpreterStubsInstalled = true := by
  unfold Instrumentation.getCurrentInstrumentationLevel
  split
  · simp [*]
  split <;> simp [*]

theorem configureStubs_consistent (key : ClientKey) (level : InstrumentationLevel) (i : Instrumentation)
    (classes : List Class) (consistent : i.Consistent) : (configureStubs key level i classes).1.Consistent := by
  unfold configureStubs
  dsimp only
  split
  · rename_i already
    exact ⟨already.symm,consistent.installed,rfl⟩
  split
  · rename_i wanted
    refine ⟨?_,fun _ => rfl,rfl⟩
    cases requested : highestLevel (setLevel key level i.requestedLevels) with
    | nothing => exact absurd requested wanted
    | withInstrumentationStubs => simp [Instrumentation.getCurrentInstrumentationLevel]
    | withInterpreter => simp [Instrumentation.getCurrentInstrumentationLevel]
  · rename_i unwanted
    rw [not_not] at unwanted
    split
    all_goals exact ⟨by simp [Instrumentation.getCurrentInstrumentationLevel,unwanted],
      fun wanted => absurd rfl wanted,rfl⟩

theorem enableMethodTracing_installs (key : ClientKey) (i : Instrumentation) (classes : List Class) :
    (enableMethodTracing key i classes).1.interpreterStubsInstalled = true := by
  simp only [enableMethodTracing,configureStubs,highestLevel_request,reduceCtorEq,ne_eq,not_false_eq_true,if_true,
    decide_true]
  split
  · rename_i already
    exact (getCurrent_withInterpreter_iff _).mp already.symm
  · rfl

/-- Interpreter stubs that are there in the end were there before and the classes stay as they are,
or they have been installed. -/
theorem configureStubs_interpreter (key : ClientKey) (level : InstrumentationLevel) (i : Instrumentation)
    (classes : List Class) (present : (configureStubs key level i classes).1.interpreterStubsInstalled = true) :
    i.interpreterStubsInstalled = true ∧ (configureStubs key level i classes).2.1 = classes ∨
      ∃ j : Instrumentation, j.interpreterStubsInstalled = true ∧
        (configureStubs key level i classes).2.1 = classes.map (installStubsForClass j) := by
  unfold configureStubs at present ⊢
  dsimp only at present ⊢
  split at present <;> rename_i already
  · rw [if_pos already]
    exact .inl ⟨present,rfl⟩
  · rw [if_neg already]
    split at present <;> rename_i wanted
    · rw [if_pos wanted]
      exact .inr ⟨_,present,rfl⟩
    · split at present <;> cases present

theorem installStubsForClass_unmarked (i : Instrumentation) (klass : Class) (unmarked : klass.isMiniTraceable = false) :
    installStubsForClass i klass = klass := by
  unfold installStubsForClass
  split
  · rfl
  split
  · rfl
  · simp [unmarked]

theorem stubFor_interpreter (i : Instrumentation) (klass : Class) (method : ArtMethod)
    (installed : i.interpreterStubsInstalled = true) (bytecode : method.isNative = false) :
    stubFor i klass method = .quickToInterpreterBridge := by
  simp [stubFor,installed,bytecode]

theorem installStubsForClass_interpreted (i : Instrumentation) (klass : Class)
    (installed : i.interpreterStubsInstalled = true) (marked : klass.isMiniTraceable = true) :
    (installStubsForClass i klass).Interpreted := by
  unfold installStubsForClass
  split
  · rename_i erroneous
    intro _ sound
    cases erroneous.symm.trans sound
  split
  · rename_i unresolved
    intro resolved
    simp [resolved] at unresolved
  · rw [if_neg (by simp [marked])]
    intro _ _ method member
    rw [mapMethods_methods] at member
    obtain ⟨original,-,rfl⟩ := List.mem_map.mp member
    unfold installStubsForMethod
    split <;> rename_i keeps
    · intro stubs
      cases keeps.symm.trans stubs
    · exact fun _ bytecode => .inl (stubFor_interpreter i klass original installed bytecode)

theorem mark_interpreted_iff (klass : Class) : klass.mark.Interpreted ↔ klass.Interpreted := by
  have native : ∀ method : ArtMethod, method.setIsMiniTraceable.isNative = method.isNative :=
    fun method => hasFlag_set method.accessFlags kAccNative (by decide)
  have constructor : ∀ method : ArtMethod, method.setIsMiniTraceable.isConstructor = method.isConstructor :=
    fun method => hasFlag_set method.accessFlags kAccConstructor (by decide)
  have stubs : ∀ method : ArtMethod, keepsStubs klass.mark method.setIsMiniTraceable = keepsStubs klass method := by
    intro method
    have abstract : method.setIsMiniTraceable.isAbstract = method.isAbstract :=
      hasFlag_set method.accessFlags kAccAbstract (by decide)
    have proxy : klass.mark.isProxyClass = klass.isProxyClass := hasFlag_set klass.accessFlags kAccClassIsProxy
      (by decide)
    simp only [keepsStubs,abstract,proxy,constructor]
    rfl
  have entry : ∀ method : ArtMethod, method.setIsMiniTraceable.Interpreted klass.mark ↔ method.Interpreted klass := by
    intro method
    simp only [ArtMethod.Interpreted,ArtMethod.setIsMiniTraceable_isStatic,constructor]
    exact Iff.rfl
  have methods : klass.mark.methods = klass.methods.map ArtMethod.setIsMiniTraceable :=
    mapMethods_methods _ ArtMethod.setIsMiniTraceable_isStatic klass
  simp only [Class.Interpreted,methods,List.forall_mem_map,native,stubs,entry]
  exact Iff.rfl

theorem postClassPrepare_interpreted_iff (whitelist : Option (List (List Char))) (klass : Class) :
    (postClassPrepare whitelist klass).Interpreted ↔ klass.Interpreted :=
  postClassPrepare_induction (motive := fun prepared => prepared.Interpreted ↔
    klass.Interpreted) whitelist klass Iff.rfl
    (mark_interpreted_iff klass)

/-- `LinkCode` under `interpret_only_`. -/
theorem linkCode_interpretOnly (i : Instrumentation) (flags : AccessFlags) (oatCode : Option Nat)
    (interpretOnly : i.interpretOnly = true) (bytecode : hasFlag flags kAccNative = false) :
    linkCode i flags oatCode = .quickToInterpreterBridge ∨
      (linkCode i flags oatCode = .quickResolutionStub ∧ hasFlag flags kAccStatic = true ∧
        hasFlag flags kAccConstructor = false) := by
  unfold linkCode
  dsimp only
  split
  · exact .inl rfl
  split
  · rename_i static
    rw [Bool.and_eq_true,Bool.not_eq_true'] at static
    exact .inr ⟨rfl,static⟩
  · simp [needsInterpreter,interpretOnly,bytecode]

theorem loadClass_interpreted (i : Instrumentation) (definition : ClassDef) (interpretOnly : i.interpretOnly = true) :
    (loadClass i definition .resolved).Interpreted := by
  intro _ _ method member _ bytecode
  have linked : ∀ source : MethodDef, (loadMethod i source).isNative = false →
      (loadMethod i source).Interpreted (loadClass i definition .resolved) := by
    intro source bytecode
    obtain bridge | ⟨stub,static,method⟩ := linkCode_interpretOnly i (methodFlags source) source.oatCode
      interpretOnly bytecode
    · exact .inl bridge
    · exact .inr ⟨stub,static,method,rfl⟩
  simp only [Class.methods,loadClass,List.mem_append,List.mem_map] at member
  obtain ⟨source,-,rfl⟩ | ⟨source,-,rfl⟩ | ⟨source,-,rfl⟩ := member
  · exact linked source bytecode
  · exact linked source bytecode
  · exact .inl rfl

theorem fixupStaticTrampolines_interpreted (i : Instrumentation) (klass : Class)
    (installed : i.interpreterStubsInstalled = true) (stubsInstalled : i.instrumentationStubsInstalled = true)
    (resolved : klass.isResolved = true) (interpreted : klass.Interpreted) :
    (fixupStaticTrampolines i { klass with status := .initialized }).Interpreted := by
  have sound : klass.isErroneous = false := by
    cases status : klass.status <;> simp_all [Class.isErroneous,Class.isResolved,Status.value]
  have other : ∀ method ∈ klass.methods, method.isStatic = false → keepsStubs klass method = false →
      method.isNative = false → method.entryPoint = .quickToInterpreterBridge := by
    intro method member nonStatic stubs bytecode
    obtain bridge | ⟨-,static,-⟩ := interpreted resolved sound method member stubs bytecode
    · exact bridge
    · cases nonStatic.symm.trans static
  intro _ _ method member stubs bytecode
  simp only [Class.methods,fixupStaticTrampolines,List.mem_append,List.mem_map] at member
  obtain ⟨original,direct,rfl⟩ | virtual := member
  · cases static : original.isStatic with
    | true =>
      simp only [static,if_true] at bytecode ⊢
      have notNative : original.isNative = false := bytecode
      left
      simp [updateMethodsCode,ArtMethod.setEntryPoint,installed,stubsInstalled,notNative]
    | false =>
      simp only [static,Bool.false_eq_true,if_false] at stubs bytecode ⊢
      exact .inl (other original (List.mem_append_left _ direct) static stubs bytecode)
  · exact .inl (other method (List.mem_append_right _ virtual) (klass.virtualInstance method virtual) stubs bytecode)

theorem initializeClass_interpreted (i : Instrumentation) (succeeds : Bool) (klass : Class)
    (installed : i.interpreterStubsInstalled = true) (stubsInstalled : i.instrumentationStubsInstalled = true)
    (interpreted : klass.Interpreted) : (Runtime.initializeClass i succeeds klass).Interpreted := by
  unfold Runtime.initializeClass
  split
  · exact interpreted
  · rename_i pending
    simp only [Bool.or_eq_true,Bool.not_eq_true',not_or,Bool.not_eq_false] at pending
    split
    · exact fixupStaticTrampolines_interpreted i klass installed stubsInstalled pending.1 interpreted
    · exact fun resolved => absurd resolved (by simp [Class.isResolved,Status.value])

/-- What `ConfigureStubs` has done to a class when the interpreter stubs are there in the end. -/
theorem configureStubs_interpreted (key : ClientKey) (level : InstrumentationLevel) (i : Instrumentation)
    (classes : List Class) (present : (configureStubs key level i classes).1.interpreterStubsInstalled = true) :
    ∃ f : Class → Class, (configureStubs key level i classes).2.1 = classes.map f ∧
      (∀ klass, klass.isMiniTraceable = false → f klass = klass) ∧
      ∀ klass, klass.isMiniTraceable = true → (f klass).isMiniTraceable = true ∧
        ((i.interpreterStubsInstalled = true → klass.Interpreted) → (f klass).Interpreted) := by
  obtain ⟨before,same⟩ | ⟨j,installed,mapped⟩ := configureStubs_interpreter key level i classes present
  · exact ⟨id,by simp [same],fun _ _ => rfl,fun _ marked => ⟨marked,fun interpreted => interpreted before⟩⟩
  · refine ⟨_,mapped,installStubsForClass_unmarked j,fun klass marked => ⟨?_,fun _ => ?_⟩⟩
    · exact (marked_of_shape (installStubsForClass_shape j klass)).trans marked
    · exact installStubsForClass_interpreted j klass installed marked

namespace Runtime

/-- The invariant of the runs: marked classes are interpreted as long as the interpreter stubs are
installed, for this trace or for another client. -/
structure Interpreting (s : Runtime) : Prop where
  consistent : s.instrumentation.Consistent
  requested : s.theTrace ≠ none → s.instrumentation.interpreterStubsInstalled = true
  interpreted : s.instrumentation.interpreterStubsInstalled = true →
    ∀ klass ∈ s.classes, klass.isMiniTraceable = true → klass.Interpreted

theorem Interpreting.interpretOnly {s : Runtime} (good : s.Interpreting)
    (installed : s.instrumentation.interpreterStubsInstalled = true) : s.instrumentation.interpretOnly = true := by
  rw [good.consistent.interpretOnly,← good.consistent.level,(getCurrent_withInterpreter_iff _).mpr installed]
  rfl

theorem Interpreting.stubsInstalled {s : Runtime} (good : s.Interpreting)
    (installed : s.instrumentation.interpreterStubsInstalled = true) :
    s.instrumentation.instrumentationStubsInstalled = true := by
  apply good.consistent.installed
  rw [(getCurrent_withInterpreter_iff _).mpr installed]
  nofun

theorem startTrace_interpreting_iff (s : Runtime) (config : Config) (good : s.Interpreting) :
    (s.startTrace config).TracedInterpreted ↔ ∀ klass ∈ s.classes, klass.isMiniTraceable = false →
      klass.excluded = false → doTrace (some config.whitelist) klass → klass.Interpreted := by
  obtain ⟨f,classes,skipped,stubbed⟩ := configureStubs_interpreted .kMiniTracerInstrumentationKey .withInterpreter
    s.instrumentation s.classes (enableMethodTracing_installs _ _ _)
  have after : (s.startTrace config).classes =
      (s.classes.map f).map (postClassPrepare (some config.whitelist)) := by
    rw [← classes]
    rfl
  constructor
  · intro traced klass member unmarked included wanted
    have marked : (postClassPrepare (some config.whitelist) (f klass)).isMiniTraceable = true := by
      simp [skipped klass unmarked,postClassPrepare_marked,included,wanted]
    have prepared := traced nofun _ (after ▸ List.mem_map_of_mem (List.mem_map_of_mem member)) marked
    rwa [postClassPrepare_interpreted_iff,skipped klass unmarked] at prepared
  · intro interpreted _
    simp only [after,List.forall_mem_map,postClassPrepare_interpreted_iff,postClassPrepare_marked]
    intro klass member marked
    cases before : klass.isMiniTraceable with
    | true => exact (stubbed klass before).2 fun installed => good.interpreted installed klass member before
    | false =>
      rw [skipped klass before] at marked ⊢
      simp only [before,Bool.false_or,Bool.and_eq_true,Bool.not_eq_true'] at marked
      exact interpreted klass member before marked.1 marked.2

theorem startTrace_interpreting (s : Runtime) (config : Config) (good : s.Interpreting)
    (traced : (s.startTrace config).TracedInterpreted) : (s.startTrace config).Interpreting where
  consistent := configureStubs_consistent _ _ _ s.classes good.consistent
  requested _ := enableMethodTracing_installs _ _ s.classes
  interpreted _ := traced nofun

theorem stop_interpreting (s : Runtime) (good : s.Interpreting) : s.stop.Interpreting := by
  unfold stop
  split
  · exact good
  · refine ⟨configureStubs_consistent _ _ _ s.classes good.consistent,fun running => absurd rfl running,
      fun installed => ?_⟩
    obtain ⟨f,classes,skipped,stubbed⟩ := configureStubs_interpreted .kMiniTracerInstrumentationKey .nothing
      s.instrumentation s.classes installed
    show ∀ klass ∈ (configureStubs .kMiniTracerInstrumentationKey .nothing s.instrumentation s.classes).2.1, _
    simp only [classes,List.forall_mem_map]
    intro klass member marked
    cases before : klass.isMiniTraceable with
    | true => exact (stubbed klass before).2 fun installed => good.interpreted installed klass member before
    | false => 
      rw [skipped klass before] at marked
      cases before.symm.trans marked

theorem define_interpreting (s : Runtime) (definition : ClassDef) (outcome : DefineOutcome) (good : s.Interpreting) :
    (s.define definition outcome).Interpreting := by
  have appended : ∀ added : Class, (s.instrumentation.interpreterStubsInstalled = true → added.Interpreted) →
      Interpreting { s with classes := s.classes ++ [added] } := by
    intro added interpreted
    refine ⟨good.consistent,good.requested,fun installed => ?_⟩
    simp only [List.forall_mem_append,List.forall_mem_singleton]
    exact ⟨good.interpreted installed,fun _ => interpreted installed⟩
  unfold define
  split
  · exact good
  cases outcome with
  | failed => exact appended _ fun _ resolved => absurd resolved (by simp [Class.isResolved,loadClass,Status.value])
  | resolved =>
    refine appended _ fun installed => ?_
    rw [postClassPrepare_interpreted_iff,installStubsForClass_unmarked _ _ (loadClass_unmarked _ _ _),ite_self]
    exact loadClass_interpreted s.instrumentation definition (good.interpretOnly installed)

theorem ensureInitialized_interpreting (s : Runtime) (descriptor : List Char) (classLoader : Nat) (succeeds : Bool)
    (good : s.Interpreting) : (s.ensureInitialized descriptor classLoader succeeds).Interpreting := by
  refine ⟨good.consistent,good.requested,fun installed => ?_⟩
  simp only [ensureInitialized,List.forall_mem_map]
  intro klass member marked
  split at marked <;> rename_i named
  · rw [if_pos named]
    rw [(initializeClass_sameMark s.instrumentation succeeds klass).marked] at marked
    exact initializeClass_interpreted s.instrumentation succeeds klass installed (good.stubsInstalled installed)
      (good.interpreted installed klass member marked)
  · rw [if_neg named]
    exact good.interpreted installed klass member marked

/-- From an untraced runtime, with any other clients, traced classes run in the interpreter after every
operation exactly when no `Start` marks a class with other entry points. -/
theorem traced_interpreted_iff (operations : List Operation) (s : Runtime) (untraced : s.Untraced)
    (consistent : s.instrumentation.Consistent) :
    Throughout step TracedInterpreted operations s ↔ EachStep step StartsInterpreted operations s := by
  refine throughout_iff_each Interpreting TracedInterpreted ?_ ?_ ?_ operations s ?_
  · exact fun s good running => good.interpreted (good.requested running)
  · intro operation s next good condition taken
    cases operation with
    | start environment =>
      obtain ⟨-,rfl⟩ | ⟨config,proceeds,-,rfl⟩ := start_cases environment s next taken
      · exact good
      · exact startTrace_interpreting s config good
          ((startTrace_interpreting_iff s config good).mpr (condition config proceeds))
    | stop =>
      cases taken
      exact stop_interpreting s good
    | define definition outcome =>
      cases taken
      exact define_interpreting s definition outcome good
    | ensureInitialized descriptor classLoader succeeds =>
      cases taken
      exact ensureInitialized_interpreting s descriptor classLoader succeeds good
  · intro operation s next good taken traced
    cases operation with
    | start environment =>
      intro config proceeds
      obtain ⟨ignored,-⟩ | ⟨started,chosen,-,rfl⟩ := start_cases environment s next taken
      · cases ignored.symm.trans proceeds
      · cases chosen.symm.trans proceeds
        exact (startTrace_interpreting_iff s config good).mp traced
    | stop => trivial
    | define _ _ => trivial
    | ensureInitialized _ _ _ => trivial
  · exact ⟨consistent,fun running => absurd untraced.theTrace running,
      fun _ klass member marked => by simp [untraced.unmarked klass member] at marked⟩

/-- A class is defined, and `Start` marks it: it is traced and its method still has its code. -/
theorem start_leaves_compiled_code : fresh.Untraced ∧ fresh.instrumentation.Consistent ∧ ∃ final,
    run step [.define (compiledClass ['L','a',';']) .resolved,.start (including ['L','a'])] fresh = some final ∧
      final.theTrace ≠ none ∧ ∃ klass ∈ final.classes, klass.isMiniTraceable = true ∧ klass.isResolved = true ∧
        ∃ method ∈ klass.methods, keepsStubs klass method = false ∧ method.isNative = false ∧
          method.entryPoint = .compiled 7 := by
  refine ⟨⟨rfl,rfl,nofun,nofun⟩,⟨rfl,nofun,rfl⟩,_,rfl,?_,?_⟩ <;> decide

/-- A class defined and initialized during a trace, and a second trace with the same class. -/
def interpretedRun : List Operation :=
  [.define (compiledClass ['L','b',';']) .resolved,.start (including ['L','a']),
    .define (compiledClass ['L','a',';']) .resolved,.ensureInitialized ['L','a',';'] 1 true,.stop,
    .start (including ['L','a'])]

theorem traced_interpreted_two_traces : Throughout step TracedInterpreted interpretedRun fresh :=
  (traced_interpreted_iff interpretedRun fresh ⟨rfl,rfl,nofun,nofun⟩ ⟨rfl,nofun,rfl⟩).mpr
    (eachStep_of_check StartsInterpreted interpretedRun fresh (by decide))

end Runtime

end Aatt
