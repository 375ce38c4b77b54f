import Aatt.ClassLinker

/-! The runtime as the tracer changes it: the class table, the instrumentation and the trace
that is in progress, under the operations that start and stop a trace and define and initialize
classes. Each operation runs to its end before the next one. -/
namespace Aatt

/-- What is kept of the `MiniTrace` object here. -/
structure TraceObject where
  events : BitVec 32
  bufferSize : BitVec 32
  deriving DecidableEq, Repr

structure Runtime where
  classes : List Class
  instrumentation : Instrumentation
  theTrace : Option TraceObject
  whitelist : Option (List (List Char))
  deriving DecidableEq, Repr

inductive ConfigFile where
  | missing
  | unreadable
  | content (content : List Char)
  deriving DecidableEq, Repr

/-- What `Start` finds: its configuration file, and whether its two output files can be created. -/
structure StartEnvironment where
  configFile : ConfigFile
  infoFileCreated : Bool
  dataFileCreated : Bool
  deriving DecidableEq, Repr

/-- How far `DefineClass` gets: an exception while loading or linking leaves the class in the
table with an error status. -/
inductive DefineOutcome where
  | resolved
  | failed
  deriving DecidableEq, Repr

inductive Operation where
  | start (environment : StartEnvironment)
  | stop
  | define (definition : ClassDef) (outcome : DefineOutcome)
  | ensureInitialized (descriptor : List Char) (classLoader : Nat) (succeeds : Bool)
  deriving DecidableEq, Repr

namespace Runtime

/-- The part of `Start` that runs with all threads suspended. -/
def startTrace (config : Config) (s : Runtime) : Runtime :=
  let (i,classes,_) := enableMethodTracing .kMiniTracerInstrumentationKey s.instrumentation s.classes
  { classes := classes.map (postClassPrepare (some config.whitelist))
    instrumentation := i
    theTrace := some ⟨config.events,config.bufferSize⟩
    whitelist := some config.whitelist }

/-- What `Start` decides before it touches the runtime: return, end the process, or start with a
configuration. -/
inductive Decision where
  | ignore
  | abort
  | proceed (config : Config)
  deriving DecidableEq, Repr

def Decision.config? : Decision → Option Config
  | .proceed config => some config
  | _ => none

def decision (environment : StartEnvironment) (s : Runtime) : Decision :=
  if s.theTrace.isSome then .ignore else
  match environment.configFile with
  | .missing | .unreadable => .ignore
  | .content content =>
    match parse content with
    | .off => .ignore
    | .outOfRange => .abort
    | .config config =>
      if !environment.infoFileCreated then .ignore
      -- the info file is destroyed without having been closed, and its destructor checks that
      else if !environment.dataFileCreated then .abort
      else .proceed config

/-- `MiniTrace::Start`; no result if the process ends. -/
def start (environment : StartEnvironment) (s : Runtime) : Option Runtime :=
  match s.decision environment with
  | .ignore => some s
  | .abort => none
  | .proceed config => some (s.startTrace config)

/-- `MiniTrace::Stop`, without the log files. -/
def stop (s : Runtime) : Runtime :=
  if s.theTrace.isNone then s else
  let (i,classes,_) := disableMethodTracing .kMiniTracerInstrumentationKey s.instrumentation s.classes
  { classes := classes, instrumentation := i, theTrace := none, whitelist := none }

def contains (s : Runtime) (descriptor : List Char) (classLoader : Nat) : Bool :=
  s.classes.any fun klass => klass.descriptor = descriptor && klass.classLoader = classLoader

/-- `ClassLinker::DefineClass`. A class that is in the table already is returned as it is. -/
def define (definition : ClassDef) (outcome : DefineOutcome) (s : Runtime) : Runtime :=
  if s.contains definition.descriptor definition.classLoader then s else
  match outcome with
  | .failed => { s with classes := s.classes ++ [loadClass s.instrumentation definition .error] }
  | .resolved =>
    let klass := loadClass s.instrumentation definition .resolved
    let klass := if s.instrumentation.instrumentationStubsInstalled then
      installStubsForClass s.instrumentation klass else klass
    { s with classes := s.classes ++ [postClassPrepare s.whitelist klass] }

/-- The end of `ClassLinker::InitializeClass` for a class that can be initialized. -/
def initializeClass (i : Instrumentation) (succeeds : Bool) (klass : Class) : Class :=
  if !klass.isResolved || klass.isInitialized then klass
  else if succeeds then fixupStaticTrampolines i { klass with status := .initialized }
  else { klass with status := .error }

def ensureInitialized (descriptor : List Char) (classLoader : Nat) (succeeds : Bool) (s : Runtime) : Runtime :=
  { s with classes := s.classes.map fun klass =>
      if klass.descriptor = descriptor ∧ klass.classLoader = classLoader then
        initializeClass s.instrumentation succeeds klass
      else klass }

def step : Operation → Runtime → Option Runtime
  | .start environment, s => s.start environment
  | .stop, s => some s.stop
  | .define definition outcome, s => some (s.define definition outcome)
  | .ensureInitialized descriptor classLoader succeeds, s =>
    some (s.ensureInitialized descriptor classLoader succeeds)

theorem decision_inactive (environment : StartEnvironment) (s : Runtime) (config : Config)
    (proceeds : s.decision environment = .proceed config) : s.theTrace = none := by
  unfold decision at proceeds
  cases active : s.theTrace with
  | none => rfl
  | some trace =>
    rw [active] at proceeds
    cases proceeds

/-- A `Start` that returns leaves the runtime alone or begins a trace. -/
theorem start_cases (environment : StartEnvironment) (s next : Runtime) (taken : s.start environment = some next) :
    (s.decision environment).config? = none ∧ next = s ∨
      ∃ config, (s.decision environment).config? = some config ∧ s.theTrace = none ∧ next = s.startTrace config := by
  unfold start at taken
  cases chosen : s.decision environment with
  | ignore =>
    simp only [chosen,Option.some.injEq] at taken
    exact .inl ⟨rfl,taken.symm⟩
  | abort => simp [chosen] at taken
  | proceed config =>
    simp only [chosen,Option.some.injEq] at taken
    exact .inr ⟨config,rfl,decision_inactive environment s config chosen,taken.symm⟩

end Runtime

/-- Forgetting the entry points of a class: what the mark and the whitelist depend on. -/
def Class.shape (klass : Class) : Class :=
  klass.mapMethods (fun method => method.setEntryPoint .quickToInterpreterBridge)
    fun method => method.setEntryPoint_isStatic .quickToInterpreterBridge

theorem mapMethods_shape (klass : Class) (f : ArtMethod → ArtMethod)
    (keepsStatic : ∀ method, (f method).isStatic = method.isStatic)
    (keeps : ∀ method, (f method).setEntryPoint .quickToInterpreterBridge =
      method.setEntryPoint .quickToInterpreterBridge) : (klass.mapMethods f keepsStatic).shape = klass.shape := by
  simp only [Class.shape,Class.mapMethods,List.map_map,Class.mk.injEq,true_and,and_true]
  exact ⟨List.map_congr_left fun method _ => keeps method,List.map_congr_left fun method _ => keeps method⟩

theorem installStubsForClass_shape (i : Instrumentation) (klass : Class) :
    (installStubsForClass i klass).shape = klass.shape := by
  unfold installStubsForClass
  split
  · rfl
  split
  · rfl
  split
  · rfl
  · refine mapMethods_shape klass _ _ fun method => ?_
    unfold installStubsForMethod
    split <;> rfl

theorem fixupStaticTrampolines_shape (i : Instrumentation) (klass : Class) :
    (fixupStaticTrampolines i klass).shape = klass.shape := by
  simp only [fixupStaticTrampolines,Class.shape,Class.mapMethods,List.map_map,Class.mk.injEq,true_and,and_true]
  refine List.map_congr_left fun method _ => ?_
  simp only [Function.comp_apply]
  split <;> rfl

theorem configureStubs_classes (key : ClientKey) (level : InstrumentationLevel) (i : Instrumentation)
    (classes : List Class) : ∃ f : Class → Class, (configureStubs key level i classes).2.1 = classes.map f ∧
      ∀ klass, (f klass).shape = klass.shape := by
  unfold configureStubs
  dsimp only
  split
  · exact ⟨id,by simp,fun _ => rfl⟩
  split
  · exact ⟨_,rfl,installStubsForClass_shape _⟩
  split
  · exact ⟨_,rfl,installStubsForClass_shape _⟩
  · exact ⟨_,rfl,installStubsForClass_shape _⟩

/-- A started runtime with an empty class table and no instrumentation. -/
def Runtime.fresh : Runtime := ⟨[],⟨false,false,false,false,false,[],[]⟩,none,none⟩

/-- `Include` with the given prefix, and both output files can be created. -/
def including (entry : List Char) : StartEnvironment :=
  ⟨.content (['I','n','c','l','u','d','e',' '] ++ entry ++ ['\n']),true,true⟩

/-- A class of an application with one compiled virtual method. -/
def compiledClass (descriptor : List Char) : ClassDef :=
  ⟨descriptor,1,['/','a'],1#32,[],[⟨96,1#32,false,some 7⟩],[],[2#32],[],by decide⟩

end Aatt
