import Aatt.Class

/-! `Instrumentation`: the requested levels, the stub flags, and the entry points that installing
or removing stubs gives the methods of a class. There is no JIT (`GetJit()` is null). -/
namespace Aatt

inductive InstrumentationLevel where
  | nothing
  | withInstrumentationStubs
  | withInterpreter
  deriving DecidableEq, Repr

def InstrumentationLevel.max : InstrumentationLevel → InstrumentationLevel → InstrumentationLevel
  | .withInterpreter, _ => .withInterpreter
  | _, .withInterpreter => .withInterpreter
  | .withInstrumentationStubs, _ => .withInstrumentationStubs
  | _, .withInstrumentationStubs => .withInstrumentationStubs
  | .nothing, .nothing => .nothing

inductive ClientKey where
  | kMiniTracerInstrumentationKey
  | other (pointer : Nat)
  deriving DecidableEq, Repr

/-- The fields of `Instrumentation` that decide entry points. `deoptimizedMethods` holds
addresses. -/
structure Instrumentation where
  instrumentationStubsInstalled : Bool
  entryExitStubsInstalled : Bool
  interpreterStubsInstalled : Bool
  interpretOnly : Bool
  forcedInterpretOnly : Bool
  requestedLevels : List (ClientKey × InstrumentationLevel)
  deoptimizedMethods : List Address
  deriving DecidableEq, Repr

namespace Instrumentation

def isDeoptimized (i : Instrumentation) (method : ArtMethod) : Bool :=
  decide (method.address ∈ i.deoptimizedMethods)

def getCurrentInstrumentationLevel (i : Instrumentation) : InstrumentationLevel :=
  if i.interpreterStubsInstalled then .withInterpreter
  else if i.entryExitStubsInstalled then .withInstrumentationStubs
  else .nothing

end Instrumentation

/-- `ClassLinker::GetQuickOatCodeFor`, for a method that is not abstract. -/
def getQuickOatCodeFor (klass : Class) (method : ArtMethod) : EntryPoint :=
  if klass.isProxyClass then .quickProxyInvokeHandler else
  match method.oatCode with
  | some code => .compiled code
  | none => if method.isNative then .quickGenericJniStub else .quickToInterpreterBridge

def proxyDescriptor : List Char :=
  ['L','j','a','v','a','/','l','a','n','g','/','r','e','f','l','e','c','t','/','P','r','o','x','y',';']

/-- The method can be called before its class is initialized without going through the
resolution stub. -/
def callable (klass : Class) (method : ArtMethod) : Bool :=
  klass.isInitialized || !method.isStatic || method.isConstructor

/-- Methods whose stubs `InstallStubsForMethod` does not change. -/
def keepsStubs (klass : Class) (method : ArtMethod) : Bool :=
  method.isAbstract || klass.isProxyClass || (method.isConstructor && decide (klass.descriptor = proxyDescriptor))

/-- The entry point that `InstallStubsForMethod` chooses. -/
def stubFor (i : Instrumentation) (klass : Class) (method : ArtMethod) : EntryPoint :=
  if !i.entryExitStubsInstalled && !i.interpreterStubsInstalled then
    if (i.forcedInterpretOnly || i.isDeoptimized method) && !method.isNative then .quickToInterpreterBridge
    else if callable klass method then getQuickOatCodeFor klass method
    else .quickResolutionStub
  else
    if (i.interpreterStubsInstalled || i.forcedInterpretOnly || i.isDeoptimized method) && !method.isNative then
      .quickToInterpreterBridge
    else if callable klass method then
      if i.entryExitStubsInstalled then .quickInstrumentationEntryPoint else getQuickOatCodeFor klass method
    else .quickResolutionStub

def installStubsForMethod (i : Instrumentation) (klass : Class) (method : ArtMethod) : ArtMethod :=
  if keepsStubs klass method then method else method.setEntryPoint (stubFor i klass method)

theorem installStubsForMethod_isStatic (i : Instrumentation) (klass : Class) (method : ArtMethod) :
    (installStubsForMethod i klass method).isStatic = method.isStatic := by
  unfold installStubsForMethod
  split <;> rfl

def installStubsForClass (i : Instrumentation) (klass : Class) : Class :=
  if klass.isErroneous then klass
  else if !klass.isResolved then klass
  else if !klass.isMiniTraceable then klass
  else klass.mapMethods (installStubsForMethod i klass) (installStubsForMethod_isStatic i klass)

/-- `UpdateMethodsCode`: the entry point a method gets when the class linker has found its code. -/
def updateMethodsCode (i : Instrumentation) (method : ArtMethod) (quickCode : EntryPoint) : ArtMethod :=
  method.setEntryPoint <|
    if !i.instrumentationStubsInstalled then quickCode
    else if (i.interpreterStubsInstalled || i.isDeoptimized method) && !method.isNative then
      .quickToInterpreterBridge
    else if quickCode = .quickResolutionStub ∨ quickCode = .quickToInterpreterBridge then quickCode
    else if i.entryExitStubsInstalled then .quickInstrumentationEntryPoint
    else quickCode

/-- What `ConfigureStubs` does to the stack of every thread at its end. -/
inductive StackWalk where
  | none
  | install
  | restore
  deriving DecidableEq, Repr

def setLevel (key : ClientKey) (level : InstrumentationLevel) (levels : List (ClientKey × InstrumentationLevel)) :
    List (ClientKey × InstrumentationLevel) :=
  let others := levels.filter fun entry => entry.1 ≠ key
  if level = .nothing then others else others ++ [(key,level)]

def highestLevel (levels : List (ClientKey × InstrumentationLevel)) : InstrumentationLevel :=
  levels.foldl (fun level entry => level.max entry.2) .nothing

def configureStubs (key : ClientKey) (desired : InstrumentationLevel) (i : Instrumentation) (classes : List Class) :
    Instrumentation × List Class × StackWalk :=
  let levels := setLevel key desired i.requestedLevels
  let requested := highestLevel levels
  let i := { i with
    requestedLevels := levels
    interpretOnly := decide (requested = .withInterpreter) || i.forcedInterpretOnly }
  if requested = i.getCurrentInstrumentationLevel then (i,classes,.none)
  else if requested ≠ .nothing then
    let i := { i with
      interpreterStubsInstalled := decide (requested = .withInterpreter)
      entryExitStubsInstalled := true }
    ({ i with instrumentationStubsInstalled := true },classes.map (installStubsForClass i),.install)
  else
    let i := { i with interpreterStubsInstalled := false, entryExitStubsInstalled := false }
    if i.deoptimizedMethods = [] then
      ({ i with instrumentationStubsInstalled := false },classes.map (installStubsForClass i),.restore)
    else (i,classes.map (installStubsForClass i),.none)

def enableMethodTracing (key : ClientKey) (i : Instrumentation) (classes : List Class) :
    Instrumentation × List Class × StackWalk := configureStubs key .withInterpreter i classes

def disableMethodTracing (key : ClientKey) (i : Instrumentation) (classes : List Class) :
    Instrumentation × List Class × StackWalk := configureStubs key .nothing i classes

end Aatt
