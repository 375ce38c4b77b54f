import Aatt.InfoLog
import Aatt.Runtime

/-! Listeners and thread stacks: what `ConfigureStubs` does to the stack of every thread and which
method events that delivers, and `Start` and `Stop` with the listener and the buffer. `MiniTrace`
reads neither the receiver nor the dex pc of a method event, so frames have none here. -/
namespace Aatt

inductive Listener where
  | miniTrace
  | other (pointer : Nat)
  deriving DecidableEq, Repr

/-- The listener lists for method events. A `have_..._listeners_` flag says that its list is not empty. -/
structure Listeners where
  methodEntry : List Listener
  methodExit : List Listener
  methodUnwind : List Listener
  deoptimizationEnabled : Bool
  deriving DecidableEq, Repr

namespace Listeners

def addTo (wanted : Bool) (listener : Listener) (listeners : List Listener) : List Listener :=
  if wanted then listeners ++ [listener] else listeners

def removeFrom (wanted : Bool) (listener : Listener) (listeners : List Listener) : List Listener :=
  if wanted then listeners.filter (· ≠ listener) else listeners

/-- `HasEvent`. The bits of `MiniTrace` for method events are those of the instrumentation. -/
def hasEvent (expected events : BitVec 32) : Bool := events &&& expected != 0

def addListener (listener : Listener) (events : BitVec 32) (l : Listeners) : Listeners :=
  { l with
    methodEntry := addTo (hasEvent kDoMethodEntered events) listener l.methodEntry
    methodExit := addTo (hasEvent kDoMethodExited events) listener l.methodExit
    methodUnwind := addTo (hasEvent kDoMethodUnwind events) listener l.methodUnwind }

def removeListener (listener : Listener) (events : BitVec 32) (l : Listeners) : Listeners :=
  { l with
    methodEntry := removeFrom (hasEvent kDoMethodEntered events) listener l.methodEntry
    methodExit := removeFrom (hasEvent kDoMethodExited events) listener l.methodExit
    methodUnwind := removeFrom (hasEvent kDoMethodUnwind events) listener l.methodUnwind }

def shouldNotifyMethodEnterExitEvents (l : Listeners) (i : Instrumentation) : Bool :=
  if l.methodEntry.isEmpty && l.methodExit.isEmpty then false
  else !l.deoptimizationEnabled && !i.interpreterStubsInstalled

end Listeners

/-- A method event of the instrumentation, before it goes to the listeners. -/
inductive MethodEvent where
  | entered (thread : BitVec 32) (method : Address)
  | exited (thread : BitVec 32) (method : Address) (returnValue : BitVec 64)
  | unwind (thread : BitVec 32) (method : Address)
  deriving DecidableEq, Repr

/-- The access flags behind a method pointer; a runtime method has no mark. -/
def Runtime.accessFlagsOf (s : Runtime) (method : Address) : AccessFlags :=
  match (s.classes.flatMap Class.methods).find? (·.address = method) with
  | some found => found.accessFlags
  | none => 0

/-- The call of `LogMethodTraceEvent` in the callback for the event. -/
def MethodEvent.traceCall (s : Runtime) : MethodEvent → TraceCall
  | .entered thread method => .method thread method (s.accessFlagsOf method) .methodEntered 0
  | .exited thread method returnValue => .method thread method (s.accessFlagsOf method) .methodExited returnValue
  | .unwind thread method => .method thread method (s.accessFlagsOf method) .methodUnwind 0

def Listeners.ofEvent (l : Listeners) : MethodEvent → List Listener
  | .entered .. => l.methodEntry
  | .exited .. => l.methodExit
  | .unwind .. => l.methodUnwind

/-- What reaches `MiniTrace`: one callback for each time it is in the list of the event. -/
def Listeners.deliver (l : Listeners) (s : Runtime) (event : MethodEvent) : List TraceCall :=
  (l.ofEvent event).filterMap fun listener => if listener = .miniTrace then some (event.traceCall s) else none

inductive QuickMethod where
  | method
  | refsAndArgs
  | otherRuntimeMethod
  deriving DecidableEq, Repr

/-- A frame as a `StackVisitor` meets it. -/
inductive StackFrame where
  | upcall
  | shadow (method : Address)
  | quick (method : Address) (kind : QuickMethod) (returnPc : Nat)
  deriving DecidableEq, Repr

structure InstrumentationStackFrame where
  method : Address
  returnPc : Nat
  frameId : Nat
  interpreterEntry : Bool
  deriving DecidableEq, Repr

/-- Frames from the top of the stack downwards. `GetFrameId` counts them from the bottom, starting with
1; the instrumentation stack is in descending order of these ids. -/
structure ThreadStack where
  tid : BitVec 32
  frames : List StackFrame
  instrumentationStack : List InstrumentationStackFrame
  deriving DecidableEq, Repr

/-- `GetQuickInstrumentationExitPc()`. -/
def instrumentationExitPc : Nat := 1

/-- A `CHECK`. -/
def check (condition : Bool) : Except Halt Unit := if condition then .ok () else .error .fatal

/-- The fields of `InstallStackVisitor` that its visits change. `depth` is also the number of dex pcs
that have been collected. -/
structure InstallStackVisitor where
  instrumentationStack : List InstrumentationStackFrame
  shadowStack : List (Nat × Address)
  reachedExistingInstrumentationFrames : Bool
  depth : Nat

/-- Instrumentation stack frames are in descending frame id order. -/
def insertFrame (frame : InstrumentationStackFrame) : List InstrumentationStackFrame → List InstrumentationStackFrame
  | [] => [frame]
  | current :: rest =>
    if frame.frameId ≥ current.frameId then frame :: current :: rest else current :: insertFrame frame rest

/-- `InstallStackVisitor::VisitFrame`: the visitor and the frame afterwards. -/
def installFrame (v : InstallStackVisitor) (frameId : Nat) (frame : StackFrame) :
    Except Halt (InstallStackVisitor × StackFrame) :=
  match frame with
  | .upcall => .ok (v,frame)
  | .shadow method => .ok ({ v with shadowStack := v.shadowStack ++ [(frameId,method)] },frame)
  | .quick method kind returnPc => do
    if kind ≠ .method then
      if returnPc ≠ instrumentationExitPc then
        return (v,frame)
      match v.instrumentationStack[v.depth]? with
      | none => .error .fatal
      | some existing =>
        check existing.interpreterEntry
        return ({ v with depth := v.depth + 1 },frame)
    else if returnPc = instrumentationExitPc then
      match v.instrumentationStack[v.depth]? with
      | none => .error .fatal
      | some existing =>
        check (existing.method = method)
        return ({ v with reachedExistingInstrumentationFrames := true, depth := v.depth + 1 },frame)
    else
      check (returnPc ≠ 0)
      check !v.reachedExistingInstrumentationFrames
      return ({ v with
        instrumentationStack := insertFrame ⟨method,returnPc,frameId,false⟩ v.instrumentationStack
        depth := v.depth + 1 },.quick method kind instrumentationExitPc)

def installFrames (v : InstallStackVisitor) : List StackFrame → Except Halt (InstallStackVisitor × List StackFrame)
  | [] => .ok (v,[])
  | frame :: rest => do
    let (v,frame) ← installFrame v (rest.length + 1) frame
    let (v,rest) ← installFrames v rest
    return (v,frame :: rest)

/-- The methods for which `InstrumentationInstallStack` creates enter events, from the bottom of the
stack upwards. Shadow frames above the topmost instrumentation frame get none. -/
def enteredMethods : List InstrumentationStackFrame → List (Nat × Address) → List Address
  | [], _ => []
  | frame :: rest, shadows =>
    (shadows.takeWhile (·.1 < frame.frameId)).map Prod.snd ++ (if frame.interpreterEntry then [] else [frame.method]) ++
      enteredMethods rest (shadows.dropWhile (·.1 < frame.frameId))

def instrumentationInstallStack (notify : Bool) (thread : ThreadStack) :
    Except Halt (ThreadStack × List MethodEvent) := do
  let (v,frames) ← installFrames ⟨thread.instrumentationStack,[],false,0⟩ thread.frames
  check (v.depth = v.instrumentationStack.length)
  let events := if notify then
    (enteredMethods v.instrumentationStack.reverse v.shadowStack.reverse).map (.entered thread.tid) else []
  return (⟨thread.tid,frames,v.instrumentationStack⟩,events)

/-- `RestoreStackVisitor::VisitFrame`: the frame afterwards and the method whose exit stub is gone. -/
def restoreFrame (stack : List InstrumentationStackFrame) (frameId : Nat) (frame : StackFrame) :
    Except Halt (StackFrame × Option Address) :=
  match frame with
  | .upcall | .shadow _ => .ok (frame,none)
  | .quick method kind _ =>
    match stack.find? (·.frameId = frameId) with
    | none => .ok (frame,none)
    | some removed => do
      check (if removed.interpreterEntry then kind = .refsAndArgs else removed.method = method)
      return (.quick method kind removed.returnPc,some method)

def restoreFrames (stack : List InstrumentationStackFrame) : List StackFrame →
    Except Halt (List StackFrame × List Address)
  | [] => .ok ([],[])
  | frame :: rest => do
    let (frame,removed) ← restoreFrame stack (rest.length + 1) frame
    let (rest,others) ← restoreFrames stack rest
    return (frame :: rest,removed.toList ++ others)

/-- The methods did not really exit, so the result of the exit events is 0. -/
def instrumentationRestoreStack (notify : Bool) (thread : ThreadStack) : Except Halt (ThreadStack × List MethodEvent) :=
  if thread.instrumentationStack.isEmpty then .ok (thread,[]) else do
  let (frames,removed) ← restoreFrames thread.instrumentationStack thread.frames
  check (removed.length = thread.instrumentationStack.length)
  return (⟨thread.tid,frames,[]⟩,if notify then removed.map (.exited thread.tid · 0) else [])

def forEachThread (f : ThreadStack → Except Halt (ThreadStack × List MethodEvent)) :
    List ThreadStack → Except Halt (List ThreadStack × List MethodEvent)
  | [] => .ok ([],[])
  | thread :: rest => do
    let (thread,events) ← f thread
    let (rest,later) ← forEachThread f rest
    return (thread :: rest,events ++ later)

/-- The end of `ConfigureStubs`, with the flags as it has set them. -/
def walkStacks (walk : StackWalk) (l : Listeners) (i : Instrumentation) (threads : List ThreadStack) :
    Except Halt (List ThreadStack × List MethodEvent) :=
  let notify := l.shouldNotifyMethodEnterExitEvents i
  match walk with
  | .none => .ok (threads,[])
  | .install => forEachThread (instrumentationInstallStack notify) threads
  | .restore => forEachThread (instrumentationRestoreStack notify) threads

/-- The runtime together with the trace object, the listeners and the threads. -/
structure Process where
  runtime : Runtime
  session : Session
  listeners : Listeners
  threads : List ThreadStack

namespace Process

/-- The part of `Start` that runs with all threads suspended, and the callbacks it makes: the classes
are marked after the stacks have been walked. No buffer can be made with a negative size. -/
def startTrace (config : Config) (writes : List WriteOutcome) (spurious : List Bool) (p : Process) :
    Except Halt (Process × List TraceCall) := do
  check (0 ≤ config.bufferSize.toInt)
  let listeners := p.listeners.addListener .miniTrace config.events
  let (i,classes,walk) := enableMethodTracing .kMiniTracerInstrumentationKey p.runtime.instrumentation p.runtime.classes
  let (threads,events) ← walkStacks walk listeners i p.threads
  let calls := events.flatMap (listeners.deliver { p.runtime with classes := classes, instrumentation := i })
  let session ← logAll calls (.start config.bufferSize.toNat writes spurious)
  return (⟨p.runtime.startTrace config,session,listeners,threads⟩,calls)

/-- The callbacks of `DisableMethodTracing`, and the stacks after it. -/
def stopWalk (p : Process) : Except Halt (List ThreadStack × List TraceCall) :=
  let (i,classes,walk) := disableMethodTracing .kMiniTracerInstrumentationKey p.runtime.instrumentation
    p.runtime.classes
  match walkStacks walk p.listeners i p.threads with
  | .error halt => .error halt
  | .ok (threads,events) =>
    .ok (threads,events.flatMap (p.listeners.deliver { p.runtime with classes := classes, instrumentation := i }))

/-- `MiniTrace::Stop`: the trace is finished first, and the listener removed last. -/
def stop (texts : MemberTexts) (p : Process) : Except Halt (Process × Option InfoLog) :=
  match p.runtime.theTrace with
  | none => .ok (p,none)
  | some trace =>
    match finishTracing texts p.session with
    | .error halt => .error halt
    | .ok (session,info) =>
      match p.stopWalk with
      | .error halt => .error halt
      | .ok (threads,calls) =>
        match logAll calls session with
        | .error halt => .error halt
        | .ok session => .ok (⟨p.runtime.stop,session,p.listeners.removeListener .miniTrace trace.events,threads⟩,
          some info)

end Process

end Aatt
