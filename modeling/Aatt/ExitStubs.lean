import Aatt.Lib.Transition
import Aatt.Stacks

/-! Exit stubs on the stack of a thread. A frame with a stub returns to `GetQuickInstrumentationExitPc()`, and the pc
to which it would have returned is on the instrumentation stack. Calls, returns, exceptions, the installation of stubs
on frames that exist and their removal may follow each other in any order. The exit stub of a method whose caller has
to continue in the interpreter returns to the deoptimization entry point, which replaces the frames down to the upcall
by shadow frames. -/
namespace Aatt

open Aatt.Lib

/-- The result of `PopInstrumentationStackFrame`: a pc, or the deoptimization entry point with the pc for the link
register. -/
inductive Return where
  | to (pc : Nat)
  | deoptimize (lr : Nat)
  deriving DecidableEq, Repr

def Return.pc : Return → Nat
  | .to pc | .deoptimize pc => pc

/-- A thread and its stubs, with what the exit stub reads of the instrumentation. `returned` is where the last frame has
returned to. -/
structure Stubbed where
  thread : ThreadStack
  exitStubsInstalled : Bool
  interpreterStubsInstalled : Bool
  deoptimizedMethods : List Address
  returned : Option Return
  halted : Bool
  deriving DecidableEq, Repr

def StackFrame.isQuick : StackFrame → Bool
  | .quick _ _ _ => true
  | _ => false

/-- `GetMethod`, which has no method for an upcall. -/
def StackFrame.method? : StackFrame → Option Address
  | .upcall => none
  | .shadow method | .quick method _ _ => some method

def StackFrame.returnPc? : StackFrame → Option Nat
  | .quick _ _ returnPc => some returnPc
  | _ => none

/-- The frames with the return pcs that `WalkStack` finds. Of the other callee-save methods, only `kSaveAll` can have a
stub. -/
def walkFrames (stack : List InstrumentationStackFrame) : Nat → List StackFrame → Except Halt (List StackFrame)
  | _,[] => .ok []
  | depth,.quick method kind returnPc :: rest =>
    if returnPc = instrumentationExitPc then
      match stack[depth]? with
      | none => .error .fatal
      | some frame => do
        check (if kind = .otherRuntimeMethod then true
          else if frame.interpreterEntry then kind = .refsAndArgs else frame.method = method)
        check (frame.frameId = rest.length + 1)
        return .quick method kind frame.returnPc :: (← walkFrames stack (depth + 1) rest)
    else do return .quick method kind returnPc :: (← walkFrames stack depth rest)
  | depth,frame :: rest => do return frame :: (← walkFrames stack depth rest)

def walkStack (exitStubsInstalled : Bool) (thread : ThreadStack) : Except Halt (List StackFrame) :=
  if exitStubsInstalled then walkFrames thread.instrumentationStack 0 thread.frames else .ok thread.frames

/-- `PushInstrumentationStackFrame`, called by the entry stub with a callee-save frame where the frame of the method
will be. -/
def pushInstrumentationStackFrame (thread : ThreadStack) (method : Address) (lr : Nat) (interpreterEntry : Bool) :
    List InstrumentationStackFrame :=
  ⟨method,lr,thread.frames.length + 1,interpreterEntry⟩ :: thread.instrumentationStack

/-- Whether a method is to be continued in the interpreter. `forced` is the answer of the debugger. -/
def Stubbed.interpreted (m : Stubbed) (forced : Bool) (method : Address) : Bool :=
  m.interpreterStubsInstalled || m.deoptimizedMethods.contains method || forced

/-- `PopInstrumentationStackFrame`, called by the exit stub with a callee-save frame where the frame of the method was.
`below` are the frames of the callers. -/
def popInstrumentationStackFrame (m : Stubbed) (forced : Bool) (below : List StackFrame) :
    Except Halt (Return × List InstrumentationStackFrame) :=
  match m.thread.instrumentationStack with
  | [] => .error .fatal
  | frame :: rest => do
    check (frame.frameId = below.length + 1)
    let deoptimize := (below.head?.bind StackFrame.method?).any (m.interpreted forced)
    return (if deoptimize then .deoptimize frame.returnPc else .to frame.returnPc,rest)

/-- `PopMethodForUnwind`, as often as `UpdateInstrumentationStack` calls it. -/
def popMethodsForUnwind : Nat → List InstrumentationStackFrame → Except Halt (List InstrumentationStackFrame)
  | 0,stack => .ok stack
  | _ + 1,[] => .error .fatal
  | n + 1,_ :: rest => popMethodsForUnwind n rest

def instrumentationFramesToPop (frames : List StackFrame) : Nat :=
  frames.countP (·.returnPc? == some instrumentationExitPc)

namespace Stubbed

def start (tid : BitVec 32) : Stubbed := ⟨⟨tid,[],[]⟩,false,false,[],none,false⟩

/-- A new frame, with the instrumentation stack as it then is. -/
def push (m : Stubbed) (frame : StackFrame) (stack : List InstrumentationStackFrame) : Stubbed :=
  { m with thread := ⟨m.thread.tid,frame :: m.thread.frames,stack⟩ }

def leave (m : Stubbed) (frames : List StackFrame) (stack : List InstrumentationStackFrame) (returned : Option Return) :
    Stubbed :=
  { m with thread := ⟨m.thread.tid,frames,stack⟩, returned := returned }

def halt (m : Stubbed) : Stubbed := { m with halted := true }

/-- The last frame has returned to the deoptimization entry point. -/
def deoptimizing (m : Stubbed) : Bool :=
  match m.returned with
  | some (.deoptimize _) => true
  | _ => false

end Stubbed

inductive StackAction where
  | call (method : Address) (kind : QuickMethod) (lr : Nat)
  | enter (method : Address) (lr : Nat) (interpreterEntry : Bool)
  | interpret (method : Address)
  | upcall
  | leave (forced : Bool)
  | throw (depth : Nat)
  | deoptimize
  | install
  | restore
  | configure (interpreterStubsInstalled : Bool) (deoptimizedMethods : List Address)
  deriving DecidableEq, Repr

def StackAction.continues : StackAction → Bool
  | .call _ _ _ | .enter _ _ _ | .interpret _ | .upcall | .leave _ | .throw _ => true
  | _ => false

/-- A pc in compiled code, to which a call from there returns. -/
def realPc (lr : Nat) : Prop := lr ≠ 0 ∧ lr ≠ instrumentationExitPc

instance (lr : Nat) : Decidable (realPc lr) := inferInstanceAs (Decidable (_ ∧ _))

/-- The frame of a method that is entered through the entry stub, or of the bridge to the interpreter. -/
def enteredFrame (method : Address) (interpreterEntry : Bool) (returnPc : Nat) : StackFrame :=
  .quick method (if interpreterEntry then .refsAndArgs else .method) returnPc

def leaveFrame (m : Stubbed) (forced : Bool) : List StackFrame → Option Stubbed
  | [] => none
  | .quick _ _ returnPc :: rest =>
    if returnPc = instrumentationExitPc then
      match popInstrumentationStackFrame m forced rest with
      | .error _ => some m.halt
      | .ok (returned,stack) => some (m.leave rest stack (some returned))
    else some (m.leave rest m.thread.instrumentationStack (some (.to returnPc)))
  | _ :: rest => some (m.leave rest m.thread.instrumentationStack none)

/-- An exception reaches a handler below some quick frames. -/
def throwTo (m : Stubbed) (depth : Nat) : Option Stubbed :=
  let gone := m.thread.frames.take depth
  if depth < m.thread.frames.length ∧ gone.all StackFrame.isQuick then
    match popMethodsForUnwind (if m.exitStubsInstalled then instrumentationFramesToPop gone else 0)
        m.thread.instrumentationStack with
    | .error _ => some m.halt
    | .ok stack => some (m.leave (m.thread.frames.drop depth) stack none)
  else none

/-- The shadow frames that `DeoptimizeStackVisitor` makes of the frames above the upcall. -/
def shadowFrames : List StackFrame → List StackFrame
  | .quick method .method _ :: rest => .shadow method :: shadowFrames rest
  | .quick _ _ _ :: rest => shadowFrames rest
  | _ => []

/-- The frames above the upcall are removed, as an exception would remove them, and continue in the interpreter. -/
def deoptimizeStack (m : Stubbed) : Option Stubbed :=
  let depth := (m.thread.frames.takeWhile StackFrame.isQuick).length
  if (m.thread.frames.drop depth).head? = some .upcall then
    (throwTo m depth).map fun next =>
      next.leave (shadowFrames m.thread.frames ++ next.thread.frames) next.thread.instrumentationStack none
  else none

/-- A call goes through the entry stub, or straight to compiled code or to a runtime method; the entry stub is the code
of a method only while the stubs are installed. -/
def advance (m : Stubbed) : StackAction → Option Stubbed
  | .call method kind lr => if realPc lr then some (m.push (.quick method kind lr) m.thread.instrumentationStack)
    else none
  | .enter method lr interpreterEntry =>
    if m.exitStubsInstalled ∧ realPc lr then
      some (m.push (enteredFrame method interpreterEntry instrumentationExitPc)
        (pushInstrumentationStackFrame m.thread method lr interpreterEntry))
    else none
  | .interpret method => some (m.push (.shadow method) m.thread.instrumentationStack)
  | .upcall => some (m.push .upcall m.thread.instrumentationStack)
  | .leave forced => leaveFrame m forced m.thread.frames
  | .throw depth => throwTo m depth
  | .deoptimize => deoptimizeStack m
  | .install =>
    match instrumentationInstallStack false m.thread with
    | .error _ => some m.halt
    | .ok (thread,_) => some { m with thread := thread, exitStubsInstalled := true }
  | .restore =>
    match instrumentationRestoreStack false m.thread with
    | .error _ => some m.halt
    | .ok (thread,_) => some { m with thread := thread, exitStubsInstalled := false }
  | .configure interpreterStubs methods =>
    some { m with interpreterStubsInstalled := interpreterStubs, deoptimizedMethods := methods }

/-- After a return to the deoptimization entry point the thread deoptimizes. -/
def stackStep (action : StackAction) (m : Stubbed) : Option Stubbed :=
  if m.halted || m.deoptimizing && action.continues then none else advance m action

structure Unstubbed where
  frames : List StackFrame
  returned : Option Nat
  deriving DecidableEq, Repr

def Unstubbed.push (p : Unstubbed) (frame : StackFrame) : Unstubbed := { p with frames := frame :: p.frames }

def plainStep (action : StackAction) (p : Unstubbed) : Option Unstubbed :=
  match action with
  | .call method kind lr => if realPc lr then some (p.push (.quick method kind lr)) else none
  | .enter method lr interpreterEntry => if realPc lr then some (p.push (enteredFrame method interpreterEntry lr))
    else none
  | .interpret method => some (p.push (.shadow method))
  | .upcall => some (p.push .upcall)
  | .leave _ =>
    match p.frames with
    | [] => none
    | frame :: rest => some ⟨rest,frame.returnPc?⟩
  | .throw depth =>
    if depth < p.frames.length ∧ (p.frames.take depth).all StackFrame.isQuick then
      some ⟨p.frames.drop depth,none⟩ else none
  | .deoptimize =>
    let depth := (p.frames.takeWhile StackFrame.isQuick).length
    if (p.frames.drop depth).head? = some .upcall then
      some ⟨shadowFrames p.frames ++ p.frames.drop depth,none⟩ else none
  | .install | .restore | .configure _ _ => some p

theorem ok_bind {α β : Type} (x : α) (f : α → Except Halt β) : (Except.ok x >>= f) = f x := rfl

theorem error_bind {α β : Type} (h : Halt) (f : α → Except Halt β) : (Except.error h >>= f) = .error h := rfl

/-- The frame that an entry of the instrumentation stack belongs to. -/
def InstrumentationStackFrame.Fits (entry : InstrumentationStackFrame) (method : Address) (kind : QuickMethod) : Prop :=
  entry.interpreterEntry = true ∧ kind = .refsAndArgs ∨ entry.interpreterEntry = false ∧ kind = .method ∧
    entry.method = method

/-- The frames without stubs, the frames with them, and the instrumentation stack. -/
inductive Mirrors : List StackFrame → List StackFrame → List InstrumentationStackFrame → Prop where
  | nil : Mirrors [] [] []
  | bare {frame : StackFrame} {plain frames : List StackFrame} {stack : List InstrumentationStackFrame} :
    (∀ pc, frame.returnPc? = some pc → realPc pc) → Mirrors plain frames stack →
      Mirrors (frame :: plain) (frame :: frames) stack
  | stub {entry : InstrumentationStackFrame} {method : Address} {kind : QuickMethod} {plain frames : List StackFrame}
      {stack : List InstrumentationStackFrame} :
    realPc entry.returnPc → entry.frameId = frames.length + 1 → entry.Fits method kind → Mirrors plain frames stack →
      Mirrors (.quick method kind entry.returnPc :: plain) (.quick method kind instrumentationExitPc :: frames)
        (entry :: stack)

def StackFrame.hasStub : StackFrame → Bool
  | .quick _ .method returnPc => returnPc == instrumentationExitPc
  | _ => false

def StackFrame.lacksStub : StackFrame → Bool
  | .quick _ .method returnPc => returnPc != instrumentationExitPc
  | _ => false

theorem StackFrame.lacksStub_exit (method : Address) (kind : QuickMethod) :
    (StackFrame.quick method kind instrumentationExitPc).lacksStub = false := by
  cases kind with
  | method => simp [StackFrame.lacksStub]
  | refsAndArgs => rfl
  | otherRuntimeMethod => rfl

/-- Below a frame of a method that has a stub, no frame of a method is without one. -/
def gapFree : Bool → List StackFrame → Bool
  | _,[] => true
  | reached,.quick _ .method returnPc :: rest =>
    if returnPc = instrumentationExitPc then gapFree true rest else !reached && gapFree reached rest
  | reached,_ :: rest => gapFree reached rest

namespace Mirrors

variable {plain frames : List StackFrame} {stack above : List InstrumentationStackFrame}

theorem id_le (mirrors : Mirrors plain frames stack) : ∀ entry ∈ stack, entry.frameId ≤ frames.length := by
  induction mirrors with
  | nil => simp
  | bare _ _ ih =>
    intro entry member
    have := ih entry member
    simp only [List.length_cons]
    omega
  | stub _ id _ _ ih =>
    intro entry member
    simp only [List.length_cons]
    rcases List.mem_cons.mp member with rfl | older
    · omega
    · have := ih entry older
      omega

theorem plain_eq (mirrors : Mirrors plain frames []) : plain = frames := by
  generalize empty : ([] : List InstrumentationStackFrame) = stack at mirrors
  induction mirrors with
  | nil => rfl
  | bare _ _ ih => rw [ih empty]
  | stub => cases empty

theorem unstub (mirrors : Mirrors plain frames stack) : Mirrors plain plain [] := by
  induction mirrors with
  | nil => exact .nil
  | bare own _ ih => exact ih.bare own
  | stub real _ _ _ ih =>
    refine .bare ?_ ih
    intro pc own
    cases own
    exact real

/-- `WalkStack` sees the frames as they are without stubs. -/
theorem walk (mirrors : Mirrors plain frames stack) (above : List InstrumentationStackFrame) :
    walkFrames (above ++ stack) above.length frames = .ok plain := by
  induction mirrors generalizing above with
  | nil => rfl
  | @bare frame _ _ _ own _ ih =>
    cases frame with
    | upcall => simp [walkFrames,ih]
    | shadow method => simp [walkFrames,ih]
    | quick method kind pc => simp [walkFrames,(own pc rfl).2,ih]
  | @stub entry method kind _ _ _ _ id fits _ ih =>
    have rest := ih (above ++ [entry])
    simp only [List.append_assoc,List.singleton_append,List.length_append,List.length_singleton] at rest
    rcases fits with ⟨interpreted,rfl⟩ | ⟨compiled,rfl,rfl⟩
    · simp [walkFrames,check,interpreted,id,rest,ok_bind]
    · simp [walkFrames,check,compiled,id,rest,ok_bind]

theorem find_above {id : Nat} (higher : ∀ entry ∈ above, id < entry.frameId) : above.find? (·.frameId = id) = none := by
  apply List.find?_eq_none.mpr
  intro entry member
  simpa using (higher entry member).ne'

theorem find_none (mirrors : Mirrors plain frames stack) (higher : ∀ entry ∈ above, frames.length + 1 < entry.frameId) :
    (above ++ stack).find? (·.frameId = frames.length + 1) = none := by
  have below : stack.find? (·.frameId = frames.length + 1) = none := by
    apply List.find?_eq_none.mpr
    intro entry member
    simpa using (Nat.lt_succ_of_le (mirrors.id_le entry member)).ne
  simp [List.find?_append,find_above higher,below]

theorem find_self (stack : List InstrumentationStackFrame) {entry : InstrumentationStackFrame}
    (id : entry.frameId = frames.length + 1) (higher : ∀ entry ∈ above, frames.length + 1 < entry.frameId) :
    (above ++ entry :: stack).find? (·.frameId = frames.length + 1) = some entry := by
  simp [List.find?_append,find_above higher,id]

/-- The entries that a visit has passed belong to the frames above, the last of them to the frame it is at. -/
theorem higher_concat {entry : InstrumentationStackFrame} (higher : ∀ entry ∈ above, frames.length + 1 < entry.frameId)
    (id : entry.frameId = frames.length + 1) : ∀ other ∈ above ++ [entry], frames.length < other.frameId := by
  intro other member
  rcases List.mem_append.mp member with new | own
  · exact Nat.lt_of_succ_lt (higher other new)
  · rw [List.mem_singleton.mp own,id]
    exact Nat.lt_succ_self _

/-- `RestoreStackVisitor` gives every frame its pc back, and meets every entry. -/
theorem restore (mirrors : Mirrors plain frames stack) (above : List InstrumentationStackFrame)
    (higher : ∀ entry ∈ above, frames.length < entry.frameId) :
    ∃ removed, restoreFrames (above ++ stack) frames = .ok (plain,removed) ∧ removed.length = stack.length := by
  induction mirrors generalizing above with
  | nil => exact ⟨[],rfl,rfl⟩
  | @bare frame plain frames stack own mirrors ih =>
    simp only [List.length_cons] at higher
    obtain ⟨removed,run,count⟩ := ih above (fun entry new => Nat.lt_of_succ_lt (higher entry new))
    refine ⟨removed,?_,count⟩
    cases frame with
    | upcall => simp [restoreFrames,restoreFrame,run,ok_bind]
    | shadow method => simp [restoreFrames,restoreFrame,run,ok_bind]
    | quick method kind pc => simp [restoreFrames,restoreFrame,mirrors.find_none higher,run,ok_bind]
  | @stub entry method kind plain frames stack real id fits mirrors ih =>
    simp only [List.length_cons] at higher
    obtain ⟨removed,run,count⟩ := ih (above ++ [entry]) (higher_concat higher id)
    simp only [List.append_assoc,List.singleton_append] at run
    refine ⟨method :: removed,?_,by simp [count]⟩
    have found := find_self stack id higher
    rcases fits with ⟨interpreted,rfl⟩ | ⟨compiled,rfl,rfl⟩
    · simp [restoreFrames,restoreFrame,found,check,interpreted,run,ok_bind]
    · simp [restoreFrames,restoreFrame,found,check,compiled,run,ok_bind]

theorem insertFrame_between (frame : InstrumentationStackFrame)
    (higher : ∀ entry ∈ above, frame.frameId < entry.frameId)
    (lower : ∀ entry ∈ stack, entry.frameId ≤ frame.frameId) : insertFrame frame (above ++ stack) = above ++
      frame :: stack := by
  induction above with
  | nil =>
    cases stack with
    | nil => rfl
    | cons entry rest => simp [insertFrame,lower entry List.mem_cons_self]
  | cons entry rest ih =>
    have later : ¬entry.frameId ≤ frame.frameId := by
      have := higher entry List.mem_cons_self
      omega
    simp [insertFrame,later,ih fun other member => higher other (List.mem_cons_of_mem _ member)]

/-- The outcome of a visit: the frames have stubs as the stack says, or the visit has halted. -/
def Installs (plain : List StackFrame) (above : List InstrumentationStackFrame) (length : Nat) (free : Bool)
    (outcome : Except Halt (InstallStackVisitor × List StackFrame)) : Prop :=
  if free then
    ∃ v frames stack, outcome = .ok (v,frames) ∧ v.instrumentationStack = above ++ stack ∧
      v.depth = v.instrumentationStack.length ∧
      frames.length = length ∧ (∀ frame ∈ frames, frame.lacksStub = false) ∧ Mirrors plain frames stack
  else outcome = .error .fatal

variable {v next : InstallStackVisitor} {free : Bool}

theorem installs_bare {frame : StackFrame} (own : ∀ pc, frame.returnPc? = some pc → realPc pc)
    (exempt : frame.lacksStub = false) (visited : installFrame v (frames.length + 1) frame = .ok (next,frame))
    (rest : Installs plain above frames.length free (installFrames next frames)) :
    Installs (frame :: plain) above (frames.length + 1) free (installFrames v (frame :: frames)) := by
  cases free with
  | true =>
    obtain ⟨w,frames',stack,run,whole,depth,length,stubs,mirrors⟩ := rest
    refine ⟨w,frame :: frames',stack,?_,whole,depth,?_,?_,mirrors.bare own⟩
    · simp [installFrames,visited,run,ok_bind]
    · simp [length]
    · exact List.forall_mem_cons.mpr ⟨exempt,stubs⟩
  | false =>
    change installFrames next frames = .error .fatal at rest
    simp [Installs,installFrames,visited,rest,ok_bind]

theorem installs_stub (entry : InstrumentationStackFrame) {method : Address} {kind : QuickMethod} {pc : Nat}
    (real : realPc entry.returnPc) (id : entry.frameId = frames.length + 1) (fits : entry.Fits method kind)
    (visited : installFrame v (frames.length + 1) (.quick method kind pc) =
      .ok (next,.quick method kind instrumentationExitPc))
    (rest : Installs plain (above ++ [entry]) frames.length free (installFrames next frames)) :
    Installs (.quick method kind entry.returnPc :: plain) above (frames.length + 1) free
      (installFrames v (.quick method kind pc :: frames)) := by
  cases free with
  | true =>
    obtain ⟨w,frames',stack,run,whole,depth,length,stubs,mirrors⟩ := rest
    refine ⟨w,.quick method kind instrumentationExitPc :: frames',entry :: stack,?_,?_,depth,?_,?_,?_⟩
    · simp [installFrames,visited,run,ok_bind]
    · simp [whole]
    · simp [length]
    · exact List.forall_mem_cons.mpr ⟨StackFrame.lacksStub_exit method kind,stubs⟩
    · exact mirrors.stub real (by rw [id,length]) fits
  | false =>
    change installFrames next frames = .error .fatal at rest
    simp [Installs,installFrames,visited,rest,ok_bind]

/-- `InstallStackVisitor` gives every frame of a method a stub, or halts at a gap. -/
theorem install (mirrors : Mirrors plain frames stack) (above : List InstrumentationStackFrame)
    (shadows : List (Nat × Address)) (reached : Bool) (higher : ∀ entry ∈ above, frames.length < entry.frameId) :
    Installs plain above frames.length (gapFree reached frames)
      (installFrames ⟨above ++ stack,shadows,reached,above.length⟩ frames) := by
  induction mirrors generalizing above shadows reached with
  | nil => exact ⟨_,[],[],rfl,rfl,by simp,rfl,by simp,.nil⟩
  | @bare frame plain frames stack own mirrors ih =>
    simp only [List.length_cons] at higher
    have onward : ∀ entry ∈ above, frames.length < entry.frameId := fun entry new =>
      Nat.lt_of_succ_lt (higher entry new)
    cases frame with
    | upcall => exact installs_bare own rfl rfl (ih above shadows reached onward)
    | shadow method => exact installs_bare own rfl rfl (ih above _ reached onward)
    | quick method kind pc =>
      obtain ⟨stubbed,other⟩ := own pc rfl
      cases kind with
      | refsAndArgs => exact installs_bare own rfl (by simp [installFrame,other]; rfl) (ih above shadows reached onward)
      | otherRuntimeMethod =>
        exact installs_bare own rfl (by simp [installFrame,other]; rfl) (ih above shadows reached onward)
      | method =>
        cases reached with
        | true => simp [Installs,gapFree,other,installFrames,installFrame,check,stubbed,ok_bind,error_bind]
        | false =>
          have entered : insertFrame ⟨method,pc,frames.length + 1,false⟩ (above ++ stack) =
              above ++ ⟨method,pc,frames.length + 1,false⟩ :: stack :=
            insertFrame_between _ higher fun entry old => Nat.le_succ_of_le (mirrors.id_le entry old)
          have rest := ih (above ++ [⟨method,pc,frames.length + 1,false⟩]) shadows false (higher_concat higher rfl)
          simp only [List.append_assoc,List.singleton_append,List.length_append,List.length_singleton] at rest
          have free : gapFree false (.quick method .method pc :: frames) = gapFree false frames :=
            by simp [gapFree,other]
          rw [free]
          exact installs_stub ⟨method,pc,frames.length + 1,false⟩ (own pc rfl) rfl (.inr ⟨rfl,rfl,rfl⟩)
            (by simp [installFrame,other,check,stubbed,entered,ok_bind]) rest
  | @stub entry method kind plain frames stack real id fits mirrors ih =>
    simp only [List.length_cons] at higher
    have onward := higher_concat higher id
    rcases fits with ⟨interpreted,rfl⟩ | ⟨compiled,rfl,rfl⟩
    · have rest := ih (above ++ [entry]) shadows reached onward
      simp only [List.append_assoc,List.singleton_append,List.length_append,List.length_singleton] at rest
      exact installs_stub entry real id (.inl ⟨interpreted,rfl⟩) (by simp [installFrame,check,interpreted]) rest
    · have rest := ih (above ++ [entry]) shadows true onward
      simp only [List.append_assoc,List.singleton_append,List.length_append,List.length_singleton] at rest
      have free : gapFree reached (.quick entry.method .method instrumentationExitPc :: frames) =
        gapFree true frames := by
        simp [gapFree]
      rw [free]
      exact installs_stub entry real id (.inr ⟨compiled,rfl,rfl⟩) (by simp [installFrame,check]) rest

theorem length_eq (mirrors : Mirrors plain frames stack) : plain.length = frames.length := by
  induction mirrors with
  | nil => rfl
  | bare _ _ ih => simp [ih]
  | stub _ _ _ _ ih => simp [ih]

theorem isQuick_take (mirrors : Mirrors plain frames stack) (depth : Nat) :
    (plain.take depth).all StackFrame.isQuick = (frames.take depth).all StackFrame.isQuick := by
  induction mirrors generalizing depth with
  | nil => rfl
  | bare _ _ ih =>
    cases depth with
    | zero => rfl
    | succ depth => simp [ih]
  | stub _ _ _ _ ih =>
    cases depth with
    | zero => rfl
    | succ depth => simp [ih,StackFrame.isQuick]

/-- `UpdateInstrumentationStack` removes the entries of the frames that an exception skips. -/
theorem unwind (mirrors : Mirrors plain frames stack) (depth : Nat) :
    ∃ left, popMethodsForUnwind (instrumentationFramesToPop (frames.take depth)) stack = .ok left ∧
      Mirrors (plain.drop depth) (frames.drop depth) left := by
  induction mirrors generalizing depth with
  | nil => exact ⟨[],by simp [instrumentationFramesToPop,popMethodsForUnwind],by simpa using .nil⟩
  | @bare frame plain frames stack own mirrors ih =>
    cases depth with
    | zero => exact ⟨stack,rfl,mirrors.bare own⟩
    | succ depth =>
      have uncounted : ¬frame.returnPc? = some instrumentationExitPc := fun stubbed => (own _ stubbed).2 rfl
      simpa [instrumentationFramesToPop,List.countP_cons,uncounted] using ih depth
  | @stub entry method kind plain frames stack real id fits mirrors ih =>
    cases depth with
    | zero => exact ⟨entry :: stack,rfl,mirrors.stub real id fits⟩
    | succ depth =>
      simpa [instrumentationFramesToPop,List.countP_cons,StackFrame.returnPc?,popMethodsForUnwind] using ih depth

theorem quick_length (mirrors : Mirrors plain frames stack) :
    (plain.takeWhile StackFrame.isQuick).length = (frames.takeWhile StackFrame.isQuick).length := by
  induction mirrors with
  | nil => rfl
  | @bare frame _ _ _ _ _ ih => cases frame <;> simp [List.takeWhile_cons,StackFrame.isQuick,ih]
  | stub _ _ _ _ ih => simp [List.takeWhile_cons,StackFrame.isQuick,ih]

theorem shadowFrames_eq (mirrors : Mirrors plain frames stack) : shadowFrames plain = shadowFrames frames := by
  have quick (method : Address) (kind : QuickMethod) (pc pc' : Nat) {plain frames : List StackFrame}
      (same : shadowFrames plain = shadowFrames frames) :
      shadowFrames (.quick method kind pc :: plain) = shadowFrames (.quick method kind pc' :: frames) := by
    cases kind <;> simp [shadowFrames,same]
  induction mirrors with
  | nil => rfl
  | @bare frame _ _ _ _ _ ih =>
    cases frame with
    | upcall => rfl
    | shadow method => rfl
    | quick method kind pc => exact quick method kind pc pc ih
  | stub _ _ _ _ ih => exact quick _ _ _ _ ih

theorem head_upcall (mirrors : Mirrors plain frames stack) : plain.head? = some .upcall ↔
    frames.head? = some .upcall := by
  cases mirrors with
  | nil => rfl
  | bare => rfl
  | stub => simp

theorem bare_append {top : List StackFrame} (own : ∀ frame ∈ top, frame.returnPc? = none)
    (mirrors : Mirrors plain frames stack) : Mirrors (top ++ plain) (top ++ frames) stack := by
  induction top with
  | nil => exact mirrors
  | cons frame rest ih =>
    obtain ⟨first,others⟩ := List.forall_mem_cons.mp own
    refine .bare (fun pc returns => ?_) (ih others)
    rw [first] at returns
    cases returns

end Mirrors

theorem shadowFrames_shadow {frames : List StackFrame} {frame : StackFrame} (member : frame ∈ shadowFrames frames) :
    ∃ method, frame = .shadow method := by
  fun_induction shadowFrames frames with
  | case1 method pc rest ih =>
    rcases List.mem_cons.mp member with rfl | later
    · exact ⟨method,rfl⟩
    · exact ih later
  | case2 _ _ _ _ _ ih => exact ih member
  | case3 => cases member

theorem advance_of_step {a : StackAction} {m next : Stubbed} (taken : stackStep a m = some next) :
    m.halted = false ∧ advance m a = some next := by
  obtain ⟨enabled,taken⟩ := Option.ite_none_left_eq_some.mp taken
  simp only [Bool.or_eq_true,not_or,Bool.not_eq_true] at enabled
  exact ⟨enabled.1,taken⟩

structure Represents (m : Stubbed) (p : Unstubbed) : Prop where
  mirrors : Mirrors p.frames m.thread.frames m.thread.instrumentationStack
  quiet : m.exitStubsInstalled = false → m.thread.instrumentationStack = []
  returned : m.returned.map Return.pc = p.returned

namespace Represents

variable {m next : Stubbed} {p : Unstubbed}

theorem walk (state : Represents m p) : walkStack m.exitStubsInstalled m.thread = .ok p.frames := by
  unfold walkStack
  split
  · exact state.mirrors.walk []
  · rename_i off
    have mirrors := state.mirrors
    rw [state.quiet (Bool.not_eq_true _ ▸ off)] at mirrors
    rw [mirrors.plain_eq]

theorem restore (state : Represents m p) :
    instrumentationRestoreStack false m.thread = .ok (⟨m.thread.tid,p.frames,[]⟩,[]) := by
  obtain ⟨⟨tid,frames,stack⟩,installed,interpreter,methods,returned,halted⟩ := m
  have mirrors : Mirrors p.frames frames stack := state.mirrors
  cases stack with
  | nil => simp [instrumentationRestoreStack,mirrors.plain_eq]
  | cons entry rest =>
    obtain ⟨removed,run,count⟩ := mirrors.restore [] (by simp)
    simp only [List.nil_append] at run
    simp [instrumentationRestoreStack,run,count,check,ok_bind]

theorem leaves {forced : Bool} (state : Represents m p) (left : leaveFrame m forced m.thread.frames = some next) :
    next.halted = m.halted ∧ ∃ after, plainStep (.leave forced) p = some after ∧ Represents next after := by
  obtain ⟨⟨tid,frames,stack⟩,installed,interpreter,methods,returned,halted⟩ := m
  obtain ⟨plain,before⟩ := p
  have mirrors : Mirrors plain frames stack := state.mirrors
  cases mirrors with
  | nil => cases left
  | @bare frame plain frames _ own mirrors =>
    have returns (m : Stubbed) : leaveFrame m forced (frame :: frames) =
        some (m.leave frames m.thread.instrumentationStack (frame.returnPc?.map .to)) := by
      cases frame with
      | upcall => rfl
      | shadow method => rfl
      | quick method kind pc => simp [leaveFrame,(own pc rfl).2,StackFrame.returnPc?]
    rw [returns] at left
    cases left
    refine ⟨rfl,⟨plain,frame.returnPc?⟩,rfl,mirrors,state.quiet,?_⟩
    exact (Option.map_map ..).trans (Option.map_id' ..)
  | @stub entry method kind plain frames stack real id fits mirrors =>
    simp only [leaveFrame,popInstrumentationStackFrame,check,id] at left
    cases left
    refine ⟨rfl,⟨plain,some entry.returnPc⟩,rfl,mirrors,fun off => ?_,?_⟩
    · cases state.quiet off
    · simp only [Stubbed.leave,Option.map_some]
      split <;> rfl

theorem popMethodsForUnwind_nil {n : Nat} {left : List InstrumentationStackFrame}
    (popped : popMethodsForUnwind n [] = .ok left) :
    left = [] := by
  cases n with
  | zero =>
    cases popped
    rfl
  | succ n => cases popped

theorem throws {depth : Nat} (state : Represents m p) (thrown : throwTo m depth = some next) :
    next.halted = m.halted ∧ ∃ after, plainStep (.throw depth) p = some after ∧ Represents next after := by
  obtain ⟨left,popped,mirrors⟩ := state.mirrors.unwind depth
  have pops : popMethodsForUnwind (if m.exitStubsInstalled then instrumentationFramesToPop
    (m.thread.frames.take depth) else 0)
      m.thread.instrumentationStack = .ok left := by
    cases on : m.exitStubsInstalled with
    | true => exact popped
    | false =>
      have empty := state.quiet on
      rw [empty] at popped ⊢
      rw [popMethodsForUnwind_nil popped]
      rfl
  simp only [throwTo,pops] at thrown
  split at thrown
  · rename_i enabled
    cases thrown
    refine ⟨rfl,⟨p.frames.drop depth,none⟩,?_,mirrors,fun off => ?_,rfl⟩
    · simp only [plainStep,state.mirrors.length_eq,state.mirrors.isQuick_take,enabled]
      rfl
    · have empty := state.quiet off
      rw [empty] at popped
      exact popMethodsForUnwind_nil popped
  · cases thrown

theorem deoptimizes (state : Represents m p) (done : deoptimizeStack m = some next) :
    next.halted = m.halted ∧ ∃ after, plainStep .deoptimize p = some after ∧ Represents next after := by
  obtain ⟨upcall,done⟩ := Option.ite_none_right_eq_some.mp done
  obtain ⟨mid,thrown,rfl⟩ := Option.map_eq_some_iff.mp done
  obtain ⟨same,after,answer,kept⟩ := state.throws thrown
  obtain ⟨-,answer⟩ := Option.ite_none_right_eq_some.mp answer
  cases answer
  have length := state.mirrors.quick_length
  obtain ⟨left,-,below⟩ := state.mirrors.unwind (m.thread.frames.takeWhile StackFrame.isQuick).length
  refine ⟨same,⟨_,if_pos ?_,?_,kept.quiet,rfl⟩⟩
  · rw [length]
    exact below.head_upcall.mpr upcall
  · rw [length,state.mirrors.shadowFrames_eq]
    refine Mirrors.bare_append (fun frame member => ?_) kept.mirrors
    obtain ⟨method,rfl⟩ := shadowFrames_shadow member
    rfl

theorem installs (state : Represents m p) : if gapFree false m.thread.frames then
      ∃ thread, instrumentationInstallStack false m.thread = .ok (thread,[]) ∧
        (∀ frame ∈ thread.frames, frame.lacksStub = false) ∧
        Mirrors p.frames thread.frames thread.instrumentationStack
    else instrumentationInstallStack false m.thread = .error .fatal := by
  have visit := state.mirrors.install [] [] false (by simp)
  cases free : gapFree false m.thread.frames with
  | true =>
    rw [free] at visit
    obtain ⟨v,frames,stack,run,whole,depth,-,stubs,mirrors⟩ := visit
    simp only [List.nil_append,List.length_nil] at run whole
    refine ⟨⟨m.thread.tid,frames,v.instrumentationStack⟩,?_,stubs,whole ▸ mirrors⟩
    simp [instrumentationInstallStack,run,check,depth,ok_bind]
  | false =>
    rw [free] at visit
    change installFrames _ _ = .error .fatal at visit
    simp only [List.nil_append,List.length_nil] at visit
    simp [instrumentationInstallStack,visit,error_bind]

theorem step {a : StackAction} (state : Represents m p) (taken : stackStep a m = some next) :
    ∃ after, plainStep a p = some after ∧
      (next.halted = false ∧ Represents next after ∧ (a = .install → gapFree false m.thread.frames = true) ∨
        next.halted = true ∧ a = .install ∧ gapFree false m.thread.frames = false) := by
  obtain ⟨running,taken⟩ := advance_of_step taken
  cases a with
  | call method kind lr =>
    obtain ⟨real,taken⟩ := Option.ite_none_right_eq_some.mp taken
    cases taken
    refine ⟨p.push (.quick method kind lr),by simp [plainStep,real],
      .inl ⟨running,⟨?_,state.quiet,state.returned⟩,nofun⟩⟩
    refine .bare ?_ state.mirrors
    intro pc own
    cases own
    exact real
  | enter method lr interpreterEntry =>
    obtain ⟨⟨on,real⟩,taken⟩ := Option.ite_none_right_eq_some.mp taken
    cases taken
    refine ⟨p.push (enteredFrame method interpreterEntry lr),
      by simp [plainStep,real],.inl ⟨running,⟨?_,?_,state.returned⟩,nofun⟩⟩
    · have fits : InstrumentationStackFrame.Fits ⟨method,lr,m.thread.frames.length + 1,interpreterEntry⟩ method
          (if interpreterEntry then .refsAndArgs else .method) := by
        cases interpreterEntry with
        | true => exact .inl ⟨rfl,rfl⟩
        | false => exact .inr ⟨rfl,rfl,rfl⟩
      exact .stub real rfl fits state.mirrors
    · intro off
      change m.exitStubsInstalled = false at off
      simp [on] at off
  | interpret method =>
    cases taken
    exact ⟨p.push (.shadow method),rfl,.inl ⟨running,⟨state.mirrors.bare nofun,state.quiet,state.returned⟩,nofun⟩⟩
  | upcall =>
    cases taken
    exact ⟨p.push .upcall,rfl,.inl ⟨running,⟨state.mirrors.bare nofun,state.quiet,state.returned⟩,nofun⟩⟩
  | leave forced =>
    obtain ⟨same,after,answer,kept⟩ := state.leaves taken
    exact ⟨after,answer,.inl ⟨same.trans running,kept,nofun⟩⟩
  | throw depth =>
    obtain ⟨same,after,answer,kept⟩ := state.throws taken
    exact ⟨after,answer,.inl ⟨same.trans running,kept,nofun⟩⟩
  | deoptimize =>
    obtain ⟨same,after,answer,kept⟩ := state.deoptimizes taken
    exact ⟨after,answer,.inl ⟨same.trans running,kept,nofun⟩⟩
  | configure interpreter methods =>
    cases taken
    exact ⟨p,rfl,.inl ⟨running,⟨state.mirrors,state.quiet,state.returned⟩,nofun⟩⟩
  | install =>
    have visit := state.installs
    refine ⟨p,rfl,?_⟩
    simp only [advance] at taken
    cases free : gapFree false m.thread.frames with
    | true =>
      rw [free] at visit
      obtain ⟨thread,run,-,mirrors⟩ := visit
      simp only [run] at taken
      cases taken
      exact .inl ⟨running,⟨mirrors,nofun,state.returned⟩,fun _ => rfl⟩
    | false =>
      rw [free] at visit
      change instrumentationInstallStack _ _ = .error .fatal at visit
      simp only [visit] at taken
      cases taken
      exact .inr ⟨rfl,rfl,rfl⟩
  | restore =>
    simp only [advance,state.restore] at taken
    cases taken
    refine ⟨p,rfl,.inl ⟨running,⟨?_,fun _ => rfl,state.returned⟩,nofun⟩⟩
    exact state.mirrors.unstub

end Represents

/-- No method without a stub is below one that has a stub. -/
def Gapless (frames : List StackFrame) : Prop :=
  frames.Pairwise fun upper lower => upper.hasStub = true → lower.lacksStub = false

instance (frames : List StackFrame) : Decidable (Gapless frames) := inferInstanceAs (Decidable (List.Pairwise _ _))

theorem gapFree_iff (reached : Bool) (frames : List StackFrame) : gapFree reached frames = true ↔
    (reached = true → ∀ frame ∈ frames, frame.lacksStub = false) ∧ Gapless frames := by
  unfold Gapless
  induction frames generalizing reached with
  | nil => simp [gapFree]
  | cons frame rest ih =>
    cases frame with
    | upcall => simp [gapFree,ih,StackFrame.hasStub,StackFrame.lacksStub]
    | shadow method => simp [gapFree,ih,StackFrame.hasStub,StackFrame.lacksStub]
    | quick method kind pc =>
      cases kind with
      | refsAndArgs => simp [gapFree,ih,StackFrame.hasStub,StackFrame.lacksStub]
      | otherRuntimeMethod => simp [gapFree,ih,StackFrame.hasStub,StackFrame.lacksStub]
      | method =>
        by_cases stub : pc = instrumentationExitPc
        · subst stub
          simp only [gapFree,if_true,ih,List.pairwise_cons,List.forall_mem_cons,StackFrame.lacksStub_exit]
          constructor
          · rintro ⟨upcalls,pairs⟩
            exact ⟨fun _ => ⟨trivial,upcalls trivial⟩,fun lower member _ => upcalls trivial lower member,pairs⟩
          · rintro ⟨-,below,pairs⟩
            exact ⟨fun _ lower member => below lower member (by simp [StackFrame.hasStub]),pairs⟩
        · cases reached with
          | true => simp [gapFree,stub,StackFrame.lacksStub]
          | false => simp [gapFree,stub,ih,StackFrame.hasStub]

/-- A thread without stubs that it stands for, unless it has halted. -/
def Stubbed.Alive (m : Stubbed) : Prop := m.halted = false ∧ ∃ p, Represents m p

theorem alive_start (tid : BitVec 32) : (Stubbed.start tid).Alive :=
  ⟨rfl,⟨[],none⟩,.nil,fun _ => rfl,rfl⟩

/-- The caller of a method that returns continues in compiled code. -/
def StaysCompiled (a : StackAction) (m : Stubbed) : Prop :=
  ∀ forced, a = .leave forced →
    (m.thread.frames.tail.head?.bind StackFrame.method?).any (m.interpreted forced) = false

instance (a : StackAction) (m : Stubbed) : Decidable (StaysCompiled a m) := inferInstanceAs (Decidable (∀ _, _ → _))

theorem leaveFrame_to {m next : Stubbed} {forced : Bool} {frames : List StackFrame} (before : m.deoptimizing = false)
    (compiled : (frames.tail.head?.bind StackFrame.method?).any (m.interpreted forced) = false)
    (left : leaveFrame m forced frames = some next) : next.deoptimizing = false := by
  unfold leaveFrame at left
  split at left
  · cases left
  · split at left
    · split at left
      · cases left
        exact before
      · rename_i popped
        cases left
        unfold popInstrumentationStackFrame at popped
        split at popped
        · cases popped
        · simp only [List.tail_cons] at compiled
          simp only [check,compiled] at popped
          split at popped
          · cases popped
            rfl
          · cases popped
    · cases left
      rfl
  · cases left
    rfl

theorem throwTo_to {m next : Stubbed} {depth : Nat} (before : m.deoptimizing = false)
    (thrown : throwTo m depth = some next) :
    next.deoptimizing = false := by
  simp only [throwTo,Option.ite_none_right_eq_some] at thrown
  obtain ⟨-,thrown⟩ := thrown
  split at thrown
  · cases thrown
    exact before
  · cases thrown
    rfl

theorem advance_to {a : StackAction} {m next : Stubbed} (before : m.deoptimizing = false) (compiled : StaysCompiled a m)
    (taken : advance m a = some next) : next.deoptimizing = false := by
  cases a with
  | call method kind lr =>
    obtain ⟨-,taken⟩ := Option.ite_none_right_eq_some.mp taken
    cases taken
    exact before
  | enter method lr interpreterEntry =>
    obtain ⟨-,taken⟩ := Option.ite_none_right_eq_some.mp taken
    cases taken
    exact before
  | interpret method =>
    cases taken
    exact before
  | upcall =>
    cases taken
    exact before
  | leave forced => exact leaveFrame_to before (compiled forced rfl) taken
  | throw depth => exact throwTo_to before taken
  | deoptimize =>
    obtain ⟨-,done⟩ := Option.ite_none_right_eq_some.mp taken
    obtain ⟨mid,-,rfl⟩ := Option.map_eq_some_iff.mp done
    rfl
  | install | restore =>
    simp only [advance] at taken
    split at taken
    · cases taken
      exact before
    · cases taken
      exact before
  | configure interpreter methods =>
    cases taken
    exact before

/-- Whatever the order of calls, returns, exceptions, deoptimizations, installations and removals, `WalkStack` sees the
frames of the thread without stubs, every frame has returned where it would have, and the stubs can be removed. -/
theorem exitStubs_transparent (tid : BitVec 32) (actions : List StackAction) (m : Stubbed)
    (reached : run stackStep actions (.start tid) = some m) (running : m.halted = false) :
    (∃ p, run plainStep actions ⟨[],none⟩ = some p ∧ m.returned.map Return.pc = p.returned ∧
      walkStack m.exitStubsInstalled m.thread = .ok p.frames ∧
      instrumentationRestoreStack false m.thread = .ok (⟨m.thread.tid,p.frames,[]⟩,[])) ∧
    (EachStep stackStep StaysCompiled actions (.start tid) → m.deoptimizing = false) := by
  refine ⟨?_,?_⟩
  · obtain ⟨p,answer,state⟩ := run_simulation (fun m p => m.halted = false → Represents m p) (by
      intro a s t next related taken
      obtain ⟨after,answer,⟨-,kept,-⟩ | ⟨halted,-⟩⟩ := (related (advance_of_step taken).1).step taken
      · exact ⟨after,answer,fun _ => kept⟩
      · refine ⟨after,answer,fun running => ?_⟩
        rw [halted] at running
        cases running) actions (.start tid) m ⟨[],none⟩ (fun _ => ⟨.nil,fun _ => rfl,rfl⟩) reached
    have state := state running
    exact ⟨p,answer,state.returned,state.walk,state.restore⟩
  · intro compiled
    refine run_invariant (fun m => m.deoptimizing = false) ?_ actions _ m compiled rfl reached
    intro a m next before compiled taken
    exact advance_to before compiled (advance_of_step taken).2

/-- A method is called before the stubs are installed and another after it. An exception skips the second, or the
second returns while interpreter stubs are installed. -/
theorem exitStubs_transparent_sample :
    (⟨⟨7,[],[]⟩,true,false,[],some (.to 20),false⟩ : Stubbed).deoptimizing = false ∧
    ∃ p, run plainStep [.upcall,.call 1 .method 20,.install,.configure true [],.enter 2 30 false,.leave false]
      ⟨[],none⟩ =
      some p ∧ some 30 = p.returned := by
  refine ⟨(exitStubs_transparent 7 [.call 1 .method 20,.install,.enter 2 30 false,.throw 1,.leave false] _
    (by decide) rfl).2
    (eachStep_of_check StaysCompiled _ _ (by decide)),?_⟩
  obtain ⟨⟨p,answer,returned,-⟩,-⟩ := exitStubs_transparent 7
    [.upcall,.call 1 .method 20,.install,.configure true [],.enter 2 30 false,.leave false]
    ⟨⟨7,[.quick 1 .method 1,.upcall],[⟨1,20,2,false⟩]⟩,true,true,[],some (.deoptimize 30),false⟩ (by decide) rfl
  exact ⟨p,answer,returned⟩

/-- No `CHECK` fails in a run exactly when every installation of stubs finds a stack without gaps. -/
theorem exitStubs_safe_iff (tid : BitVec 32) (actions : List StackAction) :
    Throughout stackStep (fun m => m.halted = false) actions (.start tid) ↔
      EachStep stackStep (fun a m => a = .install → Gapless m.thread.frames) actions (.start tid) := by
  have free_iff (frames : List StackFrame) : gapFree false frames = true ↔ Gapless frames := by simp [gapFree_iff]
  apply throughout_iff_each Stubbed.Alive (fun m => m.halted = false) (fun m alive => alive.1) ?_ ?_ _ _
    (alive_start tid)
  · intro a m next ⟨_,p,state⟩ gapless taken
    obtain ⟨after,-,⟨running,kept,-⟩ | ⟨-,rfl,gap⟩⟩ := state.step taken
    · exact ⟨running,after,kept⟩
    · rw [(free_iff _).mpr (gapless rfl)] at gap
      cases gap
  · intro a m next ⟨_,p,state⟩ taken kept
    obtain ⟨after,-,⟨-,-,free⟩ | ⟨halted,-⟩⟩ := state.step taken
    · exact fun install => (free_iff _).mp (free install)
    · rw [halted] at kept
      cases kept

/-- A method that is called without its entry stub makes the next installation halt, if one with a stub is above it. -/
example : (run stackStep [.install,.call 1 .method 20,.enter 2 30 false,.install] (.start 7)).map (·.halted) =
    some true := by decide

theorem Mirrors.plain_hasStub {plain frames : List StackFrame} {stack : List InstrumentationStackFrame}
    (mirrors : Mirrors plain frames stack) : ∀ frame ∈ plain, frame.hasStub = false := by
  have real {frame : StackFrame} (own : ∀ pc, frame.returnPc? = some pc → realPc pc) : frame.hasStub = false := by
    cases frame with
    | upcall => rfl
    | shadow method => rfl
    | quick method kind pc =>
      have other := (own pc rfl).2
      cases kind with
      | refsAndArgs => rfl
      | otherRuntimeMethod => rfl
      | method => simp [StackFrame.hasStub,other]
  induction mirrors with
  | nil => simp
  | bare own _ ih => exact List.forall_mem_cons.mpr ⟨real own,ih⟩
  | stub own _ _ _ ih =>
    refine List.forall_mem_cons.mpr ⟨real ?_,ih⟩
    intro pc same
    cases same
    exact own

def StackAction.isDirect : StackAction → Bool
  | .call _ .method _ => true
  | _ => false

/-- While stubs are installed, methods are called through their entry stubs. -/
def ThroughStub (a : StackAction) (m : Stubbed) : Prop := m.exitStubsInstalled = true → a.isDirect = false

instance (a : StackAction) (m : Stubbed) : Decidable (ThroughStub a m) := inferInstanceAs (Decidable (_ → _))

/-- While the stubs are installed all methods have one, and otherwise none. -/
structure Uniform (m : Stubbed) : Prop where
  installed : m.exitStubsInstalled = true → ∀ frame ∈ m.thread.frames, frame.lacksStub = false
  removed : m.exitStubsInstalled = false → ∀ frame ∈ m.thread.frames, frame.hasStub = false

namespace Uniform

variable {m next : Stubbed} {p : Unstubbed}

theorem gapless (uniform : Uniform m) : Gapless m.thread.frames := by
  cases on : m.exitStubsInstalled with
  | true => exact List.pairwise_of_forall_mem_list fun _ _ lower member _ => uniform.installed on lower member
  | false =>
    refine List.pairwise_of_forall_mem_list fun upper member _ _ stubbed => ?_
    rw [uniform.removed on upper member] at stubbed
    cases stubbed

theorem push (uniform : Uniform m) {frame : StackFrame} (stack : List InstrumentationStackFrame)
    (stubbed : m.exitStubsInstalled = true → frame.lacksStub = false)
    (unstubbed : m.exitStubsInstalled = false → frame.hasStub = false) : Uniform (m.push frame stack) :=
  ⟨fun on => List.forall_mem_cons.mpr ⟨stubbed on,uniform.installed on⟩,
    fun off => List.forall_mem_cons.mpr ⟨unstubbed off,uniform.removed off⟩⟩

theorem fewer (uniform : Uniform m) (same : next.exitStubsInstalled = m.exitStubsInstalled)
    (frames : ∀ frame ∈ next.thread.frames, frame ∈ m.thread.frames) : Uniform next :=
  ⟨fun on frame member => uniform.installed (same ▸ on) frame (frames frame member),
    fun off frame member => uniform.removed (same ▸ off) frame (frames frame member)⟩

theorem leaves {frames : List StackFrame} {forced : Bool} (uniform : Uniform m) (here : m.thread.frames = frames)
    (left : leaveFrame m forced frames = some next) : Uniform next := by
  cases frames with
  | nil => cases left
  | cons top rest =>
    have below : ∀ frame ∈ rest, frame ∈ m.thread.frames := fun frame member => here ▸ List.mem_cons_of_mem top member
    cases top with
    | upcall =>
      cases left
      exact uniform.fewer rfl below
    | shadow method =>
      cases left
      exact uniform.fewer rfl below
    | quick method kind pc =>
      simp only [leaveFrame] at left
      split at left
      · split at left
        · cases left
          exact uniform.fewer rfl fun _ member => member
        · cases left
          exact uniform.fewer rfl below
      · cases left
        exact uniform.fewer rfl below

theorem throws {depth : Nat} (uniform : Uniform m) (thrown : throwTo m depth = some next) : Uniform next := by
  simp only [throwTo,Option.ite_none_right_eq_some] at thrown
  obtain ⟨-,thrown⟩ := thrown
  split at thrown
  · cases thrown
    exact uniform.fewer rfl fun _ member => member
  · cases thrown
    exact uniform.fewer rfl fun _ member => List.mem_of_mem_drop member

theorem deoptimizes (uniform : Uniform m) (done : deoptimizeStack m = some next) : Uniform next := by
  obtain ⟨-,done⟩ := Option.ite_none_right_eq_some.mp done
  obtain ⟨mid,thrown,rfl⟩ := Option.map_eq_some_iff.mp done
  have kept := uniform.throws thrown
  have shadow : ∀ frame ∈ shadowFrames m.thread.frames, frame.lacksStub = false ∧ frame.hasStub = false := by
    intro frame member
    obtain ⟨method,rfl⟩ := shadowFrames_shadow member
    exact ⟨rfl,rfl⟩
  refine ⟨fun on => List.forall_mem_append.mpr ⟨fun frame member => (shadow frame member).1,kept.installed on⟩,
    fun off => List.forall_mem_append.mpr ⟨fun frame member => (shadow frame member).2,kept.removed off⟩⟩

theorem step {a : StackAction} (uniform : Uniform m) (state : Represents m p) (entering : ThroughStub a m)
    (taken : stackStep a m = some next) : Uniform next := by
  obtain ⟨-,taken⟩ := advance_of_step taken
  cases a with
  | call method kind lr =>
    obtain ⟨⟨-,other⟩,taken⟩ := Option.ite_none_right_eq_some.mp taken
    cases taken
    cases kind with
    | refsAndArgs => exact uniform.push _ (fun _ => rfl) (fun _ => rfl)
    | otherRuntimeMethod => exact uniform.push _ (fun _ => rfl) (fun _ => rfl)
    | method =>
      apply uniform.push
      · exact fun on => by cases entering on
      · exact fun _ => by simp [StackFrame.hasStub,other]
  | enter method lr interpreterEntry =>
    obtain ⟨⟨on,-⟩,taken⟩ := Option.ite_none_right_eq_some.mp taken
    cases taken
    apply uniform.push
    · exact fun _ => StackFrame.lacksStub_exit method _
    · exact fun off => by simp [on] at off
  | interpret method =>
    cases taken
    exact uniform.push _ (fun _ => rfl) (fun _ => rfl)
  | upcall =>
    cases taken
    exact uniform.push _ (fun _ => rfl) (fun _ => rfl)
  | leave forced => exact uniform.leaves rfl taken
  | throw depth => exact uniform.throws taken
  | deoptimize => exact uniform.deoptimizes taken
  | configure interpreter methods =>
    cases taken
    exact ⟨uniform.installed,uniform.removed⟩
  | install =>
    have visit := state.installs
    rw [(gapFree_iff false _).mpr ⟨nofun,uniform.gapless⟩] at visit
    obtain ⟨thread,run,stubs,-⟩ := visit
    simp only [advance,run] at taken
    cases taken
    exact ⟨fun _ => stubs,nofun⟩
  | restore =>
    simp only [advance,state.restore] at taken
    cases taken
    exact ⟨nofun,fun _ => state.mirrors.plain_hasStub⟩

end Uniform

/-- No `CHECK` fails if, while stubs are installed, every method is entered through its entry stub. -/
theorem exitStubs_safe (tid : BitVec 32) (actions : List StackAction)
    (entering : EachStep stackStep ThroughStub actions (.start tid)) :
    Throughout stackStep (fun m => m.halted = false) actions (.start tid) := by
  have holds : Throughout stackStep (fun m => m.Alive ∧ Uniform m) actions (.start tid) := by
    refine throughout_of_each (fun m => m.Alive ∧ Uniform m) ?_ actions (.start tid) entering
      ⟨alive_start tid,nofun,nofun⟩
    intro a m next ⟨⟨_,p,state⟩,uniform⟩ entering taken
    have kept := uniform.step state entering taken
    obtain ⟨after,-,⟨running,represents,-⟩ | ⟨-,-,gap⟩⟩ := state.step taken
    · exact ⟨⟨running,after,represents⟩,kept⟩
    · rw [(gapFree_iff false _).mpr ⟨nofun,uniform.gapless⟩] at gap
      cases gap
  exact fun front back middle split reached => (holds front back middle split reached).1.1

/-- The stubs are installed a second time, above frames that have them. -/
theorem exitStubs_safe_sample : Throughout stackStep (fun m => m.halted = false)
    [.call 1 .method 20,.install,.enter 2 30 true,.interpret 2,.enter 3 40 false,.install,.leave false,
      .restore,.call 4 .method 50] (.start 7) := by
  apply exitStubs_safe
  exact eachStep_of_check ThroughStub _ _ (by decide)

end Aatt
