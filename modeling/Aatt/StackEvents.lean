import Mathlib.Data.List.TakeWhile
import Aatt.Stacks

/-! Which method events a walk of the stacks creates, told from the stacks before it, and what a walk
leaves alone. -/
namespace Aatt

theorem bind_ok {α β : Type} {x : Except Halt α} {f : α → Except Halt β} {b : β} (returned : (x >>= f) = .ok b) :
    ∃ a, x = .ok a ∧ f a = .ok b := by
  cases x with
  | error halt => cases returned
  | ok a => exact ⟨a,rfl,returned⟩

namespace StackFrame

/-- The method of which the frame is an activation. -/
def activation : StackFrame → Option Address
  | .upcall => none
  | .shadow method => some method
  | .quick method .method _ => some method
  | .quick .. => none

/-- The method of a quick frame with an instrumentation frame. -/
def stubbed (stack : List InstrumentationStackFrame) (frameId : Nat) : StackFrame → Option Address
  | .quick method _ _ => if stack.any (·.frameId = frameId) then some method else none
  | _ => none

/-- The instrumentation frame that a compiled method without an exit stub will get. -/
def pending (frameId : Nat) : StackFrame → Option InstrumentationStackFrame
  | .quick method .method returnPc =>
    if returnPc = instrumentationExitPc then none else some ⟨method,returnPc,frameId,false⟩
  | _ => none

def interpreted (frameId : Nat) : StackFrame → Option (Nat × Address)
  | .shadow method => some (frameId,method)
  | _ => none

end StackFrame

/-- What `f` finds in the frames, given their ids. -/
def collect {α : Type} (f : Nat → StackFrame → Option α) : List StackFrame → List α
  | [] => []
  | frame :: rest => (f (rest.length + 1) frame).toList ++ collect f rest

namespace ThreadStack

def activations (thread : ThreadStack) : List Address := thread.frames.filterMap StackFrame.activation

/-- The methods that lose their exit stub when the stack is restored. -/
def exiting (thread : ThreadStack) : List Address :=
  collect (StackFrame.stubbed thread.instrumentationStack) thread.frames

/-- The instrumentation frames when stubs are installed in the whole stack. -/
def stubs (thread : ThreadStack) : List InstrumentationStackFrame :=
  thread.instrumentationStack ++ collect StackFrame.pending thread.frames

/-- The methods with an enter event when stubs are installed: those of the instrumentation frames, and
those that are interpreted below one. -/
def entering (thread : ThreadStack) : List Address :=
  (thread.stubs.filter (!·.interpreterEntry)).map InstrumentationStackFrame.method ++
    ((collect StackFrame.interpreted thread.frames).filter fun shadow =>
      thread.stubs.any (shadow.1 < ·.frameId)).map Prod.snd

end ThreadStack

theorem restoreFrame_stubbed (stack : List InstrumentationStackFrame) (frameId : Nat) (frame next : StackFrame)
    (removed : Option Address) (restored : restoreFrame stack frameId frame = .ok (next,removed)) :
    removed = frame.stubbed stack frameId ∧ next.activation = frame.activation := by
  cases frame with
  | upcall =>
    cases restored
    exact ⟨rfl,rfl⟩
  | shadow method =>
    cases restored
    exact ⟨rfl,rfl⟩
  | quick method kind returnPc =>
    unfold restoreFrame at restored
    dsimp only at restored
    split at restored
    · rename_i missing
      cases restored
      rw [List.find?_eq_none] at missing
      exact ⟨(if_neg (by simpa using missing)).symm,rfl⟩
    · rename_i stub found
      obtain ⟨-,-,restored⟩ := bind_ok restored
      cases restored
      have matching : decide (stub.frameId = frameId) = true := by simpa using List.find?_some found
      have listed : stack.any (·.frameId = frameId) = true :=
        List.any_eq_true.mpr ⟨stub,List.mem_of_find?_eq_some found,matching⟩
      exact ⟨(if_pos listed).symm,by cases kind <;> rfl⟩

theorem restoreFrames_stubbed (stack : List InstrumentationStackFrame) (frames final : List StackFrame)
    (removed : List Address) (restored : restoreFrames stack frames = .ok (final,removed)) :
    removed = collect (StackFrame.stubbed stack) frames ∧
      final.filterMap StackFrame.activation = frames.filterMap StackFrame.activation := by
  induction frames generalizing final removed with
  | nil =>
    cases restored
    exact ⟨rfl,rfl⟩
  | cons frame rest ih =>
    obtain ⟨⟨next,own⟩,first,restored⟩ := bind_ok restored
    obtain ⟨⟨onward,others⟩,later,restored⟩ := bind_ok restored
    cases restored
    obtain ⟨owned,kept⟩ := restoreFrame_stubbed stack _ frame next own first
    obtain ⟨listed,same⟩ := ih onward others later
    exact ⟨by rw [owned,listed,collect],by rw [List.filterMap_cons,List.filterMap_cons,kept,same]⟩

theorem restoreStack_events (notify : Bool) (thread next : ThreadStack) (events : List MethodEvent)
    (walked : instrumentationRestoreStack notify thread = .ok (next,events)) :
    (∀ event, event ∈ events ↔ notify = true ∧ ∃ method ∈ thread.exiting, event = .exited thread.tid method 0) ∧
      next.tid = thread.tid ∧ next.activations = thread.activations := by
  unfold instrumentationRestoreStack at walked
  split at walked
  · rename_i empty
    cases walked
    have nothing : ∀ frames, collect (StackFrame.stubbed thread.instrumentationStack) frames = [] := by
      rw [List.isEmpty_iff.mp empty]
      intro frames
      induction frames with
      | nil => rfl
      | cons frame rest ih => cases frame <;> simp [collect,StackFrame.stubbed,ih]
    rw [ThreadStack.exiting,nothing]
    exact ⟨by simp,rfl,rfl⟩
  · obtain ⟨⟨frames,removed⟩,restored,walked⟩ := bind_ok walked
    obtain ⟨-,-,walked⟩ := bind_ok walked
    cases walked
    obtain ⟨rfl,kept⟩ := restoreFrames_stubbed _ _ _ _ restored
    refine ⟨fun event => ?_,rfl,kept⟩
    cases notify <;> simp [ThreadStack.exiting,eq_comm]

theorem mem_insertFrame (frame stub : InstrumentationStackFrame) (stack : List InstrumentationStackFrame) :
    stub ∈ insertFrame frame stack ↔ stub = frame ∨ stub ∈ stack := by
  induction stack with
  | nil => simp [insertFrame]
  | cons current rest ih =>
    rw [insertFrame]
    split
    · simp
    · simp only [List.mem_cons,ih]
      exact or_left_comm

theorem installFrame_pending (v next : InstallStackVisitor) (frameId : Nat) (frame after : StackFrame)
    (installed : installFrame v frameId frame = .ok (next,after)) :
    (∀ stub, stub ∈ next.instrumentationStack ↔ stub ∈ v.instrumentationStack ∨ stub ∈ frame.pending frameId) ∧
      next.shadowStack = v.shadowStack ++ (frame.interpreted frameId).toList ∧ after.activation = frame.activation := by
  cases frame with
  | upcall =>
    cases installed
    exact ⟨by simp [StackFrame.pending],by simp [StackFrame.interpreted],rfl⟩
  | shadow method =>
    cases installed
    exact ⟨by simp [StackFrame.pending],rfl,rfl⟩
  | quick method kind returnPc =>
    have unseen : v.shadowStack = v.shadowStack ++ ((StackFrame.quick method kind returnPc).interpreted
      frameId).toList := by
      simp [StackFrame.interpreted]
    unfold installFrame at installed
    dsimp only at installed
    split at installed
    · rename_i runtimeMethod
      have skipped : (StackFrame.quick method kind returnPc).pending frameId = none := by
        cases kind with
        | method => exact absurd rfl runtimeMethod
        | refsAndArgs => rfl
        | otherRuntimeMethod => rfl
      rw [skipped]
      split at installed
      · cases installed
        exact ⟨by simp,unseen,rfl⟩
      split at installed
      · cases installed
      · obtain ⟨-,-,installed⟩ := bind_ok installed
        cases installed
        exact ⟨by simp,unseen,rfl⟩
    rename_i regular
    obtain rfl : kind = .method := not_not.mp regular
    rw [StackFrame.pending]
    split at installed
    · rename_i existing
      split at installed
      · cases installed
      · obtain ⟨-,-,installed⟩ := bind_ok installed
        cases installed
        exact ⟨by simp [existing],unseen,rfl⟩
    · rename_i bare
      obtain ⟨-,-,installed⟩ := bind_ok installed
      obtain ⟨-,-,installed⟩ := bind_ok installed
      cases installed
      refine ⟨fun stub => ?_,unseen,rfl⟩
      rw [mem_insertFrame,if_neg bare,Option.mem_some_iff,or_comm,eq_comm]

theorem installFrames_pending (v final : InstallStackVisitor) (frames after : List StackFrame)
    (installed : installFrames v frames = .ok (final,after)) :
    (∀ stub, stub ∈ final.instrumentationStack ↔
        stub ∈ v.instrumentationStack ∨ stub ∈ collect StackFrame.pending frames) ∧
      final.shadowStack = v.shadowStack ++ collect StackFrame.interpreted frames ∧
      after.filterMap StackFrame.activation = frames.filterMap StackFrame.activation := by
  induction frames generalizing v final after with
  | nil =>
    cases installed
    exact ⟨by simp [collect],by simp [collect],rfl⟩
  | cons frame rest ih =>
    obtain ⟨⟨next,changed⟩,first,installed⟩ := bind_ok installed
    obtain ⟨⟨last,others⟩,later,installed⟩ := bind_ok installed
    cases installed
    obtain ⟨added,shadows,kept⟩ := installFrame_pending v next _ frame changed first
    obtain ⟨addedLater,shadowsLater,keptLater⟩ := ih next final others later
    refine ⟨fun stub => ?_,?_,?_⟩
    · rw [addedLater,added,collect,List.mem_append,Option.mem_toList,Option.mem_def,or_assoc]
    · rw [shadowsLater,shadows,collect,List.append_assoc]
    · rw [List.filterMap_cons,List.filterMap_cons,kept,keptLater]

theorem interpreted_descending (frames : List StackFrame) :
    (collect StackFrame.interpreted frames).Pairwise (fun upper lower => lower.1 < upper.1) ∧
      ∀ shadow ∈ collect StackFrame.interpreted frames, shadow.1 ≤ frames.length := by
  induction frames with
  | nil => exact ⟨List.Pairwise.nil,nofun⟩
  | cons frame rest ih =>
    obtain ⟨ordered,bounded⟩ := ih
    have above : ∀ shadow ∈ collect StackFrame.interpreted rest, shadow.1 < rest.length + 1 :=
      fun shadow member => Nat.lt_succ_of_le (bounded shadow member)
    cases frame with
    | shadow method =>
      refine ⟨List.pairwise_cons.mpr ⟨above,ordered⟩,?_⟩
      rintro shadow (_ | ⟨_,member⟩)
      · exact le_rfl
      · exact (above shadow member).le
    | upcall => exact ⟨ordered,fun shadow member => (above shadow member).le⟩
    | quick method kind returnPc => exact ⟨ordered,fun shadow member => (above shadow member).le⟩

theorem mem_takeWhile_below (bound : Nat) (shadows : List (Nat × Address)) (shadow : Nat × Address)
    (ascending : shadows.Pairwise fun lower upper => lower.1 < upper.1) (member : shadow ∈ shadows)
    (below : shadow.1 < bound) : shadow ∈ shadows.takeWhile (·.1 < bound) := by
  induction shadows with
  | nil => cases member
  | cons first rest ih =>
    obtain ⟨lowest,ascending⟩ := List.pairwise_cons.mp ascending
    obtain rfl | later := List.mem_cons.mp member
    · simp [below]
    · have reached : first.1 < bound := (lowest shadow later).trans below
      simpa [reached] using .inr (ih ascending later)

/-- With the shadow frames from the bottom upwards, those below some instrumentation frame have an enter
event. -/
theorem mem_enteredMethods (method : Address) (stack : List InstrumentationStackFrame) (shadows : List (Nat × Address))
    (ascending : shadows.Pairwise fun lower upper => lower.1 < upper.1) :
    method ∈ enteredMethods stack shadows ↔
      (∃ stub ∈ stack, stub.interpreterEntry = false ∧ stub.method = method) ∨
        ∃ shadow ∈ shadows, (∃ stub ∈ stack, shadow.1 < stub.frameId) ∧ shadow.2 = method := by
  induction stack generalizing shadows with
  | nil => simp [enteredMethods]
  | cons frame rest ih =>
    have split := List.takeWhile_append_dropWhile (p := fun shadow : Nat × Address => decide (shadow.1 < frame.frameId))
      (l := shadows)
    have upper : (shadows.dropWhile (·.1 < frame.frameId)).Pairwise fun lower upper => lower.1 < upper.1 :=
      ascending.sublist (List.dropWhile_sublist _)
    have own : method ∈ (if frame.interpreterEntry then [] else [frame.method]) ↔
        frame.interpreterEntry = false ∧ frame.method = method := by
      cases frame.interpreterEntry <;> simp [eq_comm]
    rw [enteredMethods,List.mem_append,List.mem_append,own,ih _ upper]
    constructor
    · rintro ((early | entry) | (stub | ⟨shadow,late,⟨stub,member,below⟩,same⟩))
      · obtain ⟨shadow,taken,same⟩ := List.mem_map.mp early
        have below : shadow.1 < frame.frameId := by simpa using List.mem_takeWhile_imp taken
        exact .inr ⟨shadow,(List.takeWhile_sublist _).subset taken,⟨frame,List.mem_cons_self,below⟩,same⟩
      · exact .inl ⟨frame,List.mem_cons_self,entry⟩
      · obtain ⟨stub,member,entry⟩ := stub
        exact .inl ⟨stub,List.mem_cons_of_mem _ member,entry⟩
      · exact .inr ⟨shadow,(List.dropWhile_sublist _).subset late,⟨stub,List.mem_cons_of_mem _ member,below⟩,same⟩
    · rintro (⟨stub,member,entry⟩ | ⟨shadow,listed,⟨stub,member,below⟩,same⟩)
      · obtain rfl | later := List.mem_cons.mp member
        · exact .inl (.inr entry)
        · exact .inr (.inl ⟨stub,later,entry⟩)
      · by_cases reached : shadow.1 < frame.frameId
        · exact .inl (.inl (List.mem_map.mpr ⟨shadow,mem_takeWhile_below _ _ _ ascending listed reached,same⟩))
        · rw [← split,List.mem_append] at listed
          obtain early | late := listed
          · exact absurd (by simpa using List.mem_takeWhile_imp early) reached
          · obtain rfl | later := List.mem_cons.mp member
            · exact absurd below reached
            · exact .inr (.inr ⟨shadow,late,⟨stub,later,below⟩,same⟩)

theorem mem_entering (thread : ThreadStack) (method : Address) : method ∈ thread.entering ↔
    (∃ stub ∈ thread.stubs, stub.interpreterEntry = false ∧ stub.method = method) ∨
      ∃ shadow ∈ collect StackFrame.interpreted thread.frames,
        (∃ stub ∈ thread.stubs, shadow.1 < stub.frameId) ∧ shadow.2 = method := by
  simp [ThreadStack.entering,and_assoc]

theorem installStack_events (notify : Bool) (thread next : ThreadStack) (events : List MethodEvent)
    (walked : instrumentationInstallStack notify thread = .ok (next,events)) :
    (∀ event, event ∈ events ↔ notify = true ∧ ∃ method ∈ thread.entering, event = .entered thread.tid method) ∧
      next.tid = thread.tid ∧ next.activations = thread.activations := by
  obtain ⟨⟨v,frames⟩,installed,walked⟩ := bind_ok walked
  obtain ⟨-,-,walked⟩ := bind_ok walked
  cases walked
  obtain ⟨stubs,shadows,kept⟩ := installFrames_pending _ v thread.frames frames installed
  refine ⟨fun event => ?_,rfl,kept⟩
  have ascending : v.shadowStack.reverse.Pairwise fun lower upper => lower.1 < upper.1 := by
    rw [shadows,List.nil_append,List.pairwise_reverse]
    exact (interpreted_descending thread.frames).1
  have same : ∀ method, method ∈ enteredMethods v.instrumentationStack.reverse v.shadowStack.reverse ↔
      method ∈ thread.entering := by
    intro method
    rw [mem_enteredMethods method _ _ ascending,mem_entering]
    simp only [List.mem_reverse,stubs,ThreadStack.stubs,List.mem_append,shadows,List.nil_append]
  cases notify with
  | false => simp
  | true => simp [same,eq_comm]

theorem forEachThread_events (f : ThreadStack → Except Halt (ThreadStack × List MethodEvent))
    (reports : ThreadStack → MethodEvent → Prop)
    (spec : ∀ thread next events, f thread = .ok (next,events) →
      (∀ event, event ∈ events ↔ reports thread event) ∧ next.tid = thread.tid ∧ next.activations = thread.activations)
    (threads final : List ThreadStack) (events : List MethodEvent)
    (walked : forEachThread f threads = .ok (final,events)) :
    (∀ event, event ∈ events ↔ ∃ thread ∈ threads, reports thread event) ∧
      final.map (fun thread => (thread.tid,thread.activations)) =
        threads.map fun thread => (thread.tid,thread.activations) := by
  induction threads generalizing final events with
  | nil =>
    cases walked
    exact ⟨by simp,rfl⟩
  | cons thread rest ih =>
    obtain ⟨⟨next,own⟩,first,walked⟩ := bind_ok walked
    obtain ⟨⟨others,later⟩,onward,walked⟩ := bind_ok walked
    cases walked
    obtain ⟨reported,tid,kept⟩ := spec thread next own first
    obtain ⟨reportedLater,keptLater⟩ := ih others later onward
    exact ⟨fun event => by simp [reported,reportedLater],by rw [List.map_cons,List.map_cons,tid,kept,keptLater]⟩

/-- The events that a walk of the stacks creates if the listeners are to be notified. -/
def StackWalk.Reports (threads : List ThreadStack) (event : MethodEvent) : StackWalk → Prop
  | .none => False
  | .install => ∃ thread ∈ threads, ∃ method ∈ thread.entering, event = .entered thread.tid method
  | .restore => ∃ thread ∈ threads, ∃ method ∈ thread.exiting, event = .exited thread.tid method 0

theorem walkStacks_events (walk : StackWalk) (l : Listeners) (i : Instrumentation) (threads final : List ThreadStack)
    (events : List MethodEvent) (walked : walkStacks walk l i threads = .ok (final,events)) :
    (∀ event, event ∈ events ↔ l.shouldNotifyMethodEnterExitEvents i = true ∧ walk.Reports threads event) ∧
      final.map (fun thread => (thread.tid,thread.activations)) =
        threads.map fun thread => (thread.tid,thread.activations) := by
  unfold walkStacks at walked
  dsimp only at walked
  cases walk with
  | none =>
    cases walked
    exact ⟨by simp [StackWalk.Reports],rfl⟩
  | install =>
    obtain ⟨reported,kept⟩ := forEachThread_events _ _ (installStack_events _) threads final events walked
    refine ⟨fun event => ?_,kept⟩
    rw [reported,StackWalk.Reports,← exists_and_left]
    exact exists_congr fun thread => and_left_comm
  | restore =>
    obtain ⟨reported,kept⟩ := forEachThread_events _ _ (restoreStack_events _) threads final events walked
    refine ⟨fun event => ?_,kept⟩
    rw [reported,StackWalk.Reports,← exists_and_left]
    exact exists_congr fun thread => and_left_comm

theorem shouldNotify_iff (l : Listeners) (i : Instrumentation) : l.shouldNotifyMethodEnterExitEvents i = true ↔
    (l.methodEntry ≠ [] ∨ l.methodExit ≠ []) ∧ l.deoptimizationEnabled = false ∧
      i.interpreterStubsInstalled = false := by
  unfold Listeners.shouldNotifyMethodEnterExitEvents
  cases l.methodEntry <;> cases l.methodExit <;> simp

theorem Listeners.deliver_eq (l : Listeners) (s : Runtime) (event : MethodEvent) :
    l.deliver s event = List.replicate ((l.ofEvent event).count .miniTrace) (event.traceCall s) := by
  unfold deliver
  induction l.ofEvent event with
  | nil => rfl
  | cons listener rest ih =>
    by_cases own : listener = .miniTrace
    · simp [own,ih,List.replicate_succ]
    · simp [own,ih]

def Runtime.traceable (s : Runtime) (method : Address) : Bool := isMiniTraceable (s.accessFlagsOf method)

def MethodEvent.method : MethodEvent → Address
  | .entered _ method => method
  | .exited _ method _ => method
  | .unwind _ method => method

theorem traceCall_traceable (s : Runtime) (event : MethodEvent) :
    (event.traceCall s).traceable = s.traceable event.method := by
  cases event <;> rfl

def Class.flags (klass : Class) : List (Address × AccessFlags) :=
  klass.methods.map fun method => (method.address,method.accessFlags)

theorem accessFlagsOf_eq (s : Runtime) (method : Address) : s.accessFlagsOf method =
    (((s.classes.flatMap Class.flags).find? (·.1 = method)).map Prod.snd).getD 0 := by
  have listed : s.classes.flatMap Class.flags =
      (s.classes.flatMap Class.methods).map fun method => (method.address,method.accessFlags) := by
    rw [List.map_flatMap]
    rfl
  rw [listed,List.find?_map,Runtime.accessFlagsOf]
  simp only [Function.comp_def]
  cases (s.classes.flatMap Class.methods).find? (·.address = method) <;> rfl

theorem flags_of_shape {a b : Class} (same : a.shape = b.shape) : a.flags = b.flags := by
  have erased : ∀ klass : Class, klass.shape.flags = klass.flags := by
    intro klass
    rw [Class.flags,Class.shape,mapMethods_methods,List.map_map]
    rfl
  rw [← erased a,same,erased b]

end Aatt
