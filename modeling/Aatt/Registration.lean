import Aatt.Lib.Transition
import Aatt.Listeners

/-! The tracer as one client of the instrumentation among others. Between operations it is registered
exactly while a trace is in progress, and the other clients find their lists as if it did not exist. -/
namespace Aatt

open Aatt.Lib

/-- A call of another client, for its own listener. -/
inductive ListenerCall where
  | add (address : Nat) (events : BitVec 32)
  | remove (address : Nat) (events : BitVec 32)
  deriving DecidableEq, Repr

def ListenerCall.apply : ListenerCall → ListenerLists → Option ListenerLists
  | .add address events, l => l.addListener (.other address) events
  | .remove address events, l => l.removeListener (.other address) events

/-- The runtime with the listener lists. `address` is where the latest `MiniTrace` object was allocated. -/
structure Registration where
  runtime : Runtime
  lists : ListenerLists
  address : Nat

namespace Registration

/-- `Start` may find its new object at any address, also that of a deleted one. -/
inductive Operation where
  | start (environment : StartEnvironment) (address : Nat)
  | stop
  | shutdown
  | client (call : ListenerCall)
  deriving DecidableEq, Repr

def Operation.call? : Operation → Option ListenerCall
  | .client call => some call
  | _ => none

/-- `MiniTrace::Start`; no result if the process ends or the buffer cannot be allocated. -/
def start (environment : StartEnvironment) (address : Nat) (s : Registration) : Option Registration :=
  match s.runtime.decision environment with
  | .ignore => some s
  | .abort => none
  | .proceed config =>
    if config.bufferSize.toInt < 0 then none else
    match s.lists.addListener (.miniTrace address) config.events with
    | none => none
    | some lists => some ⟨s.runtime.startTrace config,lists,address⟩

def stop (s : Registration) : Option Registration :=
  match s.runtime.theTrace with
  | none => some s
  | some trace =>
    match s.lists.removeListener (.miniTrace s.address) trace.events with
    | none => none
    | some lists => some { s with runtime := s.runtime.stop, lists := lists }

/-- `MiniTrace::Shutdown`: `Stop` if `GetMethodTracingMode` is not `kTracingInactive`. -/
def shutdown (s : Registration) : Option Registration :=
  if s.runtime.theTrace.isSome then s.stop else some s

def step : Operation → Registration → Option Registration
  | .start environment address, s => s.start environment address
  | .stop, s => s.stop
  | .shutdown, s => s.shutdown
  | .client call, s => (call.apply s.lists).map fun lists => { s with lists := lists }

/-- The process ends in `Start`. -/
def Aborts (s : Registration) : Operation → Prop
  | .start environment _ => s.runtime.decision environment = .abort ∨
      ∃ config, s.runtime.decision environment = .proceed config ∧ config.bufferSize.toInt < 0
  | _ => False

/-- Where the tracer is registered: its current object, once in each list that its events select. -/
def entries (s : Registration) (event : InstrumentationEvent) : List ListenerPointer :=
  match s.runtime.theTrace with
  | none => []
  | some trace => if hasEvent event trace.events then [.miniTrace s.address] else []

/-- The state is that of the other clients with the current trace added. -/
structure Follows (s : Registration) (others : ListenerLists) : Prop where
  whitelist : s.runtime.theTrace.isSome = true ↔ s.runtime.whitelist.isSome = true
  level : s.runtime.theTrace.isSome = true ↔
    ∃ level, (.kMiniTracerInstrumentationKey,level) ∈ s.runtime.instrumentation.requestedLevels
  registered : ∀ event, (s.lists.listeners event).filter (·.isMiniTrace) = s.entries event
  unchanged : ∀ event, (s.lists.listeners event).filter (!·.isMiniTrace) = others.listeners event
  flags : ∀ event, s.lists.present event = (others.present event || !(s.entries event).isEmpty)
  inactive : s.runtime.theTrace = none → s.lists = others

end Registration

theorem configureStubs_levels (key : ClientKey) (desired : InstrumentationLevel) (i : Instrumentation)
    (classes : List Class) :
    (configureStubs key desired i classes).1.requestedLevels = setLevel key desired i.requestedLevels := by
  unfold configureStubs
  dsimp only
  split
  · rfl
  split
  · rfl
  split <;> rfl

theorem setLevel_mem (key : ClientKey) (desired : InstrumentationLevel)
    (levels : List (ClientKey × InstrumentationLevel)) :
    (∃ level, (key,level) ∈ setLevel key desired levels) ↔ desired ≠ .nothing := by
  unfold setLevel
  dsimp only
  split
  · rename_i nothing
    simp [nothing]
  · rename_i wanted
    exact iff_of_true ⟨desired,by simp⟩ wanted

/-- A trace, its whitelist and its level come and go together. -/
def Runtime.Coherent (s : Runtime) : Prop :=
  (s.theTrace.isSome = true ↔ s.whitelist.isSome = true) ∧
    (s.theTrace.isSome = true ↔ ∃ level, (.kMiniTracerInstrumentationKey,level) ∈ s.instrumentation.requestedLevels)

theorem Runtime.startTrace_coherent (config : Config) (s : Runtime) : (s.startTrace config).Coherent := by
  refine ⟨Iff.rfl,iff_of_true rfl ?_⟩
  change ∃ level, (_,level) ∈ (configureStubs _ .withInterpreter s.instrumentation s.classes).1.requestedLevels
  rw [configureStubs_levels]
  exact (setLevel_mem _ _ _).mpr (by decide)

theorem Runtime.stop_coherent (s : Runtime) (coherent : s.Coherent) : s.stop.Coherent := by
  unfold Runtime.stop
  split
  · exact coherent
  · refine ⟨by simp,iff_of_false (by simp) ?_⟩
    change ¬ ∃ level, (_,level) ∈ (configureStubs _ .nothing s.instrumentation s.classes).1.requestedLevels
    rw [configureStubs_levels,setLevel_mem]
    exact fun wanted => wanted rfl

namespace Registry

def others (r : Registry) : Registry := fun event => (r event).filter (!·.isMiniTrace)

theorem add_miniTrace_others (address : Nat) (events : BitVec 32) (r : Registry) :
    (r.add (.miniTrace address) events).others = r.others := by
  funext event
  unfold others add
  split <;> simp [ListenerPointer.isMiniTrace]

theorem remove_miniTrace_others (address : Nat) (events : BitVec 32) (r : Registry) :
    (r.remove (.miniTrace address) events).others = r.others := by
  funext event
  unfold others remove
  split
  · rw [List.filter_filter]
    refine List.filter_congr fun listener _ => ?_
    cases listener <;> simp [ListenerPointer.isMiniTrace]
  · rfl

theorem add_other_others (address : Nat) (events : BitVec 32) (r : Registry) :
    (r.add (.other address) events).others = r.others.add (.other address) events := by
  funext event
  unfold others add
  split <;> simp [ListenerPointer.isMiniTrace]

theorem remove_other_others (address : Nat) (events : BitVec 32) (r : Registry) :
    (r.remove (.other address) events).others = r.others.remove (.other address) events := by
  funext event
  unfold others remove
  split
  · rw [List.filter_filter,List.filter_filter]
    exact List.filter_congr fun listener _ => Bool.and_comm _ _
  · rfl

theorem add_other_miniTrace (address : Nat) (events : BitVec 32) (r : Registry) (event : InstrumentationEvent) :
    ((r.add (.other address) events) event).filter (·.isMiniTrace) = (r event).filter (·.isMiniTrace) := by
  unfold add
  split <;> simp [ListenerPointer.isMiniTrace]

theorem remove_other_miniTrace (address : Nat) (events : BitVec 32) (r : Registry) (event : InstrumentationEvent) :
    ((r.remove (.other address) events) event).filter (·.isMiniTrace) = (r event).filter (·.isMiniTrace) := by
  unfold remove
  split
  · rw [List.filter_filter]
    refine List.filter_congr fun listener _ => ?_
    cases listener <;> simp [ListenerPointer.isMiniTrace]
  · rfl

theorem add_miniTrace_miniTrace (address : Nat) (events : BitVec 32) (r : Registry) (event : InstrumentationEvent) :
    ((r.add (.miniTrace address) events) event).filter (·.isMiniTrace) =
      (r event).filter (·.isMiniTrace) ++ if hasEvent event events then [.miniTrace address] else [] := by
  unfold add
  split <;> simp [ListenerPointer.isMiniTrace]

theorem remove_miniTrace_miniTrace (address : Nat) (events : BitVec 32) (r : Registry) (event : InstrumentationEvent) :
    ((r.remove (.miniTrace address) events) event).filter (·.isMiniTrace) =
      if hasEvent event events then ((r event).filter (·.isMiniTrace)).filter (· ≠ .miniTrace address)
      else (r event).filter (·.isMiniTrace) := by
  unfold remove
  split
  · rw [List.filter_filter,List.filter_filter]
    exact List.filter_congr fun listener _ => Bool.and_comm _ _
  · rfl

end Registry

namespace Registration

/-- The invariant, over the lists as a function of the event. -/
structure Represents (s : Registration) (r : Registry) : Prop where
  lists : s.lists = .of r
  coherent : s.runtime.Coherent
  registered : ∀ event, (r event).filter (·.isMiniTrace) = s.entries event

theorem Represents.start {s next : Registration} {r : Registry} (represents : s.Represents r)
    (environment : StartEnvironment) (address : Nat) (taken : s.start environment address = some next) :
    ∃ r', next.Represents r' ∧ r'.others = r.others := by
  unfold Registration.start at taken
  cases chosen : s.runtime.decision environment with
  | ignore =>
    rw [chosen] at taken
    cases taken
    exact ⟨r,represents,rfl⟩
  | abort =>
    rw [chosen] at taken
    cases taken
  | proceed config =>
    have idle := Runtime.decision_inactive environment s.runtime config chosen
    rw [chosen] at taken
    dsimp only at taken
    split at taken
    · cases taken
    rw [represents.lists,ListenerLists.of_addListener] at taken
    cases taken
    refine ⟨_,⟨rfl,Runtime.startTrace_coherent config s.runtime,fun event => ?_⟩,Registry.add_miniTrace_others _ _ _⟩
    rw [Registry.add_miniTrace_miniTrace,represents.registered,entries,idle]
    rfl

theorem Represents.stop {s next : Registration} {r : Registry} (represents : s.Represents r)
    (taken : s.stop = some next) : ∃ r', next.Represents r' ∧ r'.others = r.others := by
  unfold Registration.stop at taken
  cases active : s.runtime.theTrace with
  | none =>
    rw [active] at taken
    cases taken
    exact ⟨r,represents,rfl⟩
  | some trace =>
    rw [active] at taken
    dsimp only at taken
    rw [represents.lists,ListenerLists.of_removeListener] at taken
    cases taken
    refine ⟨_,⟨rfl,s.runtime.stop_coherent represents.coherent,fun event => ?_⟩,Registry.remove_miniTrace_others _ _ _⟩
    have stopped : s.runtime.stop.theTrace = none := by
      rw [Runtime.stop,active]
      rfl
    rw [Registry.remove_miniTrace_miniTrace,represents.registered,entries,entries,active,stopped]
    dsimp only
    split <;> simp

theorem Represents.client {s : Registration} {r : Registry} (represents : s.Represents r) (call : ListenerCall) :
    ∃ r', call.apply s.lists = some (.of r') ∧ call.apply (.of r.others) = some (.of r'.others) ∧
      ∀ event, (r' event).filter (·.isMiniTrace) = s.entries event := by
  rw [represents.lists]
  cases call with
  | add address events =>
    refine ⟨_,ListenerLists.of_addListener _ _ _,?_,fun event => ?_⟩
    · rw [Registry.add_other_others]
      exact ListenerLists.of_addListener _ _ _
    · rw [Registry.add_other_miniTrace,represents.registered]
  | remove address events =>
    refine ⟨_,ListenerLists.of_removeListener _ _ _,?_,fun event => ?_⟩
    · rw [Registry.remove_other_others]
      exact ListenerLists.of_removeListener _ _ _
    · rw [Registry.remove_other_miniTrace,represents.registered]

theorem represents_step (operation : Operation) (s next : Registration) (r : Registry) (represents : s.Represents r)
    (taken : step operation s = some next) : ∃ r' : Registry, next.Represents r' ∧
      run ListenerCall.apply operation.call?.toList (.of r.others) = some (.of r'.others) := by
  cases operation with
  | start environment address =>
    obtain ⟨r',kept,same⟩ := represents.start environment address taken
    exact ⟨r',kept,by rw [same]; rfl⟩
  | stop =>
    obtain ⟨r',kept,same⟩ := represents.stop taken
    exact ⟨r',kept,by rw [same]; rfl⟩
  | shutdown =>
    change s.shutdown = some next at taken
    unfold shutdown at taken
    split at taken
    · obtain ⟨r',kept,same⟩ := represents.stop taken
      exact ⟨r',kept,by rw [same]; rfl⟩
    · cases taken
      exact ⟨r,represents,rfl⟩
  | client call =>
    obtain ⟨r',applied,alone,registered⟩ := represents.client call
    rw [step,applied] at taken
    cases taken
    refine ⟨r',⟨rfl,represents.coherent,registered⟩,?_⟩
    simp only [Operation.call?,Option.toList_some,run_cons,alone,Option.bind_some,run_nil]

theorem Represents.aborts {s : Registration} {r : Registry} (represents : s.Represents r) (operation : Operation)
    (stuck : step operation s = none) : s.Aborts operation := by
  have stops : s.stop ≠ none := by
    unfold Registration.stop
    rw [represents.lists]
    cases s.runtime.theTrace with
    | none => exact nofun
    | some trace =>
      dsimp only
      rw [ListenerLists.of_removeListener]
      exact nofun
  cases operation with
  | start environment address =>
    change s.start environment address = none at stuck
    unfold Registration.start at stuck
    cases chosen : s.runtime.decision environment with
    | ignore =>
      rw [chosen] at stuck
      cases stuck
    | abort => exact .inl chosen
    | proceed config =>
      rw [chosen] at stuck
      dsimp only at stuck
      split at stuck
      · rename_i negative
        exact .inr ⟨config,chosen,negative⟩
      · rw [represents.lists,ListenerLists.of_addListener] at stuck
        cases stuck
  | stop => exact absurd stuck stops
  | shutdown =>
    change s.shutdown = none at stuck
    unfold shutdown at stuck
    split at stuck
    · exact absurd stuck stops
    · cases stuck
  | client call =>
    obtain ⟨r',applied,-⟩ := represents.client call
    rw [step,applied] at stuck
    cases stuck

theorem represents_run (operations : List Operation) (s final : Registration) (r : Registry)
    (represents : s.Represents r) (reached : run step operations s = some final) : ∃ r' : Registry,
      final.Represents r' ∧
      run ListenerCall.apply (operations.filterMap Operation.call?) (.of r.others) = some (.of r'.others) := by
  induction operations generalizing s r with
  | nil =>
    cases reached
    exact ⟨r,represents,rfl⟩
  | cons operation rest ih =>
    rw [run_cons] at reached
    obtain ⟨next,taken,onward⟩ := Option.bind_eq_some_iff.mp reached
    obtain ⟨middle,kept,first⟩ := represents_step operation s next r represents taken
    obtain ⟨r',final,later⟩ := ih next middle kept onward
    have calls : (operation :: rest).filterMap Operation.call? =
        operation.call?.toList ++ rest.filterMap Operation.call? := by
      cases operation <;> rfl
    refine ⟨r',final,?_⟩
    rw [calls,run_append,first]
    exact later

theorem Represents.follows {s : Registration} {r : Registry} (represents : s.Represents r) :
    s.Follows (.of r.others) := by
  refine ⟨represents.coherent.1,represents.coherent.2,fun event => ?_,fun event => ?_,fun event => ?_,fun idle => ?_⟩
  · rw [represents.lists,ListenerLists.of_listeners,represents.registered]
  · rw [represents.lists,ListenerLists.of_listeners,ListenerLists.of_listeners]
    rfl
  · rw [represents.lists,ListenerLists.of_present,ListenerLists.of_present,← represents.registered,Registry.others]
    induction r event with
    | nil => rfl
    | cons listener rest ih => cases listener <;> simp [ListenerPointer.isMiniTrace]
  · rw [represents.lists]
    congr 1
    funext event
    refine (List.filter_eq_self.mpr fun listener member => ?_).symm
    have none_ : (r event).filter (·.isMiniTrace) = [] := by
      rw [represents.registered,entries,idle]
    have plain := List.filter_eq_nil_iff.mp none_ listener member
    simpa using plain

theorem stop_ends {s next : Registration} (taken : s.stop = some next) : next.runtime.theTrace = none := by
  unfold stop at taken
  split at taken
  · rename_i idle
    cases taken
    exact idle
  · rename_i trace active
    split at taken
    · cases taken
    · cases taken
      simp [Runtime.stop,active]

theorem shutdown_ends {s next : Registration} (taken : s.shutdown = some next) : next.runtime.theTrace = none := by
  unfold shutdown at taken
  split at taken
  · exact stop_ends taken
  · rename_i idle
    cases taken
    simpa using idle

/-- For every sequence of operations: the state between operations is that of the other clients' calls alone, with
the current trace in the lists that its events select; `Stop` and `Shutdown` end the trace; and only a `Start` can end
the process. -/
theorem registration_follows_trace (runtime : Runtime) (address : Nat) (idle : runtime.theTrace = none)
    (unlisted : runtime.whitelist = none)
    (unrequested : ∀ level, (.kMiniTracerInstrumentationKey,level) ∉ runtime.instrumentation.requestedLevels)
    (operations : List Operation) (final : Registration)
    (reached : run step operations ⟨runtime,.empty,address⟩ = some final) :
    (∃ others, run ListenerCall.apply (operations.filterMap Operation.call?) .empty = some others ∧
      final.Follows others) ∧
      (∀ operation ∈ [.stop,.shutdown], ∀ next, step operation final = some next → next.runtime.theTrace = none) ∧
      ∀ operation, step operation final = none → final.Aborts operation := by
  have initial : Represents ⟨runtime,.empty,address⟩ fun _ => [] := by
    refine ⟨ListenerLists.of_empty,⟨?_,?_⟩,fun event => ?_⟩
    · simp [idle,unlisted]
    · exact iff_of_false (by simp [idle]) fun ⟨level,member⟩ => unrequested level member
    · rw [entries,idle]
      rfl
  obtain ⟨r,represents,alone⟩ := represents_run operations _ final _ initial reached
  refine ⟨⟨_,alone,represents.follows⟩,fun operation member next taken => ?_,represents.aborts⟩
  rcases List.mem_pair.mp member with rfl | rfl
  · exact stop_ends taken
  · exact shutdown_ends taken

/-- Another client is there before the trace, a second one comes while it runs and stays after it. -/
def twoClients : List Operation :=
  [.client (.add 5 0x11),.start ⟨.content ['F','i','e','l','d','E','v','e','n','t','\n'],true,true⟩ 8,
    .client (.add 6 0x20),.stop]

theorem registration_follows_two_clients :
    (run step (twoClients.take 3) ⟨.fresh,.empty,0⟩).any (·.runtime.theTrace.isSome) = true ∧
    ∃ final others, run step twoClients ⟨.fresh,.empty,0⟩ = some final ∧ final.runtime.theTrace = none ∧
      final.Follows others ∧ others.listeners .fieldRead = [.other 5] ∧
      others.listeners .fieldWritten = [.other 6] := by
  have ends : (run step twoClients ⟨.fresh,.empty,0⟩).map (·.runtime.theTrace) = some none := by decide +kernel
  obtain ⟨final,reached,idle⟩ := Option.map_eq_some_iff.mp ends
  obtain ⟨⟨others,alone,follows⟩,-⟩ := registration_follows_trace .fresh 0 rfl rfl nofun twoClients final reached
  refine ⟨by decide +kernel,final,others,reached,idle,follows,?_⟩
  cases alone
  decide

def methodListeners (deoptimizationEnabled : Bool) (s : Registration) : Listeners :=
  ⟨(s.lists.listeners .methodEntered).map (·.listener),(s.lists.listeners .methodExited).map (·.listener),
    (s.lists.listeners .methodUnwind).map (·.listener),deoptimizationEnabled⟩

theorem start_methodListeners (config : Config) (address : Nat) (s : Registration) (r : Registry) (enabled : Bool)
    (represents : s.Represents r) (lists : ListenerLists)
    (added : s.lists.addListener (.miniTrace address) config.events = some lists) :
    methodListeners enabled ⟨s.runtime.startTrace config,lists,address⟩ =
      (s.methodListeners enabled).addListener .miniTrace config.events := by
  rw [represents.lists,ListenerLists.of_addListener] at added
  cases added
  have same : ∀ event, ((r.add (.miniTrace address) config.events) event).map (·.listener) =
      Listeners.addTo (hasEvent event config.events) .miniTrace ((r event).map (·.listener)) := by
    intro event
    unfold Registry.add Listeners.addTo
    split <;> simp [ListenerPointer.listener]
  unfold methodListeners
  rw [represents.lists]
  simp only [ListenerLists.of_listeners,same]
  rfl

theorem stop_methodListeners (s : Registration) (r : Registry) (enabled : Bool) (represents : s.Represents r)
    (trace : TraceObject) (active : s.runtime.theTrace = some trace) (lists : ListenerLists)
    (removed : s.lists.removeListener (.miniTrace s.address) trace.events = some lists) :
    methodListeners enabled { s with runtime := s.runtime.stop, lists := lists } =
      (s.methodListeners enabled).removeListener .miniTrace trace.events := by
  rw [represents.lists,ListenerLists.of_removeListener] at removed
  cases removed
  have only : ∀ event, ∀ listener ∈ r event, listener ≠ .miniTrace s.address ↔ listener.listener ≠ .miniTrace := by
    intro event listener member
    cases listener with
    | other address => exact iff_of_true nofun nofun
    | miniTrace address =>
      have current : .miniTrace address ∈ (r event).filter (·.isMiniTrace) := List.mem_filter.mpr ⟨member,rfl⟩
      rw [represents.registered,entries,active] at current
      dsimp only at current
      split at current
      · rw [List.mem_singleton.mp current]
        exact iff_of_false (fun ne => ne rfl) fun ne => ne rfl
      · cases current
  have same : ∀ event, ((r.remove (.miniTrace s.address) trace.events) event).map (·.listener) =
      Listeners.removeFrom (hasEvent event trace.events) .miniTrace ((r event).map (·.listener)) := by
    intro event
    unfold Registry.remove Listeners.removeFrom
    split
    · rw [List.filter_map]
      exact congrArg _ (List.filter_congr fun listener member => decide_eq_decide.mpr (only event listener member))
    · rfl
  unfold methodListeners
  rw [represents.lists]
  simp only [ListenerLists.of_listeners,same]
  rfl

end Registration

end Aatt
