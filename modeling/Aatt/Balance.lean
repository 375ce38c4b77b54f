import Aatt.Restore
import Aatt.Stopping

/-! Whether the method records of a thread match, as their bytes are decoded. The walk of the stacks at `Start`
creates no enter events, since the interpreter stubs are installed before it, so a frame that is already on a stack
leaves an exit record without an enter record when it is removed. The record of an exit names its method under the
low half of the return value. -/
namespace Aatt

open Aatt.Lib

/-- The activations of every thread, from the top of its stack downwards, and the callbacks that
`MiniTrace` has got since `Start`. -/
structure Execution where
  runtime : Runtime
  listeners : Listeners
  activations : BitVec 32 → List Address
  calls : List TraceCall

/-- The state when `Start` returns. -/
def Process.execution (p : Process) (calls : List TraceCall) : Execution where
  runtime := p.runtime
  listeners := p.listeners
  activations thread := (p.threads.filter (·.tid = thread)).flatMap fun stack =>
    stack.frames.filterMap StackFrame.activation
  calls := calls

inductive Activity where
  | call (thread : BitVec 32) (method : Address)
  | exit (thread : BitVec 32) (returnValue : BitVec 64)
  | unwind (thread : BitVec 32)
  | link (linking : Linking)

namespace Execution

def emit (x : Execution) (event : MethodEvent) : List TraceCall :=
  x.calls ++ x.listeners.deliver x.runtime event

/-- Events are delivered as the listener interface documents: one `MethodEntered` for an activation that
begins, one `MethodExited` or `MethodUnwind` when it is removed, last in first out in each thread. -/
def step : Activity → Execution → Option Execution
  | .call thread method, x => some { x with
      activations := Function.update x.activations thread (method :: x.activations thread)
      calls := x.emit (.entered thread method) }
  | .exit thread returnValue, x =>
    match x.activations thread with
    | [] => none
    | method :: rest => some { x with
        activations := Function.update x.activations thread rest
        calls := x.emit (.exited thread method returnValue) }
  | .unwind thread, x =>
    match x.activations thread with
    | [] => none
    | method :: rest => some { x with
        activations := Function.update x.activations thread rest
        calls := x.emit (.unwind thread method) }
  | .link linking, x => (Runtime.step linking.operation x.runtime).map fun runtime => { x with runtime := runtime }

end Execution

/-- The records that the calls put into the buffer, each with its call. -/
def recorded : List TraceCall → Session → List (TraceCall × List Byte)
  | [], _ => []
  | call :: rest, s =>
    match log call s with
    | .error _ => []
    | .ok next => if content next = content s then recorded rest next else (call,lastSlot next) :: recorded rest next

/-- Reads a record. The list holds the unmatched enter records, the most recent one first: the method of each record and
the address that it names. -/
def matchAction (action : MiniTraceAction) (method : Address × Address) (unmatched : List (Address × Address)) :
    Option (List (Address × Address)) :=
  match action,unmatched with
  | .methodEnter,_ => some (method :: unmatched)
  | .methodExit,last :: earlier | .unroll,last :: earlier => if last = method then some earlier else none
  | .methodExit,[] | .unroll,[] => none
  | _,_ => some unmatched

def matchRecord (unmatched : List (Address × Address)) (record : TraceCall × List Byte) :
    Option (List (Address × Address)) :=
  matchAction (decodeMiniTraceAction (recordWord record.2))
    (record.1.subject,decodeMiniTraceMethodId (recordWord record.2)) unmatched

/-- In the records of the thread, every exit or unwind record is matched by the most recent unmatched
enter record: it is of the same method, and names the same. -/
def Balanced (thread : BitVec 32) (records : List (TraceCall × List Byte)) : Prop :=
  ((records.filter (·.1.thread = thread)).foldlM matchRecord []).isSome = true

instance (thread : BitVec 32) (records : List (TraceCall × List Byte)) : Decidable (Balanced thread records) :=
  inferInstanceAs (Decidable (_ = true))

/-- A class that is defined brings new methods: none of them has an activation. -/
def FreshMethods : Activity → Execution → Prop
  | .link (.define definition _), x => ∀ thread, ∀ method ∈ x.activations thread,
    ∀ source ∈ definition.directMethods ++ definition.virtualMethods ++ definition.mirandaMethods,
      source.address ≠ method
  | _, _ => True

/-- Methods are where an address has no action bits, and what returns from a traceable method does not change the
address that the record names. -/
def Legible : Activity → Execution → Prop
  | .call _ method, _ => Aligned method
  | .exit thread returnValue, x => ∀ method ∈ (x.activations thread).head?, x.runtime.traceable method = true →
    returnValue.toNat % 2 ^ 16 = 0
  | _, _ => True

theorem recorded_exhausted (calls : List TraceCall) (s : Session) (ready : Ready s) (exhausted : Exhausted s) :
    recorded calls s = [] := by
  induction calls with
  | nil => rfl
  | cons call rest ih =>
    rw [recorded]
    cases logged : log call s with
    | error halt => rfl
    | ok next =>
      cases log_logs call s next ready logged with
      | filtered untraceable same => simp [same,ih]
      | refused traceable exhausted same => simp [same,ih]
      | appended action m accepts appended =>
        have one := appended.room_succ ready
        rw [(exhausted_iff_no_room s ready).mp exhausted] at one
        omega

theorem Appended.content_ne {call : TraceCall} {action : MiniTraceAction} {s m s' : Session}
    (appended : Appended (call.stores action) s m s') : content s' ≠ content s := by
  intro same
  have length : (lastSlot s').length = kMiniTraceRecordSize := by
    rw [appended.lastSlot_eq,writeStores_length,slot_length _ _ _ appended.fits]
  have longer := congrArg List.length same
  rw [appended.content_eq (stores_inside call action),List.length_append,length,kMiniTraceRecordSize] at longer
  omega

theorem recorded_front (calls : List TraceCall) (s : Session) (ready : Ready s) :
    (recorded calls s).map Prod.fst <+: calls.filter TraceCall.traceable := by
  induction calls generalizing s with
  | nil => exact List.prefix_rfl
  | cons call rest ih =>
    rw [recorded]
    cases logged : log call s with
    | error halt => exact List.nil_prefix
    | ok next =>
      have logs := log_logs call s next ready logged
      cases logs with
      | filtered untraceable same =>
        subst same
        simpa [untraceable] using ih next ready
      | refused traceable exhausted same =>
        subst same
        simp [recorded_exhausted rest next ready exhausted]
      | appended action m accepts appended =>
        simp only [if_neg appended.content_ne,List.filter_cons_of_pos accepts.1,List.map_cons]
        exact (List.prefix_cons_inj call).mpr (ih next (appended.ready ready))

/-- The bytes are what the call of the record stores over a slot. -/
def Written (record : TraceCall × List Byte) : Prop :=
  ∃ action old, Accepts record.1 action ∧ old.length = kMiniTraceRecordSize ∧
    record.2 = writeStores old (record.1.stores action)

theorem recorded_written (calls : List TraceCall) (s : Session) (ready : Ready s) :
    ∀ record ∈ recorded calls s, Written record := by
  induction calls generalizing s with
  | nil => nofun
  | cons call rest ih =>
    rw [recorded]
    cases logged : log call s with
    | error halt => nofun
    | ok next =>
      have logs := log_logs call s next ready logged
      dsimp only
      split
      · exact ih next (logs.ready ready)
      · rename_i changed
        refine List.forall_mem_cons.mpr ⟨?_,ih next (logs.ready ready)⟩
        cases logs with
        | filtered untraceable same => exact absurd (by rw [same]) changed
        | refused traceable exhausted same => exact absurd (by rw [same]) changed
        | appended action m accepts appended =>
          exact ⟨action,_,accepts,slot_length _ _ _ appended.fits,appended.lastSlot_eq⟩

theorem recorded_all (calls : List TraceCall) (s final : Session) (ready : Ready s)
    (returned : logAll calls s = .ok final) (roomy : calls.countP TraceCall.traceable ≤ room s) :
    (recorded calls s).map Prod.fst = calls.filter TraceCall.traceable := by
  induction calls generalizing s with
  | nil => rfl
  | cons call rest ih =>
    obtain ⟨next,logged,onward⟩ := logAll_cons call rest s final returned
    simp only [recorded,logged]
    rw [List.countP_cons] at roomy
    cases log_logs call s next ready logged with
    | filtered untraceable same =>
      subst same
      simpa [untraceable] using ih next ready onward (by omega)
    | refused traceable exhausted same =>
      have full : room s = 0 := (exhausted_iff_no_room s ready).mp exhausted
      rw [if_pos traceable] at roomy
      omega
    | appended action m accepts appended =>
      have one := appended.room_succ ready
      rw [if_pos accepts.1] at roomy
      rw [if_neg appended.content_ne,List.filter_cons_of_pos accepts.1,List.map_cons,
        ih next (appended.ready ready) onward (by omega)]

/-- The address in the record is decoded, with its action. -/
def TraceCall.Legible (call : TraceCall) : Prop := Aligned call.subject ∧ call.named.toNat < 2 ^ 32

instance (call : TraceCall) : Decidable call.Legible := inferInstanceAs (Decidable (_ ∧ _))

def matchCall (unmatched : List (Address × Address)) (call : TraceCall) : Option (List (Address × Address)) :=
  call.action.bind fun action => matchAction action (call.subject,call.named) unmatched

theorem matchRecord_eq {record : TraceCall × List Byte} (written : Written record) (legible : record.1.Legible)
    (unmatched : List (Address × Address)) : matchRecord unmatched record = matchCall unmatched record.1 := by
  obtain ⟨action,old,accepts,size,bytes⟩ := written
  have read := record_action old size record.1 action legible.1
  have word := record_word old size record.1 action
  rw [matchRecord,matchCall,accepts.2,bytes,read,word,
    decode_method_encode _ action legible.2 (named_aligned record.1 legible.1)]
  rfl

theorem foldlM_matchRecord {records : List (TraceCall × List Byte)}
    (same : ∀ record ∈ records, ∀ unmatched, matchRecord unmatched record = matchCall unmatched record.1)
    (unmatched : List (Address × Address)) :
    records.foldlM matchRecord unmatched = (records.map Prod.fst).foldlM matchCall unmatched := by
  induction records generalizing unmatched with
  | nil => rfl
  | cons record rest ih =>
    obtain ⟨first,others⟩ := List.forall_mem_cons.mp same
    rw [List.foldlM_cons,List.map_cons,List.foldlM_cons,first]
    congr 1
    funext next
    exact ih others next

/-- The enter records of a thread that are unmatched after the calls. -/
def unmatched (thread : BitVec 32) (calls : List TraceCall) : Option (List (Address × Address)) :=
  (calls.filter (·.thread = thread)).foldlM matchCall []

theorem balanced_iff {thread : BitVec 32} {calls : List TraceCall} {s : Session} (ready : Ready s)
    (legible : ∀ call ∈ calls, call.traceable = true → call.Legible) :
    Balanced thread (recorded calls s) ↔ (unmatched thread ((recorded calls s).map Prod.fst)).isSome = true := by
  have same : ∀ record ∈ (recorded calls s).filter (·.1.thread = thread), ∀ unmatched,
      matchRecord unmatched record = matchCall unmatched record.1 := by
    intro record member
    have listed := List.mem_of_mem_filter member
    obtain ⟨inside,traceable⟩ := List.mem_filter.mp ((recorded_front calls s ready).subset (List.mem_map_of_mem listed))
    exact matchRecord_eq (recorded_written calls s ready record listed) (legible record.1 inside traceable)
  rw [Balanced,foldlM_matchRecord same,unmatched,List.filter_map]
  rfl

theorem unmatched_of_front {thread : BitVec 32} {front calls : List TraceCall} (before : front <+: calls)
    (read : (unmatched thread calls).isSome = true) : (unmatched thread front).isSome = true := by
  obtain ⟨back,rfl⟩ := before
  unfold unmatched at read ⊢
  rw [List.filter_append,List.foldlM_append] at read
  cases front : (front.filter (·.thread = thread)).foldlM matchCall [] with
  | none => simp [front] at read
  | some unmatched => rfl

theorem initializeClass_flags (i : Instrumentation) (succeeds : Bool) (klass : Class) :
    (Runtime.initializeClass i succeeds klass).flags = klass.flags := by
  unfold Runtime.initializeClass
  split
  · rfl
  split
  · have same := flags_of_shape (fixupStaticTrampolines_shape i { klass with status := .initialized })
    exact same
  · rfl

theorem ensureInitialized_flags (s : Runtime) (descriptor : List Char) (classLoader : Nat) (succeeds : Bool)
    (method : Address) : (s.ensureInitialized descriptor classLoader succeeds).accessFlagsOf method =
      s.accessFlagsOf method := by
  have same : (s.ensureInitialized descriptor classLoader succeeds).classes.flatMap Class.flags =
      s.classes.flatMap Class.flags := by
    simp only [Runtime.ensureInitialized,List.flatMap_map]
    refine List.flatMap_congr fun klass _ => ?_
    split
    · exact initializeClass_flags s.instrumentation succeeds klass
    · rfl
  rw [accessFlagsOf_eq,accessFlagsOf_eq,same]

theorem append_flags (s : Runtime) (added : Class) (method : Address)
    (absent : ∀ declared ∈ added.methods, declared.address ≠ method) :
    Runtime.accessFlagsOf { s with classes := s.classes ++ [added] } method = s.accessFlagsOf method := by
  have missing : added.methods.find? (·.address = method) = none := by
    simpa [List.find?_eq_none] using absent
  simp only [Runtime.accessFlagsOf,List.flatMap_append,List.flatMap_cons,List.flatMap_nil,List.append_nil,
    List.find?_append,missing,Option.or_none]

theorem loadClass_addresses (i : Instrumentation) (definition : ClassDef) (status : Status) :
    (loadClass i definition status).methods.map ArtMethod.address =
      (definition.directMethods ++ definition.virtualMethods ++ definition.mirandaMethods).map MethodDef.address := by
  simp only [Class.methods,loadClass,List.map_append,List.map_map,List.append_assoc]
  rfl

theorem define_flags (s : Runtime) (definition : ClassDef) (outcome : DefineOutcome) (method : Address)
    (fresh : ∀ source ∈ definition.directMethods ++ definition.virtualMethods ++ definition.mirandaMethods,
      source.address ≠ method) : (s.define definition outcome).accessFlagsOf method = s.accessFlagsOf method := by
  have absent : ∀ (i : Instrumentation) (status : Status) (declared : ArtMethod),
      declared ∈ (loadClass i definition status).methods → declared.address ≠ method := by
    intro i status declared member
    have listed : declared.address ∈ (loadClass i definition status).methods.map ArtMethod.address :=
      List.mem_map_of_mem member
    rw [loadClass_addresses] at listed
    obtain ⟨source,inside,same⟩ := List.mem_map.mp listed
    exact same ▸ fresh source inside
  unfold Runtime.define
  split
  · rfl
  cases outcome with
  | failed => exact append_flags s _ method (absent s.instrumentation .error)
  | resolved =>
    refine append_flags s _ method ?_
    obtain ⟨f,state,-⟩ := (Class.Over.self (loadClass s.instrumentation definition .resolved)).prepare s.whitelist
    rw [installStubsForClass_unmarked _ _ (loadClass_unmarked _ _ _),ite_self,state.methods]
    intro declared member
    obtain ⟨original,inside,rfl⟩ := List.mem_map.mp member
    rw [(state.alike original).address]
    exact absent s.instrumentation .resolved original inside

theorem Process.startTrace_silent (config : Config) (writes : List WriteOutcome) (spurious : List Bool)
    (p next : Process) (calls : List TraceCall) (started : p.startTrace config writes spurious = .ok (next,calls)) :
    calls = [] ∧ next.listeners = p.listeners.addListener .miniTrace config.events ∧
      next.runtime = p.runtime.startTrace config ∧
      next.threads.map (fun thread => (thread.tid,thread.activations)) =
        p.threads.map fun thread => (thread.tid,thread.activations) := by
  have installed := enableMethodTracing_installs .kMiniTracerInstrumentationKey p.runtime.instrumentation
    p.runtime.classes
  obtain ⟨-,-,started⟩ := bind_ok started
  generalize enableMethodTracing .kMiniTracerInstrumentationKey p.runtime.instrumentation p.runtime.classes = enabled
    at started installed
  obtain ⟨i,classes,walk⟩ := enabled
  obtain ⟨⟨threads,events⟩,walked,started⟩ := bind_ok started
  obtain ⟨reported,kept⟩ := walkStacks_events walk _ i _ _ _ walked
  have quiet : events = [] := by
    refine List.eq_nil_iff_forall_not_mem.mpr fun event member => ?_
    have notified := (shouldNotify_iff _ i).mp ((reported event).mp member).1
    exact absurd (installed.symm.trans notified.2.2) (by decide)
  obtain ⟨session,-,started⟩ := bind_ok started
  cases started
  exact ⟨by rw [quiet]; rfl,rfl,rfl,kept⟩

/-- A class that `Start` does not mark keeps the flags of its methods, and every class their addresses. -/
theorem postClassPrepare_flags (whitelist : List (List Char)) (klass : Class) :
    ((klass.excluded || !doTrace (some whitelist) klass) = true →
      (postClassPrepare (some whitelist) klass).flags = klass.flags) ∧
    (postClassPrepare (some whitelist) klass).flags.map Prod.fst = klass.flags.map Prod.fst := by
  unfold postClassPrepare
  cases klass.excluded with
  | true => exact ⟨fun _ => rfl,rfl⟩
  | false =>
    cases doTrace (some whitelist) klass with
    | false => exact ⟨fun _ => rfl,rfl⟩
    | true =>
      refine ⟨nofun,?_⟩
      have methods : klass.mark.methods = klass.methods.map ArtMethod.setIsMiniTraceable :=
        mapMethods_methods _ ArtMethod.setIsMiniTraceable_isStatic klass
      simp only [Bool.false_eq_true,if_false,Bool.not_true,Class.flags,methods,List.map_map]
      rfl

/-- Without an activation of a method that is marked already or that `Start` marks, no activation is of a
traceable method when it returns. -/
theorem Process.startTrace_quiet (config : Config) (writes : List WriteOutcome) (spurious : List Bool)
    (p next : Process) (calls : List TraceCall) (started : p.startTrace config writes spurious = .ok (next,calls))
    (untouched : ∀ stack ∈ p.threads, ∀ method ∈ stack.activations, ∀ klass ∈ p.runtime.classes,
      ∀ declared ∈ klass.methods, declared.address = method → declared.isMiniTraceable = false ∧
        (klass.excluded || !doTrace (some config.whitelist) klass) = true) :
    ∀ thread, ∀ method ∈ (next.execution calls).activations thread, next.runtime.traceable method = false := by
  obtain ⟨-,-,runtime,kept⟩ := p.startTrace_silent config writes spurious next calls started
  obtain ⟨f,classes,keeps⟩ := startTrace_classes p.runtime config
  intro thread method member
  obtain ⟨stack,listed,active⟩ := List.mem_flatMap.mp member
  have image : (stack.tid,stack.activations) ∈ p.threads.map fun thread => (thread.tid,thread.activations) :=
    kept ▸ List.mem_map_of_mem (List.mem_of_mem_filter listed)
  obtain ⟨original,inside,same⟩ := List.mem_map.mp image
  have before : method ∈ original.activations := (Prod.mk.inj same).2 ▸ active
  rw [Runtime.traceable,runtime,accessFlagsOf_eq,classes]
  cases found : ((p.runtime.classes.map fun klass => postClassPrepare (some config.whitelist) (f klass)).flatMap
      Class.flags).find? (·.1 = method) with
  | none => rfl
  | some entry =>
    have own : entry.1 = method := by simpa using List.find?_some found
    obtain ⟨prepared,preparedIn,flagged⟩ := List.mem_flatMap.mp (List.mem_of_find?_eq_some found)
    obtain ⟨klass,klassIn,rfl⟩ := List.mem_map.mp preparedIn
    have flags := flags_of_shape (keeps klass)
    have kind := kind_of_shape (keeps klass)
    obtain ⟨unchanged,addresses⟩ := postClassPrepare_flags config.whitelist (f klass)
    have declares : entry.1 ∈ klass.flags.map Prod.fst := by
      rw [← flags,← addresses]
      exact List.mem_map_of_mem flagged
    simp only [Class.flags,List.map_map,List.mem_map] at declares
    obtain ⟨declared,declaredIn,address⟩ := declares
    have skipped := (untouched original inside method before klass klassIn declared declaredIn (address.trans own)).2
    simp only [Class.kind,Prod.mk.injEq] at kind
    rw [unchanged (by simpa only [doTrace,kind.1,kind.2.1,kind.2.2] using skipped),flags] at flagged
    obtain ⟨exact_,exactIn,rfl⟩ := List.mem_map.mp flagged
    exact (untouched original inside method before klass klassIn exact_ exactIn own).1

/-- `MiniTrace` is in each of the lists once. -/
structure Listeners.Registered (l : Listeners) : Prop where
  methodEntry : l.methodEntry.count .miniTrace = 1
  methodExit : l.methodExit.count .miniTrace = 1
  methodUnwind : l.methodUnwind.count .miniTrace = 1

theorem Listeners.Registered.deliver_eq {l : Listeners} (registered : l.Registered) (s : Runtime)
    (event : MethodEvent) :
    l.deliver s event = [event.traceCall s] := by
  have once : (l.ofEvent event).count .miniTrace = 1 := by
    cases event with
    | entered thread method => exact registered.methodEntry
    | exited thread method returnValue => exact registered.methodExit
    | unwind thread method => exact registered.methodUnwind
  rw [Listeners.deliver_eq,once]
  rfl

theorem addListener_registered (l : Listeners) (events : BitVec 32)
    (wanted : ∀ bit ∈ [kDoMethodEntered,kDoMethodExited,kDoMethodUnwind], Listeners.hasEvent bit events = true)
    (absent : ∀ listeners ∈ [l.methodEntry,l.methodExit,l.methodUnwind], Listener.miniTrace ∉ listeners) :
    (l.addListener .miniTrace events).Registered := by
  have once : ∀ bit ∈ [kDoMethodEntered,kDoMethodExited,kDoMethodUnwind],
      ∀ listeners ∈ [l.methodEntry,l.methodExit,l.methodUnwind],
      (Listeners.addTo (Listeners.hasEvent bit events) .miniTrace listeners).count .miniTrace = 1 := by
    intro bit isBit listeners isList
    rw [wanted bit isBit,Listeners.addTo,if_pos rfl,List.count_append,List.count_eq_zero.mpr (absent listeners isList)]
    rfl
  exact ⟨once _ (by simp) _ (by simp),once _ (by simp) _ (by simp),once _ (by simp) _ (by simp)⟩

theorem unmatched_append (thread : BitVec 32) (calls : List TraceCall) (call : TraceCall) :
    unmatched thread ((calls ++ [call]).filter TraceCall.traceable) =
      if call.traceable ∧ call.thread = thread then (unmatched thread (calls.filter TraceCall.traceable)).bind
        (matchCall · call)
      else unmatched thread (calls.filter TraceCall.traceable) := by
  unfold unmatched
  rw [List.filter_append,List.filter_append,List.foldlM_append]
  split
  · rename_i own
    simp [own.1,own.2]
  · rename_i other
    cases traceable : call.traceable with
    | false => simp [traceable]
    | true => simp_all

/-- A method and the address that its enter record names. -/
def entered (method : Address) : Address × Address := (method,overwritten method 0)

theorem overwritten_zero (method : Address) {returnValue : BitVec 64} (low : returnValue.toNat % 2 ^ 16 = 0) :
    overwritten method returnValue = overwritten method 0 := by
  apply BitVec.eq_of_toNat_eq
  rw [overwritten_toNat,overwritten_toNat,low]
  rfl

namespace Execution

/-- The unmatched enter records of each thread are its activations of traceable methods. -/
structure Matched (x : Execution) : Prop where
  registered : x.listeners.Registered
  unmatched : ∀ thread, unmatched thread (x.calls.filter TraceCall.traceable) =
    some (((x.activations thread).filter x.runtime.traceable).map entered)
  legible : ∀ call ∈ x.calls, call.traceable = true → call.Legible
  aligned : ∀ thread, ∀ method ∈ x.activations thread, x.runtime.traceable method = true → Aligned method

theorem Matched.emit_eq {x : Execution} (good : x.Matched) (event : MethodEvent) :
    x.emit event = x.calls ++ [event.traceCall x.runtime] := by
  rw [emit,good.registered.deliver_eq]

theorem matched_event (x : Execution) (event : MethodEvent) (thread : BitVec 32) (method : Address)
    (rest : List Address) (good : x.Matched) (own : (event.traceCall x.runtime).thread = thread)
    (filtered : (event.traceCall x.runtime).traceable = x.runtime.traceable method)
    (read : x.runtime.traceable method = true →
      matchCall (((x.activations thread).filter x.runtime.traceable).map entered) (event.traceCall x.runtime) =
        some ((rest.filter x.runtime.traceable).map entered))
    (skipped : x.runtime.traceable method = false →
      (x.activations thread).filter x.runtime.traceable = rest.filter x.runtime.traceable)
    (legible : x.runtime.traceable method = true → (event.traceCall x.runtime).Legible)
    (aligned : ∀ method ∈ rest, x.runtime.traceable method = true → Aligned method) :
    Matched { x with activations := Function.update x.activations thread rest, calls := x.emit event } := by
  refine ⟨good.registered,fun other => ?_,?_,fun other => ?_⟩
  · dsimp only
    rw [good.emit_eq,unmatched_append,good.unmatched,filtered,own]
    by_cases same : other = thread
    · subst same
      rw [Function.update_self]
      cases traceable : x.runtime.traceable method with
      | true =>
        rw [if_pos ⟨rfl,rfl⟩]
        exact read traceable
      | false =>
        rw [if_neg (by simp),skipped traceable]
    · rw [Function.update_of_ne same,if_neg fun both => same both.2.symm]
  · dsimp only
    rw [good.emit_eq]
    refine List.forall_mem_append.mpr ⟨good.legible,fun call member traceable => ?_⟩
    obtain rfl := List.mem_singleton.mp member
    exact legible (filtered.symm.trans traceable)
  · by_cases same : other = thread
    · subst same
      simpa only [Function.update_self] using aligned
    · simpa only [Function.update_of_ne same] using good.aligned other

theorem matched_leave (x : Execution) (event : MethodEvent) (thread : BitVec 32) (method : Address)
    (rest : List Address) (good : x.Matched) (top : x.activations thread = method :: rest)
    (own : (event.traceCall x.runtime).thread = thread)
    (filtered : (event.traceCall x.runtime).traceable = x.runtime.traceable method)
    (read : x.runtime.traceable method = true →
      ∀ outer, matchCall (entered method :: outer) (event.traceCall x.runtime) = some outer)
    (legible : Aligned method → (event.traceCall x.runtime).Legible) :
    Matched { x with activations := Function.update x.activations thread rest, calls := x.emit event } := by
  have aligned := good.aligned thread
  rw [top] at aligned
  obtain ⟨innermost,outer⟩ := List.forall_mem_cons.mp aligned
  refine matched_event x event thread method rest good own filtered (fun traceable => ?_) (fun hidden => ?_)
    (fun traceable => legible (innermost traceable)) outer
  · rw [top,List.filter_cons_of_pos traceable]
    exact read traceable _
  · rw [top,List.filter_cons_of_neg (by simp [hidden])]

theorem legible_of_aligned {thread : BitVec 32} {method : Address} {accessFlags : AccessFlags}
    {event : InstrumentationEvent} {returnValue : BitVec 64} (aligned : Aligned method) :
    (TraceCall.method thread method accessFlags event returnValue).Legible :=
  ⟨aligned,overwritten_low method returnValue⟩

theorem matched_step (activity : Activity) (x next : Execution) (good : x.Matched)
    (condition : FreshMethods activity x ∧ Legible activity x) (taken : step activity x = some next) :
    next.Matched := by
  obtain ⟨fresh,legible⟩ := condition
  cases activity with
  | call thread method =>
    cases taken
    refine matched_event x (.entered thread method) thread method _ good rfl rfl (fun traceable => ?_)
      (fun hidden => ?_)
      (fun _ => legible_of_aligned legible) (List.forall_mem_cons.mpr ⟨fun _ => legible,good.aligned thread⟩)
    · rw [List.filter_cons_of_pos traceable]
      rfl
    · rw [List.filter_cons_of_neg (by simp [hidden])]
  | exit thread returnValue =>
    rw [step] at taken
    split at taken
    · cases taken
    · rename_i method rest top
      cases taken
      refine matched_leave x (.exited thread method returnValue) thread method rest good top rfl rfl
        (fun traceable outer => ?_)
        legible_of_aligned
      have named := overwritten_zero method (legible method (by rw [top]; rfl) traceable)
      exact if_pos (congrArg (method,·) named.symm)
  | unwind thread =>
    rw [step] at taken
    split at taken
    · cases taken
    · rename_i method rest top
      cases taken
      exact matched_leave x (.unwind thread method) thread method rest good top rfl rfl (fun _ _ => if_pos rfl)
        legible_of_aligned
  | link linking =>
    obtain ⟨runtime,linked,rfl⟩ := Option.map_eq_some_iff.mp taken
    have kept : ∀ thread, ∀ method ∈ x.activations thread, runtime.traceable method = x.runtime.traceable method := by
      intro thread method member
      unfold Runtime.traceable
      cases linking with
      | define definition outcome =>
        cases linked
        rw [define_flags x.runtime definition outcome method (fresh thread method member)]
      | ensureInitialized descriptor classLoader succeeds =>
        cases linked
        rw [ensureInitialized_flags]
    refine ⟨good.registered,fun thread => ?_,good.legible,fun thread method member traceable => ?_⟩
    · dsimp only
      rw [good.unmatched,List.filter_congr (kept thread)]
    · exact good.aligned thread method member ((kept thread method member).symm.trans traceable)

theorem Matched.balanced {x : Execution} (good : x.Matched) (thread : BitVec 32) (s : Session) (ready : Ready s) :
    Balanced thread (recorded x.calls s) := by
  refine (balanced_iff ready good.legible).mpr (unmatched_of_front (recorded_front x.calls s ready) ?_)
  rw [good.unmatched thread]
  rfl

/-- From any stacks without an activation of a method that is traceable when `Start` returns, the records of every
thread match in every state of every run, if classes bring new methods and what traceable methods return ends in
sixteen zero bits. -/
theorem started_run_balanced (config : Config) (writes : List WriteOutcome) (spurious : List Bool) (p next : Process)
    (calls : List TraceCall) (activities : List Activity)
    (started : p.startTrace config writes spurious = .ok (next,calls))
    (methodEvent : ∀ bit ∈ [kDoMethodEntered,kDoMethodExited,kDoMethodUnwind],
      Listeners.hasEvent bit config.events = true)
    (unregistered : ∀ listeners ∈ [p.listeners.methodEntry,p.listeners.methodExit,p.listeners.methodUnwind],
      Listener.miniTrace ∉ listeners)
    (size : kMiniTraceRecordSize ≤ config.bufferSize.toNat) (reliable : Reliable writes)
    (quiet : ∀ thread, ∀ method ∈ (next.execution calls).activations thread, next.runtime.traceable method = false)
    (condition : EachStep step (fun activity x => FreshMethods activity x ∧ Legible activity x) activities
      (next.execution calls)) :
    Throughout step (fun x => ∀ thread, Balanced thread
      (recorded x.calls (.start config.bufferSize.toNat writes spurious))) activities (next.execution calls) := by
  obtain ⟨rfl,listeners,-,-⟩ := p.startTrace_silent config writes spurious next calls started
  have initial : (next.execution []).Matched := by
    refine ⟨?_,fun thread => ?_,nofun,fun thread method member traceable => ?_⟩
    · show next.listeners.Registered
      rw [listeners]
      exact addListener_registered p.listeners config.events methodEvent unregistered
    · have hidden : ((next.execution []).activations thread).filter next.runtime.traceable = [] :=
        List.filter_eq_nil_iff.mpr fun method member => by simp [quiet thread method member]
      exact congrArg some (congrArg (List.map entered) hidden).symm
    · nomatch (quiet thread method member).symm.trans traceable
  intro front back middle split reached thread
  have good := throughout_of_each Matched (fun activity x next good met => matched_step activity x next good met)
    activities _ condition initial front back middle split reached
  exact good.balanced thread _ (start_ready config.bufferSize.toNat writes spurious size reliable)

/-- A process with the class defined and one thread, before the trace. -/
def untracedThread (thread : ThreadStack) : Process where
  runtime := Runtime.fresh.define (compiledClass ['L','a',';']) .resolved
  session := .start 14 [] []
  listeners := ⟨[],[],[],false⟩
  threads := [thread]

/-- `MethodEvent` with a whitelist that asks for the class. -/
def methodEvents (bufferSize : BitVec 32) : Config := ⟨7,bufferSize,[['L','a']]⟩

theorem start_balanced_iff {thread : BitVec 32} {calls : List TraceCall} (wellFormed : ∀ call ∈ calls, call.WellFormed)
    (legible : ∀ call ∈ calls, call.traceable = true → call.Legible)
    (roomy : calls.countP TraceCall.traceable ≤ room (.start 1024 [] [])) :
    Balanced thread (recorded calls (.start 1024 [] [])) ↔
      (unmatched thread (calls.filter TraceCall.traceable)).isSome = true := by
  have ready := start_ready 1024 [] [] (by decide) (by decide)
  obtain ⟨session,logged,-⟩ := logAll_total calls _ ready (start_readable 1024 [] []) wellFormed
  rw [balanced_iff ready legible,recorded_all calls _ session ready logged roomy]

/-- The method is on the stack when the trace starts, and its exit record is the first record; or it is called in the
trace and returns a value that changes the address in its exit record. -/
theorem exit_without_enter :
    (∃ next calls final,
      (untracedThread ⟨10,[.shadow 96],[]⟩).startTrace (methodEvents 1024) [] [] = .ok (next,calls) ∧
      run step [.exit 10 0] (next.execution calls) = some final ∧
      ¬ Balanced 10 (recorded final.calls (.start 1024 [] []))) ∧
    ∃ next calls final,
      (untracedThread ⟨10,[.upcall],[]⟩).startTrace (methodEvents 1024) [] [] = .ok (next,calls) ∧
      run step [.call 10 96,.exit 10 7] (next.execution calls) = some final ∧
      ¬ Balanced 10 (recorded final.calls (.start 1024 [] [])) := by
  refine ⟨?_,?_⟩
  · obtain ⟨next,calls,final,started,ran,delivered⟩ : ∃ next calls final,
        (untracedThread ⟨10,[.shadow 96],[]⟩).startTrace (methodEvents 1024) [] [] = .ok (next,calls) ∧
        run step [.exit 10 0] (next.execution calls) = some final ∧
        final.calls = [.method 10 96 (1 ||| kAccIsMiniTraceable) .methodExited 0] := ⟨_,_,_,rfl,rfl,by decide⟩
    refine ⟨next,calls,final,started,ran,?_⟩
    rw [delivered,start_balanced_iff (by decide) (by decide) (by rw [start_room]; decide)]
    decide
  · obtain ⟨next,calls,final,started,ran,delivered⟩ : ∃ next calls final,
        (untracedThread ⟨10,[.upcall],[]⟩).startTrace (methodEvents 1024) [] [] = .ok (next,calls) ∧
        run step [.call 10 96,.exit 10 7] (next.execution calls) = some final ∧
        final.calls = [.method 10 96 (1 ||| kAccIsMiniTraceable) .methodEntered 0,
          .method 10 96 (1 ||| kAccIsMiniTraceable) .methodExited 7] := ⟨_,_,_,rfl,rfl,by decide⟩
    refine ⟨next,calls,final,started,ran,?_⟩
    rw [delivered,start_balanced_iff (by decide) (by decide) (by rw [start_room]; decide)]
    decide

/-- The thread calls the method after the trace has started, twice, and leaves it in both ways. -/
def quietActivities : List Activity := [.call 10 96,.call 10 96,.unwind 10,.exit 10 0x50000]

theorem started_run_balanced_calls : ∃ next calls,
    (untracedThread ⟨10,[.upcall],[]⟩).startTrace (methodEvents 28) [] [] = .ok (next,calls) ∧
    (run step quietActivities (next.execution calls)).isSome = true ∧
    Throughout step (fun x => ∀ thread, Balanced thread (recorded x.calls (.start 28 [] []))) quietActivities
      (next.execution calls) := by
  obtain ⟨next,calls,started,threads,ran⟩ : ∃ next calls,
      (untracedThread ⟨10,[.upcall],[]⟩).startTrace (methodEvents 28) [] [] = .ok (next,calls) ∧
        next.threads = [⟨10,[.upcall],[]⟩] ∧ (run step quietActivities (next.execution calls)).isSome = true :=
    ⟨_,_,rfl,rfl,rfl⟩
  refine ⟨next,calls,started,ran,started_run_balanced (methodEvents 28) [] []
    (untracedThread ⟨10,[.upcall],[]⟩) next calls _
    started (by simp [methodEvents,Listeners.hasEvent,kDoMethodEntered,kDoMethodExited,kDoMethodUnwind]) (by decide)
    (by decide) (by decide) ?_ ?_⟩
  · intro thread method member
    by_cases own : (10 : BitVec 32) = thread <;> simp [Process.execution,StackFrame.activation,threads,own] at member
  · intro front activity back middle next split _ _
    have listed : activity ∈ quietActivities := by rw [split]; simp
    simp only [quietActivities,List.mem_cons,List.not_mem_nil,or_false] at listed
    obtain rfl | rfl | rfl | rfl := listed
    · exact ⟨trivial,show Aligned 96 by decide⟩
    · exact ⟨trivial,show Aligned 96 by decide⟩
    · exact ⟨trivial,trivial⟩
    · exact ⟨trivial,fun _ _ _ => by decide⟩

end Execution

end Aatt
