import Aatt.Traceability

/-! One `Start` among the `DefineClass` calls of other threads. A class is in the table from
`InsertClass` on and can be suspended between any two parts of its definition, so that the visitor
of `Start` also meets classes that `DefineClass` has not handed to `PostClassPrepare` yet. -/
namespace Aatt

open Aatt.Lib

namespace Defining

/-- How far `DefineClass` has come with a class of the table. -/
inductive Phase where
  | inserted (definition : ClassDef)
  | loaded (definition : ClassDef)
  | superLoaded (definition : ClassDef)
  | methodsLinked
  | resolved
  | defined
  | failed
  deriving DecidableEq, Repr

/-- `DefineClass` has not called `PostClassPrepare` yet and still may. -/
def Phase.pending : Phase → Bool
  | .defined | .failed => false
  | _ => true

/-- `returned` records that some call of `DefineClass` has returned the class. -/
structure Entry where
  klass : Class
  phase : Phase
  returned : Bool
  deriving DecidableEq, Repr

/-- `whitelist` is present once `Start` has run; `foundMark` records that some call of
`SetIsMiniTraceable` found the mark, which fails its DCHECK. -/
structure State where
  entries : List Entry
  whitelist : Option (List (List Char))
  foundMark : Bool
  deriving DecidableEq, Repr

/-- The class as `SetupClass` leaves it, without members. -/
def setupClass (definition : ClassDef) : Class where
  descriptor := definition.descriptor
  classLoader := definition.classLoader
  dexLocation := definition.dexLocation
  hasComponentType := false
  isPrimitive := false
  accessFlags := definition.rawAccessFlags &&& kAccJavaFlagsMask
  status := .idx
  directMethods := []
  virtualMethods := []
  instanceFields := []
  staticFields := []
  virtualInstance := nofun

/-- `LoadClassMembers` fills in methods and fields. -/
def loadClassMembers (i : Instrumentation) (definition : ClassDef) (klass : Class) : Class :=
  { klass with
    directMethods := definition.directMethods.map (loadMethod i)
    virtualMethods := definition.virtualMethods.map (loadMethod i)
    instanceFields := definition.instanceFields.map loadField
    staticFields := definition.staticFields.map loadField
    virtualInstance := by
      intro method member
      obtain ⟨source,inside,rfl⟩ := List.mem_map.mp member
      exact (methodFlags_static source).trans (definition.virtualInstance source (List.mem_append_left _ inside)) }

/-- `LinkMethods` appends the miranda methods. -/
def linkMethods (definition : ClassDef) (klass : Class) : Class :=
  { klass with
    virtualMethods := klass.virtualMethods ++ definition.mirandaMethods.map mirandaMethod
    virtualInstance := by
      intro method member
      rcases List.mem_append.mp member with old | added
      · exact klass.virtualInstance method old
      · obtain ⟨source,inside,rfl⟩ := List.mem_map.mp added
        exact (mirandaMethod_isStatic source).trans
          (definition.virtualInstance source (List.mem_append_right _ inside)) }

def setStatus (status : Status) (klass : Class) : Class := { klass with status := status }

/-- The parts together give the class that `DefineClass` hands to `PostClassPrepare` when nothing comes between. -/
theorem parts_loadClass (i : Instrumentation) (definition : ClassDef) :
    setStatus .resolved (linkMethods definition (setStatus .loaded (loadClassMembers i definition
      (setupClass definition)))) =
      loadClass i definition .resolved := rfl

/-- A call of `DefineClass` that cannot go on leaves the class in the table as erroneous. -/
def Entry.fail (entry : Entry) : Entry := { entry with klass := setStatus .error entry.klass, phase := .failed }

/-- The parts of `DefineClass` before `PostClassPrepare`, each with its outcome. `LinkClass` may put a
copy with the same flags and members in the place of the class. -/
inductive Part where
  | loadClass (i : Instrumentation)
  | loadSuperAndInterfaces
  | linkMethods
  | linkClass

/-- One part of the definition, if it is the next one. -/
def Entry.advance (part : Part) (entry : Entry) : Option Entry :=
  match part,entry.phase with
  | .loadClass i,.inserted definition =>
    some { entry with klass := loadClassMembers i definition entry.klass, phase := .loaded definition }
  | .loadSuperAndInterfaces,.loaded definition =>
    some { entry with klass := setStatus .loaded entry.klass, phase := .superLoaded definition }
  | .linkMethods,.superLoaded definition =>
    some { entry with klass := Defining.linkMethods definition entry.klass, phase := .methodsLinked }
  | .linkClass,.methodsLinked => some { entry with klass := setStatus .resolved entry.klass, phase := .resolved }
  | _,_ => none

/-- The class passes the filter of `PostClassPrepare`. -/
def wanted (whitelist : Option (List (List Char))) (klass : Class) : Bool :=
  !klass.excluded && doTrace whitelist klass

/-- `PostClassPrepare` marks something of the class that has the mark already. -/
def marksAgain (whitelist : Option (List (List Char))) (klass : Class) : Bool :=
  wanted whitelist klass &&
    (klass.isMiniTraceable || klass.methods.any ArtMethod.isMiniTraceable || klass.fields.any ArtField.isMiniTraceable)

/-- `PostClassPrepare` on a class of the table. -/
def Entry.prepare (whitelist : Option (List (List Char))) (entry : Entry) : Entry :=
  { entry with klass := Aatt.postClassPrepare whitelist entry.klass }

namespace State

def contains (s : State) (descriptor : List Char) (classLoader : Nat) : Bool :=
  s.entries.any fun entry => entry.klass.descriptor == descriptor && entry.klass.classLoader == classLoader

end State

/-- `index` is the place of the class in the table. -/
inductive Action where
  | insertClass (definition : ClassDef)
  | advance (index : Nat) (part : Part)
  | fail (index : Nat)
  | postClassPrepare (index : Nat)
  | ensureResolved (index : Nat)
  | start (whitelist : List (List Char))

def State.update (s : State) (index : Nat) (f : Entry → Option Entry) : Option State := do
  let entry ← s.entries[index]?
  let changed ← f entry
  some { s with entries := s.entries.set index changed }

def step : Action → State → Option State
  | .insertClass definition,s =>
    if s.contains definition.descriptor definition.classLoader then none
    else some { s with entries := s.entries ++ [⟨setupClass definition,.inserted definition,false⟩] }
  | .advance index part,s => s.update index (Entry.advance part)
  | .fail index,s => s.update index fun entry =>
    -- a resolved class is not given up any more
    if entry.phase.pending && entry.phase != .resolved then some entry.fail else none
  | .postClassPrepare index,s => do
    let entry ← s.entries[index]?
    if entry.phase = .resolved then
      some { s with
        entries := s.entries.set index { entry.prepare s.whitelist with phase := .defined, returned := true }
        foundMark := s.foundMark || marksAgain s.whitelist entry.klass }
    else none
  | .ensureResolved index,s => s.update index fun entry =>
    -- a call that found the class in the table; it waits while the class is not resolved
    if entry.klass.isResolved then some { entry with returned := true } else none
  | .start whitelist,s =>
    if s.whitelist.isSome then none
    else some {
      entries := s.entries.map (Entry.prepare (some whitelist))
      whitelist := some whitelist
      foundMark := s.foundMark || s.entries.any fun entry => marksAgain (some whitelist) entry.klass }

/-- No mark has been set twice, and during the trace every class that `DefineClass` has returned and that
passes the filter is marked with all its methods and fields. -/
structure MarkedOnce (s : State) : Prop where
  once : s.foundMark = false
  marked : ∀ entry ∈ s.entries, entry.returned = true → wanted s.whitelist entry.klass = true →
    entry.klass.isMiniTraceable = true ∧ (∀ method ∈ entry.klass.methods, method.isMiniTraceable = true) ∧
      ∀ field ∈ entry.klass.fields, field.isMiniTraceable = true

/-- At `Start` no class that passes the filter is being defined, and no call of `DefineClass` that found
such a class in the table returns it between its linking and its `PostClassPrepare`. -/
def Separate : Action → State → Prop
  | .start whitelist,s => ∀ entry ∈ s.entries, entry.phase.pending = true → wanted (some whitelist) entry.klass = false
  | .ensureResolved index,s => ∀ entry ∈ s.entries[index]?, entry.phase = .resolved →
    wanted s.whitelist entry.klass = false
  | _,_ => True

instance : ∀ action s, Decidable (Separate action s)
  | .start _,s => inferInstanceAs (Decidable (∀ entry ∈ s.entries, _))
  | .ensureResolved index,s => inferInstanceAs (Decidable (∀ entry ∈ s.entries[index]?, _))
  | .insertClass _,_ | .advance _ _,_ | .fail _,_ | .postClassPrepare _,_ => isTrue trivial

/-- Before `Start`: nothing is marked, and the calls that have returned returned resolved classes. -/
structure Unmarked (s : State) : Prop where
  whitelist : s.whitelist = none
  foundMark : s.foundMark = false
  unmarked : ∀ entry ∈ s.entries, entry.klass.isMiniTraceable = false
  uniform : ∀ entry ∈ s.entries, entry.klass.Uniform
  resolved : ∀ entry ∈ s.entries, entry.klass.isResolved = true → entry.phase = .resolved ∨ entry.phase = .defined
  returned : ∀ entry ∈ s.entries, entry.returned = true → entry.klass.isResolved = true

/-- A class whose definition is going on carries no mark; a defined one carries it if it passes the filter. -/
structure Entry.Orderly (whitelist : Option (List (List Char))) (entry : Entry) : Prop where
  uniform : entry.klass.Uniform
  pending : entry.phase.pending = true → entry.klass.isMiniTraceable = false
  idle : whitelist = none → entry.klass.isMiniTraceable = false
  defined : entry.phase = .defined → wanted whitelist entry.klass = true → entry.klass.isMiniTraceable = true
  resolved : entry.klass.isResolved = true → entry.phase = .resolved ∨ entry.phase = .defined
  returned : entry.returned = true →
    entry.phase = .defined ∨ entry.phase = .resolved ∧ wanted whitelist entry.klass = false

theorem wanted_none (klass : Class) : wanted none klass = false := by simp [wanted,doTrace]

theorem wanted_prepared (whitelist other : Option (List (List Char))) (klass : Class) :
    wanted whitelist (Aatt.postClassPrepare other klass) = wanted whitelist klass := by
  have same := postClassPrepare_kind other klass
  simp only [Class.kind,Prod.mk.injEq] at same
  simp only [wanted,doTrace,same.1,same.2.1,same.2.2]

theorem prepared_marked (whitelist : Option (List (List Char))) (klass : Class) :
    (Aatt.postClassPrepare whitelist klass).isMiniTraceable = (klass.isMiniTraceable || wanted whitelist klass) :=
  postClassPrepare_marked whitelist klass

theorem prepared_isResolved (whitelist : Option (List (List Char))) (klass : Class) :
    (Aatt.postClassPrepare whitelist klass).isResolved = klass.isResolved := by
  rw [Class.isResolved,postClassPrepare_status,Class.isResolved]

theorem marksAgain_of_unmarked (whitelist : Option (List (List Char))) (klass : Class) (uniform : klass.Uniform)
    (unmarked : klass.isMiniTraceable = false) : marksAgain whitelist klass = false := by
  have methods : klass.methods.any ArtMethod.isMiniTraceable = false :=
    List.any_eq_false.mpr fun method member => by rw [uniform.1 method member,unmarked]; decide
  have fields : klass.fields.any ArtField.isMiniTraceable = false :=
    List.any_eq_false.mpr fun field member => by rw [uniform.2 field member,unmarked]; decide
  simp [marksAgain,unmarked,methods,fields]

theorem setupClass_unmarked (definition : ClassDef) : (setupClass definition).isMiniTraceable = false :=
  isMiniTraceable_masked definition.rawAccessFlags kAccJavaFlagsMask (by decide)

theorem loadClassMembers_uniform (i : Instrumentation) (definition : ClassDef) (klass : Class)
    (unmarked : klass.isMiniTraceable = false) : (loadClassMembers i definition klass).Uniform := by
  have same : (loadClassMembers i definition klass).isMiniTraceable = false := unmarked
  rw [Class.Uniform,same]
  constructor
  · intro method member
    simp only [Class.methods,loadClassMembers,List.mem_append,List.mem_map] at member
    obtain ⟨source,-,rfl⟩ | ⟨source,-,rfl⟩ := member
    all_goals exact methodFlags_unmarked source
  · intro field member
    simp only [Class.fields,loadClassMembers,List.mem_append,List.mem_map] at member
    obtain ⟨source,-,rfl⟩ | ⟨source,-,rfl⟩ := member
    all_goals exact isMiniTraceable_masked source kAccValidFieldFlags (by decide)

theorem linkMethods_uniform (definition : ClassDef) (klass : Class) (uniform : klass.Uniform)
    (unmarked : klass.isMiniTraceable = false) : (linkMethods definition klass).Uniform := by
  refine ⟨fun method member => ?_,uniform.2⟩
  simp only [Class.methods,linkMethods,← List.append_assoc] at member
  rcases List.mem_append.mp member with old | added
  · exact uniform.1 method old
  · obtain ⟨source,-,rfl⟩ := List.mem_map.mp added
    exact (mirandaMethod_unmarked source).trans unmarked.symm

theorem Entry.Orderly.inside {whitelist : Option (List (List Char))} {entry : Entry} (orderly : entry.Orderly whitelist)
    (resolved : entry.phase ≠ .resolved) (defined : entry.phase ≠ .defined) :
    entry.returned = false ∧ entry.klass.isResolved = false := by
  constructor
  · cases back : entry.returned with
    | false => rfl
    | true => exact ((orderly.returned back).elim defined fun late => resolved late.1).elim
  · cases status : entry.klass.isResolved with
    | false => rfl
    | true => exact ((orderly.resolved status).elim resolved defined).elim

/-- A class that has been returned to nobody and carries no mark, at any time before its `PostClassPrepare`. -/
theorem Entry.orderly_of_unmarked (whitelist : Option (List (List Char))) {entry : Entry}
    (uniform : entry.klass.Uniform) (unmarked : entry.klass.isMiniTraceable = false)
    (unfinished : entry.phase ≠ .defined) (status : entry.klass.isResolved = true → entry.phase = .resolved)
    (inside : entry.returned = false) :
    entry.Orderly whitelist where
  uniform := uniform
  pending := fun _ => unmarked
  idle := fun _ => unmarked
  defined := fun done => absurd done unfinished
  resolved := fun late => .inl (status late)
  returned := by simp [inside]

theorem Entry.Orderly.advance {whitelist : Option (List (List Char))} {entry changed : Entry} {part : Part}
    (orderly : entry.Orderly whitelist) (taken : entry.advance part = some changed) : changed.Orderly whitelist := by
  unfold Entry.advance at taken
  split at taken <;> cases taken
  all_goals
    rename_i phase
    have unmarked : entry.klass.isMiniTraceable = false := orderly.pending (by rw [phase]; rfl)
    obtain ⟨inside,unresolved⟩ := orderly.inside (by simp [phase]) (by simp [phase])
  case h_1 i definition =>
    have uniform := loadClassMembers_uniform i definition _ unmarked
    exact Entry.orderly_of_unmarked whitelist uniform unmarked (by simp)
      (fun late => absurd (unresolved.symm.trans late) (by decide)) inside
  case h_2 definition =>
    exact Entry.orderly_of_unmarked whitelist orderly.uniform unmarked (by simp)
      (by simp [setStatus,Class.isResolved,Status.value]) inside
  case h_3 definition =>
    have uniform := linkMethods_uniform definition _ orderly.uniform unmarked
    exact Entry.orderly_of_unmarked whitelist uniform unmarked (by simp)
      (fun late => absurd (unresolved.symm.trans late) (by decide)) inside
  case h_4 =>
    exact Entry.orderly_of_unmarked whitelist orderly.uniform unmarked (by simp) (fun _ => rfl) inside

theorem Entry.Orderly.fail {whitelist : Option (List (List Char))} {entry : Entry} (orderly : entry.Orderly whitelist)
    (pending : entry.phase.pending = true) (early : entry.phase ≠ .resolved) : entry.fail.Orderly whitelist := by
  have unmarked : entry.klass.isMiniTraceable = false := orderly.pending pending
  obtain ⟨inside,-⟩ := orderly.inside early (by rintro defined; simp [defined,Phase.pending] at pending)
  exact Entry.orderly_of_unmarked whitelist orderly.uniform unmarked (by simp [Entry.fail])
    (by simp [Entry.fail,setStatus,Class.isResolved,Status.value]) inside

/-- `DefineClass` prepares the resolved class and returns it. -/
theorem Entry.Orderly.define {whitelist : Option (List (List Char))} {entry : Entry} (orderly : entry.Orderly whitelist)
    (resolved : entry.phase = .resolved) :
    Entry.Orderly whitelist { entry.prepare whitelist with phase := .defined, returned := true } where
  uniform := postClassPrepare_uniform whitelist entry.klass orderly.uniform
  pending := nofun
  idle := by
    rintro rfl
    simp [Entry.prepare,prepared_marked,wanted_none,orderly.pending (by rw [resolved]; rfl)]
  defined := by
    intro _ passes
    rw [Entry.prepare,wanted_prepared] at passes
    simp [Entry.prepare,prepared_marked,passes]
  resolved := fun _ => .inr rfl
  returned := fun _ => .inl rfl

/-- The visitor of `Start` at a class that is not being defined, or that does not pass the filter. -/
theorem Entry.Orderly.visit {entry : Entry} (whitelist : List (List Char)) (orderly : entry.Orderly none)
    (separate : entry.phase.pending = true → wanted (some whitelist) entry.klass = false) :
    (entry.prepare (some whitelist)).Orderly (some whitelist) where
  uniform := postClassPrepare_uniform (some whitelist) entry.klass orderly.uniform
  pending := by
    intro pending
    simp [Entry.prepare,prepared_marked,separate pending,orderly.idle rfl]
  idle := nofun
  defined := by
    intro _ passes
    rw [Entry.prepare,wanted_prepared] at passes
    simp [Entry.prepare,prepared_marked,passes]
  resolved := by
    intro status
    rw [Entry.prepare,prepared_isResolved] at status
    exact orderly.resolved status
  returned := by
    intro back
    rcases orderly.returned back with defined | ⟨resolved,-⟩
    · exact .inl defined
    · refine .inr ⟨resolved,?_⟩
      rw [Entry.prepare,wanted_prepared]
      exact separate (by rw [resolved]; rfl)

theorem Entry.Orderly.give {whitelist : Option (List (List Char))} {entry : Entry} (orderly : entry.Orderly whitelist)
    (status : entry.klass.isResolved = true)
    (separate : entry.phase = .resolved → wanted whitelist entry.klass = false) :
    Entry.Orderly whitelist { entry with returned := true } :=
  ⟨orderly.uniform,orderly.pending,orderly.idle,orderly.defined,orderly.resolved,fun _ =>
    (orderly.resolved status).elim (fun resolved => .inr ⟨resolved,separate resolved⟩) .inl⟩

structure State.Orderly (s : State) : Prop where
  once : s.foundMark = false
  each : ∀ entry ∈ s.entries, entry.Orderly s.whitelist

theorem State.Orderly.set {s : State} (orderly : s.Orderly) (index : Nat) {changed : Entry}
    (kept : changed.Orderly s.whitelist) :
    State.Orderly { s with entries := s.entries.set index changed } := by
  refine ⟨orderly.once,fun entry member => ?_⟩
  rcases List.mem_or_eq_of_mem_set member with old | rfl
  · exact orderly.each entry old
  · exact kept

theorem update_cases {s next : State} {index : Nat} {f : Entry → Option Entry} (taken : s.update index f = some next) :
    ∃ entry changed, s.entries[index]? = some entry ∧ f entry = some changed ∧
      next = { s with entries := s.entries.set index changed } := by
  simp only [State.update,Option.bind_eq_bind,Option.bind_eq_some_iff,Option.some.injEq] at taken
  obtain ⟨entry,found,changed,done,rfl⟩ := taken
  exact ⟨entry,changed,found,done,rfl⟩

theorem State.Orderly.start {s : State} (whitelist : List (List Char)) (orderly : s.Orderly)
    (fresh : s.whitelist = none) (separate : Separate (.start whitelist) s) :
    State.Orderly {
      entries := s.entries.map (Entry.prepare (some whitelist))
      whitelist := some whitelist
      foundMark := s.foundMark || s.entries.any fun entry => marksAgain (some whitelist) entry.klass } := by
  have each : ∀ entry ∈ s.entries, entry.Orderly none := fresh ▸ orderly.each
  constructor
  · rw [Bool.or_eq_false_iff,List.any_eq_false]
    refine ⟨orderly.once,fun entry member => ?_⟩
    rw [marksAgain_of_unmarked _ _ (each entry member).uniform ((each entry member).idle rfl)]
    decide
  · intro entry member
    obtain ⟨before,inside,rfl⟩ := List.mem_map.mp member
    exact (each before inside).visit whitelist (separate before inside)

theorem orderly_step (action : Action) (s next : State) (orderly : s.Orderly) (separate : Separate action s)
    (taken : step action s = some next) : next.Orderly := by
  cases action with
  | insertClass definition =>
    simp only [step] at taken
    split at taken <;> cases taken
    refine ⟨orderly.once,?_⟩
    simp only [List.forall_mem_append,List.forall_mem_singleton]
    refine ⟨orderly.each,Entry.orderly_of_unmarked s.whitelist ?_ (setupClass_unmarked definition) (by simp) ?_ rfl⟩
    · exact ⟨by simp [Class.methods,setupClass],by simp [Class.fields,setupClass]⟩
    · simp [setupClass,Class.isResolved,Status.value]
  | advance index part =>
    obtain ⟨entry,changed,found,done,rfl⟩ := update_cases taken
    exact orderly.set index ((orderly.each entry (List.mem_of_getElem? found)).advance done)
  | fail index =>
    obtain ⟨entry,changed,found,done,rfl⟩ := update_cases taken
    split at done <;> cases done
    rename_i early
    rw [Bool.and_eq_true,bne_iff_ne] at early
    exact orderly.set index ((orderly.each entry (List.mem_of_getElem? found)).fail early.1 early.2)
  | postClassPrepare index =>
    simp only [step,Option.bind_eq_bind,Option.bind_eq_some_iff] at taken
    obtain ⟨entry,found,done⟩ := taken
    split at done <;> cases done
    rename_i resolved
    have before := orderly.each entry (List.mem_of_getElem? found)
    have kept := orderly.set index (before.define resolved)
    refine ⟨?_,kept.each⟩
    rw [marksAgain_of_unmarked _ _ before.uniform (before.pending (by rw [resolved]; rfl)),orderly.once]
    rfl
  | ensureResolved index =>
    obtain ⟨entry,changed,found,done,rfl⟩ := update_cases taken
    split at done <;> cases done
    rename_i status
    exact orderly.set index ((orderly.each entry (List.mem_of_getElem? found)).give status (separate entry found))
  | start whitelist =>
    simp only [step] at taken
    split at taken <;> cases taken
    rename_i fresh
    exact orderly.start whitelist (by simpa using fresh) separate

theorem Unmarked.orderly {s : State} (unmarked : Unmarked s) : s.Orderly := by
  refine ⟨unmarked.foundMark,fun entry member => ?_⟩
  have clear := unmarked.unmarked entry member
  have unwanted : wanted s.whitelist entry.klass = false := by rw [unmarked.whitelist,wanted_none]
  refine ⟨unmarked.uniform entry member,fun _ => clear,fun _ => clear,
    by simp [unwanted],unmarked.resolved entry member,?_⟩
  intro back
  rcases unmarked.resolved entry member (unmarked.returned entry member back) with resolved | defined
  · exact .inr ⟨resolved,unwanted⟩
  · exact .inl defined

theorem State.Orderly.markedOnce {s : State} (orderly : s.Orderly) : MarkedOnce s := by
  refine ⟨orderly.once,fun entry member back passes => ?_⟩
  have kept := orderly.each entry member
  have marked : entry.klass.isMiniTraceable = true := by
    rcases kept.returned back with defined | ⟨-,unwanted⟩
    · exact kept.defined defined passes
    · simp [unwanted] at passes
  exact ⟨marked,fun method inside => (kept.uniform.1 method inside).trans marked,
    fun field inside => (kept.uniform.2 field inside).trans marked⟩

/-- From a table without marks, no mark is set twice and no returned class lacks one, in every run in which
`Start` and the calls that find a class in the table keep clear of definitions that are going on. -/
theorem marked_once_of_separate (actions : List Action) (s : State) (unmarked : Unmarked s)
    (separate : EachStep step Separate actions s) : Throughout step MarkedOnce actions s := by
  intro front back middle split reached
  exact (throughout_of_each State.Orderly orderly_step actions s separate unmarked.orderly
    front back middle split reached).markedOnce

theorem unmarked_empty : Unmarked ⟨[],none,false⟩ := by
  constructor <;> simp

def untraced : Instrumentation := ⟨false,false,false,false,false,[],[]⟩

/-- The definition of the first class of the table, from `LoadClass` to the end of `LinkClass`. -/
def definingParts : List Action :=
  [.advance 0 (.loadClass untraced),.advance 0 .loadSuperAndInterfaces,.advance 0 .linkMethods,.advance 0 .linkClass]

/-- `Start` comes while the superclass of `La;` is being loaded: `PostClassPrepare` finds the class marked. Another
call of `DefineClass` finds the linked class in the table and returns it before it is marked. -/
theorem start_during_definition : Unmarked ⟨[],none,false⟩ ∧
    (∃ final, run step [.insertClass (compiledClass ['L','a',';']),.advance 0 (.loadClass untraced),.start [['L','a']],
      .advance 0 .loadSuperAndInterfaces,.advance 0 .linkMethods,.advance 0 .linkClass,.postClassPrepare 0]
        ⟨[],none,false⟩ = some final ∧ final.foundMark = true) ∧
    ∃ final, run step (.start [['L','a']] :: .insertClass (compiledClass ['L','a',';']) :: definingParts ++
      [.ensureResolved 0]) ⟨[],none,false⟩ = some final ∧ ∃ entry ∈ final.entries, entry.returned = true ∧
        wanted final.whitelist entry.klass = true ∧ entry.klass.isMiniTraceable = false := by
  refine ⟨unmarked_empty,?_,?_⟩
  all_goals
    change ∃ final ∈ run step _ _, _
    decide +kernel

/-- A class that the trace does not ask for is being defined at `Start`; `La;` is defined, and found, later. -/
def separateActions : List Action :=
  .insertClass (compiledClass ['L','b',';']) :: .start [['L','a']] :: definingParts ++ [.postClassPrepare 0,
    .insertClass (compiledClass ['L','a',';']),.advance 1 (.loadClass untraced),.advance 1 .loadSuperAndInterfaces,
    .advance 1 .linkMethods,.advance 1 .linkClass,.postClassPrepare 1,.ensureResolved 1]

theorem marked_once_separateActions : (run step separateActions ⟨[],none,false⟩).isSome ∧
    Throughout step MarkedOnce separateActions ⟨[],none,false⟩ :=
  ⟨by decide +kernel,marked_once_of_separate separateActions ⟨[],none,false⟩ unmarked_empty
    (eachStep_of_check Separate separateActions _ (by decide +kernel))⟩

end Defining

end Aatt
