import Aatt.Lib.Transition
import Aatt.Runtime

/-! Which classes carry the mark. Marks are set by `Start` and by `DefineClass` and never removed,
so they follow the current whitelist until a trace that has marked a class is stopped. -/
namespace Aatt

open Aatt.Lib

/-- The whitelist asks for the class, whatever its kind. -/
def Matches (whitelist : List (List Char)) (klass : Class) : Prop :=
  (whitelist = [] ∧ ¬ systemFramework <+: klass.dexLocation) ∨ ∃ entry ∈ whitelist, entry <+: klass.descriptor

instance (whitelist : List (List Char)) (klass : Class) : Decidable (Matches whitelist klass) :=
  inferInstanceAs (Decidable ((_ ∧ _) ∨ _))

/-- Methods and fields carry the mark of their class. -/
def Class.Uniform (klass : Class) : Prop :=
  (∀ method ∈ klass.methods, method.isMiniTraceable = klass.isMiniTraceable) ∧
    ∀ field ∈ klass.fields, field.isMiniTraceable = klass.isMiniTraceable

instance (klass : Class) : Decidable klass.Uniform := inferInstanceAs (Decidable (_ ∧ _))

namespace Runtime

/-- A resolved class is marked exactly when the trace in progress asks for it, without a trace no
class is marked, and the mark of a class is that of its members. -/
structure FollowsWhitelist (s : Runtime) : Prop where
  active : ∀ whitelist, s.theTrace ≠ none → s.whitelist = some whitelist → ∀ klass ∈ s.classes, klass.isResolved →
    (klass.isMiniTraceable ↔ klass.excluded = false ∧ Matches whitelist klass)
  inactive : s.theTrace = none → ∀ klass ∈ s.classes, klass.isMiniTraceable = false
  uniform : ∀ klass ∈ s.classes, klass.Uniform

structure Untraced (s : Runtime) : Prop where
  theTrace : s.theTrace = none
  whitelist : s.whitelist = none
  unmarked : ∀ klass ∈ s.classes, klass.isMiniTraceable = false
  uniform : ∀ klass ∈ s.classes, klass.Uniform

/-- The class that `DefineClass` hands to `PostClassPrepare`. -/
def prepared (s : Runtime) (definition : ClassDef) : Class :=
  let klass := loadClass s.instrumentation definition .resolved
  if s.instrumentation.instrumentationStubsInstalled then installStubsForClass s.instrumentation klass else klass

/-- The test of `PostClassPrepare` gives what the whitelist says. -/
def TestsExactly (whitelist : List (List Char)) (klass : Class) : Prop :=
  klass.excluded = false → (doTrace (some whitelist) klass ↔ Matches whitelist klass)

instance (whitelist : List (List Char)) (klass : Class) : Decidable (TestsExactly whitelist klass) :=
  inferInstanceAs (Decidable (_ → (_ ↔ _)))

/-- No trace is stopped that has marked a class, and the tests that decide on marks are exact. -/
def KeepsMarks : Operation → Runtime → Prop
  | .start environment, s => ∀ config ∈ (s.decision environment).config?,
    ∀ klass ∈ s.classes, klass.isResolved → TestsExactly config.whitelist klass
  | .stop, s => s.theTrace ≠ none → ∀ klass ∈ s.classes, klass.isMiniTraceable = false
  | .define definition .resolved, s => ∀ whitelist ∈ s.whitelist,
    s.contains definition.descriptor definition.classLoader = false → TestsExactly whitelist (s.prepared definition)
  | .define _ .failed, _ => True
  | .ensureInitialized .., _ => True

instance : ∀ operation s, Decidable (KeepsMarks operation s)
  | .start _, _ => inferInstanceAs (Decidable (∀ config ∈ _, ∀ klass ∈ _, _))
  | .stop, s => inferInstanceAs (Decidable (_ → ∀ klass ∈ s.classes, _))
  | .define _ .resolved, _ => inferInstanceAs (Decidable (∀ whitelist ∈ _, _))
  | .define _ .failed, _ => isTrue trivial
  | .ensureInitialized .., _ => isTrue trivial

end Runtime

theorem mark_marked (klass : Class) : klass.mark.isMiniTraceable = true := isMiniTraceable_set klass.accessFlags

theorem postClassPrepare_marked (whitelist : Option (List (List Char))) (klass : Class) :
    (postClassPrepare whitelist klass).isMiniTraceable =
      (klass.isMiniTraceable || (!klass.excluded && doTrace whitelist klass)) := by
  unfold postClassPrepare
  cases klass.excluded with
  | true => simp
  | false =>
    cases doTrace whitelist klass with
    | false => simp
    | true => simp [mark_marked]

/-- `PostClassPrepare` marks a class or leaves it. -/
theorem postClassPrepare_induction {motive : Class → Prop} (whitelist : Option (List (List Char))) (klass : Class)
    (left : motive klass) (marked : motive klass.mark) : motive (postClassPrepare whitelist klass) := by
  unfold postClassPrepare
  split
  · exact left
  split
  · exact left
  · exact marked

theorem mark_uniform (klass : Class) : klass.mark.Uniform := by
  constructor
  · intro method member
    simp only [Class.methods,Class.mark,Class.mapMethods,← List.map_append] at member
    obtain ⟨original,-,rfl⟩ := List.mem_map.mp member
    exact (isMiniTraceable_set original.accessFlags).trans (mark_marked klass).symm
  · intro field member
    simp only [Class.fields,Class.mark,← List.map_append] at member
    obtain ⟨original,-,rfl⟩ := List.mem_map.mp member
    exact (isMiniTraceable_set original.accessFlags).trans (mark_marked klass).symm

theorem postClassPrepare_uniform (whitelist : Option (List (List Char))) (klass : Class)
    (uniform : klass.Uniform) : (postClassPrepare whitelist klass).Uniform :=
  postClassPrepare_induction whitelist klass uniform (mark_uniform klass)

/-- What the tests of `PostClassPrepare` look at. -/
def Class.kind (klass : Class) : List Char × List Char × Bool :=
  (klass.descriptor,klass.dexLocation,klass.excluded)

theorem mark_kind (klass : Class) : klass.mark.kind = klass.kind := by
  simp only [Class.kind,Class.excluded,Class.isArrayClass,Class.isInterface,Class.isProxyClass,Class.mark,
    Class.mapMethods,
    hasFlag_set klass.accessFlags kAccInterface (by decide),hasFlag_set klass.accessFlags kAccClassIsProxy (by decide)]

theorem postClassPrepare_kind (whitelist : Option (List (List Char))) (klass : Class) :
    (postClassPrepare whitelist klass).kind = klass.kind :=
  postClassPrepare_induction (motive := fun prepared => prepared.kind = klass.kind) whitelist klass rfl
    (mark_kind klass)

theorem postClassPrepare_status (whitelist : Option (List (List Char))) (klass : Class) :
    (postClassPrepare whitelist klass).status = klass.status :=
  postClassPrepare_induction (motive := fun prepared => prepared.status = klass.status) whitelist klass rfl rfl

theorem wanted_congr {a b : Class} (same : a.kind = b.kind) (whitelist : List (List Char)) :
    (a.excluded = false ∧ Matches whitelist a) ↔ b.excluded = false ∧ Matches whitelist b := by
  simp only [Class.kind,Prod.mk.injEq] at same
  rw [Matches,same.1,same.2.1,same.2.2,Matches]

theorem testsExactly_congr {a b : Class} (same : a.kind = b.kind) (whitelist : List (List Char)) :
    Runtime.TestsExactly whitelist a ↔ Runtime.TestsExactly whitelist b := by
  simp only [Class.kind,Prod.mk.injEq] at same
  simp only [Runtime.TestsExactly,doTrace,Matches,same.1,same.2.1,same.2.2]

theorem prepare_exact_iff (whitelist : List (List Char)) (klass : Class) (unmarked : klass.isMiniTraceable = false) :
    ((postClassPrepare (some whitelist) klass).isMiniTraceable ↔ klass.excluded = false ∧ Matches whitelist klass) ↔
      Runtime.TestsExactly whitelist klass := by
  rw [postClassPrepare_marked,unmarked,Runtime.TestsExactly]
  cases klass.excluded <;> simp

theorem kind_of_shape {a b : Class} (same : a.shape = b.shape) : a.kind = b.kind :=
  have erased : a.shape.kind = b.shape.kind := congrArg Class.kind same
  erased

theorem status_of_shape {a b : Class} (same : a.shape = b.shape) : a.status = b.status :=
  have erased : a.shape.status = b.shape.status := congrArg Class.status same
  erased

theorem marked_of_shape {a b : Class} (same : a.shape = b.shape) : a.isMiniTraceable = b.isMiniTraceable :=
  have erased : a.shape.isMiniTraceable = b.shape.isMiniTraceable := congrArg Class.isMiniTraceable same
  erased

theorem uniform_of_shape {a b : Class} (same : a.shape = b.shape) (uniform : b.Uniform) : a.Uniform := by
  have erased : ∀ klass : Class, klass.Uniform ↔ klass.shape.Uniform := by
    intro klass
    simp only [Class.Uniform,Class.methods,Class.shape,Class.mapMethods,← List.map_append,List.forall_mem_map]
    exact Iff.rfl
  rw [erased a,same,← erased b]
  exact uniform

/-- A class before an operation that does not mark, and after it. -/
structure SameMark (before after : Class) : Prop where
  kind : after.kind = before.kind
  resolved : after.isResolved → before.isResolved
  marked : after.isMiniTraceable = before.isMiniTraceable
  uniform : before.Uniform → after.Uniform

theorem sameMark_of_shape {before after : Class} (same : after.shape = before.shape) : SameMark before after where
  kind := kind_of_shape same
  resolved := by rw [Class.isResolved,status_of_shape same,← Class.isResolved]; exact id
  marked := marked_of_shape same
  uniform := uniform_of_shape same

theorem initializeClass_sameMark (i : Instrumentation) (succeeds : Bool) (klass : Class) :
    SameMark klass (Runtime.initializeClass i succeeds klass) := by
  unfold Runtime.initializeClass
  split
  · exact sameMark_of_shape rfl
  · rename_i open_
    have resolved : klass.isResolved = true := by
      simp only [Bool.or_eq_true,Bool.not_eq_true',not_or,Bool.not_eq_false] at open_
      exact open_.1
    split
    · have same := sameMark_of_shape (fixupStaticTrampolines_shape i { klass with status := .initialized })
      exact ⟨same.kind,fun _ => resolved,same.marked,same.uniform⟩
    · exact ⟨rfl,fun _ => resolved,rfl,id⟩

theorem stop_classes (s : Runtime) : ∃ f : Class → Class, s.stop.classes = s.classes.map f ∧
    ∀ klass, SameMark klass (f klass) := by
  unfold Runtime.stop
  split
  · exact ⟨id,by simp,fun _ => sameMark_of_shape rfl⟩
  · obtain ⟨f,classes,same⟩ := configureStubs_classes .kMiniTracerInstrumentationKey .nothing s.instrumentation
      s.classes
    exact ⟨f,classes,fun klass => sameMark_of_shape (same klass)⟩

theorem startTrace_classes (s : Runtime) (config : Config) :
    ∃ f : Class → Class, (s.startTrace config).classes =
      s.classes.map (fun klass => postClassPrepare (some config.whitelist) (f klass)) ∧
      ∀ klass, (f klass).shape = klass.shape := by
  obtain ⟨f,classes,same⟩ := configureStubs_classes .kMiniTracerInstrumentationKey .withInterpreter s.instrumentation
    s.classes
  refine ⟨f,?_,same⟩
  rw [show (s.startTrace config).classes = List.map (postClassPrepare (some config.whitelist))
      (configureStubs .kMiniTracerInstrumentationKey .withInterpreter s.instrumentation s.classes).2.1 from rfl,classes,
    List.map_map]
  rfl

theorem ensureInitialized_classes (s : Runtime) (descriptor : List Char) (classLoader : Nat) (succeeds : Bool) :
    ∃ f : Class → Class, (s.ensureInitialized descriptor classLoader succeeds).classes = s.classes.map f ∧
      ∀ klass, SameMark klass (f klass) := by
  refine ⟨_,rfl,fun klass => ?_⟩
  split
  · exact initializeClass_sameMark s.instrumentation succeeds klass
  · exact sameMark_of_shape rfl

theorem loadClass_unmarked (i : Instrumentation) (definition : ClassDef) (status : Status) :
    (loadClass i definition status).isMiniTraceable = false :=
  isMiniTraceable_masked definition.rawAccessFlags kAccJavaFlagsMask (by decide)

theorem methodFlags_unmarked (definition : MethodDef) : isMiniTraceable (methodFlags definition) = false := by
  have masked : isMiniTraceable (definition.rawAccessFlags &&& kAccValidMethodFlags) = false :=
    isMiniTraceable_masked definition.rawAccessFlags kAccValidMethodFlags (by decide)
  unfold methodFlags
  split
  · rwa [isMiniTraceable,hasFlag_or,show hasFlag kAccConstructor kAccIsMiniTraceable = false by decide,Bool.or_false]
  · exact masked

theorem mirandaMethod_unmarked (definition : MethodDef) : (mirandaMethod definition).isMiniTraceable = false := by
  show isMiniTraceable (methodFlags definition ||| kAccAbstract ||| kAccMiranda) = false
  rw [isMiniTraceable,hasFlag_or,hasFlag_or,← isMiniTraceable,methodFlags_unmarked]
  decide

theorem loadClass_uniform (i : Instrumentation) (definition : ClassDef) (status : Status) :
    (loadClass i definition status).Uniform := by
  rw [Class.Uniform,loadClass_unmarked]
  constructor
  · intro method member
    simp only [Class.methods,loadClass,List.mem_append,List.mem_map] at member
    obtain ⟨source,-,rfl⟩ | ⟨source,-,rfl⟩ | ⟨source,-,rfl⟩ := member
    · exact methodFlags_unmarked source
    · exact methodFlags_unmarked source
    · exact mirandaMethod_unmarked source
  · intro field member
    simp only [Class.fields,loadClass,List.mem_append,List.mem_map] at member
    obtain ⟨source,-,rfl⟩ | ⟨source,-,rfl⟩ := member
    all_goals exact isMiniTraceable_masked source kAccValidFieldFlags (by decide)

theorem prepared_shape (s : Runtime) (definition : ClassDef) :
    (s.prepared definition).shape = (loadClass s.instrumentation definition .resolved).shape := by
  unfold Runtime.prepared
  dsimp only
  split
  · exact installStubsForClass_shape s.instrumentation _
  · rfl

namespace Runtime

/-- `the_trace_` and `whitelist_` are set and reset together. -/
def Paired (s : Runtime) : Prop := s.theTrace = none ↔ s.whitelist = none

theorem paired_step (operation : Operation) (s next : Runtime) (paired : s.Paired)
    (taken : step operation s = some next) : next.Paired := by
  cases operation with
  | start environment =>
    obtain ⟨-,rfl⟩ | ⟨config,-,-,rfl⟩ := start_cases environment s next taken
    · exact paired
    · exact ⟨nofun,nofun⟩
  | stop =>
    cases taken
    unfold stop
    split
    · exact paired
    · exact ⟨fun _ => rfl,fun _ => rfl⟩
  | define definition outcome =>
    cases taken
    unfold define
    split
    · exact paired
    cases outcome <;> exact paired
  | ensureInitialized descriptor classLoader succeeds =>
    cases taken
    exact paired

theorem Untraced.paired {s : Runtime} (untraced : s.Untraced) : s.Paired := by
  simp [Paired,untraced.theTrace,untraced.whitelist]

theorem Untraced.follows {s : Runtime} (untraced : s.Untraced) : s.FollowsWhitelist :=
  ⟨fun _ running => absurd untraced.theTrace running,fun _ => untraced.unmarked,untraced.uniform⟩

theorem FollowsWhitelist.of_sameMark {s next : Runtime} {f : Class → Class} (follows : s.FollowsWhitelist)
    (theTrace : next.theTrace = s.theTrace) (whitelist : next.whitelist = s.whitelist)
    (classes : next.classes = s.classes.map f) (same : ∀ klass, SameMark klass (f klass)) :
    next.FollowsWhitelist := by
  refine ⟨?_,?_,?_⟩
  all_goals rw [classes]
  · rw [theTrace,whitelist]
    intro entries running selected
    simp only [List.forall_mem_map]
    intro klass member resolved
    rw [(same klass).marked,wanted_congr (same klass).kind]
    exact follows.active entries running selected klass member ((same klass).resolved resolved)
  · rw [theTrace]
    intro idle
    simp only [List.forall_mem_map]
    intro klass member
    exact (same klass).marked.trans (follows.inactive idle klass member)
  · simp only [List.forall_mem_map]
    exact fun klass member => (same klass).uniform (follows.uniform klass member)

theorem followsWhitelist_stop (s : Runtime) (follows : s.FollowsWhitelist) :
    s.stop.FollowsWhitelist ↔ KeepsMarks .stop s := by
  obtain ⟨f,classes,same⟩ := stop_classes s
  cases trace : s.theTrace with
  | none =>
    have unchanged : s.stop = s := by simp [stop,trace]
    simp [unchanged,KeepsMarks,trace,follows]
  | some object =>
    have idle : s.stop.theTrace = none := by simp [stop,trace]
    have bare : s.stop.whitelist = none := by simp [stop,trace]
    constructor
    · intro after _ klass member
      rw [← (same klass).marked]
      exact after.inactive idle (f klass) (classes ▸ List.mem_map_of_mem member)
    · intro keeps
      have unmarked : ∀ klass ∈ s.classes, klass.isMiniTraceable = false := keeps (by simp [trace])
      refine ⟨fun _ running => absurd idle running,fun _ => ?_,?_⟩
      all_goals simp only [classes,List.forall_mem_map]
      · exact fun klass member => (same klass).marked.trans (unmarked klass member)
      · exact fun klass member => (same klass).uniform (follows.uniform klass member)

theorem followsWhitelist_startTrace (s : Runtime) (config : Config) (follows : s.FollowsWhitelist)
    (idle : s.theTrace = none) : (s.startTrace config).FollowsWhitelist ↔
      ∀ klass ∈ s.classes, klass.isResolved → TestsExactly config.whitelist klass := by
  obtain ⟨f,classes,same⟩ := startTrace_classes s config
  have running : (s.startTrace config).theTrace ≠ none := nofun
  have each : ∀ klass ∈ s.classes,
      ((postClassPrepare (some config.whitelist) (f klass)).isMiniTraceable ↔
        (postClassPrepare (some config.whitelist) (f klass)).excluded = false ∧
          Matches config.whitelist (postClassPrepare (some config.whitelist) (f klass))) ↔
      TestsExactly config.whitelist klass := by
    intro klass member
    have unmarked := (marked_of_shape (same klass)).trans (follows.inactive idle klass member)
    rw [wanted_congr (postClassPrepare_kind _ _),prepare_exact_iff _ _ unmarked]
    exact testsExactly_congr (kind_of_shape (same klass)) config.whitelist
  have resolved : ∀ klass, (postClassPrepare (some config.whitelist) (f klass)).isResolved = klass.isResolved := by
    intro klass
    rw [Class.isResolved,postClassPrepare_status,status_of_shape (same klass),← Class.isResolved]
  constructor
  · intro after klass member isResolved
    refine (each klass member).mp (after.active _ running rfl _ ?_ ((resolved klass).trans isResolved))
    exact classes ▸ List.mem_map_of_mem member
  · intro exact
    refine ⟨?_,fun stopped => absurd stopped running,?_⟩
    · rintro whitelist - selected
      cases selected
      simp only [classes,List.forall_mem_map]
      intro klass member isResolved
      exact (each klass member).mpr (exact klass member ((resolved klass).symm.trans isResolved))
    · simp only [classes,List.forall_mem_map]
      exact fun klass member => postClassPrepare_uniform _ _ (uniform_of_shape (same klass)
        (follows.uniform klass member))

theorem followsWhitelist_append (s : Runtime) (added : Class) (follows : s.FollowsWhitelist) :
    FollowsWhitelist { s with classes := s.classes ++ [added] } ↔
      (∀ whitelist, s.theTrace ≠ none → s.whitelist = some whitelist → added.isResolved →
        (added.isMiniTraceable ↔ added.excluded = false ∧ Matches whitelist added)) ∧
      (s.theTrace = none → added.isMiniTraceable = false) ∧ added.Uniform := by
  have last : added ∈ s.classes ++ [added] := by simp
  constructor
  · intro after
    exact ⟨fun whitelist running selected => after.active whitelist running selected added last,
      fun idle => after.inactive idle added last,after.uniform added last⟩
  · rintro ⟨active,inactive,uniform⟩
    refine ⟨?_,?_,?_⟩
    all_goals simp only [List.forall_mem_append,List.forall_mem_singleton]
    · exact fun whitelist running selected => ⟨follows.active whitelist running selected,
        active whitelist running selected⟩
    · exact fun idle => ⟨follows.inactive idle,inactive idle⟩
    · exact ⟨follows.uniform,uniform⟩

theorem followsWhitelist_define (s : Runtime) (definition : ClassDef) (outcome : DefineOutcome) (paired : s.Paired)
    (follows : s.FollowsWhitelist) :
    (s.define definition outcome).FollowsWhitelist ↔ KeepsMarks (.define definition outcome) s := by
  cases present : s.contains definition.descriptor definition.classLoader with
  | true =>
    have unchanged : s.define definition outcome = s := by simp [define,present]
    rw [unchanged]
    cases outcome <;> simp [KeepsMarks,present,follows]
  | false =>
    cases outcome with
    | failed =>
      have appended : s.define definition .failed =
          { s with classes := s.classes ++ [loadClass s.instrumentation definition .error] } := by
        simp [define,present]
      rw [appended,followsWhitelist_append s _ follows]
      simp only [KeepsMarks,iff_true]
      exact ⟨fun _ _ _ resolved => absurd resolved (by simp [Class.isResolved,loadClass,Status.value]),
        fun _ => loadClass_unmarked _ _ _,loadClass_uniform _ _ _⟩
    | resolved =>
      have appended : s.define definition .resolved =
          { s with classes := s.classes ++ [postClassPrepare s.whitelist (s.prepared definition)] } := by
        simp [define,present,prepared]
      have same := prepared_shape s definition
      have unmarked := (marked_of_shape same).trans (loadClass_unmarked _ _ _)
      have members := postClassPrepare_uniform s.whitelist _ (uniform_of_shape same (loadClass_uniform _ _ _))
      rw [appended,followsWhitelist_append s _ follows]
      cases selected : s.whitelist with
      | none =>
        have idle := paired.mpr selected
        rw [selected] at members
        simp [KeepsMarks,selected,idle,members,postClassPrepare_marked,unmarked,doTrace]
      | some whitelist =>
        have running : s.theTrace ≠ none := fun idle => by simp [paired.mp idle] at selected
        have resolved : (postClassPrepare (some whitelist) (s.prepared definition)).isResolved = true := by
          rw [Class.isResolved,postClassPrepare_status,status_of_shape same]
          rfl
        rw [selected] at members
        simp only [KeepsMarks,selected,present,running,members,resolved,ne_eq,not_false_eq_true,forall_const,
          Option.mem_def,Option.some.injEq,false_implies,and_true,forall_eq']
        rw [wanted_congr (postClassPrepare_kind _ _),prepare_exact_iff _ _ unmarked]

theorem followsWhitelist_step (operation : Operation) (s next : Runtime) (paired : s.Paired)
    (follows : s.FollowsWhitelist) (taken : step operation s = some next) :
    next.FollowsWhitelist ↔ KeepsMarks operation s := by
  cases operation with
  | start environment =>
    obtain ⟨ignored,rfl⟩ | ⟨config,proceeds,idle,rfl⟩ := start_cases environment s next taken
    · simp [KeepsMarks,ignored,follows]
    · simp only [KeepsMarks,proceeds,Option.mem_def,Option.some.injEq,forall_eq']
      exact followsWhitelist_startTrace s config follows idle
  | stop =>
    cases taken
    exact followsWhitelist_stop s follows
  | define definition outcome =>
    cases taken
    exact followsWhitelist_define s definition outcome paired follows
  | ensureInitialized descriptor classLoader succeeds =>
    cases taken
    obtain ⟨f,classes,same⟩ := ensureInitialized_classes s descriptor classLoader succeeds
    simp only [KeepsMarks,iff_true]
    exact follows.of_sameMark rfl rfl classes same

/-- From an untraced runtime, marks follow the whitelist after every operation exactly when no trace
that marked a class is stopped and every test for a mark is exact. -/
theorem follows_whitelist_iff (operations : List Operation) (s : Runtime) (untraced : s.Untraced) :
    Throughout step FollowsWhitelist operations s ↔ EachStep step KeepsMarks operations s := by
  refine throughout_iff_each (fun s => s.Paired ∧ s.FollowsWhitelist) FollowsWhitelist (fun _ good => good.2) ?_ ?_
    operations s ⟨untraced.paired,untraced.follows⟩
  · intro operation s next ⟨paired,follows⟩ keeps taken
    exact ⟨paired_step operation s next paired taken,
      (followsWhitelist_step operation s next paired follows taken).mpr keeps⟩
  · intro operation s next ⟨paired,follows⟩ taken after
    exact (followsWhitelist_step operation s next paired follows taken).mp after

/-- The class is defined and marked during the trace; `Stop` leaves the mark. -/
theorem stop_leaves_mark : fresh.Untraced ∧ ∃ final,
    run step [.start (including ['L','a']),.define (compiledClass ['L','a',';']) .resolved,.stop] fresh = some final ∧
      final.theTrace = none ∧ ∃ klass ∈ final.classes, klass.isMiniTraceable = true := by
  refine ⟨⟨rfl,rfl,nofun,nofun⟩,_,rfl,?_,?_⟩ <;> decide

def markKeepingRun : List Operation :=
  [.start (including ['L','b']),.define (compiledClass ['L','a',';']) .resolved,.stop,
    .start (including ['L','a']),.define (compiledClass ['L','a','b',';']) .resolved]

theorem follows_whitelist_two_traces : Throughout step FollowsWhitelist markKeepingRun fresh :=
  (follows_whitelist_iff markKeepingRun fresh ⟨rfl,rfl,nofun,nofun⟩).mpr
    (eachStep_of_check KeepsMarks markKeepingRun fresh (by decide))

end Runtime

theorem cString_append (front rest : List Char) (free : '\x00' ∉ front) :
    cString (front ++ rest) = front ++ cString rest := by
  rw [cString,List.takeWhile_append_of_pos]
  · rfl
  · intro c member
    simp only [decide_eq_true_eq]
    exact fun nul => free (nul ▸ member)

theorem cString_of_noNul (s : List Char) (free : '\x00' ∉ s) : cString s = s := by
  simpa [cString] using cString_append s [] free

theorem strncmpEq_iff (text entry : List Char) (free : '\x00' ∉ entry) :
    strncmpEq text entry entry.length ↔ entry <+: text := by
  rw [strncmpEq,cString_of_noNul entry free,List.take_length,beq_iff_eq]
  constructor
  · intro equal
    rw [← equal]
    exact (List.take_prefix _ _).trans (List.takeWhile_prefix _)
  · rintro ⟨rest,rfl⟩
    rw [cString_append entry rest free,List.take_left]

theorem testsExactly_of_noNul (whitelist : List (List Char)) (klass : Class)
    (free : ∀ entry ∈ whitelist, '\x00' ∉ entry) : Runtime.TestsExactly whitelist klass := by
  intro _
  cases whitelist with
  | nil =>
    have located := strncmpEq_iff klass.dexLocation systemFramework (by decide)
    simp [doTrace,Matches,← located]
  | cons first rest =>
    simp only [doTrace,Matches,List.any_eq_true,reduceCtorEq,false_and,false_or]
    refine exists_congr fun entry => and_congr_right fun member => ?_
    rw [cString_of_noNul entry (free entry member)]
    exact strncmpEq_iff klass.descriptor entry (free entry member)

end Aatt
