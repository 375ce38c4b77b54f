import Aatt.EntryPoints
import Mathlib.Data.List.Forall2

/-! A trace from `Start` to `Stop`, next to the same class definitions and initializations without
it. `Stop` recomputes the entry points of marked classes only, so code that the class linker did
not install during the trace stays away from the methods of all other classes. -/
namespace Aatt

open Aatt.Lib

/-- No client, no stubs, no deoptimized method, and the interpreter is not forced. -/
def Instrumentation.idle : Instrumentation := ⟨false,false,false,false,false,[],[]⟩

/-- What `Start` makes of it. -/
def Instrumentation.tracing : Instrumentation :=
  ⟨true,true,true,true,false,[(.kMiniTracerInstrumentationKey,.withInterpreter)],[]⟩

/-- What happens to classes between `Start` and `Stop`. -/
inductive Linking where
  | define (definition : ClassDef) (outcome : DefineOutcome)
  | ensureInitialized (descriptor : List Char) (classLoader : Nat) (succeeds : Bool)
  deriving DecidableEq, Repr

def Linking.operation : Linking → Operation
  | .define definition outcome => .define definition outcome
  | .ensureInitialized descriptor classLoader succeeds => .ensureInitialized descriptor classLoader succeeds

/-- The methods have the same entry points where the class is resolved and not a proxy class. -/
def Class.SameEntryPoints (a b : Class) : Prop :=
  a.descriptor = b.descriptor ∧ a.classLoader = b.classLoader ∧ a.status = b.status ∧
    List.Forall₂ (fun m n => m.address = n.address ∧ (a.isResolved → a.isProxyClass = false → m.isAbstract = false →
      m.entryPoint = n.entryPoint)) a.methods b.methods

def Runtime.SameEntryPoints (s t : Runtime) : Prop := List.Forall₂ Class.SameEntryPoints s.classes t.classes

inductive Origin where
  | existing (klass : Class)
  | defined (definition : ClassDef) (outcome : DefineOutcome)

structure History where
  origin : Origin
  initialization : Option Bool

def Origin.descriptor : Origin → List Char
  | .existing klass => klass.descriptor
  | .defined definition _ => definition.descriptor

def Origin.classLoader : Origin → Nat
  | .existing klass => klass.classLoader
  | .defined definition _ => definition.classLoader

def Origin.isDefined : Origin → Bool
  | .existing _ => false
  | .defined .. => true

def Linking.record : Linking → List History → List History
  | .define definition outcome, histories =>
    if histories.any fun h =>
      h.origin.descriptor = definition.descriptor && h.origin.classLoader = definition.classLoader
    then histories else histories ++ [⟨.defined definition outcome,none⟩]
  | .ensureInitialized descriptor classLoader succeeds, histories => histories.map fun h =>
    if h.origin.descriptor = descriptor ∧ h.origin.classLoader = classLoader then
      { h with initialization := some (h.initialization.getD succeeds) } else h

def histories (classes : List Class) (links : List Linking) : List History :=
  links.foldl (fun histories link => link.record histories) (classes.map fun klass => ⟨.existing klass,none⟩)

/-- The class as it enters the table. `existing` is what has been done to the classes that were there. -/
def Origin.enter (i : Instrumentation) (whitelist : Option (List (List Char))) (existing : Class → Class) :
    Origin → Class
  | .existing klass => existing klass
  | .defined definition .resolved => postClassPrepare whitelist (loadClass i definition .resolved)
  | .defined definition .failed => loadClass i definition .error

def History.view (i : Instrumentation) (whitelist : Option (List (List Char))) (existing : Class → Class)
    (h : History) : Class :=
  match h.initialization with
  | none => h.origin.enter i whitelist existing
  | some succeeds => Runtime.initializeClass i succeeds (h.origin.enter i whitelist existing)

namespace History

/-- The class before its initialization, without a trace. -/
def base (h : History) : Class := h.origin.enter .idle none id

def plain (h : History) : Class := h.view .idle none id

/-- The class before `Stop`, with a trace. -/
def traced (whitelist : List (List Char)) (h : History) : Class :=
  h.view .tracing (some whitelist) fun klass => postClassPrepare (some whitelist) (installStubsForClass .tracing klass)

/-- The class carries the mark when the trace stops. -/
def marked (whitelist : List (List Char)) (h : History) : Bool :=
  (h.origin.enter .idle (some whitelist) (postClassPrepare (some whitelist))).isMiniTraceable

def initialized (h : History) : Bool :=
  decide (h.initialization = some true) && h.base.isResolved && !h.base.isInitialized

/-- What keeps the entry point of a method through the trace. A method that `Stop` recomputes must
have had the entry point that `Stop` chooses, unless the class linker gave it that one too. Of the
others, those that the class linker set during the trace must have no code to lose. -/
def Spared (whitelist : List (List Char)) (h : History) (method : ArtMethod) : Prop :=
  if h.marked whitelist && !keepsStubs h.base method then
    h.origin.isDefined = true ∨ (h.initialized && method.isStatic) = true ∨ method.entryPoint =
      stubFor .idle h.plain method
  else if h.initialized && method.isStatic then method.isNative = false ∧ method.oatCode = none
  else if h.origin.isDefined && (!method.isStatic || method.isConstructor) then
    method.isNative = true ∨ method.oatCode = none
  else True

instance (whitelist : List (List Char)) (h : History) (method : ArtMethod) : Decidable (h.Spared whitelist method) := by
  unfold Spared
  infer_instance

/-- The trace costs no method of the class its entry point. -/
def Unharmed (whitelist : List (List Char)) (h : History) : Prop :=
  h.plain.isResolved → h.plain.isProxyClass = false → ∀ method ∈ h.base.methods, method.isAbstract = false →
    h.Spared whitelist method

instance (whitelist : List (List Char)) (h : History) : Decidable (h.Unharmed whitelist) :=
  inferInstanceAs (Decidable (_ → _ → ∀ method ∈ h.base.methods, _))

end History

structure ArtMethod.Alike (a b : ArtMethod) : Prop where
  address : a.address = b.address
  oatCode : a.oatCode = b.oatCode
  isAbstract : a.isAbstract = b.isAbstract
  isNative : a.isNative = b.isNative
  isStatic : a.isStatic = b.isStatic
  isConstructor : a.isConstructor = b.isConstructor

theorem ArtMethod.alike_setEntryPoint {a b : ArtMethod} (alike : a.Alike b) (entryPoint : EntryPoint) :
    (a.setEntryPoint entryPoint).Alike b := ⟨alike.1,alike.2,alike.3,alike.4,alike.5,alike.6⟩

theorem ArtMethod.alike_setIsMiniTraceable {a b : ArtMethod} (alike : a.Alike b) : a.setIsMiniTraceable.Alike b where
  address := alike.address
  oatCode := alike.oatCode
  isAbstract := (hasFlag_set a.accessFlags kAccAbstract (by decide)).trans alike.isAbstract
  isNative := (hasFlag_set a.accessFlags kAccNative (by decide)).trans alike.isNative
  isStatic := (hasFlag_set a.accessFlags kAccStatic (by decide)).trans alike.isStatic
  isConstructor := (hasFlag_set a.accessFlags kAccConstructor (by decide)).trans alike.isConstructor

/-- The entry point that the end of an initialization gives a static method. -/
def relinked (i : Instrumentation) (method : ArtMethod) : EntryPoint :=
  (updateMethodsCode i method (staticCode i method)).entryPoint

theorem isDeoptimized_congr (i : Instrumentation) {a b : ArtMethod} (alike : a.Alike b) :
    i.isDeoptimized a = i.isDeoptimized b := by
  simp only [Instrumentation.isDeoptimized,alike.address]

theorem relinked_congr (i : Instrumentation) {a b : ArtMethod} (alike : a.Alike b) : relinked i a = relinked i b := by
  have code : staticCode i a = staticCode i b := by
    unfold staticCode
    rw [alike.oatCode,alike.isNative]
  simp only [relinked,updateMethodsCode,ArtMethod.setEntryPoint,code,isDeoptimized_congr i alike,alike.isNative]

/-- A state of a class, with the state of each of its methods. -/
structure Class.Over (base klass : Class) (f : ArtMethod → ArtMethod) : Prop where
  methods : klass.methods = base.methods.map f
  alike : ∀ method, (f method).Alike method
  descriptor : klass.descriptor = base.descriptor
  classLoader : klass.classLoader = base.classLoader
  isProxyClass : klass.isProxyClass = base.isProxyClass

namespace Class.Over

variable {base klass : Class} {f : ArtMethod → ArtMethod}

theorem self (klass : Class) : Over klass klass id :=
  ⟨by simp,fun _ => ⟨rfl,rfl,rfl,rfl,rfl,rfl⟩,rfl,rfl,rfl⟩

theorem keepsStubs_eq (state : Over base klass f) (method : ArtMethod) :
    keepsStubs klass (f method) = keepsStubs base method := by
  simp only [keepsStubs,(state.alike method).isAbstract,(state.alike method).isConstructor,state.isProxyClass,
    state.descriptor]

theorem stubFor_eq (state : Over base klass f) (i : Instrumentation) (other : Class) (method : ArtMethod)
    (status : klass.status = other.status) (proxy : other.isProxyClass = base.isProxyClass) :
    stubFor i klass (f method) = stubFor i other method := by
  have alike := state.alike method
  have code : getQuickOatCodeFor klass (f method) = getQuickOatCodeFor other method := by
    simp only [getQuickOatCodeFor,state.isProxyClass,proxy,alike.oatCode,alike.isNative]
  have reached : callable klass (f method) = callable other method := by
    simp only [callable,Class.isInitialized,status,alike.isStatic,alike.isConstructor]
  simp only [stubFor,code,reached,isDeoptimized_congr i alike,alike.isNative]

theorem prepare (state : Over base klass f) (whitelist : Option (List (List Char))) :
    ∃ g, Over base (postClassPrepare whitelist klass) g ∧ ∀ method, (g method).entryPoint = (f method).entryPoint := by
  refine postClassPrepare_induction
    (motive := fun prepared => ∃ g, Over base prepared g ∧ ∀ method, (g method).entryPoint = (f method).entryPoint)
    whitelist klass ?_ ?_
  · exact ⟨f,state,fun _ => rfl⟩
  · refine ⟨fun method => (f method).setIsMiniTraceable,⟨?_,?_,state.descriptor,state.classLoader,?_⟩,fun _ => rfl⟩
    · rw [show klass.mark.methods = klass.methods.map ArtMethod.setIsMiniTraceable from
        mapMethods_methods _ ArtMethod.setIsMiniTraceable_isStatic klass,state.methods,List.map_map]
      rfl
    · exact fun method => ArtMethod.alike_setIsMiniTraceable (state.alike method)
    · exact (hasFlag_set klass.accessFlags kAccClassIsProxy (by decide)).trans state.isProxyClass

theorem install (state : Over base klass f) (i : Instrumentation) :
    ∃ g, Over base (installStubsForClass i klass) g ∧ ∀ method, (g method).entryPoint =
      if klass.isResolved && klass.isMiniTraceable && !keepsStubs base method then stubFor i klass (f method)
      else (f method).entryPoint := by
  unfold installStubsForClass
  split
  · rename_i erroneous
    have unresolved : klass.isResolved = false := by
      have status : klass.status = .error := by simpa [Class.isErroneous] using erroneous
      simp [Class.isResolved,status,Status.value]
    exact ⟨f,state,fun _ => by simp [unresolved]⟩
  split
  · rename_i unresolved
    exact ⟨f,state,fun _ => by simp_all⟩
  split
  · rename_i unmarked
    exact ⟨f,state,fun _ => by simp_all⟩
  · rename_i resolved marked
    refine ⟨fun method => installStubsForMethod i klass (f method),
      ⟨?_,fun method => ?_,state.descriptor,state.classLoader,state.isProxyClass⟩,fun method => ?_⟩
    · rw [mapMethods_methods,state.methods,List.map_map]
      rfl
    · unfold installStubsForMethod
      split
      · exact state.alike method
      · exact ArtMethod.alike_setEntryPoint (state.alike method) _
    · simp only [installStubsForMethod,state.keepsStubs_eq]
      cases keepsStubs base method <;> simp_all [ArtMethod.setEntryPoint]

theorem fixup (state : Over base klass f) (i : Instrumentation) :
    Over base (fixupStaticTrampolines i klass) fun method =>
      if method.isStatic then updateMethodsCode i (f method) (staticCode i (f method)) else f method := by
  let relink : ArtMethod → ArtMethod := fun method =>
    if method.isStatic then updateMethodsCode i method (staticCode i method) else method
  have virtual : klass.virtualMethods.map relink = klass.virtualMethods := by
    refine (List.map_congr_left fun method member => ?_).trans (List.map_id _)
    simp [relink,klass.virtualInstance method member]
  refine ⟨?_,fun method => ?_,state.descriptor,state.classLoader,state.isProxyClass⟩
  · calc (fixupStaticTrampolines i klass).methods
        = klass.directMethods.map relink ++ klass.virtualMethods := rfl
      _ = klass.methods.map relink := by rw [Class.methods,List.map_append,virtual]
      _ = _ := by
        rw [state.methods,List.map_map]
        refine List.map_congr_left fun method _ => ?_
        simp only [Function.comp_apply,relink,(state.alike method).isStatic]
  · split
    · exact ArtMethod.alike_setEntryPoint (state.alike method) _
    · exact state.alike method

theorem runInitializer (state : Over base klass f) (i : Instrumentation) (succeeds : Bool) :
    ∃ g, Over base (Runtime.initializeClass i succeeds klass) g ∧ ∀ method, (g method).entryPoint =
      if succeeds && klass.isResolved && !klass.isInitialized && method.isStatic then relinked i method
      else (f method).entryPoint := by
  have restatus : ∀ status, Over base { klass with status := status } f :=
    fun _ => ⟨state.methods,state.alike,state.descriptor,state.classLoader,state.isProxyClass⟩
  unfold Runtime.initializeClass
  split
  · rename_i skipped
    refine ⟨f,state,fun method => ?_⟩
    cases resolved : klass.isResolved <;> simp_all
  · rename_i pending
    simp only [Bool.or_eq_true,Bool.not_eq_true',not_or,Bool.not_eq_false,Bool.not_eq_true] at pending
    split
    · rename_i succeeds
      refine ⟨_,(restatus .initialized).fixup i,fun method => ?_⟩
      simp only [succeeds,pending.1,pending.2,Bool.not_false,Bool.and_true,Bool.true_and]
      split
      · exact relinked_congr i (state.alike method)
      · rfl
    · rename_i fails
      exact ⟨f,restatus .error,fun method => by simp [fails]⟩

end Class.Over

theorem sameEntryPoints_iff {base a b : Class} {f g : ArtMethod → ArtMethod} (left : base.Over a f)
    (right : base.Over b g) (status : a.status = b.status) : a.SameEntryPoints b ↔
      (b.isResolved → b.isProxyClass = false →
      ∀ method ∈ base.methods, method.isAbstract = false → (f method).entryPoint = (g method).entryPoint) := by
  have resolved : a.isResolved = b.isResolved := by rw [Class.isResolved,status,← Class.isResolved]
  have proxy : a.isProxyClass = b.isProxyClass := left.isProxyClass.trans right.isProxyClass.symm
  have address : ∀ method, (f method).address = (g method).address :=
    fun method => (left.alike method).address.trans (right.alike method).address.symm
  have abstract : ∀ method, (f method).isAbstract = method.isAbstract := fun method => (left.alike method).isAbstract
  simp only [Class.SameEntryPoints,left.methods,right.methods,List.forall₂_map_left_iff,List.forall₂_map_right_iff,
    List.forall₂_same,resolved,proxy,status,address,abstract,left.descriptor,right.descriptor,left.classLoader,
    right.classLoader,true_and]
  exact ⟨fun same isResolved notProxy method member concrete => same method member isResolved notProxy concrete,
    fun same method member isResolved notProxy concrete => same isResolved notProxy method member concrete⟩

theorem loadClass_over (i : Instrumentation) (definition : ClassDef) (status : Status) :
    (loadClass .idle definition status).Over (loadClass i definition status)
      fun method => method.setEntryPoint (linkCode i method.accessFlags method.oatCode) := by
  refine ⟨?_,fun method => ArtMethod.alike_setEntryPoint ⟨rfl,rfl,rfl,rfl,rfl,rfl⟩ _,rfl,rfl,rfl⟩
  have miranda : ∀ source : MethodDef, (mirandaMethod source).setEntryPoint
      (linkCode i (mirandaMethod source).accessFlags (mirandaMethod source).oatCode) = mirandaMethod source := by
    intro source
    have abstract : hasFlag (mirandaMethod source).accessFlags kAccAbstract = true := mirandaMethod_isAbstract source
    simp only [linkCode,abstract,if_true]
    rfl
  simp only [Class.methods,loadClass,List.map_append,List.map_map]
  have copied : definition.mirandaMethods.map mirandaMethod = definition.mirandaMethods.map
      ((fun method => method.setEntryPoint (linkCode i method.accessFlags method.oatCode)) ∘ mirandaMethod) :=
    List.map_congr_left fun source _ => (miranda source).symm
  rw [← copied]
  rfl

theorem relinked_tracing_iff (method : ArtMethod) :
    relinked .tracing method = relinked .idle method ↔ method.isNative = false ∧ method.oatCode = none := by
  cases native : method.isNative <;> cases code : method.oatCode <;>
    simp [relinked,updateMethodsCode,staticCode,needsInterpreter,Instrumentation.tracing,Instrumentation.idle,
      Instrumentation.isDeoptimized,ArtMethod.setEntryPoint,native,code]

theorem linkCode_tracing_iff (flags : AccessFlags) (oatCode : Option Nat)
    (concrete : hasFlag flags kAccAbstract = false) :
    linkCode .tracing flags oatCode = linkCode .idle flags oatCode ↔
      ((!hasFlag flags kAccStatic || hasFlag flags kAccConstructor) = true → hasFlag flags kAccNative = true ∨
        oatCode = none) := by
  cases static : hasFlag flags kAccStatic <;> cases special : hasFlag flags kAccConstructor <;>
    cases native : hasFlag flags kAccNative <;> cases oatCode <;>
    simp [linkCode,needsInterpreter,Instrumentation.tracing,Instrumentation.idle,concrete,static,special,native]

theorem stubFor_idle (klass : Class) (method : ArtMethod) : stubFor .idle klass method =
    if callable klass method then getQuickOatCodeFor klass method else .quickResolutionStub := by
  simp [stubFor,Instrumentation.idle,Instrumentation.isDeoptimized]

theorem relinked_idle (klass : Class) (method : ArtMethod) (initialized : klass.isInitialized = true)
    (notProxy : klass.isProxyClass = false) : relinked .idle method = stubFor .idle klass method := by
  rw [stubFor_idle]
  cases native : method.isNative <;> cases code : method.oatCode <;>
    simp [relinked,updateMethodsCode,staticCode,needsInterpreter,Instrumentation.idle,callable,initialized,
      ArtMethod.setEntryPoint,getQuickOatCodeFor,notProxy,native,code]

/-- The code that `LinkCode` installs is the one `InstallStubsForMethod` goes back to. -/
theorem linkCode_idle (klass : Class) (method : ArtMethod) (concrete : method.isAbstract = false)
    (notProxy : klass.isProxyClass = false)
    (fixed : klass.isInitialized = true → (!method.isStatic || method.isConstructor) = true) :
    linkCode .idle method.accessFlags method.oatCode = stubFor .idle klass method := by
  have reached : callable klass method = (!method.isStatic || method.isConstructor) := by
    cases initialized : klass.isInitialized with
    | true => simp [callable,initialized,fixed initialized]
    | false => simp [callable,initialized]
  rw [stubFor_idle]
  cases static : hasFlag method.accessFlags kAccStatic <;> cases special :
    hasFlag method.accessFlags kAccConstructor <;>
    cases native : hasFlag method.accessFlags kAccNative <;> cases code : method.oatCode <;>
    simp_all [linkCode,needsInterpreter,Instrumentation.idle,getQuickOatCodeFor,ArtMethod.isNative,
      ArtMethod.isStatic,ArtMethod.isConstructor,ArtMethod.isAbstract]

theorem postClassPrepare_none (klass : Class) : postClassPrepare none klass = klass := by
  simp [postClassPrepare,doTrace]

theorem initializeClass_status (i j : Instrumentation) (succeeds : Bool) {a b : Class} (same : a.status = b.status) :
    (Runtime.initializeClass i succeeds a).status = (Runtime.initializeClass j succeeds b).status := by
  have pending : (!a.isResolved || a.isInitialized) = (!b.isResolved || b.isInitialized) := by
    rw [Class.isResolved,Class.isInitialized,same,← Class.isResolved,← Class.isInitialized]
  rw [Runtime.initializeClass,Runtime.initializeClass,pending]
  cases (!b.isResolved || b.isInitialized) with
  | true => exact same
  | false => cases succeeds <;> rfl

namespace History

theorem enter_over (whitelist : List (List Char)) (h : History) :
    ∃ f, h.base.Over (h.origin.enter .tracing (some whitelist)
        fun klass => postClassPrepare (some whitelist) (installStubsForClass .tracing klass)) f ∧
      ∀ method, (h.marked whitelist && !keepsStubs h.base method) = false → (f method).entryPoint =
        if h.origin.isDefined then linkCode .tracing method.accessFlags method.oatCode else method.entryPoint := by
  obtain ⟨origin,initialization⟩ := h
  cases origin with
  | existing klass =>
    obtain ⟨f,installed,entry⟩ := (Class.Over.self klass).install .tracing
    obtain ⟨g,prepared,same⟩ := installed.prepare (some whitelist)
    refine ⟨g,prepared,fun method untouched => ?_⟩
    rw [same,entry,if_neg]
    · rfl
    · intro touched
      have marked : marked whitelist ⟨.existing klass,initialization⟩ = true := by
        simp only [marked,Origin.enter,postClassPrepare_marked]
        simp_all
      simp_all [base,Origin.enter]
  | defined definition outcome =>
    cases outcome with
    | resolved =>
      obtain ⟨f,prepared,same⟩ := (loadClass_over .tracing definition .resolved).prepare (some whitelist)
      refine ⟨f,?_,fun method _ => same method⟩
      simpa only [base,Origin.enter,postClassPrepare_none] using prepared
    | failed => exact ⟨_,loadClass_over .tracing definition .error,fun _ _ => rfl⟩

theorem enter_status (whitelist : List (List Char)) (h : History) :
    (h.origin.enter .tracing (some whitelist)
      fun klass => postClassPrepare (some whitelist) (installStubsForClass .tracing klass)).status = h.base.status := by
  obtain ⟨origin,initialization⟩ := h
  cases origin with
  | existing klass =>
    exact (postClassPrepare_status _ _).trans (status_of_shape (installStubsForClass_shape .tracing klass))
  | defined definition outcome =>
    cases outcome with
    | resolved =>
      exact (postClassPrepare_status _ (loadClass .tracing definition .resolved)).trans
        (postClassPrepare_status none (loadClass .idle definition .resolved)).symm
    | failed => rfl

theorem enter_marked (whitelist : List (List Char)) (h : History) :
    (h.origin.enter .tracing (some whitelist)
      fun klass => postClassPrepare (some whitelist) (installStubsForClass .tracing klass)).isMiniTraceable =
      h.marked whitelist := by
  obtain ⟨origin,initialization⟩ := h
  cases origin with
  | existing klass =>
    have same := installStubsForClass_shape .tracing klass
    have kind := kind_of_shape same
    simp only [Class.kind,Prod.mk.injEq] at kind
    simp only [marked,Origin.enter,postClassPrepare_marked,marked_of_shape same,doTrace,kind.1,kind.2.1,kind.2.2]
  | defined definition outcome =>
    cases outcome with
    | resolved =>
      simp only [marked,Origin.enter,postClassPrepare_marked,loadClass_unmarked]
      rfl
    | failed => rfl

theorem plain_over (h : History) : ∃ f, h.base.Over h.plain f ∧ ∀ method, (f method).entryPoint =
    if h.initialized && method.isStatic then relinked .idle method else method.entryPoint := by
  obtain ⟨origin,initialization⟩ := h
  cases initialization with
  | none => exact ⟨id,Class.Over.self _,fun _ => rfl⟩
  | some succeeds =>
    obtain ⟨f,state,entry⟩ := (Class.Over.self (base ⟨origin,some succeeds⟩)).runInitializer .idle succeeds
    refine ⟨f,state,fun method => ?_⟩
    cases succeeds <;> simpa [initialized] using entry method

theorem traced_over (whitelist : List (List Char)) (h : History) : ∃ f, h.base.Over (h.traced whitelist) f ∧
    ∀ method, (h.marked whitelist && !keepsStubs h.base method) = false → (f method).entryPoint =
      if h.initialized && method.isStatic then relinked .tracing method
      else if h.origin.isDefined then linkCode .tracing method.accessFlags method.oatCode else method.entryPoint := by
  obtain ⟨f,entered,entry⟩ := enter_over whitelist h
  obtain ⟨origin,initialization⟩ := h
  cases initialization with
  | none => exact ⟨f,entered,entry⟩
  | some succeeds =>
    obtain ⟨g,state,after⟩ := entered.runInitializer .tracing succeeds
    refine ⟨g,state,fun method untouched => ?_⟩
    rw [after,entry method untouched,Class.isResolved,Class.isInitialized,enter_status whitelist ⟨origin,some succeeds⟩,
      ← Class.isResolved,← Class.isInitialized]
    cases succeeds <;> rfl

theorem traced_status (whitelist : List (List Char)) (h : History) : (h.traced whitelist).status = h.plain.status := by
  have entered := enter_status whitelist h
  obtain ⟨origin,initialization⟩ := h
  cases initialization with
  | none => exact entered
  | some succeeds => exact initializeClass_status .tracing .idle succeeds entered

theorem traced_marked (whitelist : List (List Char)) (h : History) :
    (h.traced whitelist).isMiniTraceable = h.marked whitelist := by
  have entered := enter_marked whitelist h
  obtain ⟨origin,initialization⟩ := h
  cases initialization with
  | none => exact entered
  | some succeeds => exact (initializeClass_sameMark .tracing succeeds _).marked.trans entered

/-- A method that the class linker has set up without a trace has the entry point of `LinkCode`. -/
theorem defined_entry (h : History) (isDefined : h.origin.isDefined = true) (method : ArtMethod)
    (member : method ∈ h.base.methods) : method.entryPoint = linkCode .idle method.accessFlags method.oatCode := by
  have linked : ∀ definition status, method ∈ (loadClass .idle definition status).methods →
      method.entryPoint = linkCode .idle method.accessFlags method.oatCode := by
    intro definition status inside
    rw [(loadClass_over .idle definition status).methods] at inside
    obtain ⟨original,-,rfl⟩ := List.mem_map.mp inside
    rfl
  obtain ⟨origin,initialization⟩ := h
  cases origin with
  | existing klass => cases isDefined
  | defined definition outcome =>
    cases outcome with
    | resolved =>
      rw [base,Origin.enter,postClassPrepare_none] at member
      exact linked definition .resolved member
    | failed => exact linked definition .error member

theorem plain_initialized (h : History) (initialized : h.initialized = true) : h.plain.isInitialized = true := by
  obtain ⟨origin,initialization⟩ := h
  simp only [History.initialized,Bool.and_eq_true,decide_eq_true_eq,Bool.not_eq_true'] at initialized
  obtain ⟨⟨first,resolved⟩,pending⟩ := initialized
  subst first
  show (Runtime.initializeClass .idle true (base ⟨origin,some true⟩)).isInitialized = true
  rw [Runtime.initializeClass,resolved,pending]
  rfl

theorem defined_initialized (h : History) (isDefined : h.origin.isDefined = true)
    (initialized : h.plain.isInitialized = true) : h.initialized = true := by
  have fresh : h.base.isInitialized = false := by
    obtain ⟨origin,initialization⟩ := h
    cases origin with
    | existing klass => cases isDefined
    | defined definition outcome =>
      cases outcome with
      | resolved => simp [base,Origin.enter,postClassPrepare_none,loadClass,Class.isInitialized]
      | failed => simp [base,Origin.enter,loadClass,Class.isInitialized]
  obtain ⟨origin,initialization⟩ := h
  cases initialization with
  | none => cases fresh.symm.trans initialized
  | some succeeds =>
    change (Runtime.initializeClass .idle succeeds (base ⟨origin,some succeeds⟩)).isInitialized = true at initialized
    rw [Runtime.initializeClass] at initialized
    cases resolved : (base ⟨origin,some succeeds⟩).isResolved <;> cases succeeds <;>
      simp_all [History.initialized,Class.isInitialized]

theorem spared_iff (whitelist : List (List Char)) (h : History) (notProxy : h.plain.isProxyClass = false)
    (method : ArtMethod) (member : method ∈ h.base.methods) (concrete : method.isAbstract = false)
    (final : EntryPoint) (recomputed : (h.marked whitelist && !keepsStubs h.base method) = true →
      final = stubFor .idle h.plain method)
    (untouched : (h.marked whitelist && !keepsStubs h.base method) = false → final =
      if h.initialized && method.isStatic then relinked .tracing method
      else if h.origin.isDefined then linkCode .tracing method.accessFlags method.oatCode else method.entryPoint) :
    final = (if h.initialized && method.isStatic then relinked .idle method else method.entryPoint) ↔
      h.Spared whitelist method := by
  unfold Spared
  cases touched : h.marked whitelist && !keepsStubs h.base method with
  | true =>
    rw [recomputed touched,if_pos rfl]
    cases relinks : h.initialized && method.isStatic with
    | true =>
      have initialized := plain_initialized h (Bool.and_eq_true_iff.mp relinks).1
      simp [relinked_idle h.plain method initialized notProxy]
    | false =>
      cases isDefined : h.origin.isDefined with
      | true =>
        have fixed : h.plain.isInitialized = true → (!method.isStatic || method.isConstructor) = true := by
          intro initialized
          rw [defined_initialized h isDefined initialized,Bool.true_and] at relinks
          simp [relinks]
        simp [defined_entry h isDefined method member,linkCode_idle h.plain method concrete notProxy fixed]
      | false => simp [eq_comm]
  | false =>
    rw [untouched touched]
    simp only [Bool.false_eq_true,if_false]
    cases relinks : h.initialized && method.isStatic with
    | true => simp [relinked_tracing_iff]
    | false =>
      cases isDefined : h.origin.isDefined with
      | true =>
        rw [defined_entry h isDefined method member]
        simp only [Bool.false_eq_true,if_false,if_true,Bool.true_and]
        rw [linkCode_tracing_iff _ _ concrete]
        split <;> simp_all [ArtMethod.isStatic,ArtMethod.isConstructor,ArtMethod.isNative]
      | false => simp

theorem restored_iff (whitelist : List (List Char)) (h : History) :
    (installStubsForClass .idle (h.traced whitelist)).SameEntryPoints h.plain ↔ h.Unharmed whitelist := by
  obtain ⟨f,traced,untouched⟩ := traced_over whitelist h
  obtain ⟨g,stopped,final⟩ := traced.install .idle
  obtain ⟨p,plain,entry⟩ := plain_over h
  have status := traced_status whitelist h
  rw [sameEntryPoints_iff stopped plain ((status_of_shape (installStubsForClass_shape .idle _)).trans status),Unharmed]
  refine forall_congr' fun resolved => forall_congr' fun notProxy => forall_congr' fun method =>
    forall_congr' fun member =>
    forall_congr' fun concrete => ?_
  have tracedResolved : (h.traced whitelist).isResolved = true := by
    rwa [Class.isResolved,status,← Class.isResolved]
  rw [entry method]
  refine spared_iff whitelist h notProxy method member concrete _ (fun touched => ?_) (fun kept => ?_)
  · rw [final,tracedResolved,traced_marked,Bool.true_and,if_pos touched]
    exact traced.stubFor_eq .idle h.plain method status plain.isProxyClass
  · rw [final,tracedResolved,traced_marked,Bool.true_and,kept,← untouched method kept]
    rfl

end History

def Class.name (klass : Class) : List Char × Nat := (klass.descriptor,klass.classLoader)

theorem name_of_shape {a b : Class} (same : a.shape = b.shape) : a.name = b.name :=
  have erased : a.shape.name = b.shape.name := congrArg Class.name same
  erased

theorem postClassPrepare_name (whitelist : Option (List (List Char))) (klass : Class) :
    (postClassPrepare whitelist klass).name = klass.name :=
  postClassPrepare_induction (motive := fun prepared => prepared.name = klass.name) whitelist klass rfl rfl

theorem initializeClass_name (i : Instrumentation) (succeeds : Bool) (klass : Class) :
    (Runtime.initializeClass i succeeds klass).name = klass.name := by
  unfold Runtime.initializeClass
  split
  · rfl
  split <;> rfl

theorem initializeClass_again (i : Instrumentation) (first second : Bool) (klass : Class) :
    Runtime.initializeClass i second (Runtime.initializeClass i first klass) =
      Runtime.initializeClass i first klass := by
  have done : (!(Runtime.initializeClass i first klass).isResolved ||
      (Runtime.initializeClass i first klass).isInitialized) = true := by
    unfold Runtime.initializeClass
    split
    · assumption
    · split <;> rfl
  rw [Runtime.initializeClass,if_pos done]

section Views

variable (i : Instrumentation) (whitelist : Option (List (List Char))) (existing : Class → Class)
  (named : ∀ klass, (existing klass).name = klass.name)

include named

theorem view_name (h : History) : (h.view i whitelist existing).name = (h.origin.descriptor,h.origin.classLoader) := by
  have entered : (h.origin.enter i whitelist existing).name = (h.origin.descriptor,h.origin.classLoader) := by
    cases h.origin with
    | existing klass => exact named klass
    | defined definition outcome =>
      cases outcome with
      | resolved => exact postClassPrepare_name whitelist _
      | failed => rfl
  unfold History.view
  split
  · exact entered
  · exact (initializeClass_name i _ _).trans entered

theorem define_views (s : Runtime) (hs : List History) (definition : ClassDef) (outcome : DefineOutcome)
    (classes : s.classes = hs.map (History.view i whitelist existing)) (instrumentation : s.instrumentation = i)
    (selected : s.whitelist = whitelist) :
    s.define definition outcome =
      { s with
        classes := ((Linking.define definition outcome).record hs).map (History.view i whitelist existing) } := by
  have search : s.contains definition.descriptor definition.classLoader = hs.any fun h =>
      h.origin.descriptor = definition.descriptor && h.origin.classLoader = definition.classLoader := by
    rw [Runtime.contains,classes,List.any_map]
    congr 1
    funext h
    obtain ⟨descriptor_eq,loader_eq⟩ := Prod.mk.inj (view_name i whitelist existing named h)
    simp only [Function.comp_apply,descriptor_eq,loader_eq]
  subst instrumentation selected
  simp only [Runtime.define,Linking.record,search]
  split
  · rw [← classes]
  · cases outcome with
    | failed => simp [classes,History.view,Origin.enter]
    | resolved =>
      simp [classes,History.view,Origin.enter,installStubsForClass_unmarked _ _ (loadClass_unmarked _ _ _)]

theorem ensureInitialized_views (s : Runtime) (hs : List History) (descriptor : List Char) (classLoader : Nat)
    (succeeds : Bool) (classes : s.classes = hs.map (History.view i whitelist existing))
    (instrumentation : s.instrumentation = i) :
    s.ensureInitialized descriptor classLoader succeeds = { s with
      classes := ((Linking.ensureInitialized descriptor classLoader succeeds).record hs).map
        (History.view i whitelist existing) } := by
  simp only [Runtime.ensureInitialized,Linking.record,classes,instrumentation,List.map_map]
  congr 1
  refine List.map_congr_left fun h _ => ?_
  obtain ⟨descriptor_eq,loader_eq⟩ := Prod.mk.inj (view_name i whitelist existing named h)
  simp only [Function.comp_apply,descriptor_eq,loader_eq]
  split
  · obtain ⟨origin,initialization⟩ := h
    cases initialization with
    | none => rfl
    | some first => exact initializeClass_again i first succeeds _
  · rfl

theorem run_views (links : List Linking) (s : Runtime) (hs : List History)
    (classes : s.classes = hs.map (History.view i whitelist existing)) (instrumentation : s.instrumentation = i)
    (selected : s.whitelist = whitelist) :
    run Runtime.step (links.map Linking.operation) s =
      some { s with
        classes := (links.foldl (fun hs link => link.record hs) hs).map (History.view i whitelist existing) } := by
  induction links generalizing s hs with
  | nil => simp [← classes]
  | cons link links ih =>
    have taken : Runtime.step link.operation s =
        some { s with classes := (link.record hs).map (History.view i whitelist existing) } := by
      cases link with
      | define definition outcome =>
        exact congrArg some (define_views i whitelist existing named s hs definition outcome classes
          instrumentation selected)
      | ensureInitialized descriptor classLoader succeeds =>
        exact congrArg some
          (ensureInitialized_views i whitelist existing named s hs descriptor classLoader succeeds classes
            instrumentation)
    rw [List.map_cons,run_cons,taken,Option.bind_some]
    exact ih _ (link.record hs) rfl instrumentation selected

end Views

namespace Runtime

theorem startTrace_idle (s : Runtime) (config : Config) (idle : s.instrumentation = .idle) :
    s.startTrace config = {
      classes := s.classes.map fun klass =>
        postClassPrepare (some config.whitelist) (installStubsForClass .tracing klass)
      instrumentation := .tracing
      theTrace := some ⟨config.events,config.bufferSize⟩
      whitelist := some config.whitelist } := by
  have enabled : enableMethodTracing .kMiniTracerInstrumentationKey .idle s.classes =
      (.tracing,s.classes.map (installStubsForClass .tracing),.install) := rfl
  simp only [startTrace,idle,enabled,List.map_map]
  rfl

theorem stop_tracing (s : Runtime) (active : s.theTrace ≠ none) (tracing : s.instrumentation = .tracing) :
    s.stop = ⟨s.classes.map (installStubsForClass .idle),.idle,none,none⟩ := by
  have disabled : disableMethodTracing .kMiniTracerInstrumentationKey .tracing s.classes =
      (.idle,s.classes.map (installStubsForClass .idle),.restore) := rfl
  have running : s.theTrace.isNone = false := by simpa [Option.isSome_iff_ne_none] using active
  simp only [stop,running,tracing,disabled,Bool.false_eq_true,if_false]

/-- A run from `Start` to `Stop` ends with idle instrumentation, and it ends with the entry points of the
run without it exactly when no class is harmed. -/
theorem stop_restores_iff (s : Runtime) (environment : StartEnvironment) (links : List Linking)
    (inactive : s.theTrace = none) (bare : s.whitelist = none) (idle : s.instrumentation = .idle)
    (returns : s.decision environment ≠ .abort) :
    ∃ traced plain, run step (.start environment :: links.map Linking.operation ++ [.stop]) s = some traced ∧
      run step (links.map Linking.operation) s = some plain ∧ traced.instrumentation = .idle ∧
      (traced.SameEntryPoints plain ↔ ∀ config ∈ (s.decision environment).config?,
        ∀ h ∈ histories s.classes links, h.Unharmed config.whitelist) := by
  have entered : s.classes = (s.classes.map fun klass => (⟨.existing klass,none⟩ : History)).map
      (History.view .idle none id) := by
    rw [List.map_map]
    exact (List.map_id _).symm
  obtain ⟨plain,without,plainClasses,plainIdle,plainInactive⟩ : ∃ plain : Runtime,
      run step (links.map Linking.operation) s = some plain ∧
      plain.classes = (histories s.classes links).map History.plain ∧ plain.instrumentation = .idle ∧
      plain.theTrace = none := ⟨_,run_views .idle none id (fun _ => rfl) links s _ entered idle bare,rfl,idle,inactive⟩
  cases chosen : s.decision environment with
  | abort => exact absurd chosen returns
  | ignore =>
    have unchanged : step (.start environment) s = some s := by simp [step,start,chosen]
    have stopped : step .stop plain = some plain := by simp [step,stop,plainInactive]
    refine ⟨plain,plain,?_,without,plainIdle,?_⟩
    · simp only [List.cons_append,run_cons,unchanged,Option.bind_some,run_append,without,stopped,run_nil]
    · have same : ∀ klass : Class, klass.SameEntryPoints klass :=
        fun klass => (sameEntryPoints_iff (Class.Over.self klass) (Class.Over.self klass) rfl).mpr fun _ _ _ _ _ => rfl
      simp only [SameEntryPoints,List.forall₂_same,Decision.config?,Option.mem_def,reduceCtorEq,false_implies,
        implies_true,iff_true]
      exact fun klass _ => same klass
  | proceed config =>
    have started : step (.start environment) s = some (s.startTrace config) := by simp [step,start,chosen]
    have prepared : (s.startTrace config).classes = (s.classes.map fun klass => (⟨.existing klass,none⟩ : History)).map
        (History.traced config.whitelist) := by
      rw [startTrace_idle s config idle,List.map_map]
      rfl
    have within := run_views .tracing (some config.whitelist) _
      (fun klass => (postClassPrepare_name _ _).trans (name_of_shape (installStubsForClass_shape .tracing klass)))
      links (s.startTrace config) _ prepared (by rw [startTrace_idle s config idle]) rfl
    refine ⟨⟨((histories s.classes links).map (History.traced config.whitelist)).map (installStubsForClass .idle),
      .idle,none,none⟩,plain,?_,without,rfl,?_⟩
    · simp only [List.cons_append,run_cons,started,Option.bind_some,run_append,within,run_nil]
      rw [step,stop_tracing _ (by simp [startTrace]) (by rw [startTrace_idle s config idle])]
      rfl
    · simp only [SameEntryPoints,plainClasses,List.map_map,List.forall₂_map_left_iff,List.forall₂_map_right_iff,
        List.forall₂_same,
        Decision.config?,Option.mem_def,Option.some.injEq,forall_eq']
      exact forall_congr' fun h => forall_congr' fun _ => History.restored_iff config.whitelist h

/-- The class is defined during a trace that does not ask for it: its compiled method is left in the interpreter. -/
theorem stop_leaves_bridge : ∃ traced plain,
    run step [.start (including ['L','b']),.define (compiledClass ['L','a',';']) .resolved,.stop] fresh = some traced ∧
    run step [.define (compiledClass ['L','a',';']) .resolved] fresh = some plain ∧
    traced.classes.map (fun klass => klass.methods.map ArtMethod.entryPoint) = [[.quickToInterpreterBridge]] ∧
    plain.classes.map (fun klass => klass.methods.map ArtMethod.entryPoint) = [[.compiled 7]] := by
  refine ⟨_,_,rfl,rfl,?_,?_⟩ <;> decide

/-- The trace asks for the class that is defined and initialized during it. -/
theorem stop_restores_traced_class : ∃ traced plain,
    run step [.start (including ['L','a']),.define (compiledClass ['L','a',';']) .resolved,
      .ensureInitialized ['L','a',';'] 1 true,.stop] fresh = some traced ∧
    run step [.define (compiledClass ['L','a',';']) .resolved,.ensureInitialized ['L','a',';'] 1 true] fresh =
      some plain ∧
    traced.instrumentation = .idle ∧ traced.SameEntryPoints plain := by
  obtain ⟨traced,plain,ran,without,idle,same⟩ := stop_restores_iff fresh (including ['L','a'])
    [.define (compiledClass ['L','a',';']) .resolved,.ensureInitialized ['L','a',';'] 1 true] rfl rfl rfl (by decide)
  exact ⟨traced,plain,ran,without,idle,same.mpr (by decide)⟩

end Runtime

end Aatt
