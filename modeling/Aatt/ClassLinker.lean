import Aatt.Instrumentation

/-! The class linker as far as it sets access flags, status and entry points: loading and
linking a class in `DefineClass`, and `FixupStaticTrampolines` at the end of its
initialization. -/
namespace Aatt

/-- A method of a class definition. `isInitializer` says that its name is `<init>` or `<clinit>`. -/
structure MethodDef where
  address : Address
  rawAccessFlags : AccessFlags
  isInitializer : Bool
  oatCode : Option Nat
  deriving DecidableEq, Repr

/-- A class definition of a dex file, with the abstract interface methods that linking copies
into the class as miranda methods. The dex file verifier refuses a static method in the list of
virtual methods. -/
structure ClassDef where
  descriptor : List Char
  classLoader : Nat
  dexLocation : List Char
  rawAccessFlags : AccessFlags
  directMethods : List MethodDef
  virtualMethods : List MethodDef
  mirandaMethods : List MethodDef
  instanceFields : List AccessFlags
  staticFields : List AccessFlags
  virtualInstance : ∀ method ∈ virtualMethods ++ mirandaMethods, hasFlag method.rawAccessFlags kAccStatic = false
  deriving DecidableEq, Repr

/-- `NeedsInterpreter`, for the code that has been found. The class is not a proxy class. -/
def needsInterpreter (i : Instrumentation) (isNative : Bool) (quickCode : Option Nat) : Bool :=
  quickCode.isNone || (i.interpretOnly && !isNative)

/-- `LoadMethod`: the flags a method takes from the dex file. -/
def methodFlags (definition : MethodDef) : AccessFlags :=
  let flags := definition.rawAccessFlags &&& kAccValidMethodFlags
  if definition.isInitializer then flags ||| kAccConstructor else flags

theorem methodFlags_static (definition : MethodDef) :
    hasFlag (methodFlags definition) kAccStatic = hasFlag definition.rawAccessFlags kAccStatic := by
  have masked := hasFlag_masked definition.rawAccessFlags kAccValidMethodFlags kAccStatic (by decide)
  unfold methodFlags
  split
  · rwa [hasFlag_or,show hasFlag kAccConstructor kAccStatic = false by decide,Bool.or_false]
  · exact masked

/-- The entry point that `LinkCode` leaves, starting from the code of the oat file. -/
def linkCode (i : Instrumentation) (flags : AccessFlags) (oatCode : Option Nat) : EntryPoint :=
  let isNative := hasFlag flags kAccNative
  if hasFlag flags kAccAbstract then .quickToInterpreterBridge
  else if hasFlag flags kAccStatic && !hasFlag flags kAccConstructor then .quickResolutionStub
  else if needsInterpreter i isNative oatCode then
    if !isNative then .quickToInterpreterBridge else .quickGenericJniStub
  else match oatCode with
    | some code => .compiled code
    -- not reached: without code the interpreter is needed
    | none => .quickToInterpreterBridge

def loadMethod (i : Instrumentation) (definition : MethodDef) : ArtMethod :=
  let flags := methodFlags definition
  ⟨definition.address,flags,definition.oatCode,linkCode i flags definition.oatCode⟩

/-- A miranda method is a copy of the abstract interface method. -/
def mirandaMethod (definition : MethodDef) : ArtMethod :=
  ⟨definition.address,(methodFlags definition) ||| kAccAbstract ||| kAccMiranda,none,.quickToInterpreterBridge⟩

theorem mirandaMethod_isStatic (definition : MethodDef) :
    (mirandaMethod definition).isStatic = hasFlag definition.rawAccessFlags kAccStatic := by
  show hasFlag (methodFlags definition ||| kAccAbstract ||| kAccMiranda) kAccStatic = _
  rw [hasFlag_or,hasFlag_or,methodFlags_static,show hasFlag kAccMiranda kAccStatic = false by decide,
    show hasFlag kAccAbstract kAccStatic = false by decide,Bool.or_false,Bool.or_false]

theorem mirandaMethod_isAbstract (definition : MethodDef) : (mirandaMethod definition).isAbstract = true := by
  show hasFlag (methodFlags definition ||| kAccAbstract ||| kAccMiranda) kAccAbstract = true
  rw [hasFlag_or,hasFlag_or,show hasFlag kAccAbstract kAccAbstract = true by decide,Bool.or_true,Bool.true_or]

def loadField (rawAccessFlags : AccessFlags) : ArtField := ⟨rawAccessFlags &&& kAccValidFieldFlags⟩

/-- The class after `SetupClass`, `LoadClass` and `LinkClass`, with the given status. -/
def loadClass (i : Instrumentation) (definition : ClassDef) (status : Status) : Class where
  descriptor := definition.descriptor
  classLoader := definition.classLoader
  dexLocation := definition.dexLocation
  hasComponentType := false
  isPrimitive := false
  accessFlags := definition.rawAccessFlags &&& kAccJavaFlagsMask
  status := status
  directMethods := definition.directMethods.map (loadMethod i)
  virtualMethods := definition.virtualMethods.map (loadMethod i) ++ definition.mirandaMethods.map mirandaMethod
  instanceFields := definition.instanceFields.map loadField
  staticFields := definition.staticFields.map loadField
  virtualInstance := by
    intro method member
    simp only [List.mem_append,List.mem_map] at member
    obtain ⟨source,inside,rfl⟩ | ⟨source,inside,rfl⟩ := member
    · exact (methodFlags_static source).trans
        (definition.virtualInstance source (List.mem_append_left _ inside))
    · exact (mirandaMethod_isStatic source).trans
        (definition.virtualInstance source (List.mem_append_right _ inside))

/-- The code that `FixupStaticTrampolines` finds for a static method. -/
def staticCode (i : Instrumentation) (method : ArtMethod) : EntryPoint :=
  if needsInterpreter i method.isNative method.oatCode then
    if method.oatCode.isNone && method.isNative then .quickGenericJniStub else .quickToInterpreterBridge
  else match method.oatCode with
    | some code => .compiled code
    | none => .quickToInterpreterBridge

/-- `FixupStaticTrampolines`, in a started runtime. Static methods are direct methods. -/
def fixupStaticTrampolines (i : Instrumentation) (klass : Class) : Class :=
  { klass with directMethods := klass.directMethods.map fun method =>
      if method.isStatic then updateMethodsCode i method (staticCode i method) else method }

end Aatt
