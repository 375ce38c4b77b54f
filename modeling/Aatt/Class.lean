import Aatt.Config
import Aatt.Record

/-! Classes, methods and fields as the class linker, the instrumentation and the tracer see them,
and `MiniTrace::PostClassPrepare`, which decides whether a class is traced and marks it. -/
namespace Aatt

/-- What `entry_point_from_quick_compiled_code_` can be. -/
inductive EntryPoint where
  | quickToInterpreterBridge
  | quickResolutionStub
  | quickGenericJniStub
  | quickInstrumentationEntryPoint
  | quickProxyInvokeHandler
  | compiled (code : Nat)
  deriving DecidableEq, Repr

/-- `oatCode` is the code the oat file holds for the method, if any. -/
structure ArtMethod where
  address : Address
  accessFlags : AccessFlags
  oatCode : Option Nat
  entryPoint : EntryPoint
  deriving DecidableEq, Repr

namespace ArtMethod

def isAbstract (method : ArtMethod) : Bool := hasFlag method.accessFlags kAccAbstract

def isNative (method : ArtMethod) : Bool := hasFlag method.accessFlags kAccNative

def isStatic (method : ArtMethod) : Bool := hasFlag method.accessFlags kAccStatic

def isConstructor (method : ArtMethod) : Bool := hasFlag method.accessFlags kAccConstructor

def isMiniTraceable (method : ArtMethod) : Bool := Aatt.isMiniTraceable method.accessFlags

def setIsMiniTraceable (method : ArtMethod) : ArtMethod :=
  { method with accessFlags := Aatt.setIsMiniTraceable method.accessFlags }

def setEntryPoint (method : ArtMethod) (entryPoint : EntryPoint) : ArtMethod :=
  { method with entryPoint := entryPoint }

theorem setEntryPoint_isStatic (method : ArtMethod) (entryPoint : EntryPoint) :
    (method.setEntryPoint entryPoint).isStatic = method.isStatic := rfl

end ArtMethod

structure ArtField where
  accessFlags : AccessFlags
  deriving DecidableEq, Repr

def ArtField.isMiniTraceable (field : ArtField) : Bool := Aatt.isMiniTraceable field.accessFlags

def ArtField.setIsMiniTraceable (field : ArtField) : ArtField :=
  ⟨Aatt.setIsMiniTraceable field.accessFlags⟩

/-- `mirror::Class::Status`. -/
inductive Status where
  | retired | error | notReady | idx | loaded | resolving | resolved | verifying
  | retryVerificationAtRuntime | verifyingAtRuntime | verified | initializing | initialized
  deriving DecidableEq, Repr

def Status.value : Status → Int
  | .retired => -2
  | .error => -1
  | .notReady => 0
  | .idx => 1
  | .loaded => 2
  | .resolving => 3
  | .resolved => 4
  | .verifying => 5
  | .retryVerificationAtRuntime => 6
  | .verifyingAtRuntime => 7
  | .verified => 8
  | .initializing => 9
  | .initialized => 10

/-- A class of the class table. `hasComponentType` and `isPrimitive` stand for the fields that
`IsArrayClass` and `IsPrimitive` test. Static methods are direct methods. -/
structure Class where
  descriptor : List Char
  classLoader : Nat
  dexLocation : List Char
  hasComponentType : Bool
  isPrimitive : Bool
  accessFlags : AccessFlags
  status : Status
  directMethods : List ArtMethod
  virtualMethods : List ArtMethod
  instanceFields : List ArtField
  staticFields : List ArtField
  virtualInstance : ∀ method ∈ virtualMethods, method.isStatic = false
  deriving DecidableEq, Repr

namespace Class

def isErroneous (klass : Class) : Bool := klass.status == .error

def isResolved (klass : Class) : Bool := decide (Status.resolved.value ≤ klass.status.value)

def isInitialized (klass : Class) : Bool := klass.status == .initialized

def isArrayClass (klass : Class) : Bool := klass.hasComponentType

def isInterface (klass : Class) : Bool := hasFlag klass.accessFlags kAccInterface

def isProxyClass (klass : Class) : Bool := hasFlag klass.accessFlags kAccClassIsProxy

def isMiniTraceable (klass : Class) : Bool := Aatt.isMiniTraceable klass.accessFlags

def methods (klass : Class) : List ArtMethod := klass.directMethods ++ klass.virtualMethods

def fields (klass : Class) : List ArtField := klass.instanceFields ++ klass.staticFields

def mapMethods (f : ArtMethod → ArtMethod) (keeps : ∀ method, (f method).isStatic = method.isStatic)
    (klass : Class) : Class :=
  { klass with
    directMethods := klass.directMethods.map f
    virtualMethods := klass.virtualMethods.map f
    virtualInstance := by
      rintro method member
      obtain ⟨original,inside,rfl⟩ := List.mem_map.mp member
      exact (keeps original).trans (klass.virtualInstance original inside) }

end Class

theorem mapMethods_methods (f : ArtMethod → ArtMethod) (keeps : ∀ method, (f method).isStatic = method.isStatic)
    (klass : Class) : (klass.mapMethods f keeps).methods = klass.methods.map f := by
  simp only [Class.methods,Class.mapMethods,List.map_append]

def systemFramework : List Char :=
  ['/','s','y','s','t','e','m','/','f','r','a','m','e','w','o','r','k','/']

/-- The filter of `PostClassPrepare` on the kind of the class. -/
def Class.excluded (klass : Class) : Bool :=
  klass.isArrayClass || klass.isInterface || klass.isPrimitive || klass.isProxyClass

/-- `do_trace` of `PostClassPrepare`. -/
def doTrace (whitelist : Option (List (List Char))) (klass : Class) : Bool :=
  match whitelist with
  | none => false
  | some [] => !strncmpEq klass.dexLocation systemFramework systemFramework.length
  | some entries => entries.any fun entry => strncmpEq klass.descriptor entry (cString entry).length

theorem ArtMethod.setIsMiniTraceable_isStatic (method : ArtMethod) :
    method.setIsMiniTraceable.isStatic = method.isStatic := hasFlag_set method.accessFlags kAccStatic (by decide)

/-- The marking part: the class, all its methods and all its fields. -/
def Class.mark (klass : Class) : Class :=
  { klass.mapMethods ArtMethod.setIsMiniTraceable ArtMethod.setIsMiniTraceable_isStatic with
    accessFlags := setIsMiniTraceable klass.accessFlags
    instanceFields := klass.instanceFields.map ArtField.setIsMiniTraceable
    staticFields := klass.staticFields.map ArtField.setIsMiniTraceable }

def postClassPrepare (whitelist : Option (List (List Char))) (klass : Class) : Class :=
  if klass.excluded then klass else
  if !doTrace whitelist klass then klass else klass.mark

end Aatt
