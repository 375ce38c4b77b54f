import Aatt.Stacks

/-! The eight listener lists of `Instrumentation`. Four are plain lists, four are shared lists that are
copied before each change and null when empty, and each comes with a `have_..._listeners_` flag. All
eight represent a list for each event. -/
namespace Aatt

/-- An `InstrumentationListener*`: an object of the tracer or one of another client. -/
inductive ListenerPointer where
  | miniTrace (address : Nat)
  | other (address : Nat)
  deriving DecidableEq, Repr

namespace ListenerPointer

def isMiniTrace : ListenerPointer → Bool
  | .miniTrace _ => true
  | .other _ => false

def listener : ListenerPointer → Listener
  | .miniTrace _ => .miniTrace
  | .other address => .other address

end ListenerPointer

/-- A `std::list` and its flag. -/
structure PlainList where
  items : List ListenerPointer
  present : Bool
  deriving DecidableEq, Repr

namespace PlainList

def add (wanted : Bool) (listener : ListenerPointer) (l : PlainList) : PlainList :=
  if wanted then ⟨l.items ++ [listener],true⟩ else l

def remove (wanted : Bool) (listener : ListenerPointer) (l : PlainList) : PlainList :=
  if wanted && l.present then
    let items := l.items.filter (· ≠ listener)
    ⟨items,!items.isEmpty⟩
  else l

end PlainList

/-- A `std::shared_ptr<std::list>` and its flag. -/
structure SharedList where
  items : Option (List ListenerPointer)
  present : Bool
  deriving DecidableEq, Repr

namespace SharedList

def add (wanted : Bool) (listener : ListenerPointer) (l : SharedList) : Option SharedList :=
  if !wanted then some l else
  match (if l.present then l.items else some []) with
  | none => none
  | some modified => some ⟨some (modified ++ [listener]),true⟩

def remove (wanted : Bool) (listener : ListenerPointer) (l : SharedList) : Option SharedList :=
  if !(wanted && l.present) then some l else
  match l.items with
  | none => none
  | some items =>
    let modified := items.filter (· ≠ listener)
    if modified.isEmpty then some ⟨none,false⟩ else some ⟨some modified,true⟩

end SharedList

/-- The values of `Instrumentation::InstrumentationEvent`. -/
def InstrumentationEvent.value : InstrumentationEvent → BitVec 32
  | .methodEntered => 0x1
  | .methodExited => 0x2
  | .methodUnwind => 0x4
  | .dexPcMoved => 0x8
  | .fieldRead => 0x10
  | .fieldWritten => 0x20
  | .exceptionCaught => 0x40
  | .backwardBranch => 0x80

def hasEvent (expected : InstrumentationEvent) (events : BitVec 32) : Bool := events &&& expected.value != 0

structure ListenerLists where
  methodEntry : PlainList
  methodExit : PlainList
  methodUnwind : PlainList
  backwardBranch : PlainList
  dexPc : SharedList
  fieldRead : SharedList
  fieldWrite : SharedList
  exceptionCaught : SharedList
  deriving DecidableEq, Repr

namespace ListenerLists

/-- As the constructor of `Instrumentation` leaves them. -/
def empty : ListenerLists :=
  ⟨⟨[],false⟩,⟨[],false⟩,⟨[],false⟩,⟨[],false⟩,⟨none,false⟩,⟨none,false⟩,⟨none,false⟩,⟨none,false⟩⟩

def addListener (listener : ListenerPointer) (events : BitVec 32) (l : ListenerLists) : Option ListenerLists := do
  let dexPc ← l.dexPc.add (hasEvent .dexPcMoved events) listener
  let fieldRead ← l.fieldRead.add (hasEvent .fieldRead events) listener
  let fieldWrite ← l.fieldWrite.add (hasEvent .fieldWritten events) listener
  let exceptionCaught ← l.exceptionCaught.add (hasEvent .exceptionCaught events) listener
  return {
    methodEntry := l.methodEntry.add (hasEvent .methodEntered events) listener
    methodExit := l.methodExit.add (hasEvent .methodExited events) listener
    methodUnwind := l.methodUnwind.add (hasEvent .methodUnwind events) listener
    backwardBranch := l.backwardBranch.add (hasEvent .backwardBranch events) listener
    dexPc := dexPc, fieldRead := fieldRead, fieldWrite := fieldWrite, exceptionCaught := exceptionCaught }

def removeListener (listener : ListenerPointer) (events : BitVec 32) (l : ListenerLists) : Option ListenerLists := do
  let dexPc ← l.dexPc.remove (hasEvent .dexPcMoved events) listener
  let fieldRead ← l.fieldRead.remove (hasEvent .fieldRead events) listener
  let fieldWrite ← l.fieldWrite.remove (hasEvent .fieldWritten events) listener
  let exceptionCaught ← l.exceptionCaught.remove (hasEvent .exceptionCaught events) listener
  return {
    methodEntry := l.methodEntry.remove (hasEvent .methodEntered events) listener
    methodExit := l.methodExit.remove (hasEvent .methodExited events) listener
    methodUnwind := l.methodUnwind.remove (hasEvent .methodUnwind events) listener
    backwardBranch := l.backwardBranch.remove (hasEvent .backwardBranch events) listener
    dexPc := dexPc, fieldRead := fieldRead, fieldWrite := fieldWrite, exceptionCaught := exceptionCaught }

/-- The listeners of an event; a null pointer has none. -/
def listeners (l : ListenerLists) : InstrumentationEvent → List ListenerPointer
  | .methodEntered => l.methodEntry.items
  | .methodExited => l.methodExit.items
  | .methodUnwind => l.methodUnwind.items
  | .backwardBranch => l.backwardBranch.items
  | .dexPcMoved => l.dexPc.items.getD []
  | .fieldRead => l.fieldRead.items.getD []
  | .fieldWritten => l.fieldWrite.items.getD []
  | .exceptionCaught => l.exceptionCaught.items.getD []

/-- The `have_..._listeners_` flag of an event. -/
def present (l : ListenerLists) : InstrumentationEvent → Bool
  | .methodEntered => l.methodEntry.present
  | .methodExited => l.methodExit.present
  | .methodUnwind => l.methodUnwind.present
  | .backwardBranch => l.backwardBranch.present
  | .dexPcMoved => l.dexPc.present
  | .fieldRead => l.fieldRead.present
  | .fieldWritten => l.fieldWrite.present
  | .exceptionCaught => l.exceptionCaught.present

end ListenerLists

abbrev Registry := InstrumentationEvent → List ListenerPointer

namespace Registry

def add (listener : ListenerPointer) (events : BitVec 32) (r : Registry) : Registry :=
  fun event => if hasEvent event events then r event ++ [listener] else r event

def remove (listener : ListenerPointer) (events : BitVec 32) (r : Registry) : Registry :=
  fun event => if hasEvent event events then (r event).filter (· ≠ listener) else r event

end Registry

namespace PlainList

def of (items : List ListenerPointer) : PlainList := ⟨items,!items.isEmpty⟩

theorem of_add (wanted : Bool) (listener : ListenerPointer) (items : List ListenerPointer) :
    (of items).add wanted listener = of (if wanted then items ++ [listener] else items) := by
  cases wanted <;> simp [of,add]

theorem of_remove (wanted : Bool) (listener : ListenerPointer) (items : List ListenerPointer) :
    (of items).remove wanted listener = of (if wanted then items.filter (· ≠ listener) else items) := by
  cases wanted with
  | false => rfl
  | true =>
    cases items with
    | nil => rfl
    | cons first rest => rfl

end PlainList

namespace SharedList

def of (items : List ListenerPointer) : SharedList := ⟨if items.isEmpty then none else some items,!items.isEmpty⟩

theorem of_items (items : List ListenerPointer) : (of items).items.getD [] = items := by
  cases items <;> rfl

theorem of_add (wanted : Bool) (listener : ListenerPointer) (items : List ListenerPointer) :
    (of items).add wanted listener = some (of (if wanted then items ++ [listener] else items)) := by
  cases wanted with
  | false => rfl
  | true => cases items <;> simp [of,add]

theorem of_remove (wanted : Bool) (listener : ListenerPointer) (items : List ListenerPointer) :
    (of items).remove wanted listener = some (of (if wanted then items.filter (· ≠ listener) else items)) := by
  cases wanted with
  | false => rfl
  | true =>
    cases items with
    | nil => rfl
    | cons first rest =>
      have taken : (of (first :: rest)).remove true listener =
        if ((first :: rest).filter (· ≠ listener)).isEmpty then some ⟨none,false⟩
        else some ⟨some ((first :: rest).filter (· ≠ listener)),true⟩ := rfl
      rw [taken,if_pos rfl]
      generalize (first :: rest).filter (· ≠ listener) = items
      cases items <;> rfl

end SharedList

namespace ListenerLists

def of (r : Registry) : ListenerLists where
  methodEntry := .of (r .methodEntered)
  methodExit := .of (r .methodExited)
  methodUnwind := .of (r .methodUnwind)
  backwardBranch := .of (r .backwardBranch)
  dexPc := .of (r .dexPcMoved)
  fieldRead := .of (r .fieldRead)
  fieldWrite := .of (r .fieldWritten)
  exceptionCaught := .of (r .exceptionCaught)

theorem of_listeners (r : Registry) (event : InstrumentationEvent) : (of r).listeners event = r event := by
  cases event
  case dexPcMoved | fieldRead | fieldWritten | exceptionCaught => exact SharedList.of_items _
  all_goals rfl

theorem of_present (r : Registry) (event : InstrumentationEvent) : (of r).present event = !(r event).isEmpty := by
  cases event <;> rfl

theorem of_empty : empty = of fun _ => [] := rfl

/-- `AddListener` appends the listener to the lists that the mask selects. -/
theorem of_addListener (listener : ListenerPointer) (events : BitVec 32) (r : Registry) :
    (of r).addListener listener events = some (of (r.add listener events)) := by
  simp only [addListener,of,SharedList.of_add,PlainList.of_add,Option.bind_eq_bind,Option.bind_some]
  rfl

/-- `RemoveListener` removes it from the lists that the mask selects. -/
theorem of_removeListener (listener : ListenerPointer) (events : BitVec 32) (r : Registry) :
    (of r).removeListener listener events = some (of (r.remove listener events)) := by
  simp only [removeListener,of,SharedList.of_remove,PlainList.of_remove,Option.bind_eq_bind,Option.bind_some]
  rfl

end ListenerLists

end Aatt
