import Mathlib.Logic.Function.Basic
import Mathlib.Data.Fintype.Basic
import Aatt.Lib.Transition
import Aatt.Class

/-! Initialization of classes by several threads. A critical section of the lock of a class is one step, and the code
between two of them is another. A class initializer is any code: it may ask for the initialization of other classes and
ends with or without an exception. `VerifyClass` and `ValidateSuperClassDescriptors` give the results that an action
says; the verification of superclasses, compile-time initialization and transactions are left out. -/
namespace Aatt.ClassInit

open Aatt.Lib

variable {k n : Nat}

/-- Where a call of `InitializeClass` stands. -/
inductive Place where
  | check
  | section
  | waiting
  | superclass
  | awaitSuper
  | answered (success : Bool)
  | failed
  | clinit
  | finish (success : Bool)
  deriving DecidableEq, Repr

structure Frame (k : Nat) where
  klass : Fin k
  place : Place
  deriving DecidableEq, Repr

/-- The calls of a thread are a stack. `asleep` is the class whose lock a thread waits on, `clinits` counts the runs of
each class initializer, and `told` how often `InitializeClass` has returned true to a thread. -/
structure Machine (k n : Nat) where
  status : Fin k → Status
  clinitThread : Fin k → Option (Fin n)
  stack : Fin n → List (Frame k)
  asleep : Fin n → Option (Fin k)
  clinits : Fin k → Nat
  told : Fin n → Fin k → Nat
  aborted : Bool

namespace Machine

def start (n : Nat) (verified : Fin k → Bool) : Machine k n where
  status := fun x => if verified x then .verified else .resolved
  clinitThread := fun _ => none
  stack := fun _ => []
  asleep := fun _ => none
  clinits := fun _ => 0
  told := fun _ _ => 0
  aborted := false

/-- `Class::SetStatus`, under the lock of the class, with `NotifyAll`. -/
def setStatus (m : Machine k n) (x : Fin k) (status : Status) : Machine k n :=
  if status.value ≤ (m.status x).value ∧ status ≠ .error ∨ status = .error ∧ m.status x = .error then
    { m with aborted := true }
  else { m with
    status := Function.update m.status x status
    asleep := fun t => if m.asleep t = some x then none else m.asleep t }

/-- A call returns to the call that waits for its superclass, or to other code. -/
def deliver (success : Bool) : List (Frame k) → List (Frame k)
  | ⟨x,.awaitSuper⟩ :: rest => ⟨x,.answered success⟩ :: rest
  | stack => stack

def returns (m : Machine k n) (t : Fin n) (x : Fin k) (rest : List (Frame k)) (success : Bool) : Machine k n :=
  { m with
    stack := Function.update m.stack t (deliver success rest)
    told := if success then Function.update m.told t (Function.update (m.told t) x (m.told t x + 1)) else m.told }

def goto (m : Machine k n) (t : Fin n) (x : Fin k) (rest : List (Frame k)) (place : Place) : Machine k n :=
  { m with stack := Function.update m.stack t (⟨x,place⟩ :: rest) }

def runClinit (m : Machine k n) (t : Fin n) (x : Fin k) (rest : List (Frame k)) : Machine k n :=
  { m with
    stack := Function.update m.stack t (⟨x,.clinit⟩ :: rest)
    clinits := Function.update m.clinits x (m.clinits x + 1) }

def claim (m : Machine k n) (t : Fin n) (x : Fin k) (rest : List (Frame k)) (valid : Bool) : Machine k n :=
  if m.status x = .initializing then
    if m.clinitThread x = some t then m.returns t x rest true
    else { m with asleep := Function.update m.asleep t (some x) }.goto t x rest .waiting
  else if !valid then (m.setStatus x .error).returns t x rest false
  else if m.status x = .verified then
    ({ m with clinitThread := Function.update m.clinitThread x (some t) }.setStatus x .initializing).goto
      t x rest .superclass
  else { m with aborted := true }

def enter (m : Machine k n) (t : Fin n) (x : Fin k) (rest : List (Frame k)) (verifies valid : Bool) : Machine k n :=
  if m.status x = .initialized then m.returns t x rest true
  else if m.status x = .error then m.returns t x rest false
  else if m.status x = .resolved then
    if verifies then (m.setStatus x .verified).claim t x rest valid else (m.setStatus x .error).returns t x rest false
  else m.claim t x rest valid

end Machine

inductive Action (k n : Nat) where
  | call (t : Fin n) (x : Fin k)
  | step (t : Fin n) (verifies valid success : Bool)
  | wake (t : Fin n)
  deriving DecidableEq, Repr

/-- The next step of a thread whose last call stands at a place. -/
def next (super : Fin k → Option (Fin k)) (m : Machine k n) (t : Fin n) (verifies valid success : Bool) (x : Fin k)
    (rest : List (Frame k)) : Place → Option (Machine k n)
  | .check => some (if m.status x = .initialized then m.returns t x rest true else m.goto t x rest .section)
  | .section => some (m.enter t x rest verifies valid)
  | .waiting =>
    if m.asleep t = some x then none
    else match m.status x with
      | .initializing => some { m with asleep := Function.update m.asleep t (some x) }
      | .error => some (m.returns t x rest false)
      | .initialized => some (m.returns t x rest true)
      | _ => some { m with aborted := true }
  | .superclass =>
    match super x with
    | none => some (m.runClinit t x rest)
    | some y =>
      if m.status y = .initialized then some (m.runClinit t x rest)
      else some { m with stack := Function.update m.stack t (⟨y,.check⟩ :: ⟨x,.awaitSuper⟩ :: rest) }
  | .awaitSuper => none
  | .answered true => some (m.runClinit t x rest)
  | .answered false =>
    match super x with
    | some y => some (if m.status y = .error then m.goto t x rest .failed else { m with aborted := true })
    | none => some { m with aborted := true }
  | .failed => some ((m.setStatus x .error).returns t x rest false)
  | .clinit => some (m.goto t x rest (.finish success))
  | .finish true => some ((m.setStatus x .initialized).returns t x rest true)
  | .finish false => some ((m.setStatus x .error).returns t x rest false)

def step (super : Fin k → Option (Fin k)) (action : Action k n) (m : Machine k n) : Option (Machine k n) :=
  if m.aborted then none else
  match action with
  | .call t x =>
    match m.stack t with
    | [] => some (m.goto t x [] .check)
    | ⟨y,.clinit⟩ :: rest => some (m.goto t x (⟨y,.clinit⟩ :: rest) .check)
    | _ => none
  | .step t verifies valid success =>
    match m.stack t with
    | [] => none
    | ⟨x,place⟩ :: rest => next super m t verifies valid success x rest place
  | .wake t => if m.asleep t = none then none else some { m with asleep := Function.update m.asleep t none }

end Aatt.ClassInit
