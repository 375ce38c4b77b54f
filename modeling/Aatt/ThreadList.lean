import Mathlib.Logic.Function.Basic
import Aatt.Lib.Transition

/-! `ThreadList` and the transitions of a `Thread` into and out of the state Runnable. Every access to the state and
flags of a thread, to `mutator_lock_` or to one of the two locks of the list is one step, and the threads
interleave freely. A compare-and-swap loop on `mutator_lock_` is the step that succeeds; a step that has to wait is not
enabled. `debug_suspend_count`, checkpoints and the timeout of `SuspendAll` are left out. -/
namespace Aatt.ThreadList

open Aatt.Lib

variable {n : Nat}

/-- What a thread does while it is Runnable: any code, or the loop of `SuspendThreadByThreadId`. -/
inductive Mode (n : Nat) where
  | managed
  | polling (thread : Fin n)
  deriving DecidableEq, Repr

/-- The critical sections that take `thread_list_lock_` and then `thread_suspend_count_lock_`. -/
inductive Task (n : Nat) where
  | register
  | unregister
  | suspendAll
  | resumeAll
  | suspendThread (thread : Fin n)
  | resume (thread : Fin n)
  deriving DecidableEq, Repr

/-- Where a thread goes on when it has released both locks. A thread that leaves Runnable stays outside, or
comes back for `next`. -/
inductive After (n : Nat) where
  | native
  | detached
  | unregister
  | exclusiveLock
  | leave (next : Option (Mode n))
  | broadcast
  | running
  deriving DecidableEq, Repr

inductive Pc (n : Nat) where
  | detached
  | native
  | running (mode : Mode n)
  | enterLoad (mode : Mode n)
  | enterLockCount (mode : Mode n)
  | enterTest (mode : Mode n)
  | enterWait (mode : Mode n)
  | enterShared (mode : Mode n)
  | enterReload (mode : Mode n)
  | enterExchange (mode : Mode n)
  | enterUndo (mode : Mode n)
  | leaveLoad (next : Option (Mode n))
  | leaveExchange (request : Bool) (next : Option (Mode n))
  | leaveUnlock (next : Option (Mode n))
  | lockList (task : Task n)
  | lookup (task : Task n)
  | lockCount (task : Task n)
  | body (task : Task n)
  | raise (rest : List (Fin n))
  | lower (rest : List (Fin n))
  | check (thread : Fin n)
  | late (thread : Fin n)
  | unlockCount (after : After n)
  | unlockList (after : After n)
  | lockBroadcast
  | broadcast
  | notified
  | exclusiveLock
  | allSuspended
  deriving DecidableEq, Repr

def After.pc : After n → Pc n
  | .native => .native
  | .detached => .detached
  | .unregister => .lockList .unregister
  | .exclusiveLock => .exclusiveLock
  | .leave next => .leaveLoad next
  | .broadcast => .lockBroadcast
  | .running => .running .managed

/-- Where `TransitionFromRunnableToSuspended` returns to. -/
def left : Option (Mode n) → Pc n
  | none => .native
  | some mode => .enterLoad mode

/-- `mutatorLock` is `state_` of `mutator_lock_`: the number of shares, or -1 if it is held exclusively. `asleep` are
the waiters of `resume_cond_`, and `suspended` is the local `suspended_thread` of `SuspendThreadByThreadId`, which the
caller keeps until `Resume`. `aborted` records that a CHECK has failed. -/
structure Machine (n : Nat) where
  mutatorLock : Int
  threadListLock : Option (Fin n)
  threadSuspendCountLock : Option (Fin n)
  list : List (Fin n)
  suspendAllCount : Int
  suspendCount : Fin n → Int
  suspendRequest : Fin n → Bool
  runnable : Fin n → Bool
  asleep : Fin n → Bool
  suspended : Fin n → Option (Fin n)
  pc : Fin n → Pc n
  aborted : Bool

namespace Machine

def start (n : Nat) : Machine n where
  mutatorLock := 0
  threadListLock := none
  threadSuspendCountLock := none
  list := []
  suspendAllCount := 0
  suspendCount := fun _ => 0
  suspendRequest := fun _ => false
  runnable := fun _ => false
  asleep := fun _ => false
  suspended := fun _ => none
  pc := fun _ => .detached
  aborted := false

def isSuspended (m : Machine n) (t : Fin n) : Bool := !m.runnable t && m.suspendRequest t

def modifySuspendCount (m : Machine n) (t : Fin n) (delta : Int) : Machine n :=
  if delta < 0 ∧ m.suspendCount t ≤ 0 then { m with aborted := true }
  else { m with
    suspendCount := Function.update m.suspendCount t (m.suspendCount t + delta)
    suspendRequest := Function.update m.suspendRequest t (decide (m.suspendCount t + delta ≠ 0)) }

/-- The loops of `Register`, in increments of one. -/
def raiseBy (t : Fin n) : Nat → Machine n → Machine n
  | 0, m => m
  | k + 1, m => raiseBy t k (m.modifySuspendCount t 1)

end Machine

/-- What a step does to the state that threads share, and to the local `suspended_thread`. -/
inductive Op (n : Nat) where
  | skip
  | lockList
  | unlockList
  | lockCount
  | unlockCount
  | sharedLock
  | sharedUnlock
  | exclusiveLock
  | exclusiveUnlock
  | setRunnable (value : Bool)
  | wait
  | wake
  | broadcast
  | countSuspendAll (delta : Int)
  | modify (thread : Fin n) (delta : Int)
  | suspendOne (thread : Fin n)
  | resumeOne (thread : Fin n)
  | register
  | unregister
  | abort
  deriving DecidableEq, Repr

namespace Machine

def perform (m : Machine n) (t : Fin n) : Op n → Option (Machine n)
  | .skip => some m
  | .lockList => if m.threadListLock = none then some { m with threadListLock := some t } else none
  | .unlockList => some { m with threadListLock := none }
  | .lockCount => if m.threadSuspendCountLock = none then some { m with threadSuspendCountLock := some t } else none
  | .unlockCount => some { m with threadSuspendCountLock := none }
  | .sharedLock => if 0 ≤ m.mutatorLock then some { m with mutatorLock := m.mutatorLock + 1 } else none
  | .sharedUnlock =>
    if 0 < m.mutatorLock then some { m with mutatorLock := m.mutatorLock - 1 } else some { m with aborted := true }
  | .exclusiveLock => if m.mutatorLock = 0 then some { m with mutatorLock := -1 } else none
  | .exclusiveUnlock => if m.mutatorLock = -1 then some { m with mutatorLock := 0 } else some { m with aborted := true }
  | .setRunnable value => some { m with runnable := Function.update m.runnable t value }
  | .wait => some { m with threadSuspendCountLock := none, asleep := Function.update m.asleep t true }
  | .wake => some { m with asleep := Function.update m.asleep t false }
  | .broadcast => some { m with asleep := fun _ => false }
  | .countSuspendAll delta => some { m with suspendAllCount := m.suspendAllCount + delta }
  | .modify thread delta => some (m.modifySuspendCount thread delta)
  | .suspendOne thread =>
    some { m.modifySuspendCount thread 1 with suspended := Function.update m.suspended t (some thread) }
  | .resumeOne thread =>
    some { m.modifySuspendCount thread (-1) with suspended := Function.update m.suspended t none }
  | .register => some { m.raiseBy t m.suspendAllCount.toNat with list := m.list ++ [t] }
  | .unregister => some { m with list := m.list.filter (· ≠ t) }
  | .abort => some { m with aborted := true }

end Machine

/-- The next step of a thread: what it does, and where it stands then. -/
def next (m : Machine n) (t : Fin n) : Pc n → Option (Op n × Pc n)
  | .detached | .native | .running .managed | .allSuspended => none
  | .running (.polling x) => some (.skip,.lockList (.suspendThread x))
  | .enterLoad mode => some (.skip,if m.suspendRequest t then .enterLockCount mode else .enterShared mode)
  | .enterLockCount mode => some (.lockCount,.enterTest mode)
  | .enterTest mode =>
    -- the flag changes under the lock only, so the test and the release are one step
    if m.suspendRequest t then some (.wait,.enterWait mode) else some (.unlockCount,.enterShared mode)
  | .enterWait mode => if m.asleep t then none else some (.skip,.enterLockCount mode)
  | .enterShared mode => some (.sharedLock,.enterReload mode)
  | .enterReload mode => some (.skip,if m.suspendRequest t then .enterUndo mode else .enterExchange mode)
  | .enterExchange mode =>
    if m.suspendRequest t then some (.skip,.enterUndo mode) else some (.setRunnable true,.running mode)
  | .enterUndo mode => some (.sharedUnlock,.enterLoad mode)
  | .leaveLoad next => some (.skip,.leaveExchange (m.suspendRequest t) next)
  | .leaveExchange request next =>
    if m.suspendRequest t = request then some (.setRunnable false,.leaveUnlock next) else some (.skip,.leaveLoad next)
  | .leaveUnlock next => some (.sharedUnlock,left next)
  | .lockList task => some (.lockList,.lookup task)
  | .lookup .unregister =>
    some (.skip,if t ∈ m.list then .lockCount .unregister else .unlockList .detached)
  | .lookup (.suspendThread x) =>
    if x ∈ m.list then some (.skip,.lockCount (.suspendThread x))
    else if m.suspended t = none then some (.skip,.unlockList (.leave (some .managed)))
    else some (.abort,.unlockList (.leave (some .managed)))
  | .lookup task => some (.skip,.lockCount task)
  | .lockCount task => some (.lockCount,.body task)
  | .body .register =>
    if t ∈ m.list then some (.abort,.unlockCount .native) else some (.register,.unlockCount .native)
  | .body .unregister =>
    if m.isSuspended t then some (.skip,.unlockCount .unregister) else some (.unregister,.unlockCount .detached)
  | .body .suspendAll => some (.countSuspendAll 1,.raise m.list)
  | .body .resumeAll => some (.countSuspendAll (-1),.lower m.list)
  | .body (.suspendThread x) =>
    if m.suspended t = none then
      if 0 < m.suspendCount t then some (.skip,.unlockCount (.leave (some (.polling x))))
      else some (.suspendOne x,.check x)
    else if m.suspended t = some x ∧ 0 < m.suspendCount x then some (.skip,.check x)
    else some (.abort,.check x)
  | .body (.resume x) =>
    if x ∈ m.list then some (.resumeOne x,.unlockCount .broadcast) else some (.skip,.unlockCount .running)
  | .raise [] => some (.skip,.unlockCount .exclusiveLock)
  | .raise (x :: rest) => if x = t then some (.skip,.raise rest) else some (.modify x 1,.raise rest)
  | .lower [] => some (.broadcast,.unlockCount .native)
  | .lower (x :: rest) => if x = t then some (.skip,.lower rest) else some (.modify x (-1),.lower rest)
  | .check x =>
    if x = t then some (.abort,.late x)
    else some (.skip,if m.isSuspended x then .unlockCount (.leave (some .managed)) else .late x)
  | .late x => some (.skip,.unlockCount (.leave (some (.polling x))))
  | .unlockCount after => some (.unlockCount,.unlockList after)
  | .unlockList after => some (.unlockList,after.pc)
  | .lockBroadcast => some (.lockCount,.broadcast)
  | .broadcast => some (.broadcast,.notified)
  | .notified => some (.unlockCount,.running .managed)
  | .exclusiveLock => some (.exclusiveLock,.allSuspended)

/-- A thread begins a call, takes its next step, has a spurious failure or wake-up, or gives up waiting for
another thread. -/
inductive Action (n : Nat) where
  | attach (t : Fin n)
  | detach (t : Fin n)
  | enter (t : Fin n)
  | leave (t : Fin n)
  | suspendCheck (t : Fin n)
  | suspendAll (t : Fin n)
  | resumeAll (t : Fin n)
  | suspendThread (t x : Fin n)
  | resume (t : Fin n)
  | step (t : Fin n)
  | spurious (t : Fin n)
  | timeout (t : Fin n)
  deriving DecidableEq, Repr

def Action.thread : Action n → Fin n
  | .attach t | .detach t | .enter t | .leave t | .suspendCheck t | .suspendAll t | .resumeAll t | .suspendThread t _
  | .resume t | .step t | .spurious t | .timeout t => t

def choose (m : Machine n) : Action n → Pc n → Option (Op n × Pc n)
  | .attach _,.detached => some (.skip,.lockList .register)
  | .detach t,.native => if m.suspended t = none then some (.skip,.lockList .unregister) else none
  | .enter _,.native => some (.skip,.enterLoad .managed)
  | .suspendAll _,.native => some (.skip,.lockList .suspendAll)
  | .leave _,.running .managed => some (.skip,.leaveLoad none)
  | .suspendCheck _,.running .managed => some (.skip,.leaveLoad (some .managed))
  | .suspendThread t x,.running .managed =>
    if x ≠ t ∧ m.suspended t = none then some (.skip,.leaveLoad (some (.polling x))) else none
  | .resume t,.running .managed => (m.suspended t).map fun x => (.skip,.lockList (.resume x))
  | .resumeAll _,.allSuspended => some (.exclusiveUnlock,.lockList .resumeAll)
  | .step t,pc => next m t pc
  | .spurious _,.enterExchange mode => some (.skip,.enterUndo mode)
  | .spurious _,.leaveExchange _ next => some (.skip,.leaveLoad next)
  | .spurious _,.enterWait mode => some (.wake,.enterLockCount mode)
  | .timeout _,.late x => some (.resumeOne x,.unlockCount (.leave (some .managed)))
  | _,_ => none

def step (action : Action n) (m : Machine n) : Option (Machine n) :=
  if m.aborted then none else
  (choose m action (m.pc action.thread)).bind fun (op,pc) =>
    (m.perform action.thread op).map fun m => { m with pc := Function.update m.pc action.thread pc }

/-- The thread that `SuspendThreadByThreadId` is called for. -/
def Mode.polled : Mode n → Option (Fin n)
  | .managed => none
  | .polling x => some x

namespace Task

def runs : Task n → Bool
  | .suspendThread _ | .resume _ => true
  | _ => false

def listed : Task n → Bool
  | .register => false
  | _ => true

def stopping : Task n → Bool
  | .resumeAll => true
  | _ => false

def polled : Task n → Option (Fin n)
  | .suspendThread x => some x
  | _ => none

def raised : Task n → Option (Fin n)
  | .resume x => some x
  | _ => none

end Task

namespace After

def runs : After n → Bool
  | .leave _ | .broadcast | .running => true
  | _ => false

def listed : After n → Bool
  | .detached => false
  | _ => true

def stopping : After n → Bool
  | .exclusiveLock => true
  | _ => false

def polled : After n → Option (Fin n)
  | .leave next => next.bind Mode.polled
  | _ => none

def notifies : After n → Bool
  | .broadcast => true
  | _ => false

end After

namespace Pc

def runs : Pc n → Bool
  | .running _ | .leaveLoad _ | .leaveExchange _ _ | .check _ | .late
    _ | .lockBroadcast | .broadcast | .notified => true
  | .lockList task | .lookup task | .lockCount task | .body task => task.runs
  | .unlockCount after | .unlockList after => after.runs
  | _ => false

/-- Holding a share of `mutator_lock_`. -/
def shares : Pc n → Bool
  | .enterReload _ | .enterExchange _ | .enterUndo _ | .leaveUnlock _ => true
  | pc => pc.runs

/-- Between the return of `SuspendAll` and `ResumeAll`. -/
def exclusive : Pc n → Bool
  | .allSuspended => true
  | _ => false

/-- Holding `thread_list_lock_`. -/
def holdsList : Pc n → Bool
  | .lookup _ | .lockCount _ | .body _ | .raise _ | .lower _ | .check _ | .late _ | .unlockCount _
  | .unlockList _ => true
  | _ => false

/-- Holding `thread_suspend_count_lock_`. -/
def holdsCount : Pc n → Bool
  | .enterTest _ | .body _ | .raise _ | .lower _ | .check _ | .late _ | .unlockCount _ | .broadcast | .notified => true
  | _ => false

/-- Registered, up to the removal by `Unregister`. -/
def listed : Pc n → Bool
  | .detached => false
  | .lockList task | .lookup task | .lockCount task | .body task => task.listed
  | .unlockCount after | .unlockList after => after.listed
  | _ => true

/-- `SuspendAll` has asked every other thread of the list to suspend, and `ResumeAll` has resumed none yet. -/
def stopping : Pc n → Bool
  | .lockList task | .lookup task | .lockCount task | .body task => task.stopping
  | .unlockCount after | .unlockList after => after.stopping
  | .exclusiveLock | .allSuspended => true
  | _ => false

/-- Counted in `suspend_all_count_`. -/
def counted : Pc n → Bool
  | .raise _ => true
  | pc => pc.stopping

/-- `SuspendAll` of thread `t` has raised the count of `x`, and `ResumeAll` has not lowered it yet. -/
def stops (list : List (Fin n)) (t x : Fin n) : Pc n → Bool
  | .raise rest => decide (x ∈ list ∧ x ∉ rest ∧ x ≠ t)
  | .lower rest => decide (x ∈ rest ∧ x ≠ t)
  | pc => pc.stopping && decide (x ∈ list ∧ x ≠ t)

/-- A broadcast on `resume_cond_` is due. -/
def notifies : Pc n → Bool
  | .lower _ | .lockBroadcast | .broadcast => true
  | .unlockCount after | .unlockList after => after.notifies
  | _ => false

/-- Waiting on `resume_cond_`. -/
def waits : Pc n → Bool
  | .enterWait _ => true
  | _ => false

/-- In the loop of `SuspendThreadByThreadId`, and for which thread. -/
def polled : Pc n → Option (Fin n)
  | .running mode | .enterLoad mode | .enterLockCount mode | .enterTest mode | .enterWait mode | .enterShared mode
  | .enterReload mode | .enterExchange mode | .enterUndo mode => mode.polled
  | .leaveLoad next | .leaveExchange _ next | .leaveUnlock next => next.bind Mode.polled
  | .lockList task | .lookup task | .lockCount task | .body task => task.polled
  | .check x | .late x => some x
  | .unlockCount after | .unlockList after => after.polled
  | _ => none

/-- The thread that `SuspendThreadByThreadId` has found in the list. -/
def found : Pc n → Option (Fin n)
  | .lockCount task | .body task => task.polled
  | .check x | .late x => some x
  | _ => none

def raised : Pc n → Option (Fin n)
  | .check x | .late x => some x
  | .lockList task | .lookup task | .lockCount task | .body task => task.raised
  | _ => none

/-- The thread that has not suspended itself when this thread looked. -/
def overdue : Pc n → Option (Fin n)
  | .late x => some x
  | _ => none

/-- The threads that a loop of `SuspendAll` or `ResumeAll` has not reached yet. -/
def remaining : Pc n → Option (List (Fin n))
  | .raise rest | .lower rest => some rest
  | _ => none

end Pc

end Aatt.ThreadList
