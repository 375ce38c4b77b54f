import Mathlib.Logic.Function.Basic
import Mathlib.Data.Fintype.Basic
import Aatt.Lib.Transition

/-! The monitor of one object: its lock word, the `Monitor` that the lock word may refer to, and the calls of any
number of threads. An access to the lock word is one step, and so is a critical section of `monitor_lock_`. Whether a
thread is suspended is taken from the calls of `SuspendThreadByThreadId` under way; a thread that is suspended does not
become Runnable. `MonitorExit` of a thin lock that another thread owns looks the owner up with `FindThreadByThreadId`,
whose CHECK fails unless the owner is suspended. `Deflate` runs while no thread is Runnable. A wait may end at any
time, so timeouts, interrupts and the signals of `Notify` are not distinguished; profiling of locks is left out. -/
namespace Aatt.Monitors

open Aatt.Lib

variable {n : Nat}

def kThinLockMaxCount : Nat := 4095

def kMaxHash : Nat := 268435455

inductive LockWord (n : Nat) where
  | unlocked
  | thin (owner : Fin n) (count : Nat)
  | fat (monitor : Nat)
  | hash (code : Nat)
  deriving DecidableEq, Repr

structure Monitor (n : Nat) where
  owner : Option (Fin n)
  lockCount : Nat
  numWaiters : Nat
  waitSet : List (Fin n)
  hashCode : Nat
  deriving DecidableEq, Repr

/-- The calls that begin with a look at the lock word. `contention` is the local `contention_count`. -/
inductive Call where
  | enter (contention : Nat)
  | exit
  | wait
  | notify (all : Bool)
  | identityHashCode
  deriving DecidableEq, Repr

/-- The callers of `Monitor::Lock`. `saved` is the local `prev_lock_count`. -/
inductive Locker where
  | enter
  | wait (saved : Nat)
  deriving DecidableEq, Repr

inductive Pc (n : Nat) where
  | idle
  | thrown
  | load (call : Call)
  | compareThin (contention : Nat)
  | recurse (count : Nat)
  | release (count : Nat)
  | findOwner (owner : Fin n)
  | compareHash (code : Nat)
  | answer (code : Nat)
  | suspend (owner : Fin n) (code : Nat) (call : Call)
  | recheck (owner : Fin n) (code : Nat) (call : Call)
  | resume (owner : Fin n) (call : Call)
  | create (owner : Option (Fin n)) (code : Nat) (call : Call)
  | install (owner : Option (Fin n)) (code : Nat) (call : Call)
  | publish (owner : Option (Fin n)) (code : Nat) (word : LockWord n) (call : Call)
  | published (owner : Option (Fin n)) (call : Call)
  | lock (monitor : Nat) (locker : Locker)
  | contend (monitor : Nat) (locker : Locker)
  | blocked (monitor : Nat) (locker : Locker)
  | unlock (monitor : Nat)
  | wait (monitor : Nat)
  | waiting (monitor : Nat) (saved : Nat)
  | restore (monitor : Nat) (saved : Nat)
  | notify (monitor : Nat) (all : Bool)
  | getHashCode (monitor : Nat)
  | compareCode (monitor : Nat) (code : Nat)
  deriving DecidableEq, Repr

namespace Pc

def safe : Pc n → Bool
  | .idle | .suspend _ _ _ | .contend _ _ | .blocked _ _ | .waiting _ _ => true
  | _ => false

def monitor : Pc n → Option Nat
  | .lock k _ | .contend k _ | .blocked k _ | .unlock k | .wait k | .waiting k _ | .restore k _ | .notify k _
  | .getHashCode k | .compareCode k _ => some k
  | _ => none

/-- The thread that `t` has suspended. -/
def suspends (t : Fin n) : Pc n → Option (Fin n)
  | .recheck x _ _ | .resume x _ => (some x).filter (· ≠ t)
  | .create owner _ _ | .install owner _ _ | .publish owner _ _ _ | .published owner _ => owner.filter (· ≠ t)
  | _ => none

end Pc

/-- The CHECK of `FindThreadByThreadId` has failed, or another one, or a monitor was used after its deflation. -/
inductive Abort where
  | ownerRuns
  | inconsistent
  deriving DecidableEq, Repr

/-- `monitor` is the `Monitor` that the lock word refers to, and `created` numbers the next one. `asleep` are the
waiters of `monitor_contenders_`. `held` counts the calls of `MonitorEnter` that have returned less those of
`MonitorExit`, and `hashes` are the results of `IdentityHashCode`. -/
structure Shared (n : Nat) where
  lockWord : LockWord n
  monitor : Monitor n
  created : Nat
  asleep : Fin n → Bool
  held : Fin n → Nat
  hashes : List Nat
  aborted : Option Abort

structure Machine (n : Nat) extends Shared n where
  pc : Fin n → Pc n

def Shared.abort (s : Shared n) : Shared n := { s with aborted := some .inconsistent }

def Machine.start (n : Nat) : Machine n where
  lockWord := .unlocked
  monitor := ⟨none,0,0,[],0⟩
  created := 0
  asleep := fun _ => false
  held := fun _ => 0
  hashes := []
  aborted := none
  pc := fun _ => .idle

/-- What a call does next, by the lock word it has found. `fresh` is the result of `GenerateIdentityHashCode`. -/
def dispatch (maxSpins : Nat) (t : Fin n) (fresh : Nat) : Call → LockWord n → Pc n
  | .enter contention,.unlocked => .compareThin contention
  | .enter contention,.thin owner count =>
    if owner = t then
      if count + 1 ≤ kThinLockMaxCount then .recurse count else .create (some t) 0 (.enter contention)
    else if contention + 1 ≤ maxSpins then .load (.enter (contention + 1))
    else .suspend owner 0 (.enter 0)
  | .enter _,.fat k => .lock k .enter
  | .enter contention,.hash code => .create none code (.enter contention)
  | .exit,.unlocked | .exit,.hash _ => .thrown
  | .exit,.thin owner count => if owner = t then .release count else .findOwner owner
  | .exit,.fat k => .unlock k
  | .wait,.unlocked | .wait,.hash _ => .thrown
  | .wait,.thin owner _ => if owner = t then .create (some t) 0 .wait else .thrown
  | .wait,.fat k => .wait k
  | .notify _,.unlocked | .notify _,.hash _ => .thrown
  | .notify _,.thin owner _ => if owner = t then .idle else .thrown
  | .notify all,.fat k => .notify k all
  | .identityHashCode,.unlocked => .compareHash fresh
  | .identityHashCode,.thin owner _ =>
    if owner = t then .create (some t) fresh .identityHashCode else .suspend owner fresh .identityHashCode
  | .identityHashCode,.fat k => .getHashCode k
  | .identityHashCode,.hash code => .answer code

/-- Where `Inflate` returns to. -/
def inflated (t : Fin n) (owner : Option (Fin n)) (call : Call) : Pc n :=
  match owner with
  | none => .load call
  | some x => if x = t then .load call else .resume x call

/-- The lock word that an exit leaves of a thin lock. -/
def LockWord.lowered (t : Fin n) : Nat → LockWord n
  | 0 => .unlocked
  | count + 1 => .thin t count

/-- `lock_count_` as `Install` takes it from the lock word. -/
def LockWord.count : LockWord n → Nat
  | .thin _ count => count
  | _ => 0

namespace Shared

/-- `Monitor::Lock` returns. -/
def acquired (s : Shared n) (t : Fin n) (k : Nat) : Locker → Shared n × Pc n
  | .enter => ({ s with held := Function.update s.held t (s.held t + 1) },.idle)
  | .wait saved => (s,.restore k saved)

/-- The loop of `Monitor::Lock` up to its return or the release of `monitor_lock_`. -/
def tryLock (s : Shared n) (t : Fin n) (k : Nat) (locker : Locker) : Shared n × Pc n :=
  match s.monitor.owner with
  | none =>
    if s.monitor.lockCount = 0 then acquired { s with monitor := { s.monitor with owner := some t } } t k locker
    else (s.abort,.idle)
  | some x =>
    if x = t then acquired { s with monitor := { s.monitor with lockCount := s.monitor.lockCount + 1 } } t k locker
    else ({ s with monitor := { s.monitor with numWaiters := s.monitor.numWaiters + 1 } },.contend k locker)

/-- `monitor_contenders_.Signal`: one of the threads that sleep is woken, if there is one. -/
def signal (s : Shared n) (woken : Fin n) : Option (Shared n) :=
  if s.asleep woken then some { s with asleep := Function.update s.asleep woken false }
  else if ∃ u, s.asleep u = true then none
  else some s

end Shared

/-- The loop of `Notify` over the wait set: it ends at a thread that is still waiting. -/
def notifyOne (waiting : Fin n → Bool) : List (Fin n) → List (Fin n)
  | [] => []
  | x :: rest => if waiting x then rest else notifyOne waiting rest

/-- `wait_monitor_` is set. -/
def Pc.waitMonitor : Pc n → Bool
  | .waiting _ _ => true
  | _ => false

/-- The next step of a thread. `fresh` is the result of `GenerateIdentityHashCode`, and `woken` the contender that is
signalled. -/
def next (maxSpins : Nat) (m : Machine n) (t : Fin n) (fresh : Nat) (woken : Fin n) : Pc n → Option (Shared n × Pc n)
  | .idle => none
  | .thrown => some (m.toShared,.idle)
  | .load call => if fresh ≠ 0 ∧ fresh ≤ kMaxHash then some (m.toShared,dispatch maxSpins t fresh call m.lockWord)
    else none
  | .compareThin contention =>
    if m.lockWord = .unlocked then
      some ({ m.toShared with lockWord := .thin t 0, held := Function.update m.held t (m.held t + 1) },.idle)
    else some (m.toShared,.load (.enter contention))
  | .recurse count =>
    if count + 1 ≤ kThinLockMaxCount then
      some ({ m.toShared with lockWord := .thin t (count + 1), held := Function.update m.held t (m.held t + 1) },.idle)
    else some (m.toShared.abort,.idle)
  | .release count =>
    if count - 1 ≤ kThinLockMaxCount then
      some ({ m.toShared with lockWord := .lowered t count, held := Function.update m.held t (m.held t - 1) },.idle)
    else some (m.toShared.abort,.idle)
  | .findOwner x =>
    if ∃ u, (m.pc u).suspends u = some x then some (m.toShared,.thrown)
    else some ({ m.toShared with aborted := some .ownerRuns },.idle)
  | .compareHash code =>
    if m.lockWord = .unlocked then some ({ m.toShared with lockWord := .hash code },.answer code)
    else some (m.toShared,.load .identityHashCode)
  | .answer code => some ({ m.toShared with hashes := m.hashes ++ [code] },.idle)
  | .suspend x code call => if (m.pc x).safe then some (m.toShared,.recheck x code call) else none
  | .recheck x code call =>
    match m.lockWord with
    | .thin owner _ => some (m.toShared,if owner = x then .create (some x) code call else .resume x call)
    | _ => some (m.toShared,.resume x call)
  | .resume _ call => some (m.toShared,.load call)
  | .create owner code call =>
    if ∀ x, owner = some x → x = t ∨ (m.pc x).safe = true then some (m.toShared,.install owner code call)
    else some (m.toShared.abort,.idle)
  | .install owner code call =>
    match m.lockWord with
    | .thin x count =>
      if owner = some x then some (m.toShared,.publish owner code (.thin x count) call) else some
        (m.toShared.abort,.idle)
    | .hash found =>
      if code = found then some (m.toShared,.publish owner code (.hash found) call) else some (m.toShared.abort,.idle)
    | .fat _ => some (m.toShared,inflated t owner call)
    | .unlocked => some (m.toShared.abort,.idle)
  | .publish owner code word call =>
    if m.lockWord = word then
      some ({ m.toShared with
        lockWord := .fat m.created
        monitor := ⟨owner,word.count,0,[],code⟩
        created := m.created + 1 },.published owner call)
    else some (m.toShared,inflated t owner call)
  | .published owner call =>
    match m.lockWord with
    | .fat _ => some (m.toShared,inflated t owner call)
    | _ => some (m.toShared.abort,.idle)
  | .lock k locker => some (m.tryLock t k locker)
  | .contend k locker =>
    some ({ m.toShared with asleep := Function.update m.asleep t m.monitor.owner.isSome },.blocked k locker)
  | .blocked k locker =>
    if m.asleep t then none
    else some ({ m.toShared with
      monitor := { m.monitor with numWaiters := m.monitor.numWaiters - 1 } }.tryLock t k locker)
  | .unlock _ =>
    if m.monitor.owner = some t then
      if m.monitor.lockCount = 0 then
        { m.toShared with
          monitor := { m.monitor with owner := none }
          held := Function.update m.held t (m.held t - 1) }.signal woken |>.map (·,.idle)
      else some ({ m.toShared with
        monitor := { m.monitor with lockCount := m.monitor.lockCount - 1 }
        held := Function.update m.held t (m.held t - 1) },.idle)
    else some (m.toShared,.thrown)
  | .wait k =>
    if m.monitor.owner = some t then
      { m.toShared with
        monitor := { m.monitor with
          owner := none, lockCount := 0, numWaiters := m.monitor.numWaiters + 1
          waitSet := m.monitor.waitSet ++ [t] } }.signal woken |>.map (·,.waiting k m.monitor.lockCount)
    else some (m.toShared,.thrown)
  | .waiting k saved => some (m.toShared,.lock k (.wait saved))
  | .restore _ saved =>
    some ({ m.toShared with
      monitor := { m.monitor with
        owner := some t, lockCount := saved, numWaiters := m.monitor.numWaiters - 1
        waitSet := m.monitor.waitSet.erase t } },.idle)
  | .notify _ all =>
    if m.monitor.owner = some t then
      some ({ m.toShared with
        monitor := { m.monitor with
          waitSet := if all then [] else notifyOne (fun x => (m.pc x).waitMonitor) m.monitor.waitSet } },.idle)
    else some (m.toShared,.thrown)
  | .getHashCode k =>
    if m.monitor.hashCode ≠ 0 then some (m.toShared,.answer m.monitor.hashCode)
    else if fresh ≠ 0 ∧ fresh ≤ kMaxHash then some (m.toShared,.compareCode k fresh)
    else none
  | .compareCode k code =>
    if m.monitor.hashCode = 0 then
      some ({ m.toShared with monitor := { m.monitor with hashCode := code } },.getHashCode k)
    else some (m.toShared,.getHashCode k)

/-- A weak compare-and-swap fails, or `SuspendThreadByThreadId` does, or the thread looked up by `FindThreadByThreadId`
is suspended for another reason. -/
def failure (m : Machine n) (t : Fin n) : Pc n → Option (Pc n)
  | .compareThin contention => some (.load (.enter contention))
  | .compareHash _ => some (.load .identityHashCode)
  | .publish owner _ _ call => some (inflated t owner call)
  | .compareCode k _ => some (.getHashCode k)
  | .suspend _ _ call => some (.load call)
  | .findOwner x => if (m.pc x).safe then some .thrown else none
  | _ => none

/-- `Deflate`, where it changes the lock word. -/
def deflate (s : Shared n) : Shared n :=
  match s.lockWord with
  | .fat _ =>
    if 0 < s.monitor.numWaiters then s
    else match s.monitor.owner with
      | some x =>
        if s.monitor.hashCode ≠ 0 then s
        else if kThinLockMaxCount < s.monitor.lockCount then s
        else { s with lockWord := .thin x s.monitor.lockCount }
      | none =>
        if s.monitor.hashCode ≠ 0 then
          if s.monitor.hashCode ≤ kMaxHash then { s with lockWord := .hash s.monitor.hashCode } else s.abort
        else { s with lockWord := .unlocked }
  | _ => s

inductive Action (n : Nat) where
  | call (t : Fin n) (call : Call)
  | step (t : Fin n) (fresh : Nat) (woken : Fin n)
  | fail (t : Fin n)
  | wake (t : Fin n)
  | deflate
  deriving DecidableEq, Repr

/-- The thread `t` goes on, unless it is suspended and would become Runnable. -/
def Machine.go (m : Machine n) (t : Fin n) (after : Shared n × Pc n) : Option (Machine n) :=
  if after.2.safe = false ∧ ∃ u, (m.pc u).suspends u = some t then none
  else some { after.1 with pc := Function.update m.pc t after.2 }

def step (maxSpins : Nat) (action : Action n) (m : Machine n) : Option (Machine n) :=
  if m.aborted.isSome then none else
  match action with
  | .call t call =>
    match m.pc t,call with
    | .idle,.enter _ => m.go t (m.toShared,.load (.enter 0))
    | .idle,call => m.go t (m.toShared,.load call)
    | _,_ => none
  | .step t fresh woken =>
    match (m.pc t).monitor with
    | some k =>
      if m.lockWord = .fat k then (next maxSpins m t fresh woken (m.pc t)).bind (m.go t)
      else some { m with toShared := m.abort }
    | none => (next maxSpins m t fresh woken (m.pc t)).bind (m.go t)
  | .fail t => (failure m t (m.pc t)).bind fun pc => m.go t (m.toShared,pc)
  | .wake t => if m.asleep t then some { m with asleep := Function.update m.asleep t false } else none
  | .deflate => if ∀ t, (m.pc t).safe = true then some { m with toShared := deflate m.toShared } else none

end Aatt.Monitors
