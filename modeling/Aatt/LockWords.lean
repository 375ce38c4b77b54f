import Aatt.Lib.BitFields
import Aatt.MonitorSafety

/-! The bits of a lock word. What the constructors of `LockWord` put together its accessors take apart, for every state
that the monitor of an object can be in. -/
namespace Aatt.Monitors

open Aatt.Lib

inductive LockState where
  | unlocked
  | thinLocked
  | fatLocked
  | hashCode
  | forwardingAddress
  deriving DecidableEq, Repr

/-- `value_` of a `LockWord`. -/
abbrev Value := BitVec 32

namespace Value

def kThinLockCountShift : Nat := 16
def kReadBarrierStateShift : Nat := 28
def kStateShift : Nat := 30

def fromThinLockId (threadId count rbState : BitVec 32) : Option Value :=
  if threadId ≤ 65535#32 ∧ count ≤ 4095#32 then
    some (threadId <<< 0 ||| count <<< kThinLockCountShift ||| rbState <<< kReadBarrierStateShift |||
      0#32 <<< kStateShift)
  else none

def fromHashCode (code rbState : BitVec 32) : Option Value :=
  if code ≤ 268435455#32 then some (code <<< 0 ||| rbState <<< kReadBarrierStateShift ||| 2#32 <<< kStateShift)
    else none

def fromDefault (rbState : BitVec 32) : Value := rbState <<< kReadBarrierStateShift

def ofMonitor (id rbState : BitVec 32) : Value := id ||| rbState <<< kReadBarrierStateShift ||| 1#32 <<< kStateShift

def internalState (v : Value) : BitVec 32 := (v >>> kStateShift) &&& 3#32

/-- `GetState` without read barriers. -/
def getState (v : Value) : LockState :=
  if v = 0 then .unlocked
  else if v.internalState = 0 then .thinLocked
  else if v.internalState = 2 then .hashCode
  else if v.internalState = 3 then .forwardingAddress
  else .fatLocked

def thinLockOwner (v : Value) : BitVec 32 := (v >>> 0) &&& 65535#32

def thinLockCount (v : Value) : BitVec 32 := (v >>> kThinLockCountShift) &&& 4095#32

/-- The argument of `MonitorFromMonitorId`. -/
def fatLockMonitor (v : Value) : BitVec 32 := (v >>> 0) &&& 268435455#32

def getHashCode (v : Value) : BitVec 32 := (v >>> 0) &&& 268435455#32

def readBarrierState (v : Value) : BitVec 32 := (v >>> kReadBarrierStateShift) &&& 3#32

section Fields

variable {threadId count code id rbState : BitVec 32} {v : Value}

theorem fields {low high : BitVec 32} (state : BitVec 32) (lowNarrow : Narrow 16 low) (highNarrow : Narrow 12 high)
    (barrier : Narrow 2 rbState) (stateNarrow : Narrow 2 state) :
    let v := low <<< 0 ||| high <<< 16 ||| rbState <<< 28 ||| state <<< 30
    field v 0 16 = low ∧ field v 16 12 = high ∧ field v 28 2 = rbState ∧ field v 30 2 = state := by
  refine ⟨?_,?_,?_,?_⟩
  all_goals simp only [field_or]
  · rw [field_self lowNarrow (by decide),field_apart highNarrow (by decide),field_apart barrier (by decide),
      field_apart stateNarrow (by decide)]
    simp
  · rw [field_self highNarrow (by decide),field_apart lowNarrow (by decide),field_apart barrier (by decide),
      field_apart stateNarrow (by decide)]
    simp
  · rw [field_self barrier (by decide),field_apart lowNarrow (by decide),field_apart highNarrow (by decide),
      field_apart stateNarrow (by decide)]
    simp
  · rw [field_self stateNarrow (by decide),field_apart lowNarrow (by decide),field_apart highNarrow (by decide),
      field_apart barrier (by decide)]
    simp

theorem getState_of {state : BitVec 32} (nonzero : v ≠ 0) (same : v.internalState = state) :
    v.getState = if state = 0 then .thinLocked else if state = 2 then .hashCode else
      if state = 3 then .forwardingAddress else .fatLocked := by
  rw [getState,if_neg nonzero,same]

/-- What `FromThinLockId` makes is read back, unless it is the word of an unlocked object. -/
theorem fromThinLockId_read (made : fromThinLockId threadId count rbState = some v) (barrier : Narrow 2 rbState)
    (thread : threadId ≠ 0) :
    v.getState = .thinLocked ∧ v.thinLockOwner = threadId ∧ v.thinLockCount = count ∧ v.readBarrierState = rbState := by
  obtain ⟨⟨owner,depth⟩,made⟩ := Option.ite_none_right_eq_some.mp made
  cases made
  have lowNarrow : Narrow 16 threadId := Nat.lt_succ_of_le (BitVec.le_def.mp owner)
  have highNarrow : Narrow 12 count := Nat.lt_succ_of_le (BitVec.le_def.mp depth)
  obtain ⟨low,high,middle,top⟩ := fields 0#32 lowNarrow highNarrow barrier (by decide)
  have nonzero : threadId <<< 0 ||| count <<< 16 ||| rbState <<< 28 ||| 0#32 <<< 30 ≠ 0#32 := by
    intro zero
    rw [zero] at low
    exact thread low.symm
  exact ⟨(getState_of nonzero top).trans (if_pos rfl),low,high,middle⟩

theorem wide_read {payload : BitVec 32} (state : BitVec 32) (payloadNarrow : Narrow 28 payload)
    (barrier : Narrow 2 rbState) (stateNarrow : Narrow 2 state) :
    let v := payload <<< 0 ||| rbState <<< 28 ||| state <<< 30
    field v 0 28 = payload ∧ field v 28 2 = rbState ∧ field v 30 2 = state := by
  refine ⟨?_,?_,?_⟩
  all_goals simp only [field_or]
  · rw [field_self payloadNarrow (by decide),field_apart barrier (by decide),field_apart stateNarrow (by decide)]
    simp
  · rw [field_self barrier (by decide),field_apart payloadNarrow (by decide),field_apart stateNarrow (by decide)]
    simp
  · rw [field_self stateNarrow (by decide),field_apart payloadNarrow (by decide),field_apart barrier (by decide)]
    simp

theorem nonzero_of_state {state : BitVec 32} (top : field v 30 2 = state) (nonzero : state ≠ 0) : v ≠ 0 := by
  rintro rfl
  exact nonzero top.symm

theorem fromHashCode_read (made : fromHashCode code rbState = some v) (barrier : Narrow 2 rbState) :
    v.getState = .hashCode ∧ v.getHashCode = code ∧ v.readBarrierState = rbState := by
  obtain ⟨small,made⟩ := Option.ite_none_right_eq_some.mp made
  cases made
  have narrow : Narrow 28 code := Nat.lt_succ_of_le (BitVec.le_def.mp small)
  obtain ⟨low,middle,top⟩ := wide_read 2#32 narrow barrier (by decide)
  exact ⟨getState_of (nonzero_of_state top (by decide)) top,low,middle⟩

theorem ofMonitor_read (narrow : Narrow 28 id) (barrier : Narrow 2 rbState) :
    (ofMonitor id rbState).getState = .fatLocked ∧ (ofMonitor id rbState).fatLockMonitor = id ∧
      (ofMonitor id rbState).readBarrierState = rbState := by
  have shape : ofMonitor id rbState = id <<< 0 ||| rbState <<< 28 ||| 1#32 <<< 30 := by
    rw [ofMonitor,BitVec.shiftLeft_zero]
    rfl
  obtain ⟨low,middle,top⟩ := wide_read 1#32 narrow barrier (by decide)
  rw [shape]
  exact ⟨getState_of (nonzero_of_state top (by decide)) top,low,middle⟩

end Fields

end Value

variable {n : Nat}

/-- The bits of a lock word. Thread ids begin with 1. -/
def LockWord.value : LockWord n → Option Value
  | .unlocked => some (Value.fromDefault 0)
  | .thin owner count => Value.fromThinLockId (BitVec.ofNat 32 (owner + 1)) (BitVec.ofNat 32 count) 0
  | .fat k => some (Value.ofMonitor (BitVec.ofNat 32 k) 0)
  | .hash code => Value.fromHashCode (BitVec.ofNat 32 code) 0

def LockWord.read (n : Nat) (v : Value) : Option (LockWord n) :=
  match v.getState with
  | .unlocked => some .unlocked
  | .thinLocked =>
    if bound : v.thinLockOwner.toNat - 1 < n then some (.thin ⟨v.thinLockOwner.toNat - 1,bound⟩ v.thinLockCount.toNat)
      else none
  | .fatLocked => some (.fat v.fatLockMonitor.toNat)
  | .hashCode => some (.hash v.getHashCode.toNat)
  | .forwardingAddress => none

theorem LockWord.read_thin {n : Nat} (ids : n ≤ 65535) (owner : Fin n) {count : Nat}
    (small : count ≤ kThinLockMaxCount) :
    ∃ v, (LockWord.thin owner count).value = some v ∧ read n v = some (.thin owner count) := by
  have id : (BitVec.ofNat 32 (owner + 1)).toNat = owner + 1 := by
    rw [BitVec.toNat_ofNat]
    have := owner.isLt
    omega
  have depth : (BitVec.ofNat 32 count).toNat = count := by
    rw [BitVec.toNat_ofNat]
    unfold kThinLockMaxCount at small
    omega
  have fits : BitVec.ofNat 32 (owner + 1) ≤ 65535#32 ∧ BitVec.ofNat 32 count ≤ 4095#32 := by
    refine ⟨BitVec.le_def.mpr ?_,BitVec.le_def.mpr ?_⟩
    · rw [id]
      exact owner.isLt.trans_le ids
    · rw [depth]
      exact small
  obtain ⟨v,made⟩ : ∃ v, Value.fromThinLockId (BitVec.ofNat 32 (owner + 1)) (BitVec.ofNat 32 count) 0 = some v :=
    ⟨_,if_pos fits⟩
  obtain ⟨state,low,high,-⟩ := Value.fromThinLockId_read made (by decide) (by
    intro zero
    rw [zero] at id
    simp at id)
  refine ⟨v,made,?_⟩
  rw [read,state]
  simp only [low,high,id,depth]
  rw [dif_pos (by simp)]
  rfl

theorem LockWord.read_fat (n : Nat) {k : Nat} (small : k ≤ kMaxHash) :
    ∃ v, (LockWord.fat (n := n) k).value = some v ∧ read n v = some (.fat k) := by
  have id : (BitVec.ofNat 32 k).toNat = k := by
    rw [BitVec.toNat_ofNat]
    unfold kMaxHash at small
    omega
  have narrow : Narrow 28 (BitVec.ofNat 32 k) := by
    rw [Narrow,id]
    exact Nat.lt_succ_of_le small
  obtain ⟨state,low,-⟩ := Value.ofMonitor_read narrow (show Narrow 2 (0 : BitVec 32) by decide)
  refine ⟨_,rfl,?_⟩
  rw [read,state]
  simp only [low,id]

theorem LockWord.read_hash (n : Nat) {code : Nat} (small : code ≤ kMaxHash) :
    ∃ v, (LockWord.hash (n := n) code).value = some v ∧ read n v = some (.hash code) := by
  have id : (BitVec.ofNat 32 code).toNat = code := by
    rw [BitVec.toNat_ofNat]
    unfold kMaxHash at small
    omega
  have fits : BitVec.ofNat 32 code ≤ 268435455#32 := by
    rw [BitVec.le_def,id]
    exact small
  obtain ⟨v,made⟩ : ∃ v, Value.fromHashCode (BitVec.ofNat 32 code) 0 = some v := ⟨_,if_pos fits⟩
  obtain ⟨state,low,-⟩ := Value.fromHashCode_read made (by decide)
  refine ⟨v,made,?_⟩
  rw [read,state]
  simp only [low,id]

/-- The counts and codes that have room in their fields. -/
def LockWord.InBounds : LockWord n → Prop
  | .unlocked => True
  | .thin _ count => count ≤ kThinLockMaxCount
  | .fat k => k ≤ kMaxHash
  | .hash code => code ≤ kMaxHash

theorem LockWord.read_value (ids : n ≤ 65535) (word : LockWord n) (inBounds : word.InBounds) :
    ∃ v, word.value = some v ∧ read n v = some word := by
  cases word with
  | unlocked => exact ⟨_,rfl,rfl⟩
  | thin owner count => exact read_thin ids owner inBounds
  | fat k => exact read_fat n inBounds
  | hash code => exact read_hash n inBounds

theorem Shared.Sound.inBounds {s : Shared n} (sound : s.Sound) (monitors : ∀ k, s.lockWord = .fat k → k ≤ kMaxHash) :
    s.lockWord.InBounds := by
  unfold Shared.Sound at sound
  cases word : s.lockWord with
  | unlocked => trivial
  | thin owner count =>
    rw [word] at sound
    exact sound
  | fat k => exact monitors k word
  | hash code =>
    rw [word] at sound
    exact sound.2

/-- Whatever the threads do, the lock word fits into its 32 bits and is read as it was written. -/
theorem lockWord_round_trip (ids : n ≤ 65535) (maxSpins : Nat) (actions : List (Action n)) :
    Throughout (Monitors.step maxSpins) (fun m => (∀ k, m.lockWord = .fat k → k ≤ kMaxHash) →
      ∃ v, m.lockWord.value = some v ∧ LockWord.read n v = some m.lockWord) actions (Machine.start n) := by
  intro front back m split reached monitors
  have sound := (consistent_throughout maxSpins actions front back m split reached).sound
  exact m.lockWord.read_value ids (sound.inBounds monitors)

/-- A thread enters and asks for the hash code, which inflates its lock; it leaves, and the monitor is deflated. -/
def hashedActions (t : Fin n) : List (Action n) :=
  List.flatten [[.call t (.enter 0),.step t 7 t,.step t 7 t,.call t .identityHashCode],.replicate 8 (.step t 7 t),
    [.call t .exit],.replicate 2 (.step t 7 t),[.deflate]]

theorem lockWord_round_trip_hashed :
    [3,8,16].map (fun k => (run (Monitors.step 50) ((hashedActions 1).take k) (Machine.start 2)).map (·.lockWord)) =
      [some (.thin 1 0),some (.fat 0),some (.hash 7)] ∧
    Throughout (Monitors.step 50) (fun m => (∀ k, m.lockWord = .fat k → k ≤ kMaxHash) →
      ∃ v, m.lockWord.value = some v ∧ LockWord.read 2 v = some m.lockWord) (hashedActions 1) (Machine.start 2) :=
  ⟨by decide +kernel,lockWord_round_trip (by decide) 50 _⟩

end Aatt.Monitors
