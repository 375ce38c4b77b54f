import Aatt.Interpreter
import Aatt.Leb128

/-! Try items and catch handlers of a code item: `DexFileVerifier`, which accepts the code items of a dex file, and
`ArtMethod::FindCatchBlock`, which looks a handler up. Addresses are relative to the beginning of the file, which is
aligned; what lies behind the file is memory, too. `CheckListSize` is its comparison with the end of the file: a range
that it rejects for an overflow ends behind the file as well. -/
namespace Aatt.Dex

open Aatt.Lib

def kDexNoIndex16 : BitVec 16 := 0xFFFF

def read16 (mem : Memory) (a : Nat) : BitVec 16 := readLE 16 [mem a,mem (a + 1)]

def read32 (mem : Memory) (a : Nat) : BitVec 32 := readLE 32 [mem a,mem (a + 1),mem (a + 2),mem (a + 3)]

def registersSize (mem : Memory) (item : Nat) : BitVec 16 := read16 mem item

def insSize (mem : Memory) (item : Nat) : BitVec 16 := read16 mem (item + 2)

def outsSize (mem : Memory) (item : Nat) : BitVec 16 := read16 mem (item + 4)

def triesSize (mem : Memory) (item : Nat) : BitVec 16 := read16 mem (item + 6)

def insnsSizeInCodeUnits (mem : Memory) (item : Nat) : BitVec 32 := read32 mem (item + 12)

/-- The address of `insns_[i]`. -/
def insns (item i : Nat) : Nat := item + 16 + 2 * i

structure TryItem where
  startAddr : BitVec 32
  insnCount : BitVec 16
  handlerOff : BitVec 16
  deriving DecidableEq, Repr

/-- The address of a try item: they are aligned to 4 bytes. -/
def getTryItems (mem : Memory) (item i : Nat) : Nat :=
  (insns item (insnsSizeInCodeUnits mem item).toNat + 3) / 4 * 4 + 8 * i

def tryItem (mem : Memory) (item i : Nat) : TryItem where
  startAddr := read32 mem (getTryItems mem item i)
  insnCount := read16 mem (getTryItems mem item i + 4)
  handlerOff := read16 mem (getTryItems mem item i + 6)

def TryItem.endAddr (t : TryItem) : BitVec 32 := t.startAddr + t.insnCount.setWidth 32

def getCatchHandlerData (mem : Memory) (item offset : Nat) : Nat :=
  getTryItems mem item (triesSize mem item).toNat + offset

/-- The loop of `FindTryItem`. -/
def findTryLoop (mem : Memory) (item : Nat) (address : BitVec 32) (min max : Int) : Int :=
  if min ≤ max then
    let mid := min + (max - min) / 2
    let ti := tryItem mem item mid.toNat
    if address < ti.startAddr then findTryLoop mem item address min (mid - 1)
    else if ti.endAddr ≤ address then findTryLoop mem item address (mid + 1) max
    else mid
  else -1
  termination_by (max + 1 - min).toNat
  decreasing_by all_goals omega

def findTryItem (mem : Memory) (item : Nat) (address : BitVec 32) : Int :=
  findTryLoop mem item address 0 ((triesSize mem item).toNat - 1)

def findCatchHandlerOffset (mem : Memory) (item : Nat) (address : BitVec 32) : Int :=
  let i := findTryItem mem item address
  if i = -1 then -1 else (tryItem mem item i.toNat).handlerOff.toNat

/-- The offset in the constructor of `CatchHandlerIterator`, with the short cuts for no and for one try item. -/
def offsetFor (mem : Memory) (item : Nat) (address : BitVec 32) : Int :=
  if triesSize mem item = 0 then -1
  else if triesSize mem item = 1 then
    let ti := tryItem mem item 0
    if ti.startAddr ≤ address ∧ address < ti.endAddr then ti.handlerOff.toNat else -1
  else findCatchHandlerOffset mem item address

structure CatchHandlerIterator where
  typeIdx : BitVec 16
  address : BitVec 32
  currentData : Nat
  remainingCount : Int
  catchAll : Bool
  deriving DecidableEq, Repr

namespace CatchHandlerIterator

def hasNext (it : CatchHandlerIterator) : Bool := it.remainingCount != -1 || it.catchAll

def next (mem : Memory) (it : CatchHandlerIterator) : CatchHandlerIterator :=
  if it.remainingCount > 0 then
    let typeIdx := decodeUnsignedLeb128 mem it.currentData
    let address := decodeUnsignedLeb128 mem typeIdx.2
    { it with
      typeIdx := typeIdx.1.setWidth 16, address := address.1, currentData := address.2
      remainingCount := it.remainingCount - 1 }
  else if it.catchAll then
    let address := decodeUnsignedLeb128 mem it.currentData
    { it with typeIdx := kDexNoIndex16, address := address.1, currentData := address.2, catchAll := false }
  else { it with remainingCount := -1 }

/-- `Init` with the data of a list of handlers. -/
def initData (mem : Memory) (handlerData : Nat) : CatchHandlerIterator :=
  let count := decodeSignedLeb128 mem handlerData
  next mem ⟨0,-1,count.2,count.1.toInt.natAbs,decide (count.1.toInt ≤ 0)⟩

def init (mem : Memory) (item : Nat) (offset : Int) : CatchHandlerIterator :=
  if 0 ≤ offset then initData mem (getCatchHandlerData mem item offset.toNat) else ⟨0,-1,0,-1,false⟩

def ofAddress (mem : Memory) (item : Nat) (address : BitVec 32) : CatchHandlerIterator :=
  init mem item (offsetFor mem item address)

def measure (it : CatchHandlerIterator) : Nat :=
  if it.hasNext then (it.remainingCount + 1).toNat + it.catchAll.toNat + 1 else 0

theorem measure_next (mem : Memory) (it : CatchHandlerIterator) (more : it.hasNext = true) :
    (it.next mem).measure < it.measure := by
  have bound (it' : CatchHandlerIterator) : it'.measure ≤ (it'.remainingCount + 1).toNat + it'.catchAll.toNat + 1 := by
    unfold measure
    split <;> omega
  rw [measure.eq_def it,if_pos more]
  unfold next
  split
  next left =>
    refine Nat.lt_of_le_of_lt (bound _) ?_
    simp only
    omega
  next =>
    split
    next last =>
      refine Nat.lt_of_le_of_lt (bound _) ?_
      simp [last]
    next =>
      rw [measure,if_neg (by simp_all [hasNext])]
      exact Nat.succ_pos _

end CatchHandlerIterator

section FindCatchBlock

variable {κ : Type} (resolve : BitVec 16 → Option κ) (isAssignableFrom : κ → Bool)

/-- Whether a handler of this type is taken: the catch-all handler, or a type that is resolved and fits the
exception. -/
def catches (typeIdx : BitVec 16) : Bool :=
  if typeIdx = kDexNoIndex16 then true
  else match resolve typeIdx with
    | none => false
    | some type => isAssignableFrom type

/-- The loop of `FindCatchBlock`. -/
def findCatchLoop (mem : Memory) (it : CatchHandlerIterator) : BitVec 32 :=
  if it.hasNext = true then
    if catches resolve isAssignableFrom it.typeIdx then it.address else findCatchLoop mem (it.next mem)
  else kDexNoIndex
  termination_by it.measure
  decreasing_by exact it.measure_next mem ‹_›

/-- The dex pc of the handler, and whether its first instruction is not `MOVE_EXCEPTION`. -/
def findCatchBlock (mem : Memory) (item : Nat) (dexPc : BitVec 32) : BitVec 32 × Bool :=
  let foundDexPc := findCatchLoop resolve isAssignableFrom mem (.ofAddress mem item dexPc)
  (foundDexPc,foundDexPc != kDexNoIndex && mem (insns item foundDexPc.toNat) != 0x0D)

end FindCatchBlock

inductive Failure where
  | badRange (label : String) (start stop : Nat)
  | badIndex (label : String) (field limit : BitVec 32)
  | nonZeroPadding (byte : Byte) (offset : Nat)
  | outOfBounds (i : Nat)
  | insSize (insSize registersSize : BitVec 16)
  | outsSize (outsSize registersSize : BitVec 16)
  | padding (unit : BitVec 16)
  | handlersSize (handlersSize : BitVec 32)
  | handlerSize (size : Int)
  | handlerAddr (addr : BitVec 32)
  | catchAllAddr (addr : BitVec 32)
  | outOfOrder (startAddr : BitVec 32)
  | startAddr (startAddr : BitVec 32)
  | handlerOffset (handlerOff : BitVec 16)
  | insnCount (insnCount : BitVec 16)
  deriving DecidableEq, Repr

def hex (n : Nat) : String := String.ofList (Nat.toDigits 16 n)

/-- What `ErrorStringPrintf` is called with. Where the format has `%ud`, a `d` follows the number. -/
def Failure.text : Failure → String
  | .badRange label start stop => "Bad range for " ++ label ++ ": " ++ hex start ++ " to " ++ hex stop
  | .badIndex label field limit => "Bad index for " ++ label ++ ": " ++ hex field.toNat ++ " >= " ++ hex limit.toNat
  | .nonZeroPadding byte offset => "Non-zero padding " ++ hex byte.toNat ++ " before section start at " ++ hex offset
  | .outOfBounds i => "Item " ++ toString i ++ " at ends out of bounds"
  | .insSize ins regs => "ins_size (" ++ toString ins.toNat ++ "d) > registers_size (" ++ toString regs.toNat ++ "d)"
  | .outsSize outs regs => "outs_size (" ++ toString outs.toNat ++ "d) > registers_size (" ++
    toString regs.toNat ++ "d)"
  | .padding unit => "Non-zero padding: " ++ hex unit.toNat
  | .handlersSize n => "Invalid handlers_size: " ++ toString n.toNat ++ "d"
  | .handlerSize n => "Invalid exception handler size: " ++ toString n
  | .handlerAddr addr => "Invalid handler addr: " ++ hex addr.toNat
  | .catchAllAddr addr => "Invalid handler catch_all_addr: " ++ hex addr.toNat
  | .outOfOrder addr => "Out-of_order try_item with start_addr: " ++ hex addr.toNat
  | .startAddr addr => "Invalid try_item start_addr: " ++ hex addr.toNat
  | .handlerOffset off => "Bogus handler offset: " ++ hex off.toNat
  | .insnCount n => "Invalid try_item insn_count: " ++ hex n.toNat

def require (condition : Prop) [Decidable condition] (failure : Failure) : Except Failure Unit :=
  if condition then .ok () else .error failure

def checkListSize (size start count elemSize : Nat) (label : String) : Except Failure Unit :=
  require (start + count * elemSize ≤ size) (.badRange label start (start + count * elemSize))

def checkIndex (field limit : BitVec 32) (label : String) : Except Failure Unit :=
  require (field < limit) (.badIndex label field limit)

section Verifier

variable (mem : Memory) (size : Nat) (typeIdsSize : BitVec 32)

/-- The inner loop of `CheckAndGetHandlerOffsets`, with the address behind the handlers. -/
def checkTyped (insnsSize : BitVec 32) : Nat → Nat → Except Failure Nat
  | 0,ptr => .ok ptr
  | n + 1,ptr => do
    let typeIdx := decodeUnsignedLeb128 mem ptr
    checkIndex typeIdx.1 typeIdsSize "handler type_idx"
    let addr := decodeUnsignedLeb128 mem typeIdx.2
    require (addr.1 < insnsSize) (.handlerAddr addr.1)
    checkTyped insnsSize n addr.2

def checkCatchAll (insnsSize : BitVec 32) (catchAll : Bool) (ptr : Nat) : Except Failure Nat :=
  if catchAll then do
    let addr := decodeUnsignedLeb128 mem ptr
    require (addr.1 < insnsSize) (.catchAllAddr addr.1)
    return addr.2
  else .ok ptr

/-- The offsets of `n` lists of handlers, and the address behind them. -/
def checkAndGetHandlerOffsets (insnsSize : BitVec 32) (base : Nat) : Nat → Nat → Except Failure (List (BitVec 32) × Nat)
  | 0,ptr => .ok ([],ptr)
  | n + 1,ptr => do
    let count := decodeSignedLeb128 mem ptr
    require (-65536 ≤ count.1.toInt ∧ count.1.toInt ≤ 65536) (.handlerSize count.1.toInt)
    let typed ← checkTyped mem typeIdsSize insnsSize count.1.toInt.natAbs count.2
    let next ← checkCatchAll mem insnsSize (decide (count.1.toInt ≤ 0)) typed
    let (offsets,stop) ← checkAndGetHandlerOffsets insnsSize base n next
    return (BitVec.ofNat 32 (ptr - base) :: offsets,stop)

/-- The loop over the try items, with `n` to go from the `i`th on. -/
def checkTries (item : Nat) (insnsSize : BitVec 32) (handlerOffsets : List (BitVec 32)) :
    Nat → Nat → BitVec 32 → Except Failure Unit
  | 0,_,_ => .ok ()
  | n + 1,i,lastAddr => do
    let ti := tryItem mem item i
    require (lastAddr ≤ ti.startAddr) (.outOfOrder ti.startAddr)
    require (ti.startAddr < insnsSize) (.startAddr ti.startAddr)
    require (ti.handlerOff.setWidth 32 ∈ handlerOffsets) (.handlerOffset ti.handlerOff)
    require (ti.endAddr ≤ insnsSize) (.insnCount ti.insnCount)
    checkTries item insnsSize handlerOffsets n (i + 1) ti.endAddr

/-- `CheckIntraCodeItem`, with the address behind the item. -/
def checkIntraCodeItem (item : Nat) : Except Failure Nat := do
  checkListSize size item 1 20 "code"
  require (insSize mem item ≤ registersSize mem item) (.insSize (insSize mem item) (registersSize mem item))
  require (¬ (5 < outsSize mem item ∧ registersSize mem item < outsSize mem item))
    (.outsSize (outsSize mem item) (registersSize mem item))
  let insnsSize := insnsSizeInCodeUnits mem item
  checkListSize size (insns item 0) insnsSize.toNat 2 "insns size"
  if triesSize mem item = 0 then return insns item insnsSize.toNat
  else
    let unit := read16 mem (insns item insnsSize.toNat)
    require (¬ (insns item insnsSize.toNat % 4 ≠ 0 ∧ unit ≠ 0)) (.padding unit)
    let base := getCatchHandlerData mem item 0
    let handlersSize := decodeUnsignedLeb128 mem base
    checkListSize size (getTryItems mem item 0) (triesSize mem item).toNat 8 "try_items size"
    require (handlersSize.1 ≠ 0 ∧ handlersSize.1 < 65536) (.handlersSize handlersSize.1)
    let (handlerOffsets,stop) ← checkAndGetHandlerOffsets mem typeIdsSize insnsSize base handlersSize.1.toNat
      handlersSize.2
    checkTries mem item insnsSize handlerOffsets (triesSize mem item).toNat 0 0
    return stop

/-- The loop of `CheckPadding`. -/
def checkZeros : Nat → Nat → Except Failure Unit
  | 0,_ => .ok ()
  | n + 1,offset => do
    require (mem offset = 0) (.nonZeroPadding (mem offset) offset)
    checkZeros n (offset + 1)

def checkPadding (offset alignedOffset : Nat) : Except Failure Unit :=
  if offset < alignedOffset then do
    checkListSize size offset (alignedOffset - offset) 1 "section"
    checkZeros mem (alignedOffset - offset) offset
  else .ok ()

/-- `CheckIntraSectionIterate` for a section of code items, with `n` to go from the `i`th on: their addresses. -/
def checkCodeItems : Nat → Nat → Nat → Except Failure (List Nat)
  | 0,_,_ => .ok []
  | n + 1,i,offset => do
    let alignedOffset := (offset + 3) / 4 * 4
    checkPadding mem size offset alignedOffset
    let stop ← checkIntraCodeItem mem size typeIdsSize alignedOffset
    require (stop ≤ size) (.outOfBounds i)
    let rest ← checkCodeItems n (i + 1) stop
    return alignedOffset :: rest

end Verifier

end Aatt.Dex
