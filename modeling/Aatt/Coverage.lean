import Aatt.Lib.Bytes
import Aatt.Lib.Transition

/-! Code coverage: one byte for each code unit of a method, in an array with the size of the dex file
at the offset of the code item. A dump of a method prints its bytes as bits and clears them. -/
namespace Aatt

open Aatt.Lib

/-- What coverage needs of a method: the offset of its code item, 0 if it is native or abstract, and the
number of code units there. -/
structure CodeItem where
  codeOff : BitVec 32
  insnsSizeInCodeUnits : BitVec 32
  deriving DecidableEq, Repr

def writeByte (data : List Byte) (i : Nat) (value : Byte) : Option (List Byte) :=
  if i < data.length then some (data.set i value) else none

def readWord (data : List Byte) (i : Nat) : Option (BitVec 32) :=
  if i + 4 ≤ data.length then some (readLE 32 (slot data i 4)) else none

def visitPc (item : CodeItem) (dexPc : BitVec 32) (data : List Byte) : Option (List Byte) :=
  if item.codeOff = 0 then some data else writeByte data (item.codeOff.toNat + dexPc.toNat) 1

/-- A line of the coverage file without the columns that name the method. -/
structure CoverageLine where
  insnsSize : BitVec 16
  bits : List Bool
  deriving DecidableEq, Repr

/-- The loop that looks for a visited code unit, with `count` words to go from word `i` on. -/
def scanWords (data : List Byte) (base : Nat) : Nat → Nat → Option Bool
  | 0, _ => some false
  | count + 1, i => do
    let word ← readWord data (base + 4 * i)
    if word ≠ 0 then some true else scanWords data base count (i + 1)

/-- Whether the dump goes on: the first byte is tested by itself. -/
def anyVisited (data : List Byte) (base insnsSize : Nat) : Option Bool := do
  let first ← data[base]?
  if first = 0 then scanWords data base ((insnsSize >>> 2) + 1) 0 else some true

def clearVisited (data : List Byte) (i : Nat) (byte : Byte) : Option (List Byte) :=
  if byte ≠ 0 then writeByte data i 0 else some data

/-- The loop that prints and clears, with `count` bytes to go from byte `i` on. -/
def printBits (base : Nat) : Nat → Nat → List Byte → Option (List Byte × List Bool)
  | 0, _, data => some (data,[])
  | count + 1, i, data => do
    let byte ← data[base + i]?
    let data ← clearVisited data (base + i) byte
    let (data,bits) ← printBits base count (i + 1) data
    return (data,decide (byte ≠ 0) :: bits)

/-- `DumpCoverageData(os, method)`: the array afterwards, and the line if one is printed. The size is
narrowed to 16 bits. -/
def dumpCoverageData (item : CodeItem) (data : List Byte) : Option (List Byte × Option CoverageLine) :=
  if item.codeOff = 0 then some (data,none) else
  let insnsSize : BitVec 16 := item.insnsSizeInCodeUnits.setWidth 16
  let base := item.codeOff.toNat
  if insnsSize = 0 then some (data,none) else do
  let visited ← anyVisited data base insnsSize.toNat
  if !visited then return (data,none)
  let (data,bits) ← printBits base insnsSize.toNat 0 data
  return (data,some ⟨insnsSize,bits⟩)

namespace CodeItem

def base (item : CodeItem) : Nat := item.codeOff.toNat

def size (item : CodeItem) : Nat := item.insnsSizeInCodeUnits.toNat

/-- The number of bytes that a dump prints and clears. -/
def reach (item : CodeItem) : Nat := item.size % 2 ^ 16

/-- The number of bytes that a dump looks at before it prints. -/
def window (item : CodeItem) : Nat := 4 * (item.reach / 4) + 4

/-- The end of the code item: a header of 16 bytes and two bytes for each code unit. -/
def stop (item : CodeItem) : Nat := item.base + 16 + 2 * item.size

/-- The code item lies in a file of the given size. -/
def Inside (size : Nat) (item : CodeItem) : Prop := item.stop ≤ size

def Disjoint (a b : CodeItem) : Prop := a.stop ≤ b.base ∨ b.stop ≤ a.base

def Marked (item : CodeItem) (data : List Byte) (dexPc : Nat) : Prop := data.getD (item.base + dexPc) 0 ≠ 0

instance (size : Nat) (item : CodeItem) : Decidable (item.Inside size) := inferInstanceAs (Decidable (_ ≤ _))

instance (a b : CodeItem) : Decidable (a.Disjoint b) := inferInstanceAs (Decidable (_ ∨ _))

instance (item : CodeItem) (data : List Byte) (dexPc : Nat) : Decidable (item.Marked data dexPc) :=
  inferInstanceAs (Decidable (_ ≠ _))

theorem reach_le (item : CodeItem) : item.reach ≤ item.size := Nat.mod_le _ _

theorem reach_lt_window (item : CodeItem) : item.reach < item.window := by
  unfold window
  omega

theorem window_stop (item : CodeItem) : item.base + item.window ≤ item.stop := by
  have reach := item.reach_le
  unfold window stop
  omega

theorem reach_eq (item : CodeItem) : (item.insnsSizeInCodeUnits.setWidth 16).toNat = item.reach :=
  BitVec.toNat_setWidth _ _

theorem narrowed_eq_zero_iff (item : CodeItem) : item.insnsSizeInCodeUnits.setWidth 16 = 0 ↔ item.reach = 0 := by
  rw [← item.reach_eq,← BitVec.toNat_inj]
  rfl

end CodeItem

theorem getD_set (data : List Byte) (i j : Nat) (value : Byte) (inside : i < data.length) :
    (data.set i value).getD j 0 = if i = j then value else data.getD j 0 := by
  simp only [List.getD_eq_getElem?_getD,List.getElem?_set,inside]
  split <;> rfl

theorem readWord_zero (data : List Byte) (i : Nat) (inside : i + 4 ≤ data.length) :
    ∃ word, readWord data i = some word ∧ (word = 0 ↔ ∀ k < 4, data.getD (i + k) 0 = 0) := by
  refine ⟨_,if_pos inside,?_⟩
  have length : (slot data i 4).length = 4 := slot_length data i 4 inside
  rw [readLE_eq_zero_iff 32 _ (by omega)]
  have byte : ∀ k, (slot data i 4).getD k 0 = if k < 4 then data.getD (i + k) 0 else 0 := by
    intro k
    simp only [slot,List.getD_eq_getElem?_getD,List.getElem?_take,List.getElem?_drop]
    split <;> rfl
  simp only [byte,ite_eq_right_iff]

theorem scanWords_spec (data : List Byte) (base count i : Nat) (inside : base + 4 * (i + count) ≤ data.length) :
    ∃ found, scanWords data base count i = some found ∧
      (found = true ↔ ∃ k, 4 * i ≤ k ∧ k < 4 * (i + count) ∧ data.getD (base + k) 0 ≠ 0) := by
  induction count generalizing i with
  | zero =>
    refine ⟨false,rfl,?_⟩
    simp only [Bool.false_eq_true,false_iff,not_exists]
    omega
  | succ count ih =>
    obtain ⟨word,read,zero⟩ := readWord_zero data (base + 4 * i) (by omega)
    obtain ⟨later,scanned,found⟩ := ih (i + 1) (by omega)
    rw [scanWords,read]
    by_cases empty : word = 0
    · refine ⟨later,by simp [empty,scanned],?_⟩
      rw [found]
      constructor
      · rintro ⟨k,low,high,marked⟩
        exact ⟨k,by omega,by omega,marked⟩
      · rintro ⟨k,low,high,marked⟩
        refine ⟨k,?_,by omega,marked⟩
        by_contra below
        have cleared := zero.mp empty (k - 4 * i) (by omega)
        rw [show base + 4 * i + (k - 4 * i) = base + k by omega] at cleared
        exact marked cleared
    · refine ⟨true,if_pos empty,?_⟩
      rw [zero] at empty
      push Not at empty
      obtain ⟨k,low,marked⟩ := empty
      simp only [true_iff]
      exact ⟨4 * i + k,by omega,by omega,by rwa [← Nat.add_assoc]⟩

theorem printBits_spec (base count i : Nat) (data : List Byte) (inside : base + i + count ≤ data.length) :
    ∃ after, printBits base count i data =
        some (after,(List.range count).map fun k => decide (data.getD (base + i + k) 0 ≠ 0)) ∧
      after.length = data.length ∧
      ∀ j, after.getD j 0 = if base + i ≤ j ∧ j < base + i + count then 0 else data.getD j 0 := by
  induction count generalizing i data with
  | zero =>
    refine ⟨data,rfl,rfl,fun j => ?_⟩
    rw [if_neg (by omega)]
  | succ count ih =>
    have here : base + i < data.length := by omega
    have read : data[base + i]? = some (data.getD (base + i) 0) := by simp [here]
    obtain ⟨next,cleared,length,bytes⟩ : ∃ next, clearVisited data (base + i) (data.getD (base + i) 0) = some next ∧
        next.length = data.length ∧ ∀ j, next.getD j 0 = if base + i = j then 0 else data.getD j 0 := by
      by_cases marked : data.getD (base + i) 0 ≠ 0
      · refine ⟨data.set (base + i) 0,?_,List.length_set,fun j => getD_set data _ j 0 here⟩
        rw [clearVisited,if_pos marked,writeByte,if_pos here]
      · refine ⟨data,if_neg marked,rfl,fun j => ?_⟩
        split
        · rename_i same
          exact same ▸ not_not.mp marked
        · rfl
    obtain ⟨after,printed,lengthAfter,bytesAfter⟩ := ih (i + 1) next (by omega)
    refine ⟨after,?_,lengthAfter.trans length,fun j => ?_⟩
    · have shifted : ((List.range count).map fun k => decide (next.getD (base + (i + 1) + k) 0 ≠ 0)) =
          (List.range count).map ((fun k => decide (data.getD (base + i + k) 0 ≠ 0)) ∘ Nat.succ) := by
        refine List.map_congr_left fun k _ => ?_
        rw [bytes,if_neg (by omega),Function.comp_apply,show base + (i + 1) + k = base + i + k.succ by omega]
      rw [printBits,read]
      simp only [Option.bind_eq_bind,Option.bind_some,cleared,printed,shifted,List.range_succ_eq_map,List.map_cons,
        List.map_map,Nat.add_zero]
      rfl
    · rw [bytesAfter,bytes]
      split_ifs <;> first | rfl | omega

theorem anyVisited_spec (data : List Byte) (base insnsSize : Nat)
    (inside : base + (4 * (insnsSize / 4) + 4) ≤ data.length) :
    ∃ found, anyVisited data base insnsSize = some found ∧
      (found = true ↔ ∃ k < 4 * (insnsSize / 4) + 4, data.getD (base + k) 0 ≠ 0) := by
  have here : base < data.length := by omega
  have read : data[base]? = some (data.getD base 0) := by simp [here]
  rw [anyVisited,read]
  by_cases first : data.getD base 0 = 0
  · obtain ⟨found,scanned,iff⟩ := scanWords_spec data base ((insnsSize >>> 2) + 1) 0
      (by rw [Nat.shiftRight_eq_div_pow]; omega)
    refine ⟨found,by simp only [Option.bind_eq_bind,Option.bind_some,if_pos first,scanned],?_⟩
    rw [iff,Nat.shiftRight_eq_div_pow]
    constructor
    · rintro ⟨k,-,high,marked⟩
      exact ⟨k,by omega,marked⟩
    · rintro ⟨k,high,marked⟩
      exact ⟨k,by omega,by omega,marked⟩
  · refine ⟨true,by simp only [Option.bind_eq_bind,Option.bind_some,if_neg first],?_⟩
    simp only [true_iff]
    exact ⟨0,by omega,first⟩

/-- A dump in a file that holds the code item stays in the array, clears the bytes in its reach and no other,
and prints a line if a byte in its window is marked. -/
theorem dumpCoverageData_spec (item : CodeItem) (data : List Byte) (code : item.codeOff ≠ 0)
    (inside : item.Inside data.length) :
    ∃ after line, dumpCoverageData item data = some (after,line) ∧ after.length = data.length ∧
      (∀ j, after.getD j 0 = if item.base ≤ j ∧ j < item.base + item.reach then 0 else data.getD j 0) ∧
      line = if item.reach ≠ 0 ∧ ∃ k < item.window, item.Marked data k
        then some ⟨item.insnsSizeInCodeUnits.setWidth 16,(List.range item.reach).map fun k =>
          decide (item.Marked data k)⟩
        else none := by
  have room : item.base + item.window ≤ data.length := Nat.le_trans item.window_stop inside
  unfold dumpCoverageData
  rw [if_neg code]
  dsimp only
  by_cases nothing : item.reach = 0
  · rw [if_pos (item.narrowed_eq_zero_iff.mpr nothing)]
    refine ⟨data,none,rfl,rfl,fun j => ?_,?_⟩
    · rw [if_neg (by omega)]
    · rw [if_neg fun both => both.1 nothing]
  rw [if_neg (mt item.narrowed_eq_zero_iff.mp nothing),item.reach_eq]
  obtain ⟨found,looked,iff⟩ := anyVisited_spec data item.base item.reach room
  obtain ⟨after,printed,length,bytes⟩ := printBits_spec item.base item.reach 0 data
    (by have := item.reach_lt_window; omega)
  rw [show item.codeOff.toNat = item.base from rfl,looked]
  cases found with
  | true =>
    refine ⟨after,some _,?_,length,bytes,(if_pos ⟨nothing,iff.mp rfl⟩).symm⟩
    simp only [Option.bind_eq_bind,Option.bind_some,Bool.not_true,Bool.false_eq_true,if_false,printed]
    rfl
  | false =>
    have clean : ∀ k < item.window, data.getD (item.base + k) 0 = 0 := by
      simpa [CodeItem.window] using iff
    refine ⟨data,none,rfl,rfl,fun j => ?_,?_⟩
    · split
      · rename_i covered
        have := item.reach_lt_window
        have zero := clean (j - item.base) (by omega)
        rwa [show item.base + (j - item.base) = j by omega] at zero
      · rfl
    · rw [if_neg]
      rintro ⟨-,k,bound,marked⟩
      exact marked (clean k bound)

theorem visitPc_spec (item : CodeItem) (dexPc : BitVec 32) (data : List Byte) (code : item.codeOff ≠ 0)
    (inside : item.Inside data.length) (valid : dexPc.toNat < item.size) :
    ∃ after, visitPc item dexPc data = some after ∧ after.length = data.length ∧
      ∀ j, after.getD j 0 = if item.base + dexPc.toNat = j then 1 else data.getD j 0 := by
  have here : item.base + dexPc.toNat < data.length := by
    unfold CodeItem.Inside CodeItem.stop at inside
    omega
  refine ⟨data.set (item.base + dexPc.toNat) 1,?_,List.length_set,fun j => getD_set data _ j 1 here⟩
  rw [visitPc,if_neg code]
  exact if_pos here

end Aatt
