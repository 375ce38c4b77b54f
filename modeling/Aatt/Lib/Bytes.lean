import Mathlib.Algebra.Order.Ring.Nat
import Mathlib.Data.List.Basic
import Mathlib.Data.List.GetD
import Mathlib.Data.List.TakeDrop

/-! Byte buffers, single-byte stores and little-endian words. A multi-byte store is
the list of its byte stores, so that one definition serves an atomic and a
byte-by-byte writer. -/
namespace Aatt.Lib

abbrev Byte := BitVec 8

abbrev Store := Nat × Byte

def writeStores (buffer : List Byte) (stores : List Store) : List Byte :=
  stores.foldl (fun bytes store => bytes.set store.1 store.2) buffer

/-- The `n` bytes of the buffer from offset `start` on. -/
def slot (buffer : List Byte) (start n : Nat) : List Byte := (buffer.drop start).take n

/-- The low `n` bytes of a word, least significant first. -/
def wordBytes (n : Nat) (value : BitVec w) : List Byte :=
  (List.range n).map fun i => (value >>> (8 * i)).setWidth 8

/-- The byte stores of the low `n` bytes of a word, least significant byte first. -/
def littleEndian (n offset : Nat) (value : BitVec w) : List Store :=
  (List.range n).map fun i => (offset + i,(value >>> (8 * i)).setWidth 8)

/-- The word whose bytes, least significant first, are given. -/
def readLE (w : Nat) : List Byte → BitVec w
  | [] => 0
  | byte :: rest => byte.setWidth w ||| (readLE w rest) <<< 8

/-- The first `n` consecutive blocks of the given size. -/
def blocks (size n : Nat) (bytes : List Byte) : List (List Byte) :=
  (List.range n).map fun i => slot bytes (size * i) size

def shiftStores (start : Nat) (stores : List Store) : List Store :=
  stores.map fun store => (start + store.1,store.2)

@[simp] theorem writeStores_nil (buffer : List Byte) : writeStores buffer [] = buffer := rfl

@[simp] theorem writeStores_cons (buffer : List Byte) (store : Store) (rest : List Store) :
    writeStores buffer (store :: rest) = writeStores (buffer.set store.1 store.2) rest := rfl

theorem writeStores_append (buffer : List Byte) (front back : List Store) :
    writeStores buffer (front ++ back) = writeStores (writeStores buffer front) back :=
  List.foldl_append

@[simp] theorem writeStores_length (buffer : List Byte) (stores : List Store) :
    (writeStores buffer stores).length = buffer.length := by
  induction stores generalizing buffer with
  | nil => rfl
  | cons store rest ih => simp [ih]

@[simp] theorem shiftStores_cons (start : Nat) (store : Store) (rest : List Store) :
    shiftStores start (store :: rest) = (start + store.1,store.2) :: shiftStores start rest := rfl

theorem slot_length (buffer : List Byte) (start n : Nat) (inside : start + n ≤ buffer.length) :
    (slot buffer start n).length = n := by
  simp only [slot,List.length_take,List.length_drop]
  omega

theorem slot_set_inside (buffer : List Byte) (start n i : Nat) (byte : Byte) :
    slot (buffer.set (start + i) byte) start n = (slot buffer start n).set i byte := by
  simp only [slot,List.drop_set]
  rw [if_neg (by omega),Nat.add_sub_cancel_left,List.take_set]

theorem slot_set_outside (buffer : List Byte) (start n i : Nat) (byte : Byte)
    (apart : i < start ∨ start + n ≤ i) : slot (buffer.set i byte) start n = slot buffer start n := by
  simp only [slot,List.drop_set]
  split
  · rfl
  · rw [List.take_set,List.set_eq_of_length_le]
    simp only [List.length_take,List.length_drop]
    omega

theorem slot_writeStores_inside (buffer : List Byte) (start n : Nat) (stores : List Store) :
    slot (writeStores buffer (shiftStores start stores)) start n =
      writeStores (slot buffer start n) stores := by
  induction stores generalizing buffer with
  | nil => rfl
  | cons store rest ih => simp [ih,slot_set_inside]

theorem slot_writeStores_outside (buffer : List Byte) (start n : Nat) (stores : List Store)
    (apart : ∀ store ∈ stores, store.1 < start ∨ start + n ≤ store.1) :
    slot (writeStores buffer stores) start n = slot buffer start n := by
  induction stores generalizing buffer with
  | nil => rfl
  | cons store rest ih =>
    rw [writeStores_cons,ih _ (fun other member => apart other (List.mem_cons_of_mem _ member)),
      slot_set_outside _ _ _ _ _ (apart store List.mem_cons_self)]

theorem take_add_slot (buffer : List Byte) (start n : Nat) :
    buffer.take (start + n) = buffer.take start ++ slot buffer start n := List.take_add

theorem blocks_succ (size n : Nat) (bytes : List Byte) :
    blocks size (n + 1) bytes = blocks size n bytes ++ [slot bytes (size * n) size] := by
  simp [blocks,List.range_succ]

theorem blocks_flatten (size n : Nat) (bytes : List Byte) :
    (blocks size n bytes).flatten = bytes.take (size * n) := by
  induction n with
  | zero => simp [blocks]
  | succ n ih => rw [blocks_succ,List.flatten_append,ih,List.flatten_singleton,Nat.mul_succ,take_add_slot]

theorem blocks_of_flatten (size : Nat) (records : List (List Byte))
    (sized : ∀ record ∈ records, record.length = size) :
    blocks size records.length records.flatten = records := by
  induction records with
  | nil => rfl
  | cons record rest ih =>
    have first := sized record List.mem_cons_self
    have later := ih fun other member => sized other (List.mem_cons_of_mem _ member)
    have shifted : ∀ i, slot (record ++ rest.flatten) (size * (i + 1)) size = slot rest.flatten (size * i) size := by
      intro i
      rw [slot,slot,Nat.mul_succ,Nat.add_comm,← List.drop_drop,← first,List.drop_left]
    rw [List.flatten_cons,List.length_cons,blocks,List.range_succ_eq_map,List.map_cons,List.map_map]
    congr 1
    · simp [slot,← first]
    · exact (List.map_congr_left fun i _ => shifted i).trans later

theorem flatten_length (size : Nat) (records : List (List Byte))
    (sized : ∀ record ∈ records, record.length = size) : records.flatten.length = size * records.length := by
  induction records with
  | nil => simp
  | cons record rest ih =>
    rw [List.flatten_cons,List.length_append,sized record List.mem_cons_self,List.length_cons,Nat.mul_succ,
      ih fun other member => sized other (List.mem_cons_of_mem _ member),Nat.add_comm]

theorem getLsbD_readLE (w : Nat) (bytes : List Byte) (i : Nat) :
    (readLE w bytes).getLsbD i = (decide (i < w) && (bytes.getD (i / 8) 0).getLsbD (i % 8)) := by
  induction bytes generalizing i with
  | nil => simp [readLE]
  | cons byte rest ih =>
    simp only [readLE,BitVec.getLsbD_or,BitVec.getLsbD_setWidth,BitVec.getLsbD_shiftLeft,ih]
    by_cases low : i < 8
    · simp [low,Nat.div_eq_of_lt low,Nat.mod_eq_of_lt low]
    · have high : byte.getLsbD i = false := BitVec.getLsbD_of_ge _ _ (by omega)
      have quotient : i / 8 = (i - 8) / 8 + 1 := by omega
      have remainder : i % 8 = (i - 8) % 8 := by omega
      simp only [low,high,quotient,remainder,List.getD_cons_succ]
      grind

theorem readLE_eq_zero_iff (w : Nat) (bytes : List Byte) (fits : 8 * bytes.length ≤ w) :
    readLE w bytes = 0 ↔ ∀ k, bytes.getD k 0 = 0 := by
  constructor
  · intro zero k
    by_cases inside : k < bytes.length
    · apply BitVec.eq_of_getLsbD_eq
      intro i bound
      have position : 8 * k + i < w := by omega
      have bit : (readLE w bytes).getLsbD (8 * k + i) = false := by simp [zero]
      rw [getLsbD_readLE,Nat.mul_add_div (by decide),Nat.mul_add_mod,Nat.div_eq_of_lt bound,Nat.mod_eq_of_lt bound,
        Nat.add_zero] at bit
      simpa [position] using bit
    · rw [List.getD_eq_default _ _ (Nat.le_of_not_lt inside)]
  · intro zero
    apply BitVec.eq_of_getLsbD_eq
    intro i bound
    rw [getLsbD_readLE,zero]
    simp

theorem slot_add (buffer : List Byte) (start m n : Nat) :
    slot buffer start (m + n) = slot buffer start m ++ slot buffer (start + m) n := by
  simp only [slot,List.take_add,List.drop_drop]

@[simp] theorem wordBytes_length (n : Nat) (value : BitVec w) : (wordBytes n value).length = n := by
  simp [wordBytes]

theorem wordBytes_getD (n : Nat) (value : BitVec w) (i : Nat) (inside : i < n) :
    (wordBytes n value).getD i 0 = (value >>> (8 * i)).setWidth 8 := by
  simp [wordBytes,List.getD_eq_getElem?_getD,List.getElem?_map,List.getElem?_range inside]

theorem readLE_wordBytes_low (n : Nat) (value : BitVec w) :
    readLE (8 * n) (wordBytes n value) = value.setWidth (8 * n) := by
  apply BitVec.eq_of_getLsbD_eq
  intro i bound
  rw [getLsbD_readLE,wordBytes_getD n value (i / 8) (by omega)]
  simp [bound,Nat.mod_lt,Nat.div_add_mod]

theorem readLE_wordBytes (n : Nat) (value : BitVec w) (width : w = 8 * n) :
    readLE w (wordBytes n value) = value := by
  subst width
  rw [readLE_wordBytes_low,BitVec.setWidth_eq]

theorem wordBytes_succ (n : Nat) (value : BitVec w) :
    wordBytes (n + 1) value = wordBytes n value ++ [(value >>> (8 * n)).setWidth 8] := by
  simp [wordBytes,List.range_succ]

theorem slot_wordBytes_front (n m : Nat) (value : BitVec w) (le : m ≤ n) :
    slot (wordBytes n value) 0 m = wordBytes m value := by
  simp [slot,wordBytes,← List.map_take,List.take_range,Nat.min_eq_left le]

theorem slot_slot (buffer : List Byte) (start n k m : Nat) (inside : k + m ≤ n) :
    slot (slot buffer start n) k m = slot buffer (start + k) m := by
  simp only [slot,List.drop_take,List.drop_drop,List.take_take]
  rw [Nat.min_eq_left (by omega)]

theorem writeStores_littleEndian (n : Nat) (value : BitVec w) (bytes : List Byte)
    (fits : n ≤ bytes.length) :
    writeStores bytes (littleEndian n 0 value) = wordBytes n value ++ bytes.drop n := by
  induction n with
  | zero => simp [littleEndian,wordBytes]
  | succ n ih =>
    have last : littleEndian (n + 1) 0 value =
        littleEndian n 0 value ++ [(n,(value >>> (8 * n)).setWidth 8)] := by
      simp [littleEndian,List.range_succ]
    rw [last,writeStores_append,ih (by omega),wordBytes_succ,writeStores_cons,writeStores_nil,
      List.set_append_right _ _ (by simp),wordBytes_length,Nat.sub_self,
      List.drop_eq_getElem_cons (show n < bytes.length by omega),List.set_cons_zero,
      List.append_assoc,List.singleton_append]

theorem writeStores_behind (front bytes : List Byte) (stores : List Store) :
    writeStores (front ++ bytes) (shiftStores front.length stores) = front ++ writeStores bytes stores := by
  induction stores generalizing bytes with
  | nil => rfl
  | cons store rest ih =>
    rw [shiftStores_cons,writeStores_cons,writeStores_cons,List.set_append_right _ _ (Nat.le_add_right _ _),
      Nat.add_sub_cancel_left,ih]

theorem littleEndian_shift (n offset : Nat) (value : BitVec w) :
    littleEndian n offset value = shiftStores offset (littleEndian n 0 value) := by
  simp [littleEndian,shiftStores,List.map_map,Function.comp_def]

theorem slot_littleEndian (buffer : List Byte) (n offset k m : Nat) (value : BitVec w)
    (fits : offset + n ≤ buffer.length) (inside : k + m ≤ n) :
    slot (writeStores buffer (littleEndian n offset value)) (offset + k) m =
      slot (wordBytes n value) k m := by
  rw [← slot_slot _ _ n _ _ inside,littleEndian_shift,slot_writeStores_inside,
    writeStores_littleEndian _ _ _ (Nat.le_of_eq (slot_length _ _ _ fits).symm),
    List.drop_eq_nil_of_le (Nat.le_of_eq (slot_length _ _ _ fits)),List.append_nil]

theorem slot_littleEndian_front (buffer : List Byte) (n offset m : Nat) (value : BitVec w)
    (fits : offset + n ≤ buffer.length) (le : m ≤ n) :
    slot (writeStores buffer (littleEndian n offset value)) offset m = wordBytes m value := by
  have covered := slot_littleEndian buffer n offset 0 m value fits (by omega)
  rwa [slot_wordBytes_front n m value le,Nat.add_zero] at covered

/-- The stores into a buffer whose bytes carry the number of the store sequence that they come from, if any. -/
def writeLabelled (label : Nat) (buffer : List (Byte × Option Nat)) (stores : List Store) : List (Byte × Option Nat) :=
  stores.foldl (fun bytes store => bytes.set store.1 (store.2,some label)) buffer

theorem writeLabelled_cons (label : Nat) (buffer : List (Byte × Option Nat)) (store : Store) (rest : List Store) :
    writeLabelled label buffer (store :: rest) = writeLabelled label (buffer.set store.1 (store.2,some label))
      rest := rfl

theorem writeLabelled_erase (label : Nat) (buffer : List (Byte × Option Nat)) (stores : List Store) :
    (writeLabelled label buffer stores).map Prod.fst = writeStores (buffer.map Prod.fst) stores := by
  induction stores generalizing buffer with
  | nil => rfl
  | cons store rest ih => rw [writeLabelled_cons,ih,List.map_set,writeStores_cons]

theorem writeLabelled_label (label : Nat) (buffer : List (Byte × Option Nat)) (stores : List Store) (i : Nat) :
    (writeLabelled label buffer stores)[i]?.map Prod.snd =
      if ∃ store ∈ stores, store.1 = i then buffer[i]?.map fun _ => some label else buffer[i]?.map Prod.snd := by
  induction stores generalizing buffer with
  | nil => simp [writeLabelled]
  | cons store rest ih =>
    rw [writeLabelled_cons,ih,List.getElem?_set]
    by_cases here : store.1 = i
    · subst here
      by_cases inside : store.1 < buffer.length <;> simp [inside]
    · simp [here]

/-- Every store falls in the half-open range of offsets. -/
def StoresIn (low high : Nat) (stores : List Store) : Prop :=
  ∀ store ∈ stores, low ≤ store.1 ∧ store.1 < high

theorem StoresIn.append {low high : Nat} {front back : List Store} (first : StoresIn low high front)
    (second : StoresIn low high back) : StoresIn low high (front ++ back) := by
  intro store member
  rcases List.mem_append.mp member with m | m
  · exact first store m
  · exact second store m

theorem storesIn_littleEndian (low high n offset : Nat) (value : BitVec w) (above : low ≤ offset)
    (below : offset + n ≤ high) : StoresIn low high (littleEndian n offset value) := by
  intro store member
  simp only [littleEndian,List.mem_map,List.mem_range] at member
  obtain ⟨i,bound,rfl⟩ := member
  exact ⟨by simp only; omega,by simp only; omega⟩

theorem StoresIn.shift {size : Nat} {stores : List Store} (inside : StoresIn 0 size stores) (start : Nat) :
    StoresIn start (start + size) (shiftStores start stores) := by
  intro store member
  obtain ⟨original,origin,rfl⟩ := List.mem_map.mp member
  have := inside original origin
  simp only
  omega

theorem slot_storesIn (buffer : List Byte) (start n low high : Nat) (stores : List Store)
    (within : StoresIn low high stores) (apart : high ≤ start ∨ start + n ≤ low) :
    slot (writeStores buffer stores) start n = slot buffer start n := by
  refine slot_writeStores_outside buffer start n stores fun store member => ?_
  have := within store member
  omega

theorem writeStores_word (front bytes : List Byte) (n offset : Nat) (value : BitVec w) (behind : front.length = offset)
    (fits : n ≤ bytes.length) :
    writeStores (front ++ bytes) (littleEndian n offset value) = (front ++ wordBytes n value) ++ bytes.drop n := by
  rw [littleEndian_shift,← behind,writeStores_behind,writeStores_littleEndian n value bytes fits,List.append_assoc]

theorem blocks_writeStores (size n k : Nat) (buffer : List Byte) {stores : List Store}
    (inside : StoresIn 0 size stores) :
    blocks size n (writeStores buffer (shiftStores (size * k) stores)) =
      (blocks size n buffer).set k (writeStores (slot buffer (size * k) size) stores) := by
  apply List.ext_getElem
  · simp [blocks]
  · intro i bound _
    rw [List.getElem_set]
    simp only [blocks,List.getElem_map,List.getElem_range]
    split_ifs with same
    · rw [← same,slot_writeStores_inside]
    · refine slot_storesIn _ _ _ _ _ _ (inside.shift (size * k)) ?_
      rcases Nat.lt_or_gt_of_ne same with before | behind
      · exact .inl (by rw [← Nat.mul_succ]; exact Nat.mul_le_mul_left size before)
      · exact .inr (by rw [← Nat.mul_succ]; exact Nat.mul_le_mul_left size behind)

theorem readLE_stored (buffer : List Byte) (front rest : List Store) (n offset high : Nat) (value : BitVec w)
    (width : w = 8 * n) (fits : offset + n ≤ buffer.length)
    (after : StoresIn (offset + n) high rest) :
    readLE w (slot (writeStores buffer (front ++ (littleEndian n offset value ++ rest))) offset n) =
      value := by
  rw [writeStores_append,writeStores_append,slot_storesIn _ _ _ _ _ _ after (.inr (Nat.le_refl _))]
  rw [slot_littleEndian_front _ _ _ _ _ (by simpa using fits) (Nat.le_refl n),
    readLE_wordBytes n value width]

theorem readLE_stored_last (buffer : List Byte) (front : List Store) (n offset : Nat) (value : BitVec w)
    (width : w = 8 * n) (fits : offset + n ≤ buffer.length) :
    readLE w (slot (writeStores buffer (front ++ littleEndian n offset value)) offset n) = value := by
  have read := readLE_stored buffer front [] n offset 0 value width fits
    (fun store member => absurd member List.not_mem_nil)
  rwa [List.append_nil] at read

theorem readLE_append (m w : Nat) (low : BitVec v) (bytes : List Byte) :
    readLE (w + 8 * m) (wordBytes m low ++ bytes) = readLE w bytes ++ low.setWidth (8 * m) := by
  apply BitVec.eq_of_getLsbD_eq
  intro i bound
  rw [getLsbD_readLE,BitVec.getLsbD_append]
  by_cases below : i < 8 * m
  · have index : i / 8 < m := by omega
    rw [List.getD_append _ _ _ _ (by simpa using index),wordBytes_getD m low _ index]
    simp [below,bound,Nat.mod_lt,Nat.div_add_mod]
  · have index : (i - 8 * m) / 8 = i / 8 - m := by omega
    have bit : (i - 8 * m) % 8 = i % 8 := by omega
    have inside : i - 8 * m < w := by omega
    rw [List.getD_append_right _ _ _ _ (by simp only [wordBytes_length]; omega),wordBytes_length,if_neg below,
      getLsbD_readLE,index,bit]
    simp [bound,inside]

theorem slot_wordBytes_back (k m : Nat) (value : BitVec w) :
    slot (wordBytes (k + m) value) k m = wordBytes m (value >>> (8 * k)) := by
  apply List.ext_getElem
  · simp [slot]
  · intro i _ _
    simp [slot,wordBytes,Nat.mul_add,BitVec.shiftRight_add]

end Aatt.Lib
