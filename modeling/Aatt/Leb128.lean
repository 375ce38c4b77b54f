import Mathlib.Tactic.Ring
import Mathlib.Tactic.LinearCombination
import Mathlib.Tactic.IntervalCases
import Mathlib.Logic.Function.Basic
import Aatt.Lib.Bytes

/-! LEB128 numbers, as dex files hold them: seven bits a byte, the lowest first, and the high bit set in all bytes but
the last. The decoders are unrolled and read at most five bytes. -/
namespace Aatt.Dex

open Aatt.Lib

/-- The bytes at addresses relative to the beginning of a dex file. -/
abbrev Memory := Nat → Byte

def decodeUnsignedLeb128 (mem : Memory) (ptr : Nat) : BitVec 32 × Nat :=
  let result := (mem ptr).setWidth 32
  if result ≤ 0x7f then (result,ptr + 1) else
  let cur := (mem (ptr + 1)).setWidth 32
  let result := (result &&& 0x7f) ||| (cur &&& 0x7f) <<< 7
  if cur ≤ 0x7f then (result,ptr + 2) else
  let cur := (mem (ptr + 2)).setWidth 32
  let result := result ||| (cur &&& 0x7f) <<< 14
  if cur ≤ 0x7f then (result,ptr + 3) else
  let cur := (mem (ptr + 3)).setWidth 32
  let result := result ||| (cur &&& 0x7f) <<< 21
  if cur ≤ 0x7f then (result,ptr + 4) else
  let cur := (mem (ptr + 4)).setWidth 32
  (result ||| cur <<< 28,ptr + 5)

def decodeSignedLeb128 (mem : Memory) (ptr : Nat) : BitVec 32 × Nat :=
  let result := (mem ptr).setWidth 32
  if result ≤ 0x7f then ((result <<< 25).sshiftRight 25,ptr + 1) else
  let cur := (mem (ptr + 1)).setWidth 32
  let result := (result &&& 0x7f) ||| (cur &&& 0x7f) <<< 7
  if cur ≤ 0x7f then ((result <<< 18).sshiftRight 18,ptr + 2) else
  let cur := (mem (ptr + 2)).setWidth 32
  let result := result ||| (cur &&& 0x7f) <<< 14
  if cur ≤ 0x7f then ((result <<< 11).sshiftRight 11,ptr + 3) else
  let cur := (mem (ptr + 3)).setWidth 32
  let result := result ||| (cur &&& 0x7f) <<< 21
  if cur ≤ 0x7f then ((result <<< 4).sshiftRight 4,ptr + 4) else
  let cur := (mem (ptr + 4)).setWidth 32
  (result ||| cur <<< 28,ptr + 5)

/-- The loop of `EncodeUnsignedLeb128`. -/
def encodeUnsignedLoop (out : Byte) (value : BitVec 32) : List Byte :=
  if value = 0 then [out]
  else (out ||| 0x80) :: encodeUnsignedLoop ((value &&& 0x7f).setWidth 8) (value >>> 7)
  termination_by value.toNat
  decreasing_by
    rename_i more
    have positive : 0 < value.toNat := Nat.pos_of_ne_zero fun zero => more (BitVec.eq_of_toNat_eq zero)
    rw [BitVec.toNat_ushiftRight,Nat.shiftRight_eq_div_pow]
    omega

def encodeUnsignedLeb128 (value : BitVec 32) : List Byte :=
  encodeUnsignedLoop ((value &&& 0x7f).setWidth 8) (value >>> 7)

/-- The loop of `EncodeSignedLeb128`. -/
def encodeSignedLoop (out : Byte) (value extraBits : BitVec 32) : List Byte :=
  if extraBits = 0 then [out]
  else (out ||| 0x80) ::
    encodeSignedLoop ((value.sshiftRight 7 &&& 0x7f).setWidth 8) (value.sshiftRight 7) (extraBits >>> 7)
  termination_by extraBits.toNat
  decreasing_by
    rename_i more
    have positive : 0 < extraBits.toNat := Nat.pos_of_ne_zero fun zero => more (BitVec.eq_of_toNat_eq zero)
    rw [BitVec.toNat_ushiftRight,Nat.shiftRight_eq_div_pow]
    omega

def encodeSignedLeb128 (value : BitVec 32) : List Byte :=
  encodeSignedLoop ((value &&& 0x7f).setWidth 8) value ((value ^^^ value.sshiftRight 31) >>> 6)

/-- `CLZ` of a number that is not 0. -/
def clz (x : BitVec 32) : Nat := 31 - x.toNat.log2

def unsignedLeb128Size (data : BitVec 32) : Nat := ((6 + 32 - clz (data ||| 1)) * 37) >>> 8

def signedLeb128Size (data : BitVec 32) : Nat :=
  ((1 + 6 + 32 - clz ((data ^^^ data.sshiftRight 31) ||| 1)) * 37) >>> 8

/-- The number of bytes of the LEB128 number at `ptr`, if it may have `n`. -/
def lebLength (mem : Memory) : Nat → Nat → Nat
  | 0,_ => 0
  | n + 1,ptr => if (mem ptr).toNat < 128 ∨ n = 0 then 1 else 1 + lebLength mem n (ptr + 1)

/-- The number with the low seven bits of `n` bytes as digits. -/
def payload (mem : Memory) : Nat → Nat → Nat
  | _,0 => 0
  | ptr,n + 1 => (mem ptr).toNat % 128 + 128 * payload mem (ptr + 1) n

theorem low_toNat (b : Byte) : (b.setWidth 32 &&& 0x7f).toNat = b.toNat % 128 := by
  have narrow := b.isLt
  rw [BitVec.toNat_and,BitVec.toNat_setWidth,Nat.mod_eq_of_lt (by omega)]
  exact Nat.and_two_pow_sub_one_eq_mod b.toNat 7

theorem join_toNat (result digit : BitVec 32) (shift : Nat) (inside : shift ≤ 32) (low : result.toNat < 2 ^ shift) :
    (result ||| digit <<< shift).toNat = result.toNat + digit.toNat * 2 ^ shift % 2 ^ 32 := by
  have split : 2 ^ 32 = 2 ^ shift * 2 ^ (32 - shift) := by rw [← Nat.pow_add,Nat.add_sub_cancel' inside]
  rw [BitVec.toNat_or,BitVec.toNat_shiftLeft,Nat.shiftLeft_eq,Nat.mul_comm digit.toNat,split,Nat.mul_mod_mul_left,
    Nat.or_comm,
    ← Nat.two_pow_add_eq_or_of_lt low,Nat.add_comm]

/-- The joined low bits of the first bytes, as both decoders build them. -/
def joined (mem : Memory) (ptr : Nat) : Nat → BitVec 32
  | 0 => (mem ptr).setWidth 32 &&& 0x7f
  | n + 1 => joined mem ptr n ||| ((mem (ptr + (n + 1))).setWidth 32 &&& 0x7f) <<< (7 * (n + 1))

theorem payload_succ (mem : Memory) (ptr n : Nat) :
    payload mem ptr (n + 1) = payload mem ptr n + (mem (ptr + n)).toNat % 128 * 128 ^ n := by
  induction n generalizing ptr with
  | zero => simp [payload]
  | succ n ih =>
    rw [payload,ih (ptr + 1),payload,Nat.add_right_comm ptr 1 n,Nat.add_assoc ptr n 1]
    ring

theorem payload_lt (mem : Memory) (ptr n : Nat) : payload mem ptr n < 128 ^ n := by
  induction n generalizing ptr with
  | zero => exact Nat.one_pos
  | succ n ih =>
    have rest := ih (ptr + 1)
    rw [payload,Nat.pow_succ]
    omega

theorem joined_toNat (mem : Memory) (ptr n : Nat) (short : n < 4) :
    (joined mem ptr n).toNat = payload mem ptr (n + 1) := by
  induction n with
  | zero => exact (low_toNat (mem ptr)).trans (by simp [payload])
  | succ n ih =>
    have before := ih (by omega)
    have bound : payload mem ptr (n + 1) < 2 ^ (7 * (n + 1)) := by
      rw [Nat.pow_mul]
      exact payload_lt mem ptr (n + 1)
    have digit : (mem (ptr + (n + 1))).toNat % 128 * 2 ^ (7 * (n + 1)) < 2 ^ 32 := by
      calc (mem (ptr + (n + 1))).toNat % 128 * 2 ^ (7 * (n + 1))
          < 2 ^ 7 * 2 ^ (7 * (n + 1)) := Nat.mul_lt_mul_of_pos_right (Nat.mod_lt _ (by decide)) (by positivity)
        _ = 2 ^ (7 + 7 * (n + 1)) := (Nat.pow_add ..).symm
        _ ≤ 2 ^ 32 := Nat.pow_le_pow_right (by decide) (by omega)
    rw [joined,join_toNat _ _ _ (by omega) (before ▸ bound),before,low_toNat,Nat.mod_eq_of_lt digit,
      payload_succ mem ptr (n + 1),
      Nat.pow_mul 2 7]

theorem lebLength_le (mem : Memory) (n ptr : Nat) : lebLength mem n ptr ≤ n := by
  induction n generalizing ptr with
  | zero => exact Nat.le_refl 0
  | succ n ih =>
    have rest := ih (ptr + 1)
    rw [lebLength]
    split <;> omega

theorem small_iff (b : Byte) : b.setWidth 32 ≤ 0x7f ↔ b.toNat < 128 := by
  have narrow := b.isLt
  rw [BitVec.le_def,BitVec.toNat_setWidth,Nat.mod_eq_of_lt (by omega)]
  exact Nat.lt_succ_iff.symm

theorem setWidth_small {b : Byte} (small : b.toNat < 128) : b.setWidth 32 = b.setWidth 32 &&& 0x7f := by
  refine BitVec.eq_of_toNat_eq ?_
  rw [low_toNat,BitVec.toNat_setWidth]
  omega

theorem lebLength_cases (mem : Memory) (ptr : Nat) :
    (mem ptr).toNat < 128 ∧ lebLength mem 5 ptr = 1 ∨ ¬ (mem ptr).toNat < 128 ∧
    ((mem (ptr + 1)).toNat < 128 ∧ lebLength mem 5 ptr = 2 ∨ ¬ (mem (ptr + 1)).toNat < 128 ∧
    ((mem (ptr + 2)).toNat < 128 ∧ lebLength mem 5 ptr = 3 ∨ ¬ (mem (ptr + 2)).toNat < 128 ∧
    ((mem (ptr + 3)).toNat < 128 ∧ lebLength mem 5 ptr = 4 ∨ ¬ (mem (ptr + 3)).toNat < 128 ∧
      lebLength mem 5 ptr = 5))) := by
  by_cases first : (mem ptr).toNat < 128
  · exact .inl ⟨first,by simp [lebLength,first]⟩
  refine .inr ⟨first,?_⟩
  by_cases second : (mem (ptr + 1)).toNat < 128
  · exact .inl ⟨second,by simp [lebLength,first,second]⟩
  refine .inr ⟨second,?_⟩
  by_cases third : (mem (ptr + 2)).toNat < 128
  · exact .inl ⟨third,by simp [lebLength,first,second,third]⟩
  refine .inr ⟨third,?_⟩
  by_cases fourth : (mem (ptr + 3)).toNat < 128
  · exact .inl ⟨fourth,by simp [lebLength,first,second,third,fourth]⟩
  · exact .inr ⟨fourth,by simp [lebLength,first,second,third,fourth]⟩

theorem decodeUnsigned_eq (mem : Memory) (ptr : Nat) : decodeUnsignedLeb128 mem ptr =
    (BitVec.ofNat 32 (payload mem ptr (lebLength mem 5 ptr)),ptr + lebLength mem 5 ptr) := by
  have value (n : Nat) (short : n < 4) : joined mem ptr n = BitVec.ofNat 32 (payload mem ptr (n + 1)) := by
    rw [← joined_toNat mem ptr n short,BitVec.ofNat_toNat,BitVec.setWidth_eq]
  have last : joined mem ptr 3 ||| (mem (ptr + 4)).setWidth 32 <<< 28 = BitVec.ofNat 32 (payload mem ptr 5) := by
    have narrow := (mem (ptr + 4)).isLt
    have low := payload_lt mem ptr 4
    have before : (joined mem ptr 3).toNat = payload mem ptr 4 := joined_toNat mem ptr 3 (by decide)
    refine BitVec.eq_of_toNat_eq ?_
    rw [join_toNat _ _ _ (by decide) (before ▸ low),before,payload_succ mem ptr 4,BitVec.toNat_setWidth,
      BitVec.toNat_ofNat]
    omega
  simp only [decodeUnsignedLeb128,small_iff]
  rcases lebLength_cases mem ptr with ⟨ends,l⟩ | ⟨first,⟨ends,l⟩ | ⟨second,⟨ends,l⟩ | ⟨third,⟨ends,l⟩ | ⟨fourth,l⟩⟩⟩⟩
  · rw [if_pos ends,l,← value 0 (by decide)]
    exact congrArg (·,_) (setWidth_small ends)
  · rw [if_neg first,if_pos ends,l,← value 1 (by decide)]
    rfl
  · rw [if_neg first,if_neg second,if_pos ends,l,← value 2 (by decide)]
    rfl
  · rw [if_neg first,if_neg second,if_neg third,if_pos ends,l,← value 3 (by decide)]
    rfl
  · rw [if_neg first,if_neg second,if_neg third,if_neg fourth,l,← last]
    rfl

theorem decodeSigned_eq (mem : Memory) (ptr : Nat) : decodeSignedLeb128 mem ptr =
    (((decodeUnsignedLeb128 mem ptr).1 <<< (32 - 7 * lebLength mem 5 ptr)).sshiftRight (32 - 7 * lebLength mem 5 ptr),
      (decodeUnsignedLeb128 mem ptr).2) := by
  simp only [decodeUnsignedLeb128,decodeSignedLeb128,small_iff]
  rcases lebLength_cases mem ptr with ⟨ends,l⟩ | ⟨first,⟨ends,l⟩ | ⟨second,⟨ends,l⟩ | ⟨third,⟨ends,l⟩ | ⟨fourth,l⟩⟩⟩⟩
  · simp only [if_pos ends,l]
  · simp only [if_neg first,if_pos ends,l]
  · simp only [if_neg first,if_neg second,if_pos ends,l]
  · simp only [if_neg first,if_neg second,if_neg third,if_pos ends,l]
  · simp [if_neg first,if_neg second,if_neg third,if_neg fourth,l]

theorem extend_toInt (x : BitVec 32) (length : Nat) (positive : 0 < length) (short : length ≤ 5) :
    ((x <<< (32 - 7 * length)).sshiftRight (32 - 7 * length)).toInt =
      Int.bmod (Int.bmod x.toNat (128 ^ length)) (2 ^ 32) := by
  have narrow := x.isLt
  rw [BitVec.toInt_sshiftRight,BitVec.toInt_shiftLeft]
  interval_cases length
  all_goals simp [Int.shiftRight_eq_div_pow,Nat.shiftLeft_eq,Int.bmod_def]
  all_goals omega

/-- The bytes lie in memory from `ptr` on. -/
def Holds (mem : Memory) : Nat → List Byte → Prop
  | _,[] => True
  | ptr,b :: rest => mem ptr = b ∧ Holds mem (ptr + 1) rest

/-- Writes bytes from `ptr` on. -/
def store (mem : Memory) : Nat → List Byte → Memory
  | _,[] => mem
  | ptr,b :: rest => store (Function.update mem ptr b) (ptr + 1) rest

theorem store_outside (mem : Memory) (ptr a : Nat) (bytes : List Byte) (apart : a < ptr ∨ ptr + bytes.length ≤ a) :
    store mem ptr bytes a = mem a := by
  induction bytes generalizing mem ptr with
  | nil => rfl
  | cons b rest ih =>
    rw [List.length_cons] at apart
    rw [store,ih _ _ (by omega),Function.update_of_ne (by omega)]

theorem holds_store (mem : Memory) (ptr : Nat) (bytes : List Byte) : Holds (store mem ptr bytes) ptr bytes := by
  induction bytes generalizing mem ptr with
  | nil => trivial
  | cons b rest ih =>
    refine ⟨?_,ih _ _⟩
    rw [store,store_outside _ _ _ _ (.inl (Nat.lt_succ_self ptr)),Function.update_self]

theorem holds_append (mem : Memory) (ptr : Nat) (front back : List Byte) :
    Holds mem ptr (front ++ back) ↔ Holds mem ptr front ∧ Holds mem (ptr + front.length) back := by
  induction front generalizing ptr with
  | nil => simp [Holds]
  | cons b rest ih =>
    simp only [List.cons_append,Holds,ih,List.length_cons,and_assoc,Nat.add_assoc,Nat.add_comm 1]

theorem store_append (mem : Memory) (ptr : Nat) (front back : List Byte) :
    store mem ptr (front ++ back) = store (store mem ptr front) (ptr + front.length) back := by
  induction front generalizing mem ptr with
  | nil => rfl
  | cons b rest ih => rw [List.cons_append,store,ih,store,List.length_cons,Nat.add_assoc,Nat.add_comm 1]

theorem store_inside (mem mem' : Memory) {ptr a : Nat} {bytes : List Byte} (first : ptr ≤ a)
    (last : a < ptr + bytes.length) :
    store mem ptr bytes a = store mem' ptr bytes a := by
  induction bytes generalizing mem mem' ptr with
  | nil => exact absurd last (Nat.not_lt.mpr first)
  | cons b rest ih =>
    rw [List.length_cons] at last
    by_cases same : a = ptr
    · rw [store,store,store_outside _ _ _ _ (by omega),store_outside _ _ _ _ (by omega),same,Function.update_self,
        Function.update_self]
    · exact ih _ _ (by omega) (by omega)

theorem store_comm (mem : Memory) {p q : Nat} {front back : List Byte} (apart : p + front.length ≤ q) :
    store (store mem p front) q back = store (store mem q back) p front := by
  funext a
  by_cases before : a < p
  · rw [store_outside _ _ _ _ (by omega),store_outside _ _ _ _ (by omega),store_outside _ _ _ _ (by omega),
      store_outside _ _ _ _ (by omega)]
  by_cases inFront : a < p + front.length
  · rw [store_outside _ _ _ _ (by omega),store_inside mem (store mem q back) (by omega) inFront]
  rw [store_outside (store mem q back) _ _ _ (by omega)]
  by_cases inBack : q ≤ a ∧ a < q + back.length
  · exact store_inside _ _ inBack.1 inBack.2
  · rw [store_outside _ _ _ _ (by omega),store_outside _ _ _ _ (by omega),store_outside _ _ _ _ (by omega)]

theorem digit_toNat (value : BitVec 32) : ((value &&& 0x7f).setWidth 8).toNat = value.toNat % 128 := by
  have low : value.toNat &&& 127 = value.toNat % 128 := Nat.and_two_pow_sub_one_eq_mod value.toNat 7
  rw [BitVec.toNat_setWidth,BitVec.toNat_and]
  show (value.toNat &&& 127) % 256 = value.toNat % 128
  omega

theorem continued_toNat {out : Byte} (narrow : out.toNat < 128) : (out ||| 0x80).toNat = out.toNat + 128 := by
  have joined := Nat.two_pow_add_eq_or_of_lt (i := 7) narrow 1
  rw [BitVec.toNat_or,Nat.or_comm]
  exact joined.symm.trans (Nat.add_comm ..)

theorem shift_toNat (value : BitVec 32) : (value >>> 7).toNat = value.toNat / 128 := by
  rw [BitVec.toNat_ushiftRight,Nat.shiftRight_eq_div_pow]

/-- What the loop writes is read back, as far as `n + 1` bytes are enough for it. -/
theorem unsignedLoop_spec (mem : Memory) (n ptr : Nat) (out : Byte) (value : BitVec 32) (narrow : out.toNat < 128)
    (bound : out.toNat + 128 * value.toNat < 128 ^ (n + 1)) (holds : Holds mem ptr (encodeUnsignedLoop out value)) :
    lebLength mem (n + 1) ptr = (encodeUnsignedLoop out value).length ∧
      payload mem ptr (encodeUnsignedLoop out value).length = out.toNat + 128 * value.toNat := by
  induction n generalizing ptr out value with
  | zero =>
    obtain rfl : value = 0 := BitVec.eq_of_toNat_eq (show value.toNat = 0 by omega)
    rw [encodeUnsignedLoop,if_pos rfl] at holds ⊢
    obtain ⟨rfl,-⟩ := holds
    simp [lebLength,payload,Nat.mod_eq_of_lt narrow]
  | succ n ih =>
    rw [encodeUnsignedLoop] at holds ⊢
    split at holds
    next zero =>
      rw [if_pos zero]
      obtain ⟨rfl,-⟩ := holds
      simp [lebLength,payload,narrow,Nat.mod_eq_of_lt narrow,zero]
    next more =>
      rw [if_neg more]
      obtain ⟨first,rest⟩ := holds
      have digit := digit_toNat value
      have shift := shift_toNat value
      have byte : (mem ptr).toNat = out.toNat + 128 := by rw [first,continued_toNat narrow]
      obtain ⟨length,number⟩ := ih (ptr + 1) _ (value >>> 7) (by omega) (by rw [Nat.pow_succ] at bound; omega) rest
      refine ⟨?_,?_⟩
      · rw [lebLength,if_neg (by omega),length,List.length_cons,Nat.add_comm]
      · rw [List.length_cons,payload,number,byte]
        omega

theorem unsignedLoop_size (out : Byte) (value : BitVec 32) (narrow : out.toNat < 128) :
    ((encodeUnsignedLoop out value).length = 1 ∨
      128 ^ ((encodeUnsignedLoop out value).length - 1) ≤ out.toNat + 128 * value.toNat) ∧
    out.toNat + 128 * value.toNat < 128 ^ (encodeUnsignedLoop out value).length := by
  induction out, value using encodeUnsignedLoop.induct with
  | case1 out =>
    rw [encodeUnsignedLoop,if_pos rfl]
    simpa using narrow
  | case2 out value more ih =>
    have digit := digit_toNat value
    have shift := shift_toNat value
    have positive : 0 < value.toNat := Nat.pos_of_ne_zero fun zero => more (BitVec.eq_of_toNat_eq zero)
    obtain ⟨least,most⟩ := ih (by omega)
    rw [encodeUnsignedLoop,if_neg more,List.length_cons,Nat.pow_succ,Nat.add_sub_cancel]
    refine ⟨.inr ?_,by omega⟩
    rcases least with one | least
    · rw [one]
      omega
    · obtain ⟨k,length⟩ : ∃ k, (encodeUnsignedLoop ((value &&& 0x7f).setWidth 8) (value >>> 7)).length = k + 1 := by
        rw [encodeUnsignedLoop]
        split <;> exact ⟨_,rfl⟩
      rw [length,Nat.add_sub_cancel] at least
      rw [length,Nat.pow_succ]
      omega

/-- What `value ^ (value >> 31)` is. -/
def magnitude (z : Int) : Nat := if 0 ≤ z then z.toNat else (-z - 1).toNat

theorem magnitude_toNat (value : BitVec 32) : (value ^^^ value.sshiftRight 31).toNat = magnitude value.toInt := by
  have narrow := value.isLt
  have number := BitVec.toInt_eq_toNat_cond value
  have sign : (value.sshiftRight 31).toInt = value.toInt / 2147483648 := by
    rw [BitVec.toInt_sshiftRight,Int.shiftRight_eq_div_pow]
    rfl
  unfold magnitude
  split at number
  next small =>
    have unsigned : value.sshiftRight 31 = 0 := BitVec.eq_of_toInt_eq (sign.trans (show _ = (0 : Int) by omega))
    rw [unsigned,if_pos (by omega)]
    show (value ^^^ 0#32).toNat = _
    rw [BitVec.xor_zero]
    omega
  next large =>
    have all : value.sshiftRight 31 = BitVec.allOnes 32 :=
      BitVec.eq_of_toInt_eq (sign.trans (show _ = (-1 : Int) by omega))
    rw [all,BitVec.xor_allOnes,BitVec.toNat_not,if_neg (by omega)]
    omega

theorem signed_digit_toNat (value : BitVec 32) : (((value &&& 0x7f).setWidth 8).toNat : Int) = value.toInt % 128 := by
  rw [digit_toNat,BitVec.toInt_eq_toNat_cond]
  split <;> omega

theorem sshiftRight_toInt (value : BitVec 32) : (value.sshiftRight 7).toInt = value.toInt / 128 := by
  rw [BitVec.toInt_sshiftRight,Int.shiftRight_eq_div_pow]
  rfl

theorem signedLoop_spec (mem : Memory) (n ptr : Nat) (out : Byte) (value extraBits : BitVec 32)
    (digit : (out.toNat : Int) = value.toInt % 128) (extra : extraBits.toNat = magnitude value.toInt / 64)
    (bound : magnitude value.toInt < 64 * 128 ^ n) (holds : Holds mem ptr (encodeSignedLoop out value extraBits)) :
    ∃ (length : Nat) (q : Int), (encodeSignedLoop out value extraBits).length = length + 1 ∧
      lebLength mem (n + 1) ptr = length + 1 ∧
      (payload mem ptr (length + 1) : Int) = value.toInt + q * 128 ^ (length + 1) ∧
      magnitude value.toInt < 64 * 128 ^ length ∧ (length = 0 ∨ 64 * 128 ^ (length - 1) ≤ magnitude value.toInt) := by
  have narrow : out.toNat < 128 := by omega
  induction n generalizing ptr out value extraBits with
  | zero =>
    obtain rfl : extraBits = 0 := BitVec.eq_of_toNat_eq (show extraBits.toNat = 0 by omega)
    rw [encodeSignedLoop,if_pos rfl] at holds ⊢
    obtain ⟨rfl,-⟩ := holds
    refine ⟨0,-(value.toInt / 128),rfl,by simp [lebLength],?_,bound,.inl rfl⟩
    simp only [payload]
    omega
  | succ n ih =>
    rw [encodeSignedLoop] at holds ⊢
    split at holds
    next zero =>
      rw [if_pos zero]
      obtain ⟨rfl,-⟩ := holds
      have small : extraBits.toNat = 0 := by rw [zero]; rfl
      refine ⟨0,-(value.toInt / 128),rfl,by simp [lebLength,narrow],?_,by omega,.inl rfl⟩
      simp only [payload]
      omega
    next more =>
      rw [if_neg more]
      obtain ⟨first,rest⟩ := holds
      have positive : 0 < extraBits.toNat := Nat.pos_of_ne_zero fun zero => more (BitVec.eq_of_toNat_eq zero)
      have shifted := sshiftRight_toInt value
      have smaller : magnitude (value.sshiftRight 7).toInt = magnitude value.toInt / 128 := by
        rw [shifted,magnitude,magnitude]
        split <;> split <;> omega
      have byte : (mem ptr).toNat = out.toNat + 128 := by rw [first,continued_toNat narrow]
      obtain ⟨length,q,size,read,number,most,least⟩ := ih (ptr + 1) _ (value.sshiftRight 7) (extraBits >>> 7)
        (signed_digit_toNat _) (by rw [shift_toNat,smaller]; omega)
          (by rw [smaller]; rw [Nat.pow_succ] at bound; omega) rest
        (by rw [digit_toNat]; omega)
      refine ⟨length + 1,q,by rw [List.length_cons,size],?_,?_,?_,.inr ?_⟩
      · rw [lebLength,if_neg (by omega),read,Nat.add_comm]
      · rw [payload,byte]
        push_cast
        rw [number,shifted,pow_succ (128 : Int) (length + 1)]
        have whole := Int.emod_add_mul_ediv value.toInt 128
        have low : ((out.toNat : Int) + 128) % 128 = out.toNat := by omega
        rw [low,digit]
        linear_combination whole
      · rw [smaller] at most
        rw [Nat.pow_succ]
        omega
      · rw [smaller] at least
        rcases least with rfl | least
        · simp only [Nat.zero_add,Nat.sub_self,Nat.pow_zero]
          omega
        · cases length with
          | zero => omega
          | succ j =>
            simp only [Nat.add_sub_cancel,Nat.pow_succ] at least ⊢
            omega

theorem size_eq (bits length : Nat) (least : 7 * (length - 1) ≤ bits) (most : bits < 7 * length) (small : bits < 32) :
    ((7 + bits) * 37) >>> 8 = length := by
  rw [Nat.shiftRight_eq_div_pow]
  have : length ≤ 5 := by omega
  interval_cases length <;> omega

theorem size_of_bounds (x : BitVec 32) (extra : Nat) {length : Nat} (positive : 0 < length) (one : extra ≤ 1)
    (narrow : x.toNat < 2 ^ (32 - extra)) (most : x.toNat < 2 ^ (7 * length - extra))
    (least : length = 1 ∨ 2 ^ (7 * (length - 1) - extra) ≤ x.toNat) :
    ((extra + 6 + 32 - clz (x ||| 1)) * 37) >>> 8 = length := by
  have lower : x.toNat ≤ (x ||| 1).toNat := by
    rw [BitVec.toNat_or]
    exact Nat.left_le_or
  have upper (k : Nat) (more : 0 < k) (below : x.toNat < 2 ^ k) : (x ||| 1).toNat < 2 ^ k := by
    rw [BitVec.toNat_or]
    exact Nat.or_lt_two_pow below (Nat.one_lt_two_pow (by omega))
  have positive : (x ||| 1).toNat ≠ 0 := by
    rw [BitVec.toNat_or]
    have odd : 1 ≤ x.toNat ||| (1#32).toNat := Nat.right_le_or
    exact Nat.ne_of_gt odd
  have short := (Nat.log2_lt positive).mpr (upper (32 - extra) (by omega) narrow)
  have high := (Nat.log2_lt positive).mpr (upper (7 * length - extra) (by omega) most)
  have low : 7 * (length - 1) - extra ≤ (x ||| 1).toNat.log2 := by
    rcases least with rfl | least
    · omega
    · exact (Nat.le_log2 positive).mpr (least.trans lower)
  rw [← size_eq ((x ||| 1).toNat.log2 + extra) length (by omega) (by omega) (by omega),clz]
  congr 2
  omega

theorem unsignedSize_eq (value : BitVec 32) : unsignedLeb128Size value = (encodeUnsignedLeb128 value).length := by
  have digit := digit_toNat value
  have shift := shift_toNat value
  obtain ⟨least,most⟩ := unsignedLoop_size _ (value >>> 7) (show ((value &&& 0x7f).setWidth 8).toNat < 128 by omega)
  have whole : ((value &&& 0x7f).setWidth 8).toNat + 128 * (value >>> 7).toNat = value.toNat := by omega
  have positive : 0 < (encodeUnsignedLeb128 value).length := by
    rw [encodeUnsignedLeb128,encodeUnsignedLoop]
    split <;> exact Nat.succ_pos _
  have power (k : Nat) : 128 ^ k = 2 ^ (7 * k) := by rw [Nat.pow_mul]
  rw [whole,power] at least most
  have size := size_of_bounds value 0 positive (by decide) value.isLt most least
  rwa [Nat.zero_add] at size

theorem unsigned_round_trip (mem : Memory) (ptr : Nat) (value : BitVec 32)
    (holds : Holds mem ptr (encodeUnsignedLeb128 value)) :
    decodeUnsignedLeb128 mem ptr = (value,ptr + (encodeUnsignedLeb128 value).length) := by
  have narrow := value.isLt
  have digit := digit_toNat value
  have shift := shift_toNat value
  have whole : ((value &&& 0x7f).setWidth 8).toNat + 128 * (value >>> 7).toNat = value.toNat := by omega
  obtain ⟨length,number⟩ := unsignedLoop_spec mem 4 ptr _ (value >>> 7) (by omega) (by omega) holds
  rw [decodeUnsigned_eq,length,number,whole,BitVec.ofNat_toNat,BitVec.setWidth_eq]
  rfl

theorem signed_value {z q : Int} {p length : Nat} (short : length ≤ 4) (word : -2147483648 ≤ z ∧ z < 2147483648)
    (digits : p < 128 ^ (length + 1)) (most : magnitude z < 64 * 128 ^ length)
    (number : (p : Int) = z + q * 128 ^ (length + 1)) :
    Int.bmod (Int.bmod (BitVec.ofNat 32 p).toNat (128 ^ (length + 1))) (2 ^ 32) = z := by
  rw [BitVec.toNat_ofNat]
  unfold magnitude at most
  interval_cases length
  all_goals simp only [Int.bmod_def]
  all_goals split at most <;> omega

theorem magnitude_lt (value : BitVec 32) : magnitude value.toInt < 2 ^ 31 := by
  have word : -2147483648 ≤ value.toInt ∧ value.toInt < 2147483648 := ⟨BitVec.le_toInt value,BitVec.toInt_lt⟩
  unfold magnitude
  split <;> omega

theorem signedSize_eq (value : BitVec 32) : signedLeb128Size value = (encodeSignedLeb128 value).length := by
  have large := magnitude_lt value
  have extra : ((value ^^^ value.sshiftRight 31) >>> 6).toNat = magnitude value.toInt / 64 := by
    rw [BitVec.toNat_ushiftRight,magnitude_toNat,Nat.shiftRight_eq_div_pow]
  obtain ⟨length,q,size,-,-,most,least⟩ := signedLoop_spec (store (fun _ => 0) 0 (encodeSignedLeb128 value))
    4 0 _ value _
    (signed_digit_toNat value) extra (by omega) (holds_store ..)
  have power (k : Nat) : 64 * 128 ^ k = 2 ^ (7 * k + 6) := by
    rw [Nat.pow_add,Nat.pow_mul,Nat.mul_comm]
  refine Eq.trans ?_ size.symm
  refine size_of_bounds _ 1 (Nat.succ_pos length) (Nat.le_refl 1) (by rw [magnitude_toNat]; exact large) ?_ ?_
  · rw [magnitude_toNat]
    exact power length ▸ most
  · rw [magnitude_toNat]
    refine least.imp (fun zero => by omega) fun more => ?_
    rw [power] at more
    cases length with
    | zero => omega
    | succ length => exact more

theorem signed_round_trip (mem : Memory) (ptr : Nat) (value : BitVec 32)
    (holds : Holds mem ptr (encodeSignedLeb128 value)) :
    decodeSignedLeb128 mem ptr = (value,ptr + (encodeSignedLeb128 value).length) := by
  have word : -2147483648 ≤ value.toInt ∧ value.toInt < 2147483648 := ⟨BitVec.le_toInt value,BitVec.toInt_lt⟩
  have large := magnitude_lt value
  have extra : ((value ^^^ value.sshiftRight 31) >>> 6).toNat = magnitude value.toInt / 64 := by
    rw [BitVec.toNat_ushiftRight,magnitude_toNat,Nat.shiftRight_eq_div_pow]
  obtain ⟨length,q,size,read,number,most,-⟩ := signedLoop_spec mem 4 ptr _ value _ (signed_digit_toNat value) extra
    (by omega) holds
  have short := lebLength_le mem (4 + 1) ptr
  have extended := extend_toInt (BitVec.ofNat 32 (payload mem ptr (length + 1))) (length + 1) (Nat.succ_pos length)
    (by omega)
  rw [signed_value (by omega) word (payload_lt mem ptr (length + 1)) most number] at extended
  rw [decodeSigned_eq,decodeUnsigned_eq,read,encodeSignedLeb128,size]
  exact congrArg (·,_) (BitVec.eq_of_toInt_eq extended)

theorem unsigned_length_le (value : BitVec 32) : (encodeUnsignedLeb128 value).length ≤ 5 := by
  have read := congrArg Prod.snd (unsigned_round_trip _ 0 value (holds_store (fun _ => 0) 0 _))
  have short := lebLength_le (store (fun _ => 0) 0 (encodeUnsignedLeb128 value)) 5 0
  rw [decodeUnsigned_eq] at read
  omega

theorem signed_length_le (value : BitVec 32) : (encodeSignedLeb128 value).length ≤ 5 := by
  have read := congrArg Prod.snd (signed_round_trip _ 0 value (holds_store (fun _ => 0) 0 _))
  have short := lebLength_le (store (fun _ => 0) 0 (encodeSignedLeb128 value)) 5 0
  rw [decodeSigned_eq,decodeUnsigned_eq] at read
  omega

/-- Of every number, written at every address: the decoders read back what `EncodeUnsignedLeb128` and
`EncodeSignedLeb128` have written and stop at its end, which is where `UnsignedLeb128Size` and `SignedLeb128Size`
say. -/
theorem leb128_round_trip (mem : Memory) (ptr : Nat) (value : BitVec 32) :
    decodeUnsignedLeb128 (store mem ptr (encodeUnsignedLeb128 value)) ptr = (value,ptr + unsignedLeb128Size value) ∧
    decodeSignedLeb128 (store mem ptr (encodeSignedLeb128 value)) ptr = (value,ptr + signedLeb128Size value) := by
  have unsigned := unsigned_round_trip _ ptr value (holds_store mem ptr (encodeUnsignedLeb128 value))
  have signed := signed_round_trip _ ptr value (holds_store mem ptr (encodeSignedLeb128 value))
  rw [unsignedSize_eq,signedSize_eq]
  exact ⟨unsigned,signed⟩

end Aatt.Dex
