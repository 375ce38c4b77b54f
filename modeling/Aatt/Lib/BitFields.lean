import Mathlib.Data.Nat.Bitwise

/-! Fields of a machine word: values of fixed widths, shifted to disjoint places and joined by `or`. -/
namespace Aatt.Lib

variable {w : Nat}

/-- The value has no bit at or above `width`. -/
def Narrow (width : Nat) (x : BitVec w) : Prop := x.toNat < 2 ^ width

instance (width : Nat) (x : BitVec w) : Decidable (Narrow width x) := inferInstanceAs (Decidable (_ < _))

theorem Narrow.bit {width : Nat} {x : BitVec w} (narrow : Narrow width x) {i : Nat} (above : width ≤ i) :
    x.getLsbD i = false :=
  Nat.testBit_lt_two_pow (narrow.trans_le (Nat.pow_le_pow_right (by decide) above))

/-- The bits of a word from `shift` on, as many as `width`. -/
def field (x : BitVec w) (shift width : Nat) : BitVec w := (x >>> shift) &&& BitVec.ofNat w (2 ^ width - 1)

theorem field_bit (x : BitVec w) (shift width i : Nat) :
    (field x shift width).getLsbD i = (x.getLsbD (shift + i) && (decide (i < w) && decide (i < width))) := by
  simp [field,BitVec.getLsbD_ofNat,Nat.testBit_two_pow_sub_one]

@[simp] theorem field_or (x y : BitVec w) (shift width : Nat) :
    field (x ||| y) shift width = field x shift width ||| field y shift width := by
  refine BitVec.eq_of_getLsbD_eq fun i _ => ?_
  rw [BitVec.getLsbD_or,field_bit,field_bit,field_bit,BitVec.getLsbD_or,Bool.and_or_distrib_right]

theorem field_self {x : BitVec w} {shift width : Nat} (narrow : Narrow width x) (inside : shift + width ≤ w) :
    field (x <<< shift) shift width = x := by
  refine BitVec.eq_of_getLsbD_eq fun i bound => ?_
  rw [field_bit,BitVec.getLsbD_shiftLeft]
  by_cases low : i < width
  · simp [low,bound,show shift + i < w by omega]
  · simp [low,narrow.bit (Nat.not_lt.mp low)]

theorem field_apart {x : BitVec w} {shift shift' width width' : Nat} (narrow : Narrow width' x)
    (apart : shift' + width' ≤ shift ∨ shift + width ≤ shift') : field (x <<< shift') shift width = 0#w := by
  refine BitVec.eq_of_getLsbD_eq fun i bound => ?_
  rw [field_bit,BitVec.getLsbD_shiftLeft,BitVec.getLsbD_zero]
  by_cases low : i < width
  · rcases apart with below | above
    · simp [narrow.bit (show width' ≤ shift + i - shift' by omega)]
    · simp [show shift + i < shift' by omega]
  · simp [low]

end Aatt.Lib
