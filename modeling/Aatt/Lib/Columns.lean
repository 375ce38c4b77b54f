import Mathlib.Data.Nat.Digits.Defs

/-! Texts of terminated lines with separated columns, and the digits of numbers in them. -/
namespace Aatt.Lib

universe u v
variable {α : Type u}

theorem column_inj {separator : α} {column other rest rest' : List α} (clean : separator ∉ column)
    (clean' : separator ∉ other) (same : column ++ separator :: rest = other ++ separator :: rest') :
    column = other ∧ rest = rest' := by
  induction column generalizing other with
  | nil =>
    cases other with
    | nil => exact ⟨rfl,(List.cons.inj same).2⟩
    | cons b other => exact absurd (List.cons.inj same).1 (List.ne_of_not_mem_cons clean')
  | cons a column ih =>
    cases other with
    | nil => exact absurd (List.cons.inj same).1 (List.ne_of_not_mem_cons clean).symm
    | cons b other =>
      obtain ⟨rfl,onward⟩ := List.cons.inj same
      obtain ⟨rfl,rest⟩ := ih (List.not_mem_of_not_mem_cons clean) (List.not_mem_of_not_mem_cons clean') onward
      exact ⟨rfl,rest⟩

theorem map_inj_of_mem {β : Type v} {f : α → β} {list list' : List α} (same : list.map f = list'.map f)
    (injective : ∀ a ∈ list, ∀ b ∈ list', f a = f b → a = b) : list = list' := by
  induction list generalizing list' with
  | nil => exact (List.map_eq_nil_iff.mp same.symm).symm
  | cons a list ih =>
    cases list' with
    | nil => exact absurd same (List.cons_ne_nil _ _)
    | cons b list' =>
      obtain ⟨first,rest⟩ := List.cons.inj same
      rw [injective a List.mem_cons_self b List.mem_cons_self first,
        ih rest fun x inside y inside' => injective x (List.mem_cons_of_mem a inside) y
          (List.mem_cons_of_mem b inside')]

def terminated (terminator : α) (lines : List (List α)) : List α := lines.flatMap (· ++ [terminator])

theorem terminated_cons (terminator : α) (line : List α) (lines : List (List α)) :
    terminated terminator (line :: lines) = line ++ terminator :: terminated terminator lines := by
  simp [terminated]

theorem terminated_append (terminator : α) (front back : List (List α)) :
    terminated terminator (front ++ back) = terminated terminator front ++ terminated terminator back :=
  List.flatMap_append

theorem terminated_inj {terminator : α} {lines lines' : List (List α)} (clean : ∀ line ∈ lines, terminator ∉ line)
    (clean' : ∀ line ∈ lines', terminator ∉ line)
    (same : terminated terminator lines = terminated terminator lines') : lines = lines' := by
  induction lines generalizing lines' with
  | nil =>
    cases lines' with
    | nil => rfl
    | cons line lines' => simp [terminated] at same
  | cons line lines ih =>
    cases lines' with
    | nil => simp [terminated] at same
    | cons line' lines' =>
      rw [List.forall_mem_cons] at clean clean'
      rw [terminated_cons,terminated_cons] at same
      obtain ⟨rfl,onward⟩ := column_inj clean.1 clean'.1 same
      rw [ih clean.2 clean'.2 onward]

theorem toDigits_cases {base : Nat} (large : 1 < base) (n : Nat) :
    (n < base ∧ base.toDigits n = [n.digitChar]) ∨
      base ≤ n ∧ base.toDigits n = base.toDigits (n / base) ++ [(n % base).digitChar] := by
  rcases Nat.lt_or_ge n base with below | above
  · exact .inl ⟨below,Nat.toDigits_of_lt_base below⟩
  · exact .inr ⟨above,Nat.toDigits_of_base_le large above⟩

theorem digitChar_inj {m n : Nat} (small : m < 16) (small' : n < 16) (same : m.digitChar = n.digitChar) : m = n := by
  have all : ∀ i < 16, ∀ j < 16, Nat.digitChar i = Nat.digitChar j → i = j := by decide +kernel
  exact all m small n small' same

theorem toDigits_inj {base : Nat} (large : 1 < base) (few : base ≤ 16) {m n : Nat}
    (same : base.toDigits m = base.toDigits n) : m = n := by
  induction m using Nat.strongRecOn generalizing n with
  | ind m ih =>
    have filled : ∀ k, base.toDigits k ≠ [] := fun k => by
      rcases toDigits_cases large k with ⟨-,shown⟩ | ⟨-,shown⟩ <;> rw [shown] <;> simp
    rcases toDigits_cases large m with ⟨below,shown⟩ | ⟨above,shown⟩ <;>
      rcases toDigits_cases large n with ⟨below',shown'⟩ | ⟨above',shown'⟩
    all_goals rw [shown,shown'] at same
    · exact digitChar_inj (by omega) (by omega) (List.cons.inj same).1
    · exact absurd (List.append_inj' ((List.nil_append _).trans same) rfl).1.symm (filled _)
    · exact absurd (List.append_inj' (same.trans (List.nil_append _).symm) rfl).1 (filled _)
    · obtain ⟨front,last⟩ := List.append_inj' same rfl
      have quotient := ih (m / base) (Nat.div_lt_self (by omega) large) front
      have remainder := digitChar_inj (Nat.lt_of_lt_of_le (Nat.mod_lt m (by omega)) few)
        (Nat.lt_of_lt_of_le (Nat.mod_lt n (by omega)) few) (List.cons.inj last).1
      rw [← Nat.div_add_mod m base,← Nat.div_add_mod n base,quotient,remainder]

theorem exists_digit_of_mem_toDigits {base : Nat} (large : 1 < base) {n : Nat} {c : Char}
    (member : c ∈ base.toDigits n) :
    ∃ digit < base, c = digit.digitChar := by
  induction n using Nat.strongRecOn with
  | ind n ih =>
    rcases toDigits_cases large n with ⟨below,shown⟩ | ⟨above,shown⟩
    all_goals rw [shown] at member
    · exact ⟨n,below,List.mem_singleton.mp member⟩
    · rcases List.mem_append.mp member with early | last
      · exact ih (n / base) (Nat.div_lt_self (by omega) large) early
      · exact ⟨n % base,Nat.mod_lt n (by omega),List.mem_singleton.mp last⟩

end Aatt.Lib
