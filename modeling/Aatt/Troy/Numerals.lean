import Aatt.Troy.JavaString

/-! Reading the parts of a line: array accesses, `Integer.parseInt` and the texts that `Float.parseFloat` accepts, after
their documentation. -/
namespace Aatt.Troy

open Aatt.Lib

/-- What the reading of a line can throw. -/
inductive Exception where
  | arrayIndexOutOfBounds
  | illegalArgument
  | numberFormat
  deriving DecidableEq, Repr

/-- `cmds[i]`. -/
def part (cmds : List JavaString) (i : Nat) : Except Exception JavaString :=
  match cmds[i]? with
  | some text => .ok text
  | none => .error .arrayIndexOutOfBounds

@[simp] theorem part_eq_ok {cmds : List JavaString} {i : Nat} {text : JavaString} :
    part cmds i = .ok text ↔ cmds[i]? = some text := by
  unfold part
  cases cmds[i]? <;> simp

@[simp] theorem bind_eq_ok {α β : Type} (result : Except Exception α) (next : α → Except Exception β) (final : β) :
    result >>= next = .ok final ↔ ∃ value, result = .ok value ∧ next value = .ok final := by
  cases result with
  | error e => exact ⟨nofun,nofun⟩
  | ok value => exact ⟨fun done => ⟨value,rfl,done⟩,fun ⟨other,same,done⟩ => Except.ok.inj same ▸ done⟩

@[simp] theorem map_eq_ok {α β : Type} (result : Except Exception α) (f : α → β) (final : β) :
    f <$> result = .ok final ↔ ∃ value, result = .ok value ∧ f value = final := by
  cases result with
  | error e => exact ⟨nofun,nofun⟩
  | ok value => exact ⟨fun done => ⟨value,rfl,Except.ok.inj done⟩,fun ⟨other,same,done⟩ =>
    by cases same; rw [← done]; rfl⟩

/-- The zeros of the decimal digits among the `char` values. -/
def digitZeros : List Nat :=
  [0x0030,0x0660,0x06F0,0x07C0,0x0966,0x09E6,0x0A66,0x0AE6,0x0B66,0x0BE6,0x0C66,0x0CE6,0x0D66,0x0DE6,
    0x0E50,0x0ED0,0x0F20,0x1040,0x1090,0x17E0,0x1810,0x1946,0x19D0,0x1A80,0x1A90,0x1B50,0x1BB0,0x1C40,0x1C50,
    0xA620,0xA8D0,0xA900,0xA9D0,0xA9F0,0xAA50,0xABF0,0xFF10]

/-- `Character.digit(c, 10)`. -/
def digit (c : UInt16) : Option Nat :=
  (digitZeros.find? fun first => first ≤ c.toNat && c.toNat ≤ first + 9).map (c.toNat - ·)

def plus : UInt16 := 43

def minus : UInt16 := 45

def splitSign (text : JavaString) : Int × JavaString :=
  match text with
  | [] => (1,[])
  | c :: rest => if c = minus then (-1,rest) else if c = plus then (1,rest) else (1,c :: rest)

def digitsValue (text : JavaString) : Option Nat := text.foldlM (fun value c => (digit c).map (10 * value + ·)) 0

/-- `Integer.parseInt(text)`. -/
def parseInt (text : JavaString) : Except Exception Int :=
  let (sign,digits) := splitSign text
  if digits = [] then .error .numberFormat
  else match digitsValue digits with
    | none => .error .numberFormat
    | some value =>
      if -2 ^ 31 ≤ sign * value ∧ sign * value < 2 ^ 31 then .ok (sign * value) else .error .numberFormat

def isDecimal (c : UInt16) : Bool := c ∈ units "0123456789"

def isHexadecimal (c : UInt16) : Bool := c ∈ units "0123456789abcdefABCDEF"

/-- The end of a literal: nothing or a `FloatTypeSuffix`. -/
def floatEnd (text : JavaString) : Bool := text = [] || text ∈ [units "f",units "F",units "d",units "D"]

/-- A `SignedInteger` and the end of the literal. -/
def exponentEnd (text : JavaString) : Bool :=
  let digits := (splitSign text).2
  (digits.takeWhile isDecimal) ≠ [] && floatEnd (digits.dropWhile isDecimal)

/-- Digits with at most one point in them and at least one digit, and what is behind them. -/
def significand (isDigit : UInt16 → Bool) (text : JavaString) : Option JavaString :=
  let whole := text.takeWhile isDigit
  match text.dropWhile isDigit with
  | [] => if whole ≠ [] then some [] else none
  | c :: rest =>
    if units "." = [c] then
      if whole ≠ [] || rest.takeWhile isDigit ≠ [] then some (rest.dropWhile isDigit) else none
    else if whole ≠ [] then some (c :: rest) else none

def decimalLiteral (text : JavaString) : Bool :=
  match significand isDecimal text with
  | none => false
  | some [] => true
  | some (c :: rest) => if c ∈ units "eE" then exponentEnd rest else floatEnd (c :: rest)

def hexLiteral (text : JavaString) : Bool :=
  text.take 2 ∈ [units "0x",units "0X"] &&
    match significand isHexadecimal (text.drop 2) with
    | some (c :: rest) => c ∈ units "pP" && exponentEnd rest
    | _ => false

/-- `text.trim()`. -/
def trim (text : JavaString) : JavaString :=
  ((text.dropWhile (· ≤ 32)).reverse.dropWhile (· ≤ 32)).reverse

/-- `Float.parseFloat(text)` does not throw. -/
def floatLiteral (text : JavaString) : Bool :=
  let unsigned := (splitSign (trim text)).2
  unsigned ∈ [units "NaN",units "Infinity"] || decimalLiteral unsigned || hexLiteral unsigned

/-- A text that `parseInt` accepts, with its value. -/
structure IntNumeral where
  text : JavaString
  value : Int
  parsed : parseInt text = .ok value

theorem digits_of_foldlM {text : JavaString} {start value : Nat}
    (read : text.foldlM (fun value c => (digit c).map (10 * value + ·)) start = some value) :
    ∀ c ∈ text, (digit c).isSome = true := by
  induction text generalizing start with
  | nil => nofun
  | cons c rest ih =>
    rw [List.foldlM_cons] at read
    obtain ⟨next,first,onward⟩ := Option.bind_eq_some_iff.mp read
    obtain ⟨d,shown,-⟩ := Option.map_eq_some_iff.mp first
    intro other member
    rcases List.mem_cons.mp member with rfl | later
    · rw [shown]
      rfl
    · exact ih onward other later

theorem mem_splitSign {text : JavaString} {c : UInt16} (member : c ∈ text) :
    c = minus ∨ c = plus ∨ c ∈ (splitSign text).2 := by
  cases text with
  | nil => nomatch member
  | cons first rest =>
    simp only [splitSign]
    split_ifs with negative positive
    · exact (List.mem_cons.mp member).imp (·.trans negative) .inr
    · exact .inr ((List.mem_cons.mp member).imp (·.trans positive) id)
    · exact .inr (.inr member)

theorem parseInt_ok {text : JavaString} {value : Int} (parsed : parseInt text = .ok value) :
    ∃ n : Nat, digitsValue (splitSign text).2 = some n ∧ value = (splitSign text).1 * n := by
  simp only [parseInt] at parsed
  split_ifs at parsed
  split at parsed
  · nomatch parsed
  · rename_i n read
    split_ifs at parsed
    exact ⟨n,read,(Except.ok.inj parsed).symm⟩

theorem IntNumeral.digits (numeral : IntNumeral) {c : UInt16} (member : c ∈ numeral.text) :
    c = minus ∨ c = plus ∨ (digit c).isSome = true := by
  obtain ⟨n,read,-⟩ := parseInt_ok numeral.parsed
  exact (mem_splitSign member).imp id (Or.imp id (digits_of_foldlM read c))

theorem IntNumeral.foreign (numeral : IntNumeral) {c : UInt16}
    (other : ¬ (c = minus ∨ c = plus ∨ (digit c).isSome = true)) : c ∉ numeral.text :=
  fun member => other (numeral.digits member)

theorem IntNumeral.filled (numeral : IntNumeral) : numeral.text ≠ [] := by
  intro empty
  have parsed := numeral.parsed
  rw [empty] at parsed
  nomatch parsed

theorem digitsValue_repr (n : Nat) : digitsValue (units n.repr) = some n := by
  have printed : ∀ d < 10, digit (UInt16.ofNat (Nat.digitChar d).toNat) = some d := by decide
  rw [units,Nat.repr_eq_ofList_toDigits,String.toList_ofList]
  induction n using Nat.strongRecOn with
  | ind n ih =>
    rcases toDigits_cases (show 1 < 10 by decide) n with ⟨below,shown⟩ | ⟨above,shown⟩
    · simp [digitsValue,shown,printed n below]
    · have front := ih (n / 10) (Nat.div_lt_self (by omega) (by decide))
      rw [digitsValue] at front
      rw [shown,digitsValue,List.map_append,List.foldlM_append,front]
      simp [printed (n % 10) (Nat.mod_lt n (by decide))]
      omega

theorem repr_ne_nil (n : Nat) : units n.repr ≠ [] := by
  simp [units]

theorem splitSign_repr (n : Nat) : splitSign (units n.repr) = (1,units n.repr) := by
  obtain ⟨c,rest,shown⟩ := List.exists_cons_of_ne_nil (repr_ne_nil n)
  have first := digits_of_foldlM (digitsValue_repr n) c (by rw [shown]; exact List.mem_cons_self)
  have unsigned : c ≠ minus ∧ c ≠ plus := by
    constructor <;> rintro rfl <;> revert first <;> decide
  rw [shown,splitSign,if_neg unsigned.1,if_neg unsigned.2]

theorem parseInt_of_repr {text : JavaString} {sign value : Int} {n : Nat} (parts : splitSign text = (sign,units n.repr))
    (total : sign * n = value) (low : -2 ^ 31 ≤ value) (high : value < 2 ^ 31) : parseInt text = .ok value := by
  simp only [parseInt,parts,if_neg (repr_ne_nil n),digitsValue_repr,total,if_pos (And.intro low high)]

/-- `parseInt` reads back what an `int` is printed as. -/
theorem parseInt_intText (n : Int) (low : -2 ^ 31 ≤ n) (high : n < 2 ^ 31) : parseInt (intText n) = .ok n := by
  have shown : intText n = units n.repr := rfl
  rw [shown,Int.repr_eq_if]
  split_ifs with sign
  · exact parseInt_of_repr (splitSign_repr n.toNat) (by omega) low high
  · have parts : splitSign (units ("-" ++ (-n).toNat.repr)) = (-1,units (-n).toNat.repr) := by
      rw [units_append]
      rfl
    exact parseInt_of_repr parts (by omega) low high

def IntNumeral.ofInt (n : Int) (low : -2 ^ 31 ≤ n) (high : n < 2 ^ 31) : IntNumeral :=
    ⟨intText n,n,parseInt_intText n low high⟩

end Aatt.Troy
