import Aatt.Lib.Columns
import Aatt.Lib.Separators

/-! Java strings as their UTF-16 code units, and the operations on them that the test driver uses. -/
namespace Aatt.Troy

open Aatt.Lib

abbrev JavaString := List UInt16

/-- The code units of a literal; all literals of the driver are ASCII. -/
def units (literal : String) : JavaString := literal.toList.map fun c => UInt16.ofNat c.toNat

/-- An `int` in a string concatenation. -/
def intText (n : Int) : JavaString := units (toString n)

/-- A `boolean` in a string concatenation. -/
def booleanText (b : Bool) : JavaString := units (if b then "true" else "false")

/-- `text.substring(text.indexOf(word))`, for a word that occurs in the text. -/
def fromFirst (word : JavaString) : JavaString → JavaString
  | [] => []
  | c :: rest => if word <+: c :: rest then c :: rest else fromFirst word rest

/-- The parts of a text, without the empty ones at its end. -/
def dropTrailingEmpty (parts : List JavaString) : List JavaString := (parts.reverse.dropWhile List.isEmpty).reverse

/-- `text.split(sep)` for a literal separator: the text itself if the separator does not occur in it. -/
def split (sep text : JavaString) : List JavaString :=
  if sep <:+: text then dropTrailingEmpty (splitAll sep text) else [text]

theorem mem_dropTrailingEmpty {parts : List JavaString} {text : JavaString} (member : text ∈ dropTrailingEmpty parts) :
    text ∈ parts :=
  List.mem_reverse.mp ((List.dropWhile_suffix _).subset (List.mem_reverse.mp member))

theorem dropTrailingEmpty_append (front parts : List JavaString) {last : JavaString} (filled : last ≠ []) :
    dropTrailingEmpty (front ++ [last] ++ parts) = front ++ [last] ++ dropTrailingEmpty parts := by
  have stays : (front ++ [last]).reverse.dropWhile List.isEmpty = (front ++ [last]).reverse := by
    simp [filled]
  unfold dropTrailingEmpty
  rw [List.reverse_append,List.dropWhile_append,stays]
  split_ifs with empty
  · rw [List.isEmpty_iff.mp empty]
    simp
  · simp

theorem split_behind {c : UInt16} {init : List JavaString} {last : JavaString}
    (foreign : ∀ field ∈ init ++ [last], c ∉ field) (filled : last ≠ []) (text : JavaString) :
    split [c] ([c].intercalate (init ++ [last] ++ [text])) = init ++ [last] ++
      dropTrailingEmpty (splitAll [c] text) := by
  have pieces : splitAll [c] ([c].intercalate (init ++ [last] ++ [text])) = init ++ [last] ++ splitAll [c] text := by
    refine splitAll_behind (List.cons_ne_nil _ _) (init ++ [last]) text fun field member => ?_
    refine clean_of_foreign (List.cons_ne_nil _ _) fun d inside same => ?_
    exact foreign field member (List.mem_singleton.mp same ▸ inside)
  unfold split
  split_ifs with found
  · rw [pieces,dropTrailingEmpty_append init _ filled]
  · have few := congrArg List.length ((splitAll_eq_singleton found).symm.trans pieces)
    have more := List.length_pos_of_ne_nil (splitAll_ne_nil [c] text)
    simp only [List.length_append,List.length_cons,List.length_nil] at few
    omega

theorem parts_of_plain {c : UInt16} {text : JavaString} (filled : text ≠ []) (absent : c ∉ text) :
    dropTrailingEmpty (splitAll [c] text) = [text] := by
  have one : splitAll [c] text = [] ++ [text] ++ [] :=
    splitAll_eq_singleton fun found => absent ((List.singleton_infix_iff _ _).mp found)
  rw [one,dropTrailingEmpty_append [] [] filled]
  rfl

/-- The first part of a text is the text itself exactly if it is not empty and does not have the separator. -/
theorem first_part_iff {c : UInt16} (text : JavaString) :
    (dropTrailingEmpty (splitAll [c] text))[0]? = some text ↔ text ≠ [] ∧ c ∉ text := by
  constructor
  · intro first
    have member := List.mem_of_getElem? first
    refine ⟨?_,fun inside => ?_⟩
    · rintro rfl
      nomatch member
    · refine splitAll_absent (List.cons_ne_nil _ _) text text (mem_dropTrailingEmpty member) ?_
      exact (List.singleton_infix_iff _ _).mpr inside
  · rintro ⟨filled,absent⟩
    rw [parts_of_plain filled absent]
    rfl

theorem units_append (front back : String) : units (front ++ back) = units front ++ units back := by
  simp [units]

theorem forall_unit {text : JavaString} {property : UInt16 → Prop} [DecidablePred property]
    (checked : text.all (fun c => decide (property c)) = true) : ∀ c ∈ text, property c := by
  simpa using checked

/-- The characters of an `int`. -/
theorem mem_intText {n : Int} {c : UInt16} (member : c ∈ intText n) : c ∈ units "-0123456789" := by
  have digit : ∀ (m : Nat) (d : UInt16), d ∈ units m.repr → d ∈ units "-0123456789" := by
    intro m d inside
    rw [units,Nat.repr_eq_ofList_toDigits,String.toList_ofList] at inside
    obtain ⟨letter,shown,rfl⟩ := List.mem_map.mp inside
    obtain ⟨value,below,rfl⟩ := exists_digit_of_mem_toDigits (by decide) shown
    have all : ∀ i < 10, UInt16.ofNat (Nat.digitChar i).toNat ∈ units "-0123456789" := by decide
    exact all value below
  have shown : intText n = units n.repr := rfl
  rw [shown,Int.repr_eq_if] at member
  split at member
  · exact digit _ c member
  · rw [units_append] at member
    rcases List.mem_append.mp member with sign | rest
    · obtain rfl : c = 45 := List.mem_singleton.mp sign
      decide
    · exact digit _ c rest

/-- The characters of a `boolean`. -/
theorem mem_booleanText {b : Bool} {c : UInt16} (member : c ∈ booleanText b) : c ∈ units "truefals" := by
  cases b with
  | true => exact forall_unit (by decide) c member
  | false => exact forall_unit (by decide) c member

end Aatt.Troy
