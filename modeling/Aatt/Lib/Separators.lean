import Mathlib.Algebra.Order.Ring.Nat
import Mathlib.Data.List.Infix

/-! Texts with separators of several characters. A text is split at the leftmost occurrence of the separator
and then again behind it. -/
namespace Aatt.Lib

universe u v
variable {α : Type u} {sep : List α}

theorem prefix_cons_foreign {c : α} {part back : List α} (foreign : c ∉ part) (found : part <+: c :: back) :
    part = [] := by
  cases part with
  | nil => rfl
  | cons d part => exact absurd ((List.cons_prefix_cons.mp found).1) (fun same => foreign (same ▸ List.mem_cons_self))

theorem infix_append_cons {c : α} {front back : List α} (foreign : c ∉ sep) :
    sep <:+: front ++ c :: back ↔ sep <:+: front ∨ sep <:+: back := by
  rw [List.infix_append_iff]
  constructor
  · rintro (early | late | ⟨left,right,rfl,suffix,found⟩)
    · exact .inl early
    · rcases List.infix_cons_iff.mp late with here | later
      · obtain rfl := prefix_cons_foreign foreign here
        exact .inl (List.nil_infix)
      · exact .inr later
    · obtain rfl := prefix_cons_foreign (fun member => foreign (List.mem_append_right left member)) found
      rw [List.append_nil]
      exact .inl suffix.isInfix
  · rintro (early | later)
    · exact .inl early
    · exact .inr (.inl (List.infix_cons later))

theorem infix_append_gap {gap front back : List α} (filled : gap ≠ []) (foreign : ∀ c ∈ gap, c ∉ sep) :
    sep <:+: front ++ (gap ++ back) ↔ sep <:+: front ∨ sep <:+: back := by
  induction gap generalizing front with
  | nil => exact absurd rfl filled
  | cons c gap ih =>
    rw [List.forall_mem_cons] at foreign
    rw [List.cons_append,infix_append_cons foreign.1]
    cases gap with
    | nil => rfl
    | cons d gap =>
      have inner : sep <:+: [] ++ (d :: gap ++ back) ↔ sep <:+: [] ∨ sep <:+: back :=
        ih (List.cons_ne_nil d gap) foreign.2
      rw [List.nil_append] at inner
      rw [inner]
      refine ⟨fun either => either.elim .inl (Or.imp (fun empty => empty.trans List.nil_infix) id),?_⟩
      exact Or.imp id .inr

/-- A word that shares no character with the separator occurs in a joined text exactly if it occurs in a field. -/
theorem infix_intercalate {gap : List α} (filled : gap ≠ []) (foreign : ∀ c ∈ gap, c ∉ sep) (fields : List (List α))
    (nonempty : fields ≠ []) : sep <:+: gap.intercalate fields ↔ ∃ field ∈ fields, sep <:+: field := by
  induction fields with
  | nil => exact absurd rfl nonempty
  | cons field fields ih =>
    cases fields with
    | nil => simp
    | cons next fields =>
      rw [List.intercalate_cons_cons,List.append_assoc,infix_append_gap filled foreign,ih (List.cons_ne_nil _ _)]
      simp only [List.mem_cons,exists_eq_or_imp]

theorem intercalate_concat (gap : List α) (fields : List (List α)) (last : List α) (nonempty : fields ≠ []) :
    gap.intercalate (fields ++ [last]) = gap.intercalate fields ++ gap ++ last := by
  induction fields with
  | nil => exact absurd rfl nonempty
  | cons field fields ih =>
    cases fields with
    | nil => simp
    | cons next fields =>
      rw [List.cons_append,List.intercalate_cons_of_ne_nil (by simp),ih (List.cons_ne_nil _ _),
        List.intercalate_cons_cons]
      simp only [List.append_assoc]

/-- The characters of the fields, with a separator for each. -/
def weight (gap : List α) (fields : List (List α)) : Nat := (fields.map fun field => field.length + gap.length).sum

theorem length_intercalate (gap : List α) (fields : List (List α)) (nonempty : fields ≠ []) :
    (gap.intercalate fields).length + gap.length = weight gap fields := by
  induction fields with
  | nil => exact absurd rfl nonempty
  | cons field fields ih =>
    cases fields with
    | nil => simp [weight]
    | cons next fields =>
      have rest := ih (List.cons_ne_nil _ _)
      rw [List.intercalate_cons_cons,weight,List.map_cons,List.sum_cons]
      rw [weight] at rest
      rw [← rest,List.length_append,List.length_append]
      omega

theorem weight_filterMap {β : Type v} {gap : List α} (filled : gap ≠ []) {f g : β → Option (List α)} (list : List β)
    (part : ∀ x ∈ list, f x = g x ∨ f x = none) :
    weight gap (list.filterMap f) ≤ weight gap (list.filterMap g) ∧
      (weight gap (list.filterMap g) ≤ weight gap (list.filterMap f) → ∀ x ∈ list, f x = g x) := by
  induction list with
  | nil => exact ⟨Nat.le_refl _,fun _ => nofun⟩
  | cons x list ih =>
    rw [List.forall_mem_cons] at part
    obtain ⟨below,exact⟩ := ih part.2
    have positive := List.length_pos_of_ne_nil filled
    have step : ∀ h : β → Option (List α), weight gap ((x :: list).filterMap h) =
        ((h x).map fun field => field.length + gap.length).getD 0 + weight gap (list.filterMap h) := by
      intro h
      cases shown : h x <;> simp [weight,shown]
    rw [step,step,List.forall_mem_cons]
    rcases part.1 with same | missing
    · rw [same]
      exact ⟨Nat.add_le_add_left below _,fun bound => ⟨rfl,exact (Nat.le_of_add_le_add_left bound)⟩⟩
    · cases shown : g x with
      | none => simpa [missing] using ⟨below,exact⟩
      | some field =>
        simp only [missing,Option.map_none,Option.getD_none,Option.map_some,Option.getD_some]
        exact ⟨by omega,fun bound => by omega⟩

/-- No occurrence ends between the piece and the end of a separator behind it. -/
def Clean (sep piece : List α) : Prop := ¬ sep <:+: piece ++ sep.dropLast

theorem clean_nil (filled : sep ≠ []) : Clean sep [] := by
  intro found
  have size := found.length_le
  have positive := List.length_pos_of_ne_nil filled
  rw [List.nil_append,List.length_dropLast] at size
  omega

theorem Clean.tail {c : α} {piece : List α} (clean : Clean sep (c :: piece)) : Clean sep piece :=
  fun found => clean (List.infix_cons found)

theorem Clean.absent {piece : List α} (clean : Clean sep piece) : ¬ sep <:+: piece :=
  fun found => clean (found.trans (List.prefix_append piece sep.dropLast).isInfix)

theorem dropLast_prefix_append (piece rest : List α) : piece ++ sep.dropLast <+: piece ++ (sep ++ rest) := by
  rw [List.prefix_append_right_inj]
  exact (List.dropLast_prefix sep).trans (List.prefix_append sep rest)

theorem Clean.not_prefix (filled : sep ≠ []) {c : α} {piece : List α} (clean : Clean sep (c :: piece)) (rest : List α) :
    ¬ sep <+: c :: (piece ++ (sep ++ rest)) := by
  intro found
  have positive := List.length_pos_of_ne_nil filled
  have size : sep.length ≤ (c :: piece ++ sep.dropLast).length := by
    rw [List.length_append,List.length_cons,List.length_dropLast]
    omega
  exact clean (List.prefix_of_prefix_length_le found (dropLast_prefix_append (c :: piece) rest) size).isInfix

theorem clean_concat (filled : sep ≠ []) {c : α} {piece : List α} (foreign : c ∉ sep)
    (absent : ¬ sep <:+: piece ++ [c]) :
    Clean sep (piece ++ [c]) := by
  rw [Clean,List.append_assoc,List.singleton_append,infix_append_cons foreign,not_or]
  exact ⟨fun found => absent (found.trans (List.prefix_append piece [c]).isInfix),clean_nil filled⟩

theorem clean_of_foreign (filled : sep ≠ []) {piece : List α} (foreign : ∀ c ∈ piece, c ∉ sep) : Clean sep piece := by
  rcases List.eq_nil_or_concat piece with rfl | ⟨front,last,rfl⟩
  · exact clean_nil filled
  · rw [List.concat_eq_append] at foreign ⊢
    refine clean_concat filled (foreign last (by simp)) fun found => ?_
    obtain ⟨c,tail,rfl⟩ := List.exists_cons_of_ne_nil filled
    exact foreign c (found.subset List.mem_cons_self) List.mem_cons_self

def BorderFree (sep : List α) : Prop := ∀ left right, sep = left ++ right → right <+: sep → left = [] ∨ right = []

theorem BorderFree.clean (free : BorderFree sep) (filled : sep ≠ []) {piece : List α} (absent : ¬ sep <:+: piece) :
    Clean sep piece := by
  intro found
  rcases List.infix_append_iff.mp found with early | late | ⟨left,right,split,suffix,found⟩
  · exact absent early
  · exact clean_nil filled (by simpa using late)
  · rcases free left right split (found.trans (List.dropLast_prefix sep)) with rfl | rfl
    · rw [List.nil_append] at split
      exact clean_nil filled (by simpa [split] using found.isInfix)
    · rw [List.append_nil] at split
      exact absent (split ▸ suffix.isInfix)

variable [DecidableEq α]

/-- Splits what follows after the next `skip` characters. -/
def scan (sep : List α) : Nat → List α → List (List α)
  | _,[] => [[]]
  | skip + 1,_ :: rest => scan sep skip rest
  | 0,c :: rest =>
    if sep <+: c :: rest then [] :: scan sep (sep.length - 1) rest else (scan sep 0 rest).modifyHead (c :: ·)

/-- The pieces of a text at every occurrence of the separator. -/
def splitAll (sep text : List α) : List (List α) := scan sep 0 text

theorem scan_eq (sep : List α) (skip : Nat) (text : List α) : scan sep skip text = splitAll sep (text.drop skip) := by
  induction text generalizing skip with
  | nil => cases skip <;> rfl
  | cons c rest ih =>
    cases skip with
    | zero => rfl
    | succ skip => exact ih skip

@[simp] theorem splitAll_nil (sep : List α) : splitAll sep [] = [[]] := rfl

theorem splitAll_occurrence (filled : sep ≠ []) (rest : List α) : splitAll sep (sep ++ rest) =
    [] :: splitAll sep rest := by
  obtain ⟨c,tail,rfl⟩ := List.exists_cons_of_ne_nil filled
  have found : (c :: tail) <+: c :: (tail ++ rest) := List.prefix_append (c :: tail) rest
  rw [splitAll,List.cons_append,scan,if_pos found,scan_eq]
  simp

theorem splitAll_step {c : α} {rest : List α} (apart : ¬ sep <+: c :: rest) :
    splitAll sep (c :: rest) = (splitAll sep rest).modifyHead (c :: ·) := by
  rw [splitAll,scan,if_neg apart,splitAll]

theorem splitAll_ne_nil (sep text : List α) : splitAll sep text ≠ [] := by
  induction text with
  | nil => exact List.cons_ne_nil _ _
  | cons c rest ih =>
    rw [splitAll,scan]
    split
    · exact List.cons_ne_nil _ _
    · rw [ne_eq,List.modifyHead_eq_nil_iff]
      exact ih

theorem occurrence_or_step (filled : sep ≠ []) (c : α) (rest : List α) :
    (∃ behind, c :: rest = sep ++ behind ∧ splitAll sep (c :: rest) = [] :: splitAll sep behind) ∨
      ¬ sep <+: c :: rest ∧ splitAll sep (c :: rest) = (splitAll sep rest).modifyHead (c :: ·) := by
  by_cases found : sep <+: c :: rest
  · obtain ⟨behind,split⟩ := found
    refine .inl ⟨behind,split.symm,?_⟩
    rw [← split,splitAll_occurrence filled]
  · exact .inr ⟨found,splitAll_step found⟩

theorem splitAll_append (filled : sep ≠ []) {piece : List α} (clean : Clean sep piece) (rest : List α) :
    splitAll sep (piece ++ (sep ++ rest)) = piece :: splitAll sep rest := by
  induction piece with
  | nil => exact splitAll_occurrence filled rest
  | cons c piece ih =>
    rw [List.cons_append,splitAll_step (clean.not_prefix filled rest),ih clean.tail,List.modifyHead_cons]

theorem splitAll_eq_singleton {text : List α} (absent : ¬ sep <:+: text) : splitAll sep text = [text] := by
  induction text with
  | nil => rfl
  | cons c rest ih =>
    have apart : ¬ sep <+: c :: rest := fun found => absent found.isInfix
    rw [splitAll_step apart,ih fun found => absent (List.infix_cons found),List.modifyHead_cons]

theorem first_piece (filled : sep ≠ []) {text first second : List α} {rest : List (List α)}
    (split : splitAll sep text = first :: second :: rest) :
    ∃ behind, text = first ++ (sep ++ behind) ∧ Clean sep first ∧ splitAll sep behind = second :: rest := by
  induction text generalizing first with
  | nil => simp at split
  | cons c tail ih =>
    rcases occurrence_or_step filled c tail with ⟨behind,shown,pieces⟩ | ⟨apart,pieces⟩
    · rw [pieces] at split
      obtain ⟨rfl,onward⟩ := List.cons.inj split
      exact ⟨behind,shown,clean_nil filled,onward⟩
    · rw [pieces] at split
      cases inner : splitAll sep tail with
      | nil => simp [inner] at split
      | cons piece others =>
        rw [inner,List.modifyHead_cons] at split
        obtain ⟨rfl,rfl⟩ := List.cons.inj split
        obtain ⟨behind,rfl,clean,onward⟩ := ih inner
        refine ⟨behind,rfl,fun found => ?_,onward⟩
        rcases List.infix_cons_iff.mp found with here | later
        · exact apart (here.trans (dropLast_prefix_append (c :: piece) behind))
        · exact clean later

theorem piece_clean (filled : sep ≠ []) {text piece next : List α} {front rest : List (List α)}
    (split : splitAll sep text = front ++ piece :: next :: rest) : Clean sep piece := by
  induction front generalizing text with
  | nil => exact (first_piece filled split).choose_spec.2.1
  | cons first front ih =>
    cases front with
    | nil =>
      obtain ⟨behind,-,-,onward⟩ := first_piece filled split
      exact ih onward
    | cons second front =>
      obtain ⟨behind,-,-,onward⟩ := first_piece filled split
      exact ih onward

def pieces (sep text : List α) : Nat := (splitAll sep text).length

@[simp] theorem pieces_nil (sep : List α) : pieces sep [] = 1 := rfl

theorem pieces_occurrence (filled : sep ≠ []) (rest : List α) : pieces sep (sep ++ rest) = pieces sep rest + 1 := by
  rw [pieces,splitAll_occurrence filled,List.length_cons,pieces]

theorem pieces_step {c : α} {rest : List α} (apart : ¬ sep <+: c :: rest) :
    pieces sep (c :: rest) = pieces sep rest := by
  rw [pieces,splitAll_step apart,List.length_modifyHead,pieces]

theorem pieces_bounds (filled : sep ≠ []) (n : Nat) (text : List α) (size : text.length ≤ n) :
    (∀ k, pieces sep (text.drop k) ≤ pieces sep text) ∧
      ∀ k ≤ sep.length, pieces sep text ≤ pieces sep (text.drop k) + 1 := by
  induction n generalizing text with
  | zero =>
    obtain rfl := List.length_eq_zero_iff.mp (Nat.le_zero.mp size)
    simp
  | succ n ih =>
    cases text with
    | nil => simp
    | cons c rest =>
      have shorter : rest.length ≤ n := Nat.le_of_succ_le_succ size
      obtain ⟨later,near⟩ := ih rest shorter
      by_cases found : sep <+: c :: rest
      · obtain ⟨behind,split⟩ := found
        have positive := List.length_pos_of_ne_nil filled
        have count : pieces sep (c :: rest) = pieces sep behind + 1 := by rw [← split,pieces_occurrence filled]
        have skipped : behind = rest.drop (sep.length - 1) := by
          have dropped := congrArg (List.drop sep.length) split
          rw [List.drop_left] at dropped
          rw [dropped,show sep.length = sep.length - 1 + 1 by omega,List.drop_succ_cons]
          rfl
        have tail : pieces sep rest ≤ pieces sep (c :: rest) := by
          rw [count,skipped]
          exact near _ (Nat.sub_le _ _)
        constructor
        · intro k
          cases k with
          | zero => exact Nat.le_refl _
          | succ k => exact (later k).trans tail
        · intro k close
          cases k with
          | zero => exact Nat.le_succ _
          | succ k =>
            have inner := (ih (rest.drop k) ((List.length_drop ▸ Nat.sub_le _ _ : _ ≤ rest.length).trans shorter)).1
              (sep.length - 1 - k)
            rw [List.drop_drop,show k + (sep.length - 1 - k) = sep.length - 1 by omega,← skipped] at inner
            rw [count,List.drop_succ_cons]
            exact Nat.succ_le_succ inner
      · have count := pieces_step found
        constructor
        · intro k
          cases k with
          | zero => exact Nat.le_refl _
          | succ k => exact (later k).trans count.symm.le
        · intro k close
          cases k with
          | zero => exact Nat.le_succ _
          | succ k => exact count.le.trans (near k (Nat.le_of_succ_le close))

theorem pieces_drop_le (filled : sep ≠ []) (text : List α) (k : Nat) : pieces sep (text.drop k) ≤ pieces sep text :=
  (pieces_bounds filled text.length text (Nat.le_refl _)).1 k

theorem pieces_pos (sep text : List α) : 0 < pieces sep text := List.length_pos_of_ne_nil (splitAll_ne_nil sep text)

theorem pieces_append_le (filled : sep ≠ []) (front back : List α) :
    pieces sep front + pieces sep back ≤ pieces sep (front ++ (sep ++ back)) := by
  induction size : front.length using Nat.strongRecOn generalizing front with
  | ind n ih =>
    cases front with
    | nil => rw [List.nil_append,pieces_occurrence filled,pieces_nil,Nat.add_comm]
    | cons c rest =>
      rw [List.length_cons] at size
      by_cases found : sep <+: c :: (rest ++ (sep ++ back))
      · by_cases short : (c :: rest).length < sep.length
        · have absent : ¬ sep <:+: c :: rest := fun inside => absurd inside.length_le (Nat.not_le.mpr short)
          have one : pieces sep (c :: rest) = 1 := by rw [pieces,splitAll_eq_singleton absent,List.length_singleton]
          obtain ⟨behind,split⟩ := found
          have last : behind.drop (c :: rest).length = back := by
            have dropped := congrArg (List.drop (sep.length + (c :: rest).length)) split
            rw [← List.drop_drop,List.drop_left,← List.cons_append,Nat.add_comm,← List.drop_drop,List.drop_left,
              List.drop_left] at dropped
            exact dropped
          have bound := pieces_drop_le filled behind (c :: rest).length
          rw [last] at bound
          rw [one,List.cons_append,← split,pieces_occurrence filled]
          omega
        · obtain ⟨inner,split⟩ := List.prefix_of_prefix_length_le found (List.prefix_append (c :: rest) (sep ++ back))
            (Nat.not_lt.mp short)
          have positive := List.length_pos_of_ne_nil filled
          have sizes := congrArg List.length split
          rw [List.length_append,List.length_cons] at sizes
          have inside := ih inner.length (by omega) inner rfl
          rw [← split,List.append_assoc,pieces_occurrence filled,pieces_occurrence filled]
          omega
      · have apart : ¬ sep <+: c :: rest := fun inside =>
          found (inside.trans (List.prefix_append (c :: rest) (sep ++ back)))
        rw [List.cons_append,pieces_step found,pieces_step apart]
        exact ih rest.length (by omega) rest rfl

theorem pieces_eq_one_iff (filled : sep ≠ []) (text : List α) : pieces sep text = 1 ↔ ¬ sep <:+: text := by
  constructor
  · rintro one ⟨front,back,rfl⟩
    have more := pieces_append_le filled front back
    have first := pieces_pos sep front
    have second := pieces_pos sep back
    rw [List.append_assoc] at one
    omega
  · intro absent
    rw [pieces,splitAll_eq_singleton absent,List.length_singleton]

theorem intercalate_splitAll (filled : sep ≠ []) (text : List α) : sep.intercalate (splitAll sep text) = text := by
  induction size : text.length using Nat.strongRecOn generalizing text with
  | ind n ih =>
    cases text with
    | nil => exact List.intercalate_singleton
    | cons c rest =>
      rw [List.length_cons] at size
      rcases occurrence_or_step filled c rest with ⟨behind,shown,pieces⟩ | ⟨-,pieces⟩
      · have sizes := congrArg List.length shown
        have positive := List.length_pos_of_ne_nil filled
        rw [List.length_append,List.length_cons] at sizes
        rw [pieces,List.intercalate_cons_of_ne_nil (splitAll_ne_nil sep behind),ih behind.length (by omega) behind rfl,
          List.nil_append,shown]
      · have inner := ih rest.length (by omega) rest rfl
        rw [pieces]
        cases found : splitAll sep rest with
        | nil => exact absurd found (splitAll_ne_nil sep rest)
        | cons first others =>
          rw [found] at inner
          rw [List.modifyHead_cons]
          cases others with
          | nil =>
            rw [List.intercalate_singleton] at inner ⊢
            rw [inner]
          | cons second others =>
            rw [List.intercalate_cons_cons] at inner ⊢
            rw [List.cons_append,List.cons_append,inner]

theorem splitAll_behind (filled : sep ≠ []) (fields : List (List α)) (last : List α)
    (clean : ∀ field ∈ fields, Clean sep field) :
    splitAll sep (sep.intercalate (fields ++ [last])) = fields ++ splitAll sep last := by
  induction fields with
  | nil => simp
  | cons field fields ih =>
    rw [List.forall_mem_cons] at clean
    rw [List.cons_append,List.intercalate_cons_of_ne_nil (by simp),List.append_assoc,splitAll_append filled clean.1,
      ih clean.2,
      List.cons_append]

theorem splitAll_intercalate (filled : sep ≠ []) (fields : List (List α)) (last : List α)
    (clean : ∀ field ∈ fields, Clean sep field) (absent : ¬ sep <:+: last) :
    splitAll sep (sep.intercalate (fields ++ [last])) = fields ++ [last] := by
  rw [splitAll_behind filled fields last clean,splitAll_eq_singleton absent]

theorem BorderFree.splitAll_intercalate (free : BorderFree sep) (filled : sep ≠ []) (fields : List (List α))
    (nonempty : fields ≠ []) (absent : ∀ field ∈ fields, ¬ sep <:+: field) :
    splitAll sep (sep.intercalate fields) = fields := by
  obtain ⟨front,last,rfl⟩ := (List.eq_nil_or_concat fields).resolve_left nonempty
  rw [List.concat_eq_append] at absent ⊢
  rw [List.forall_mem_append,List.forall_mem_singleton] at absent
  exact Lib.splitAll_intercalate filled front last (fun field member => free.clean filled (absent.1 field member))
    absent.2

theorem sum_pieces_le (filled : sep ≠ []) (fields : List (List α)) (nonempty : fields ≠ []) :
    (fields.map (pieces sep)).sum ≤ pieces sep (sep.intercalate fields) := by
  induction fields with
  | nil => exact absurd rfl nonempty
  | cons field fields ih =>
    cases fields with
    | nil => simp
    | cons next fields =>
      rw [List.intercalate_cons_cons,List.append_assoc,List.map_cons,List.sum_cons]
      exact (Nat.add_le_add_left (ih (List.cons_ne_nil _ _)) _).trans (pieces_append_le filled field _)

theorem fields_absent (filled : sep ≠ []) (fields : List (List α)) (nonempty : fields ≠ [])
    (few : pieces sep (sep.intercalate fields) ≤ fields.length) : ∀ field ∈ fields, ¬ sep <:+: field := by
  have total := (sum_pieces_le filled fields nonempty).trans few
  have each : ∀ list : List (List α), list.length ≤ (list.map (pieces sep)).sum := by
    intro list
    induction list with
    | nil => exact Nat.le_refl _
    | cons field list ih =>
      have positive := pieces_pos sep field
      rw [List.length_cons,List.map_cons,List.sum_cons]
      omega
  intro field member
  obtain ⟨front,back,rfl⟩ := List.append_of_mem member
  have early := each front
  have late := each back
  have positive := pieces_pos sep field
  rw [List.map_append,List.sum_append,List.map_cons,List.sum_cons,List.length_append,List.length_cons] at total
  exact (pieces_eq_one_iff filled field).mp (by omega)

theorem splitAll_absent (filled : sep ≠ []) (text : List α) : ∀ piece ∈ splitAll sep text, ¬ sep <:+: piece := by
  refine fields_absent filled (splitAll sep text) (splitAll_ne_nil sep text) ?_
  rw [intercalate_splitAll filled]
  exact Nat.le_refl _

end Aatt.Lib
