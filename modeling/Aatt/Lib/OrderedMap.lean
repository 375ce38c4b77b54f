import Mathlib.Order.Lattice
import Mathlib.Data.List.Basic

/-! A map as the list of its entries in ascending order of their keys, and the insertion that keeps the
value of a key that is already there. -/
namespace Aatt.Lib

universe u v
variable {κ : Type u} {ν : Type v} [LinearOrder κ]

/-- The entries in the order in which they are iterated. -/
structure OrderedMap (κ : Type u) (ν : Type v) [LinearOrder κ] where
  entries : List (κ × ν)
  sorted : entries.Pairwise fun a b => a.1 < b.1

/-- The entry put in its place, unless the key has one. -/
def insertNew (key : κ) (value : ν) : List (κ × ν) → List (κ × ν)
  | [] => [(key,value)]
  | entry :: rest =>
    if key < entry.1 then (key,value) :: entry :: rest
    else if key = entry.1 then entry :: rest
    else entry :: insertNew key value rest

theorem mem_of_mem_insertNew {key : κ} {value : ν} {entries : List (κ × ν)} {entry : κ × ν}
    (member : entry ∈ insertNew key value entries) : entry = (key,value) ∨ entry ∈ entries := by
  induction entries with
  | nil => exact .inl (List.mem_singleton.mp member)
  | cons first rest ih =>
    rw [insertNew] at member
    split at member
    · exact List.mem_cons.mp member
    split at member
    · exact .inr member
    · rcases List.mem_cons.mp member with rfl | later
      · exact .inr List.mem_cons_self
      · exact (ih later).imp id (List.mem_cons_of_mem first)

theorem insertNew_sorted (key : κ) (value : ν) (entries : List (κ × ν))
    (sorted : entries.Pairwise fun a b => a.1 < b.1) :
    (insertNew key value entries).Pairwise fun a b => a.1 < b.1 := by
  induction entries with
  | nil => exact List.pairwise_singleton _ _
  | cons first rest ih =>
    obtain ⟨below,ordered⟩ := List.pairwise_cons.mp sorted
    rw [insertNew]
    split
    · rename_i before
      refine List.pairwise_cons.mpr ⟨fun entry member => ?_,sorted⟩
      rcases List.mem_cons.mp member with rfl | later
      · exact before
      · exact before.trans (below entry later)
    split
    · exact sorted
    · rename_i notBefore apart
      refine List.pairwise_cons.mpr ⟨fun entry member => ?_,ih ordered⟩
      rcases mem_of_mem_insertNew member with rfl | later
      · exact lt_of_le_of_ne (not_lt.mp notBefore) (Ne.symm apart)
      · exact below entry later

theorem insertNew_present (key : κ) (value : ν) (entries : List (κ × ν))
    (sorted : entries.Pairwise fun a b => a.1 < b.1) (present : key ∈ entries.map Prod.fst) :
    insertNew key value entries = entries := by
  induction entries with
  | nil => exact absurd present (List.not_mem_nil)
  | cons first rest ih =>
    obtain ⟨below,ordered⟩ := List.pairwise_cons.mp sorted
    rw [List.map_cons,List.mem_cons] at present
    rw [insertNew]
    rcases present with rfl | later
    · rw [if_neg (lt_irrefl _),if_pos rfl]
    · obtain ⟨entry,member,rfl⟩ := List.mem_map.mp later
      have above := below entry member
      rw [if_neg (lt_asymm above),if_neg (ne_of_gt above),ih ordered later]

theorem mem_insertNew_new (key : κ) (value : ν) (entries : List (κ × ν)) (entry : κ × ν)
    (new : key ∉ entries.map Prod.fst) :
    entry ∈ insertNew key value entries ↔ entry = (key,value) ∨ entry ∈ entries := by
  refine ⟨mem_of_mem_insertNew,?_⟩
  induction entries with
  | nil =>
    rintro (rfl | inside)
    · exact List.mem_singleton_self _
    · exact absurd inside List.not_mem_nil
  | cons first rest ih =>
    rw [List.map_cons,List.mem_cons,not_or] at new
    intro member
    rw [insertNew]
    split
    · exact List.mem_cons.mpr member
    · rw [if_neg new.1,List.mem_cons]
      rcases member with rfl | old
      · exact .inr (ih new.2 (.inl rfl))
      · exact (List.mem_cons.mp old).imp id fun later => ih new.2 (.inr later)

namespace OrderedMap

def empty : OrderedMap κ ν := ⟨[],.nil⟩

def keys (m : OrderedMap κ ν) : List κ := m.entries.map Prod.fst

def emplace (m : OrderedMap κ ν) (key : κ) (value : ν) : OrderedMap κ ν × Bool :=
  (⟨insertNew key value m.entries,insertNew_sorted key value m.entries m.sorted⟩,decide (key ∉ m.keys))

theorem emplace_new (m : OrderedMap κ ν) (key : κ) (value : ν) : (m.emplace key value).2 = true ↔ key ∉ m.keys :=
  decide_eq_true_iff

theorem emplace_present (m : OrderedMap κ ν) (key : κ) (value : ν) (present : key ∈ m.keys) :
    (m.emplace key value).1.entries = m.entries := insertNew_present key value m.entries m.sorted present

theorem mem_emplace (m : OrderedMap κ ν) (key : κ) (value : ν) (new : key ∉ m.keys) (entry : κ × ν) :
    entry ∈ (m.emplace key value).1.entries ↔ entry = (key,value) ∨ entry ∈ m.entries :=
  mem_insertNew_new key value m.entries entry new

end OrderedMap

end Aatt.Lib
