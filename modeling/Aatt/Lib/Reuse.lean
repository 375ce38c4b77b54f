import Mathlib.Data.List.Basic

/-! Slots that are written over in turn. -/
namespace Aatt.Lib

universe u
variable {σ : Type u}

/-- What each write leaves in its slot. The slots are given in the order of their use, and a slot that has been
written is used again after all the others. -/
def reuse : List σ → List (σ → σ) → List σ
  | _,[] => []
  | [],_ :: _ => []
  | old :: rest,write :: writes => write old :: reuse (rest ++ [write old]) writes

/-- The slots in the order of their use, `k` being the next. -/
def inTurn (slots : List σ) (k : Nat) : List σ := slots.drop k ++ slots.take k

theorem inTurn_length (slots : List σ) (k : Nat) : (inTurn slots k).length = slots.length := by
  rw [inTurn,List.length_append,List.length_drop,List.length_take]
  omega

theorem mem_of_mem_inTurn {slots : List σ} {k : Nat} {slot : σ} (member : slot ∈ inTurn slots k) : slot ∈ slots := by
  rcases List.mem_append.mp member with behind | before
  · exact List.mem_of_mem_drop behind
  · exact List.mem_of_mem_take before

theorem inTurn_wrap (slots : List σ) : inTurn slots slots.length = inTurn slots 0 := by
  simp [inTurn]

theorem inTurn_next (slots : List σ) {k : Nat} (inside : k < slots.length) :
    inTurn slots k = slots[k] :: (slots.drop (k + 1) ++ slots.take k) := by
  rw [inTurn,List.drop_eq_getElem_cons inside,List.cons_append]

theorem inTurn_set (slots : List σ) {k : Nat} (inside : k < slots.length) (new : σ) :
    inTurn (slots.set k new) (k + 1) = slots.drop (k + 1) ++ slots.take k ++ [new] := by
  have here : k < (slots.set k new).length := by rwa [List.length_set]
  rw [inTurn,List.drop_set_of_lt (Nat.lt_succ_self k),List.take_succ_eq_append_getElem here,List.getElem_set_self,
    List.take_set_of_le (Nat.le_refl k),List.append_assoc]

theorem reuse_getElem? {slots : List σ} {writes : List (σ → σ)} {i : Nat} {new : σ}
    (found : (reuse slots writes)[i]? = some new) : ∃ write old, writes[i]? = some write ∧ new = write old ∧
      if i < slots.length then slots[i]? = some old else (reuse slots writes)[i - slots.length]? = some old := by
  induction writes generalizing slots i with
  | nil =>
    rw [reuse] at found
    nomatch found
  | cons write writes ih =>
    cases slots with
    | nil => nomatch found
    | cons old rest =>
      rw [reuse] at found ⊢
      cases i with
      | zero =>
        cases found
        exact ⟨write,old,rfl,rfl,rfl⟩
      | succ i =>
        obtain ⟨later,before,taken,rfl,kept⟩ := ih found
        refine ⟨later,before,taken,rfl,?_⟩
        rw [List.length_append,List.length_singleton] at kept
        rw [List.length_cons]
        rcases Nat.lt_trichotomy i rest.length with inside | last | again
        · rw [if_pos (by omega),List.getElem?_append_left inside] at kept
          rw [if_pos (by omega)]
          exact kept
        · rw [if_pos (by omega),List.getElem?_append_right (Nat.le_of_eq last.symm),last,Nat.sub_self] at kept
          rw [if_neg (by omega),last,Nat.sub_self]
          exact kept
        · rw [if_neg (by omega)] at kept
          rw [if_neg (by omega),show i + 1 - (rest.length + 1) = i - (rest.length + 1) + 1 by omega]
          exact kept

theorem reuse_length {slots : List σ} (filled : slots ≠ []) (writes : List (σ → σ)) :
    (reuse slots writes).length = writes.length := by
  induction writes generalizing slots with
  | nil => rw [reuse,List.length_nil,List.length_nil]
  | cons write writes ih =>
    cases slots with
    | nil => exact absurd rfl filled
    | cons old rest => rw [reuse,List.length_cons,List.length_cons,ih (by simp)]

theorem reuse_map {τ : Type u} {project : τ → σ} {fine : List (τ → τ)} {coarse : List (σ → σ)}
    (matched : List.Forall₂ (fun write write' => ∀ slot, project (write slot) = write' (project slot)) fine coarse)
    (slots : List τ) : (reuse slots fine).map project = reuse (slots.map project) coarse := by
  induction matched generalizing slots with
  | nil => rw [reuse,reuse,List.map_nil]
  | cons same _ ih =>
    cases slots with
    | nil => rfl
    | cons old rest => rw [reuse,List.map_cons,List.map_cons,reuse,ih,List.map_append,List.map_singleton,same]

end Aatt.Lib
