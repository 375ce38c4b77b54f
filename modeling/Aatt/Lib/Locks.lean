import Mathlib.Algebra.BigOperators.Group.Finset.Basic
import Mathlib.Algebra.Order.BigOperators.Group.Finset
import Mathlib.Data.Fintype.BigOperators
import Mathlib.Logic.Relation

/-! Locks and who holds them, for any finite number of threads. A property of each thread changes with
one thread at a time. -/
namespace Aatt.Lib

universe u v
variable {ι : Type u}

/-- `q` is `p` but for the thread `t`. -/
def SameBut (t : ι) (p q : ι → Bool) : Prop := ∀ u, u ≠ t → q u = p u

theorem sameBut_update {α : Type v} [DecidableEq ι] (f : α → Bool) (state : ι → α) (t : ι) (a : α) :
    SameBut t (fun u => f (state u)) (fun u => f (Function.update state t a u)) :=
  fun _ other => congrArg f (Function.update_of_ne other a state)

section Census

variable [Fintype ι]

def census (p : ι → Bool) : Nat := ∑ t, (p t).toNat

theorem census_eq_zero_iff {p : ι → Bool} : census p = 0 ↔ ∀ t, p t = false := by
  simp [census,Finset.sum_eq_zero_iff]

theorem census_pos {p : ι → Bool} {t : ι} (member : p t = true) : 0 < census p := by
  rw [Nat.pos_iff_ne_zero,ne_eq,census_eq_zero_iff]
  intro outside
  simp [outside t] at member

variable [DecidableEq ι]

theorem census_change {p q : ι → Bool} {t : ι} (others : SameBut t p q) :
    census q + (p t).toNat = census p + (q t).toNat := by
  have same : ∑ u ∈ Finset.univ.erase t, (q u).toNat = ∑ u ∈ Finset.univ.erase t, (p u).toNat :=
    Finset.sum_congr rfl fun u member => by rw [others u (Finset.ne_of_mem_erase member)]
  unfold census
  rw [← Finset.add_sum_erase Finset.univ _ (Finset.mem_univ t),← Finset.add_sum_erase Finset.univ (fun u => (p u).toNat)
    (Finset.mem_univ t),same]
  omega

theorem census_keep {p q : ι → Bool} {t : ι} (others : SameBut t p q) (same : q t = p t) : census q = census p := by
  have change := census_change others
  rw [same] at change
  omega

theorem census_add {p q : ι → Bool} {t : ι} (others : SameBut t p q) (before : p t = false) (after : q t = true) :
    census q = census p + 1 := by
  have change := census_change others
  simpa [before,after] using change

theorem census_remove {p q : ι → Bool} {t : ι} (others : SameBut t p q) (before : p t = true) (after : q t = false) :
    census p = census q + 1 := by
  have change := census_change others
  simpa [before,after] using change.symm

end Census

def Owned (lock : Option ι) (holds : ι → Bool) : Prop := ∀ t, lock = some t ↔ holds t = true

namespace Owned

variable {lock : Option ι} {holds holds' : ι → Bool} {t u : ι}

theorem alone (owned : Owned lock holds) (first : holds t = true) (second : holds u = true) : t = u :=
  Option.some.inj (((owned t).mpr first).symm.trans ((owned u).mpr second))

theorem keep (owned : Owned lock holds) (others : SameBut t holds holds') (same : holds' t = holds t) :
    Owned lock holds' := by
  intro u
  by_cases acting : u = t
  · subst acting
    rw [same]
    exact owned u
  · rw [others u acting]
    exact owned u

theorem take (owned : Owned lock holds) (others : SameBut t holds holds') (free : lock = none)
    (after : holds' t = true) :
    Owned (some t) holds' := by
  intro u
  by_cases acting : u = t
  · subst acting
    simp [after]
  · rw [others u acting,← owned u,free]
    simp [Ne.symm acting]

theorem drop (owned : Owned lock holds) (others : SameBut t holds holds') (before : holds t = true)
    (after : holds' t = false) :
    Owned none holds' := by
  intro u
  by_cases acting : u = t
  · subst acting
    simp [after]
  · rw [others u acting]
    refine ⟨nofun,fun held => ?_⟩
    exact absurd (owned.alone held before) acting

end Owned

structure ReadWrite [Fintype ι] (state : Int) (shares exclusive : ι → Bool) : Prop where
  state : state = census shares - census exclusive
  apart : ∀ t u, exclusive t = true → shares u = false
  alone : ∀ t u, exclusive t = true → exclusive u = true → t = u

namespace ReadWrite

variable [Fintype ι] {state : Int} {shares exclusive shares' exclusive' : ι → Bool} {t u : ι}

theorem shared (lock : ReadWrite state shares exclusive) (held : shares t = true) : 0 < state := by
  have unwritten : census exclusive = 0 := by
    rw [census_eq_zero_iff]
    intro u
    by_contra writer
    rw [Bool.not_eq_false] at writer
    rw [lock.apart u t writer] at held
    nomatch held
  have positive := census_pos held
  rw [lock.state,unwritten]
  omega

variable [DecidableEq ι]

theorem written (lock : ReadWrite state shares exclusive) (held : exclusive t = true) : state = -1 := by
  have readers : census shares = 0 := census_eq_zero_iff.mpr fun u => lock.apart t u held
  have only : SameBut t exclusive (fun _ => false) := by
    intro u other
    by_contra writer
    exact other (lock.alone t u held (by simpa using Ne.symm writer)).symm
  have one := census_remove only held rfl
  have zero : census (fun _ : ι => false) = 0 := census_eq_zero_iff.mpr fun _ => rfl
  rw [lock.state,readers,one,zero]
  rfl

theorem keep (lock : ReadWrite state shares exclusive) (others : SameBut t shares shares') (same : shares' t = shares t)
    (others' : SameBut t exclusive exclusive') (same' : exclusive' t = exclusive t) :
    ReadWrite state shares' exclusive' := by
  have readers : shares' = shares := by
    funext u
    by_cases acting : u = t
    · rw [acting,same]
    · exact others u acting
  have writers : exclusive' = exclusive := by
    funext u
    by_cases acting : u = t
    · rw [acting,same']
    · exact others' u acting
  rw [readers,writers]
  exact lock

theorem share (lock : ReadWrite state shares exclusive) (open' : 0 ≤ state) (others : SameBut t shares shares')
    (before : shares t = false) (after : shares' t = true) : ReadWrite (state + 1) shares' exclusive := by
  have free : ∀ u, exclusive u = false := by
    intro u
    by_contra writer
    have := lock.written (Bool.not_eq_false _ ▸ writer)
    omega
  refine ⟨?_,fun u v writer => ?_,lock.alone⟩
  · rw [lock.state,census_add others before after]
    omega
  · simp [free u] at writer

theorem unshare (lock : ReadWrite state shares exclusive) (others : SameBut t shares shares') (before : shares t = true)
    (after : shares' t = false) : ReadWrite (state - 1) shares' exclusive := by
  refine ⟨?_,fun u v writer => ?_,lock.alone⟩
  · rw [lock.state,census_remove others before after]
    omega
  · have apart := lock.apart u t writer
    simp [before] at apart

theorem acquire (lock : ReadWrite state shares exclusive) (free : state = 0) (others : SameBut t exclusive exclusive')
    (after : exclusive' t = true) : ReadWrite (-1) shares exclusive' := by
  have writers : ∀ u, exclusive u = false := by
    intro u
    by_contra writer
    have := lock.written (Bool.not_eq_false _ ▸ writer)
    omega
  have unwritten : census exclusive = 0 := census_eq_zero_iff.mpr writers
  have count := lock.state
  have readers : census shares = 0 := by omega
  refine ⟨?_,fun u v _ => census_eq_zero_iff.mp readers v,fun u v first second => ?_⟩
  · rw [census_add others (writers t) after,unwritten,readers]
    rfl
  · have only : ∀ w, exclusive' w = true → w = t := by
      intro w writer
      by_contra other
      rw [others w other,writers w] at writer
      nomatch writer
    rw [only u first,only v second]

theorem release (lock : ReadWrite state shares exclusive) (others : SameBut t exclusive exclusive')
    (before : exclusive t = true) (after : exclusive' t = false) : ReadWrite 0 shares exclusive' := by
  have writers : ∀ u, exclusive' u = false := by
    intro u
    by_cases acting : u = t
    · rw [acting,after]
    · rw [others u acting]
      by_contra writer
      exact acting (lock.alone t u before (by simpa using writer)).symm
  have unwritten : census exclusive' = 0 := census_eq_zero_iff.mpr writers
  have readers : census shares = 0 := census_eq_zero_iff.mpr fun u => lock.apart t u before
  refine ⟨by rw [unwritten,readers]; rfl,fun u v writer => ?_,fun u v writer => ?_⟩
  · simp [writers u] at writer
  · simp [writers u] at writer

end ReadWrite

def Acyclic (waits : ι → ι → Prop) : Prop := ∀ t, ¬ Relation.TransGen waits t t

theorem Acyclic.mono {waits waits' : ι → ι → Prop} (acyclic : Acyclic waits) (fewer : ∀ t u, waits' t u → waits t u) :
    Acyclic waits' :=
  fun t cycle => acyclic t (Relation.TransGen.mono fewer t t cycle)

theorem Acyclic.extend {waits waits' : ι → ι → Prop} {t : ι} (acyclic : Acyclic waits)
    (others : ∀ u v, u ≠ t → waits' u v → waits u v) (free : ∀ u, ¬ waits' u t) : Acyclic waits' := by
  have target : ∀ u v, Relation.TransGen waits' u v → v ≠ t := by
    rintro u v path rfl
    cases path with
    | single last => exact free u last
    | tail _ last => exact free _ last
  have old : ∀ u v, Relation.TransGen waits' u v → u ≠ t → Relation.TransGen waits u v := by
    intro u v path other
    induction path with
    | single first => exact .single (others u _ other first)
    | tail front last ih => exact .tail ih (others _ _ (target u _ front) last)
  intro u cycle
  exact acyclic u (old u u cycle (target u u cycle))

theorem Acyclic.terminal [Finite ι] {waits : ι → ι → Prop} (acyclic : Acyclic waits) (t : ι) :
    ∃ u, Relation.ReflTransGen waits t u ∧ ∀ v, ¬ waits u v := by
  let above (v u : ι) : Prop := Relation.TransGen waits u v
  have irreflexive : Std.Irrefl above := ⟨acyclic⟩
  have transitive : IsTrans ι above := ⟨fun _ _ _ first second => second.trans first⟩
  have founded : WellFounded above := Finite.wellFounded_of_trans_of_irrefl above
  obtain ⟨u,path,last⟩ := founded.has_min {u | Relation.ReflTransGen waits t u} ⟨t,.refl⟩
  exact ⟨u,path,fun v edge => last v (path.tail edge) (.single edge)⟩

end Aatt.Lib
