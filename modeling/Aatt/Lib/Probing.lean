import Mathlib.Data.Multiset.Filter
import Mathlib.Data.Multiset.Range
import Mathlib.Logic.Function.Basic
import Mathlib.Tactic.SplitIfs

/-! Linear probing on a ring of slots. An element with an ideal slot lies in the first free slot from there on. Taking
one out leaves a hole, which moves forward until an empty slot follows it. -/
namespace Aatt.Lib.Probing

/-- The steps forward from `a` to `b` on a ring of `n` slots. -/
def dist (n a b : Nat) : Nat := if a ≤ b then b - a else b + n - a

def next (n i : Nat) : Nat := if n ≤ i + 1 then 0 else i + 1

variable {n a i j : Nat}

theorem next_lt (inside : i < n) : next n i < n := by
  unfold next
  split <;> omega

theorem dist_lt (start : a < n) (inside : i < n) : dist n a i < n := by
  unfold dist
  split <;> omega

theorem dist_self (n a : Nat) : dist n a a = 0 := by
  simp [dist]

theorem eq_of_dist (start : a < n) (first : i < n) (second : j < n) (same : dist n a i = dist n a j) : i = j := by
  unfold dist at same
  split_ifs at same <;> omega

theorem dist_next (start : a < n) (inside : i < n) (more : dist n a i + 1 < n) :
    dist n a (next n i) = dist n a i + 1 := by
  unfold dist next at *
  split_ifs at * <;> omega

theorem next_dist (first : i < n) (second : j < n) (apart : i ≠ j) : dist n (next n i) j + 1 = dist n i j := by
  unfold dist next
  split_ifs <;> omega

/-- Going from `a` to `j`, one passes `i`. -/
theorem dist_add (start : a < n) (first : i < n) (second : j < n) (before : dist n a i ≤ dist n a j) :
    dist n a i + dist n i j = dist n a j := by
  unfold dist at *
  split_ifs at * <;> omega

theorem dist_trans (start : a < n) (first : i < n) (short : dist n a i + dist n i j < n) :
    dist n a j = dist n a i + dist n i j := by
  unfold dist at *
  split_ifs at * <;> omega

theorem dist_back (start : a < n) (inside : i < n) (other : a ≠ i) : dist n a i + dist n i a = n := by
  unfold dist
  split_ifs <;> omega

/-- The first slot from `i` on where the search stops. -/
def firstFrom (n : Nat) (stop : Nat → Bool) : Nat → Nat → Option Nat
  | 0,_ => none
  | fuel + 1,i => if stop i then some i else firstFrom n stop fuel (next n i)

theorem firstFrom_spec (stop : Nat → Bool) {f : Nat} (start : a < n) (goal : f < n) (stops : stop f = true) :
    ∃ i < n, firstFrom n stop n a = some i ∧ stop i = true ∧ ∀ j < n, dist n a j < dist n a i → stop j = false := by
  have search (fuel : Nat) : ∀ i < n, dist n a f < dist n a i + fuel →
    (∀ j < n, dist n a j < dist n a i → stop j = false) →
      ∃ k < n, firstFrom n stop fuel i = some k ∧ stop k = true ∧ ∀ j < n, dist n a j < dist n a k →
        stop j = false := by
    induction fuel with
    | zero =>
      intro i _ near passed
      rw [passed f goal near] at stops
      cases stops
    | succ fuel ih =>
      intro i inside near passed
      rw [firstFrom]
      cases here : stop i with
      | true => exact ⟨i,inside,rfl,here,passed⟩
      | false =>
        have beyond : dist n a i < dist n a f := by
          by_contra ended
          rcases Nat.lt_or_eq_of_le (Nat.not_lt.mp ended) with before | same
          · rw [passed f goal before] at stops
            cases stops
          · rw [eq_of_dist start goal inside same,here] at stops
            cases stops
        have step := dist_next start inside (Nat.lt_of_le_of_lt beyond (dist_lt start goal))
        refine ih (next n i) (next_lt inside) (by omega) fun j within before => ?_
        rcases Nat.lt_or_eq_of_le (Nat.le_of_lt_succ (step ▸ before)) with earlier | same
        · exact passed j within earlier
        · rw [eq_of_dist start within inside same]
          exact here
  refine search n a start (by have := dist_lt start goal; omega) fun j _ before => ?_
  rw [dist_self] at before
  exact absurd before (Nat.not_lt_zero _)

section Slots

variable {α : Type} {ideal : α → Nat} {slot : Nat → Option α} {x y : α} {e f : Nat}

/-- No empty slot lies between the ideal slot of an element and its own. -/
def Unbroken (n : Nat) (ideal : α → Nat) (slot : Nat → Option α) : Prop :=
  ∀ i < n, ∀ x, slot i = some x → ∀ j < n, dist n (ideal x) j < dist n (ideal x) i → slot j ≠ none

theorem Unbroken.empty (n : Nat) (ideal : α → Nat) : Unbroken n ideal fun _ => none := by
  rintro i - x ⟨⟩

theorem update_some_ne_none (occupied : slot j ≠ none) : Function.update slot i (some x) j ≠ none := by
  by_cases same : j = i
  · rw [same,Function.update_self]
    exact Option.some_ne_none x
  · rwa [Function.update_of_ne same]

theorem Unbroken.fill (unbroken : Unbroken n ideal slot)
    (first : ∀ j < n, dist n (ideal x) j < dist n (ideal x) i → slot j ≠ none) :
    Unbroken n ideal (Function.update slot i (some x)) := by
  intro k inside z found j within before
  refine update_some_ne_none ?_
  by_cases same : k = i
  · subst same
    rw [Function.update_self] at found
    cases found
    exact first j within before
  · rw [Function.update_of_ne same] at found
    exact unbroken k inside z found j within before

theorem Unbroken.replace (unbroken : Unbroken n ideal slot) (inside : i < n) (found : slot i = some x)
    (same : ideal y = ideal x) :
    Unbroken n ideal (Function.update slot i (some y)) :=
  unbroken.fill (same ▸ unbroken i inside x found)

theorem Unbroken.missed_none (unbroken : Unbroken n ideal slot) {p : α → Bool} (start : ideal x < n) (inside : i < n)
    (free : slot i = none) (passed : ∀ j < n, dist n (ideal x) j < dist n (ideal x) i → (slot j).all p = false)
    (within : j < n) (found : slot j = some x) : p x = false := by
  rcases Nat.lt_trichotomy (dist n (ideal x) j) (dist n (ideal x) i) with before | same | after
  · have missed := passed j within before
    rwa [found] at missed
  · rw [eq_of_dist start within inside same,free] at found
    cases found
  · exact absurd free (unbroken j within x found i inside after)

def contents (n : Nat) (slot : Nat → Option α) : Multiset α := (Multiset.range n).filterMap slot

theorem mem_contents : x ∈ contents n slot ↔ ∃ i < n, slot i = some x := by
  simp [contents,Multiset.mem_filterMap]

theorem contents_empty (n : Nat) : contents n (fun _ => (none : Option α)) = 0 := by
  refine Multiset.eq_zero_of_forall_notMem fun x member => ?_
  obtain ⟨i,-,found⟩ := mem_contents.mp member
  cases found

theorem contents_update_some (slot : Nat → Option α) (inside : i < n) (x : α) :
    contents n (Function.update slot i (some x)) = x ::ₘ contents n (Function.update slot i none) := by
  obtain ⟨others,split⟩ := Multiset.exists_cons_of_mem (Multiset.mem_range.mpr inside)
  have once : i ∉ others := by
    have nodup := Multiset.nodup_range n
    rw [split] at nodup
    exact (Multiset.nodup_cons.mp nodup).1
  have rest : others.filterMap (Function.update slot i (some x)) = others.filterMap (Function.update slot i none) := by
    induction others using Quotient.inductionOn with
    | h others =>
      refine congrArg _ (List.filterMap_congr fun j member => ?_)
      have other : j ≠ i := fun same => once (same ▸ member)
      rw [Function.update_of_ne other,Function.update_of_ne other]
  rw [contents,contents,split,Multiset.filterMap_cons_some _ _ _ (Function.update_self ..),
    Multiset.filterMap_cons_none _ _ (Function.update_self ..),rest]

theorem contents_insert (inside : i < n) (free : slot i = none) (x : α) :
    contents n (Function.update slot i (some x)) = x ::ₘ contents n slot := by
  rw [contents_update_some slot inside,← free,Function.update_eq_self]

theorem contents_remove (inside : i < n) (found : slot i = some x) :
    contents n slot = x ::ₘ contents n (Function.update slot i none) := by
  rw [← contents_update_some slot inside,← found,Function.update_eq_self]

theorem contents_move (first : e < n) (second : i < n) (apart : i ≠ e) (found : slot i = some x) :
    contents n (Function.update (Function.update slot e (some x)) i none) = contents n
      (Function.update slot e none) := by
  have kept : Function.update slot e none i = some x := (Function.update_of_ne apart ..).trans found
  rw [Function.update_comm apart.symm,contents_update_some _ first,contents_remove second kept,
    Function.update_comm apart]

theorem card_full (full : ∀ i < n, slot i ≠ none) : (contents n slot).card = n := by
  induction n with
  | zero => rfl
  | succ n ih =>
    obtain ⟨x,found⟩ := Option.ne_none_iff_exists'.mp (full n (Nat.lt_succ_self n))
    have rest : ((Multiset.range n).filterMap slot).card = n := ih fun i inside => full i (Nat.lt_succ_of_lt inside)
    rw [contents,Multiset.range_succ,Multiset.filterMap_cons_some _ _ _ found,Multiset.card_cons,rest]

theorem exists_free (fewer : (contents n slot).card < n) : ∃ i < n, slot i = none := by
  by_contra! full
  exact Nat.ne_of_lt fewer (card_full full)

/-- The slot `e` is a hole, whatever is still written there. Up to `next`, all slots are occupied and no element behind
the hole needs it. -/
structure Hole (n : Nat) (ideal : α → Nat) (slot : Nat → Option α) (e next : Nat) : Prop where
  probes : ∀ i < n, i ≠ e → ∀ x, slot i = some x → ∀ j < n, dist n (ideal x) j < dist n (ideal x) i → slot j ≠ none
  occupied : ∀ j < n, dist n e j ≤ dist n e next → slot j ≠ none
  settled : ∀ j < n, 0 < dist n e j → dist n e j ≤ dist n e next → ∀ x, slot j = some x →
    dist n (ideal x) j < dist n e j

theorem Unbroken.hole (unbroken : Unbroken n ideal slot) (start : e < n) (found : slot e ≠ none) :
    Hole n ideal slot e e where
  probes := fun i inside _ => unbroken i inside
  occupied := fun j within near => by
    rw [dist_self,Nat.le_zero] at near
    rwa [eq_of_dist start within start (near.trans (dist_self n e).symm)]
  settled := fun j _ occupied near => by
    rw [dist_self] at near
    omega

namespace Hole

variable {k : Nat}

theorem ahead (hole : Hole n ideal slot e k) (goal : f < n) (free : slot f = none) : dist n e k < dist n e f := by
  by_contra behind
  exact hole.occupied f goal (Nat.not_lt.mp behind) free

theorem skip (hole : Hole n ideal slot e k) (start : e < n) (inside : k < n) (more : dist n e k + 1 < n)
    (found : slot (next n k) = some x) (ideal_lt : ideal x < n) (needless : 0 < dist n e (ideal x))
    (near : dist n e (ideal x) ≤ dist n e (next n k)) : Hole n ideal slot e (next n k) := by
  have step := dist_next start inside more
  have between := dist_add start ideal_lt (next_lt inside) near
  refine ⟨hole.probes,fun j within reached => ?_,fun j within occupied reached z present => ?_⟩
  · rcases Nat.lt_or_eq_of_le reached with before | same
    · exact hole.occupied j within (by omega)
    · rw [eq_of_dist start within (next_lt inside) same,found]
      exact Option.some_ne_none x
  · rcases Nat.lt_or_eq_of_le reached with before | same
    · exact hole.settled j within occupied (by omega) z present
    · obtain rfl := eq_of_dist start within (next_lt inside) same
      rw [found] at present
      cases present
      omega

theorem move (hole : Hole n ideal slot e k) (start : e < n) (inside : k < n) (more : dist n e k + 1 < n)
    (found : slot (next n k) = some x) (ideal_lt : ideal x < n)
    (needed : dist n e (ideal x) = 0 ∨ dist n e (next n k) < dist n e (ideal x)) :
    Hole n ideal (Function.update slot e (some x)) (next n k) (next n k) := by
  have step := dist_next start inside more
  have apart : next n k ≠ e := by
    intro same
    rw [same,dist_self] at step
    omega
  have earlier : dist n (ideal x) e ≤ dist n (ideal x) (next n k) := by
    rcases needed with same | beyond
    · rw [eq_of_dist start ideal_lt start (same.trans (dist_self n e).symm),dist_self]
      exact Nat.zero_le _
    · have around := dist_back start ideal_lt (by rintro rfl; rw [dist_self] at beyond; omega)
      have between := dist_add start (next_lt inside) ideal_lt (Nat.le_of_lt beyond)
      have across := dist_back (next_lt inside) ideal_lt (by rintro same; rw [same] at beyond; omega)
      omega
  refine ⟨fun i within other z present j reachable before => update_some_ne_none ?_,fun j within near => ?_,
    fun j _ occupied near => ?_⟩
  · by_cases moved : i = e
    · subst moved
      rw [Function.update_self] at present
      cases present
      exact hole.probes (next n k) (next_lt inside) apart x found j reachable (Nat.lt_of_lt_of_le before earlier)
    · rw [Function.update_of_ne moved] at present
      exact hole.probes i within moved z present j reachable before
  · rw [dist_self,Nat.le_zero] at near
    obtain rfl := eq_of_dist (next_lt inside) within (next_lt inside) (near.trans (dist_self n _).symm)
    rw [Function.update_of_ne apart,found]
    exact Option.some_ne_none x
  · rw [dist_self] at near
    omega

theorem close (hole : Hole n ideal slot e k) (start : e < n) (inside : k < n) (more : dist n e k + 1 < n)
    (free : slot (next n k) = none) (ideal_lt : ∀ x, ideal x < n) : Unbroken n ideal (Function.update slot e none) := by
  have step := dist_next start inside more
  intro i within z present j reachable before
  have other : i ≠ e := by
    rintro rfl
    rw [Function.update_self] at present
    cases present
  rw [Function.update_of_ne other] at present
  by_cases crossed : j = e
  · subst crossed
    have across := dist_add (ideal_lt z) start within (Nat.le_of_lt before)
    have around := dist_lt (ideal_lt z) within
    rcases Nat.lt_or_ge (dist n j k) (dist n j i) with beyond | near
    · have apart : dist n j (next n k) ≠ dist n j i := by
        intro same
        rw [eq_of_dist start (next_lt inside) within same,present] at free
        cases free
      have passed := dist_trans (j := next n k) (ideal_lt z) start (by omega)
      exact absurd free (hole.probes i within other z present (next n k) (next_lt inside) (by omega))
    · have settled := hole.settled i within (by omega) near z present
      omega
  · rw [Function.update_of_ne crossed]
    exact hole.probes i within other z present j reachable before

end Hole

end Slots

end Aatt.Lib.Probing
