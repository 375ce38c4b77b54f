import Mathlib.Data.List.Basic

/-! What can be seen of a machine that reports as it goes: the reports so far and how it has ended. Two
machines behave the same if each shows, after enough steps, whatever the other one shows. -/
namespace Aatt.Lib

universe u v w x
variable {σ : Type u} {τ : Type v} {ρ : Type w} {ε : Type x}

/-- A step reports, and goes on in a state or ends. -/
structure Move (σ : Type u) (ρ : Type w) (ε : Type x) where
  reports : List ρ
  next : σ ⊕ ε

def Move.after (reports : List ρ) (move : Move σ ρ ε) : Move σ ρ ε := ⟨reports ++ move.reports,move.next⟩

abbrev Observation (ρ : Type w) (ε : Type x) := List ρ × Option ε

/-- What the first `n` steps show. -/
def observe (step : σ → Move σ ρ ε) : σ → Nat → Observation ρ ε
  | _, 0 => ([],none)
  | s, n + 1 =>
    match step s with
    | ⟨reports,.inl next⟩ => (reports ++ (observe step next n).1,(observe step next n).2)
    | ⟨reports,.inr ending⟩ => (reports,some ending)

/-- The second observation is the first one or a later one. -/
def Continues (first second : Observation ρ ε) : Prop := first = second ∨ first.2 = none ∧ first.1 <+: second.1

def SameBehaviour (f g : Nat → Observation ρ ε) : Prop :=
  (∀ n, ∃ k, Continues (f n) (g k)) ∧ ∀ n, ∃ k, Continues (g n) (f k)

theorem sameBehaviour_of_eq {f g : Nat → Observation ρ ε} (eq : ∀ n, f n = g n) : SameBehaviour f g :=
  ⟨fun n => ⟨n,.inl (eq n)⟩,fun n => ⟨n,.inl (eq n).symm⟩⟩

/-- Reports made before the observed machine starts. -/
def prepend (reports : List ρ) (observation : Observation ρ ε) : Observation ρ ε :=
  (reports ++ observation.1,observation.2)

theorem continues_prepend (reports : List ρ) (first second : Observation ρ ε) :
    Continues (prepend reports first) (prepend reports second) ↔ Continues first second := by
  obtain ⟨early,ending⟩ := first
  obtain ⟨late,ending'⟩ := second
  simp [Continues,prepend]

theorem sameBehaviour_prepend (reports : List ρ) (f g : Nat → Observation ρ ε) :
    SameBehaviour (fun n => prepend reports (f n)) (fun n => prepend reports (g n)) ↔ SameBehaviour f g := by
  simp only [SameBehaviour,continues_prepend]

theorem observe_next {step : σ → Move σ ρ ε} {s next : σ} {reports : List ρ} (taken : step s = ⟨reports,.inl next⟩)
    (n : Nat) : observe step s (n + 1) = prepend reports (observe step next n) := by
  rw [observe,taken]
  rfl

theorem observe_end {step : σ → Move σ ρ ε} {s : σ} {reports : List ρ} {ending : ε}
    (taken : step s = ⟨reports,.inr ending⟩) (n : Nat) : observe step s (n + 1) = (reports,some ending) := by
  rw [observe,taken]

/-- Two machines that take the same step, into related states or to the same end. -/
inductive Agree (related : σ → τ → Prop) : Move σ ρ ε → Move τ ρ ε → Prop where
  | next {reports : List ρ} {s : σ} {t : τ} (onward : related s t) : Agree related ⟨reports,.inl s⟩ ⟨reports,.inl t⟩
  | ending {reports : List ρ} {ending : ε} : Agree related ⟨reports,.inr ending⟩ ⟨reports,.inr ending⟩

theorem Agree.after {related : σ → τ → Prop} {a : Move σ ρ ε} {b : Move τ ρ ε} (agree : Agree related a b)
    (reports : List ρ) : Agree related (a.after reports) (b.after reports) := by
  cases agree with
  | next onward => exact .next onward
  | ending => exact .ending

theorem Agree.mono {related weaker : σ → τ → Prop} {a : Move σ ρ ε} {b : Move τ ρ ε} (agree : Agree related a b)
    (implies : ∀ s t, related s t → weaker s t) : Agree weaker a b := by
  cases agree with
  | next onward => exact .next (implies _ _ onward)
  | ending => exact .ending

theorem observe_eq_of_agree {left : σ → Move σ ρ ε} {right : τ → Move τ ρ ε} (related : σ → τ → Prop)
    (agree : ∀ s t, related s t → Agree related (left s) (right t)) (n : Nat) (s : σ) (t : τ) (start : related s t) :
    observe left s n = observe right t n := by
  induction n generalizing s t with
  | zero => rfl
  | succ n ih =>
    rcases first : left s with ⟨reports,next⟩
    rcases second : right t with ⟨reports',next'⟩
    have stepwise := agree s t start
    rw [first,second] at stepwise
    cases stepwise with
    | next onward => rw [observe_next first,observe_next second,ih _ _ onward]
    | ending => rw [observe_end first,observe_end second]

theorem found_after_step {left : σ → Move σ ρ ε} {right : τ → Move τ ρ ε} {s s' : σ} {t t' : τ} {reports : List ρ}
    (first : left s = ⟨reports,.inl s'⟩) (second : right t = ⟨reports,.inl t'⟩)
    (found : ∀ n, ∃ k, Continues (observe left s n) (observe right t k)) (n : Nat) :
    ∃ k, Continues (observe left s' n) (observe right t' k) := by
  obtain ⟨k,continues⟩ := found (n + 1)
  rw [observe_next first] at continues
  cases k with
  | zero =>
    refine ⟨0,.inr ?_⟩
    rcases continues with same | ⟨unfinished,early⟩
    · have parts := Prod.mk.inj same
      rw [(List.append_eq_nil_iff.mp parts.1).2]
      exact ⟨parts.2,List.nil_prefix⟩
    · rw [(List.append_eq_nil_iff.mp (List.prefix_nil.mp early)).2]
      exact ⟨unfinished,List.nil_prefix⟩
  | succ k =>
    rw [observe_next second,continues_prepend] at continues
    exact ⟨k,continues⟩

theorem SameBehaviour.after_step {left : σ → Move σ ρ ε} {right : τ → Move τ ρ ε} {s s' : σ} {t t' : τ}
    {reports : List ρ} (same : SameBehaviour (observe left s) (observe right t))
    (first : left s = ⟨reports,.inl s'⟩) (second : right t = ⟨reports,.inl t'⟩) :
    SameBehaviour (observe left s') (observe right t') :=
  ⟨found_after_step first second same.1,found_after_step second first same.2⟩

theorem SameBehaviour.ends {left : σ → Move σ ρ ε} {g : Nat → Observation ρ ε} {s : σ} {reports : List ρ} {ending : ε}
    (same : SameBehaviour (observe left s) g) (taken : left s = ⟨reports,.inr ending⟩) :
    ∃ k, g k = (reports,some ending) := by
  obtain ⟨k,continues⟩ := same.1 1
  rw [observe_end taken] at continues
  rcases continues with shown | ⟨unfinished,-⟩
  · exact ⟨k,shown.symm⟩
  · cases unfinished

/-- The machine ends after finitely many steps, with these reports. -/
def Ends (step : σ → Move σ ρ ε) (s : σ) (reports : List ρ) (ending : ε) : Prop :=
    ∃ n, observe step s n = (reports,some ending)

theorem ends_next {step : σ → Move σ ρ ε} {s next : σ} {early : List ρ} (taken : step s = ⟨early,.inl next⟩)
    (reports : List ρ) (ending : ε) :
    Ends step s reports ending ↔ ∃ late, reports = early ++ late ∧ Ends step next late ending := by
  constructor
  · rintro ⟨n,shown⟩
    cases n with
    | zero => nomatch congrArg Prod.snd shown
    | succ n =>
      rw [observe_next taken] at shown
      obtain ⟨rfl,ended⟩ := Prod.mk.inj shown
      exact ⟨_,rfl,n,Prod.ext rfl ended⟩
  · rintro ⟨late,rfl,n,shown⟩
    refine ⟨n + 1,?_⟩
    rw [observe_next taken,shown]
    rfl

theorem ends_end {step : σ → Move σ ρ ε} {s : σ} {last : List ρ} {ended : ε} (taken : step s = ⟨last,.inr ended⟩)
    (reports : List ρ) (ending : ε) : Ends step s reports ending ↔ reports = last ∧ ending = ended := by
  constructor
  · rintro ⟨n,shown⟩
    cases n with
    | zero => nomatch congrArg Prod.snd shown
    | succ n =>
      rw [observe_end taken] at shown
      obtain ⟨same,same'⟩ := Prod.mk.inj shown
      exact ⟨same.symm,(Option.some.inj same').symm⟩
  · rintro ⟨rfl,rfl⟩
    exact ⟨1,observe_end taken 0⟩

theorem not_ends_of_trapped {step : σ → Move σ ρ ε} {trap : σ → Prop}
    (trapped : ∀ s, trap s → ∃ reports next, step s = ⟨reports,.inl next⟩ ∧ trap next) {s : σ} (inside : trap s)
    (reports : List ρ) (ending : ε) : ¬ Ends step s reports ending := by
  rintro ⟨n,shown⟩
  induction n generalizing s reports with
  | zero => nomatch congrArg Prod.snd shown
  | succ n ih =>
    obtain ⟨early,next,taken,onward⟩ := trapped s inside
    rw [observe_next taken] at shown
    exact ih onward _ (Prod.ext rfl (Prod.mk.inj shown).2)

end Aatt.Lib
