import Mathlib.Data.List.Basic

/-! Runs of a partial step function. An action that is not enabled ends the run,
so a statement about every prefix covers exactly the states that are reached. -/
namespace Aatt.Lib

universe u v
variable {σ : Type u} {α : Type v} {step : α → σ → Option σ}

def run (step : α → σ → Option σ) : List α → σ → Option σ
  | [], s => some s
  | a :: rest, s => (step a s).bind (run step rest)

@[simp] theorem run_nil (s : σ) : run step [] s = some s := rfl

theorem run_cons (a : α) (rest : List α) (s : σ) :
    run step (a :: rest) s = (step a s).bind (run step rest) := rfl

theorem run_append (front back : List α) (s : σ) :
    run step (front ++ back) s = (run step front s).bind (run step back) := by
  induction front generalizing s with
  | nil => rfl
  | cons a front ih =>
    simp only [List.cons_append,run_cons]
    cases step a s with
    | none => rfl
    | some next => exact ih next

/-- `property` holds in every state that the actions reach, the first included. -/
def Throughout (step : α → σ → Option σ) (property : σ → Prop) (actions : List α) (s : σ) : Prop :=
  ∀ front back middle, actions = front ++ back → run step front s = some middle → property middle

/-- `condition` holds of every action at the state in which the run takes it. -/
def EachStep (step : α → σ → Option σ) (condition : α → σ → Prop) (actions : List α) (s : σ) : Prop :=
  ∀ front a back middle next, actions = front ++ a :: back → run step front s = some middle →
    step a middle = some next → condition a middle

theorem EachStep.head {condition : α → σ → Prop} {a : α} {rest : List α} {s next : σ}
    (each : EachStep step condition (a :: rest) s) (taken : step a s = some next) : condition a s :=
  each [] a rest s next rfl rfl taken

theorem EachStep.tail {condition : α → σ → Prop} {a : α} {rest : List α} {s next : σ}
    (each : EachStep step condition (a :: rest) s) (taken : step a s = some next) :
    EachStep step condition rest next := by
  intro front b back middle after split reached enabled
  refine each (a :: front) b back middle after (by rw [split]; rfl) ?_ enabled
  simpa [run_cons,taken] using reached

/-- A property kept by every step that meets the condition holds at the end of a run
whose steps all meet it. -/
theorem run_invariant {condition : α → σ → Prop} (property : σ → Prop)
    (preserved : ∀ a s next, property s → condition a s → step a s = some next → property next)
    (actions : List α) (s final : σ) (each : EachStep step condition actions s)
    (initial : property s) (reached : run step actions s = some final) : property final := by
  induction actions generalizing s with
  | nil =>
    cases reached
    exact initial
  | cons a rest ih =>
    rw [run_cons] at reached
    obtain ⟨next,taken,onward⟩ := Option.bind_eq_some_iff.mp reached
    exact ih next (each.tail taken) (preserved a s next initial (each.head taken) taken) onward

theorem EachStep.front {condition : α → σ → Prop} {front back : List α} {s : σ}
    (each : EachStep step condition (front ++ back) s) : EachStep step condition front s := by
  intro before a after middle next split reached taken
  exact each before a (after ++ back) middle next (by simp [split]) reached taken

theorem throughout_of_each {condition : α → σ → Prop} (property : σ → Prop)
    (preserved : ∀ a s next, property s → condition a s → step a s = some next → property next)
    (actions : List α) (s : σ) (each : EachStep step condition actions s) (initial : property s) :
    Throughout step property actions s := by
  intro front back middle split reached
  subst split
  exact run_invariant property preserved front s middle each.front initial reached

theorem throughout_of_step (property : σ → Prop)
    (preserved : ∀ a s next, property s → step a s = some next → property next) (actions : List α) (s : σ)
    (initial : property s) : Throughout step property actions s := by
  have each : EachStep step (fun _ _ => True) actions s := fun _ _ _ _ _ _ _ _ => trivial
  exact throughout_of_each property (fun a s next holds _ => preserved a s next holds) actions s each initial

theorem Throughout.final {property : σ → Prop} {actions : List α} {s final : σ}
    (throughout : Throughout step property actions s) (reached : run step actions s = some final) : property final :=
  throughout actions [] final (List.append_nil actions).symm reached

theorem Throughout.after {property : σ → Prop} {actions front back : List α} {a : α} {s middle next : σ}
    (throughout : Throughout step property actions s) (split : actions = front ++ a :: back)
    (reached : run step front s = some middle) (taken : step a middle = some next) :
    property next := by
  refine throughout (front ++ [a]) back next (by simp [split]) ?_
  simp [run_append,reached,run_cons,taken]

/-- A run keeps a property exactly when all its steps meet a condition, if the condition keeps an
invariant that implies the property, and a step that keeps the property under the invariant
meets the condition. -/
theorem throughout_iff_each {condition : α → σ → Prop} (invariant property : σ → Prop)
    (enough : ∀ s, invariant s → property s)
    (preserved : ∀ a s next, invariant s → condition a s → step a s = some next → invariant next)
    (needed : ∀ a s next, invariant s → step a s = some next → property next → condition a s)
    (actions : List α) (s : σ) (initial : invariant s) :
    Throughout step property actions s ↔ EachStep step condition actions s := by
  constructor
  · intro throughout front
    induction front generalizing actions s with
    | nil =>
      intro a back middle next split reached taken
      cases reached
      exact needed a s next initial taken (throughout.after split rfl taken)
    | cons b front ih =>
      intro a back middle next split reached taken
      subst split
      rw [run_cons] at reached
      obtain ⟨after,first,onward⟩ := Option.bind_eq_some_iff.mp reached
      have kept : property after := throughout [b] (front ++ a :: back) after rfl (by simp [run_cons,first])
      have met : condition b s := needed b s after initial first kept
      refine ih (front ++ a :: back) after (preserved b s after initial met first) ?_ a back middle next
        rfl onward taken
      intro before rest state cut ran
      exact throughout (b :: before) rest state (by simp [cut]) (by simpa [run_cons,first] using ran)
  · intro each front back middle split reached
    exact enough middle (throughout_of_each invariant preserved actions s each initial front back middle split reached)

/-- A relation between two machines that every step of one of them keeps together with a step of the other
holds after every run. -/
theorem run_simulation {τ : Type*} {other : α → τ → Option τ} (related : σ → τ → Prop)
    (matched : ∀ a s t next, related s t → step a s = some next → ∃ after, other a t = some after ∧ related next after)
    (actions : List α) (s final : σ) (t : τ) (initial : related s t) (reached : run step actions s = some final) :
    ∃ after, run other actions t = some after ∧ related final after := by
  induction actions generalizing s t with
  | nil =>
    cases reached
    exact ⟨t,rfl,initial⟩
  | cons a rest ih =>
    rw [run_cons] at reached
    obtain ⟨next,taken,onward⟩ := Option.bind_eq_some_iff.mp reached
    obtain ⟨middle,answer,kept⟩ := matched a s t next initial taken
    obtain ⟨after,ran,holds⟩ := ih next middle kept onward
    exact ⟨after,by simp [run_cons,answer,ran],holds⟩

/-- Runs the actions and checks the condition at each step. -/
def checkEach (step : α → σ → Option σ) (condition : α → σ → Prop) [∀ a s, Decidable (condition a s)] :
    List α → σ → Bool
  | [], _ => true
  | a :: rest, s =>
    match step a s with
    | none => true
    | some next => decide (condition a s) && checkEach step condition rest next

theorem eachStep_of_check (condition : α → σ → Prop) [∀ a s, Decidable (condition a s)] (actions : List α) (s : σ)
    (checked : checkEach step condition actions s = true) : EachStep step condition actions s := by
  intro front a back middle next split reached taken
  induction front generalizing actions s with
  | nil =>
    cases reached
    subst split
    rw [List.nil_append,checkEach,taken] at checked
    exact of_decide_eq_true (Bool.and_eq_true_iff.mp checked).1
  | cons b front ih =>
    subst split
    rw [run_cons] at reached
    obtain ⟨after,first,onward⟩ := Option.bind_eq_some_iff.mp reached
    rw [List.cons_append,checkEach,first] at checked
    exact ih _ after (Bool.and_eq_true_iff.mp checked).2 rfl onward

/-- `event` has happened, and no `reset` after it. -/
def Since (event reset : α → Prop) (history : List α) : Prop :=
  ∃ front a back, history = front ++ a :: back ∧ event a ∧ ∀ b ∈ back, ¬ reset b

theorem not_since_nil (event reset : α → Prop) : ¬ Since event reset [] := by
  rintro ⟨front,a,back,split,-⟩
  simp at split

theorem since_concat (event reset : α → Prop) (history : List α) (a : α) :
    Since event reset (history ++ [a]) ↔ event a ∨ ¬ reset a ∧ Since event reset history := by
  constructor
  · rintro ⟨front,b,back,split,happened,kept⟩
    rcases List.eq_nil_or_concat back with rfl | ⟨middle,last,rfl⟩
    · obtain ⟨-,same⟩ := List.append_inj' split rfl
      cases same
      exact .inl happened
    · rw [List.concat_eq_append] at split kept
      rw [← List.cons_append,← List.append_assoc] at split
      obtain ⟨rfl,same⟩ := List.append_inj' split rfl
      cases same
      exact .inr ⟨kept a (by simp),front,b,middle,rfl,happened,fun c member => kept c (by simp [member])⟩
  · rintro (happened | ⟨keeps,front,b,back,rfl,happened,kept⟩)
    · exact ⟨history,a,[],rfl,happened,nofun⟩
    · refine ⟨front,b,back ++ [a],by simp,happened,fun c member => ?_⟩
      rcases List.mem_append.mp member with early | last
      · exact kept c early
      · exact List.mem_singleton.mp last ▸ keeps

end Aatt.Lib
