import Mathlib.Data.List.Induction

/-!
# Runs

The states that a machine reaches, event after event: an event may happen where it is
enabled, and a step without a result is where the machine would go wrong.
-/

set_option autoImplicit false

namespace RedisCluster.Library

/-- The last event of a list is the one of a split, or it is among those after it. -/
theorem snoc_split {α : Type} {es past since : List α} {e e₀ : α} : es ++ [e] = past ++ e₀ :: since ↔
    (since = [] ∧ past = es ∧ e₀ = e) ∨ ∃ since', since = since' ++ [e] ∧ es = past ++ e₀ :: since' := by
  constructor
  · intro h
    rcases List.eq_nil_or_concat since with rfl | ⟨since', last, hsince⟩
    · obtain ⟨rfl, heq⟩ := List.append_inj' h rfl
      cases heq
      exact Or.inl ⟨rfl, rfl, rfl⟩
    · rw [List.concat_eq_append] at hsince
      subst hsince
      have hfront : es ++ [e] = (past ++ e₀ :: since') ++ [last] := by
        rw [h, List.append_assoc, List.cons_append]
      obtain ⟨rfl, heq⟩ := List.append_inj' hfront rfl
      cases heq
      exact Or.inr ⟨since', rfl, rfl⟩
  · rintro (⟨rfl, rfl, rfl⟩ | ⟨since', rfl, rfl⟩)
    · rfl
    · simp

/-- Where every step keeps a property exactly if it is harmless, the property holds all along a
run exactly if all of its steps are harmless. -/
theorem always_iff {α : Type} {es : List α} {P : List α → Prop} {harmless : List α → α → Prop}
    (init : P []) (keeps : ∀ pre e post, es = pre ++ e :: post → P pre →
      (P (pre ++ [e]) ↔ harmless pre e)) :
    (∀ pre post, es = pre ++ post → P pre) ↔
      ∀ pre e post, es = pre ++ e :: post → harmless pre e := by
  constructor
  · intro always pre e post heq
    exact (keeps pre e post heq (always pre _ heq)).mp (always (pre ++ [e]) post (by simp [heq]))
  · intro steps pre
    induction pre using List.reverseRecOn with
    | nil => exact fun _ _ => init
    | append_singleton pre e ih =>
      intro post heq
      have hsplit : es = pre ++ e :: post := by simp [heq]
      exact (keeps pre e post hsplit (ih _ hsplit)).mpr (steps pre e post hsplit)

section Machine
variable {σ ε : Type} {enabled : σ → ε → Prop} {step : σ → ε → Option σ} {s s' s₁ : σ} {es : List ε}
  {e : ε}

inductive Run (enabled : σ → ε → Prop) (step : σ → ε → Option σ) (s : σ) : List ε → σ → Prop
  | nil : Run enabled step s [] s
  | snoc {es : List ε} {e : ε} {s₁ s₂ : σ} (run : Run enabled step s es s₁) (may : enabled s₁ e)
      (next : step s₁ e = some s₂) : Run enabled step s (es ++ [e]) s₂

namespace Run

/-- The state before the last event. -/
theorem before_last (run : Run enabled step s (es ++ [e]) s') :
    ∃ s₁, Run enabled step s es s₁ ∧ enabled s₁ e ∧ step s₁ e = some s' := by
  generalize hall : es ++ [e] = all at run
  cases run with
  | nil => simp at hall
  | snoc run may next =>
    obtain ⟨rfl, heq⟩ := List.append_inj' hall rfl
    cases heq
    exact ⟨_, run, may, next⟩

/-- The events say which state is reached. -/
theorem deterministic (run : Run enabled step s es s') (run₁ : Run enabled step s es s₁) : s₁ = s' := by
  induction run generalizing s₁ with
  | nil =>
    generalize hall : [] = all at run₁
    cases run₁ with
    | nil => rfl
    | snoc run may next => simp at hall
  | snoc run may next ih =>
    obtain ⟨s₂, run₂, _, next₂⟩ := run₁.before_last
    rw [ih run₂, next] at next₂
    exact (Option.some_inj.mp next₂).symm

/-- A run goes through the states of its first events. -/
theorem first {past rest : List ε} (run : Run enabled step s (past ++ rest) s') :
    ∃ s₁, Run enabled step s past s₁ := by
  induction rest using List.reverseRecOn generalizing s' with
  | nil =>
    rw [List.append_nil] at run
    exact ⟨s', run⟩
  | append_singleton rest e ih =>
    rw [← List.append_assoc] at run
    obtain ⟨s₂, run₂, _⟩ := run.before_last
    exact ih run₂

/-- A run that goes on from where another one ended. -/
theorem trans {s₂ : σ} {es' : List ε} (run : Run enabled step s es s₁) (run' : Run enabled step s₁ es' s₂) :
    Run enabled step s (es ++ es') s₂ := by
  induction run' with
  | nil =>
    rw [List.append_nil]
    exact run
  | snoc _ may next ih =>
    rw [← List.append_assoc]
    exact ih.snoc may next

theorem one (may : enabled s e) (next : step s e = some s') : Run enabled step s [e] s' :=
  Run.nil.snoc may next

theorem mono {enabled' : σ → ε → Prop} (may : ∀ s e, enabled s e → enabled' s e)
    (run : Run enabled step s es s') : Run enabled' step s es s' := by
  induction run with
  | nil => exact .nil
  | snoc _ hmay next ih => exact .snoc ih (may _ _ hmay) next

/-- What holds at the start and is kept by every step holds of what a run reaches, whatever
it says of the events so far. -/
theorem invariant {P : List ε → σ → Prop} (init : P [] s)
    (keep : ∀ es s₁ e s₂, P es s₁ → enabled s₁ e → step s₁ e = some s₂ → P (es ++ [e]) s₂)
    (run : Run enabled step s es s') : P es s' := by
  induction run with
  | nil => exact init
  | snoc run may next ih => exact keep _ _ _ _ ih may next

end Run
end Machine
end RedisCluster.Library
