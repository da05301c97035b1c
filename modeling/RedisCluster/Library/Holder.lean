import Mathlib.Logic.Function.Basic

/-!
# Something that at most one thread holds

Every thread has at most one program left. The holder's meets one condition, those of all others
meet another one. Both conditions may speak of a state that the threads share, so a step that
changes this state may change them as well.
-/

set_option autoImplicit false

namespace RedisCluster.Library

/-- A program that is left after an update is the new one, or it is another thread's. -/
theorem update_eq_some {ι P : Type} [DecidableEq ι] {running : ι → Option P} {i j : ι} {p : P}
    {q : Option P} (h : Function.update running i q j = some p) :
    (j = i ∧ q = some p) ∨ (j ≠ i ∧ running j = some p) := by
  by_cases heq : j = i
  · subst heq
    rw [Function.update_self] at h
    exact Or.inl ⟨rfl, h⟩
  · rw [Function.update_of_ne heq] at h
    exact Or.inr ⟨heq, h⟩

/-- What is left of the programs, seen from the holder. -/
structure Parted {ι P : Type} (In Out : ι → P → Prop) (running : ι → Option P) (holder : Option ι) :
    Prop where
  inside : ∀ i, holder = some i → ∃ p, running i = some p ∧ In i p
  outside : ∀ i p, holder ≠ some i → running i = some p → Out i p

namespace Parted
variable {ι P : Type} {In Out In' Out' : ι → P → Prop} {running : ι → Option P} {holder : Option ι}
  {i : ι}

theorem nobody (outside : ∀ i p, running i = some p → Out i p) : Parted In Out running none where
  inside _ h := by cases h
  outside i p _ hp := outside i p hp

/-- The shared state changes under the threads, and none of them goes on. -/
theorem mono (h : Parted In Out running holder) (hin : ∀ i p, In i p → In' i p)
    (hout : ∀ i p, Out i p → Out' i p) : Parted In' Out' running holder where
  inside i hholder := by
    obtain ⟨p, hp, hinside⟩ := h.inside i hholder
    exact ⟨p, hp, hin i p hinside⟩
  outside i p hholder hp := hout i p (h.outside i p hholder hp)

theorem not_holder (h : Parted In Out running holder) (gone : running i = none) :
    holder ≠ some i := by
  intro heq
  obtain ⟨p, hp, _⟩ := h.inside i heq
  rw [gone] at hp
  cases hp

/-- The program of the holder is inside. -/
theorem holder_inside (h : Parted In Out running holder) {p : P} (hp : running i = some p)
    (hholder : holder = some i) : In i p := by
  obtain ⟨p', hp', hinside⟩ := h.inside i hholder
  rw [hp] at hp'
  cases hp'
  exact hinside

section Update
variable [DecidableEq ι] {p : P} {q : Option P}

/-- A thread that is not the holder begins, goes on or ends. -/
theorem replace (h : Parted In Out running holder) (hne : holder ≠ some i)
    (hq : ∀ p, q = some p → Out i p) : Parted In Out (Function.update running i q) holder where
  inside j hholder := by
    obtain ⟨p, hp, hinside⟩ := h.inside j hholder
    refine ⟨p, (Function.update_of_ne ?_ _ _).trans hp, hinside⟩
    rintro rfl
    exact hne hholder
  outside j p hholder hp := by
    rcases update_eq_some hp with ⟨rfl, hnew⟩ | ⟨_, hold⟩
    · exact hq p hnew
    · exact h.outside j p hholder hold

/-- Nobody else is the holder before this step of the thread, and nobody is after it. -/
theorem leaves (h : Parted In Out running holder) (alone : ∀ j, holder = some j → j = i)
    (hout : ∀ j p, Out j p → Out' j p) (hq : ∀ p, q = some p → Out' i p) :
    Parted In' Out' (Function.update running i q) none := by
  refine nobody fun j p hp => ?_
  rcases update_eq_some hp with ⟨rfl, hnew⟩ | ⟨hne, hold⟩
  · exact hq p hnew
  · exact hout j p (h.outside j p (fun hholder => hne (alone j hholder)) hold)

/-- Nobody else is the holder before this step of the thread, which is it afterwards. -/
theorem holds (h : Parted In Out running holder) (alone : ∀ j, holder = some j → j = i)
    (hout : ∀ j p, Out j p → Out' j p) (hp : In' i p) :
    Parted In' Out' (Function.update running i (some p)) (some i) where
  inside j hholder := by
    cases hholder
    exact ⟨p, Function.update_self .., hp⟩
  outside j q hholder hq := by
    rcases update_eq_some hq with ⟨rfl, _⟩ | ⟨hne, hold⟩
    · exact absurd rfl hholder
    · exact hout j q (h.outside j q (fun hother => hne (alone j hother)) hold)

end Update
end Parted
end RedisCluster.Library
