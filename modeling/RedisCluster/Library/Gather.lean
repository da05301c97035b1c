import Mathlib.Data.List.Nodup
import Mathlib.Order.Lattice
import Mathlib.Tactic.Push

/-!
# Requests that gather answers until a deadline

A request waits for an answer from each of several parties. It ends with the last
answer, or with the first tick past its deadline, whichever comes first, and keeps the
answers it has by then. An answer may be empty, and answers may come after the end.
-/

set_option autoImplicit false

namespace RedisCluster.Library

/-- The outcome says whether the request timed out. -/
structure Gather (ι α : Type) where
  left : List ι
  got : ι → Option α
  outcome : Option Bool

namespace Gather

/-- What happens to a gathering: an answer, which may have nothing in it, or a tick. -/
inductive Event (ι α τ : Type) where
  | answer (i : ι) (a : Option α)
  | tick (stamp : τ)

variable {ι α τ : Type} [DecidableEq ι] [LinearOrder τ]

/-- Everybody that was asked is awaited. -/
def start (sent : List ι) : Gather ι α :=
  ⟨sent, fun _ => none, if sent = [] then some false else none⟩

/-- An answer that comes after the end is taken off the list, but not kept. -/
def answer (g : Gather ι α) (i : ι) (a : Option α) : Gather ι α :=
  match g.outcome with
  | some b => ⟨g.left.erase i, g.got, some b⟩
  | none => ⟨g.left.erase i, Function.update g.got i a,
      if g.left.erase i = [] then some false else none⟩

/-- A tick behind the deadline ends what is open. -/
def tick (g : Gather ι α) (deadline stamp : τ) : Gather ι α :=
  if g.outcome = none ∧ deadline < stamp then { g with outcome := some true } else g

/-- What the events make of a request; only awaited answers come. -/
inductive Runs (sent : List ι) (deadline : τ) : List (Event ι α τ) → Gather ι α → Prop
  | start : Runs sent deadline [] (start sent)
  | answer {es : List (Event ι α τ)} {g : Gather ι α} (before : Runs sent deadline es g) {i : ι}
      (awaited : i ∈ g.left) (a : Option α) :
      Runs sent deadline (es ++ [.answer i a]) (g.answer i a)
  | tick {es : List (Event ι α τ)} {g : Gather ι α} (before : Runs sent deadline es g)
      (stamp : τ) : Runs sent deadline (es ++ [.tick stamp]) (g.tick deadline stamp)

/-- Every party has answered. -/
def AllIn (sent : List ι) (es : List (Event ι α τ)) : Prop :=
  ∀ i ∈ sent, ∃ a, Event.answer i a ∈ es

/-- A tick came past the deadline. -/
def Late (deadline : τ) (es : List (Event ι α τ)) : Prop :=
  ∃ stamp, Event.tick stamp ∈ es ∧ deadline < stamp

/-- The last answer came before every late tick. -/
def InTime (sent : List ι) (deadline : τ) (es : List (Event ι α τ)) : Prop :=
  ∃ pre, pre <+: es ∧ AllIn sent pre ∧ ¬ Late deadline pre

/-- The answer came while answers were missing and no tick had been late. -/
def Heard (sent : List ι) (deadline : τ) (es : List (Event ι α τ)) (i : ι) (a : α) : Prop :=
  ∃ pre, pre ++ [.answer i (some a)] <+: es ∧ ¬ AllIn sent pre ∧ ¬ Late deadline pre

section Events
variable {sent : List ι} {deadline : τ} {es : List (Event ι α τ)}

omit [DecidableEq ι] [LinearOrder τ] in
theorem allIn_tick {stamp : τ} : AllIn sent (es ++ [.tick stamp]) ↔ AllIn sent es := by
  simp [AllIn]

omit [DecidableEq ι] in
theorem late_answer {i : ι} {a : Option α} :
    Late deadline (es ++ [.answer i a]) ↔ Late deadline es := by
  simp [Late]

omit [DecidableEq ι] in
theorem late_tick {stamp : τ} :
    Late deadline (es ++ [.tick stamp]) ↔ Late deadline es ∨ deadline < stamp := by
  constructor
  · rintro ⟨other, hmem, hlt⟩
    rcases List.mem_append.mp hmem with hmem | hmem
    · exact Or.inl ⟨other, hmem, hlt⟩
    · cases List.mem_singleton.mp hmem
      exact Or.inr hlt
  · rintro (⟨other, hmem, hlt⟩ | hlt)
    · exact ⟨other, List.mem_append_left _ hmem, hlt⟩
    · exact ⟨stamp, by simp, hlt⟩

omit [DecidableEq ι] in
theorem inTime_snoc {e : Event ι α τ} : InTime sent deadline (es ++ [e]) ↔
    InTime sent deadline es ∨ AllIn sent (es ++ [e]) ∧ ¬ Late deadline (es ++ [e]) := by
  unfold InTime
  constructor
  · rintro ⟨pre, hpre, hall⟩
    rcases List.prefix_concat_iff.mp hpre with rfl | hpre
    · exact Or.inr hall
    · exact Or.inl ⟨pre, hpre, hall⟩
  · rintro (⟨pre, hpre, hall⟩ | hall)
    · exact ⟨pre, hpre.trans (List.prefix_append _ _), hall⟩
    · exact ⟨es ++ [e], List.prefix_refl _, hall⟩

omit [DecidableEq ι] in
theorem heard_snoc {e : Event ι α τ} {i : ι} {a : α} : Heard sent deadline (es ++ [e]) i a ↔
    Heard sent deadline es i a ∨
      e = .answer i (some a) ∧ ¬ AllIn sent es ∧ ¬ Late deadline es := by
  unfold Heard
  constructor
  · rintro ⟨pre, hpre, hopen⟩
    rcases List.prefix_concat_iff.mp hpre with heq | hpre
    · obtain ⟨rfl, hlast⟩ := List.append_inj' heq rfl
      exact Or.inr ⟨(List.singleton_inj.mp hlast).symm, hopen⟩
    · exact Or.inl ⟨pre, hpre, hopen⟩
  · rintro (⟨pre, hpre, hopen⟩ | ⟨rfl, hopen⟩)
    · exact ⟨pre, hpre.trans (List.prefix_append _ _), hopen⟩
    · exact ⟨es, List.prefix_refl _, hopen⟩

end Events

/-! ## Runs -/

section Runs
variable {sent : List ι} {deadline : τ} {es : List (Event ι α τ)} {g : Gather ι α}

theorem answer_open {i : ι} {a : Option α} (h : g.outcome = none) : g.answer i a =
    ⟨g.left.erase i, Function.update g.got i a,
      if g.left.erase i = [] then some false else none⟩ := by
  simp only [answer, h]

theorem answer_ended {i : ι} {a : Option α} {b : Bool} (h : g.outcome = some b) :
    g.answer i a = ⟨g.left.erase i, g.got, some b⟩ := by
  simp only [answer, h]

omit [DecidableEq ι] in
theorem tick_late {stamp : τ} (h : g.outcome = none) (late : deadline < stamp) :
    g.tick deadline stamp = { g with outcome := some true } :=
  if_pos ⟨h, late⟩

omit [DecidableEq ι] in
theorem tick_same {stamp : τ} (h : g.outcome ≠ none ∨ ¬ deadline < stamp) :
    g.tick deadline stamp = g :=
  if_neg fun hc => h.elim (fun hne => hne hc.1) fun hle => hle hc.2

@[simp] theorem answer_left (g : Gather ι α) (i : ι) (a : Option α) :
    (g.answer i a).left = g.left.erase i := by
  cases h : g.outcome with
  | none => rw [answer_open h]
  | some b => rw [answer_ended h]

omit [DecidableEq ι] in
@[simp] theorem tick_left (g : Gather ι α) (deadline stamp : τ) :
    (g.tick deadline stamp).left = g.left := by
  unfold tick
  split <;> rfl

omit [DecidableEq ι] in
@[simp] theorem tick_got (g : Gather ι α) (deadline stamp : τ) :
    (g.tick deadline stamp).got = g.got := by
  unfold tick
  split <;> rfl

/-- A missing answer has not been put down, and an open request misses one. -/
structure Sound (g : Gather ι α) : Prop where
  nodup : g.left.Nodup
  fresh : ∀ i ∈ g.left, g.got i = none
  waits : g.outcome = none → g.left ≠ []

omit [DecidableEq ι] in
theorem start_sound (nodup : sent.Nodup) : (start sent : Gather ι α).Sound where
  nodup := nodup
  fresh _ _ := rfl
  waits h := by
    intro hnil
    simp [start, show sent = [] from hnil] at h

theorem Sound.answer (sound : g.Sound) (i : ι) (a : Option α) : (g.answer i a).Sound where
  nodup := by
    rw [answer_left]
    exact sound.nodup.erase i
  fresh j hj := by
    rw [answer_left, sound.nodup.mem_erase_iff] at hj
    cases h : g.outcome with
    | some b =>
      rw [answer_ended h]
      exact sound.fresh j hj.2
    | none =>
      rw [answer_open h]
      exact (Function.update_of_ne hj.1 _ _).trans (sound.fresh j hj.2)
  waits h := by
    intro hnil
    rw [answer_left] at hnil
    cases hout : g.outcome with
    | some b => simp [answer_ended hout] at h
    | none => simp [answer_open hout, hnil] at h

omit [DecidableEq ι] in
theorem Sound.tick (sound : g.Sound) (deadline stamp : τ) : (g.tick deadline stamp).Sound where
  nodup := by
    rw [tick_left]
    exact sound.nodup
  fresh i hi := by
    rw [tick_left] at hi
    rw [tick_got]
    exact sound.fresh i hi
  waits h := by
    rw [tick_left]
    by_cases hc : g.outcome = none ∧ deadline < stamp
    · rw [tick_late hc.1 hc.2] at h
      cases h
    · rw [tick_same (Decidable.not_and_iff_or_not.mp hc)] at h
      exact sound.waits h

theorem Runs.sound (nodup : sent.Nodup) (run : Runs sent deadline es g) : g.Sound := by
  induction run with
  | start => exact start_sound nodup
  | answer before awaited a ih => exact ih.answer _ a
  | tick before stamp ih => exact ih.tick _ stamp

/-- What is left is what has not been answered. -/
theorem Runs.mem_left (nodup : sent.Nodup) (run : Runs sent deadline es g) (i : ι) :
    i ∈ g.left ↔ i ∈ sent ∧ ∀ a, Event.answer i a ∉ es := by
  induction run with
  | start => simp [Gather.start]
  | @answer es g before j awaited a ih =>
    rw [answer_left, (before.sound nodup).nodup.mem_erase_iff, ih]
    constructor
    · rintro ⟨hne, hsent, hold⟩
      refine ⟨hsent, fun b hmem => ?_⟩
      rcases List.mem_append.mp hmem with hmem | hmem
      · exact hold b hmem
      · cases List.mem_singleton.mp hmem
        exact hne rfl
    · rintro ⟨hsent, hnone⟩
      refine ⟨fun heq => ?_, hsent, fun b hmem => hnone b (List.mem_append_left _ hmem)⟩
      subst heq
      exact hnone a (by simp)
  | tick before stamp ih =>
    rw [tick_left, ih]
    simp

/-- Nobody is awaited any more exactly if all have answered. -/
theorem Runs.left_nil (nodup : sent.Nodup) (run : Runs sent deadline es g) :
    g.left = [] ↔ AllIn sent es := by
  rw [List.eq_nil_iff_forall_not_mem]
  constructor
  · intro h i hi
    by_contra hnone
    exact h i ((run.mem_left nodup i).mpr ⟨hi, not_exists.mp hnone⟩)
  · intro h i hi
    obtain ⟨hsent, hnone⟩ := (run.mem_left nodup i).mp hi
    obtain ⟨a, ha⟩ := h i hsent
    exact hnone a ha

/-- The request is open as long as an answer is missing and no tick was late. -/
theorem Runs.open_iff (nodup : sent.Nodup) (run : Runs sent deadline es g) :
    g.outcome = none ↔ ¬ AllIn sent es ∧ ¬ Late deadline es := by
  induction run with
  | start =>
    have hstart : Runs sent deadline ([] : List (Event ι α τ)) (Gather.start sent) := .start
    rw [← hstart.left_nil nodup]
    simp [Gather.start, Late]
  | @answer es g before i awaited a ih =>
    have hnil := (Runs.answer before awaited a).left_nil nodup
    rw [answer_left] at hnil
    rw [← hnil, late_answer]
    have hopen : ¬ AllIn sent es := by
      rw [← before.left_nil nodup]
      exact List.ne_nil_of_mem awaited
    cases hout : g.outcome with
    | some b =>
      have hlate : Late deadline es := by
        by_contra hlate
        have hnone := ih.mpr ⟨hopen, hlate⟩
        rw [hout] at hnone
        cases hnone
      rw [answer_ended hout]
      simp [hlate]
    | none =>
      have hlate := (ih.mp hout).2
      rw [answer_open hout]
      by_cases hleft : g.left.erase i = [] <;> simp [hleft, hlate]
  | @tick es g before stamp ih =>
    rw [allIn_tick, late_tick, not_or, ← and_assoc, ← ih]
    by_cases hc : g.outcome = none ∧ deadline < stamp
    · rw [tick_late hc.1 hc.2]
      simp [hc.2]
    · rw [tick_same (Decidable.not_and_iff_or_not.mp hc)]
      exact ⟨fun h => ⟨h, fun hlt => hc ⟨h, hlt⟩⟩, fun h => h.1⟩

/-- What ended with somebody awaited ended by the deadline. -/
theorem Runs.ended_late (nodup : sent.Nodup) (run : Runs sent deadline es g) {i : ι} {b : Bool}
    (awaited : i ∈ g.left) (h : g.outcome = some b) : Late deadline es := by
  by_contra hlate
  have hmissing : ¬ AllIn sent es := by
    rw [← run.left_nil nodup]
    exact List.ne_nil_of_mem awaited
  have hnone := (run.open_iff nodup).mpr ⟨hmissing, hlate⟩
  rw [h] at hnone
  cases hnone

/-- It ends without a timeout exactly if the last answer comes before every late tick. -/
theorem Runs.inTime_iff (nodup : sent.Nodup) (run : Runs sent deadline es g) :
    g.outcome = some false ↔ InTime sent deadline es := by
  induction run with
  | start =>
    have begin : Runs sent deadline [] (Gather.start sent : Gather ι α) := .start
    have hnil := begin.left_nil nodup
    simp [InTime, Late, ← hnil, Gather.start]
  | @answer es g before i awaited a ih =>
    rw [inTime_snoc, ← ih]
    have hnil := (Runs.answer before awaited a).left_nil nodup
    rw [answer_left] at hnil
    cases hout : g.outcome with
    | some b =>
      have hlate := before.ended_late nodup awaited hout
      rw [answer_ended hout]
      simp [late_answer, hlate]
    | none =>
      have hopen := (before.open_iff nodup).mp hout
      have hne := List.ne_nil_of_mem awaited
      rw [answer_open hout, ← hnil, late_answer]
      simp [hopen.2, hne]
  | @tick es g before stamp ih =>
    rw [inTime_snoc, ← ih]
    by_cases hc : g.outcome = none ∧ deadline < stamp
    · rw [tick_late hc.1 hc.2]
      simp [hc.1, late_tick, hc.2]
    · rw [tick_same (Decidable.not_and_iff_or_not.mp hc)]
      refine ⟨Or.inl, fun h => h.elim id fun hall => ?_⟩
      rw [allIn_tick, late_tick, not_or] at hall
      exact ih.mpr ⟨es, List.prefix_refl _, hall.1, hall.2.1⟩

/-- It keeps exactly the non-empty answers that came while it was open. -/
theorem Runs.got_iff (nodup : sent.Nodup) (run : Runs sent deadline es g) (i : ι) (a : α) :
    g.got i = some a ↔ Heard sent deadline es i a := by
  induction run with
  | start => simp [Gather.start, Heard]
  | @answer es g before j awaited b ih =>
    rw [heard_snoc, ← ih, ← before.open_iff nodup]
    cases hout : g.outcome with
    | some b =>
      rw [answer_ended hout]
      simp
    | none =>
      rw [answer_open hout]
      by_cases hij : i = j
      · subst hij
        have hfresh := (before.sound nodup).fresh i awaited
        simp [hfresh]
      · simp [Function.update_of_ne hij, Ne.symm hij]
  | @tick es g before stamp ih =>
    rw [tick_got, heard_snoc, ← ih]
    simp

end Runs
end Gather
end RedisCluster.Library
