import RedisCluster.Library.Run

/-!
# Histories of overlapping calls

Calls with numbers act on places, each at one moment. A history is linear if no call acts twice on
a place, all that it does lies after its call, and what it returns was true at the moment it
acted.
-/

set_option autoImplicit false

namespace RedisCluster.Library

/-- What happens, in its order. -/
inductive Note (ω α ρ ε : Type) where
  | called (n : Nat) (op : ω)
  | acted (n : Nat) (op : ω) (place : α)
  | returned (n : Nat) (result : ρ)
  /-- Something happens to every place. -/
  | passed (e : ε)

section History
variable {ω α ρ ε β : Type} [DecidableEq α] (event : ω → ε) (spec : List ε → ω → β)
  (answer : ρ → α → Option β)

def Note.eventAt (place : α) : Note ω α ρ ε → Option ε
  | .acted _ op place' => if place' = place then some (event op) else none
  | .passed e => some e
  | _ => none

/-- What has happened to a place. -/
def happenedAt (place : α) (log : List (Note ω α ρ ε)) : List ε :=
  log.filterMap (Note.eventAt event place)

/-- The call has acted on the place since it was called, and this was its answer then. -/
def ActedWith (log : List (Note ω α ρ ε)) (n : Nat) (place : α) (b : β) : Prop :=
  ∃ op before since after, log = before ++ .called n op :: since ++ .acted n op place :: after ∧
    b = spec (happenedAt event place (before ++ .called n op :: since)) op

structure Linear (log : List (Note ω α ρ ε)) : Prop where
  called : ∀ pre n op post, log = pre ++ .called n op :: post → ∀ op', .called n op' ∉ pre
  acted : ∀ pre n op place post, log = pre ++ .acted n op place :: post →
    .called n op ∈ pre ∧ ∀ op', .acted n op' place ∉ pre
  returned : ∀ pre n result post, log = pre ++ .returned n result :: post →
    (∃ op, .called n op ∈ pre) ∧ (∀ result', .returned n result' ∉ pre) ∧
      ∀ place b, answer result place = some b → ActedWith event spec pre n place b

variable {event spec answer} {log : List (Note ω α ρ ε)} {n : Nat} {op : ω} {place : α} {result : ρ}
  {b : β}

theorem happenedAt_snoc (place : α) (log : List (Note ω α ρ ε)) (e : Note ω α ρ ε) :
    happenedAt event place (log ++ [e]) =
      happenedAt event place log ++ (e.eventAt event place).toList := by
  unfold happenedAt
  rw [List.filterMap_append, List.filterMap_cons]
  cases e.eventAt event place <;> rfl

theorem ActedWith.append (h : ActedWith event spec log n place b) (rest : List (Note ω α ρ ε)) :
    ActedWith event spec (log ++ rest) n place b := by
  obtain ⟨op, before, since, after, rfl, hb⟩ := h
  exact ⟨op, before, since, after ++ rest, by simp, hb⟩

/-- The last action of a call, with its answer. -/
theorem ActedWith.last (called : .called n op ∈ log) :
    ActedWith event spec (log ++ [.acted n op place]) n place (spec (happenedAt event place log) op) := by
  obtain ⟨before, since, rfl⟩ := List.append_of_mem called
  exact ⟨op, before, since, [], by simp, rfl⟩

namespace Linear

theorem empty : Linear event spec answer ([] : List (Note ω α ρ ε)) where
  called pre n op post h := by simp at h
  acted pre n op place post h := by simp at h
  returned pre n result post h := by simp at h

variable (h : Linear event spec answer log)

include h in
/-- A history goes on with something that its calls so far allow. -/
theorem snoc (e : Note ω α ρ ε) (called : ∀ n op, e = .called n op → ∀ op', .called n op' ∉ log)
    (acted : ∀ n op place, e = .acted n op place →
      .called n op ∈ log ∧ ∀ op', .acted n op' place ∉ log)
    (returned : ∀ n result, e = .returned n result → (∃ op, .called n op ∈ log) ∧
      (∀ result', .returned n result' ∉ log) ∧
        ∀ place b, answer result place = some b → ActedWith event spec log n place b) :
    Linear event spec answer (log ++ [e]) where
  called pre n op post heq := by
    rcases snoc_split.mp heq with ⟨_, rfl, rfl⟩ | ⟨post', _, rfl⟩
    · exact called n op rfl
    · exact h.called pre n op post' rfl
  acted pre n op place post heq := by
    rcases snoc_split.mp heq with ⟨_, rfl, rfl⟩ | ⟨post', _, rfl⟩
    · exact acted n op place rfl
    · exact h.acted pre n op place post' rfl
  returned pre n result post heq := by
    rcases snoc_split.mp heq with ⟨_, rfl, rfl⟩ | ⟨post', _, rfl⟩
    · exact returned n result rfl
    · exact h.returned pre n result post' rfl

include h in
theorem snoc_called (fresh : ∀ op', .called n op' ∉ log) :
    Linear event spec answer (log ++ [.called n op]) := by
  refine h.snoc _ ?_ (fun _ _ _ heq => by cases heq) (fun _ _ heq => by cases heq)
  intro n' op' heq
  cases heq
  exact fresh

include h in
theorem snoc_acted (called : .called n op ∈ log) (fresh : ∀ op', .acted n op' place ∉ log) :
    Linear event spec answer (log ++ [.acted n op place]) := by
  refine h.snoc _ (fun _ _ heq => by cases heq) ?_ (fun _ _ heq => by cases heq)
  intro n' op' place' heq
  cases heq
  exact ⟨called, fresh⟩

include h in
theorem snoc_returned (called : ∃ op, .called n op ∈ log) (fresh : ∀ result', .returned n result' ∉ log)
    (answers : ∀ place b, answer result place = some b → ActedWith event spec log n place b) :
    Linear event spec answer (log ++ [.returned n result]) := by
  refine h.snoc _ (fun _ _ heq => by cases heq) (fun _ _ _ heq => by cases heq) ?_
  intro n' result' heq
  cases heq
  exact ⟨called, fresh, answers⟩

include h in
theorem snoc_passed (e : ε) : Linear event spec answer (log ++ [.passed e]) :=
  h.snoc _ (fun _ _ heq => by cases heq) (fun _ _ _ heq => by cases heq) fun _ _ heq => by cases heq

include h in
/-- What returned before a call has acted before it. -/
theorem in_order {pre mid post : List (Note ω α ρ ε)} {m : Nat} {op' : ω}
    (heq : log = pre ++ .returned n result :: mid ++ .called m op' :: post)
    (hanswer : answer result place = some b) : (∃ op, .acted n op place ∈ pre) ∧
      ∀ op₁ place₁, .acted m op₁ place₁ ∉ pre ++ .returned n result :: mid := by
  constructor
  · obtain ⟨_, _, answers⟩ := h.returned pre n result (mid ++ .called m op' :: post) (by simp [heq])
    obtain ⟨op, before, since, after, rfl, _⟩ := answers place b hanswer
    exact ⟨op, by simp⟩
  · intro op₁ place₁ hmem
    obtain ⟨first, rest, hsplit⟩ := List.append_of_mem hmem
    obtain ⟨hcalled, _⟩ := h.acted first m op₁ place₁ (rest ++ .called m op' :: post)
      (by rw [heq, hsplit]; simp)
    refine h.called (pre ++ .returned n result :: mid) m op' post heq op₁ ?_
    rw [hsplit]
    exact List.mem_append_left _ hcalled

end Linear
end History
end RedisCluster.Library
