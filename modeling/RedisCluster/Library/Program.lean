import Mathlib.Tactic.Common

/-!
# Programs over a service

A program is a tree of calls to a service, with a continuation for every
response. The service is given in two ways: `run` executes the program against a
deterministic service, `wp` quantifies over every response an environment may
give. An environment may fail a call before or after it took effect, and a run
may be cut off between any two calls (`Stops`), so one program text is reasoned
about under normal and under faulty behavior.

Routines are programs that may leave early; their loops are `List.forM` and
`List.foldlM`, and the `Ok` lemmas invert a successful run step by step.
-/

set_option autoImplicit false

namespace RedisCluster.Library

/-- A program that makes calls: it is done, or waits for the answer to a call. -/
inductive Program {Call : Type} (Resp : Call → Type) (α : Type) where
  | done (value : α)
  | call (c : Call) (next : Resp c → Program Resp α)

namespace Program

variable {Call : Type} {Resp : Call → Type} {State α β γ ε ε' : Type}

/-- One program after the other. -/
def bind : Program Resp α → (α → Program Resp β) → Program Resp β
  | .done value, f => f value
  | .call c next, f => .call c fun r => (next r).bind f

instance : Monad (Program Resp) where
  pure := .done
  bind := bind

@[simp] theorem done_bind (value : α) (f : α → Program Resp β) :
    ((.done value : Program Resp α) >>= f) = f value := rfl

@[simp] theorem call_bind (c : Call) (next : Resp c → Program Resp α)
    (f : α → Program Resp β) :
    ((.call c next : Program Resp α) >>= f) = .call c fun r => next r >>= f := rfl

private theorem bind_done (p : Program Resp α) : p.bind .done = p := by
  induction p with
  | done value => rfl
  | call c next ih => exact congrArg (Program.call c) (funext ih)

private theorem bind_bind (p : Program Resp α) (f : α → Program Resp β)
    (g : β → Program Resp γ) : (p.bind f).bind g = p.bind fun value => (f value).bind g := by
  induction p with
  | done value => rfl
  | call c next ih => exact congrArg (Program.call c) (funext ih)

instance : LawfulMonad (Program Resp) :=
  LawfulMonad.mk' (Program Resp) bind_done (fun _ _ => rfl) bind_bind

/-- One call whose response is the result. -/
def ask (c : Call) : Program Resp (Resp c) := .call c .done

/-! ## Deterministic execution -/

/-- Every call is served at once. -/
def run (serve : (c : Call) → State → Resp c × State) : Program Resp α → State → α × State
  | .done value, s => (value, s)
  | .call c next, s => run serve (next (serve c s).1) (serve c s).2

section Run
variable (serve : (c : Call) → State → Resp c × State)

@[simp] theorem run_pure (value : α) (s : State) :
    run serve (pure value : Program Resp α) s = (value, s) := rfl

/-- Running two programs is running the second from where the first has come to. -/
@[simp] theorem run_bind (p : Program Resp α) (f : α → Program Resp β) (s : State) :
    run serve (p >>= f) s = run serve (f (run serve p s).1) (run serve p s).2 := by
  induction p generalizing s with
  | done value => rfl
  | call c next ih => exact ih _ _

@[simp] theorem run_map (f : α → β) (p : Program Resp α) (s : State) :
    run serve (f <$> p) s = (f (run serve p s).1, (run serve p s).2) := by
  rw [map_eq_pure_bind, run_bind, run_pure]

@[simp] theorem run_ask (c : Call) (s : State) :
    run serve (ask c : Program Resp (Resp c)) s = serve c s := rfl

end Run

/-! ## Environments -/

/-- What an environment may answer to a call, and the state it leaves. -/
abbrev Env (Resp : Call → Type) (State : Type) :=
  (c : Call) → State → Resp c → State → Prop

/-- The environment that always serves the call. -/
def Served (serve : (c : Call) → State → Resp c × State) : Env Resp State :=
  fun c s r s' => serve c s = (r, s')

/-- The run ends with a value. -/
inductive Returns (env : Env Resp State) : Program Resp α → State → α → State → Prop
  | done (value : α) (s : State) : Returns env (.done value) s value s
  | call {c next s r s' value s''} (answered : env c s r s')
      (rest : Returns env (next r) s' value s'') : Returns env (.call c next) s value s''

/-- The states in which a run may be cut off, the first and the last included. -/
inductive Stops (env : Env Resp State) : Program Resp α → State → State → Prop
  | here (p : Program Resp α) (s : State) : Stops env p s s
  | later {c next s r s' s''} (answered : env c s r s')
      (rest : Stops env (next r) s' s'') : Stops env (.call c next) s s''

/-- Every cut-off state satisfies `inv` and every result satisfies `post`. -/
def wp (env : Env Resp State) (inv : State → Prop) (post : α → State → Prop) :
    Program Resp α → State → Prop
  | .done value, s => inv s ∧ post value s
  | .call c next, s => inv s ∧ ∀ r s', env c s r s' → wp env inv post (next r) s'

section Wp
variable {env : Env Resp State} {inv : State → Prop}

/-- A program that keeps an invariant starts with it. -/
theorem wp.here {post : α → State → Prop} {p : Program Resp α} {s : State}
    (h : wp env inv post p s) : inv s := by
  cases p with
  | done value => exact h.1
  | call c next => exact h.1

@[simp] theorem wp_pure {post : α → State → Prop} {value : α} {s : State} :
    wp env inv post (pure value) s ↔ inv s ∧ post value s := Iff.rfl

/-- The rule of consequence. -/
theorem wp.mono {post post' : α → State → Prop} {p : Program Resp α} {s : State}
    (h : wp env inv post p s) (himp : ∀ value s, post value s → post' value s) :
    wp env inv post' p s := by
  induction p generalizing s with
  | done value => exact ⟨h.1, himp value s h.2⟩
  | call c next ih => exact ⟨h.1, fun r s' hr => ih r (h.2 r s' hr)⟩

/-- Another invariant that the run does not break either. -/
theorem wp.weaken {inv' : State → Prop} {post : α → State → Prop} {p : Program Resp α} {s : State}
    (h : wp env inv post p s) (himp : ∀ s, inv s → inv' s) : wp env inv' post p s := by
  induction p generalizing s with
  | done value => exact ⟨himp s h.1, h.2⟩
  | call c next ih => exact ⟨himp s h.1, fun r s' hr => ih r (h.2 r s' hr)⟩

/-- The invariant may be read off the result state as well. -/
theorem wp.keeps {post : α → State → Prop} {p : Program Resp α} {s : State}
    (h : wp env inv post p s) : wp env inv (fun value s' => inv s' ∧ post value s') p s := by
  induction p generalizing s with
  | done value => exact ⟨h.1, h⟩
  | call c next ih => exact ⟨h.1, fun r s' hr => ih r (h.2 r s' hr)⟩

/-- The rule of composition: the first program makes true what the second one needs. -/
theorem wp.bind {post : β → State → Prop} {p : Program Resp α} {f : α → Program Resp β}
    {s : State} (h : wp env inv (fun value => wp env inv post (f value)) p s) :
    wp env inv post (p >>= f) s := by
  induction p generalizing s with
  | done value => exact h.2
  | call c next ih => exact ⟨h.1, fun r s' hr => ih r (h.2 r s' hr)⟩

/-- A result is reached through cut-off states. -/
theorem Returns.stops {p : Program Resp α} {s s' : State} {value : α}
    (h : Returns env p s value s') : Stops env p s s' := by
  induction h with
  | done value s => exact .here _ s
  | call answered _ ih => exact .later answered ih

theorem Stops.bind {p : Program Resp α} {f : α → Program Resp β} {s s' : State}
    (h : Stops env p s s') : Stops env (p >>= f) s s' := by
  induction h with
  | here p s => exact .here _ s
  | later answered _ ih => exact .later answered ih

theorem Returns.bind_stops {p : Program Resp α} {f : α → Program Resp β} {s s' s'' : State}
    {value : α} (h : Returns env p s value s') (stop : Stops env (f value) s' s'') :
    Stops env (p >>= f) s s'' := by
  induction h with
  | done value s => exact stop
  | call answered _ ih => exact .later answered (ih stop)

theorem Returns.mono {env' : Env Resp State} (h : ∀ c s r s', env c s r s' → env' c s r s')
    {p : Program Resp α} {s s' : State} {value : α} (run : Returns env p s value s') :
    Returns env' p s value s' := by
  induction run with
  | done value s => exact .done value s
  | call answered _ ih => exact .call (h _ _ _ _ answered) ih

/-- What stops under the answers of one environment stops under those of a wider one. -/
theorem Stops.mono {env' : Env Resp State} (h : ∀ c s r s', env c s r s' → env' c s r s')
    {p : Program Resp α} {s s' : State} (stop : Stops env p s s') : Stops env' p s s' := by
  induction stop with
  | here p s => exact .here p s
  | later answered _ ih => exact .later (h _ _ _ _ answered) ih

/-- Wherever a program is cut off that keeps an invariant, the invariant holds. -/
theorem wp.stops {post : α → State → Prop} {p : Program Resp α} {s s' : State}
    (h : wp env inv post p s) (stop : Stops env p s s') : inv s' := by
  induction stop with
  | here p s => exact h.here
  | later answered _ ih => exact ih (h.2 _ _ answered)

/-- What a program returns with is what was shown of it. -/
theorem wp.returns {post : α → State → Prop} {p : Program Resp α} {s s' : State} {value : α}
    (h : wp env inv post p s) (ret : Returns env p s value s') : post value s' := by
  induction ret with
  | done value s => exact h.2
  | call answered _ ih => exact ih (h.2 _ _ answered)

end Wp

/-- The run comes to a point from where the rest of the program goes on. -/
inductive Reaches (env : Env Resp State) : Program Resp α → State → Program Resp α → State → Prop
  | here (p : Program Resp α) (s : State) : Reaches env p s p s
  | later {c next s r s' p s''} (answered : env c s r s')
      (rest : Reaches env (next r) s' p s'') : Reaches env (.call c next) s p s''

section Reaches
variable {env : Env Resp State} {p q : Program Resp α} {s s' s'' : State}

theorem Reaches.trans {q' : Program Resp α} (h : Reaches env p s q s') (h' : Reaches env q s' q' s'') :
    Reaches env p s q' s'' := by
  induction h with
  | here p s => exact h'
  | later answered _ ih => exact .later answered (ih h')

/-- One more call. -/
theorem Reaches.answered {c : Call} {next : Resp c → Program Resp α} {r : Resp c}
    (h : Reaches env p s (.call c next) s') (answered : env c s' r s'') :
    Reaches env p s (next r) s'' :=
  h.trans (.later answered (.here _ _))

/-- The rest of a program may have more behind it. -/
theorem Reaches.bind {f : α → Program Resp β} (h : Reaches env p s q s') :
    Reaches env (p >>= f) s (q >>= f) s' := by
  induction h with
  | here p s => exact .here _ s
  | later answered _ ih => exact .later answered ih

theorem Reaches.stops (h : Reaches env p s q s') : Stops env p s s' := by
  induction h with
  | here p s => exact .here p s
  | later answered _ ih => exact .later answered ih

theorem Reaches.returns {value : α} (h : Reaches env p s (.done value) s') :
    Returns env p s value s' := by
  generalize hq : (.done value : Program Resp α) = q at h
  induction h with
  | here p s =>
    subst hq
    exact .done value s
  | later answered _ ih => exact .call answered (ih hq)

end Reaches

/-- A deterministic run is the only run of the served environment. -/
theorem returns_served {serve : (c : Call) → State → Resp c × State} {p : Program Resp α}
    {s s' : State} {value : α} :
    Returns (Served serve) p s value s' ↔ run serve p s = (value, s') := by
  constructor
  · intro h
    induction h with
    | done value s => rfl
    | call answered _ ih => rw [run, answered]; exact ih
  · intro h
    induction p generalizing s with
    | done v =>
      obtain ⟨rfl, rfl⟩ := Prod.mk.inj h
      exact .done _ _
    | call c next ih =>
      have answered : Served serve c s (serve c s).1 (serve c s).2 := rfl
      exact .call answered (ih _ h)

/-- The state after the first `n` calls of a run. -/
def cutAt (serve : (c : Call) → State → Resp c × State) : Nat → Program Resp α → State → State
  | n + 1, .call c next, s => cutAt serve n (next (serve c s).1) (serve c s).2
  | _, _, s => s

theorem stops_cutAt (serve : (c : Call) → State → Resp c × State) (n : Nat) (p : Program Resp α)
    (s : State) : Stops (Served serve) p s (cutAt serve n p s) := by
  induction n generalizing p s with
  | zero => exact .here p s
  | succ n ih =>
    cases p with
    | done value => exact .here _ s
    | call c next => exact .later rfl (ih _ _)

/-! ## The calls of a run -/

/-- The calls of a program that is served. -/
def calls (serve : (c : Call) → State → Resp c × State) : Program Resp α → State → List Call
  | .done _, _ => []
  | .call c next, s => c :: calls serve (next (serve c s).1) (serve c s).2

/-- Calls of two programs one after the other. -/
theorem calls_bind (serve : (c : Call) → State → Resp c × State) (p : Program Resp α)
    (f : α → Program Resp β) (s : State) :
    calls serve (p >>= f) s =
      calls serve p s ++ calls serve (f (run serve p s).1) (run serve p s).2 := by
  induction p generalizing s with
  | done value => rfl
  | call c next ih => exact congrArg (List.cons c) (ih _ _)

@[simp] theorem calls_pure (serve : (c : Call) → State → Resp c × State) (value : α) (s : State) :
    calls serve (pure value : Program Resp α) s = [] := rfl

/-- Every call of the run passes a test where it is made; this can be computed. -/
def callsPass (serve : (c : Call) → State → Resp c × State) (test : Call → State → Bool) :
    Program Resp α → State → Bool
  | .done _, _ => true
  | .call c next, s => test c s && callsPass serve test (next (serve c s).1) (serve c s).2

/-- A deterministic run is one of an environment that allows what its calls do. -/
theorem returns_of_callsPass {serve : (c : Call) → State → Resp c × State} {env : Env Resp State}
    {test : Call → State → Bool} {p : Program Resp α} {s : State}
    (allowed : ∀ c s, test c s = true → env c s (serve c s).1 (serve c s).2)
    (pass : callsPass serve test p s = true) : Returns env p s (run serve p s).1 (run serve p s).2 := by
  induction p generalizing s with
  | done value => exact .done value s
  | call c next ih =>
    rw [callsPass, Bool.and_eq_true] at pass
    exact .call (allowed c s pass.1) (ih _ pass.2)

/-- A service that answers alike what is asked of it. -/
theorem run_alike {serve serve' : (c : Call) → State → Resp c × State} {p : Program Resp α} {s : State}
    (alike : ∀ c ∈ calls serve p s, ∀ s, serve c s = serve' c s) : run serve p s = run serve' p s := by
  induction p generalizing s with
  | done value => rfl
  | call c next ih =>
    rw [run, run, ← alike c List.mem_cons_self s]
    exact ih _ fun c' hc' => alike c' (List.mem_cons_of_mem _ hc')

/-- An environment that answers anything, and whose state says whether all the calls so far
were of one kind. -/
def OfKind (Resp : Call → Type) (kind : Call → Prop) : Env Resp Prop :=
  fun c s _ s' => s' = (s ∧ kind c)

/-- Calls of that kind keep what each of them keeps. -/
theorem wp.of_kind {kind : Call → Prop} {env : Env Resp State} {inv : State → Prop}
    {post : α → Prop → Prop} {p : Program Resp α} (h : wp (OfKind Resp kind) id post p True)
    (keeps : ∀ c s r s', kind c → inv s → env c s r s' → inv s') {s : State} (hs : inv s) :
    wp env inv (fun _ _ => True) p s := by
  induction p generalizing s with
  | done value => exact ⟨hs, trivial⟩
  | call c next ih =>
    refine ⟨hs, fun r s' answered => ?_⟩
    have hnext := h.2 r _ rfl
    have hkind : kind c := hnext.here.2
    rw [eq_true (And.intro trivial hkind)] at hnext
    exact ih r hnext (keeps c s r s' hkind hs answered)

/-- A program that only makes calls of a kind makes no others when it is served. -/
theorem wp.calls_of_kind {kind : Call → Prop} {post : α → Prop → Prop} {p : Program Resp α}
    (h : wp (OfKind Resp kind) id post p True) (serve : (c : Call) → State → Resp c × State)
    (s : State) : ∀ c ∈ calls serve p s, kind c := by
  induction p generalizing s with
  | done value => simp [calls]
  | call c next ih =>
    have hnext := h.2 (serve c s).1 _ rfl
    have hkind : kind c := hnext.here.2
    rw [eq_true (And.intro trivial hkind)] at hnext
    rw [calls, List.forall_mem_cons]
    exact ⟨hkind, ih _ hnext _⟩

end Program

/-! ## Routines that may leave early -/

/-- A program that may leave early with an error. -/
abbrev Routine {Call : Type} (Resp : Call → Type) (ε α : Type) :=
  ExceptT ε (Program Resp) α

namespace Routine
open Program

variable {Call : Type} {Resp : Call → Type} {State α β ε ε' : Type}

def ask (c : Call) : Routine Resp ε (Resp c) := ExceptT.lift (Program.ask c)

/-- The deterministic run ends without an error. -/
def Ok (serve : (c : Call) → State → Resp c × State) (x : Routine Resp ε α) (s : State)
    (value : α) (s' : State) : Prop :=
  Program.run serve x.run s = (.ok value, s')

section Ok
variable {serve : (c : Call) → State → Resp c × State}

@[simp] theorem ok_pure {value result : α} {s s' : State} :
    Ok serve (pure value : Routine Resp ε α) s result s' ↔ value = result ∧ s = s' := by
  simp [Ok]

@[simp] theorem ok_throw {e : ε} {result : α} {s s' : State} :
    ¬ Ok serve (throw e : Routine Resp ε α) s result s' := by
  simp [Ok]

@[simp] theorem ok_ask {c : Call} {r : Resp c} {s s' : State} :
    Ok serve (ask c : Routine Resp ε (Resp c)) s r s' ↔ serve c s = (r, s') := by
  simp [Ok, ask, Prod.ext_iff]

/-- Two routines succeed if both do, the second from where the first has come to. -/
theorem ok_bind {x : Routine Resp ε α} {f : α → Routine Resp ε β} {s s'' : State} {result : β} :
    Ok serve (x >>= f) s result s'' ↔
      ∃ value s', Ok serve x s value s' ∧ Ok serve (f value) s' result s'' := by
  simp only [Ok, ExceptT.run_bind, run_bind]
  rcases h : Program.run serve x.run s with ⟨r, s'⟩
  cases r with
  | ok value => simp
  | error e => simp

@[simp] theorem ok_adapt {x : Routine Resp ε α} {f : ε → ε'} {s s' : State} {value : α} :
    Ok serve (ExceptT.adapt f x) s value s' ↔ Ok serve x s value s' := by
  have hrun : (ExceptT.adapt f x).run = Except.mapError f <$> x.run := rfl
  simp only [Ok, hrun, run_map]
  rcases h : Program.run serve x.run s with ⟨r, s'⟩
  cases r <;> simp [Except.mapError]

/-- A routine that is served has one outcome. -/
theorem Ok.unique {x : Routine Resp ε α} {s s₁ s₂ : State} {v₁ v₂ : α}
    (h₁ : Ok serve x s v₁ s₁) (h₂ : Ok serve x s v₂ s₂) : v₁ = v₂ ∧ s₁ = s₂ := by
  have h := h₁.symm.trans h₂
  simpa using h

@[simp] theorem ok_forM_nil {f : β → Routine Resp ε PUnit} {s s' : State} {u : PUnit} :
    Ok serve (List.forM [] f) s u s' ↔ s = s' := by
  simp [List.forM]

@[simp] theorem ok_foldlM_nil {f : α → β → Routine Resp ε α} {init result : α} {s s' : State} :
    Ok serve (List.foldlM f init []) s result s' ↔ init = result ∧ s = s' := by
  simp [List.foldlM]

theorem ok_foldlM_cons {f : α → β → Routine Resp ε α} {init result : α} {x : β} {xs : List β}
    {s s'' : State} :
    Ok serve (List.foldlM f init (x :: xs)) s result s'' ↔
      ∃ acc s', Ok serve (f init x) s acc s' ∧
        Ok serve (List.foldlM f acc xs) s' result s'' := by
  rw [List.foldlM_cons, ok_bind]

/-- Loop rule for a run that ended: `loop` speaks of the elements already visited. -/
theorem Ok.foldlM {f : α → β → Routine Resp ε α} {xs : List β} {init result : α}
    {s s' : State} (loop : List β → α → State → Prop)
    (h : Ok serve (List.foldlM f init xs) s result s') (start : loop [] init s)
    (body : ∀ visited x rest, xs = visited ++ x :: rest → ∀ acc s₁ acc' s₂,
      Ok serve (f acc x) s₁ acc' s₂ → loop visited acc s₁ → loop (visited ++ [x]) acc' s₂) :
    loop xs result s' := by
  suffices key : ∀ rest visited acc s₁, xs = visited ++ rest → loop visited acc s₁ →
      Ok serve (List.foldlM f acc rest) s₁ result s' → loop xs result s' from
    key xs [] init s rfl start h
  intro rest
  induction rest with
  | nil =>
    intro visited acc s₁ hxs hloop hrun
    obtain ⟨rfl, rfl⟩ := ok_foldlM_nil.mp hrun
    rw [hxs, List.append_nil]
    exact hloop
  | cons x rest ih =>
    intro visited acc s₁ hxs hloop hrun
    obtain ⟨acc', s₂, hx, hrest⟩ := ok_foldlM_cons.mp hrun
    exact ih (visited ++ [x]) acc' s₂ (by simp [hxs])
      (body visited x rest hxs acc s₁ acc' s₂ hx hloop) hrest

/-- A loop runs to its end when its body does wherever `loop` holds. -/
theorem ok_foldlM_total {f : α → β → Routine Resp ε α} {xs : List β} {init : α} {s : State}
    (loop : List β → α → State → Prop) (start : loop [] init s)
    (body : ∀ visited x rest, xs = visited ++ x :: rest → ∀ acc s₁, loop visited acc s₁ →
      ∃ acc' s₂, Ok serve (f acc x) s₁ acc' s₂ ∧ loop (visited ++ [x]) acc' s₂) :
    ∃ result s', Ok serve (List.foldlM f init xs) s result s' ∧ loop xs result s' := by
  suffices key : ∀ rest visited acc s₁, xs = visited ++ rest → loop visited acc s₁ →
      ∃ result s', Ok serve (List.foldlM f acc rest) s₁ result s' ∧ loop xs result s' from
    key xs [] init s rfl start
  intro rest
  induction rest with
  | nil =>
    intro visited acc s₁ hxs hloop
    refine ⟨acc, s₁, by simp, ?_⟩
    rw [hxs, List.append_nil]
    exact hloop
  | cons x rest ih =>
    intro visited acc s₁ hxs hloop
    obtain ⟨acc', s₂, hx, hnext⟩ := body visited x rest hxs acc s₁ hloop
    obtain ⟨result, s', hrest, hend⟩ := ih (visited ++ [x]) acc' s₂ (by simp [hxs]) hnext
    exact ⟨result, s', ok_foldlM_cons.mpr ⟨acc', s₂, hx, hrest⟩, hend⟩

private theorem forM_eq_foldlM (f : β → Routine Resp ε PUnit) (xs : List β) :
    List.forM xs f = List.foldlM (fun _ x => f x) ⟨⟩ xs := by
  induction xs with
  | nil => rfl
  | cons x xs ih =>
    rw [List.foldlM_cons]
    exact bind_congr fun _ => ih

theorem Ok.forM {f : β → Routine Resp ε PUnit} {xs : List β} {u : PUnit} {s s' : State}
    (loop : List β → State → Prop) (h : Ok serve (List.forM xs f) s u s') (start : loop [] s)
    (body : ∀ visited x rest, xs = visited ++ x :: rest → ∀ s₁ s₂,
      Ok serve (f x) s₁ ⟨⟩ s₂ → loop visited s₁ → loop (visited ++ [x]) s₂) :
    loop xs s' := by
  rw [forM_eq_foldlM] at h
  refine h.foldlM (fun visited _ s => loop visited s) start ?_
  intro visited x rest hxs _ s₁ _ s₂ hx hloop
  exact body visited x rest hxs s₁ s₂ hx hloop

theorem ok_forM_total {f : β → Routine Resp ε PUnit} {xs : List β} {s : State}
    (loop : List β → State → Prop) (start : loop [] s)
    (body : ∀ visited x rest, xs = visited ++ x :: rest → ∀ s₁, loop visited s₁ →
      ∃ s₂, Ok serve (f x) s₁ ⟨⟩ s₂ ∧ loop (visited ++ [x]) s₂) :
    ∃ s', Ok serve (List.forM xs f) s ⟨⟩ s' ∧ loop xs s' := by
  have hfold : ∃ u s', Ok serve (List.foldlM (fun _ x => f x) ⟨⟩ xs) s u s' ∧ loop xs s' := by
    refine ok_foldlM_total (fun visited _ s => loop visited s) start ?_
    intro visited x rest hxs _ s₁ hloop
    obtain ⟨s₂, hx, hnext⟩ := body visited x rest hxs s₁ hloop
    exact ⟨⟨⟩, s₂, hx, hnext⟩
  obtain ⟨u, s', hrun, hend⟩ := hfold
  rw [← forM_eq_foldlM] at hrun
  exact ⟨s', hrun, hend⟩

/-- A run that ended goes on into what follows it. -/
theorem Ok.bind_stops {env : Env Resp State} (serves : ∀ c s r s', serve c s = (r, s') → env c s r s')
    {x : Routine Resp ε α} {f : α → Routine Resp ε β} {s s' s'' : State} {value : α}
    (h : Ok serve x s value s') (stop : Stops env (f value).run s' s'') :
    Stops env (x >>= f).run s s'' := by
  rw [ExceptT.run_bind]
  exact ((returns_served.mpr h).mono serves).bind_stops stop

theorem stops_bind {env : Env Resp State} {x : Routine Resp ε α} {f : α → Routine Resp ε β}
    {s s' : State} (stop : Stops env x.run s s') : Stops env (x >>= f).run s s' := by
  rw [ExceptT.run_bind]
  exact stop.bind

theorem forM_append (xs ys : List β) (f : β → Routine Resp ε PUnit) :
    (xs ++ ys).forM f = xs.forM f >>= fun _ => ys.forM f := by
  induction xs with
  | nil => rw [List.nil_append, List.forM, pure_bind]
  | cons x xs ih =>
    rw [List.cons_append, List.forM, List.forM, ih, bind_assoc]

/-- The run ends without an error and passes the test; this can be computed. -/
def endsWith (serve : (c : Call) → State → Resp c × State) (x : Routine Resp ε α) (s : State)
    (test : α → State → Bool) : Bool :=
  match Program.run serve x.run s with
  | (.ok value, s') => test value s'
  | (.error _, _) => false

theorem endsWith_iff {x : Routine Resp ε α} {s : State} {test : α → State → Bool} :
    endsWith serve x s test = true ↔ ∃ value s', Ok serve x s value s' ∧ test value s' = true := by
  unfold endsWith
  constructor
  · intro h
    split at h
    · next value s' hrun => exact ⟨value, s', hrun, h⟩
    · cases h
  · rintro ⟨value, s', hrun, htest⟩
    rw [hrun]
    exact htest

end Ok

/-- `inv` holds wherever the run is cut off, and `post` if it ends without an error. -/
def Safe (env : Env Resp State) (inv : State → Prop) (post : α → State → Prop)
    (x : Routine Resp ε α) (s : State) : Prop :=
  wp env inv (fun r s' => ∀ value, r = .ok value → post value s') x.run s

section Safe
variable {env : Env Resp State} {inv : State → Prop}

theorem Safe.pure {post : α → State → Prop} {value : α} {s : State}
    (hs : inv s) (h : post value s) : Safe env inv post (pure value : Routine Resp ε α) s :=
  ⟨hs, fun _ hv => Except.ok.inj hv ▸ h⟩

theorem Safe.throw {post : α → State → Prop} {e : ε} {s : State} (hs : inv s) :
    Safe env inv post (throw e : Routine Resp ε α) s :=
  ⟨hs, fun _ hv => nomatch hv⟩

theorem Safe.bind {post : β → State → Prop} {x : Routine Resp ε α}
    {f : α → Routine Resp ε β} {s : State}
    (h : Safe env inv (fun value s' => inv s' → Safe env inv post (f value) s') x s) :
    Safe env inv post (x >>= f) s := by
  unfold Safe at h ⊢
  rw [ExceptT.run_bind]
  apply wp.bind
  have hinv := wp.keeps h
  refine hinv.mono fun r s' ⟨hs', hr⟩ => ?_
  cases r with
  | ok value => exact hr value rfl hs'
  | error e => exact ⟨hs', fun _ hv => nomatch hv⟩

theorem Safe.mono {post post' : α → State → Prop} {x : Routine Resp ε α} {s : State}
    (h : Safe env inv post x s) (himp : ∀ value s, post value s → post' value s) :
    Safe env inv post' x s :=
  wp.mono h fun _ s' hr value hv => himp value s' (hr value hv)

theorem Safe.ask {c : Call} {post : Resp c → State → Prop} {s : State}
    (hs : inv s) (h : ∀ r s', env c s r s' → inv s' ∧ post r s') :
    Safe env inv post (ask c : Routine Resp ε (Resp c)) s :=
  ⟨hs, fun r s' hr => ⟨(h r s' hr).1, fun _ hv => Except.ok.inj hv ▸ (h r s' hr).2⟩⟩

theorem Safe.adapt {post : α → State → Prop} {x : Routine Resp ε α} {f : ε → ε'} {s : State}
    (h : Safe env inv post x s) : Safe env inv post (ExceptT.adapt f x) s := by
  have hrun : (ExceptT.adapt f x).run = x.run >>= fun r => Pure.pure (r.mapError f) :=
    map_eq_pure_bind _ _
  unfold Safe at h ⊢
  rw [hrun]
  apply wp.bind
  refine (wp.keeps h).mono fun r s' ⟨hs', hr⟩ => wp_pure.mpr ⟨hs', ?_⟩
  cases r with
  | ok value =>
    intro v hv
    have heq : value = v := Except.ok.inj hv
    exact hr v (congrArg _ heq)
  | error e =>
    intro v hv
    cases hv

/-- Loop rule: the invariant may speak of the elements already visited. -/
theorem Safe.forM {f : β → Routine Resp ε PUnit} {loop : State → Prop} {xs : List β}
    (body : ∀ x ∈ xs, ∀ s, loop s → Safe env inv (fun _ s' => loop s') (f x) s)
    {s : State} (hs : inv s) (h : loop s) :
    Safe env inv (fun _ s' => loop s') (xs.forM f) s := by
  induction xs generalizing s with
  | nil => exact Safe.pure hs h
  | cons x xs ih =>
    refine Safe.bind ((body x (by simp) s h).mono fun _ s' hl hi => ?_)
    exact ih (fun y hy => body y (by simp [hy])) hi hl

/-- Started where the invariant holds, it holds wherever the run is cut off; a result
satisfies `post`. -/
def Keeps (env : Env Resp State) (inv : State → Prop) (post : α → Prop)
    (x : Routine Resp ε α) : Prop :=
  ∀ s, inv s → Safe env inv (fun value _ => post value) x s

theorem Keeps.pure {post : α → Prop} {value : α} (h : post value) :
    Keeps env inv post (pure value : Routine Resp ε α) := fun _ hs => Safe.pure hs h

theorem Keeps.throw {post : α → Prop} {e : ε} :
    Keeps env inv post (throw e : Routine Resp ε α) := fun _ hs => Safe.throw hs

theorem Keeps.bind {mid : α → Prop} {post : β → Prop} {x : Routine Resp ε α}
    {f : α → Routine Resp ε β} (h : Keeps env inv mid x)
    (hf : ∀ value, mid value → Keeps env inv post (f value)) : Keeps env inv post (x >>= f) :=
  fun s hs => Safe.bind ((h s hs).mono fun value s' hvalue hs' => hf value hvalue s' hs')

theorem Keeps.mono {post post' : α → Prop} {x : Routine Resp ε α} (h : Keeps env inv post x)
    (himp : ∀ value, post value → post' value) : Keeps env inv post' x :=
  fun s hs => (h s hs).mono fun value _ => himp value

theorem Keeps.ask {c : Call} {post : Resp c → Prop}
    (h : ∀ s r s', inv s → env c s r s' → inv s' ∧ post r) :
    Keeps env inv post (ask c : Routine Resp ε (Resp c)) :=
  fun s hs => Safe.ask hs fun r s' hr => h s r s' hs hr

theorem Keeps.adapt {post : α → Prop} {x : Routine Resp ε α} {f : ε → ε'}
    (h : Keeps env inv post x) : Keeps env inv post (ExceptT.adapt f x) :=
  fun s hs => Safe.adapt (h s hs)

/-- A routine run for its outcome, whatever that is. -/
theorem Keeps.lift {post : α → Prop} {x : Routine Resp ε α} (h : Keeps env inv post x) :
    Keeps env inv (fun r => ∀ value, r = .ok value → post value)
      (ExceptT.lift x.run : Routine Resp ε' (Except ε α)) := by
  intro s hs
  have hrun : (ExceptT.lift x.run : Routine Resp ε' (Except ε α)).run =
      x.run >>= fun r => Pure.pure (.ok r) := map_eq_pure_bind _ _
  unfold Safe
  rw [hrun]
  apply wp.bind
  refine (wp.keeps (h s hs)).mono fun r s' hr => ⟨hr.1, fun value hvalue => ?_⟩
  cases hvalue
  exact hr.2

theorem Keeps.liftExcept {post : α → Prop} {e : Except ε α}
    (h : ∀ value, e = .ok value → post value) :
    Keeps env inv post (liftM e : Routine Resp ε α) := by
  cases e with
  | error e => exact Keeps.throw
  | ok value => exact Keeps.pure (h value rfl)

theorem Keeps.ite {post : α → Prop} {c : Prop} [Decidable c] {x y : Routine Resp ε α}
    (hx : c → Keeps env inv post x) (hy : ¬ c → Keeps env inv post y) :
    Keeps env inv post (if c then x else y) := by
  split
  · next h => exact hx h
  · next h => exact hy h

theorem Keeps.forM {f : β → Routine Resp ε PUnit} {xs : List β}
    (body : ∀ x ∈ xs, Keeps env inv (fun _ => True) (f x)) :
    Keeps env inv (fun _ => True) (xs.forM f) := by
  induction xs with
  | nil => exact Keeps.pure trivial
  | cons x xs ih =>
    refine Keeps.bind (body x (by simp)) fun _ _ => ?_
    exact ih fun y hy => body y (by simp [hy])

theorem Keeps.foldlM {f : α → β → Routine Resp ε α} {xs : List β} {post : α → Prop}
    (body : ∀ acc, ∀ x ∈ xs, post acc → Keeps env inv post (f acc x)) {init : α} (h : post init) :
    Keeps env inv post (xs.foldlM f init) := by
  induction xs generalizing init with
  | nil => exact Keeps.pure h
  | cons x xs ih =>
    rw [List.foldlM_cons]
    refine Keeps.bind (body init x (by simp) h) fun acc hacc => ?_
    exact ih (fun acc y hy => body acc y (by simp [hy])) hacc

theorem Keeps.stops {post : α → Prop} {x : Routine Resp ε α} (h : Keeps env inv post x)
    {s s' : State} (hs : inv s) (stop : Stops env x.run s s') : inv s' :=
  wp.stops (h s hs) stop

/-- All calls of the routine are of one kind, whatever the responses. -/
abbrev Only (kind : Call → Prop) (x : Routine Resp ε α) : Prop :=
  Keeps (OfKind Resp kind) id (fun _ => True) x

theorem Only.ask {kind : Call → Prop} {c : Call} (h : kind c) :
    Only kind (ask c : Routine Resp ε (Resp c)) := by
  refine Keeps.ask fun s r s' hs answered => ⟨?_, trivial⟩
  rw [answered]
  exact ⟨hs, h⟩

theorem Only.keeps {kind : Call → Prop} {x : Routine Resp ε α} (h : Only kind x)
    (keeps : ∀ c s r s', kind c → inv s → env c s r s' → inv s') :
    Keeps env inv (fun _ => True) x :=
  fun _ hs => (wp.of_kind (h True trivial) keeps hs).mono fun _ _ _ _ _ => trivial

theorem Only.mono {kind kind' : Call → Prop} {x : Routine Resp ε α} (h : Only kind x)
    (himp : ∀ c, kind c → kind' c) : Only kind' x := by
  refine h.keeps fun c s r s' hkind hs answered => ?_
  rw [answered]
  exact ⟨hs, himp c hkind⟩

/-- What such calls keep, a run of the routine keeps. -/
theorem Only.ok {kind : Call → Prop} {serve : (c : Call) → State → Resp c × State}
    {x : Routine Resp ε α} (h : Only kind x) {s s' : State} {value : α}
    (run : Ok serve x s value s') (keeps : ∀ c s, kind c → inv s → inv (serve c s).2)
    (hs : inv s) : inv s' := by
  have hkeeps : Keeps (Served serve) inv (fun _ => True) x := by
    refine h.keeps fun c s r s' hkind hs answered => ?_
    have hstate : s' = (serve c s).2 := congrArg Prod.snd answered.symm
    rw [hstate]
    exact keeps c s hkind hs
  exact (wp.returns (wp.keeps (hkeeps s hs)) (returns_served.mpr run)).1

end Safe

/-! ## Runs of one kind of calls -/

section Within
variable {serve : (c : Call) → State → Resp c × State} {kind kind' : Call → Prop}

/-- The run ends without an error, and all its calls are of one kind. -/
structure Within (serve : (c : Call) → State → Resp c × State) (kind : Call → Prop)
    (x : Routine Resp ε α) (s : State) (value : α) (s' : State) : Prop where
  ok : Ok serve x s value s'
  calls : ∀ c ∈ Program.calls serve x.run s, kind c

theorem Only.within {x : Routine Resp ε α} (h : Only kind x) {s s' : State} {value : α}
    (run : Ok serve x s value s') : Within serve kind x s value s' :=
  ⟨run, wp.calls_of_kind (h True trivial) serve s⟩

theorem Within.mono {x : Routine Resp ε α} {s s' : State} {value : α}
    (h : Within serve kind x s value s') (himp : ∀ c, kind c → kind' c) :
    Within serve kind' x s value s' :=
  ⟨h.ok, fun c hc => himp c (h.calls c hc)⟩

theorem Within.pure {value : α} {s : State} :
    Within serve kind (Pure.pure value : Routine Resp ε α) s value s :=
  ⟨ok_pure.mpr ⟨rfl, rfl⟩, fun _ hc => by cases hc⟩

/-- Calls of a kind, one routine after the other. -/
theorem Within.bind {x : Routine Resp ε α} {f : α → Routine Resp ε β} {s s' s'' : State}
    {value : α} {result : β} (h : Within serve kind x s value s')
    (hf : Within serve kind (f value) s' result s'') :
    Within serve kind (x >>= f) s result s'' := by
  refine ⟨ok_bind.mpr ⟨value, s', h.ok, hf.ok⟩, ?_⟩
  rw [ExceptT.run_bind, calls_bind, List.forall_mem_append, show run serve x.run s = _ from h.ok]
  exact ⟨h.calls, hf.calls⟩

theorem Within.adapt {x : Routine Resp ε α} {f : ε → ε'} {s s' : State} {value : α}
    (h : Within serve kind x s value s') : Within serve kind (ExceptT.adapt f x) s value s' := by
  refine ⟨ok_adapt.mpr h.ok, ?_⟩
  have hrun : (ExceptT.adapt f x).run = x.run >>= fun r => Pure.pure (r.mapError f) :=
    map_eq_pure_bind _ _
  rw [hrun, calls_bind, List.forall_mem_append]
  exact ⟨h.calls, fun _ hc => by cases hc⟩

/-- A routine run for its outcome, when that is a value. -/
theorem Within.lift {x : Routine Resp ε α} {s s' : State} {value : α}
    (h : Within serve kind x s value s') :
    Within serve kind (ExceptT.lift x.run : Routine Resp ε' (Except ε α)) s (.ok value) s' := by
  have hrun : (ExceptT.lift x.run : Routine Resp ε' (Except ε α)).run =
      x.run >>= fun r => Pure.pure (.ok r) := map_eq_pure_bind _ _
  refine ⟨?_, ?_⟩
  · rw [Ok, hrun, run_bind, show run serve x.run s = _ from h.ok]
    rfl
  · rw [hrun, calls_bind, List.forall_mem_append]
    exact ⟨h.calls, fun _ hc => by cases hc⟩

theorem Within.ask {c : Call} {r : Resp c} {s s' : State} (answered : serve c s = (r, s'))
    (h : kind c) : Within serve kind (Routine.ask c : Routine Resp ε (Resp c)) s r s' :=
  (Only.ask h).within (ok_ask.mpr answered)

/-- A run of one kind of calls splits at a bind into two of them. -/
theorem Within.of_bind {x : Routine Resp ε α} {f : α → Routine Resp ε β} {s s'' : State}
    {result : β} (h : Within serve kind (x >>= f) s result s'') :
    ∃ value s', Within serve kind x s value s' ∧ Within serve kind (f value) s' result s'' := by
  obtain ⟨value, s', hx, hf⟩ := ok_bind.mp h.ok
  have hcalls := h.calls
  rw [ExceptT.run_bind, calls_bind, List.forall_mem_append, show run serve x.run s = _ from hx] at hcalls
  exact ⟨value, s', ⟨hx, hcalls.1⟩, ⟨hf, hcalls.2⟩⟩

/-- What the outcome of a lifted routine was made of. -/
theorem Within.of_lift {x : Routine Resp ε α} {s s' : State} {r : Except ε α}
    (h : Within serve kind (ExceptT.lift x.run : Routine Resp ε' (Except ε α)) s r s') :
    run serve x.run s = (r, s') ∧ ∀ c ∈ Program.calls serve x.run s, kind c := by
  have hrun : (ExceptT.lift x.run : Routine Resp ε' (Except ε α)).run =
      x.run >>= fun r => Pure.pure (.ok r) := map_eq_pure_bind _ _
  have hok := h.ok
  have hcalls := h.calls
  rw [Ok, hrun, run_bind, run_pure] at hok
  rw [hrun, calls_bind, List.forall_mem_append] at hcalls
  obtain ⟨hr, hs⟩ := Prod.mk.inj hok
  exact ⟨Prod.ext (Except.ok.inj hr) hs, hcalls.1⟩

/-- What calls of the kind keep, the run keeps. -/
theorem Within.keeps {inv : State → Prop} {x : Routine Resp ε α} {s s' : State} {value : α}
    (h : Within serve kind x s value s') (keeps : ∀ c s, kind c → inv s → inv (serve c s).2)
    (hs : inv s) : inv s' := by
  have hrun : ∀ (p : Program Resp (Except ε α)) (s : State),
      (∀ c ∈ Program.calls serve p s, kind c) →
      inv s → inv (run serve p s).2 := by
    intro p
    induction p with
    | done value => exact fun s _ hs => hs
    | call c next ih =>
      intro s hcalls hs
      rw [Program.calls, List.forall_mem_cons] at hcalls
      exact ih _ _ hcalls.2 (keeps c s hcalls.1 hs)
  have hend := hrun x.run s h.calls hs
  rwa [show run serve x.run s = _ from h.ok] at hend

/-- A loop that comes to its end with calls of a kind, with an invariant over what was visited. -/
theorem within_foldlM_total {f : α → β → Routine Resp ε α} {xs : List β} {init : α} {s : State}
    (loop : List β → α → State → Prop) (start : loop [] init s)
    (body : ∀ visited x rest, xs = visited ++ x :: rest → ∀ acc s₁, loop visited acc s₁ →
      ∃ acc' s₂, Within serve kind (f acc x) s₁ acc' s₂ ∧ loop (visited ++ [x]) acc' s₂) :
    ∃ result s', Within serve kind (List.foldlM f init xs) s result s' ∧ loop xs result s' := by
  suffices key : ∀ rest visited acc s₁, xs = visited ++ rest → loop visited acc s₁ →
      ∃ result s', Within serve kind (List.foldlM f acc rest) s₁ result s' ∧
        loop xs result s' from key xs [] init s rfl start
  intro rest
  induction rest with
  | nil =>
    intro visited acc s₁ hxs hloop
    refine ⟨acc, s₁, Within.pure, ?_⟩
    rw [hxs, List.append_nil]
    exact hloop
  | cons x rest ih =>
    intro visited acc s₁ hxs hloop
    obtain ⟨acc', s₂, hx, hnext⟩ := body visited x rest hxs acc s₁ hloop
    obtain ⟨result, s', hrest, hend⟩ := ih (visited ++ [x]) acc' s₂ (by simp [hxs]) hnext
    exact ⟨result, s', hx.bind hrest, hend⟩

end Within

/-- A loop whose every round does nothing. -/
theorem forM_nothing {f : β → Routine Resp ε PUnit} {xs : List β}
    (h : ∀ x ∈ xs, f x = Pure.pure ⟨⟩) : xs.forM f = Pure.pure ⟨⟩ := by
  induction xs with
  | nil => rfl
  | cons x xs ih =>
    rw [List.forM, h x List.mem_cons_self, pure_bind]
    exact ih fun y hy => h y (List.mem_cons_of_mem _ hy)

end Routine

/-! ## Loops without calls -/

/-- An invariant over what a loop has visited holds at its end. -/
theorem foldlM_except_ok {α β ε : Type} {f : α → β → Except ε α} {xs : List β} {init result : α}
    (loop : List β → α → Prop) (h : xs.foldlM f init = .ok result) (start : loop [] init)
    (body : ∀ visited x rest, xs = visited ++ x :: rest → ∀ acc acc', f acc x = .ok acc' →
      loop visited acc → loop (visited ++ [x]) acc') : loop xs result := by
  suffices key : ∀ rest visited acc, xs = visited ++ rest → loop visited acc →
      rest.foldlM f acc = .ok result → loop xs result from key xs [] init rfl start h
  intro rest
  induction rest with
  | nil =>
    intro visited acc hxs hloop hrun
    cases hrun
    rw [hxs, List.append_nil]
    exact hloop
  | cons x rest ih =>
    intro visited acc hxs hloop hrun
    rw [List.foldlM_cons] at hrun
    cases hx : f acc x with
    | error e => rw [hx] at hrun; cases hrun
    | ok acc' =>
      rw [hx] at hrun
      exact ih (visited ++ [x]) acc' (by simp [hxs]) (body visited x rest hxs acc acc' hx hloop) hrun

/-- A loop comes to its end if no round fails under its invariant. -/
theorem foldlM_except_total {α β ε : Type} {f : α → β → Except ε α} {xs : List β} {init : α}
    (loop : List β → α → Prop) (start : loop [] init)
    (body : ∀ visited x rest, xs = visited ++ x :: rest → ∀ acc, loop visited acc →
      ∃ acc', f acc x = .ok acc' ∧ loop (visited ++ [x]) acc') :
    ∃ result, xs.foldlM f init = .ok result := by
  suffices key : ∀ rest visited acc, xs = visited ++ rest → loop visited acc →
      ∃ result, rest.foldlM f acc = .ok result from key xs [] init rfl start
  intro rest
  induction rest with
  | nil => exact fun _ acc _ _ => ⟨acc, rfl⟩
  | cons x rest ih =>
    intro visited acc hxs hloop
    obtain ⟨acc', hx, hnext⟩ := body visited x rest hxs acc hloop
    rw [List.foldlM_cons, hx]
    exact ih (visited ++ [x]) acc' (by simp [hxs]) hnext

end RedisCluster.Library
