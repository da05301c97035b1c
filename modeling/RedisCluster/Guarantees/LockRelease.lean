import RedisCluster.Guarantees.CallKinds
import RedisCluster.Library.Holder
import RedisCluster.Source.Controllers

/-!
# The lock is released

A controller knows from the answers to its calls whether it holds the lock. As long as these
answers are right about the lock node, it holds the lock only inside `check`.
-/

set_option autoImplicit false

namespace RedisCluster.Guarantees
open Library Routine ZkCall Source

/-! ## Calls that do not concern the lock -/

/-- A call that neither creates in the branch of the lock nor deletes the lock node. -/
def Harmless : ZkCall → Prop
  | .zooCreate path _ _ => path.tail ≠ lockPath
  | .zooDelete path => path ≠ lockNode
  | _ => True

theorem Harmless.get_lockNode {c : ZkCall} (h : Harmless c) (t : Tree) :
    (serve c t).2.get lockNode = t.get lockNode := by
  cases c with
  | zooExists path => rfl
  | zooGet path =>
    rw [serve]
    split <;> rfl
  | zooGetChildren path => rfl
  | zooCreate path data mode =>
    rw [serve]
    split
    · next q t' hcreate =>
      cases path with
      | nil => cases hcreate
      | cons name path =>
        rw [(Tree.create_ok hcreate).2.get, if_neg]
        exact fun heq => h (List.cons.inj heq).2.symm
    · rfl
  | zooDelete path =>
    rw [serve]
    split
    · next t' hdelete =>
      cases path with
      | nil => cases hdelete
      | cons name path =>
        rw [(Tree.delete_ok hdelete).get, if_neg]
        exact fun heq => h heq.symm
    · rfl

/-! ## What a controller knows -/

/-- Whether the controller knows that it holds the lock. There is no state after a call that
would meddle with the lock of another one. -/
def lockAfter (session : Nat) : (c : ZkCall) → c.Resp → Option Bool → Option Bool
  | .zooCreate path _ mode, r, own =>
    if path.tail = lockPath then
      if path = lockNode ∧ mode = .ephemeral session ∧ own = some false then some r.isOk else none
    else own
  | .zooDelete path, _, own =>
    if path = lockNode then if own = some true then some false else none else own
  | .zooExists _, _, own => own
  | .zooGet _, _, own => own
  | .zooGetChildren _, _, own => own

theorem Harmless.lockAfter {c : ZkCall} (h : Harmless c) (session : Nat) (r : c.Resp)
    (own : Option Bool) : lockAfter session c r own = own := by
  cases c with
  | zooExists path => rfl
  | zooGet path => rfl
  | zooGetChildren path => rfl
  | zooCreate path data mode => exact if_neg h
  | zooDelete path => exact if_neg h

/-- What a controller knows of the lock after each answer; `none` where it cannot know. -/
def LockEnv (session : Nat) : Program.Env ZkCall.Resp (Option Bool) :=
  fun c own r own' => own' = lockAfter session c r own

/-- The routine leaves it as it is whether the controller holds the lock. -/
abbrev Calm {α : Type} (session : Nat) (own : Bool) (x : Ctl α) : Prop :=
  Keeps (LockEnv session) (· = some own) (fun _ => True) x

section Calm
variable {α : Type} {session : Nat} {own : Bool}

/-- Calls that do not touch the lock node leave the lock with whom has it. -/
theorem calm_of_harmless {x : Ctl α} (h : Only Harmless x) : Calm session own x := by
  refine h.keeps fun c s r s' hc hs answered => ?_
  subst hs
  exact answered.trans (hc.lockAfter session r _)

theorem harmless_of_working {x : Ctl α} (h : Only Working x) : Only Harmless x := by
  refine h.mono fun c hc => ?_
  cases c with
  | zooExists path => trivial
  | zooGet path => trivial
  | zooGetChildren path => trivial
  | zooCreate path data mode =>
    obtain ⟨_, hlast⟩ := Inner.getLast hc
    intro heq
    cases path with
    | nil => cases heq
    | cons name path =>
      obtain rfl : path = lockPath := heq
      revert hlast
      simp [lockPath]
  | zooDelete path =>
    obtain ⟨_, hlast⟩ := Inner.getLast hc
    rintro rfl
    revert hlast
    simp [lockNode, lockPath]

theorem harmless_of_reading {x : Ctl α} (h : Only IsRead x) : Only Harmless x :=
  harmless_of_working (working_of_reading h)

theorem harmless_checkAddCreate {name : Str} :
    Only Harmless (checkAddCreate [name] .persistent []) := by
  have hcreate : Only Harmless (orReturn (createNode [name] .persistent []) 1) :=
    only_orReturn (only_createNode fun _ => by simp [Harmless, lockPath])
  refine Keeps.bind (harmless_of_reading reading_nodeExist) fun rv _ => ?_
  split
  · refine Keeps.bind hcreate fun truePath _ => ?_
    refine Keeps.bind (harmless_of_reading reading_nodeExist) fun rv _ => ?_
    split
    · exact Keeps.pure trivial
    · exact Keeps.throw
  · exact Keeps.throw
  · exact Keeps.pure trivial

theorem harmless_initPathCheck : Only Harmless initPathCheck := by
  unfold initPathCheck
  refine Keeps.bind (only_orReturn harmless_checkAddCreate) fun _ _ => ?_
  refine Keeps.bind (only_orReturn harmless_checkAddCreate) fun _ _ => ?_
  refine Keeps.bind (only_orReturn harmless_checkAddCreate) fun _ _ => ?_
  refine Keeps.bind (only_orReturn harmless_checkAddCreate) fun _ _ => ?_
  exact only_orReturn harmless_checkAddCreate

end Calm

/-! ## One check -/

/-- The controller has done with the lock when it leaves `check`, if it knows by now that it
holds the lock or not. -/
def Guards (session : Nat) (own : Bool) (p : Program ZkCall.Resp (Except Halt Legal)) : Prop :=
  Program.wp (LockEnv session) (· ≠ none)
    (fun outcome own => own = some false ∨ outcome = .error .lengthError) p (some own)

section Check
variable {session : Nat}

theorem Calm.wp {α : Type} {own : Bool} {x : Ctl α} (h : Calm session own x) :
    Program.wp (LockEnv session) (· ≠ none) (fun _ s => s = some own) x.run (some own) := by
  have hkept := Program.wp.keeps (h (some own) rfl)
  refine (hkept.weaken fun s hs => ?_).mono fun _ _ => And.left
  rw [hs]
  exact Option.some_ne_none own

/-- After `get_lock` the controller knows whether it has the lock. -/
theorem getLock_wp : Program.wp (LockEnv session) (· ≠ none)
    (fun r s => ∃ locked, r = .ok locked ∧ s = some locked) (getLock session).run (some false) := by
  refine ⟨Option.some_ne_none _, ?_⟩
  rintro r s rfl
  have hafter : lockAfter session (.zooCreate lockNode none (.ephemeral session)) r (some false) =
      some r.isOk := by
    have htail : List.tail lockNode = lockPath := rfl
    rw [lockAfter, if_pos htail, if_pos ⟨rfl, rfl, rfl⟩]
  rw [hafter]
  cases r with
  | ok q => exact ⟨Option.some_ne_none _, true, rfl, rfl⟩
  | error e => exact ⟨Option.some_ne_none _, false, rfl, rfl⟩

/-- After `free_lock` it does not have it. -/
theorem freeLock_wp : Program.wp (LockEnv session) (· ≠ none) (fun r s => r = .ok () ∧ s = some false)
    freeLock.run (some true) := by
  refine ⟨Option.some_ne_none _, ?_⟩
  rintro r s rfl
  exact ⟨Option.some_ne_none _, rfl, rfl⟩

/-- A check that the process survives gives the lock back. -/
theorem guards_check {net : Network} : Guards session false (check (some session) net).run := by
  unfold Guards check
  rw [ExceptT.run_bind]
  apply Program.wp.bind
  refine (Calm.wp (calm_of_harmless harmless_initPathCheck)).mono ?_
  rintro (e | u) s rfl
  · exact ⟨Option.some_ne_none _, Or.inl rfl⟩
  · dsimp only
    rw [ExceptT.run_bind]
    apply Program.wp.bind
    refine getLock_wp.mono ?_
    rintro _ _ ⟨locked, rfl, rfl⟩
    cases locked with
    | false => exact ⟨Option.some_ne_none _, Or.inl rfl⟩
    | true =>
      dsimp only
      rw [if_pos rfl, ExceptT.run_bind]
      apply Program.wp.bind
      have hlift : (ExceptT.lift (checkLocked net).run : Ctl (Except Halt Legal)).run =
          (checkLocked net).run >>= fun r => pure (.ok r) := map_eq_pure_bind _ _
      rw [hlift]
      apply Program.wp.bind
      refine (Calm.wp (calm_of_harmless (harmless_of_working working_checkLocked))).mono ?_
      rintro outcome s rfl
      refine ⟨Option.some_ne_none _, ?_⟩
      dsimp only
      split
      · rw [ExceptT.run_bind]
        apply Program.wp.bind
        refine freeLock_wp.mono ?_
        rintro _ _ ⟨rfl, rfl⟩
        exact ⟨Option.some_ne_none _, Or.inl rfl⟩
      · exact ⟨Option.some_ne_none _, Or.inr rfl⟩
      · rw [ExceptT.run_bind]
        apply Program.wp.bind
        refine freeLock_wp.mono ?_
        rintro _ _ ⟨rfl, rfl⟩
        exact ⟨Option.some_ne_none _, Or.inl rfl⟩

/-- What is left of a check after an answer is still guarded. -/
theorem Guards.answered {own : Bool} {c : ZkCall} {next : c.Resp → Program Resp (Except Halt Legal)}
    (h : Guards session own (.call c next)) (r : c.Resp) :
    ∃ own', lockAfter session c r (some own) = some own' ∧ Guards session own' (next r) := by
  have hnext := h.2 r _ rfl
  cases hafter : lockAfter session c r (some own) with
  | none =>
    rw [hafter] at hnext
    exact absurd rfl hnext.here
  | some own' =>
    rw [hafter] at hnext
    exact ⟨own', rfl, hnext⟩

end Check

/-! ## Answers that are right about the lock -/

/-- A create of the lock node that fails has had no effect, and a delete of it has had its
effect. Any other call may fail, before or after it took effect. -/
def LockReported : Program.Env ZkCall.Resp Tree := fun c t r t' =>
  Faulty c t r t' ∧ match c with
    | .zooCreate path _ _ => path = lockNode → r.isOk = false → t' = t
    | .zooDelete path => path = lockNode → lockNode ∉ t'
    | .zooExists _ => True
    | .zooGet _ => True
    | .zooGetChildren _ => True

/-- The lock node is there and belongs to the session. -/
def Owns (t : Tree) (session : Nat) : Prop := ∃ node, t.get lockNode = some node ∧ node.owner = some session

/-- What a call does to the lock node, as the controller sees it. -/
inductive LockEffect (session : Nat) (t t' : Tree) : Bool → Bool → Prop
  | same {own : Bool} (same : t'.get lockNode = t.get lockNode) : LockEffect session t t' own own
  | taken (free : lockNode ∉ t) (taken : Owns t' session) : LockEffect session t t' false true
  | freed (freed : lockNode ∉ t') : LockEffect session t t' true false

/-- What a reported call has done to the lock node, from what the controller knows. -/
theorem lock_effect {session : Nat} {c : ZkCall} {t t' : Tree} {r : c.Resp} {own own' : Bool}
    (answered : LockReported c t r t') (hafter : lockAfter session c r (some own) = some own') :
    LockEffect session t t' own own' := by
  have hharmless : Harmless c → LockEffect session t t' own own' := by
    intro h
    rw [h.lockAfter] at hafter
    cases hafter
    apply LockEffect.same
    rcases answered.1.state with rfl | rfl
    · rfl
    · exact h.get_lockNode t
  cases c with
  | zooExists path => exact hharmless trivial
  | zooGet path => exact hharmless trivial
  | zooGetChildren path => exact hharmless trivial
  | zooCreate path data mode =>
    by_cases htail : path.tail = lockPath
    · rw [lockAfter, if_pos htail] at hafter
      split at hafter
      · next h =>
        obtain ⟨rfl, rfl, hown⟩ := h
        cases hown
        cases r with
        | error e =>
          cases hafter
          rw [answered.2 rfl rfl]
          exact .same rfl
        | ok q =>
          cases hafter
          have hserved : serve (.zooCreate lockNode data (.ephemeral session)) t = (.ok q, t') :=
            answered.1.resolve_right fun h => by
              obtain ⟨e, he, _⟩ := h
              cases he
          rw [serve] at hserved
          split at hserved
          · next q' t₁ hcreate =>
            cases hserved
            obtain ⟨rfl, hcreated⟩ := Tree.create_ok hcreate
            refine .taken hcreated.fresh ⟨⟨data, some session⟩, ?_, rfl⟩
            exact (hcreated.get _).trans (if_pos rfl)
          · cases hserved
      · cases hafter
    · exact hharmless htail
  | zooDelete path =>
    by_cases hpath : path = lockNode
    · rw [lockAfter, if_pos hpath] at hafter
      split at hafter
      · next hown =>
        cases hown
        cases hafter
        exact .freed (answered.2 hpath)
      · cases hafter
    · exact hharmless hpath

section Effect
variable {session other : Nat} {t t' : Tree} {own own' : Bool}

/-- Who knows that it has the lock owns the node. -/
theorem LockEffect.owns (effect : LockEffect session t t' own true) (hown : own = true → Owns t session) :
    Owns t' session := by
  cases effect with
  | same hsame =>
    obtain ⟨node, hnode, howner⟩ := hown rfl
    exact ⟨node, hsame.trans hnode, howner⟩
  | taken _ howns => exact howns

/-- A controller does not touch the lock of another one. -/
theorem LockEffect.others (effect : LockEffect session t t' own own') (hne : other ≠ session)
    (hown : own = true → Owns t session) (howns : Owns t other) : Owns t' other := by
  obtain ⟨node, hnode, howner⟩ := howns
  cases effect with
  | same hsame => exact ⟨node, hsame.trans hnode, howner⟩
  | taken hfree _ => exact absurd (Tree.mem_of_get hnode) hfree
  | freed _ =>
    obtain ⟨node', hnode', howner'⟩ := hown rfl
    rw [hnode] at hnode'
    cases hnode'
    rw [howner, Option.some_inj] at howner'
    exact absurd howner' hne

end Effect

/-! ## Any number of controllers -/

/-- Who is inside `check` guards the lock, and a lock node that was not there before belongs
to one of those who know that they hold it. -/
structure LockKept (before : Tree) (s : Controllers) : Prop where
  guarded : ∀ session p, s.running session = some p →
    Guards session false p ∨ Guards session true p ∧ Owns s.tree session
  held : ∀ node, s.tree.get lockNode = some node → before.get lockNode = some node ∨
    ∃ session p, s.running session = some p ∧ node.owner = some session ∧ Guards session true p

section Steps
variable {before t' : Tree} {s s' : Controllers} {session : Nat}

/-- Whoever enters knows that it does not have the lock. -/
theorem LockKept.enter (kept : LockKept before s) (net : Network) (houtside : s.running session = none) :
    LockKept before
      { s with running := Function.update s.running session (some (check (some session) net).run) } := by
  have hne : ∀ {other p}, s.running other = some p → other ≠ session := by
    rintro other p h rfl
    rw [houtside] at h
    cases h
  constructor
  · intro other p h
    rcases update_eq_some h with ⟨rfl, hnew⟩ | ⟨_, hold⟩
    · cases hnew
      exact Or.inl guards_check
    · exact kept.guarded other p hold
  · intro node hnode
    apply (kept.held node hnode).imp_right
    rintro ⟨other, p, hinside, hrest⟩
    exact ⟨other, p, (Function.update_of_ne (hne hinside) _ _).trans hinside, hrest⟩

/-- Whoever leaves has freed it. -/
theorem LockKept.leave (kept : LockKept before s) {outcome : Except Halt Legal}
    (hinside : s.running session = some (.done outcome)) (hreturns : outcome ≠ .error .lengthError) :
    LockKept before { s with running := Function.update s.running session none } := by
  constructor
  · intro other p h
    rcases update_eq_some h with ⟨_, hnew⟩ | ⟨_, hold⟩
    · cases hnew
    · exact kept.guarded other p hold
  · intro node hnode
    apply (kept.held node hnode).imp_right
    rintro ⟨other, p, hother, howner, hguards⟩
    refine ⟨other, p, (Function.update_of_ne ?_ _ _).trans hother, howner, hguards⟩
    rintro rfl
    rw [hinside] at hother
    cases hother
    rcases hguards.2 with hown | hlength
    · cases hown
    · exact hreturns hlength

/-- One call, of the controller that makes it and as the others see it. -/
theorem LockKept.call (kept : LockKept before s) {c : ZkCall} {r : c.Resp}
    {next : c.Resp → Program Resp (Except Halt Legal)}
    (hinside : s.running session = some (.call c next)) (answered : LockReported c s.tree r t') :
    LockKept before ⟨t', Function.update s.running session (some (next r))⟩ := by
  -- What the controller knew before the call and knows after it.
  obtain ⟨own, own', hown, effect, hnext⟩ : ∃ own own', (own = true → Owns s.tree session) ∧
      LockEffect session s.tree t' own own' ∧ Guards session own' (next r) := by
    rcases kept.guarded session _ hinside with hguards | ⟨hguards, howns⟩
    · obtain ⟨own', hafter, hnext⟩ := hguards.answered r
      exact ⟨false, own', Bool.noConfusion, lock_effect answered hafter, hnext⟩
    · obtain ⟨own', hafter, hnext⟩ := hguards.answered r
      exact ⟨true, own', fun _ => howns, lock_effect answered hafter, hnext⟩
  constructor
  · intro other p h
    rcases update_eq_some h with ⟨rfl, hnew⟩ | ⟨heq, hold⟩
    · cases hnew
      cases own' with
      | false => exact Or.inl hnext
      | true => exact Or.inr ⟨hnext, effect.owns hown⟩
    · apply (kept.guarded other p hold).imp_right
      rintro ⟨hguards, howns⟩
      exact ⟨hguards, effect.others heq hown howns⟩
  · intro node hnode
    have hmine : Guards session true (.call c next) → Guards session true (next r) := by
      intro hguards
      obtain ⟨own'', hafter, hnext''⟩ := hguards.answered r
      cases lock_effect answered hafter with
      | same _ => exact hnext''
      | freed hfreed => exact absurd (Tree.mem_of_get hnode) hfreed
    cases effect with
    | same hsame =>
      rw [show t'.get lockNode = _ from hsame] at hnode
      apply (kept.held node hnode).imp_right
      rintro ⟨other, p, hother, howner, hguards⟩
      by_cases heq : other = session
      · subst heq
        rw [hinside] at hother
        cases hother
        exact ⟨other, _, Function.update_self .., howner, hmine hguards⟩
      · exact ⟨other, p, (Function.update_of_ne heq _ _).trans hother, howner, hguards⟩
    | taken _ howns =>
      obtain ⟨node', hnode', howner⟩ := howns
      rw [show t'.get lockNode = _ from hnode] at hnode'
      cases hnode'
      exact Or.inr ⟨session, _, Function.update_self .., howner, hnext⟩
    | freed hfreed => exact absurd (Tree.mem_of_get hnode) hfreed

theorem LockKept.step (kept : LockKept before s) (step : ControllerStep LockReported s s') :
    LockKept before s' := by
  cases step with
  | enter net outside => exact kept.enter net outside
  | leave inside returns => exact kept.leave inside returns
  | call inside answered => exact kept.call inside answered

end Steps

/-- Once `check` has returned, its session does not own the lock node; and a lock node that refuses
somebody was there at the start or is that of a controller inside `check`. The answers about the
lock node itself are assumed to be right (`LockReported`); `failed_create_keeps_lock` shows what a
create does that took effect and reports an error. No session expires. -/
theorem lock_released {before : Tree} {s : Controllers}
    (run : ControllerRun LockReported (.outside before) s) :
    (∀ session, ¬ Owns before session → s.running session = none → ¬ Owns s.tree session) ∧
      ∀ node, s.tree.get lockNode = some node → before.get lockNode = some node ∨
        ∃ session, node.owner = some session ∧ s.running session ≠ none := by
  have kept : LockKept before s := by
    induction run with
    | refl => exact ⟨(fun _ _ h => nomatch h), fun _ h => Or.inl h⟩
    | tail _ step ih => exact ih.step step
  constructor
  · rintro session hbefore houtside ⟨node, hnode, howner⟩
    rcases kept.held node hnode with hold | ⟨other, p, hinside, hother, _⟩
    · exact hbefore ⟨node, hold, howner⟩
    · rw [howner, Option.some_inj] at hother
      rw [hother, hinside] at houtside
      cases houtside
  · intro node hnode
    apply (kept.held node hnode).imp_right
    rintro ⟨session, p, hinside, howner, _⟩
    refine ⟨session, howner, ?_⟩
    rw [hinside]
    exact Option.some_ne_none p

/-! ### One check after the other -/

section Complete
variable {env : Program.Env Resp Tree} {session : Nat} {t t' : Tree}

/-- A controller may do all its calls before anybody else does one. -/
theorem run_returns {s : Controllers} {p : Program Resp (Except Halt Legal)}
    {outcome : Except Halt Legal} (inside : s.running session = some p)
    (returns : Program.Returns env p s.tree outcome t') :
    ControllerRun env s ⟨t', Function.update s.running session (some (.done outcome))⟩ := by
  induction p generalizing s with
  | done value =>
    cases returns
    rw [← inside, Function.update_eq_self]
  | call c next ih =>
    cases returns with
    | call answered rest =>
      have hstep := ControllerStep.call inside answered
      refine .head hstep ?_
      have hrest := @ih _ ⟨_, Function.update s.running session _⟩ (Function.update_self ..) rest
      rwa [Function.update_idem] at hrest

/-- A check alone is a run of the controllers. -/
theorem run_check (session : Nat) (net : Network) (outcome : Except Halt Legal)
    (returns : Program.Returns env (check (some session) net).run t outcome t')
    (houtcome : outcome ≠ .error .lengthError) : ControllerRun env (.outside t) (.outside t') := by
  have henter : ControllerStep env (.outside t) _ := @ControllerStep.enter env (.outside t) session net rfl
  refine .head henter ?_
  refine (run_returns (Function.update_self ..) returns).trans ?_
  have hleave := @ControllerStep.leave env ⟨t', Function.update (Function.update (fun _ => none)
    session (some (check (some session) net).run)) session (some (.done outcome))⟩ session outcome
    (Function.update_self session _ _) houtcome
  dsimp only at hleave
  have hnone : Function.update (fun _ => none) session none =
      (fun _ => none : Nat → Option (Program Resp (Except Halt Legal))) := Function.update_eq_self session _
  rw [Function.update_idem, Function.update_idem, hnone] at hleave
  dsimp only [Controllers.outside]
  rw [Function.update_idem]
  exact .single hleave

end Complete

/-- The base nodes, and nothing else. -/
def baseTree : Tree := Tree.empty.plant [(lockPath, none), (cfgPath, none), (errPath, none),
  (checkPath, none), (nodePath, none)]

/-- The tree after the lock node has been created. -/
def lockedTree : Tree := (serve (.zooCreate lockNode none (.ephemeral 1)) baseTree).2

theorem exists_baseTree {path : Path} (h : path ∈ baseTree) :
    Faulty (.zooExists path) baseTree (.ok ()) baseTree := by
  left
  rw [serve, if_pos h]

/-- The create of the lock node takes effect and reports a failure. The controller leaves
`check` without the lock, as far as it knows, and nobody gets the lock any more. -/
theorem failed_create_keeps_lock : ControllerRun Faulty (.outside baseTree) (.outside lockedTree) ∧
    ¬ Owns baseTree 1 ∧ Owns lockedTree 1 ∧
      ∀ session, (serve (.zooCreate lockNode none (.ephemeral session)) lockedTree).1 = .error .nodeExists := by
  have hnode : lockedTree.get lockNode = some ⟨none, some 1⟩ := by decide +kernel
  refine ⟨?_, ?_, ⟨_, hnode, rfl⟩, ?_⟩
  · refine run_check 1 (fun _ _ => ∅) (.error .noLock) ?_ (by simp)
    refine .call (exists_baseTree (by decide +kernel)) ?_
    refine .call (exists_baseTree (by decide +kernel)) ?_
    refine .call (exists_baseTree (by decide +kernel)) ?_
    refine .call (exists_baseTree (by decide +kernel)) ?_
    refine .call (exists_baseTree (by decide +kernel)) ?_
    refine .call (Or.inr ⟨.connectionLoss, rfl, Or.inr rfl⟩) ?_
    exact .done _ _
  · rintro ⟨node, h, _⟩
    have hfree : baseTree.get lockNode = none := by decide +kernel
    rw [hfree] at h
    cases h
  · intro session
    have hmem : lockNode ∈ lockedTree := Tree.mem_of_get hnode
    have hcreate : lockedTree.create lockNode none (.ephemeral session) = .error .nodeExists := by
      have hname : ValidName (lockedTree.createdName "lock".toList lockPath (.ephemeral session)) :=
        Tree.validName_of_mem hmem
      have hmode : ¬ (CreateMode.ephemeral session = .sequence ∧ 10 ^ 10 ≤ lockedTree.counter lockPath) :=
        fun h => CreateMode.noConfusion h.1
      simp only [Tree.create, lockNode]
      rw [dif_pos hname, dif_pos (Tree.mem_parent hmem), if_neg hmode, if_pos]
      exact hmem
    rw [serve, hcreate]

/-- A call that does what it reports: a delete of the lock node is one of a node without children. -/
def servesLock (c : ZkCall) (t : Tree) : Bool :=
  match c with
  | .zooDelete path => path ≠ lockNode || lockNode ∉ (serve c t).2
  | _ => true

theorem lockReported_served {c : ZkCall} {t : Tree} (h : servesLock c t = true) :
    LockReported c t (serve c t).1 (serve c t).2 := by
  refine ⟨Or.inl rfl, ?_⟩
  cases c with
  | zooCreate path data mode =>
    intro _ hfailed
    rw [serve] at hfailed ⊢
    split at hfailed
    · cases hfailed
    · rfl
  | zooDelete path =>
    intro hpath
    simpa [servesLock, hpath] using h
  | zooExists path => trivial
  | zooGet path => trivial
  | zooGetChildren path => trivial

/-- A check of an empty configuration: after its sixth call its session owns the lock node, and
when it has returned the node is gone. -/
theorem lock_released_example :
    Owns (Program.cutAt serve 6 (check (some 1) fun _ _ => ∅).run baseTree) 1 ∧
    ∃ t, ControllerRun LockReported (.outside baseTree) (.outside t) ∧
      (∀ session, ¬ Owns baseTree session → (Controllers.outside t).running session = none →
        ¬ Owns (Controllers.outside t).tree session) ∧
      ∀ node, (Controllers.outside t).tree.get lockNode = some node →
        baseTree.get lockNode = some node ∨ ∃ session, node.owner = some session ∧
          (Controllers.outside t).running session ≠ none := by
  constructor
  · exact ⟨⟨none, some 1⟩, by decide +kernel, rfl⟩
  · have hpass : Program.callsPass serve servesLock (check (some 1) fun _ _ => ∅).run baseTree = true := by
      decide +kernel
    have hends : endsWith serve (check (some 1) fun _ _ => ∅) baseTree (fun _ _ => true) = true := by
      decide +kernel
    obtain ⟨legal, t, hok, _⟩ := endsWith_iff.mp hends
    have allowed : ∀ c t, servesLock c t = true → LockReported c t (serve c t).1 (serve c t).2 :=
      fun c t => lockReported_served
    have returns := Program.returns_of_callsPass allowed hpass
    rw [show Program.run serve (check (some 1) fun _ _ => ∅).run baseTree = _ from hok] at returns
    have run := run_check 1 (fun _ _ => ∅) (.ok legal) returns (by simp)
    exact ⟨t, run, lock_released run⟩

end RedisCluster.Guarantees
