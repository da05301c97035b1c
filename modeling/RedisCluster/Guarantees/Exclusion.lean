import RedisCluster.Guarantees.Serial

/-!
# One controller under the lock

A controller past its request for the lock owns the lock node, whatever the others do and however
the configuration is edited in the meantime. A serial order of whole checks is more: it needs a
configuration that stands while a check reads it. Here a check may read the configuration in parts,
and its calls still belong to it alone.

It is assumed that the session of a controller does not expire while the controller lives.
-/

set_option autoImplicit false

namespace RedisCluster.Guarantees
open Library Routine ZkCall Source

/-- The steps of `ClusterStep`, and edits of the configuration at any time, also while checks run.
An edit leaves `/config` itself in place and gives no base node to a session. -/
inductive EditedStep : Controllers → Controllers → Prop
  | cluster {s s' : Controllers} (step : ClusterStep s s') : EditedStep s s'
  | edit {s : Controllers} {t' : Tree} (change : Reconfigured s.tree t')
      (kept : cfgPath ∈ s.tree → cfgPath ∈ t') (lasting : BasesLast t') :
      EditedStep s { s with tree := t' }

/-- What controllers reach while the configuration is edited. -/
abbrev EditedRun : Controllers → Controllers → Prop := Relation.ReflTransGen EditedStep

/-! ## Who holds the lock -/

/-- What is left of a check without the lock: it has not got so far, or nothing is left. -/
inductive Waiting (session : Nat) (t : Tree) : Program Resp (Except Halt Legal) → Prop
  | ahead {p : Program Resp (Except Halt Legal)} (ahead : Ahead session t p) : Waiting session t p
  | finished (outcome : Except Halt Legal) : Waiting session t (.done outcome)

/-- A check that holds the lock, in any tree that has the base nodes. -/
structure Holding (session : Nat) (t : Tree) (p : Program Resp (Except Halt Legal)) : Prop where
  owns : Owns t session
  base : ∀ q ∈ basePaths, q ∈ t
  locked : Locked p

/-- At most one controller holds the lock. Nothing is said of how the tree came about. -/
structure Excludes (s : Controllers) (holder : Option Nat) : Prop extends
    Parted (fun session => Holding session s.tree) (fun session => Waiting session s.tree) s.running
      holder where
  lasting : BasesLast s.tree

section Parts
variable {session : Nat} {t t' : Tree} {p : Program Resp (Except Halt Legal)}

theorem Waiting.mono (h : Waiting session t p) (keeps : ∀ name, [name] ∈ t → [name] ∈ t') :
    Waiting session t' p := by
  cases h with
  | ahead ahead => exact .ahead (ahead.mono keeps)
  | finished outcome => exact .finished outcome

theorem Waiting.ahead_of_call (h : Waiting session t p) {c : ZkCall}
    {next : c.Resp → Program Resp (Except Halt Legal)} (hp : p = .call c next) :
    Ahead session t p := by
  cases h with
  | ahead ahead => exact ahead
  | finished outcome => cases hp

/-- A controller that waits has a call of its preparation, or its request for the lock. -/
theorem Waiting.prelude (h : Waiting session t p) {c : ZkCall}
    {next : c.Resp → Program Resp (Except Halt Legal)} (hp : p = .call c next) :
    Prelude session c := by
  have hlost : Faulty c t (.error .connectionLoss) t := Or.inr ⟨_, rfl, Or.inl rfl⟩
  exact ((h.ahead_of_call hp).answered hp hlost).1

/-- While the lock node is there, a check without the lock changes nothing. -/
theorem Waiting.idle (h : Waiting session t p) {c : ZkCall}
    {next : c.Resp → Program Resp (Except Halt Legal)} (hp : p = .call c next) {r : c.Resp}
    (base : ∀ q ∈ basePaths, q ∈ t) (there : lockNode ∈ t) (answered : Faulty c t r t') : t' = t := by
  obtain ⟨_, hadvance⟩ := (h.ahead_of_call hp).answered hp answered
  cases hadvance with
  | goes net stops quiet rest => exact quiet base there
  | enters net free base reaches owns locked => exact absurd there free

/-- An edit of the configuration leaves the base nodes and the lock node. -/
theorem edit_keeps (change : Reconfigured t t') (kept : cfgPath ∈ t → cfgPath ∈ t') :
    (∀ name, [name] ∈ t → [name] ∈ t') ∧ t'.get lockNode = t.get lockNode := by
  constructor
  · intro name hmem
    by_cases hname : [name] = cfgPath
    · rw [hname] at hmem ⊢
      exact kept hmem
    · have houtside : ¬ cfgPath <:+ [name] := by
        intro hsuffix
        exact hname (hsuffix.eq_of_length (by simp [cfgPath])).symm
      rw [Tree.mem_iff, change.get _ houtside, ← Tree.mem_iff]
      exact hmem
  · exact change.get _ (by decide)

end Parts

section Steps
variable {s : Controllers} {session : Nat} {holder : Option Nat}

/-- A holder that dies leaves the lock node behind, and nobody holds it any more. -/
theorem Excludes.die (h : Excludes s holder) (session : Nat) :
    ∃ holder', Excludes { s with running := Function.update s.running session none } holder' := by
  by_cases heq : holder = some session
  · refine ⟨none, h.leaves (fun other hother => ?_) (fun _ _ h => h) fun _ hp => (by cases hp), h.lasting⟩
    rw [heq] at hother
    exact (Option.some_inj.mp hother).symm
  · exact ⟨holder, h.replace heq fun _ hp => (by cases hp), h.lasting⟩

/-- Only the session of a dead controller expires, and if it owns the lock nobody holds it. -/
theorem Excludes.expire (h : Excludes s holder) (dead : s.running session = none)
    (owns : Owns s.tree session) : Excludes { s with tree := s.tree.expire session } none := by
  obtain ⟨hlasting, hkeeps⟩ := h.lasting.expire session
  refine ⟨.nobody fun other p hp => (h.outside other p ?_ hp).mono hkeeps, hlasting⟩
  intro hholder
  obtain ⟨node, hnode, howner⟩ := (h.holder_inside hp hholder).owns
  obtain ⟨node', hnode', howner'⟩ := owns
  rw [hnode] at hnode'
  cases hnode'
  rw [howner, Option.some_inj] at howner'
  rw [← howner', hp] at dead
  cases dead

theorem excludes_quiet {t' : Tree} (quiet : ∀ session, s.running session = none)
    (lasting : BasesLast t') : Excludes { s with tree := t' } none := by
  refine ⟨.nobody fun session p hp => ?_, lasting⟩
  dsimp only at hp
  rw [quiet session] at hp
  cases hp

/-- An edit goes past everybody, also past the holder, who may have read the configuration in part.
-/
theorem Excludes.edit (h : Excludes s holder) {t' : Tree} (change : Reconfigured s.tree t')
    (kept : cfgPath ∈ s.tree → cfgPath ∈ t') (lasting : BasesLast t') :
    Excludes { s with tree := t' } holder := by
  obtain ⟨hkeeps, hlock⟩ := edit_keeps change kept
  refine ⟨h.mono (fun session p hholding => ?_) (fun _ _ hwaiting => hwaiting.mono hkeeps), lasting⟩
  obtain ⟨node, hnode, howner⟩ := hholding.owns
  refine ⟨⟨node, hlock.trans hnode, howner⟩, fun q hq => ?_, hholding.locked⟩
  obtain ⟨b, _, rfl⟩ := mem_baseNames.mp hq
  exact hkeeps _ (hholding.base _ hq)

/-- A call of the holder. After the last one it may be outside, with the lock node deleted or left
behind. -/
theorem Excludes.inside_call (h : Excludes s (some session)) {c : ZkCall} {r : c.Resp}
    {next : c.Resp → Program Resp (Except Halt Legal)} {t' : Tree}
    (hcall : s.running session = some (.call c next)) (answered : Faulty c s.tree r t') :
    ∃ holder', Excludes ⟨t', Function.update s.running session (some (next r))⟩ holder' := by
  have hself : ∀ other, some session = some other → other = session := fun other h =>
    (Option.some_inj.mp h).symm
  have hholding := h.holder_inside hcall rfl
  cases hholding.locked.answered rfl r with
  | works kind rest =>
    obtain ⟨hlasting, hkeeps⟩ := kind.steady.faulty h.lasting answered
    refine ⟨some session, h.holds hself (fun _ _ hwaiting => hwaiting.mono hkeeps)
      ⟨?_, fun q hq => ?_, rest⟩, hlasting⟩
    · obtain ⟨node, hnode, howner⟩ := hholding.owns
      exact ⟨node, (kind.lock_kept answered).trans hnode, howner⟩
    · obtain ⟨b, _, rfl⟩ := mem_baseNames.mp hq
      exact hkeeps _ (hholding.base _ hq)
  | frees hfree ends =>
    subst hfree
    obtain ⟨hlasting, hkeeps⟩ :=
      Steady.faulty (c := .zooDelete lockNode) (by simp [Steady, lockNode, lockPath]) h.lasting answered
    refine ⟨none, h.leaves hself (fun _ _ hwaiting => hwaiting.mono hkeeps) fun p hp => ?_, hlasting⟩
    cases hp
    rw [ends]
    exact .finished _

/-- A call of another controller, which becomes the holder if it gets the lock. -/
theorem Excludes.outside_call (h : Excludes s holder) (hne : holder ≠ some session) {c : ZkCall}
    {r : c.Resp} {next : c.Resp → Program Resp (Except Halt Legal)} {t' : Tree}
    (hcall : s.running session = some (.call c next)) (answered : Faulty c s.tree r t') :
    ∃ holder', Excludes ⟨t', Function.update s.running session (some (next r))⟩ holder' := by
  have hwaiting := h.outside session _ hne hcall
  obtain ⟨hkind, hadvance⟩ := (hwaiting.ahead_of_call rfl).answered rfl answered
  obtain ⟨hlasting, hkeeps⟩ := hkind.steady.faulty h.lasting answered
  cases hadvance with
  | goes net stops quiet rest =>
    cases holder with
    | none =>
      refine ⟨none, h.leaves (fun _ hholder => by cases hholder)
        (fun _ _ hwaiting => hwaiting.mono hkeeps) fun p hp => ?_, hlasting⟩
      cases hp
      exact .ahead rest
    | some other =>
      obtain ⟨_, _, hholding⟩ := h.inside other rfl
      obtain ⟨node, hnode, _⟩ := hholding.owns
      obtain rfl := hwaiting.idle rfl hholding.base (Tree.mem_of_get hnode) answered
      refine ⟨_, h.replace hne fun p hp => ?_, h.lasting⟩
      cases hp
      exact .ahead rest
  | enters net free base reaches owns locked =>
    refine ⟨some session, h.holds (fun other hother => ?_) (fun _ _ hwaiting => hwaiting.mono hkeeps)
      ⟨owns, base, ?_⟩, hlasting⟩
    · obtain ⟨_, _, hholding⟩ := h.inside other hother
      obtain ⟨node, hnode, _⟩ := hholding.owns
      exact absurd (Tree.mem_of_get hnode) free
    · rw [locked]
      exact locked_start net

theorem Excludes.controllerStep {s' : Controllers} (h : Excludes s holder)
    (step : ControllerStep Faulty s s') : ∃ holder', Excludes s' holder' := by
  cases step with
  | @enter session net outside =>
    refine ⟨holder, h.replace (h.not_holder outside) fun p hp => ?_, h.lasting⟩
    cases hp
    exact .ahead (ahead_check net)
  | @leave session outcome inside returns =>
    have hne : holder ≠ some session := fun hholder =>
      returns ((h.holder_inside inside hholder).locked.done rfl)
    exact ⟨holder, h.replace hne fun p hp => (by cases hp), h.lasting⟩
  | @call session c r t' next inside answered =>
    by_cases hholder : holder = some session
    · subst hholder
      exact h.inside_call inside answered
    · exact h.outside_call hholder inside answered

theorem Excludes.step {s' : Controllers} (h : Excludes s holder) (step : EditedStep s s') :
    ∃ holder', Excludes s' holder' := by
  cases step with
  | edit change kept lasting => exact ⟨holder, h.edit change kept lasting⟩
  | cluster step =>
    cases step with
    | work step => exact h.controllerStep step
    | die session => exact h.die session
    | expire dead owns => exact ⟨none, h.expire dead owns⟩
    | configure quiet change lasting => exact ⟨none, excludes_quiet quiet lasting⟩

end Steps

section Runs
variable {before : Tree} {s : Controllers}

/-- By induction on the run. -/
theorem editedRun_excludes (lasting : BasesLast before) (run : EditedRun (.outside before) s) :
    ∃ holder, Excludes s holder := by
  induction run with
  | refl => exact ⟨none, .nobody fun _ _ h => (by cases h), lasting⟩
  | tail _ step ih =>
    obtain ⟨holder, h⟩ := ih
    exact h.step step

/-- A controller with a call beyond its request for the lock owns the lock node, also when it is
alone. Whatever any other controller calls in the meantime belongs to its preparation or is its
own request, and leaves the tree as it is, answered or not. It is assumed that no base node is
ephemeral, and that only the sessions of dead controllers expire. -/
theorem mutual_exclusion (lasting : BasesLast before) (run : EditedRun (.outside before) s)
    {session : Nat} {c : ZkCall} {next : c.Resp → Program Resp (Except Halt Legal)}
    (first : s.running session = some (.call c next)) (working : ¬ Prelude session c) :
    Owns s.tree session ∧ ∀ (other : Nat) (d : ZkCall) (next' : d.Resp → Program Resp (Except Halt Legal)),
      other ≠ session → s.running other = some (.call d next') →
        Prelude other d ∧ ∀ r t', Faulty d s.tree r t' → t' = s.tree := by
  obtain ⟨holder, h⟩ := editedRun_excludes lasting run
  have hholder : holder = some session := by
    by_contra hne
    exact working ((h.outside session _ hne first).prelude rfl)
  subst hholder
  have hholding := h.holder_inside first rfl
  obtain ⟨node, hnode, _⟩ := hholding.owns
  refine ⟨hholding.owns, fun other d next' hne second => ?_⟩
  have hwaiting := h.outside other _ (fun h => hne (Option.some_inj.mp h).symm) second
  exact ⟨hwaiting.prelude rfl, fun r t' answered =>
    hwaiting.idle rfl hholding.base (Tree.mem_of_get hnode) answered⟩

end Runs

/-! Two controllers, and an edit while the first one holds the lock. -/

def editedTree : Tree := lockedTree.plant [("cluster9".toList :: cfgPath, none)]

/-- A cluster more is configured while the first controller is at work and the second one waits. -/
def edited : Controllers := { contended with tree := editedTree }

theorem edited_run : EditedRun (.outside baseTree) edited := by
  have hrun : EditedRun (.outside baseTree) contended :=
    contended_run.lift id fun _ _ => .cluster
  have hbases : BasesLast contended.tree := by
    obtain ⟨_, h⟩ := editedRun_excludes (basesLast_plant basesLast_empty) hrun
    exact h.lasting
  refine hrun.tail (.edit (reconfigured_plant (t := lockedTree) ?_) (fun _ => ?_) (basesLast_plant hbases))
  · intro node hnode
    rw [List.mem_singleton.mp hnode]
    exact ⟨["cluster9".toList], rfl⟩
  · decide +kernel

/-- The first controller stays alone through the edit. -/
theorem mutual_exclusion_example : Owns edited.tree 1 ∧ Prelude 2 (.zooExists ["lock".toList]) ∧
    ∀ r t', Faulty (.zooExists ["lock".toList]) edited.tree r t' → t' = edited.tree := by
  obtain ⟨next, hrun, _⟩ := setup_cons "lock".toList 1 baseNames.tail
  have hworking : ¬ Prelude 1 (.zooGetChildren cfgPath) := by
    rintro (⟨name, h | h⟩ | h)
    · cases h
    · cases h
    · cases h
  have hsecond : edited.running 2 = some (.call (.zooExists ["lock".toList])
      fun r => next r >>= afterSetup 2 silentNet) := by
    change some (check (some 2) silentNet).run = _
    rw [check_run, show baseNames = ("lock".toList, 1) :: baseNames.tail from rfl, hrun]
    rfl
  obtain ⟨reading, hreading⟩ : ∃ reading, (checkLocked silentNet).run >>= release =
      .call (.zooGetChildren cfgPath) reading := ⟨_, rfl⟩
  have hfirst : edited.running 1 = some (.call (.zooGetChildren cfgPath) reading) := by
    rw [← hreading]
    rfl
  obtain ⟨howns, hothers⟩ :=
    mutual_exclusion (basesLast_plant basesLast_empty) edited_run hfirst hworking
  exact ⟨howns, hothers 2 _ _ (by decide) hsecond⟩

end RedisCluster.Guarantees
