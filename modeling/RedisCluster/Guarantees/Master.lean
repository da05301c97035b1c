import RedisCluster.Guarantees.Partition

/-!
# The master of a cluster

The published master is the address of the check node with the least name. Check
nodes are numbered upwards, and names are ordered like numbers, so whatever a later
check adds ranks behind the nodes that were there. A node whose address is still
configured and answers stays, and with it the master.
-/

set_option autoImplicit false

namespace RedisCluster.Guarantees
open Library Routine ZkCall Source

/-- Every check node was created by the controller: its name is a number that its
cluster has already given out. -/
def ControllerNodes (t : Tree) : Prop :=
  ∀ n c, n :: c :: checkPath ∈ t →
    ∃ k, n = seqName k ∧ k < t.counter (c :: checkPath) ∧ k < 10 ^ 10

/-- Checks that end well, with any answers, and changes of the configuration. -/
inductive Runs : Tree → Tree → Prop
  | start (t : Tree) : Runs t t
  | check {t s s' : Tree} {legal : Legal} (before : Runs t s) (zkh : Option Nat) (net : Network)
      (success : Ok serve (check zkh net) s legal s') : Runs t s'
  | configure {t s s' : Tree} (before : Runs t s) (change : Reconfigured s s') : Runs t s'

/-- The check node `n` carries `m` and has the least name of its cluster. -/
structure Leads (t : Tree) (c m n : Str) : Prop where
  data : HasData t (n :: c :: checkPath) m
  least : ∀ other, other :: c :: checkPath ∈ t → (compare n other).isLE

variable {net : Network} {start finish t t' : Tree} {legal : Legal}

/-- Numbers that ZooKeeper gave are less than the next one. -/
theorem ControllerNodes.fresh (h : ControllerNodes t) : SequenceFresh t := by
  intro k c hmem
  obtain ⟨j, hname, hless, _⟩ := h _ c hmem
  obtain rfl := seqName_injective hname
  exact hless

theorem ControllerNodes.has_idx (h : ControllerNodes t) {n c : Str}
    (hn : n :: c :: checkPath ∈ t) : cutIdx redisPrefix n ≠ -1 := by
  obtain ⟨k, rfl, _, hk⟩ := h n c hn
  exact seqName_has_idx hk

/-- A node that was there has a smaller name than a node that came. -/
theorem advanced_isLE (nodes : ControllerNodes t) {c n other : Str} (h : Advances t t' c)
    (hn : n :: c :: checkPath ∈ t) (hother : other :: c :: checkPath ∈ t') :
    other :: c :: checkPath ∈ t ∨ compare n other = .lt := by
  obtain ⟨node, hget⟩ := Tree.mem_iff.mp hother
  rcases h.nodes other node hget with hold | ⟨k, rfl, hle, _, hk⟩
  · exact Or.inl (Tree.mem_of_get hold)
  · obtain ⟨j, rfl, hless, hj⟩ := nodes n c hn
    right
    rw [compare_seqName hj hk, Nat.compare_eq_lt]
    omega

/-- What comes later does not take away a survivor's place. -/
theorem survives_advance (nodes : ControllerNodes t) {c n : Str} (h : Advances t t' c)
    (hn : n :: c :: checkPath ∈ t) (hsame : t'.get (n :: c :: checkPath) = t.get (n :: c :: checkPath))
    (hsurvive : Survives t (c :: checkPath) n) : Survives t' (c :: checkPath) n := by
  refine ⟨hsurvive.1, fun earlier data hless hidx hdata hnd => ?_⟩
  have hold : HasData t (earlier :: c :: checkPath) data := by
    obtain ⟨node, hget, hd⟩ := hdata
    rcases h.nodes earlier node hget with hold | ⟨k, rfl, hle, _, hk⟩
    · exact ⟨node, hold, hd⟩
    · obtain ⟨j, rfl, hj, hjk⟩ := nodes n c hn
      rw [compare_seqName hk hjk, Nat.compare_eq_lt] at hless
      omega
  exact hsurvive.2 earlier data hless hidx hold ((HasData.congr hsame).mp hnd)

/-- The first node of a cluster survives `get_check`. -/
theorem Leads.survives (nodes : ControllerNodes t) {c m n : Str} (h : Leads t c m n) :
    Survives t (c :: checkPath) n := by
  refine ⟨nodes.has_idx h.data.mem, fun earlier data hless _ hdata _ => ?_⟩
  have hle := h.least earlier hdata.mem
  rw [Std.OrientedOrd.eq_swap, hless] at hle
  cases hle

/-! ## One locked check -/

section Locked
variable (run : LockedRun net start legal finish)

/-- No pass takes a number back from a configured cluster. -/
theorem repaired_advances {c : Str} (hc : c ∈ run.cfgs) : Advances start run.repaired c := by
  obtain ⟨addrs, haddrs⟩ := Ordered.mem_iff_getElem?.mp hc
  have hread : Advances start run.read c := Advances.of_checkRead run.checks
  have hgrown := (logicCheckAdd_ok run.add).advances c
  have herrored : Advances run.grown run.errored c := by
    refine Advances.of_pruned (logicErrorRm_ok run.errorRm) ?_
    rintro ⟨c', nodes, _, ⟨_, _, _, hq⟩ | ⟨_, hq⟩⟩ <;> simp [errPath, checkPath] at hq
  have hcleaned : Advances run.errored run.cleaned c := by
    refine Advances.of_pruned (logicCheckRm_ok run.checkRm) ?_
    rintro ⟨c', rdis, _, ⟨_, _, _, _, hq⟩ | ⟨hnone, hq⟩⟩
    · simp at hq
    · cases hq
      rw [haddrs] at hnone
      cases hnone
  have hrepaired := (checkError_ok run.repair).advances c
  exact (((hread.trans hgrown).trans herrored).trans hcleaned).trans hrepaired

/-- A check only adds numbers behind those that were given. -/
theorem finish_advances (filed : Filed run.cfgs start) {c : Str} (hc : c ∈ run.cfgs) :
    Advances start finish c := by
  obtain ⟨chks, s, hread, hset⟩ := failed_from run filed
  have hfailed : Advances run.repaired run.failed c :=
    (Advances.of_checkRead hread).trans (hset.advances c)
  have hfinish : Advances run.failed finish c := by
    exact Advances.of_same (fun n => finish_check run filed) (finish_counter run c)
  exact ((repaired_advances run hc).trans hfailed).trans hfinish

include run in
/-- Whatever a check creates, ZooKeeper names. -/
theorem finish_controllerNodes (nodes : ControllerNodes start) : ControllerNodes finish := by
  have filed := filed_of_fresh run.toCleanedRun nodes.fresh
  intro n c hn
  have hc : c ∈ run.cfgs :=
    ((locked_partition run filed).checkClusters c).mp (Tree.mem_parent hn)
  have hadvances := finish_advances run filed hc
  obtain ⟨node, hget⟩ := Tree.mem_iff.mp hn
  rcases hadvances.nodes n node hget with hold | ⟨k, rfl, _, hless, hk⟩
  · obtain ⟨k, rfl, hless, hk⟩ := nodes n c (Tree.mem_of_get hold)
    exact ⟨k, rfl, Nat.lt_of_lt_of_le hless hadvances.counter, hk⟩
  · exact ⟨k, rfl, hless, hk⟩

/-- The node of a configured address that answers stays, unless a smaller one carries it. -/
theorem healthy_stays (nodes : ControllerNodes start) {c m n : Str} {addrs : Addrs}
    (hc : run.cfgs[c]? = some addrs) (hm : m ∈ addrs) (hans : m ∈ answers net run.cfgs)
    (hdata : HasData start (n :: c :: checkPath) m)
    (hsurvive : Survives start (c :: checkPath) n) : HasData finish (n :: c :: checkPath) m := by
  have filed := filed_of_fresh run.toCleanedRun nodes.fresh
  have hread : HasData run.read (n :: c :: checkPath) m :=
    (HasData.congr (run.checks.mem hdata.mem hsurvive)).mpr hdata
  have hgrown := (logicCheckAdd_ok run.add).grown.hasData hread
  have hcleaned := configured_stays run.toCleanedRun filed hc hm hgrown
  have hrepaired : HasData run.repaired (n :: c :: checkPath) m := by
    refine (checkError_ok run.repair).edited.hasData hcleaned ?_
    simp [errPath, checkPath]
  obtain ⟨chks, s, hread', hset⟩ := failed_from run filed
  have hsame : run.repaired.get (n :: c :: checkPath) = start.get (n :: c :: checkPath) := by
    obtain ⟨node, hget, _⟩ := hrepaired
    rcases (repaired_advances run (Ordered.mem_iff_getElem?.mpr ⟨addrs, hc⟩)).nodes n node hget
      with hold | ⟨k, rfl, hle, _, _⟩
    · rw [hget, hold]
    · have hless := nodes.fresh k c hdata.mem
      omega
  have hsurvive' : Survives run.repaired (c :: checkPath) n :=
    survives_advance nodes (repaired_advances run (Ordered.mem_iff_getElem?.mpr ⟨addrs, hc⟩))
      hdata.mem hsame hsurvive
  have hs : HasData s (n :: c :: checkPath) m :=
    (HasData.congr (hread'.mem hrepaired.mem hsurvive')).mpr hrepaired
  have hfailed : HasData run.failed (n :: c :: checkPath) m := by
    refine hset.edited.hasData hs ?_
    rintro ⟨d, a, k, ⟨⟨rdis, hrdis, ha⟩, hsick⟩, hq⟩
    cases hq
    obtain rfl := ((hread'.clusters c rdis hrdis).names a n ha).2.2.unique hrepaired
    exact hsick hans
  exact (HasData.congr (finish_check run filed)).mpr hfailed

/-- The first node stays first if its address is configured and answers. -/
theorem leader_stays (nodes : ControllerNodes start) {c m n : Str} {addrs : Addrs}
    (hc : run.cfgs[c]? = some addrs) (hm : m ∈ addrs) (hans : m ∈ answers net run.cfgs)
    (leads : Leads start c m n) : Leads finish c m n := by
  refine ⟨healthy_stays run nodes hc hm hans leads.data (leads.survives nodes), ?_⟩
  intro other hother
  have hadvances := finish_advances run (filed_of_fresh run.toCleanedRun nodes.fresh)
    (Ordered.mem_iff_getElem?.mpr ⟨addrs, hc⟩)
  rcases advanced_isLE nodes hadvances leads.data.mem hother with hold | hless
  · exact leads.least other hold
  · exact Ordering.isLE_of_eq_lt hless

/-- The published master has the first node. -/
theorem published_leads (filed : Filed run.cfgs start) {c m n : Str} {rest : List Str}
    (hc : c ∈ run.cfgs) (published : legal.clusterLegalRedis[c]? = some (m :: rest))
    (checked : n :: c :: checkPath ∈ finish) : ∃ n, Leads finish c m n := by
  obtain ⟨rds, errs, list, hlist, hlegal, hnodes, _⟩ := listed_nodes run filed hc
  have carried : ∀ other, other :: c :: checkPath ∈ finish →
      ∃ d, (d, other) ∈ sortRedis rds := by
    intro other hother
    obtain ⟨addrs, haddrs⟩ := Ordered.mem_iff_getElem?.mp hc
    obtain ⟨d, hd, _⟩ := (locked_partition run filed).checkData c addrs haddrs other hother
    exact ⟨d, mem_sortRedis.mpr ((hnodes d other).mpr hd)⟩
  rw [published] at hlist
  cases hlist
  generalize hmr : m :: rest = list at hlegal
  cases hlegal with
  | ranked hne _ =>
    cases hsort : sortRedis rds with
    | nil => exact absurd hsort hne
    | cons first seqs =>
      rw [hsort, List.map_cons] at hmr
      obtain ⟨rfl, _⟩ := List.cons.inj hmr
      have hfirst : first ∈ sortRedis rds := by simp [hsort]
      refine ⟨first.2, (hnodes _ _).mp (mem_sortRedis.mp hfirst), fun other hother => ?_⟩
      obtain ⟨d, hd⟩ := carried other hother
      exact sortRedis_head hsort hd
  | standby hnone _ _ =>
    obtain ⟨d, hd⟩ := carried n checked
    rw [hnone] at hd
    cases hd

/-- And the address with the first node is the published master. -/
theorem leads_published (filed : Filed run.cfgs start) {c m n : Str} (hc : c ∈ run.cfgs)
    (leads : Leads finish c m n) : ∃ rest, legal.clusterLegalRedis[c]? = some (m :: rest) := by
  obtain ⟨rds, errs, list, hlist, hlegal, hnodes, _⟩ := listed_nodes run filed hc
  have hmem : (m, n) ∈ sortRedis rds := mem_sortRedis.mpr ((hnodes m n).mpr leads.data)
  cases hlegal with
  | standby hnone _ _ =>
    rw [hnone] at hmem
    cases hmem
  | ranked _ _ =>
    cases hsort : sortRedis rds with
    | nil =>
      rw [hsort] at hmem
      cases hmem
    | cons first seqs =>
      have hfirst : first ∈ sortRedis rds := by simp [hsort]
      have hdata := (hnodes first.1 first.2).mp (mem_sortRedis.mp hfirst)
      have hle := sortRedis_head hsort hmem
      have hname : first.2 = n := by
        have hge := leads.least first.2 hdata.mem
        exact Std.LawfulEqOrd.compare_eq_iff_eq.mp (Std.OrientedCmp.isLE_antisymm hle hge)
      rw [hname] at hdata
      refine ⟨seqs.map Prod.fst, ?_⟩
      rw [hlist, hsort, List.map_cons, hdata.unique leads.data]

end Locked

/-! ## Runs of checks -/

theorem reconfigured_check (change : Reconfigured t t') (n c : Str) :
    t'.get (n :: c :: checkPath) = t.get (n :: c :: checkPath) :=
  change.get _ (not_in_branch (by simp [checkPath]))

theorem reconfigured_nodes (change : Reconfigured t t') (nodes : ControllerNodes t) :
    ControllerNodes t' := by
  intro n c hn
  have hcounter : t'.counter (c :: checkPath) = t.counter (c :: checkPath) :=
    change.counter _ (not_in_branch (by simp [checkPath])) (by simp)
  rw [Tree.mem_iff, reconfigured_check change, ← Tree.mem_iff] at hn
  rw [hcounter]
  exact nodes n c hn

theorem reconfigured_leads {c m n : Str} (change : Reconfigured t t') (leads : Leads t c m n) :
    Leads t' c m n := by
  refine ⟨(HasData.congr (reconfigured_check change n c)).mpr leads.data, fun other hother => ?_⟩
  rw [Tree.mem_iff, reconfigured_check change, ← Tree.mem_iff] at hother
  exact leads.least other hother

theorem checkPath_below (n c : Str) : Below (n :: c :: checkPath) :=
  below_cons (by simp) (by simp [lockPath, checkPath])

theorem nodesBelow (h : SameBelow t t') (nodes : ControllerNodes t) : ControllerNodes t' := by
  intro n c hn
  have hcluster : Below (c :: checkPath) :=
    below_cons (by simp [checkPath]) (by simp [checkPath, lockPath])
  rw [h.counter _ hcluster]
  exact nodes n c ((h.mem_iff (checkPath_below n c)).mp hn)

theorem leadsBelow (h : SameBelow t t') {c m n : Str} (leads : Leads t c m n) :
    Leads t' c m n := by
  refine ⟨(HasData.congr (h.get _ (checkPath_below n c))).mpr leads.data, fun other hother => ?_⟩
  exact leads.least other ((h.mem_iff (checkPath_below other c)).mp hother)

theorem check_nodes {zkh : Option Nat} (nodes : ControllerNodes t)
    (success : Ok serve (check zkh net) t legal t') : ControllerNodes t' := by
  obtain ⟨s, s', hprepared, hlocked, hsame⟩ := check_ok success
  obtain ⟨run⟩ := checkLocked_ok hlocked
  exact nodesBelow hsame (finish_controllerNodes run (nodesBelow hprepared.same nodes))

/-- By induction on the run. -/
theorem runs_nodes (run : Runs t t') (nodes : ControllerNodes t) : ControllerNodes t' := by
  induction run with
  | start => exact nodes
  | check before zkh net success ih => exact check_nodes ih success
  | configure before change ih => exact reconfigured_nodes change ih

/-- The published master of a checked cluster has the least check node. -/
theorem check_leads {zkh : Option Nat} (fresh : SequenceFresh t) {c m : Str} {rest : List Str}
    (success : Ok serve (check zkh net) t legal t')
    (published : legal.clusterLegalRedis[c]? = some (m :: rest))
    (checked : ∃ n, n :: c :: checkPath ∈ t') : ∃ n, Leads t' c m n := by
  obtain ⟨s, s', hprepared, hlocked, hsame⟩ := check_ok success
  obtain ⟨run⟩ := checkLocked_ok hlocked
  have filed := filed_of_fresh run.toCleanedRun (freshBelow hprepared.same fresh)
  obtain ⟨n, hn⟩ := checked
  have hn' := (hsame.mem_iff (checkPath_below n c)).mp hn
  have hc : c ∈ run.cfgs := ((locked_partition run filed).checkClusters c).mp (Tree.mem_parent hn')
  obtain ⟨n, leads⟩ := published_leads run filed hc published hn'
  exact ⟨n, leadsBelow hsame leads⟩

/-- A check node that is the first of its cluster stays so in the next check, while its address is
configured and answers. -/
theorem master_kept {t₁ t₂ t₃ t₄ : Tree} {zkh₁ zkh₂ : Option Nat} {net₁ net₂ : Network}
    {legal₁ legal₂ : Legal} {c m : Str} {rest : List Str} {addrs : Addrs}
    (nodes₁ : ControllerNodes t₁) (first : Ok serve (check zkh₁ net₁) t₁ legal₁ t₂)
    (published : legal₁.clusterLegalRedis[c]? = some (m :: rest))
    (checked : ∃ n, n :: c :: checkPath ∈ t₂) (change : Reconfigured t₂ t₃)
    (second : Ok serve (check zkh₂ net₂) t₃ legal₂ t₄)
    (home : (configured t₃)[c]? = some addrs) (member : m ∈ addrs)
    (healthy : m ∈ answers net₂ (configured t₃)) :
    ∃ rest', legal₂.clusterLegalRedis[c]? = some (m :: rest') := by
  obtain ⟨n, leads⟩ := check_leads nodes₁.fresh first published checked
  have nodes₃ := reconfigured_nodes change (check_nodes nodes₁ first)
  obtain ⟨s, s', hprepared, hlocked, hsame⟩ := check_ok second
  obtain ⟨run⟩ := checkLocked_ok hlocked
  have nodes := nodesBelow hprepared.same nodes₃
  have hcfgs : run.cfgs = configured t₃ :=
    ConfigOf.unique run.config (config_same hprepared.same (configOf_configured t₃))
  rw [← hcfgs] at home healthy
  have leads' := leader_stays run nodes home member healthy
    (leadsBelow hprepared.same (reconfigured_leads change leads))
  exact leads_published run (filed_of_fresh run.toCleanedRun nodes.fresh)
    (Ordered.mem_iff_getElem?.mpr ⟨addrs, home⟩) leads'

/-- A master that is still configured and answers stays the master of its cluster. The check nodes
were created by the controller at some time, and since then there were checks that ended well and
changes of the configuration. A check that is cut off in between is not covered. -/
theorem master_stays (t₀ t₁ t₂ t₃ t₄ : Tree) (zkh₁ zkh₂ : Option Nat) (net₁ net₂ : Network)
    (legal₁ legal₂ : Legal) (c m : Str) (rest : List Str) (addrs : Addrs)
    (created : ControllerNodes t₀) (before : Runs t₀ t₁)
    (first : Ok serve (check zkh₁ net₁) t₁ legal₁ t₂)
    (published : legal₁.clusterLegalRedis[c]? = some (m :: rest))
    (checked : ∃ n, n :: c :: checkPath ∈ t₂) (change : Reconfigured t₂ t₃)
    (second : Ok serve (check zkh₂ net₂) t₃ legal₂ t₄)
    (home : (configured t₃)[c]? = some addrs) (member : m ∈ addrs)
    (healthy : m ∈ answers net₂ (configured t₃)) :
    ∃ rest', legal₂.clusterLegalRedis[c]? = some (m :: rest') :=
  master_kept (runs_nodes before created) first published checked change second home member healthy

/-- After a first check of the example, a second one keeps the master. -/
def secondCheck (legal : Legal) (t : Tree) : Bool :=
  legal.clusterLegalRedis["cluster1".toList]? = some ["1.0.0.1:80".toList] ∧
    seqName 0 :: "cluster1".toList :: checkPath ∈ t ∧
    ((configured t)["cluster1".toList]?.any fun addrs => "1.0.0.1:80".toList ∈ addrs) ∧
    "1.0.0.1:80".toList ∈ answers exampleNet (configured t) ∧
    endsWith serve (check (some 1) exampleNet) t (fun _ _ => true)

/-- Two checks with an answering master. -/
theorem master_stays_example : ∃ t legal t' rest,
    Ok serve (check (some 1) exampleNet) t legal t' ∧
      legal.clusterLegalRedis["cluster1".toList]? = some ("1.0.0.1:80".toList :: rest) := by
  have hends : endsWith serve (check (some 1) exampleNet) exampleTree secondCheck = true := by
    decide +kernel
  have hcheck : checkPath ∉ exampleTree := by decide +kernel
  obtain ⟨legal₁, t₂, hfirst, htest⟩ := endsWith_iff.mp hends
  obtain ⟨hlist, hnode, hhome, hhealthy, hsecond⟩ := of_decide_eq_true htest
  obtain ⟨legal₂, t₄, hrun, _⟩ := endsWith_iff.mp hsecond
  obtain ⟨addrs, haddrs, hmember⟩ := Option.any_eq_true _ _ |>.mp hhome
  have created : ControllerNodes exampleTree := fun n c hmem =>
    absurd (Tree.mem_parent (Tree.mem_parent hmem)) hcheck
  have same : Reconfigured t₂ t₂ := ⟨fun _ _ => rfl, fun _ _ _ => rfl⟩
  obtain ⟨rest, hrest⟩ := master_stays exampleTree exampleTree t₂ t₂ t₄ (some 1) (some 1)
    exampleNet exampleNet legal₁ legal₂ _ _ _ addrs created (.start _) hfirst hlist
    ⟨_, hnode⟩ same hrun haddrs (of_decide_eq_true hmember) hhealthy
  exact ⟨t₂, legal₂, t₄, rest, hrun, hrest⟩

end RedisCluster.Guarantees
