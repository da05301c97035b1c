import RedisCluster.Source.CtrlPublish

/-!
# Healthy and failed addresses after a check

A check that ends well leaves, for every configured cluster, the answering
addresses under check, one node each, and the others under error. Each pass
establishes a part of this over whatever tree the previous passes left: clusters and
error nodes are cleaned, every configured address is in one of the trees, errors
that answer move to check, and checks that do not answer move to error.
-/

set_option autoImplicit false

namespace RedisCluster.Guarantees
open Library Routine ZkCall Source

/-- The number of a sequence node is new: it is larger than every number in use. -/
def SequenceFresh (t : Tree) : Prop :=
  ∀ k c, seqName k :: c :: checkPath ∈ t → k < t.counter (c :: checkPath)

/-- Of the numbered check nodes that hold one address which is not configured in their cluster,
the first in the order of the names has the least number. `get_check` leaves the first one and
files the least one, and `logic_check_rm` deletes what was filed. -/
def Filed (cfgs : Clusters) (t : Tree) : Prop :=
  ∀ c d, notConfigured cfgs[c]? d → ∀ m n, Survives t (c :: checkPath) m →
    cutIdx redisPrefix n ≠ -1 → HasData t (m :: c :: checkPath) d →
      HasData t (n :: c :: checkPath) d → cutIdx redisPrefix m ≤ cutIdx redisPrefix n

/-- `cfgs` is what `get_config` reads in the tree. -/
def ConfigOf (t : Tree) (cfgs : Clusters) : Prop :=
  ∀ c, cfgs[c]? = clusterEntry t cfgPath true c

/-- The clusters and addresses that `get_config` reads. -/
def configured (t : Tree) : Clusters :=
  match (Program.run serve (getClusterNode cfgPath true).run t).1 with
  | .ok cfgs => cfgs
  | .error _ => ∅

/-- What `check_redis` gets as answers for a configuration. -/
def answers (net : Network) (cfgs : Clusters) : StrMap := checkRedis net 2 (allAddrs cfgs) ∅

/-- Answering addresses are under check, with one node each, the others under error. -/
structure Partition (cfgs : Clusters) (answers : StrMap) (t : Tree) : Prop where
  checkClusters : ∀ c, c :: checkPath ∈ t ↔ c ∈ cfgs
  errorClusters : ∀ c, c :: errPath ∈ t ↔ c ∈ cfgs
  checkData : ∀ (c : Str) (addrs : Addrs), cfgs[c]? = some addrs →
    ∀ n, n :: c :: checkPath ∈ t →
      ∃ addr, HasData t (n :: c :: checkPath) addr ∧ addr ∈ addrs ∧ addr ∈ answers
  checkUnique : ∀ (c : Str) (addrs : Addrs), cfgs[c]? = some addrs →
    ∀ addr ∈ addrs, addr ∈ answers → ∃! n, HasData t (n :: c :: checkPath) addr
  errorNodes : ∀ (c : Str) (addrs : Addrs), cfgs[c]? = some addrs →
    ∀ addr, addr :: c :: errPath ∈ t ↔ addr ∈ addrs ∧ addr ∉ answers

/-! ## Reading the configuration -/

/-- `configured` is what `get_config` reads. -/
theorem configOf_configured (t : Tree) : ConfigOf t (configured t) := by
  unfold configured
  cases hrun : Program.run serve (getClusterNode cfgPath true).run t with
  | mk r t' =>
    cases r with
    | ok cfgs => exact (getClusterNode_ok.mp hrun).2.2
    | error halt =>
      intro c
      have hpath : cfgPath ∉ t := fun hmem => by
        obtain ⟨cfgs, hok⟩ := getClusterNode_runs true hmem
        rw [Routine.Ok, hrun] at hok
        cases hok
      rw [clusterEntry, if_neg fun h => hpath (Tree.mem_parent h.1)]
      exact Std.ExtTreeMap.getElem?_empty

theorem ConfigOf.unique {t : Tree} {cfgs cfgs' : Clusters} (h : ConfigOf t cfgs)
    (h' : ConfigOf t cfgs') : cfgs = cfgs' :=
  Std.ExtTreeMap.ext_getElem? fun c => (h c).trans (h' c).symm

/-- A configured address is a node of the configuration, and valid. -/
theorem config_mem {t : Tree} {cfgs : Clusters} (config : ConfigOf t cfgs) {c addr : Str}
    {addrs : Addrs} (hc : cfgs[c]? = some addrs) (haddr : addr ∈ addrs) :
    addr :: c :: cfgPath ∈ t ∧ isvalidAddr addr := by
  rw [config] at hc
  obtain ⟨_, _, rfl⟩ := clusterEntry_some.mp hc
  obtain ⟨hmem, hvalid⟩ := mem_nodesOf.mp haddr
  exact ⟨hmem, hvalid rfl⟩

theorem config_name {t : Tree} {cfgs : Clusters} (config : ConfigOf t cfgs) {c addr : Str}
    {addrs : Addrs} (hc : cfgs[c]? = some addrs) (haddr : addr ∈ addrs) : ValidName addr :=
  Tree.validName_of_mem (config_mem config hc haddr).1

/-- What is read of a branch depends on its nodes only. -/
theorem clusterEntry_congr {t t' : Tree} {path : Path} {ischeck : Bool}
    (hcluster : ∀ c, c :: path ∈ t' ↔ c :: path ∈ t)
    (hnode : ∀ n c, n :: c :: path ∈ t' ↔ n :: c :: path ∈ t) (c : Str) :
    clusterEntry t' path ischeck c = clusterEntry t path ischeck c := by
  have hnodes : nodesOf t' (c :: path) ischeck = nodesOf t (c :: path) ischeck := by
    apply Std.ExtTreeSet.ext_mem
    intro n
    rw [mem_nodesOf, mem_nodesOf, hnode]
  simp only [clusterEntry, hcluster, hnodes]

theorem config_same {t t' : Tree} {cfgs : Clusters} (h : SameBelow t t')
    (config : ConfigOf t cfgs) : ConfigOf t' cfgs := by
  intro c
  rw [config c]
  refine (clusterEntry_congr (fun c => h.mem_iff ?_) (fun n c => h.mem_iff ?_) c).symm
  · exact below_cons (by simp [cfgPath]) (by simp [cfgPath, lockPath])
  · exact below_cons (by simp) (by simp [lockPath, cfgPath])

/-- Only the configuration changed. -/
structure Reconfigured (t t' : Tree) : Prop where
  get : ∀ q, ¬ cfgPath <:+ q → t'.get q = t.get q
  counter : ∀ q, ¬ cfgPath <:+ q → q ≠ [] → t'.counter q = t.counter q

/-! ## The cleaning passes -/

variable {net : Network} {start finish : Tree} {legal : Legal}

/-- What holds once the cleaning passes are done: only configured clusters and addresses
are left, and every configured address is in one of the trees. -/
structure Reconciled (cfgs : Clusters) (t : Tree) : Prop where
  checkClusters : ∀ c, c :: checkPath ∈ t ↔ c ∈ cfgs
  errorClusters : ∀ c, c :: errPath ∈ t ↔ c ∈ cfgs
  errors : ∀ (c addr : Str), addr :: c :: errPath ∈ t → ∃ addrs, cfgs[c]? = some addrs ∧ addr ∈ addrs
  checks : ∀ (c n addr : Str), HasData t (n :: c :: checkPath) addr →
    ∃ addrs, cfgs[c]? = some addrs ∧ addr ∈ addrs
  covered : ∀ (c : Str) (addrs : Addrs), cfgs[c]? = some addrs → ∀ addr ∈ addrs,
    addr :: c :: errPath ∈ t ∨
      ∃ n, cutIdx redisPrefix n ≠ -1 ∧ HasData t (n :: c :: checkPath) addr

section Cleaning
variable (run : CleanedRun start)

/-- The name that the map has for an address that is not configured is that of a node which
`get_check` left there. -/
theorem entry_survives (filed : Filed run.cfgs start) {c addr n : Str} {rdis : StrMap}
    (hrdis : run.chks[c]? = some rdis) (entry : rdis[addr]? = some n)
    (hnot : notConfigured run.cfgs[c]? addr) : Survives start (c :: checkPath) n := by
  have hcluster := run.checks.clusters c rdis hrdis
  obtain ⟨hn, hidx, hnd⟩ := hcluster.names addr n entry
  obtain ⟨m, hm, hsurvive, hmd⟩ :=
    hcluster.survivor addr (Ordered.mem_iff_getElem?.mpr ⟨n, entry⟩)
  have hleast := hcluster.least addr n m entry hm hsurvive.1 hmd
  have hfirst := filed c addr hnot m n hsurvive hidx hmd hnd
  cases hcompare : compare m n with
  | lt =>
    have hless := hleast.2 hcompare
    omega
  | eq =>
    rw [← Std.LawfulEqOrd.compare_eq_iff_eq.mp hcompare]
    exact hsurvive
  | gt =>
    have hless : compare n m = .lt := by
      rw [Std.OrientedOrd.eq_swap, hcompare]
      rfl
    exact absurd hmd (hsurvive.2 n addr hless hidx hnd)

/-- A filed name that `get_check` deleted is the name of a node that `logic_check_add` created. -/
theorem reused_name {c d k : Str} {rdis : StrMap} (hrdis : run.chks[c]? = some rdis)
    (entry : rdis[d]? = some k) (hnot : notConfigured run.cfgs[c]? d)
    (gone : ¬ Survives start (c :: checkPath) k) :
    ∃ j addrs a, k = seqName j ∧ start.counter (c :: checkPath) ≤ j ∧ run.cfgs[c]? = some addrs ∧
      a ∈ addrs ∧ isNew run.chks[c]? run.errs[c]? a ∧ HasData run.grown (k :: c :: checkPath) a := by
  have hpruned := logicCheckRm_ok run.checkRm
  have hremoved : CheckRemoved run.cfgs c rdis (k :: c :: checkPath) :=
    Or.inl ⟨d, k, entry, hnot, rfl⟩
  have hgrown := (logicErrorRm_ok run.errorRm).sub (hpruned.mem _ ⟨c, rdis, hrdis, hremoved⟩)
  obtain ⟨node, hget⟩ := Tree.mem_iff.mp hgrown
  have hadded := logicCheckAdd_ok run.add
  have hcounter := (run.checks.frame (c :: checkPath) fun _ _ _ _ heq => by simp at heq).2
  rcases (hadded.advances c).nodes k node hget with hread | ⟨j, rfl, hle, _⟩
  · exact absurd (run.checks.survives (Tree.mem_of_get hread)).2 gone
  · rcases hadded.grown.origin _ _ hget with hread | ⟨c', addrs, hc', hmade⟩
    · exact absurd (run.checks.survives (Tree.mem_of_get hread)).2 gone
    · rcases hmade with ⟨_, hq, _⟩ | ⟨_, hq, _⟩ | ⟨a, ⟨ha, hnew⟩, ⟨i, hq⟩, hnode⟩
      · simp [errPath, checkPath] at hq
      · simp at hq
      · obtain ⟨_, rfl⟩ : seqName j = seqName i ∧ c = c' := by simpa using hq
        refine ⟨j, addrs, a, rfl, hcounter ▸ hle, hc', ha, hnew, node, hget, ?_⟩
        rw [hnode, dataOf, if_neg (config_name run.config hc' ha).1]

/-- With numbers of its own no created node has a name that was filed. -/
theorem filed_of_fresh (fresh : SequenceFresh start) : Filed run.cfgs start := by
  intro c d hnot m n hsurvive hidx hmd hnd
  obtain ⟨rdis, hrdis⟩ :=
    Ordered.mem_iff_getElem?.mp ((run.checks.keys c).mpr (Tree.mem_parent hmd.mem))
  have hcluster := run.checks.clusters c rdis hrdis
  obtain ⟨k, hk⟩ := Ordered.mem_iff_getElem?.mp (hcluster.covers n d hnd.mem hidx hnd)
  obtain ⟨hmem, _, hkd⟩ := hcluster.names d k hk
  have hleast := (hcluster.least d k n hk hnd.mem hidx hnd).1
  by_cases hks : Survives start (c :: checkPath) k
  · rw [hsurvive.unique hks hmd hkd]
    exact hleast
  · obtain ⟨j, _, _, rfl, hle, _⟩ := reused_name run hrdis hk hnot hks
    have hless := fresh j c hmem
    omega

/-- What `logic_check_rm` removes from a cluster is a node that `get_check` left there, for
an address that is not configured. -/
theorem removed_read (filed : Filed run.cfgs start) {n c : Str}
    (hin : n :: c :: checkPath ∈ run.errored) (hout : n :: c :: checkPath ∉ run.cleaned) :
    ∃ addr, HasData run.read (n :: c :: checkPath) addr ∧ notConfigured run.cfgs[c]? addr := by
  have hpruned := logicCheckRm_ok run.checkRm
  have hremoved : ∃ cluster rdis, run.chks[cluster]? = some rdis ∧
      CheckRemoved run.cfgs cluster rdis (n :: c :: checkPath) := by
    by_contra hkept
    rw [Tree.mem_iff, (hpruned.kept _ hkept).1, ← Tree.mem_iff] at hout
    exact hout hin
  obtain ⟨cluster, rdis, hrdis, ⟨addr, node, hnode, hnot, hq⟩ | ⟨_, hq⟩⟩ := hremoved
  · cases hq
    obtain ⟨hvisited, _, hdata⟩ := (run.checks.clusters _ rdis hrdis).names addr _ hnode
    have hsurvive := entry_survives run filed hrdis hnode hnot
    exact ⟨addr, (HasData.congr (run.checks.mem hvisited hsurvive)).mpr hdata, hnot⟩
  · simp at hq

theorem notConfigured_iff {tmpCfg : Option Addrs} {addr : Str} :
    notConfigured tmpCfg addr ↔ ¬ ∃ addrs, tmpCfg = some addrs ∧ addr ∈ addrs := by
  cases tmpCfg <;> simp [notConfigured]

theorem checkCluster_read {c : Str} : c :: checkPath ∈ run.read ↔ c :: checkPath ∈ start :=
  run.checks.mem_outside fun _ _ heq => by simp at heq

/-- Where the nodes of a cluster in the grown tree come from. -/
theorem grown_error {c addr : Str} (h : addr :: c :: errPath ∈ run.grown) :
    addr :: c :: errPath ∈ start := by
  obtain ⟨node, hget⟩ := Tree.mem_iff.mp h
  rcases (logicCheckAdd_ok run.add).grown.origin _ _ hget with hold | ⟨_, _, _, hmade⟩
  · exact (run.checks.mem_outside fun n c heq => by simp [errPath, checkPath] at heq).mp
      (Tree.mem_of_get hold)
  · rcases hmade with ⟨_, hq, _⟩ | ⟨_, hq, _⟩ | ⟨_, _, ⟨_, hq⟩, _⟩
    · simp [errPath] at hq
    · simp [errPath, checkPath] at hq
    · simp [errPath, checkPath] at hq

theorem cluster_grown {c : Str} {tree : Path} (htree : tree = errPath ∨ tree = checkPath)
    (h : c :: tree ∈ run.grown) : c :: tree ∈ start ∨ c ∈ run.cfgs := by
  obtain ⟨node, hget⟩ := Tree.mem_iff.mp h
  rcases (logicCheckAdd_ok run.add).grown.origin _ _ hget with hold | ⟨c', addrs, hc', hmade⟩
  · left
    refine (run.checks.mem_outside fun n d heq => ?_).mp (Tree.mem_of_get hold)
    rcases htree with rfl | rfl <;> simp [errPath, checkPath] at heq
  · right
    refine Ordered.mem_iff_getElem?.mpr ⟨addrs, ?_⟩
    rcases hmade with ⟨_, hq, _⟩ | ⟨_, hq, _⟩ | ⟨_, _, ⟨_, hq⟩, _⟩
    · cases hq
      exact hc'
    · cases hq
      exact hc'
    · rcases htree with rfl | rfl <;> simp [errPath, checkPath] at hq

/-- After the cleaning passes the check branch has the configured clusters. -/
theorem reconciled_checkClusters (c : Str) : c :: checkPath ∈ run.cleaned ↔ c ∈ run.cfgs := by
  have hpruned := logicCheckRm_ok run.checkRm
  have hpruned' := logicErrorRm_ok run.errorRm
  constructor
  · intro hmem
    by_contra hout
    have hgrown := hpruned'.sub (hpruned.sub hmem)
    have hstart := (cluster_grown run (Or.inr rfl) hgrown).resolve_right hout
    obtain ⟨rdis, hrdis⟩ := Ordered.mem_iff_getElem?.mp ((run.checks.keys c).mpr hstart)
    exact hpruned.gone _ ⟨c, rdis, hrdis, Or.inr ⟨Ordered.not_mem_iff_getElem?.mp hout, rfl⟩⟩ hmem
  · intro hc
    obtain ⟨addrs, haddrs⟩ := Ordered.mem_iff_getElem?.mp hc
    have hadded := logicCheckAdd_ok run.add
    have hgrown : c :: checkPath ∈ run.grown := by
      cases hchk : run.chks[c]? with
      | none => exact (hadded.added c addrs haddrs).check hchk
      | some rdis =>
        have hstart := (run.checks.keys c).mp (Ordered.mem_iff_getElem?.mpr ⟨rdis, hchk⟩)
        exact hadded.grown.mem ((checkCluster_read run).mpr hstart)
    refine hpruned.stays (hpruned'.stays hgrown ?_) ?_
    · rintro ⟨c', nodes, _, ⟨_, _, _, hq⟩ | ⟨_, hq⟩⟩ <;> simp [errPath, checkPath] at hq
    · rintro ⟨c', rdis, _, ⟨_, _, _, _, hq⟩ | ⟨hnone, hq⟩⟩
      · simp at hq
      · cases hq
        rw [haddrs] at hnone
        cases hnone

/-- And so has the error branch. -/
theorem reconciled_errorClusters (c : Str) : c :: errPath ∈ run.cleaned ↔ c ∈ run.cfgs := by
  have hpruned := logicCheckRm_ok run.checkRm
  have hpruned' := logicErrorRm_ok run.errorRm
  constructor
  · intro hmem
    by_contra hout
    have herrored := hpruned.sub hmem
    have hstart := (cluster_grown run (Or.inl rfl) (hpruned'.sub herrored)).resolve_right hout
    refine hpruned'.gone _ ⟨c, nodesOf start (c :: errPath) false, ?_,
      Or.inr ⟨Ordered.not_mem_iff_getElem?.mp hout, rfl⟩⟩ herrored
    rw [run.errors]
    exact clusterEntry_some.mpr ⟨hstart, by simp, rfl⟩
  · intro hc
    obtain ⟨addrs, haddrs⟩ := Ordered.mem_iff_getElem?.mp hc
    have hadded := logicCheckAdd_ok run.add
    have hgrown : c :: errPath ∈ run.grown := by
      cases herr : run.errs[c]? with
      | none => exact (hadded.added c addrs haddrs).error herr
      | some nodes =>
        rw [run.errors] at herr
        have hstart := (clusterEntry_some.mp herr).1
        refine hadded.grown.mem ((run.checks.mem_outside fun n d heq => ?_).mpr hstart)
        simp [errPath, checkPath] at heq
    refine hpruned.stays (hpruned'.stays hgrown ?_) ?_
    · rintro ⟨c', nodes, _, ⟨_, _, _, hq⟩ | ⟨hnone, hq⟩⟩
      · simp at hq
      · cases hq
        rw [haddrs] at hnone
        cases hnone
    · rintro ⟨c', rdis, _, ⟨_, _, _, _, hq⟩ | ⟨_, hq⟩⟩ <;> simp [errPath, checkPath] at hq

/-- What is in error is configured. -/
theorem reconciled_errors {c addr : Str} (h : addr :: c :: errPath ∈ run.cleaned) :
    ∃ addrs, run.cfgs[c]? = some addrs ∧ addr ∈ addrs := by
  have hpruned' := logicErrorRm_ok run.errorRm
  have herrored := (logicCheckRm_ok run.checkRm).sub h
  have hstart := grown_error run (hpruned'.sub herrored)
  by_contra hout
  refine hpruned'.gone _ ⟨c, nodesOf start (c :: errPath) false, ?_, Or.inl ⟨addr, ?_, ?_, rfl⟩⟩
    herrored
  · rw [run.errors]
    exact clusterEntry_some.mpr ⟨Tree.mem_parent hstart, by simp, rfl⟩
  · exact mem_nodesOf.mpr ⟨hstart, by simp⟩
  · exact notConfigured_iff.mpr hout

/-- What is under check is configured. This is where the file of `get_check` matters. -/
theorem reconciled_checks (filed : Filed run.cfgs start) {c n addr : Str}
    (h : HasData run.cleaned (n :: c :: checkPath) addr) :
    ∃ addrs, run.cfgs[c]? = some addrs ∧ addr ∈ addrs := by
  have hpruned := logicCheckRm_ok run.checkRm
  have hpruned' := logicErrorRm_ok run.errorRm
  obtain ⟨node, hget, hdata⟩ := h
  have hgrown := hpruned'.sub_get (hpruned.sub_get hget)
  rcases (logicCheckAdd_ok run.add).grown.origin _ _ hgrown with hread | ⟨c', addrs, hc', hmade⟩
  · by_contra hout
    obtain ⟨hstart, hsurvive⟩ := run.checks.survives (Tree.mem_of_get hread)
    obtain ⟨rdis, hrdis⟩ :=
      Ordered.mem_iff_getElem?.mp ((run.checks.keys c).mpr (Tree.mem_parent hstart))
    have hcluster := run.checks.clusters c rdis hrdis
    have hnd : HasData start (n :: c :: checkPath) addr := ⟨node, run.checks.sub hread, hdata⟩
    obtain ⟨m, hm⟩ := Ordered.mem_iff_getElem?.mp (hcluster.covers n addr hstart hsurvive.1 hnd)
    obtain ⟨_, _, hmd⟩ := hcluster.names addr m hm
    have hremoved : ∃ cluster rdis, run.chks[cluster]? = some rdis ∧
        CheckRemoved run.cfgs cluster rdis (m :: c :: checkPath) :=
      ⟨c, rdis, hrdis, Or.inl ⟨addr, m, hm, notConfigured_iff.mpr hout, rfl⟩⟩
    have hmsurvive := entry_survives run filed hrdis hm (notConfigured_iff.mpr hout)
    obtain rfl := hsurvive.unique hmsurvive hnd hmd
    exact hpruned.gone _ hremoved (Tree.mem_of_get hget)
  · rcases hmade with ⟨_, hq, _⟩ | ⟨_, hq, _⟩ | ⟨a, ⟨ha, _⟩, ⟨k, hq⟩, hnode⟩
    · simp [errPath, checkPath] at hq
    · simp at hq
    · cases hq
      subst hnode
      refine ⟨addrs, hc', ?_⟩
      dsimp only [dataOf] at hdata
      split at hdata
      · cases hdata
      · cases hdata
        exact ha

/-- A check node of a configured address outlives the cleaning passes. -/
theorem configured_stays (filed : Filed run.cfgs start) {c n addr : Str} {addrs : Addrs}
    (hc : run.cfgs[c]? = some addrs) (haddr : addr ∈ addrs)
    (h : HasData run.grown (n :: c :: checkPath) addr) :
    HasData run.cleaned (n :: c :: checkPath) addr := by
  have hpruned := logicCheckRm_ok run.checkRm
  have hpruned' := logicErrorRm_ok run.errorRm
  have herrored : HasData run.errored (n :: c :: checkPath) addr := by
    refine (Edited.of_pruned hpruned').hasData h ?_
    rintro ⟨c', nodes, _, ⟨_, _, _, hq⟩ | ⟨_, hq⟩⟩ <;> simp [errPath, checkPath] at hq
  refine (Edited.of_pruned hpruned).hasData herrored fun hremoved => ?_
  obtain ⟨a, hread, hnot⟩ := removed_read run filed herrored.mem (hpruned.gone _ hremoved)
  have hgrown := (logicCheckAdd_ok run.add).grown.hasData hread
  obtain rfl := hgrown.unique h
  exact notConfigured_iff.mp hnot ⟨addrs, hc, haddr⟩

theorem grown_has_idx {c n : Str} (h : n :: c :: checkPath ∈ run.grown) :
    cutIdx redisPrefix n ≠ -1 := by
  obtain ⟨node, hget⟩ := Tree.mem_iff.mp h
  rcases ((logicCheckAdd_ok run.add).advances c).nodes n node hget with hread | ⟨k, rfl, _, _, hk⟩
  · exact (run.checks.survives (Tree.mem_of_get hread)).2.1
  · exact seqName_has_idx hk

/-- A configured address that is under check stays there. -/
theorem check_stays (filed : Filed run.cfgs start) {c n addr : Str} {addrs : Addrs}
    (hc : run.cfgs[c]? = some addrs) (haddr : addr ∈ addrs) (hidx : cutIdx redisPrefix n ≠ -1)
    (h : HasData start (n :: c :: checkPath) addr) :
    ∃ n, cutIdx redisPrefix n ≠ -1 ∧ HasData run.cleaned (n :: c :: checkPath) addr := by
  obtain ⟨rdis, hrdis⟩ :=
    Ordered.mem_iff_getElem?.mp ((run.checks.keys c).mpr (Tree.mem_parent h.mem))
  have hcluster := run.checks.clusters c rdis hrdis
  obtain ⟨m, hm, hsurvive, hdata⟩ :=
    hcluster.survivor addr (hcluster.covers n addr h.mem hidx h)
  have hread : HasData run.read (m :: c :: checkPath) addr :=
    (HasData.congr (run.checks.mem hm hsurvive)).mpr hdata
  have hgrown := (logicCheckAdd_ok run.add).grown.hasData hread
  exact ⟨m, hsurvive.1, configured_stays run filed hc haddr hgrown⟩

/-- A configured address that is in error stays there. -/
theorem error_stays {c addr : Str} {addrs : Addrs} (hc : run.cfgs[c]? = some addrs)
    (haddr : addr ∈ addrs) (h : addr :: c :: errPath ∈ start) :
    addr :: c :: errPath ∈ run.cleaned := by
  have hread : addr :: c :: errPath ∈ run.read :=
    (run.checks.mem_outside fun n d heq => by simp [errPath, checkPath] at heq).mpr h
  have hgrown := (logicCheckAdd_ok run.add).grown.mem hread
  refine (logicCheckRm_ok run.checkRm).stays ((logicErrorRm_ok run.errorRm).stays hgrown ?_) ?_
  · rintro ⟨c', nodes, _, ⟨a, _, hnot, hq⟩ | ⟨_, hq⟩⟩
    · cases hq
      exact notConfigured_iff.mp hnot ⟨addrs, hc, haddr⟩
    · simp [errPath] at hq
  · rintro ⟨c', rdis, _, ⟨_, _, _, _, hq⟩ | ⟨_, hq⟩⟩ <;> simp [errPath, checkPath] at hq

/-- Every configured address is in one of the branches, with a number if it is under check. -/
theorem reconciled_covered (filed : Filed run.cfgs start) {c addr : Str} {addrs : Addrs}
    (hc : run.cfgs[c]? = some addrs) (haddr : addr ∈ addrs) :
    addr :: c :: errPath ∈ run.cleaned ∨
      ∃ n, cutIdx redisPrefix n ≠ -1 ∧ HasData run.cleaned (n :: c :: checkPath) addr := by
  by_cases hnew : isNew run.chks[c]? run.errs[c]? addr
  · obtain ⟨k, _, hk⟩ := ((logicCheckAdd_ok run.add).added c addrs hc).added addr haddr hnew
      (config_name run.config hc haddr).1
    exact Or.inr ⟨_, grown_has_idx run hk.mem, configured_stays run filed hc haddr hk⟩
  · rw [isNew, Bool.and_eq_true, not_and_or] at hnew
    rcases hnew with hchk | herr
    · right
      cases hrdis : run.chks[c]? with
      | none => simp [hrdis] at hchk
      | some rdis =>
        have hmem : addr ∈ rdis := by simpa [hrdis] using hchk
        obtain ⟨n, _, hsurvive, hdata⟩ := (run.checks.clusters c rdis hrdis).survivor addr hmem
        exact check_stays run filed hc haddr hsurvive.1 hdata
    · left
      cases hnodes : run.errs[c]? with
      | none => simp [hnodes] at herr
      | some nodes =>
        have hmem : addr ∈ nodes := by simpa [hnodes] using herr
        rw [run.errors] at hnodes
        obtain ⟨_, _, rfl⟩ := clusterEntry_some.mp hnodes
        exact error_stays run hc haddr (mem_nodesOf.mp hmem).1

theorem reconciled (filed : Filed run.cfgs start) : Reconciled run.cfgs run.cleaned where
  checkClusters := reconciled_checkClusters run
  errorClusters := reconciled_errorClusters run
  errors _ _ h := reconciled_errors run h
  checks _ _ _ h := reconciled_checks run filed h
  covered _ _ hc _ haddr := reconciled_covered run filed hc haddr

end Cleaning

/-! ## Repair and failure -/

/-- After `check_error` no address that answers is in error. -/
theorem Reconciled.repair {t t' : Tree} {cfgs : Clusters} {answers : StrMap}
    (h : Reconciled cfgs t) (names : ∀ (c : Str) (addrs : Addrs), cfgs[c]? = some addrs →
      ∀ addr ∈ addrs, ValidName addr)
    (hrun : ErrorsRepaired (Repaired t answers) t t') :
    Reconciled cfgs t' ∧ ∀ c addr, addr :: c :: errPath ∈ t' → addr ∉ answers := by
  have old_error : ∀ (c addr : Str), addr :: c :: errPath ∈ t' →
      addr :: c :: errPath ∈ t ∧ addr ∉ answers := by
    intro c addr hmem
    obtain ⟨node, hget⟩ := Tree.mem_iff.mp hmem
    rcases hrun.edited.origin _ _ hget with ⟨hold, hkept⟩ | ⟨_, _, _, ⟨_, hq⟩, _⟩
    · refine ⟨Tree.mem_of_get hold, fun hans => hkept ?_⟩
      exact ⟨c, addr, ⟨Tree.mem_of_get hold, hans⟩, rfl⟩
    · simp [errPath, checkPath] at hq
  have old_cluster : ∀ (c : Str) (tree : Path), tree = errPath ∨ tree = checkPath →
      (c :: tree ∈ t' ↔ c :: tree ∈ t) := by
    intro c tree htree
    constructor
    · intro hmem
      obtain ⟨node, hget⟩ := Tree.mem_iff.mp hmem
      rcases hrun.edited.origin _ _ hget with ⟨hold, _⟩ | ⟨_, _, _, ⟨_, hq⟩, _⟩
      · exact Tree.mem_of_get hold
      · rcases htree with rfl | rfl <;> simp [errPath, checkPath] at hq
    · intro hmem
      refine hrun.edited.mem hmem ?_
      rcases htree with rfl | rfl <;> simp [errPath, checkPath]
  refine ⟨⟨?_, ?_, ?_, ?_, ?_⟩, fun c addr hmem => (old_error c addr hmem).2⟩
  · exact fun c => (old_cluster c _ (Or.inr rfl)).trans (h.checkClusters c)
  · exact fun c => (old_cluster c _ (Or.inl rfl)).trans (h.errorClusters c)
  · exact fun c addr hmem => h.errors c addr (old_error c addr hmem).1
  · rintro c n addr ⟨node, hget, hdata⟩
    rcases hrun.edited.origin _ _ hget with ⟨hold, _⟩ | ⟨c', a, hrepaired, ⟨_, hq⟩, hnode⟩
    · exact h.checks c n addr ⟨node, hold, hdata⟩
    · cases hq
      subst hnode
      dsimp only [dataOf] at hdata
      split at hdata
      · cases hdata
      · cases hdata
        exact h.errors _ _ hrepaired.1
  · intro c addrs hc addr haddr
    rcases h.covered c addrs hc addr haddr with herr | ⟨n, hidx, hn⟩
    · by_cases hans : addr ∈ answers
      · obtain ⟨k, hlt, hk⟩ := hrun.added c addr ⟨herr, hans⟩ (names c addrs hc addr haddr).1
        exact Or.inr ⟨_, seqName_has_idx hlt, hk⟩
      · refine Or.inl (hrun.edited.mem herr ?_)
        rintro ⟨c', a, hrepaired, hq⟩
        cases hq
        exact hans hrepaired.2
    · refine Or.inr ⟨n, hidx, hrun.edited.hasData hn ?_⟩
      simp [errPath, checkPath]

section Failing
variable {t s t' : Tree} {cfgs : Clusters} {answers : StrMap} {chks : Checks} {c n addr : Str}

/-- A check node that is left after `check_check` was there, and was not to be moved. -/
theorem check_origin (hset : ErrorsSet (Failed chks answers) s t') {node : Znode}
    (hget : t'.get (n :: c :: checkPath) = some node) :
    s.get (n :: c :: checkPath) = some node ∧ ∀ a, ¬ Failed chks answers (c, a, n) := by
  rcases hset.edited.origin _ _ hget with ⟨hold, hkept⟩ | ⟨_, _, _, _, hq, _⟩
  · exact ⟨hold, fun a hfailed => hkept ⟨c, a, n, hfailed, rfl⟩⟩
  · simp [errPath, checkPath] at hq

theorem clusters_stay (hread : CheckRead t checkPath (fun c => c :: checkPath ∈ t) chks s)
    (hset : ErrorsSet (Failed chks answers) s t') {tree : Path}
    (htree : tree = errPath ∨ tree = checkPath) : c :: tree ∈ t' ↔ c :: tree ∈ t := by
  have hplain : ∀ n d, c :: tree ≠ n :: d :: checkPath := by
    intro n d heq
    rcases htree with rfl | rfl <;> simp [errPath, checkPath] at heq
  rw [← hread.mem_outside hplain]
  constructor
  · intro hmem
    obtain ⟨node, hget⟩ := Tree.mem_iff.mp hmem
    rcases hset.edited.origin _ _ hget with ⟨hold, _⟩ | ⟨_, _, _, _, hq, _⟩
    · exact Tree.mem_of_get hold
    · rcases htree with rfl | rfl <;> simp [errPath, checkPath] at hq
  · intro hmem
    refine hset.edited.mem hmem ?_
    rintro ⟨d, a, n, _, hq⟩
    exact hplain n d hq

/-- An address left under check answers: otherwise its only node was moved. -/
theorem left_answers (hread : CheckRead t checkPath (fun c => c :: checkPath ∈ t) chks s)
    (hset : ErrorsSet (Failed chks answers) s t') (hmem : n :: c :: checkPath ∈ t') :
    Survives t (c :: checkPath) n ∧ ∃ addr, HasData t (n :: c :: checkPath) addr ∧
      HasData t' (n :: c :: checkPath) addr ∧ addr ∈ answers := by
  obtain ⟨node, hget⟩ := Tree.mem_iff.mp hmem
  obtain ⟨hold, hkept⟩ := check_origin hset hget
  obtain ⟨hstart, hsurvive⟩ := hread.survives (Tree.mem_of_get hold)
  obtain ⟨rdis, hrdis⟩ := Ordered.mem_iff_getElem?.mp ((hread.keys c).mpr (Tree.mem_parent hstart))
  have hcluster := hread.clusters c rdis hrdis
  obtain ⟨addr, hdata⟩ := hcluster.data n hstart
  have hdata' : HasData t' (n :: c :: checkPath) addr := by
    obtain ⟨z, hz, hd⟩ := hdata
    rw [hread.sub hold] at hz
    cases hz
    exact ⟨node, hget, hd⟩
  refine ⟨hsurvive, addr, hdata, hdata', ?_⟩
  by_contra hsick
  obtain ⟨m, hm⟩ := Ordered.mem_iff_getElem?.mp (hcluster.covers n addr hstart hsurvive.1 hdata)
  have hfailed : Failed chks answers (c, addr, m) := ⟨⟨rdis, hrdis, hm⟩, hsick⟩
  have hmsurvive := (hread.survives (hset.present c addr m hfailed)).2
  obtain rfl := hsurvive.unique hmsurvive hdata (hcluster.names addr m hm).2.2
  exact hkept addr hfailed

/-- After `check_check` no address has two check nodes. -/
theorem left_unique (hread : CheckRead t checkPath (fun c => c :: checkPath ∈ t) chks s)
    (hset : ErrorsSet (Failed chks answers) s t') {m : Str}
    (hn : HasData t' (n :: c :: checkPath) addr) (hm : HasData t' (m :: c :: checkPath) addr) :
    n = m := by
  obtain ⟨hnsurvive, a, hna, hna', _⟩ := left_answers hread hset hn.mem
  obtain ⟨hmsurvive, b, hmb, hmb', _⟩ := left_answers hread hset hm.mem
  obtain rfl := hna'.unique hn
  obtain rfl := hmb'.unique hm
  exact hnsurvive.unique hmsurvive hna hmb

/-- The map of `get_check` has a node of every address that has one with a number. -/
theorem read_entry (hread : CheckRead t checkPath (fun c => c :: checkPath ∈ t) chks s)
    (hidx : cutIdx redisPrefix n ≠ -1) (hn : HasData t (n :: c :: checkPath) addr) :
    ∃ rdis, chks[c]? = some rdis ∧ addr ∈ rdis := by
  obtain ⟨rdis, hrdis⟩ := Ordered.mem_iff_getElem?.mp ((hread.keys c).mpr (Tree.mem_parent hn.mem))
  exact ⟨rdis, hrdis, (hread.clusters c rdis hrdis).covers n addr hn.mem hidx hn⟩

/-- The node that `get_check` leaves of an address that answers is not moved. -/
theorem answering_left (hread : CheckRead t checkPath (fun c => c :: checkPath ∈ t) chks s)
    (hset : ErrorsSet (Failed chks answers) s t') (hidx : cutIdx redisPrefix n ≠ -1)
    (hn : HasData t (n :: c :: checkPath) addr) (hans : addr ∈ answers) :
    ∃ m, HasData t' (m :: c :: checkPath) addr := by
  obtain ⟨rdis, hrdis, haddr⟩ := read_entry hread hidx hn
  obtain ⟨m, hm, hsurvive, hmd⟩ := (hread.clusters c rdis hrdis).survivor addr haddr
  have hms : HasData s (m :: c :: checkPath) addr :=
    (HasData.congr (hread.mem hm hsurvive)).mpr hmd
  refine ⟨m, hset.edited.hasData hms ?_⟩
  rintro ⟨d, a, k, ⟨⟨rdis', hrdis', ha⟩, hsick⟩, hq⟩
  cases hq
  obtain rfl := ((hread.clusters c rdis' hrdis').names a m ha).2.2.unique hmd
  exact hsick hans

/-- An error node was one before, or holds a checked address that does not answer. -/
theorem error_origin (hread : CheckRead t checkPath (fun c => c :: checkPath ∈ t) chks s)
    (hset : ErrorsSet (Failed chks answers) s t') (hmem : addr :: c :: errPath ∈ t') :
    addr :: c :: errPath ∈ t ∨ addr ∉ answers ∧ ∃ n, HasData t (n :: c :: checkPath) addr := by
  obtain ⟨node, hget⟩ := Tree.mem_iff.mp hmem
  rcases hset.edited.origin _ _ hget with ⟨hold, _⟩ | ⟨d, a, n, hfailed, hq, _⟩
  · left
    refine (hread.mem_outside fun n d heq => ?_).mp (Tree.mem_of_get hold)
    simp [errPath, checkPath] at heq
  · cases hq
    obtain ⟨⟨rdis, hrdis, ha⟩, hsick⟩ := hfailed
    exact Or.inr ⟨hsick, n, ((hread.clusters c rdis hrdis).names addr n ha).2.2⟩

/-- `check_check` takes nothing out of error. -/
theorem error_kept (hread : CheckRead t checkPath (fun c => c :: checkPath ∈ t) chks s)
    (hset : ErrorsSet (Failed chks answers) s t') (hmem : addr :: c :: errPath ∈ t) :
    addr :: c :: errPath ∈ t' := by
  have hread' := (hread.mem_outside fun n d heq => by simp [errPath, checkPath] at heq).mpr hmem
  exact hset.edited.mem hread' (by simp [errPath, checkPath])

/-- After `check_check` the two trees are the partition, and every check node has a number. -/
theorem Reconciled.fail (h : Reconciled cfgs t)
    (repaired : ∀ c addr, addr :: c :: errPath ∈ t → addr ∉ answers)
    (hread : CheckRead t checkPath (fun c => c :: checkPath ∈ t) chks s)
    (hset : ErrorsSet (Failed chks answers) s t') :
    Partition cfgs answers t' ∧
      ∀ n c, n :: c :: checkPath ∈ t' → Survives t' (c :: checkPath) n := by
  refine ⟨⟨?_, ?_, ?_, ?_, ?_⟩, ?_⟩
  · exact fun c => (clusters_stay hread hset (Or.inr rfl)).trans (h.checkClusters c)
  · exact fun c => (clusters_stay hread hset (Or.inl rfl)).trans (h.errorClusters c)
  · intro c addrs hc n hmem
    obtain ⟨_, addr, hdata, hdata', hans⟩ := left_answers hread hset hmem
    obtain ⟨addrs', hc', haddr⟩ := h.checks c n addr hdata
    rw [hc] at hc'
    cases hc'
    exact ⟨addr, hdata', haddr, hans⟩
  · intro c addrs hc addr haddr hans
    rcases h.covered c addrs hc addr haddr with herr | ⟨n, hidx, hn⟩
    · exact absurd hans (repaired c addr herr)
    · obtain ⟨m, hm⟩ := answering_left hread hset hidx hn hans
      exact ⟨m, hm, fun n' hn' => left_unique hread hset hn' hm⟩
  · intro c addrs hc addr
    constructor
    · intro hmem
      rcases error_origin hread hset hmem with herr | ⟨hsick, n, hn⟩
      · obtain ⟨addrs', hc', haddr⟩ := h.errors c addr herr
        rw [hc] at hc'
        cases hc'
        exact ⟨haddr, repaired c addr herr⟩
      · obtain ⟨addrs', hc', haddr⟩ := h.checks c n addr hn
        rw [hc] at hc'
        cases hc'
        exact ⟨haddr, hsick⟩
    · rintro ⟨haddr, hsick⟩
      rcases h.covered c addrs hc addr haddr with herr | ⟨n, hidx, hn⟩
      · exact error_kept hread hset herr
      · obtain ⟨rdis, hrdis, hentry⟩ := read_entry hread hidx hn
        obtain ⟨m, hm⟩ := Ordered.mem_iff_getElem?.mp hentry
        exact hset.added c addr m ⟨⟨rdis, hrdis, hm⟩, hsick⟩
  · intro n c hmem
    obtain ⟨hsurvive, addr, _, hdata, _⟩ := left_answers hread hset hmem
    refine ⟨hsurvive.1, fun m d hless _ hm hn => ?_⟩
    obtain rfl := left_unique hread hset hm hn
    rw [Std.ReflOrd.compare_self] at hless
    cases hless

end Failing

/-! ## The whole check -/

/-- Only the two branches matter. -/
theorem Partition.congr {cfgs : Clusters} {answers : StrMap} {t t' : Tree}
    (h : Partition cfgs answers t)
    (hget : ∀ (q : Path) (c : Str), (q = c :: checkPath ∨ q = c :: errPath ∨
      (∃ n, q = n :: c :: checkPath) ∨ ∃ n, q = n :: c :: errPath) → t'.get q = t.get q) :
    Partition cfgs answers t' := by
  have hmem : ∀ (q : Path) (c : Str), (q = c :: checkPath ∨ q = c :: errPath ∨
      (∃ n, q = n :: c :: checkPath) ∨ ∃ n, q = n :: c :: errPath) → (q ∈ t' ↔ q ∈ t) := by
    intro q c hq
    rw [Tree.mem_iff, Tree.mem_iff, hget q c hq]
  have hdata : ∀ (n c addr : Str), HasData t' (n :: c :: checkPath) addr ↔
      HasData t (n :: c :: checkPath) addr := fun n c addr =>
    HasData.congr (hget _ c (Or.inr (Or.inr (Or.inl ⟨n, rfl⟩))))
  refine ⟨fun c => ?_, fun c => ?_, ?_, ?_, ?_⟩
  · rw [hmem _ c (Or.inl rfl), h.checkClusters]
  · rw [hmem _ c (Or.inr (Or.inl rfl)), h.errorClusters]
  · intro c addrs hc n hn
    rw [hmem _ c (Or.inr (Or.inr (Or.inl ⟨n, rfl⟩)))] at hn
    simpa only [hdata] using h.checkData c addrs hc n hn
  · intro c addrs hc addr haddr hans
    simpa only [hdata] using h.checkUnique c addrs hc addr haddr hans
  · intro c addrs hc addr
    rw [hmem _ c (Or.inr (Or.inr (Or.inr ⟨addr, rfl⟩)))]
    exact h.errorNodes c addrs hc addr

section Locked
variable (run : LockedRun net start legal finish) (filed : Filed run.cfgs start)
include filed

theorem repaired_reconciled : Reconciled run.cfgs run.repaired ∧
    ∀ c addr, addr :: c :: errPath ∈ run.repaired → addr ∉ answers net run.cfgs :=
  (reconciled run.toCleanedRun filed).repair (fun _ _ hc _ haddr => config_name run.config hc haddr)
    (checkError_ok run.repair)

theorem failed_from : ∃ chks s,
    CheckRead run.repaired checkPath (fun c => c :: checkPath ∈ run.repaired) chks s ∧
      ErrorsSet (Failed chks (answers net run.cfgs)) s run.failed := by
  refine checkCheck_ok run.fail fun c n d hd => ?_
  obtain ⟨addrs, hc, haddr⟩ := (repaired_reconciled run filed).1.checks c n d hd
  exact (config_name run.config hc haddr).2

/-- The tree that `gen_legal_redis` starts from is partitioned, and nothing in it is deleted. -/
theorem failed_partition : Partition run.cfgs (answers net run.cfgs) run.failed ∧
    ∀ n c, n :: c :: checkPath ∈ run.failed → Survives run.failed (c :: checkPath) n := by
  obtain ⟨hrepaired, hquiet⟩ := repaired_reconciled run filed
  obtain ⟨chks, s, hread, hset⟩ := failed_from run filed
  exact hrepaired.fail hquiet hread hset

/-- Publication touches only the branch of `legal_nodes`. -/
theorem finish_same {q : Path} (hq : ¬ nodePath <:+ q) : finish.get q = run.failed.get q := by
  obtain ⟨_, _, s, hread, _, _, hpublished⟩ := (genLegalRedis_ok run.publish).steps
  rw [(hpublished.same q hq).1, hread.unchanged (failed_partition run filed).2 q]

theorem finish_check {n c : Str} :
    finish.get (n :: c :: checkPath) = run.failed.get (n :: c :: checkPath) :=
  finish_same run filed (not_in_branch (by simp [checkPath]))

omit filed in
theorem finish_counter (c : Str) :
    finish.counter (c :: checkPath) = run.failed.counter (c :: checkPath) := by
  obtain ⟨_, _, s, hread, _, _, hpublished⟩ := (genLegalRedis_ok run.publish).steps
  rw [(hpublished.same _ (not_in_branch (by simp [checkPath]))).2]
  exact (hread.frame _ fun _ _ _ _ heq => by simp at heq).2

/-- The trees after `check_check`, and after publication, are partitioned. -/
theorem locked_partition : Partition run.cfgs (answers net run.cfgs) finish := by
  refine (failed_partition run filed).1.congr fun q c hq => finish_same run filed ?_
  rcases hq with rfl | rfl | ⟨n, rfl⟩ | ⟨n, rfl⟩
  all_goals exact not_in_branch (by simp [checkPath, errPath])

/-- The list of a cluster is made from the nodes that the check leaves. -/
theorem listed_nodes {c : Str} (hc : c ∈ run.cfgs) :
    ∃ rds errs list, legal.clusterLegalRedis[c]? = some list ∧
      LegalList (answers net run.cfgs) errs c rds list ∧
      (∀ d n, rds[d]? = some n ↔ HasData finish (n :: c :: checkPath) d) ∧
      ∀ nodes, errs[c]? = some nodes → ∀ a, a ∈ nodes ↔ a :: c :: errPath ∈ finish := by
  obtain ⟨hpartition, hsurvive⟩ := failed_partition run filed
  obtain ⟨chks, errs, s, hread, herrs, hlisted, _⟩ := (genLegalRedis_ok run.publish).steps
  have hchks : c ∈ chks := (hread.keys c).mpr ((hpartition.checkClusters c).mpr hc)
  obtain ⟨list, hlist⟩ := Ordered.mem_iff_getElem?.mp ((hlisted.keys c).mpr hchks)
  obtain ⟨rds, hrds, hlegal⟩ := hlisted.list c list hlist
  have hcluster := hread.clusters c rds hrds
  refine ⟨rds, errs, list, hlist, hlegal, fun d n => ?_, fun nodes hnodes a => ?_⟩
  · rw [HasData.congr (finish_check run filed)]
    constructor
    · intro hget
      exact (hcluster.names d n hget).2.2
    · intro hd
      have hn := hsurvive n c hd.mem
      obtain ⟨m, hm⟩ := Ordered.mem_iff_getElem?.mp (hcluster.covers n d hd.mem hn.1 hd)
      obtain ⟨hmem, _, hmd⟩ := hcluster.names d m hm
      obtain rfl := hn.unique (hsurvive m c hmem) hd hmd
      exact hm
  · have houtside : ¬ nodePath <:+ a :: c :: errPath := not_in_branch (by simp [errPath])
    rw [herrs] at hnodes
    obtain ⟨_, _, rfl⟩ := clusterEntry_some.mp hnodes
    rw [mem_nodesOf, Tree.mem_iff, Tree.mem_iff, hread.unchanged hsurvive, finish_same run filed
      houtside]
    simp

end Locked

theorem freshBelow {t t' : Tree} (h : SameBelow t t') (fresh : SequenceFresh t) :
    SequenceFresh t' := by
  intro k c hmem
  have hcluster : Below (c :: checkPath) :=
    below_cons (by simp [checkPath]) (by simp [checkPath, lockPath])
  rw [h.counter _ hcluster]
  exact fresh k c ((h.mem_iff (below_cons (by simp) (by simp [checkPath, lockPath]))).mp hmem)

theorem filedBelow {cfgs : Clusters} {t t' : Tree} (h : SameBelow t t') (filed : Filed cfgs t) :
    Filed cfgs t' := by
  have hget : ∀ c n, t'.get (n :: c :: checkPath) = t.get (n :: c :: checkPath) := fun c n =>
    h.get _ (below_cons (by simp) (by simp [checkPath, lockPath]))
  intro c d hnot m n hsurvive hidx hmd hnd
  exact filed c d hnot m n ((Survives.congr (hget c) m).mp hsurvive) hidx
    ((HasData.congr (hget c m)).mp hmd) ((HasData.congr (hget c n)).mp hnd)

/-- A check that ends well on a tree with numbers of its own files what it leaves. -/
theorem filed_of_check {zkh : Option Nat} {net : Network} {t t' : Tree} {legal : Legal}
    (fresh : SequenceFresh t) (success : Ok serve (check zkh net) t legal t') :
    Filed (configured t) t := by
  obtain ⟨s, s', hprepared, hlocked, _⟩ := check_ok success
  obtain ⟨run⟩ := checkLocked_ok hlocked
  have hcfgs : run.cfgs = configured t :=
    ConfigOf.unique run.config (config_same hprepared.same (configOf_configured t))
  have hfiled := filed_of_fresh run.toCleanedRun (freshBelow hprepared.same fresh)
  rw [hcfgs] at hfiled
  exact filedBelow hprepared.same.symm hfiled

/-- The three groups of passes one after the other, from any tree whose check nodes were filed. -/
theorem filed_partition {zkh : Option Nat} {net : Network} {t t' : Tree} {legal : Legal}
    (filed : Filed (configured t) t) (success : Ok serve (check zkh net) t legal t') :
    Partition (configured t) (answers net (configured t)) t' := by
  obtain ⟨s, s', hprepared, hlocked, hsame⟩ := check_ok success
  obtain ⟨run⟩ := checkLocked_ok hlocked
  have hcfgs : run.cfgs = configured t :=
    ConfigOf.unique run.config (config_same hprepared.same (configOf_configured t))
  have hpartition := locked_partition run (filedBelow hprepared.same (hcfgs ▸ filed))
  rw [hcfgs] at hpartition
  refine hpartition.congr fun q c hq => hsame.get q ?_
  rcases hq with rfl | rfl | ⟨n, rfl⟩ | ⟨n, rfl⟩ <;>
    exact below_cons (by simp [checkPath, errPath]) (by simp [checkPath, errPath, lockPath])

/-- After a check that ends well the configured addresses that answer are under check, one node
each, and the others under error. The tree before is any one whose next sequence numbers are new, as
ZooKeeper's are. What a check leaves that does not end well is not said here; `check_recovers_iff`
has the next one. -/
theorem check_partition (zkh : Option Nat) (net : Network) (t t' : Tree) (legal : Legal)
    (fresh : SequenceFresh t) (success : Ok serve (check zkh net) t legal t') :
    Partition (configured t) (answers net (configured t)) t' :=
  filed_partition (filed_of_check fresh success) success

/-! One cluster with two addresses, of which the first answers. -/

def exampleTree : Tree :=
  Tree.empty.plant [(cfgPath, none), ("cluster1".toList :: cfgPath, none),
    ("1.0.0.1:80".toList :: "cluster1".toList :: cfgPath, none),
    ("1.0.0.2:80".toList :: "cluster1".toList :: cfgPath, none)]

def exampleNet : Network := fun _ cmds =>
  (cmds.filter fun ipv4 _ => ipv4 = ipv4Int64 "1.0.0.1".toList 80).map fun _ _ =>
    .mk .array 0 [] [.mk .string 0 "slaveof".toList [], .mk .string 0 [] []]

theorem freshWithoutChecks {t : Tree} (h : checkPath ∉ t) : SequenceFresh t :=
  fun _ _ hmem => absurd (Tree.mem_parent (Tree.mem_parent hmem)) h

/-- The cluster after some trouble: its first address has two check nodes, an address that was taken
out of the configuration still has one, another node has no number, and one address is in error. -/
def troubledTree : Tree :=
  Tree.empty.plant [(cfgPath, none), ("cluster1".toList :: cfgPath, none),
    ("1.0.0.1:80".toList :: "cluster1".toList :: cfgPath, none),
    ("1.0.0.2:80".toList :: "cluster1".toList :: cfgPath, none),
    ("1.0.0.3:80".toList :: "cluster1".toList :: cfgPath, none),
    (checkPath, none), ("cluster1".toList :: checkPath, none),
    (seqName 0 :: "cluster1".toList :: checkPath, some "1.0.0.1:80".toList),
    (seqName 1 :: "cluster1".toList :: checkPath, some "1.0.0.9:80".toList),
    (seqName 2 :: "cluster1".toList :: checkPath, some "1.0.0.1:80".toList),
    ("old".toList :: "cluster1".toList :: checkPath, some "1.0.0.2:80".toList),
    (errPath, none), ("cluster1".toList :: errPath, none),
    ("1.0.0.3:80".toList :: "cluster1".toList :: errPath, none)]

theorem fresh_troubledTree : SequenceFresh troubledTree := by
  have hclusters : ∀ c ∈ troubledTree.children checkPath, c = "cluster1".toList := by
    decide +kernel
  have hnodes : ∀ n ∈ troubledTree.children ("cluster1".toList :: checkPath),
      n = "old".toList ∨ ∃ j < 3, n = seqName j := by
    decide +kernel
  have hcounter : troubledTree.counter ("cluster1".toList :: checkPath) = 4 := by decide +kernel
  intro k c hmem
  obtain rfl := hclusters c (Tree.mem_children.mpr (Tree.mem_parent hmem))
  rw [hcounter]
  rcases hnodes _ (Tree.mem_children.mpr hmem) with hold | ⟨j, hj, hk⟩
  · cases hold
  · rw [seqName_injective hk]
    omega

/-- A tree with duplicate, stale and badly named check nodes, and an address in error. -/
theorem check_partition_example : ∃ legal t,
    Ok serve (check (some 1) exampleNet) troubledTree legal t ∧
      Partition (configured troubledTree) (answers exampleNet (configured troubledTree)) t := by
  have hends : endsWith serve (check (some 1) exampleNet) troubledTree (fun _ _ => true) = true := by
    decide +kernel
  obtain ⟨legal, t, hrun, _⟩ := endsWith_iff.mp hends
  exact ⟨legal, t, hrun, check_partition (some 1) exampleNet troubledTree t legal
    fresh_troubledTree hrun⟩

end RedisCluster.Guarantees
