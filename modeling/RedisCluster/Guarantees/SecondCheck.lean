import RedisCluster.Guarantees.CallKinds
import RedisCluster.Guarantees.LostAddress
import RedisCluster.Guarantees.Recovery
import RedisCluster.Guarantees.ReplicationStar

/-!
# A second check changes nothing

What a check leaves is at rest: the addresses that answer are under `check`, the others under
`error`, and the lists are published. On a tree at rest every pass of the next check finds
nothing to do, as long as the same redis answer and they obeyed their commands.
-/

set_option autoImplicit false

namespace RedisCluster.Guarantees
open Library Routine Source

variable {t t' s s' : Tree}

/-! ## Passes with nothing to do -/

/-- Nothing is added where every configured address is in one of the tables. -/
theorem logicCheckAdd_nothing {cfgs errs : Clusters} {chks : Checks}
    (h : ∀ (c : Str) (addrs : Addrs), cfgs[c]? = some addrs → ∃ rds nodes, chks[c]? = some rds ∧
      errs[c]? = some nodes ∧ ∀ a ∈ addrs, a ∈ rds ∨ a ∈ nodes) :
    logicCheckAdd cfgs errs chks = pure () := by
  refine forM_nothing fun entry hentry => ?_
  obtain ⟨rds, nodes, hrds, hnodes, hknown⟩ :=
    h entry.1 entry.2 (Std.ExtTreeMap.mem_toList_iff_getElem?_eq_some.mp hentry)
  have hloop : entry.2.toList.forM (checkAddNode (some rds) (some nodes) entry.1) = pure () := by
    refine forM_nothing fun addr haddr => ?_
    have hnew : ¬ isNew (some rds) (some nodes) addr = true := by
      simp only [isNew, Option.all_some, Bool.and_eq_true, decide_eq_true_eq]
      rintro ⟨hrds, hnodes⟩
      exact (hknown addr (Std.ExtTreeSet.mem_toList.mp haddr)).elim hrds hnodes
    exact if_neg hnew
  rw [checkAddCluster, hrds, hnodes]
  exact hloop

/-- Nothing is removed from error where every address there is configured. -/
theorem logicErrorRm_nothing {cfgs errs : Clusters}
    (h : ∀ (c : Str) (nodes : Addrs), errs[c]? = some nodes →
      ∃ addrs, cfgs[c]? = some addrs ∧ ∀ a ∈ nodes, a ∈ addrs) :
    logicErrorRm cfgs errs = pure () := by
  refine forM_nothing fun entry hentry => ?_
  obtain ⟨addrs, haddrs, hkept⟩ :=
    h entry.1 entry.2 (Std.ExtTreeMap.mem_toList_iff_getElem?_eq_some.mp hentry)
  rw [errorRmCluster, haddrs, forM_nothing, pure_bind]
  · rfl
  · intro addr haddr
    refine if_neg fun hgone => notConfigured_iff.mp hgone ⟨addrs, rfl, ?_⟩
    exact hkept addr (Std.ExtTreeSet.mem_toList.mp haddr)

/-- Nothing is removed from check where every address there is configured. -/
theorem logicCheckRm_nothing {cfgs : Clusters} {chks : Checks}
    (h : ∀ (c : Str) (rds : StrMap), chks[c]? = some rds →
      ∃ addrs, cfgs[c]? = some addrs ∧ ∀ a ∈ rds, a ∈ addrs) :
    logicCheckRm cfgs chks = pure () := by
  refine forM_nothing fun entry hentry => ?_
  obtain ⟨addrs, haddrs, hkept⟩ :=
    h entry.1 entry.2 (Std.ExtTreeMap.mem_toList_iff_getElem?_eq_some.mp hentry)
  rw [checkRmCluster, haddrs, forM_nothing, pure_bind]
  · rfl
  · intro pair hpair
    refine if_neg fun hgone => notConfigured_iff.mp hgone ⟨addrs, rfl, ?_⟩
    have hget := Std.ExtTreeMap.mem_toList_iff_getElem?_eq_some.mp hpair
    exact hkept pair.1 (Ordered.mem_iff_getElem?.mpr ⟨pair.2, hget⟩)

/-- Nothing moves to check where no address in error answers. -/
theorem checkErrors_nothing {cfgs : StrMap} {errs : Clusters}
    (h : ∀ (c : Str) (nodes : Addrs), errs[c]? = some nodes → ∀ a ∈ nodes, a ∉ cfgs) :
    (errs.toList.forM fun entry => entry.2.toList.forM (checkErrorNode cfgs entry.1)) =
      pure () := by
  refine forM_nothing fun entry hentry => forM_nothing fun addr haddr => if_neg ?_
  exact h entry.1 entry.2 (Std.ExtTreeMap.mem_toList_iff_getElem?_eq_some.mp hentry) addr
    (Std.ExtTreeSet.mem_toList.mp haddr)

/-- Nothing moves to error where every address under check answers. -/
theorem checkChecks_nothing {cfgs : StrMap} {chks : Checks}
    (h : ∀ (c : Str) (rds : StrMap), chks[c]? = some rds → ∀ a ∈ rds, a ∈ cfgs) :
    (chks.toList.forM fun entry => entry.2.toList.forM (checkCheckNode cfgs entry.1)) =
      pure () := by
  refine forM_nothing fun entry hentry => forM_nothing fun pair hpair => if_pos ?_
  have hget := Std.ExtTreeMap.mem_toList_iff_getElem?_eq_some.mp hpair
  exact h entry.1 entry.2 (Std.ExtTreeMap.mem_toList_iff_getElem?_eq_some.mp hentry) pair.1
    (Ordered.mem_iff_getElem?.mpr ⟨pair.2, hget⟩)

/-! ## Reading without deleting -/

/-- The nodes of a cluster are read without a call that changes anything, if each survives. -/
theorem getCheckNodes_within {c : Str} {nodes : Addrs}
    (hnodes : ∀ n, n ∈ nodes ↔ n :: c :: checkPath ∈ t)
    (kept : ∀ n, n :: c :: checkPath ∈ t →
      Survives t (c :: checkPath) n ∧ ∃ d, HasData t (n :: c :: checkPath) d) :
    ∃ rdis, Within ZkCall.serve IsRead (nodes.toList.foldlM (getCheckNode checkPath c) ∅) t rdis t := by
  have htotal : ∃ rdis s', Within ZkCall.serve IsRead
      (nodes.toList.foldlM (getCheckNode checkPath c) ∅) t rdis s' ∧
        s' = t ∧ NodesRead t (c :: checkPath) (· ∈ nodes.toList) rdis t := by
    refine within_foldlM_total (fun visited rdis s =>
      s = t ∧ NodesRead t (c :: checkPath) (· ∈ visited) rdis t)
      ⟨rfl, by simpa using NodesRead.start t (c :: checkPath)⟩ ?_
    rintro visited node rest hsplit rdis s ⟨rfl, hread⟩
    obtain ⟨hmem, sorted, closed⟩ := Ordered.visiting_set hsplit
    obtain ⟨hsurvives, d, hd⟩ := kept node ((hnodes node).mp hmem)
    have hclosed : ∀ m d, compare m node = .lt → HasData s (m :: c :: checkPath) d → m ∈ visited :=
      fun m d hless hm => closed m ((hnodes m).mpr hm.mem) hless
    have hfresh := (hread.survives_iff sorted hclosed hd).mp hsurvives
    have hstep := hread.step sorted hclosed hd (by rw [if_pos hfresh])
    have hdata : Within ZkCall.serve IsRead
        (orReturn (getData (node :: c :: checkPath)) 2 : Ctl Str) s d s :=
      (only_orReturn reading_getData).within (orReturn_ok.mpr (getData_ok.mpr ⟨rfl, hd⟩))
    refine ⟨noteCheck rdis node d, s, hdata.bind ?_, rfl, by simpa using hstep⟩
    rw [noteCheck, if_neg hfresh.1, if_neg hfresh.1, Ordered.not_mem_iff_getElem?.mp hfresh.2]
    exact Within.pure
  obtain ⟨rdis, _, hrun, rfl, _⟩ := htotal
  exact ⟨rdis, hrun⟩

/-- `get_check` only reads where every check node survives. -/
theorem getCheck_within (hpath : checkPath ∈ t)
    (kept : ∀ n c, n :: c :: checkPath ∈ t →
      Survives t (c :: checkPath) n ∧ ∃ d, HasData t (n :: c :: checkPath) d) :
    ∃ chks, Within ZkCall.serve IsRead (getCheck checkPath) t chks t := by
  obtain ⟨cls, hcls⟩ := getClusterNode_runs false hpath
  obtain ⟨_, _, hentries⟩ := getClusterNode_ok.mp hcls
  have htotal : ∃ chks s', Within ZkCall.serve IsRead
      (cls.toList.foldlM (getCheckCluster checkPath) ∅) t chks s' ∧ s' = t := by
    refine within_foldlM_total (fun _ _ s => s = t) rfl ?_
    rintro visited ⟨c, nodes⟩ rest hsplit chks s rfl
    obtain ⟨hget, _⟩ := Ordered.visiting hsplit
    rw [hentries] at hget
    obtain ⟨_, _, rfl⟩ := clusterEntry_some.mp hget
    obtain ⟨rdis, hrdis⟩ := getCheckNodes_within
      (fun n => by simp [mem_nodesOf] : ∀ n, n ∈ nodesOf s (c :: checkPath) false ↔ n :: c :: checkPath ∈ s)
      fun n hn => kept n c hn
    exact ⟨chks.insert c rdis, s, hrdis.bind Within.pure, rfl⟩
  obtain ⟨chks, _, hrun, rfl⟩ := htotal
  exact ⟨chks, ((only_orReturn reading_getClusterNode).within (orReturn_ok.mpr hcls)).bind hrun⟩

/-! ## What a check leaves -/

/-- The map names the check node of every address of every cluster. -/
structure NamesChecks (cfgs : Clusters) (t : Tree) (chks : Checks) : Prop where
  keys : ∀ c, c ∈ chks ↔ c ∈ cfgs
  nodes : ∀ (c : Str) (rds : StrMap), chks[c]? = some rds →
    ∀ d n, rds[d]? = some n ↔ HasData t (n :: c :: checkPath) d

/-- The table of a tree at rest is determined by the tree. -/
theorem NamesChecks.unique {cfgs : Clusters} {chks chks' : Checks} (h : NamesChecks cfgs t chks)
    (h' : NamesChecks cfgs t chks') : chks = chks' := by
  have hsub : ∀ {chks chks' : Checks}, NamesChecks cfgs t chks → NamesChecks cfgs t chks' →
      ∀ (c : Str) (rds : StrMap), chks[c]? = some rds → chks'[c]? = some rds := by
    intro chks chks' h h' c rds hrds
    have hc : c ∈ chks' := (h'.keys c).mpr ((h.keys c).mp (Ordered.mem_iff_getElem?.mpr ⟨rds, hrds⟩))
    obtain ⟨rds', hrds'⟩ := Ordered.mem_iff_getElem?.mp hc
    have heq : rds' = rds := by
      refine Std.ExtTreeMap.ext_getElem? fun d => Option.ext fun n => ?_
      rw [h'.nodes c rds' hrds', h.nodes c rds hrds]
    rw [hrds', heq]
  refine Std.ExtTreeMap.ext_getElem? fun c => Option.ext fun rds => ?_
  exact ⟨hsub h h' c rds, hsub h' h c rds⟩

/-- The tree is the one that a check with these answers leaves. -/
structure AtRest (cfgs : Clusters) (answers : StrMap) (legal : Legal) (t : Tree) : Prop where
  config : ConfigOf t cfgs
  single : SingleHome cfgs
  base : ∀ q ∈ basePaths, q ∈ t
  partition : Partition cfgs answers t
  survive : ∀ n c, n :: c :: checkPath ∈ t → Survives t (c :: checkPath) n
  computed : ∃ chks errs, NamesChecks cfgs t chks ∧
    (∀ c, errs[c]? = clusterEntry t errPath false c) ∧
    chks.toList.foldlM (genCluster answers errs) ⟨∅, ∅⟩ = .ok legal
  numbered : Numbered legal.clusterLegalRedis
  published : ∀ node, node :: nodePath ∈ t ↔ node ∈ legalSet legal.clusterLegalRedis

theorem not_inner_short {q : Path} (h : q.length ≤ 1) : ¬ Inner q :=
  fun hinner => absurd hinner.getLast.1 (by omega)

theorem not_inner_config (names : Path) : ¬ Inner (names ++ cfgPath) := by
  intro h
  have hlast : (names ++ cfgPath).getLast? = some "config".toList := List.getLast?_append
  have hinner := h.getLast.2
  rw [hlast] at hinner
  revert hinner
  decide

/-- What the last pass reads names every check node, as no address is left twice. -/
theorem namesChecks_of_read {cfgs : Clusters} {answers : StrMap} {chks : Checks}
    (partition : Partition cfgs answers t)
    (survive : ∀ n c, n :: c :: checkPath ∈ t → Survives t (c :: checkPath) n)
    (read : Ok ZkCall.serve (getCheck checkPath) t chks s) : NamesChecks cfgs t chks := by
  have hread := (getCheck_ok read).2
  refine ⟨fun c => (hread.keys c).trans (partition.checkClusters c), fun c rds hrds d n => ?_⟩
  have hcluster := hread.clusters c rds hrds
  constructor
  · exact fun hn => (hcluster.names d n hn).2.2
  · intro hd
    have hn := survive n c hd.mem
    obtain ⟨m, hm⟩ := Ordered.mem_iff_getElem?.mp (hcluster.covers n d hd.mem hn.1 hd)
    obtain ⟨hmem, _, hmd⟩ := hcluster.names d m hm
    obtain rfl := hn.unique (survive m c hmem) hd hmd
    exact hm

/-- A check that ends well leaves a tree at rest if its check nodes were filed. -/
theorem atRest_of_locked {net : Network} {start finish : Tree} {legal : Legal}
    (success : Ok ZkCall.serve (checkLocked net) start legal finish)
    (filed : Filed (configured start) start) (base : ∀ q ∈ basePaths, q ∈ start) :
    AtRest (configured start) (answers net (configured start)) legal finish := by
  obtain ⟨run⟩ := checkLocked_ok success
  have hcfgs := ConfigOf.unique (configOf_configured start) run.config
  rw [hcfgs] at filed ⊢
  obtain ⟨hpartition, hsurvive⟩ := failed_partition run filed
  have hpublished := locked_published run filed
  obtain ⟨chks, errs, s, hread, herrs, hfold, hnumbered⟩ := genLegalRedis_steps run.publish
  have houtside := fun {q : Path} => locked_outside success (q := q)
  have hconfig : ∀ names : Path, names ++ cfgPath ∈ finish ↔ names ++ cfgPath ∈ start := by
    intro names
    rw [Tree.mem_iff, Tree.mem_iff, houtside (not_inner_config names)]
  have hcheck : ∀ c n, finish.get (n :: c :: checkPath) = run.failed.get (n :: c :: checkPath) :=
    fun c n => finish_check run filed
  refine ⟨?_, run.single, ?_, locked_partition run filed, ?_, ?_, hnumbered.numbered, ?_⟩
  · intro c
    rw [run.config c]
    exact (clusterEntry_congr (fun c => hconfig [c]) (fun n c => hconfig [n, c]) c).symm
  · intro q hq
    have hshort : q.length ≤ 1 := by
      simp only [basePaths, List.mem_cons, List.not_mem_nil, or_false] at hq
      rcases hq with rfl | rfl | rfl | rfl | rfl <;> exact le_refl _
    rw [Tree.mem_iff, houtside (not_inner_short hshort), ← Tree.mem_iff]
    exact base q hq
  · intro n c hmem
    rw [Survives.congr (hcheck c)]
    refine hsurvive n c ?_
    rwa [Tree.mem_iff, ← hcheck, ← Tree.mem_iff]
  · have hnames := namesChecks_of_read hpartition hsurvive hread
    refine ⟨chks, errs, ⟨hnames.keys, fun c rds hrds d n => ?_⟩, fun c => ?_, hfold⟩
    · rw [HasData.congr (hcheck c n)]
      exact hnames.nodes c rds hrds d n
    · have hsame : ∀ names : Path, names ++ errPath ∈ finish ↔ names ++ errPath ∈ s := by
        intro names
        have hbranch : ¬ nodePath <:+ names ++ errPath := by
          refine not_in_branch ?_
          rw [show (names ++ errPath).getLast? = some "error".toList from List.getLast?_append]
          decide
        rw [Tree.mem_iff, Tree.mem_iff, (hnumbered.same _ hbranch).1]
      rw [herrs c]
      exact (clusterEntry_congr (fun c => hsame [c]) (fun n c => hsame [n, c]) c).symm
  · intro node
    rw [hpublished.children, mem_legalSet]

section AtRest
variable {cfgs : Clusters} {before : StrMap} {legal : Legal}

/-- Only the lock may differ. -/
theorem AtRest.congr (h : AtRest cfgs before legal t)
    (hget : ∀ q, q ≠ lockNode → t'.get q = t.get q) : AtRest cfgs before legal t' := by
  have hlast : ∀ {q : Path}, q.getLast? ≠ some "lock".toList → q ≠ lockNode := by
    rintro q hq rfl
    exact hq rfl
  have hbranch : ∀ (base : Path), base.getLast? ≠ some "lock".toList → base ≠ [] →
      ∀ names, t'.get (names ++ base) = t.get (names ++ base) := by
    intro base hbase hne names
    refine hget _ (hlast ?_)
    rwa [List.getLast?_append_of_ne_nil _ hne]
  have hcheck := hbranch checkPath (by decide) (by decide)
  have hnodes : ∀ c n, t'.get (n :: c :: checkPath) = t.get (n :: c :: checkPath) :=
    fun c n => hcheck [n, c]
  have herr := hbranch errPath (by decide) (by decide)
  have hcfg := hbranch cfgPath (by decide) (by decide)
  have hnode := hbranch nodePath (by decide) (by decide)
  have hmem : ∀ {base : Path}, (∀ names, t'.get (names ++ base) = t.get (names ++ base)) →
      ∀ names, names ++ base ∈ t' ↔ names ++ base ∈ t := by
    intro base hsame names
    rw [Tree.mem_iff, Tree.mem_iff, hsame]
  refine ⟨fun c => ?_, h.single, fun q hq => ?_, ?_, fun n c hn => ?_, ?_, h.numbered, fun node => ?_⟩
  · rw [h.config c]
    exact (clusterEntry_congr (fun c => hmem hcfg [c]) (fun n c => hmem hcfg [n, c]) c).symm
  · have hshort : q ≠ lockNode := by
      rintro rfl
      revert hq
      decide
    rw [Tree.mem_iff, hget q hshort, ← Tree.mem_iff]
    exact h.base q hq
  · refine h.partition.congr fun q c hq => ?_
    rcases hq with rfl | rfl | ⟨n, rfl⟩ | ⟨n, rfl⟩
    · exact hcheck [c]
    · exact herr [c]
    · exact hcheck [n, c]
    · exact herr [n, c]
  · rw [Survives.congr (hnodes c)]
    exact h.survive n c ((hmem hcheck [n, c]).mp hn)
  · obtain ⟨chks, errs, hnames, herrs, hfold⟩ := h.computed
    refine ⟨chks, errs, ⟨hnames.keys, fun c rds hrds d n => ?_⟩, fun c => ?_, hfold⟩
    · rw [HasData.congr (hnodes c n)]
      exact hnames.nodes c rds hrds d n
    · rw [herrs c]
      exact (clusterEntry_congr (fun c => hmem herr [c]) (fun n c => hmem herr [n, c]) c).symm
  · rw [← h.published]
    exact hmem hnode [node]

/-- A configured cluster has a node for each of its addresses that answers. -/
theorem AtRest.checked (h : AtRest cfgs before legal t) {chks : Checks}
    (names : NamesChecks cfgs t chks) {c : Str} {rds : StrMap} (hrds : chks[c]? = some rds) :
    ∃ addrs, cfgs[c]? = some addrs ∧ ∀ a, a ∈ rds ↔ a ∈ addrs ∧ a ∈ before := by
  obtain ⟨addrs, haddrs⟩ := Ordered.mem_iff_getElem?.mp
    ((names.keys c).mp (Ordered.mem_iff_getElem?.mpr ⟨rds, hrds⟩))
  refine ⟨addrs, haddrs, fun a => ?_⟩
  rw [Ordered.mem_iff_getElem?]
  constructor
  · rintro ⟨n, hn⟩
    have hd := (names.nodes c rds hrds a n).mp hn
    obtain ⟨a', hd', ha', hanswers⟩ := h.partition.checkData c addrs haddrs n hd.mem
    obtain rfl := hd.unique hd'
    exact ⟨ha', hanswers⟩
  · rintro ⟨ha, hanswers⟩
    obtain ⟨n, hn, _⟩ := h.partition.checkUnique c addrs haddrs a ha hanswers
    exact ⟨n, (names.nodes c rds hrds a n).mpr hn⟩

/-- On a tree at rest `get_error` reads the configured addresses that did not answer. -/
theorem AtRest.erred (h : AtRest cfgs before legal t) {errs : Clusters}
    (entries : ∀ c, errs[c]? = clusterEntry t errPath false c) {c : Str} :
    (∀ nodes : Addrs, errs[c]? = some nodes → ∃ addrs, cfgs[c]? = some addrs ∧
      ∀ a, a ∈ nodes ↔ a ∈ addrs ∧ a ∉ before) ∧
    ∀ addrs : Addrs, cfgs[c]? = some addrs → ∃ nodes, errs[c]? = some nodes := by
  constructor
  · intro nodes hnodes
    rw [entries] at hnodes
    obtain ⟨hc, _, rfl⟩ := clusterEntry_some.mp hnodes
    obtain ⟨addrs, haddrs⟩ := Ordered.mem_iff_getElem?.mp ((h.partition.errorClusters c).mp hc)
    refine ⟨addrs, haddrs, fun a => ?_⟩
    rw [mem_nodesOf, h.partition.errorNodes c addrs haddrs a]
    simp
  · intro addrs haddrs
    have hc := (h.partition.errorClusters c).mpr (Ordered.mem_iff_getElem?.mpr ⟨addrs, haddrs⟩)
    refine ⟨nodesOf t (c :: errPath) false, ?_⟩
    rw [entries]
    exact clusterEntry_some.mpr ⟨hc, by simp, rfl⟩

theorem AtRest.apart (h : AtRest cfgs before legal t) {chks : Checks}
    (names : NamesChecks cfgs t chks) : Apart chks := by
  intro c d rds rds' a hc hd ha ha'
  obtain ⟨addrs, haddrs, hrds⟩ := h.checked names hc
  obtain ⟨addrs', haddrs', hrds'⟩ := h.checked names hd
  exact h.single c d addrs addrs' a haddrs haddrs' ((hrds a).mp ha).1 ((hrds' a).mp ha').1

theorem NamesChecks.apart {chks : Checks} (names : NamesChecks cfgs t chks) (c : Str)
    (rds : StrMap) (h : chks[c]? = some rds) : NamesApart rds :=
  fun a b n ha hb => ((names.nodes c rds h a n).mp ha).unique ((names.nodes c rds h b n).mp hb)

/-! ## The lists again -/

theorem legalList_same {cfgs cfgs' : StrMap} {errs : Clusters} {c : Str} {rds : StrMap}
    {list list' : List Str} (h : LegalList cfgs errs c rds list)
    (h' : LegalList cfgs' errs c rds list') : list = list' := by
  cases h with
  | ranked some answers =>
    cases h' with
    | ranked some' answers' => rfl
    | standby none' known' least' => exact absurd none' some
  | standby none known least =>
    cases h' with
    | ranked some' answers' => exact absurd none some'
    | standby none' known' least' =>
      obtain rfl := Option.some.inj (known.symm.trans known')
      rw [least] at least'
      exact congrArg (fun a => [a]) (List.cons.inj least').1

/-- Lists are computed from the tables alone, as long as everybody answered. -/
theorem listed_same {cfgs cfgs' : StrMap} {errs : Clusters} {chks : Checks} {lists lists' : Lists}
    (h : Listed cfgs errs chks lists) (h' : Listed cfgs' errs chks lists') : lists = lists' := by
  refine Std.ExtTreeMap.ext_getElem? fun c => ?_
  cases hlist : lists[c]? with
  | none =>
    have hout := Ordered.not_mem_iff_getElem?.mpr hlist
    exact (Ordered.not_mem_iff_getElem?.mp (mt (h'.keys c).mp (mt (h.keys c).mpr hout))).symm
  | some list =>
    have hin := Ordered.mem_iff_getElem?.mpr ⟨list, hlist⟩
    obtain ⟨list', hlist'⟩ := Ordered.mem_iff_getElem?.mp ((h'.keys c).mpr ((h.keys c).mp hin))
    obtain ⟨rds, hrds, hlegal⟩ := h.list c list hlist
    obtain ⟨rds', hrds', hlegal'⟩ := h'.list c list' hlist'
    obtain rfl := Option.some.inj (hrds.symm.trans hrds')
    rw [hlist', legalList_same hlegal hlegal']

/-- The loop of `gen_legal_redis` ends with the same lists if the same redis answer. -/
theorem AtRest.computes (h : AtRest cfgs before legal t) {answers : StrMap} {chks : Checks}
    {errs : Clusters} (names : NamesChecks cfgs t chks)
    (entries : ∀ c, errs[c]? = clusterEntry t errPath false c)
    (same : ∀ a, a ∈ answers ↔ a ∈ before) :
    ∃ legal', chks.toList.foldlM (genCluster answers errs) ⟨∅, ∅⟩ = .ok legal' ∧
      legal'.clusterLegalRedis = legal.clusterLegalRedis := by
  obtain ⟨chks', errs', hnames, hentries, hfold⟩ := h.computed
  obtain rfl := names.unique hnames
  have herrs : errs' = errs :=
    Std.ExtTreeMap.ext_getElem? fun c => (hentries c).trans (entries c).symm
  subst herrs
  have hlisted := genClusters_ok hfold
  have hstandby : ∀ (c : Str) (rds : StrMap), chks[c]? = some rds → (∀ a, a ∉ rds) →
      ∃ nodes, errs'[c]? = some nodes ∧ nodes.toList ≠ [] := by
    intro c rds hrds hnone
    obtain ⟨list, hlist⟩ := Ordered.mem_iff_getElem?.mp
      ((hlisted.keys c).mpr (Ordered.mem_iff_getElem?.mpr ⟨rds, hrds⟩))
    obtain ⟨rds', hrds', hlegal⟩ := hlisted.list c list hlist
    obtain rfl := Option.some.inj (hrds.symm.trans hrds')
    cases hlegal with
    | ranked some answers =>
      obtain ⟨entry, hentry⟩ := List.exists_mem_of_ne_nil _ some
      exact absurd (mem_sorted.mp (List.mem_map_of_mem hentry)) (hnone entry.1)
    | standby none known least => exact ⟨_, known, by simp [least]⟩
  have hanswered : ∀ (c : Str) (rds : StrMap), chks[c]? = some rds → ∀ a ∈ rds, a ∈ answers := by
    intro c rds hrds a ha
    obtain ⟨addrs, _, hknown⟩ := h.checked names hrds
    exact (same a).mpr ((hknown a).mp ha).2
  obtain ⟨legal', hfold'⟩ := genClusters_total hanswered (h.apart names) hstandby
  exact ⟨legal', hfold', (listed_same (genClusters_ok hfold') hlisted)⟩

/-! ## The second check -/

/-- `legal_cmp` only reads where the lists are published already. -/
theorem legalCmp_within {lists : Lists} (hpath : nodePath ∈ t) (numbered : Numbered lists)
    (published : ∀ node, node :: nodePath ∈ t ↔ node ∈ legalSet lists) :
    Within ZkCall.serve IsRead (legalCmp lists) t () t := by
  have hread : Within ZkCall.serve IsRead (orReturn (getNodes nodePath false) 1 : Ctl Addrs) t
      (nodesOf t nodePath false) t :=
    (only_orReturn reading_getNodes).within (orReturn_ok.mpr (getNodes_ok.mpr ⟨hpath, rfl, rfl⟩))
  have hsame : nodesOf t nodePath false = legalSet lists := by
    refine Std.ExtTreeSet.ext_mem fun node => ?_
    rw [mem_nodesOf, published]
    simp
  have hnone : ((legalSet lists).filter (· ∉ legalSet lists) : Addrs).toList = [] := by
    refine List.eq_nil_iff_forall_not_mem.mpr fun node hnode => ?_
    rw [Std.ExtTreeSet.mem_toList, mem_filter_addrs] at hnode
    exact absurd hnode.1 (by simpa using hnode.2)
  unfold legalCmp
  refine hread.bind ?_
  rw [foldlM_addLegalNode, if_neg (numbered_iff.mp numbered), pure_bind, hsame]
  change Within ZkCall.serve IsRead (do
    ((legalSet lists).filter (· ∉ legalSet lists) : Addrs).toList.forM rmLegal
    ((legalSet lists).filter (· ∉ legalSet lists) : Addrs).toList.forM addLegal) t () t
  rw [hnone]
  exact Within.pure.bind Within.pure

/-- On a tree at rest the part under the lock only reads, if the same redis answer. -/
theorem AtRest.locked_within (h : AtRest cfgs before legal t) {net : Network}
    (same : ∀ a, a ∈ answers net cfgs ↔ a ∈ before) :
    ∃ chks errs legal', Within ZkCall.serve IsRead (checkLocked net) t legal' t ∧
      Ok ZkCall.serve (getCheck checkPath) t chks t ∧ NamesChecks cfgs t chks ∧
      chks.toList.foldlM (genCluster (answers net cfgs) errs) ⟨∅, ∅⟩ = .ok legal' := by
  have hbase : ∀ {q : Path}, q ∈ basePaths → q ∈ t := fun hq => h.base _ hq
  have kept : ∀ n c, n :: c :: checkPath ∈ t →
      Survives t (c :: checkPath) n ∧ ∃ d, HasData t (n :: c :: checkPath) d := by
    intro n c hn
    obtain ⟨addrs, haddrs⟩ := Ordered.mem_iff_getElem?.mp
      ((h.partition.checkClusters c).mp (Tree.mem_parent hn))
    obtain ⟨a, ha, _⟩ := h.partition.checkData c addrs haddrs n hn
    exact ⟨h.survive n c hn, a, ha⟩
  obtain ⟨chks, hchks⟩ := getCheck_within (hbase (by decide)) kept
  have names := namesChecks_of_read h.partition h.survive hchks.ok
  obtain ⟨errs, herrs⟩ := getClusterNode_runs false (hbase (q := errPath) (by decide))
  obtain ⟨_, _, entries⟩ := getClusterNode_ok.mp herrs
  have hconfig : Within ZkCall.serve IsRead (getConfig cfgPath) t cfgs t :=
    reading_getConfig.within (getConfig_ok.mpr ⟨hbase (by decide), rfl, h.config, h.single⟩)
  have herrs : Within ZkCall.serve IsRead (getError errPath) t errs t :=
    reading_getClusterNode.within herrs
  obtain ⟨legal', hfold, hlists⟩ := h.computes names entries same
  have hadd : logicCheckAdd cfgs errs chks = pure () := by
    refine logicCheckAdd_nothing fun c addrs haddrs => ?_
    obtain ⟨rds, hrds⟩ := Ordered.mem_iff_getElem?.mp
      ((names.keys c).mpr (Ordered.mem_iff_getElem?.mpr ⟨addrs, haddrs⟩))
    obtain ⟨addrs', haddrs', hchecked⟩ := h.checked names hrds
    obtain rfl := Option.some.inj (haddrs.symm.trans haddrs')
    obtain ⟨nodes, hnodes⟩ := (h.erred entries).2 addrs haddrs
    obtain ⟨addrs', haddrs', herred⟩ := (h.erred entries).1 nodes hnodes
    obtain rfl := Option.some.inj (haddrs.symm.trans haddrs')
    refine ⟨rds, nodes, hrds, hnodes, fun a ha => ?_⟩
    by_cases hanswers : a ∈ before
    · exact Or.inl ((hchecked a).mpr ⟨ha, hanswers⟩)
    · exact Or.inr ((herred a).mpr ⟨ha, hanswers⟩)
  have herrorRm : logicErrorRm cfgs errs = pure () := by
    refine logicErrorRm_nothing fun c nodes hnodes => ?_
    obtain ⟨addrs, haddrs, herred⟩ := (h.erred entries).1 nodes hnodes
    exact ⟨addrs, haddrs, fun a ha => ((herred a).mp ha).1⟩
  have hcheckRm : logicCheckRm cfgs chks = pure () := by
    refine logicCheckRm_nothing fun c rds hrds => ?_
    obtain ⟨addrs, haddrs, hchecked⟩ := h.checked names hrds
    exact ⟨addrs, haddrs, fun a ha => ((hchecked a).mp ha).1⟩
  have herror : Within ZkCall.serve IsRead (checkError (answers net cfgs)) t () t := by
    have hnothing : ∀ (c : Str) (nodes : Addrs), errs[c]? = some nodes →
        ∀ a ∈ nodes, a ∉ answers net cfgs := by
      intro c nodes hnodes a ha
      obtain ⟨addrs, _, herred⟩ := (h.erred entries).1 nodes hnodes
      exact mt (same a).mp ((herred a).mp ha).2
    exact herrs.adapt.bind (checkErrors_nothing hnothing ▸ Within.pure)
  have hcheck : Within ZkCall.serve IsRead (checkCheck (answers net cfgs)) t () t := by
    have hnothing : ∀ (c : Str) (rds : StrMap), chks[c]? = some rds →
        ∀ a ∈ rds, a ∈ answers net cfgs := by
      intro c rds hrds a ha
      obtain ⟨addrs, _, hchecked⟩ := h.checked names hrds
      exact (same a).mpr ((hchecked a).mp ha).2
    exact hchks.adapt.bind (checkChecks_nothing hnothing ▸ Within.pure)
  have hgen : Within ZkCall.serve IsRead (genLegalRedis (answers net cfgs)) t legal' t := by
    have hcmp : Within ZkCall.serve IsRead (legalCmp legal'.clusterLegalRedis) t () t := by
      rw [hlists]
      exact legalCmp_within (hbase (by decide)) h.numbered h.published
    refine hchks.adapt.bind (herrs.adapt.bind ?_)
    rw [hfold]
    exact Within.pure.bind (hcmp.adapt.bind Within.pure)
  refine ⟨chks, errs, legal', ?_, hchks.ok, names, hfold⟩
  unfold checkLocked
  refine hconfig.bind (herrs.bind (hchks.bind ?_))
  rw [hadd, herrorRm, hcheckRm]
  exact Within.pure.bind (Within.pure.bind (Within.pure.bind (herror.bind (hcheck.bind hgen))))

end AtRest

/-! ## Setup and lock -/

/-- A call that creates or deletes the lock node. -/
def OnLock : ZkCall → Prop
  | .zooCreate path _ _ => path = lockNode
  | .zooDelete path => path = lockNode
  | _ => False

/-- A call that changes nothing but the lock. -/
def LockOnly (c : ZkCall) : Prop := IsRead c ∨ OnLock c

theorem checkAddCreate_within {path : Path} (hpath : path ∈ t) :
    Within ZkCall.serve IsRead (checkAddCreate path .persistent []) t () t := by
  have hexist : Within ZkCall.serve IsRead (nodeExist path) t 0 t := by
    have hrun := nodeExist_runs (t := t) path
    rw [if_pos hpath] at hrun
    exact reading_nodeExist.within hrun
  exact hexist.bind Within.pure

theorem initPathCheck_within (base : ∀ q ∈ basePaths, q ∈ t) :
    Within ZkCall.serve IsRead initPathCheck t () t := by
  have hbase : ∀ (q : Path) (code : Nat), q ∈ basePaths → Within ZkCall.serve IsRead
      (orReturn (checkAddCreate q .persistent []) code : Ctl Unit) t () t :=
    fun q code hq => (checkAddCreate_within (base q hq)).adapt
  unfold initPathCheck
  exact (hbase _ _ (by decide)).bind ((hbase _ _ (by decide)).bind ((hbase _ _ (by decide)).bind
    ((hbase _ _ (by decide)).bind (hbase _ _ (by decide)))))

/-- The lock was free, and the node is all that changes. -/
theorem getLock_true {session : Nat} (h : Ok ZkCall.serve (getLock session) t true t') :
    lockNode ∉ t ∧ ∀ q, t'.get q = if q = lockNode then some ⟨none, some session⟩ else t.get q := by
  unfold getLock at h
  obtain ⟨r, s, hask, hmatch⟩ := ok_bind.mp h
  have hserve := ok_ask.mp hask
  rw [ZkCall.serve] at hserve
  cases hcreate : t.create lockNode none (.ephemeral session) with
  | ok result =>
    obtain ⟨q, s'⟩ := result
    rw [hcreate] at hserve
    obtain ⟨rfl, rfl⟩ := Prod.mk.inj hserve
    obtain ⟨_, rfl⟩ := ok_pure.mp hmatch
    obtain ⟨_, hcreated⟩ := Tree.create_ok hcreate
    exact ⟨hcreated.fresh, hcreated.get⟩
  | error e =>
    rw [hcreate] at hserve
    obtain ⟨rfl, rfl⟩ := Prod.mk.inj hserve
    cases (ok_pure.mp hmatch).1

/-- A free lock is taken with calls on the lock node. -/
theorem getLock_within (session : Nat) (hpath : lockPath ∈ t) (alone : lockNode ∉ t) :
    ∃ t', Within ZkCall.serve LockOnly (getLock session) t true t' := by
  obtain ⟨t', hrun⟩ := getLock_runs session hpath alone
  have honly : Only LockOnly (getLock session) := by
    refine Keeps.bind (Only.ask (Or.inr rfl)) fun r _ => ?_
    split <;> exact Keeps.pure trivial
  exact ⟨t', honly.within hrun⟩

/-- The lock is given back, and the node is all that changes. -/
theorem freeLock_get (h : Ok ZkCall.serve freeLock t () t') (held : lockNode ∈ t)
    (leaf : ∀ m, m :: lockNode ∉ t) : ∀ q, t'.get q = if q = lockNode then none else t.get q := by
  unfold freeLock at h
  obtain ⟨r, s, hask, hpure⟩ := ok_bind.mp h
  obtain ⟨_, rfl⟩ := ok_pure.mp hpure
  have hserve := ok_ask.mp hask
  rw [ZkCall.serve] at hserve
  obtain ⟨s', hdelete⟩ := Tree.delete_of_leaf held (leaf_of_none leaf)
  rw [show t.delete lockNode = .ok s' from hdelete] at hserve
  obtain ⟨_, rfl⟩ := Prod.mk.inj hserve
  exact (Tree.delete_ok hdelete).get

theorem freeLock_within : ∃ t', Within ZkCall.serve LockOnly freeLock t () t' := by
  obtain ⟨t', hrun⟩ := freeLock_runs (t := t)
  have honly : Only LockOnly freeLock :=
    Keeps.bind (Only.ask (Or.inr rfl)) fun _ _ => Keeps.pure trivial
  exact ⟨t', honly.within hrun⟩

/-- What holds after the lock is held over a run that works in its branches only. -/
theorem lock_round {session : Nat} {net : Network} {legal : Legal} {t₁ t₂ t₃ : Tree}
    (lock : Ok ZkCall.serve (getLock session) t₁ true t₂)
    (locked : Ok ZkCall.serve (checkLocked net) t₂ legal t₃)
    (free : Ok ZkCall.serve freeLock t₃ () t') :
    ∀ q, t'.get q = if q = lockNode then none else t₃.get q := by
  obtain ⟨halone, hget⟩ := getLock_true lock
  have hlock : ¬ Inner lockNode := fun h => by
    have hlast := h.getLast.2
    revert hlast
    decide
  have hbelow : ∀ m, ¬ Inner (m :: lockNode) := fun m h => by
    have hlast := h.getLast.2
    rw [show (m :: lockNode).getLast? = some "lock".toList from rfl] at hlast
    revert hlast
    decide
  refine freeLock_get free ?_ fun m hm => ?_
  · rw [Tree.mem_iff, locked_outside locked hlock, hget, if_pos rfl]
    exact ⟨_, rfl⟩
  · rw [Tree.mem_iff, locked_outside locked (hbelow m), hget, if_neg (by simp), ← Tree.mem_iff] at hm
    exact halone (Tree.mem_parent hm)

/-- A check leaves a tree at rest and a free lock. -/
theorem atRest_of_check {zkh : Option Nat} {net : Network} {legal : Legal}
    (filed : Filed (configured t) t) (success : Ok ZkCall.serve (check zkh net) t legal t') :
    AtRest (configured t) (answers net (configured t)) legal t' ∧ lockNode ∉ t' := by
  obtain ⟨session, t₁, t₂, t₃, _, hinit, hlock, hlocked, hfree⟩ := check_steps success
  have hprepared := initPathCheck_ok hinit
  obtain ⟨hsame, hkeep⟩ := getLock_ok hlock
  have hbelow := hprepared.same.trans hsame
  have hcfgs : configured t₂ = configured t :=
    ConfigOf.unique (configOf_configured t₂) (config_same hbelow (configOf_configured t))
  have hatRest := atRest_of_locked hlocked (hcfgs ▸ filedBelow hbelow filed)
    fun q hq => hkeep q (hprepared.base q hq)
  rw [hcfgs] at hatRest
  have hget := lock_round hlock hlocked hfree
  refine ⟨hatRest.congr fun q hq => ?_, ?_⟩
  · rw [hget, if_neg hq]
  · rw [Tree.not_mem_iff, hget, if_pos rfl]

/-- The next check only takes the lock, reads, and gives the lock back. -/
theorem AtRest.check_within {cfgs : Clusters} {before : StrMap} {legal : Legal}
    (h : AtRest cfgs before legal t) (alone : lockNode ∉ t) {net : Network}
    (same : ∀ a, a ∈ answers net cfgs ↔ a ∈ before) (session : Nat) :
    ∃ chks errs legal' t', Within ZkCall.serve LockOnly (check (some session) net) t legal' t' ∧
      (∀ q, t'.get q = t.get q) ∧ NamesChecks cfgs t chks ∧
      chks.toList.foldlM (genCluster (answers net cfgs) errs) ⟨∅, ∅⟩ = .ok legal' := by
  obtain ⟨u, hlock⟩ := getLock_within session (h.base lockPath (by decide)) alone
  obtain ⟨_, hget⟩ := getLock_true hlock.ok
  have hatRest : AtRest cfgs before legal u := h.congr fun q hq => by rw [hget, if_neg hq]
  obtain ⟨chks, errs, legal', hlocked, _, names, hfold⟩ := hatRest.locked_within same
  obtain ⟨t', hfree⟩ := freeLock_within (t := u)
  have hround := lock_round hlock.ok hlocked.ok hfree.ok
  have hback : ∀ q, t'.get q = t.get q := by
    intro q
    rw [hround, hget]
    by_cases hq : q = lockNode
    · rw [if_pos hq, hq]
      exact (Tree.not_mem_iff.mp alone).symm
    · rw [if_neg hq, if_neg hq]
  refine ⟨chks, errs, legal', t', ?_, hback, ⟨names.keys, fun c rds hrds d n => ?_⟩, hfold⟩
  · unfold check
    refine ((initPathCheck_within h.base).mono fun _ => Or.inl).bind (hlock.bind ?_)
    rw [if_pos rfl]
    exact ((hlocked.mono fun _ => Or.inl).lift).bind (hfree.bind Within.pure)
  · have hne : n :: c :: checkPath ≠ lockNode := by simp [checkPath, lockNode, lockPath]
    rw [names.nodes c rds hrds d n]
    exact HasData.congr (by rw [hget, if_neg hne])

/-! ## The fixpoint -/

/-- A check on a tree at rest computes commands for what its redis report. -/
theorem AtRest.instructed {cfgs : Clusters} {before : StrMap} {legal legal' : Legal}
    (h : AtRest cfgs before legal t) {net : Network} {upstreams : Upstreams}
    (reports : Reports net upstreams) (same : ∀ a, a ∈ answers net cfgs ↔ a ∈ before)
    {chks : Checks} {errs : Clusters} (names : NamesChecks cfgs t chks)
    (fold : chks.toList.foldlM (genCluster (answers net cfgs) errs) ⟨∅, ∅⟩ = .ok legal') :
    Instructed (answers net cfgs) chks upstreams legal'.cmds where
  apart := h.apart names
  surveyed := surveyed_checkRedis reports 2 (allAddrs cfgs) fun addr cfg hnone => by simp at hnone
  answered := by
    intro c rds hrds a ha
    obtain ⟨addrs, _, hchecked⟩ := h.checked names hrds
    exact (same a).mpr ((hchecked a).mp ha).2
  commands := by
    intro a cmd
    rw [genClusters_commands (h.apart names) names.apart (List.append_nil _).symm fold a cmd]
    constructor
    · rintro ⟨c, _, hrest⟩
      exact ⟨c, hrest⟩
    · rintro ⟨c, rds, hrds, hcmd⟩
      have hentry := Std.ExtTreeMap.mem_toList_iff_getElem?_eq_some.mpr hrds
      exact ⟨c, List.mem_map_of_mem (f := Prod.fst) hentry, rds, hrds, hcmd⟩

/-- No pass touches the configuration. -/
theorem check_configured {zkh : Option Nat} {net : Network} {legal : Legal}
    (success : Ok ZkCall.serve (check zkh net) t legal t') : configured t' = configured t := by
  obtain ⟨s, s', hprepared, hlocked, hsame⟩ := check_ok success
  have hconfig : ∀ names : Path, names ++ cfgPath ∈ s' ↔ names ++ cfgPath ∈ s := by
    intro names
    rw [Tree.mem_iff, Tree.mem_iff, locked_outside hlocked (not_inner_config names)]
  refine ConfigOf.unique (configOf_configured t') (config_same hsame fun c => ?_)
  rw [config_same hprepared.same (configOf_configured t) c]
  exact (clusterEntry_congr (fun c => hconfig [c]) (fun n c => hconfig [n, c]) c).symm

/-- A call that only reads or concerns the lock changes no node below the base nodes. -/
theorem LockOnly.below {c : ZkCall} (h : LockOnly c) {q : Path} (hq : Below q) (t : Tree) :
    (ZkCall.serve c t).2.get q = t.get q := by
  have hlock : ∀ name, name :: lockPath ≠ q := by
    rintro name rfl
    obtain ⟨_, path, hcons, _, hne⟩ := hq
    exact hne (List.cons.inj hcons).2.symm
  rcases h with hread | honly
  · rw [hread.same]
  · cases c with
    | zooExists path => exact honly.elim
    | zooGet path => exact honly.elim
    | zooGetChildren path => exact honly.elim
    | zooCreate path data mode =>
      obtain rfl : path = lockNode := honly
      rw [ZkCall.serve]
      split
      · next p t' hcreate =>
        rw [(Tree.create_ok hcreate).2.get, if_neg]
        exact fun heq => hlock _ heq.symm
      · rfl
    | zooDelete path =>
      obtain rfl : path = lockNode := honly
      rw [ZkCall.serve]
      split
      · next t' hdelete =>
        rw [(Tree.delete_ok hdelete).get, if_neg]
        exact fun heq => hlock _ heq.symm
      · rfl

/-- A check that reads only and ends well has an address of its configuration in one of the trees. -/
theorem quiet_known {zkh : Option Nat} {net : Network} {legal : Legal} {c a : Str} {addrs : Addrs}
    (quiet : Within ZkCall.serve LockOnly (check zkh net) t legal t')
    (hc : (configured t)[c]? = some addrs) (ha : a ∈ addrs) : ¬ Absent c a t := by
  intro habsent
  -- every state of the run agrees with the first one on the nodes that say whether it is known
  have keeps : ∀ {α : Type} {x : Ctl α} {s s' : Tree} {value : α},
      Within ZkCall.serve LockOnly x s value s' → (∀ q, Below q → s.get q = t.get q) →
        ∀ q, Below q → s'.get q = t.get q := by
    intro α x s s' value hx hs
    have hstep : ∀ c s, LockOnly c → (∀ q, Below q → s.get q = t.get q) →
        ∀ q, Below q → (ZkCall.serve c s).2.get q = t.get q :=
      fun c s hkind hs q hq => (hkind.below hq s).trans (hs q hq)
    exact hx.keeps hstep hs
  obtain ⟨t₀, t₁, hstart, hlocked⟩ : ∃ t₀ t₁, (∀ q, Below q → t₀.get q = t.get q) ∧
      Within ZkCall.serve LockOnly (checkLocked net) t₀ legal t₁ := by
    unfold check at quiet
    cases zkh with
    | none => exact absurd quiet.ok ok_throw
    | some session =>
      obtain ⟨_, s, hinit, h⟩ := quiet.of_bind
      obtain ⟨taken, s', hlock, h⟩ := h.of_bind
      have hstart := keeps hlock (keeps hinit fun _ _ => rfl)
      cases taken with
      | false => exact absurd h.ok ok_throw
      | true =>
        rw [if_pos rfl] at h
        obtain ⟨r, t₁, hlift, h⟩ := h.of_bind
        obtain ⟨hrun, hcalls⟩ := hlift.of_lift
        cases r with
        | ok result =>
          obtain ⟨_, _, _, h⟩ := h.of_bind
          obtain ⟨rfl, _⟩ := ok_pure.mp h.ok
          exact ⟨s', t₁, hstart, hrun, hcalls⟩
        | error halt =>
          exfalso
          cases halt with
          | lengthError => exact absurd h.ok ok_throw
          | _ =>
            obtain ⟨_, _, _, h⟩ := h.of_bind
            exact absurd h.ok ok_throw
  unfold checkLocked at hlocked
  obtain ⟨cfgs, s₁, hconfig, h⟩ := hlocked.of_bind
  obtain ⟨errs, s₂, herrs, h⟩ := h.of_bind
  obtain ⟨chks, read, hread, h⟩ := h.of_bind
  obtain ⟨_, grown, hadd, _⟩ := h.of_bind
  have hgrown := keeps hadd (keeps hread (keeps herrs (keeps hconfig hstart)))
  obtain ⟨_, rfl, hconfigOf, _⟩ := getConfig_ok.mp hconfig.ok
  obtain ⟨_, rfl, herrors⟩ := getClusterNode_ok.mp herrs.ok
  obtain ⟨_, hchecks⟩ := getCheck_ok hread.ok
  have hcfgs : cfgs = configured t := by
    refine ConfigOf.unique hconfigOf fun c => ?_
    rw [configOf_configured t c]
    refine (clusterEntry_congr (fun c => ?_) (fun n c => ?_) c).symm
    · rw [Tree.mem_iff, Tree.mem_iff, hstart _ (below_cons (by simp [cfgPath]) (by simp [cfgPath, lockPath]))]
    · rw [Tree.mem_iff, Tree.mem_iff, hstart _ (below_cons (by simp) (by simp [cfgPath, lockPath]))]
  have here : Absent c a s₂ := habsent.congr fun q hq => hstart q <| by
    rcases hq with rfl | ⟨n, rfl⟩ <;> exact below_cons (by simp) (by simp [checkPath, errPath, lockPath])
  have hnew : isNew chks[c]? errs[c]? a := by
    rw [isNew, Bool.and_eq_true]
    constructor
    · cases hrdis : chks[c]? with
      | none => rfl
      | some rdis =>
        rw [Option.all_some, decide_eq_true_eq]
        intro hmem
        obtain ⟨n, hn⟩ := Ordered.mem_iff_getElem?.mp hmem
        exact here.check n ((hchecks.clusters c rdis hrdis).names a n hn).2.2
    · cases hnodes : errs[c]? with
      | none => rfl
      | some nodes =>
        rw [Option.all_some, decide_eq_true_eq]
        intro hmem
        rw [herrors] at hnodes
        obtain ⟨_, _, rfl⟩ := clusterEntry_some.mp hnodes
        exact here.error (mem_nodesOf.mp hmem).1
  rw [← hcfgs] at hc
  obtain ⟨k, _, hk⟩ := ((logicCheckAdd_ok hadd.ok).added c addrs hc).added a ha hnew
    (config_name hconfigOf hc ha).1
  have hbelow : Below (seqName k :: c :: checkPath) := below_cons (by simp) (by simp [checkPath, lockPath])
  exact habsent.check (seqName k) ((HasData.congr (hgrown _ hbelow)).mp hk)

/-- After a check whose commands were obeyed, a second one with the same answers creates and
deletes the lock node only, leaves the tree as it is and has no command for any redis, as long as
the first one filed what it left. -/
theorem filed_quiet {zkh : Option Nat} {session tries : Nat} {net net' sent : Network}
    {before : Upstreams} {legal : Legal} (filed : Filed (configured t) t)
    (reports : Reports net before) (first : Ok ZkCall.serve (check zkh net) t legal t')
    (reports' : Reports net' ((doSlaveofCmd sent tries legal.cmds).foldl obeyed before))
    (same : ∀ addr, addr ∈ answers net' (configured t) ↔ addr ∈ answers net (configured t)) :
    ∃ legal' t'', Within ZkCall.serve LockOnly (check (some session) net') t' legal' t'' ∧
      (∀ q, t''.get q = t'.get q) ∧
      ∀ (sent' : Network) (tries' : Nat), doSlaveofCmd sent' tries' legal'.cmds = [] := by
  obtain ⟨hatRest, halone⟩ := atRest_of_check filed first
  obtain ⟨chks, errs, legal', t'', hwithin, hback, names, hfold⟩ :=
    hatRest.check_within halone same session
  obtain ⟨chks₀, errs₀, names₀, _, hfold₀⟩ := hatRest.computed
  obtain rfl := names.unique names₀
  have hfirst := hatRest.instructed reports (fun _ => Iff.rfl) names hfold₀
  have hsecond := hatRest.instructed reports' same names hfold
  rw [foldl_obeyed tries hfirst.canonical] at hsecond
  have hnone : legal'.cmds = ∅ := by
    refine Std.ExtTreeMap.ext_getElem? fun addr => ?_
    cases hcmd : legal'.cmds[addr]? with
    | none => simp
    | some cmd =>
      obtain ⟨c, rds, hrds, master, hleader, ha, hne, _⟩ := (hsecond.commands addr cmd).mp hcmd
      obtain ⟨a, hread, _, hcfg⟩ := hsecond.redis hrds ha
      rw [hfirst.settled hrds hleader ha hread] at hcfg
      exact absurd hcfg hne
  refine ⟨legal', t'', hwithin, hback, fun sent' tries' => ?_⟩
  rw [hnone]
  exact doSlaveofCmd_empty sent' tries'

/-- After a check whose commands were obeyed, a second one with the same answers ends well, creates
and deletes the lock node only, leaves the tree as it is and has no command for any redis, exactly
if in the first tree the first numbered node of an address that is not configured has the least
number. No check node need have a number of its own. Nobody else is at the tree between the two, and
no call of the second one fails. -/
theorem second_check_quiet_iff (zkh : Option Nat) (session tries : Nat) (net net' sent : Network)
    (before : Upstreams) (t t' : Tree) (legal : Legal) (reports : Reports net before)
    (first : Ok ZkCall.serve (check zkh net) t legal t')
    (reports' : Reports net' ((doSlaveofCmd sent tries legal.cmds).foldl obeyed before))
    (same : ∀ addr, addr ∈ answers net' (configured t) ↔ addr ∈ answers net (configured t)) :
    (∃ legal' t'', Ok ZkCall.serve (check (some session) net') t' legal' t'' ∧
      (∀ c ∈ Program.calls ZkCall.serve (check (some session) net').run t', IsRead c ∨ OnLock c) ∧
      (∀ q, t''.get q = t'.get q) ∧
      ∀ (sent' : Network) (tries' : Nat), doSlaveofCmd sent' tries' legal'.cmds = []) ↔
      Filed (configured t) t := by
  constructor
  · rintro ⟨legal', t'', second, calls, _, _⟩
    by_contra unfiled
    obtain ⟨c, addrs, a, hc, ha, habsent⟩ := check_loses first unfiled
    rw [← check_configured first] at hc
    exact quiet_known ⟨second, calls⟩ hc ha habsent
  · intro filed
    obtain ⟨legal', t'', hwithin, hback, hcmds⟩ := filed_quiet filed reports first reports' same
    exact ⟨legal', t'', hwithin.ok, hwithin.calls, hback, hcmds⟩

/-! Two names with one old address, of which the second has the least number, and that number is
the one that the next node gets. -/

/-- Two check nodes for an address that is not configured, the first by name with the larger number,
and the next number of the branch is that of the other one. -/
def reusedTree : Tree :=
  Tree.empty.plant [(cfgPath, none), ("cluster1".toList :: cfgPath, none),
    ("1.0.0.2:80".toList :: "cluster1".toList :: cfgPath, none),
    (checkPath, none), ("cluster1".toList :: checkPath, none),
    ("r+000000010".toList :: "cluster1".toList :: checkPath, some "1.0.0.9:80".toList),
    ("r0000000005".toList :: "cluster1".toList :: checkPath, some "1.0.0.9:80".toList),
    ("x0".toList :: "cluster1".toList :: checkPath, some "junk".toList),
    ("x1".toList :: "cluster1".toList :: checkPath, some "junk".toList),
    ("x2".toList :: "cluster1".toList :: checkPath, some "junk".toList)]

/-- The first check publishes the old address; the second one gives the lost address a node. -/
theorem reused_name_not_quiet : ¬ ∀ (zkh : Option Nat) (session tries : Nat) (net net' sent : Network)
    (before : Upstreams) (t t' : Tree) (legal : Legal), Reports net before →
      Ok ZkCall.serve (check zkh net) t legal t' →
      Reports net' ((doSlaveofCmd sent tries legal.cmds).foldl obeyed before) →
      (∀ addr, addr ∈ answers net' (configured t) ↔ addr ∈ answers net (configured t)) →
      ∃ legal' t'', Ok ZkCall.serve (check (some session) net') t' legal' t'' ∧
        (∀ c ∈ Program.calls ZkCall.serve (check (some session) net').run t', IsRead c ∨ OnLock c) ∧
        (∀ q, t''.get q = t'.get q) ∧
        ∀ (sent' : Network) (tries' : Nat), doSlaveofCmd sent' tries' legal'.cmds = [] := by
  intro claim
  have hends : endsWith ZkCall.serve (check (some 1) (reporting fun _ => [])) reusedTree (fun legal t' =>
      decide (legal.cmds.isEmpty = true) && decide
        (seqName 6 :: "cluster1".toList :: checkPath ∉ t') &&
      endsWith ZkCall.serve (check (some 2) (reporting fun _ => [])) t' (fun _ t'' =>
        decide (seqName 6 :: "cluster1".toList :: checkPath ∈ t''))) = true := by
    decide +kernel
  obtain ⟨legal, t', first, htest⟩ := endsWith_iff.mp hends
  rw [Bool.and_eq_true, Bool.and_eq_true, decide_eq_true_eq, decide_eq_true_eq] at htest
  obtain ⟨⟨hcmds, hnew⟩, hsecond⟩ := htest
  have hnone : legal.cmds = ∅ := Std.ExtTreeMap.isEmpty_iff.mp hcmds
  obtain ⟨legal₁, t₁, hrun, hthere⟩ := endsWith_iff.mp hsecond
  obtain ⟨legal₂, t₂, second, _, hback, _⟩ := claim (some 1) 2 2 (reporting fun _ => [])
    (reporting fun _ => []) (reporting fun _ => []) (fun _ => []) reusedTree t' legal
    (reports_reporting _) first
    (by rw [hnone, doSlaveofCmd_empty]; exact reports_reporting _) fun _ => Iff.rfl
  obtain ⟨_, rfl⟩ := hrun.unique second
  rw [decide_eq_true_eq, Tree.mem_iff, hback, ← Tree.mem_iff] at hthere
  exact hnew hthere

theorem second_check_quiet_example : ∃ legal t' legal' t'',
    Ok ZkCall.serve (check (some 1) (reporting crossedUpstreams)) troubledTree legal t' ∧
    Ok ZkCall.serve (check (some 2) (reporting ((doSlaveofCmd (reporting crossedUpstreams) 2
      legal.cmds).foldl obeyed crossedUpstreams))) t' legal' t'' ∧ ∀ q, t''.get q = t'.get q := by
  have hends : endsWith ZkCall.serve (check (some 1) (reporting crossedUpstreams)) troubledTree
      (fun legal _ => decide ((answers (reporting ((doSlaveofCmd (reporting crossedUpstreams) 2
        legal.cmds).foldl obeyed crossedUpstreams)) (configured troubledTree)).keys =
          (answers (reporting crossedUpstreams) (configured troubledTree)).keys)) = true := by
    decide +kernel
  obtain ⟨legal, t', hrun, hkeys⟩ := endsWith_iff.mp hends
  rw [decide_eq_true_eq] at hkeys
  obtain ⟨legal', t'', hsecond, _, hback, _⟩ := (second_check_quiet_iff (some 1) 2 2
    (reporting crossedUpstreams) (reporting ((doSlaveofCmd (reporting crossedUpstreams) 2
      legal.cmds).foldl obeyed crossedUpstreams)) (reporting crossedUpstreams) crossedUpstreams
    troubledTree t' legal (reports_reporting _) hrun
    (reports_reporting _) fun addr => by
      rw [← Std.ExtTreeMap.mem_keys, hkeys, Std.ExtTreeMap.mem_keys]).mpr
    (filed_of_check fresh_troubledTree hrun)
  exact ⟨legal, t', legal', t'', hrun, hsecond, hback⟩

end RedisCluster.Guarantees
