import Mathlib.Data.List.TakeWhile
import RedisCluster.Guarantees.Master
import RedisCluster.Source.RedisHash

/-!
# Publication

What the children of `legal_nodes` say to the clients, after a check and while
`legal_cmp` replaces them. A child is a number and addresses between semicolons. The
old children are removed before the new ones are created, so a client that reads in
between misses the clusters whose children were all replaced.
-/

set_option autoImplicit false

namespace RedisCluster.Guarantees
open Library Routine ZkCall Source

/-- The addresses of every cluster, in order. -/
abbrev Lists := Std.ExtTreeMap Str (List Str)

/-- A child of `legal_nodes` from which clients read the cluster index. -/
def Publishes (t : Tree) (node : Str) (idx : Int) : Prop :=
  node :: nodePath ∈ t ∧ ∃ sp, pathSplit node = .ok (idx, sp)

/-- The index is one of the new set. -/
def Wanted (lists : Lists) (idx : Int) : Prop :=
  ∃ cluster ∈ lists, cutIdx clusterPrefix cluster = idx

/-- The old children that `legal_cmp` gets to remove, in its order: up to the first that
has children of its own. -/
def removable (t : Tree) (lists : Lists) : List Str :=
  ((nodesOf t nodePath false).filter (· ∉ legalSet lists) : Addrs).toList.takeWhile fun node =>
    (t.children (node :: nodePath)).isEmpty

variable {t s s' : Tree} {lists : Lists}

/-! ## While legal_cmp runs -/

section Gap

/-- Whatever is not removable is still there. -/
def Spared (t : Tree) (lists : Lists) (s : Tree) : Prop :=
  ∀ node, node :: nodePath ∈ t → node ∉ removable t lists → node :: nodePath ∈ s

/-- The removing loop: it ends at the first node that has children. -/
theorem rmLegals_safe {xs : List Str} (hspared : Spared t lists s)
    (below : ∀ m n, m :: n :: nodePath ∈ s ↔ m :: n :: nodePath ∈ t)
    (hxs : ∀ x ∈ xs.takeWhile fun node => (t.children (node :: nodePath)).isEmpty,
      x ∈ removable t lists) :
    Safe Faulty (Spared t lists) (fun _ _ => True) (xs.forM rmLegal) s := by
  induction xs generalizing s with
  | nil => exact Safe.pure hspared trivial
  | cons x xs ih =>
    have hstep : Safe Faulty (Spared t lists) (fun _ s' =>
        (t.children (x :: nodePath)).isEmpty ∧
          ∀ m n, m :: n :: nodePath ∈ s' ↔ m :: n :: nodePath ∈ t) (rmLegal x) s := by
      apply orReturn_safe
      apply deleteNode_safe hspared
      intro s' hdeleted
      have hleaf : (t.children (x :: nodePath)).isEmpty := by
        rw [List.isEmpty_iff, List.eq_nil_iff_forall_not_mem]
        intro m hm
        rw [Tree.mem_children, ← below, ← Tree.mem_children, hdeleted.leaf] at hm
        cases hm
      refine ⟨fun node hnode hkept => ?_, hleaf, fun m n => ?_⟩
      · refine (hdeleted.mem_iff _).mpr ⟨fun heq => hkept (hxs node ?_), hspared node hnode hkept⟩
        cases heq
        rw [List.takeWhile_cons, if_pos hleaf]
        exact List.mem_cons_self
      · rw [hdeleted.mem_iff, below]
        simp [nodePath]
    refine Safe.bind (hstep.mono fun _ s' h hspared' => ?_)
    refine ih hspared' h.2 fun y hy => hxs y ?_
    rw [List.takeWhile_cons, if_pos h.1]
    exact List.mem_cons_of_mem x hy

theorem addLegals_safe {xs : List Str} (hspared : Spared t lists s) :
    Safe Faulty (Spared t lists) (fun _ _ => True) (xs.forM addLegal) s := by
  have hloop : Safe Faulty (Spared t lists) (fun _ s' => Spared t lists s') (xs.forM addLegal) s := by
    refine Safe.forM (fun node _ s hs => ?_) hspared hspared
    obtain ⟨name, names, hpath⟩ := Path.slash_eq nodePath node
    have hcreate : Safe Faulty (Spared t lists) (fun _ _ => True)
        (createNode (nodePath.slash node) .persistent []) s := by
      rw [hpath]
      apply createNode_safe hs
      intro s' hcreated
      exact ⟨fun n hn hkept => (hcreated.mem_iff _).mpr (Or.inr (hs n hn hkept)), trivial⟩
    exact Safe.bind ((orReturn_safe hcreate).mono fun _ s' _ hs' => Safe.pure hs' hs')
  exact hloop.mono fun _ _ _ => trivial

/-- A cluster without a number ends `legal_cmp` before it writes. -/
theorem legalCmp_unnumbered (h : ¬ Numbered lists) :
    Safe Faulty (fun s => s = t) (fun _ _ => True) (legalCmp lists) t := by
  have hread : Safe Faulty (fun s => s = t) (fun nodes s => s = t ∧ nodes = nodesOf t nodePath false)
      (getNodes nodePath false) t := getNodes_safe rfl
  unfold legalCmp
  refine Safe.bind ((orReturn_safe hread).mono fun befRds s _ hs => ?_)
  rw [foldlM_addLegalNode, if_pos (not_not.mp (mt numbered_iff.mpr h))]
  exact Safe.bind (Safe.throw hs)

/-- `legal_cmp` never removes a child that is wanted. -/
theorem legalCmp_spares (t : Tree) (lists : Lists) :
    Safe Faulty (Spared t lists) (fun _ _ => True) (legalCmp lists) t := by
  have start : Spared t lists t := fun _ hnode _ => hnode
  unfold legalCmp
  refine Safe.bind ((orReturn_safe (getNodes_safe start)).mono fun befRds s hread hs => ?_)
  obtain ⟨rfl, rfl⟩ := hread
  rw [foldlM_addLegalNode]
  split
  · exact Safe.bind (Safe.throw hs)
  · rw [pure_bind]
    have hremove : Safe Faulty (Spared s lists) (fun _ _ => True)
        (((nodesOf s nodePath false).filter (· ∉ legalSet lists) : Addrs).toList.forM rmLegal) s :=
      rmLegals_safe hs (fun _ _ => Iff.rfl) fun _ hx => hx
    exact Safe.bind (hremove.mono fun _ s' _ hs' => addLegals_safe hs')

/-- The run that is cut off when the removing loop has done what it can. -/
theorem legalCmp_gap (numbered : Numbered lists) (hpath : nodePath ∈ t) :
    ∃ s, Program.Stops Faulty (legalCmp lists).run t s ∧
      ∀ node, node :: nodePath ∈ s → node :: nodePath ∈ t ∧ node ∉ removable t lists := by
  have hremove : ∃ s, Ok serve ((removable t lists).forM rmLegal) t ⟨⟩ s ∧
      ∀ q, q ∈ s ↔ q ∈ t ∧ ∀ x ∈ removable t lists, q ≠ x :: nodePath := by
    refine ok_forM_total (fun visited s => ∀ q, q ∈ s ↔ q ∈ t ∧ ∀ x ∈ visited, q ≠ x :: nodePath)
      (by simp) ?_
    intro visited x rest hsplit s hloop
    have hx : x ∈ removable t lists := by simp [hsplit]
    have hnew : x ∉ visited := by
      have hnodup : (removable t lists).Nodup :=
        (Ordered.nodup_toList _).sublist (List.takeWhile_sublist _)
      rw [hsplit, List.nodup_append] at hnodup
      exact fun hmem => hnodup.2.2 x hmem x (by simp) rfl
    have hmem : x :: nodePath ∈ s := by
      have hold := (List.takeWhile_sublist _).subset hx
      rw [Std.ExtTreeSet.mem_toList, mem_filter_addrs, mem_nodesOf] at hold
      refine (hloop _).mpr ⟨hold.1.1, fun y hy heq => hnew ?_⟩
      cases heq
      exact hy
    have hleaf : s.children (x :: nodePath) = [] := by
      rw [List.eq_nil_iff_forall_not_mem]
      intro m hm
      have hold := ((hloop _).mp (Tree.mem_children.mp hm)).1
      have hempty := List.mem_takeWhile_imp hx
      rw [List.isEmpty_iff] at hempty
      rw [← Tree.mem_children, hempty] at hold
      cases hold
    obtain ⟨s', hdelete⟩ := Tree.delete_of_leaf hmem hleaf
    refine ⟨s', orReturn_ok.mpr (deleteNode_ok.mpr hdelete), fun q => ?_⟩
    rw [(Tree.delete_ok hdelete).mem_iff, hloop]
    simp only [List.mem_append, List.mem_singleton]
    constructor
    · rintro ⟨hne, hq, hall⟩
      refine ⟨hq, fun y hy => ?_⟩
      rcases hy with hy | rfl
      · exact hall y hy
      · exact hne
    · rintro ⟨hq, hall⟩
      exact ⟨hall x (Or.inr rfl), hq, fun y hy => hall y (Or.inl hy)⟩
  obtain ⟨s, hrun, hs⟩ := hremove
  refine ⟨s, ?_, fun node hnode => ?_⟩
  · unfold legalCmp
    refine Ok.bind_stops (fun _ _ _ _ => Or.inl)
      (orReturn_ok.mpr (getNodes_ok.mpr ⟨hpath, rfl, rfl⟩)) ?_
    rw [foldlM_addLegalNode, if_neg (numbered_iff.mp numbered), pure_bind]
    apply stops_bind
    have hsplit : ((nodesOf t nodePath false).filter (· ∉ legalSet lists) : Addrs).toList =
        removable t lists ++ ((nodesOf t nodePath false).filter
          (· ∉ legalSet lists) : Addrs).toList.dropWhile fun node =>
            (t.children (node :: nodePath)).isEmpty :=
      List.takeWhile_append_dropWhile.symm
    change Program.Stops Faulty (List.forM
      ((nodesOf t nodePath false).filter (· ∉ legalSet lists) : Addrs).toList rmLegal).run t s
    rw [hsplit, forM_append]
    exact Ok.bind_stops (fun _ _ _ _ => Or.inl) hrun (.here _ _)
  · obtain ⟨hold, hall⟩ := (hs _).mp hnode
    exact ⟨hold, fun hmem => hall node hmem rfl⟩

end Gap

/-- At every point where `legal_cmp` may end, the indices that were published and are wanted
are published, exactly if each has a child that is not removed. -/
theorem legalCmp_keeps_published_iff (t : Tree) (lists : Lists) :
    (∀ s, Program.Stops Faulty (legalCmp lists).run t s → ∀ idx, (∃ node, Publishes t node idx) →
      Wanted lists idx → ∃ node, Publishes s node idx) ↔
      ¬ Numbered lists ∨ ∀ idx, (∃ node, Publishes t node idx) → Wanted lists idx →
        ∃ node, Publishes t node idx ∧ node ∉ removable t lists := by
  constructor
  · intro h
    by_cases numbered : Numbered lists
    · right
      intro idx published wanted
      have ⟨node, hnode, _⟩ := published
      obtain ⟨s, hstop, hgap⟩ := legalCmp_gap numbered (Tree.mem_parent hnode)
      obtain ⟨other, hother, hread⟩ := h s hstop idx published wanted
      obtain ⟨hold, hkept⟩ := hgap other hother
      exact ⟨other, ⟨hold, hread⟩, hkept⟩
    · exact Or.inl numbered
  · rintro (unnumbered | kept) s hstop idx published wanted
    · have hsame : s = t := (legalCmp_unnumbered unnumbered).stops hstop
      rw [hsame]
      exact published
    · obtain ⟨node, ⟨hnode, hread⟩, hkept⟩ := kept idx published wanted
      have hspared : Spared t lists s := (legalCmp_spares t lists).stops hstop
      exact ⟨node, hspared node hnode hkept, hread⟩

/-! A cluster of two addresses whose master changes. -/

/-- The published child of a cluster whose list changes. -/
def republishTree : Tree :=
  Tree.empty.plant [(nodePath, none), ("1;1.0.0.1:80;1.0.0.2:80".toList :: nodePath, none)]

def republishLists : Lists :=
  .ofList [("cluster1".toList, ["1.0.0.2:80".toList, "1.0.0.1:80".toList])]

/-- Between its delete and its create `legal_cmp` may end. -/
theorem republish_gap : ¬ ∀ (t : Tree) (lists : Lists) (s : Tree),
    Program.Stops Faulty (legalCmp lists).run t s → ∀ idx, (∃ node, Publishes t node idx) →
      Wanted lists idx → ∃ node, Publishes s node idx := by
  intro h
  have numbered : Numbered republishLists := by
    rw [numbered_iff]
    decide +kernel
  have hpath : nodePath ∈ republishTree := by decide +kernel
  have hall : ∀ node ∈ republishTree.children nodePath, node ∈ removable republishTree republishLists := by
    decide +kernel
  have hchild : "1;1.0.0.1:80;1.0.0.2:80".toList :: nodePath ∈ republishTree := by decide +kernel
  have hsplit : pathSplit "1;1.0.0.1:80;1.0.0.2:80".toList =
      .ok (1, [("1.0.0.1".toList, 80), ("1.0.0.2".toList, 80)]) := by decide +kernel
  have hwanted : Wanted republishLists 1 :=
    ⟨"cluster1".toList, by decide +kernel, by decide +kernel⟩
  obtain ⟨s, hstop, hgap⟩ := legalCmp_gap numbered hpath
  obtain ⟨node, hnode, _⟩ := h _ _ s hstop 1 ⟨_, hchild, _, hsplit⟩ hwanted
  obtain ⟨hold, hkept⟩ := hgap node hnode
  exact hkept (hall node (Tree.mem_children.mpr hold))

/-! ## What the clients decode -/

/-- A child comes apart at its semicolons, also at those inside of addresses. -/
theorem splitOn_legalNode (idx : Int) (addrs : List Str) :
    (legalNode idx addrs).splitOn ';' = Text.decimal idx :: addrs.flatMap (·.splitOn ';') := by
  have fold : ∀ (cls : Str), (addrs.foldl (fun cls addr => cls ++ ';' :: addr) cls).splitOn ';' =
      cls.splitOn ';' ++ addrs.flatMap (·.splitOn ';') := by
    induction addrs with
    | nil => simp
    | cons addr addrs ih =>
      intro cls
      rw [List.foldl_cons, ih, List.splitOn_append_cons_self, List.flatMap_cons, List.append_assoc]
  have hplain : ';' ∉ Text.decimal idx := Text.not_mem_decimal idx (by decide) (by decide)
  rw [legalNode, fold, List.splitOn_eq_singleton hplain]
  rfl

theorem splitOn_length_pos (text : Str) : 1 ≤ (text.splitOn ';').length :=
  List.length_pos_iff.mpr (List.splitOn_ne_nil _ _)

/-- Splitting keeps the number of addresses only where no address has a semicolon. -/
theorem flatMap_splitOn_length {addrs : List Str} :
    addrs.length ≤ (addrs.flatMap (·.splitOn ';')).length ∧
      ((addrs.flatMap (·.splitOn ';')).length = addrs.length → ∀ a ∈ addrs, ';' ∉ a) := by
  induction addrs with
  | nil => simp
  | cons addr addrs ih =>
    have hpos := splitOn_length_pos addr
    simp only [List.flatMap_cons, List.length_append, List.length_cons]
    refine ⟨by omega, fun hlength a ha => ?_⟩
    rcases List.mem_cons.mp ha with rfl | ha
    · intro hmem
      obtain ⟨left, right, rfl⟩ := List.append_of_mem hmem
      rw [List.splitOn_append_cons_self, List.length_append] at hlength
      have hleft := splitOn_length_pos left
      have hright := splitOn_length_pos right
      omega
    · exact ih.2 (by omega) a ha

theorem flatMap_splitOn_plain {addrs : List Str} (h : ∀ a ∈ addrs, ';' ∉ a) :
    addrs.flatMap (·.splitOn ';') = addrs := by
  induction addrs with
  | nil => rfl
  | cons addr addrs ih =>
    rw [List.flatMap_cons, List.splitOn_eq_singleton (h addr (by simp)),
      ih fun a ha => h a (by simp [ha])]
    rfl

/-- When `path_split` reads a child, and what it reads. -/
theorem pathSplit_legalNode {idx idx' : Int} {list : List Str} {sp : List (Str × Int)} :
    pathSplit (legalNode idx list) = .ok (idx', sp) ↔
      (-2 ^ 31 ≤ idx ∧ idx ≤ 2 ^ 31 - 1) ∧ idx' = idx ∧ list ≠ [] ∧
        (list.flatMap (·.splitOn ';')).map strIpv4 = sp.map some := by
  rw [pathSplit_ok, splitOn_legalNode]
  constructor
  · rintro ⟨cls, addrs, heq, hne, hcast, hsp⟩
    obtain ⟨rfl, rfl⟩ := List.cons.inj heq
    rw [Text.lexicalCast_decimal] at hcast
    split at hcast
    · next hrange =>
      cases hcast
      refine ⟨hrange, rfl, ?_, hsp⟩
      rintro rfl
      exact hne rfl
    · cases hcast
  · rintro ⟨hrange, rfl, hne, hsp⟩
    refine ⟨_, _, rfl, ?_, by rw [Text.lexicalCast_decimal, if_pos hrange], hsp⟩
    intro hnil
    have hlength : list.length ≤ (list.flatMap (·.splitOn ';')).length := flatMap_splitOn_length.1
    rw [hnil] at hlength
    exact hne (List.length_eq_zero_iff.mp (Nat.le_zero.mp hlength))

/-- What a check publishes for a cluster: the addresses that answer, or the least address if
none does. -/
def PublishedAddr (cfgs : Clusters) (answers : StrMap) (c addr : Str) : Prop :=
  ∃ addrs, cfgs[c]? = some addrs ∧ addr ∈ addrs ∧
    (addr ∈ answers ∨ ((∀ a ∈ addrs, a ∉ answers) ∧ ∀ a ∈ addrs, (compare addr a).isLE))

/-- The lists that a check computed, and the children it left. -/
structure ListsPublished (cfgs : Clusters) (answers : StrMap) (lists : Lists) (t : Tree) : Prop where
  keys : ∀ c, c ∈ lists ↔ c ∈ cfgs
  nonempty : ∀ (c : Str) (list : List Str), lists[c]? = some list → list ≠ []
  addrs : ∀ (c : Str) (list : List Str), lists[c]? = some list →
    ∀ a, a ∈ list ↔ PublishedAddr cfgs answers c a
  children : ∀ node, node :: nodePath ∈ t ↔ ∃ (c : Str) (list : List Str),
    lists[c]? = some list ∧ node = legalNode (cutIdx clusterPrefix c) list

/-- The list that `gen_legal_redis` makes of a cluster holds what the check publishes. -/
theorem legalList_addrs {cfgs : Clusters} {answers : StrMap} {errs : Clusters} {c : Str}
    {addrs : Addrs} {rds : StrMap} {list : List Str} (hc : cfgs[c]? = some addrs)
    (hpartition : Partition cfgs answers t) (hlegal : LegalList answers errs c rds list)
    (hnodes : ∀ d n, rds[d]? = some n ↔ HasData t (n :: c :: checkPath) d)
    (herrs : ∀ nodes, errs[c]? = some nodes → ∀ a, a ∈ nodes ↔ a :: c :: errPath ∈ t) :
    list ≠ [] ∧ ∀ a, a ∈ list ↔ PublishedAddr cfgs answers c a := by
  have listed : ∀ a, a ∈ addrs → a ∈ answers → ∃ n, (a, n) ∈ sortRedis rds := by
    intro a ha hans
    obtain ⟨n, hn, _⟩ := hpartition.checkUnique c addrs hc a ha hans
    exact ⟨n, mem_sortRedis.mpr ((hnodes a n).mpr hn)⟩
  have healthy : ∀ entry ∈ sortRedis rds, entry.1 ∈ addrs ∧ entry.1 ∈ answers := by
    intro entry hentry
    have hd := (hnodes _ _).mp (mem_sortRedis.mp hentry)
    obtain ⟨a, ha, hmem, hans⟩ := hpartition.checkData c addrs hc _ hd.mem
    obtain rfl := ha.unique hd
    exact ⟨hmem, hans⟩
  cases hlegal with
  | ranked hne _ =>
    refine ⟨by simpa using hne, fun a => ?_⟩
    obtain ⟨entry, hentry⟩ := List.exists_mem_of_ne_nil _ hne
    rw [List.mem_map]
    constructor
    · rintro ⟨entry, hmem, rfl⟩
      obtain ⟨ha, hans⟩ := healthy entry hmem
      exact ⟨addrs, hc, ha, Or.inl hans⟩
    · rintro ⟨addrs', hc', ha, hans | ⟨hnone, _⟩⟩
      · rw [hc] at hc'
        cases hc'
        obtain ⟨n, hn⟩ := listed a ha hans
        exact ⟨(a, n), hn, rfl⟩
      · rw [hc] at hc'
        cases hc'
        exact absurd (healthy entry hentry).2 (hnone _ (healthy entry hentry).1)
  | standby hnone known least =>
    rename_i addr nodes rest
    have sick : ∀ a ∈ addrs, a ∉ answers := by
      intro a ha hans
      obtain ⟨n, hn⟩ := listed a ha hans
      rw [hnone] at hn
      cases hn
    have same : ∀ a, a ∈ nodes ↔ a ∈ addrs := by
      intro a
      rw [herrs nodes known, hpartition.errorNodes c addrs hc]
      exact ⟨fun h => h.1, fun h => ⟨h, sick a h⟩⟩
    have hleast : ∀ a ∈ addrs, (compare addr a).isLE := fun a ha =>
      Ordered.head_least least a ((same a).mpr ha)
    have hmem : addr ∈ addrs := by
      rw [← same, ← Std.ExtTreeSet.mem_toList, least]
      exact List.mem_cons_self
    refine ⟨by simp, fun a => ?_⟩
    rw [List.mem_singleton]
    constructor
    · rintro rfl
      exact ⟨addrs, hc, hmem, Or.inr ⟨sick, hleast⟩⟩
    · rintro ⟨addrs', hc', ha, hans | ⟨_, hle⟩⟩
      · rw [hc] at hc'
        cases hc'
        exact absurd hans (sick a ha)
      · rw [hc] at hc'
        cases hc'
        exact Std.LawfulEqOrd.compare_eq_iff_eq.mp
          (Std.OrientedCmp.isLE_antisymm (hle addr hmem) (hleast a ha))

theorem locked_published {net : Network} {start finish : Tree} {legal : Legal}
    (run : LockedRun net start legal finish) (filed : Filed run.cfgs start) :
    ListsPublished run.cfgs (answers net run.cfgs) legal.clusterLegalRedis finish := by
  have hpartition := locked_partition run filed
  obtain ⟨chks, _, s, hread, _, hlisted, hpublished⟩ := (genLegalRedis_ok run.publish).steps
  have keys : ∀ c, c ∈ legal.clusterLegalRedis ↔ c ∈ run.cfgs := by
    intro c
    rw [hlisted.keys, hread.keys, (failed_partition run filed).1.checkClusters]
  have lists : ∀ (c : Str) (list : List Str), legal.clusterLegalRedis[c]? = some list →
      list ≠ [] ∧ ∀ a, a ∈ list ↔ PublishedAddr run.cfgs (answers net run.cfgs) c a := by
    intro c list hlist
    have hc := (keys c).mp (Ordered.mem_iff_getElem?.mpr ⟨list, hlist⟩)
    obtain ⟨addrs, haddrs⟩ := Ordered.mem_iff_getElem?.mp hc
    obtain ⟨rds, errs, list', hlist', hlegal, hnodes, herrs⟩ := listed_nodes run filed hc
    rw [hlist] at hlist'
    cases hlist'
    exact legalList_addrs haddrs hpartition hlegal hnodes herrs
  refine ⟨keys, fun c list h => (lists c list h).1, fun c list h => (lists c list h).2, ?_⟩
  intro node
  rw [hpublished.children, mem_legalSet]
  intro node hnode hslash
  obtain ⟨c, list, hlist, rfl⟩ := mem_legalSet.mp hnode
  rcases mem_legalNode hslash with h | h | ⟨a, ha, h⟩
  · exact Text.not_mem_decimal _ (by decide) (by decide) h
  · cases h
  · obtain ⟨addrs, hc, hmem, _⟩ := ((lists c list hlist).2 a).mp ha
    exact (config_name run.config hc hmem).2 h

/-- After a check that ends well the children of `legal_nodes` are its lists, one for each
configured cluster. -/
theorem check_published {zkh : Option Nat} {net : Network} {t t' : Tree} {legal : Legal}
    (filed : Filed (configured t) t) (success : Ok serve (check zkh net) t legal t') :
    ListsPublished (configured t) (answers net (configured t)) legal.clusterLegalRedis t' := by
  obtain ⟨s, s', hprepared, hlocked, hsame⟩ := check_ok success
  obtain ⟨run⟩ := checkLocked_ok hlocked
  have hcfgs : run.cfgs = configured t :=
    ConfigOf.unique run.config (config_same hprepared.same (configOf_configured t))
  have hlists := locked_published run (filedBelow hprepared.same (hcfgs ▸ filed))
  rw [hcfgs] at hlists
  refine ⟨hlists.keys, hlists.nonempty, hlists.addrs, fun node => ?_⟩
  rw [hsame.mem_iff (below_cons (by simp [nodePath]) (by simp [nodePath, lockPath])),
    hlists.children]

/-- What `master_kept` says of the computed lists shows in the children of `legal_nodes`: the one
of the cluster names the same master after both checks. -/
theorem published_master_kept {t₁ t₂ t₃ t₄ : Tree} {zkh₁ zkh₂ : Option Nat} {net₁ net₂ : Network}
    {legal₁ legal₂ : Legal} {c m : Str} {rest : List Str} {addrs : Addrs}
    (nodes : ControllerNodes t₁) (first : Ok serve (check zkh₁ net₁) t₁ legal₁ t₂)
    (published : legal₁.clusterLegalRedis[c]? = some (m :: rest))
    (checked : ∃ n, n :: c :: checkPath ∈ t₂) (change : Reconfigured t₂ t₃)
    (second : Ok serve (check zkh₂ net₂) t₃ legal₂ t₄)
    (home : (configured t₃)[c]? = some addrs) (member : m ∈ addrs)
    (healthy : m ∈ answers net₂ (configured t₃)) :
    legalNode (cutIdx clusterPrefix c) (m :: rest) :: nodePath ∈ t₂ ∧
      ∃ rest', legalNode (cutIdx clusterPrefix c) (m :: rest') :: nodePath ∈ t₄ := by
  have nodes₃ := reconfigured_nodes change (check_nodes nodes first)
  obtain ⟨rest', kept⟩ := master_kept nodes first published checked change second home member healthy
  have before := check_published (filed_of_check nodes.fresh first) first
  have after := check_published (filed_of_check nodes₃.fresh second) second
  exact ⟨(before.children _).mpr ⟨c, _, published, rfl⟩, rest',
    (after.children _).mpr ⟨c, _, kept, rfl⟩⟩

/-- What clients read is one entry for every configured cluster, with the computed list. -/
structure DecodesTo (cfgs : Clusters) (lists : Lists) (ends : Ends) : Prop where
  entries : ∀ idx ∈ ends, ∃! c, c ∈ cfgs ∧ cutIdx clusterPrefix c = idx
  lists : ∀ c ∈ cfgs, ∃ list addrs, lists[c]? = some list ∧
    ends[cutIdx clusterPrefix c]? = some addrs ∧ list.map strIpv4 = addrs.map some

/-- The condition under which the children can be read back. -/
structure Decodable (cfgs : Clusters) (answers : StrMap) : Prop where
  inRange : ∀ c ∈ cfgs, -2 ^ 31 ≤ cutIdx clusterPrefix c ∧ cutIdx clusterPrefix c ≤ 2 ^ 31 - 1
  distinct : ∀ c ∈ cfgs, ∀ d ∈ cfgs, cutIdx clusterPrefix c = cutIdx clusterPrefix d → c = d
  plain : ∀ c addr, PublishedAddr cfgs answers c addr → ';' ∉ addr

section Decode
variable {cfgs : Clusters} {answers : StrMap} {children : List Str} {ends : Ends}
  (published : ListsPublished cfgs answers lists t)
  (all : children.Perm (t.children nodePath))
include published all

theorem mem_published {node : Str} : node ∈ children ↔ ∃ (c : Str) (list : List Str),
    lists[c]? = some list ∧ node = legalNode (cutIdx clusterPrefix c) list := by
  rw [all.mem_iff, Tree.mem_children, published.children]

omit all in
theorem published_list {c : Str} (hc : c ∈ cfgs) : ∃ list, lists[c]? = some list :=
  Ordered.mem_iff_getElem?.mp ((published.keys c).mpr hc)

/-- Children that can be decoded come out as the lists. -/
theorem decodes_of_decodable (valid : ∀ c addr, PublishedAddr cfgs answers c addr → isvalidAddr addr)
    (good : Decodable cfgs answers) :
    ∃ ends, nodeEnds children = .ok ends ∧ DecodesTo cfgs lists ends := by
  have split : ∀ (c : Str) (list : List Str), lists[c]? = some list →
      ∃ sp, list.map strIpv4 = sp.map some ∧
        ∀ idx sp', pathSplit (legalNode (cutIdx clusterPrefix c) list) = .ok (idx, sp') ↔
          idx = cutIdx clusterPrefix c ∧ sp' = sp := by
    intro c list hlist
    have hc := (published.keys c).mp (Ordered.mem_iff_getElem?.mpr ⟨list, hlist⟩)
    have haddrs := published.addrs c list hlist
    have hplain := flatMap_splitOn_plain fun a ha => good.plain c a ((haddrs a).mp ha)
    have hvalid : ∀ a ∈ list, ∃ pair, strIpv4 a = some pair := fun a ha =>
      Option.isSome_iff_exists.mp (valid c a ((haddrs a).mp ha))
    obtain ⟨sp, hsp⟩ : ∃ sp : List (Str × Int), list.map strIpv4 = sp.map some := by
      clear haddrs hplain hlist
      induction list with
      | nil => exact ⟨[], rfl⟩
      | cons a list ih =>
        obtain ⟨pair, hpair⟩ := hvalid a (by simp)
        obtain ⟨sp, hsp⟩ := ih fun b hb => hvalid b (by simp [hb])
        exact ⟨pair :: sp, by rw [List.map_cons, hpair, hsp, List.map_cons]⟩
    refine ⟨sp, hsp, fun idx sp' => ?_⟩
    rw [pathSplit_legalNode, hplain, hsp]
    have hinj : sp.map some = sp'.map some ↔ sp' = sp := by
      rw [(List.map_injective_iff.mpr (Option.some_injective _)).eq_iff, eq_comm]
    rw [hinj]
    exact ⟨fun h => ⟨h.2.1, h.2.2.2⟩,
      fun h => ⟨good.inRange c hc, h.1, published.nonempty c list hlist, h.2⟩⟩
  obtain ⟨ends, hends⟩ : ∃ ends, nodeEnds children = .ok ends := by
    apply nodeEnds_total
    intro chd hchd
    obtain ⟨c, list, hlist, rfl⟩ := (mem_published published all).mp hchd
    obtain ⟨sp, _, hsplit⟩ := split c list hlist
    exact ⟨_, sp, (hsplit _ _).mpr ⟨rfl, rfl⟩⟩
  have hread := nodeEnds_ok hends
  refine ⟨ends, hends, fun idx hidx => ?_, fun c hc => ?_⟩
  · obtain ⟨sp, hsp⟩ := Ordered.mem_iff_getElem?.mp hidx
    obtain ⟨chd, hchd, hsplit'⟩ := hread.values idx sp hsp
    obtain ⟨c, list, hlist, rfl⟩ := (mem_published published all).mp hchd
    obtain ⟨_, _, hsplit⟩ := split c list hlist
    obtain ⟨rfl, _⟩ := (hsplit _ _).mp hsplit'
    have hc := (published.keys c).mp (Ordered.mem_iff_getElem?.mpr ⟨list, hlist⟩)
    exact ⟨c, ⟨hc, rfl⟩, fun d hd => good.distinct d hd.1 c hc hd.2⟩
  · obtain ⟨list, hlist⟩ := published_list published hc
    obtain ⟨sp, hsp, hsplit⟩ := split c list hlist
    have hchd := (mem_published published all).mpr ⟨c, list, hlist, rfl⟩
    have hmem := hread.keys _ hchd _ _ ((hsplit _ _).mpr ⟨rfl, rfl⟩)
    obtain ⟨sp', hsp'⟩ := Ordered.mem_iff_getElem?.mp hmem
    obtain ⟨chd, hchd', hsplit'⟩ := hread.values _ sp' hsp'
    obtain ⟨d, list', hlist', rfl⟩ := (mem_published published all).mp hchd'
    obtain ⟨sp'', hsp'', hsplit''⟩ := split d list' hlist'
    obtain ⟨hidx, rfl⟩ := (hsplit'' _ _).mp hsplit'
    have hd := (published.keys d).mp (Ordered.mem_iff_getElem?.mpr ⟨list', hlist'⟩)
    obtain rfl := good.distinct c hc d hd hidx
    rw [hlist] at hlist'
    cases hlist'
    exact ⟨list, sp', hlist, hsp', hsp''⟩

/-- Lists that come out were decodable: the `int`s, the numbers and the semicolons are read off the
entries. -/
theorem decodable_of_decodes (hends : nodeEnds children = .ok ends)
    (decodes : DecodesTo cfgs lists ends) : Decodable cfgs answers := by
  have hread := nodeEnds_ok hends
  have child : ∀ c ∈ cfgs, ∃ list sp, lists[c]? = some list ∧
      pathSplit (legalNode (cutIdx clusterPrefix c) list) = .ok (cutIdx clusterPrefix c, sp) := by
    intro c hc
    obtain ⟨list, hlist⟩ := published_list published hc
    obtain ⟨idx, sp, hsplit⟩ :=
      hread.good _ ((mem_published published all).mpr ⟨c, list, hlist, rfl⟩)
    obtain ⟨_, rfl, _⟩ := pathSplit_legalNode.mp hsplit
    exact ⟨list, sp, hlist, hsplit⟩
  have distinct : ∀ c ∈ cfgs, ∀ d ∈ cfgs,
      cutIdx clusterPrefix c = cutIdx clusterPrefix d → c = d := by
    intro c hc d hd hidx
    obtain ⟨list, sp, hlist, hsplit⟩ := child c hc
    have hmem := hread.keys _ ((mem_published published all).mpr ⟨c, list, hlist, rfl⟩) _ _ hsplit
    exact (decodes.entries _ hmem).unique ⟨hc, rfl⟩ ⟨hd, hidx.symm⟩
  refine ⟨fun c hc => ?_, distinct, fun c addr haddr => ?_⟩
  · obtain ⟨list, sp, _, hsplit⟩ := child c hc
    exact (pathSplit_legalNode.mp hsplit).1
  · have ⟨addrs, hcfg, _⟩ := haddr
    have hc : c ∈ cfgs := Ordered.mem_iff_getElem?.mpr ⟨addrs, hcfg⟩
    obtain ⟨list, sp, hlist, hsp, hmap⟩ := decodes.lists c hc
    obtain ⟨chd, hchd, hsplit⟩ := hread.values _ sp hsp
    obtain ⟨d, list', hlist', rfl⟩ := (mem_published published all).mp hchd
    obtain ⟨_, hidx, _, htokens⟩ := pathSplit_legalNode.mp hsplit
    have hd := (published.keys d).mp (Ordered.mem_iff_getElem?.mpr ⟨list', hlist'⟩)
    obtain rfl := distinct c hc d hd hidx
    rw [hlist] at hlist'
    cases hlist'
    have hlength := congrArg List.length (htokens.trans hmap.symm)
    rw [List.length_map, List.length_map] at hlength
    exact flatMap_splitOn_length.2 hlength addr ((published.addrs c list hlist addr).mpr haddr)

end Decode

/-- After a check that ends well clients read exactly the computed lists, in whatever order the
children come, exactly if the numbers are different `int`s and no published address has a semicolon.
The check nodes are as ZooKeeper numbers them (`Filed`, by `filed_of_check`); where they are not, an
address that is not configured may be published too. -/
theorem published_decodes_iff (zkh : Option Nat) (net : Network) (t t' : Tree) (legal : Legal)
    (filed : Filed (configured t) t) (success : Ok serve (check zkh net) t legal t') :
    (∀ children, children.Perm (t'.children nodePath) → ∃ ends, nodeEnds children = .ok ends ∧
      DecodesTo (configured t) legal.clusterLegalRedis ends) ↔
      Decodable (configured t) (answers net (configured t)) := by
  have published := check_published filed success
  constructor
  · intro h
    obtain ⟨ends, hends, decodes⟩ := h _ (.refl _)
    exact decodable_of_decodes published (.refl _) hends decodes
  · intro good children all
    refine decodes_of_decodable published all ?_ good
    rintro c addr ⟨addrs, hc, haddr, _⟩
    exact (config_mem (configOf_configured t) hc haddr).2

/-! A cluster whose number is a `long` but no `int`. -/

/-- A cluster whose number is a `long` and no `int`. -/
def longIndexTree : Tree :=
  Tree.empty.plant [(cfgPath, none), ("cluster3000000000".toList :: cfgPath, none),
    ("1.0.0.1:80".toList :: "cluster3000000000".toList :: cfgPath, none)]

/-- The client fails on the number of the cluster. -/
theorem long_index_not_decoded : ¬ ∀ (zkh : Option Nat) (net : Network) (t t' : Tree)
    (legal : Legal), SequenceFresh t → Ok serve (check zkh net) t legal t' →
      ∀ children, children.Perm (t'.children nodePath) → ∃ ends, nodeEnds children = .ok ends ∧
        DecodesTo (configured t) legal.clusterLegalRedis ends := by
  intro h
  have hends : endsWith serve (check (some 1) exampleNet) longIndexTree
      (fun _ t' => ¬ (nodeEnds (t'.children nodePath)).isOk) = true := by
    decide +kernel
  have hcheck : checkPath ∉ longIndexTree := by decide +kernel
  obtain ⟨legal, t', hrun, hbad⟩ := endsWith_iff.mp hends
  obtain ⟨ends, hread, _⟩ := h _ _ _ _ _ (freshWithoutChecks hcheck) hrun _ (.refl _)
  simp [hread, Except.isOk, Except.toBool] at hbad

/-- Where every cluster has one number and no address a semicolon, what is published can be read
back. -/
theorem decodable_cluster1 {t : Tree} (keys : (configured t).keys = ["cluster1".toList])
    (plain : ∀ entry ∈ (configured t).toList, ∀ a ∈ entry.2.toList, ';' ∉ a) (answers : StrMap) :
    Decodable (configured t) answers := by
  have only : ∀ c ∈ configured t, c = "cluster1".toList := by
    intro c hc
    rw [← Std.ExtTreeMap.mem_keys, keys] at hc
    exact List.mem_singleton.mp hc
  constructor
  · intro c hc
    rw [only c hc]
    decide +kernel
  · exact fun c hc d hd _ => (only c hc).trans (only d hd).symm
  · rintro c addr ⟨addrs, hc, haddr, _⟩
    exact plain (c, addrs) (Std.ExtTreeMap.mem_toList_iff_getElem?_eq_some.mpr hc) addr
      (Std.ExtTreeSet.mem_toList.mpr haddr)

/-- The troubled tree is published and read. -/
theorem published_decodes_example : ∃ legal t ends,
    Ok serve (check (some 1) exampleNet) troubledTree legal t ∧
      nodeEnds (t.children nodePath) = .ok ends ∧
      DecodesTo (configured troubledTree) legal.clusterLegalRedis ends := by
  have hends : endsWith serve (check (some 1) exampleNet) troubledTree (fun _ _ => true) = true := by
    decide +kernel
  have good : Decodable (configured troubledTree) (answers exampleNet (configured troubledTree)) :=
    decodable_cluster1 (by decide +kernel) (by decide +kernel) _
  obtain ⟨legal, t, hrun, _⟩ := endsWith_iff.mp hends
  obtain ⟨ends, hread, hdecodes⟩ := (published_decodes_iff (some 1) exampleNet troubledTree t legal
    (filed_of_check fresh_troubledTree hrun) hrun).mpr good _ (.refl _)
  exact ⟨legal, t, ends, hrun, hread, hdecodes⟩

end RedisCluster.Guarantees
