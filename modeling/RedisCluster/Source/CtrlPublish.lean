import Mathlib.Data.List.Pairwise
import RedisCluster.Source.CtrlPasses

/-!
# Effects of setup and publication

The parts of `check` around the passes: the base nodes and the lock, the lists that
`gen_legal_redis` computes, and the children of `legal_nodes` that `legal_cmp` leaves.
-/

set_option autoImplicit false

namespace RedisCluster.Source
open Library Routine ZkCall

variable {t t' s s' : Tree}

/-! ## Setup and lock -/

/-- Not a base node, nor in the lock's branch. -/
def Below (q : Path) : Prop := ∃ name path, q = name :: path ∧ path ≠ [] ∧ path ≠ lockPath

/-- The two trees agree on what lies below the base nodes. -/
structure SameBelow (t t' : Tree) : Prop where
  get : ∀ q, Below q → t'.get q = t.get q
  counter : ∀ q, Below q → t'.counter q = t.counter q

theorem SameBelow.refl (t : Tree) : SameBelow t t := ⟨fun _ _ => rfl, fun _ _ => rfl⟩

theorem SameBelow.trans {t'' : Tree} (h : SameBelow t t') (h' : SameBelow t' t'') :
    SameBelow t t'' where
  get q hq := (h'.get q hq).trans (h.get q hq)
  counter q hq := (h'.counter q hq).trans (h.counter q hq)

theorem SameBelow.symm (h : SameBelow t t') : SameBelow t' t where
  get q hq := (h.get q hq).symm
  counter q hq := (h.counter q hq).symm

theorem SameBelow.mem_iff (h : SameBelow t t') {q : Path} (hq : Below q) : q ∈ t' ↔ q ∈ t := by
  rw [Tree.mem_iff, Tree.mem_iff, h.get q hq]

theorem below_cons {name : Str} {path : Path} (hpath : path ≠ []) (hlock : path ≠ lockPath) :
    Below (name :: path) :=
  ⟨name, path, rfl, hpath, hlock⟩

/-- Creating a base node or the lock node is not seen below the branches. -/
theorem SameBelow.of_created {name : Str} {path : Path} {data : Option Str} {mode : CreateMode}
    (hmode : mode ≠ .sequence) (hname : ¬ Below (name :: path)) (hpath : ¬ Below path)
    (h : t.Created name path data mode t') : SameBelow t t' := by
  have hcreated : t.createdName name path mode = name := by
    cases mode with
    | sequence => exact absurd rfl hmode
    | persistent => rfl
    | ephemeral _ => rfl
  have hne : ∀ q, Below q → q ≠ t.createdName name path mode :: path := by
    rintro q hq rfl
    rw [hcreated] at hq
    exact hname hq
  constructor
  · intro q hq
    rw [h.get, if_neg (hne q hq)]
  · intro q hq
    rw [h.counter, if_neg (hne q hq), if_neg]
    rintro rfl
    exact hpath hq

theorem not_below_base {name : Str} : ¬ Below [name] := by
  rintro ⟨n, path, h, hne, _⟩
  simp only [List.cons.injEq] at h
  exact hne h.2.symm

theorem not_below_lockNode : ¬ Below lockNode := by
  rintro ⟨n, path, h, _, hne⟩
  simp only [lockNode, List.cons.injEq] at h
  exact hne h.2.symm

theorem nodeExist_ok {path : Path} {rv : Nat} (h : Ok serve (nodeExist path) t rv t') :
    t' = t ∧ (rv = if path ∈ t then 0 else 1) := by
  unfold nodeExist at h
  obtain ⟨r, s, hask, hmatch⟩ := ok_bind.mp h
  have hserve := ok_ask.mp hask
  rw [serve] at hserve
  obtain ⟨rfl, rfl⟩ := Prod.mk.inj hserve
  by_cases hpath : path ∈ t
  · simp only [if_pos hpath] at hmatch ⊢
    obtain ⟨rfl, rfl⟩ := ok_pure.mp hmatch
    exact ⟨rfl, rfl⟩
  · simp only [if_neg hpath] at hmatch ⊢
    obtain ⟨rfl, rfl⟩ := ok_pure.mp hmatch
    exact ⟨rfl, rfl⟩

/-- The base node exists afterwards, and nothing below the base nodes changed. -/
theorem checkAddCreate_ok {name : Str} {u : Unit}
    (h : Ok serve (checkAddCreate [name] .persistent []) t u t') :
    [name] ∈ t' ∧ SameBelow t t' ∧ ∀ q ∈ t, q ∈ t' := by
  unfold checkAddCreate at h
  obtain ⟨rv, s, hexist, hmatch⟩ := ok_bind.mp h
  obtain ⟨rfl, hrv⟩ := nodeExist_ok hexist
  by_cases hname : [name] ∈ s
  · rw [if_pos hname] at hrv
    subst hrv
    obtain ⟨_, rfl⟩ := ok_pure.mp hmatch
    exact ⟨hname, SameBelow.refl _, fun _ h => h⟩
  · rw [if_neg hname] at hrv
    subst hrv
    obtain ⟨truePath, s₁, hcreate, hexist'⟩ := ok_bind.mp hmatch
    obtain ⟨rfl, hcreated⟩ := Tree.create_ok (createNode_ok.mp (orReturn_ok.mp hcreate))
    obtain ⟨rv', s₂, hexist', hend⟩ := ok_bind.mp hexist'
    obtain ⟨rfl, hrv'⟩ := nodeExist_ok hexist'
    have hmem : [s.createdName name [] .persistent] ∈ s₂ := (hcreated.mem_iff _).mpr (Or.inl rfl)
    rw [if_pos hmem] at hrv'
    subst hrv'
    obtain ⟨_, rfl⟩ := ok_pure.mp hend
    refine ⟨hmem, SameBelow.of_created (by simp) not_below_base ?_ hcreated, fun q hq => ?_⟩
    · rintro ⟨_, _, h, _⟩
      cases h
    · exact (hcreated.mem_iff q).mpr (Or.inr hq)

/-- The base nodes of the controller. -/
def basePaths : List Path := [lockPath, cfgPath, errPath, checkPath, nodePath]

/-- After `init_path_check` every base node is there, and nothing below the branches has changed. -/
structure Prepared (t t' : Tree) : Prop where
  base : ∀ q ∈ basePaths, q ∈ t'
  same : SameBelow t t'

theorem initPathCheck_ok {u : Unit} (h : Ok serve initPathCheck t u t') : Prepared t t' := by
  unfold initPathCheck at h
  obtain ⟨_, t₁, h₁, h⟩ := ok_bind.mp h
  obtain ⟨_, t₂, h₂, h⟩ := ok_bind.mp h
  obtain ⟨_, t₃, h₃, h⟩ := ok_bind.mp h
  obtain ⟨_, t₄, h₄, h₅⟩ := ok_bind.mp h
  obtain ⟨hlock, hsame₁, -⟩ := checkAddCreate_ok (orReturn_ok.mp h₁)
  obtain ⟨hcfg, hsame₂, hkeep₂⟩ := checkAddCreate_ok (orReturn_ok.mp h₂)
  obtain ⟨herr, hsame₃, hkeep₃⟩ := checkAddCreate_ok (orReturn_ok.mp h₃)
  obtain ⟨hcheck, hsame₄, hkeep₄⟩ := checkAddCreate_ok (orReturn_ok.mp h₄)
  obtain ⟨hnode, hsame₅, hkeep₅⟩ := checkAddCreate_ok (orReturn_ok.mp h₅)
  refine ⟨?_, (((hsame₁.trans hsame₂).trans hsame₃).trans hsame₄).trans hsame₅⟩
  intro q hq
  simp only [basePaths, List.mem_cons, List.not_mem_nil, or_false] at hq
  rcases hq with rfl | rfl | rfl | rfl | rfl
  · exact hkeep₅ _ (hkeep₄ _ (hkeep₃ _ (hkeep₂ _ hlock)))
  · exact hkeep₅ _ (hkeep₄ _ (hkeep₃ _ hcfg))
  · exact hkeep₅ _ (hkeep₄ _ herr)
  · exact hkeep₅ _ hcheck
  · exact hnode

/-- `get_lock` creates the lock node or leaves the tree as it is. -/
theorem getLock_ok {session : Nat} {locked : Bool} (h : Ok serve (getLock session) t locked t') :
    SameBelow t t' ∧ ∀ q ∈ t, q ∈ t' := by
  unfold getLock at h
  obtain ⟨r, s, hask, hmatch⟩ := ok_bind.mp h
  have hserve := ok_ask.mp hask
  rw [serve] at hserve
  cases hcreate : t.create lockNode none (.ephemeral session) with
  | ok result =>
    obtain ⟨q, s'⟩ := result
    rw [hcreate] at hserve
    obtain ⟨rfl, rfl⟩ := Prod.mk.inj hserve
    obtain ⟨_, rfl⟩ := ok_pure.mp hmatch
    obtain ⟨_, hcreated⟩ := Tree.create_ok hcreate
    exact ⟨SameBelow.of_created (by simp) not_below_lockNode not_below_base hcreated,
      fun q hq => (hcreated.mem_iff q).mpr (Or.inr hq)⟩
  | error e =>
    rw [hcreate] at hserve
    obtain ⟨rfl, rfl⟩ := Prod.mk.inj hserve
    obtain ⟨_, rfl⟩ := ok_pure.mp hmatch
    exact ⟨SameBelow.refl _, fun _ hq => hq⟩

/-- `free_lock` deletes the lock node at most. -/
theorem freeLock_ok {u : Unit} (h : Ok serve freeLock t u t') : SameBelow t t' := by
  unfold freeLock at h
  obtain ⟨r, s, hask, hpure⟩ := ok_bind.mp h
  obtain ⟨_, rfl⟩ := ok_pure.mp hpure
  have hserve := ok_ask.mp hask
  rw [serve] at hserve
  cases hdelete : t.delete lockNode with
  | ok s' =>
    rw [hdelete] at hserve
    obtain ⟨_, rfl⟩ := Prod.mk.inj hserve
    have hdeleted := Tree.delete_ok hdelete
    have hkept : ∀ q, Below q → q ≠ lockNode := by
      rintro q hq rfl
      exact not_below_lockNode hq
    exact ⟨fun q hq => (hdeleted.pruned.kept q (hkept q hq)).1,
      fun q hq => (hdeleted.pruned.kept q (hkept q hq)).2⟩
  | error e =>
    rw [hdelete] at hserve
    obtain ⟨_, rfl⟩ := Prod.mk.inj hserve
    exact SameBelow.refl _

/-- The steps of a check that ends well. -/
theorem check_steps {zkh : Option Nat} {net : Network} {legal : Legal}
    (h : Ok serve (check zkh net) t legal t') :
    ∃ session t₁ t₂ t₃, zkh = some session ∧ Ok serve initPathCheck t () t₁ ∧
      Ok serve (getLock session) t₁ true t₂ ∧ Ok serve (checkLocked net) t₂ legal t₃ ∧
        Ok serve freeLock t₃ () t' := by
  unfold check at h
  cases zkh with
  | none => exact absurd h ok_throw
  | some session =>
    obtain ⟨_, t₁, hinit, h⟩ := ok_bind.mp h
    obtain ⟨locked, t₂, hlock, h⟩ := ok_bind.mp h
    cases locked with
    | false => exact absurd h ok_throw
    | true =>
      obtain ⟨r, t₃, hlocked, h⟩ := ok_bind.mp h
      have hlift : Program.run serve (checkLocked net).run t₂ = (r, t₃) := by
        simpa [Routine.Ok, Prod.ext_iff] using hlocked
      cases r with
      | ok result =>
        obtain ⟨_, t₄, hfree, hpure⟩ := ok_bind.mp h
        obtain ⟨rfl, rfl⟩ := ok_pure.mp hpure
        exact ⟨session, t₁, t₂, t₃, rfl, hinit, hlock, hlift, hfree⟩
      | error halt =>
        cases halt with
        | lengthError => exact absurd h ok_throw
        | rv code =>
          obtain ⟨_, t₄, hfree, hthrow⟩ := ok_bind.mp h
          exact absurd hthrow ok_throw
        | noHandle =>
          obtain ⟨_, t₄, hfree, hthrow⟩ := ok_bind.mp h
          exact absurd hthrow ok_throw
        | noLock =>
          obtain ⟨_, t₄, hfree, hthrow⟩ := ok_bind.mp h
          exact absurd hthrow ok_throw

/-- A check that ends well is a locked check between setup and release. -/
theorem check_ok {zkh : Option Nat} {net : Network} {legal : Legal}
    (h : Ok serve (check zkh net) t legal t') :
    ∃ s s', Prepared t s ∧ Ok serve (checkLocked net) s legal s' ∧ SameBelow s' t' := by
  obtain ⟨session, t₁, t₂, t₃, _, hinit, hlock, hlocked, hfree⟩ := check_steps h
  have hprepared := initPathCheck_ok hinit
  obtain ⟨hsame, hkeep⟩ := getLock_ok hlock
  exact ⟨t₂, t₃, ⟨fun q hq => hkeep q (hprepared.base q hq), hprepared.same.trans hsame⟩, hlocked,
    freeLock_ok hfree⟩

/-! ## The lists of gen_legal_redis -/

theorem sortRedis_perm (rds : StrMap) : (sortRedis rds).Perm rds.toList :=
  List.perm_insertionSort _ _

theorem mem_sortRedis {rds : StrMap} {entry : Str × Str} :
    entry ∈ sortRedis rds ↔ rds[entry.1]? = some entry.2 := by
  rw [(sortRedis_perm rds).mem_iff]
  exact Std.ExtTreeMap.mem_toList_iff_getElem?_eq_some

instance : Std.Total sortRdsSeqFun where
  total a b := by
    unfold sortRdsSeqFun
    rw [Std.OrientedOrd.eq_swap (a := b.2)]
    cases compare a.2 b.2 <;> simp

instance : IsTrans (Str × Str) sortRdsSeqFun where
  trans _ _ _ := Std.TransOrd.isLE_trans

/-- The redis of a cluster come in the order of the names of their check nodes. -/
theorem sortRedis_sorted (rds : StrMap) : (sortRedis rds).Pairwise sortRdsSeqFun :=
  List.pairwise_insertionSort _ _

/-- The first redis has the least check node. -/
theorem sortRedis_head {rds : StrMap} {first entry : Str × Str} {rest : List (Str × Str)}
    (h : sortRedis rds = first :: rest) (hentry : entry ∈ sortRedis rds) :
    (compare first.2 entry.2).isLE := by
  have sorted := sortRedis_sorted rds
  rw [h] at sorted hentry
  rcases List.mem_cons.mp hentry with rfl | hrest
  · rw [Std.ReflOrd.compare_self]
    rfl
  · exact List.rel_of_pairwise_cons sorted hrest

/-- What `gen_legal_redis` lists for a cluster: its checked addresses in name order, or the
least address in error if none is checked. -/
inductive LegalList (cfgs : StrMap) (errs : Clusters) (cluster : Str) (rds : StrMap) :
    List Str → Prop where
  | ranked (some : sortRedis rds ≠ []) (answers : ∀ entry ∈ sortRedis rds, entry.1 ∈ cfgs) :
    LegalList cfgs errs cluster rds ((sortRedis rds).map Prod.fst)
  | standby {addr : Str} {addrs : Addrs} {rest : List Str} (none : sortRedis rds = [])
    (known : errs[cluster]? = .some addrs) (least : addrs.toList = addr :: rest) :
    LegalList cfgs errs cluster rds [addr]

/-- Commands are made only where every redis of the cluster has answered. -/
theorem slaveofCmds_ok {cfgs cmds cmds' : StrMap} {master : Str} {first : Bool}
    {seqs : List (Str × Str)} (h : slaveofCmds cfgs master first cmds seqs = .ok cmds') :
    ∀ entry ∈ seqs, entry.1 ∈ cfgs := by
  induction seqs generalizing first cmds with
  | nil => simp
  | cons entry seqs ih =>
    obtain ⟨rds, seq⟩ := entry
    dsimp only [slaveofCmds] at h
    cases hget : cfgs[rds]? with
    | none => rw [hget] at h; cases h
    | some cfg =>
      rw [hget] at h
      have hrest : ∀ entry ∈ seqs, entry.1 ∈ cfgs := by
        cases first <;> simp only [reduceIte, Bool.false_eq_true] at h
        all_goals
          split at h
          · exact ih h
          · split at h
            · cases h
            · exact ih h
      intro entry hentry
      rcases List.mem_cons.mp hentry with rfl | hentry
      · exact Ordered.mem_iff_getElem?.mpr ⟨cfg, hget⟩
      · exact hrest entry hentry

/-- One cluster of `gen_legal_redis` gets one list: its redis in order, or one of its error nodes.
-/
theorem genCluster_ok {cfgs : StrMap} {errs : Clusters} {legal legal' : Legal} {cluster : Str}
    {rds : StrMap} (h : genCluster cfgs errs legal (cluster, rds) = .ok legal') :
    ∃ list, legal'.clusterLegalRedis = legal.clusterLegalRedis.insert cluster list ∧
      LegalList cfgs errs cluster rds list := by
  unfold genCluster at h
  cases hsort : sortRedis rds with
  | nil =>
    simp only [hsort] at h
    cases herrs : errs[cluster]? with
    | none => simp [herrs] at h
    | some addrs =>
      rw [herrs, Option.map_some] at h
      cases hleast : addrs.toList with
      | nil => rw [hleast] at h; cases h
      | cons addr rest =>
        rw [hleast] at h
        cases h
        exact ⟨[addr], rfl, .standby hsort herrs hleast⟩
  | cons entry seqs =>
    obtain ⟨master, seq⟩ := entry
    simp only [hsort] at h
    cases hcmds : slaveofCmds cfgs master true legal.cmds ((master, seq) :: seqs) with
    | error e => rw [hcmds] at h; cases h
    | ok cmds =>
      rw [hcmds] at h
      cases h
      refine ⟨master :: seqs.map Prod.fst, rfl, ?_⟩
      have hlist : LegalList cfgs errs cluster rds ((sortRedis rds).map Prod.fst) := by
        apply LegalList.ranked
        · simp [hsort]
        · rw [hsort]
          exact slaveofCmds_ok hcmds
      rw [hsort] at hlist
      exact hlist

/-- Every cluster read from check gets its list, and no other. -/
structure Listed (cfgs : StrMap) (errs : Clusters) (chks : Checks)
    (lists : Std.ExtTreeMap Str (List Str)) : Prop where
  keys : ∀ c, c ∈ lists ↔ c ∈ chks
  list : ∀ c list, lists[c]? = some list →
    ∃ rds, chks[c]? = some rds ∧ LegalList cfgs errs c rds list

/-- The lists of `gen_legal_redis` are one for each cluster of the table. -/
theorem genClusters_ok {cfgs : StrMap} {errs : Clusters} {chks : Checks} {legal : Legal}
    (h : chks.toList.foldlM (genCluster cfgs errs) ⟨∅, ∅⟩ = .ok legal) :
    Listed cfgs errs chks legal.clusterLegalRedis := by
  have hend : (∀ c, c ∈ legal.clusterLegalRedis ↔ c ∈ chks.toList.map Prod.fst) ∧
      ∀ c list, legal.clusterLegalRedis[c]? = some list →
        ∃ rds, chks[c]? = some rds ∧ LegalList cfgs errs c rds list := by
    refine foldlM_except_ok (fun visited legal =>
      (∀ c, c ∈ legal.clusterLegalRedis ↔ c ∈ visited.map Prod.fst) ∧
        ∀ c list, legal.clusterLegalRedis[c]? = some list →
          ∃ rds, chks[c]? = some rds ∧ LegalList cfgs errs c rds list) h ⟨by simp, by simp⟩ ?_
    rintro visited ⟨cluster, rds⟩ rest hsplit acc acc' hstep ⟨hkeys, hlists⟩
    obtain ⟨hget, _⟩ := Ordered.visiting hsplit
    obtain ⟨list, hinsert, hlist⟩ := genCluster_ok hstep
    rw [hinsert]
    refine ⟨fun c => ?_, fun c list' hc => ?_⟩
    · rw [Ordered.mem_insert_map, hkeys c, List.map_append, List.mem_append, or_comm]
      simp
    · rw [Ordered.getElem?_insert] at hc
      split at hc
      · next heq =>
        subst heq
        cases hc
        exact ⟨rds, hget, hlist⟩
      · exact hlists c list' hc
  refine ⟨fun c => ?_, hend.2⟩
  rw [hend.1 c, Std.ExtTreeMap.map_fst_toList_eq_keys, Std.ExtTreeMap.mem_keys]

/-! ## legal_cmp -/

/-- The set `legal_redis` of `legal_cmp`. -/
def legalSet (lists : Std.ExtTreeMap Str (List Str)) : Addrs :=
  lists.toList.foldl (fun legal entry => legal.insert (legalNode (cutIdx clusterPrefix entry.1) entry.2)) ∅

theorem mem_legalSet {lists : Std.ExtTreeMap Str (List Str)} {node : Str} :
    node ∈ legalSet lists ↔ ∃ cluster list, lists[cluster]? = some list ∧
      node = legalNode (cutIdx clusterPrefix cluster) list := by
  have fold : ∀ (entries : List (Str × List Str)) (legal : Addrs),
      node ∈ entries.foldl (fun legal entry =>
        legal.insert (legalNode (cutIdx clusterPrefix entry.1) entry.2)) legal ↔
        node ∈ legal ∨ ∃ entry ∈ entries, node = legalNode (cutIdx clusterPrefix entry.1) entry.2 := by
    intro entries
    induction entries with
    | nil => simp
    | cons entry entries ih =>
      intro legal
      rw [List.foldl_cons, ih, Ordered.mem_insert]
      simp [or_assoc, or_left_comm]
  rw [legalSet, fold]
  simp

/-- The characters of a child of `legal_nodes`. -/
theorem mem_legalNode {idx : Int} {list : List Str} {ch : Char} (h : ch ∈ legalNode idx list) :
    ch ∈ Text.decimal idx ∨ ch = ';' ∨ ∃ a ∈ list, ch ∈ a := by
  have fold : ∀ (list : List Str) (cls : Str),
      ch ∈ list.foldl (fun cls addr => cls ++ ';' :: addr) cls →
        ch ∈ cls ∨ ch = ';' ∨ ∃ a ∈ list, ch ∈ a := by
    intro list
    induction list with
    | nil => exact fun _ h => Or.inl h
    | cons addr list ih =>
      intro cls h
      rcases ih _ h with h | h | ⟨a, ha, h⟩
      · simp only [List.mem_append, List.mem_cons] at h
        rcases h with h | h | h
        · exact Or.inl h
        · exact Or.inr (Or.inl h)
        · exact Or.inr (Or.inr ⟨addr, by simp, h⟩)
      · exact Or.inr (Or.inl h)
      · exact Or.inr (Or.inr ⟨a, by simp [ha], h⟩)
  exact fold list _ h

/-- Building the set makes no call; a cluster name without a number ends it. -/
theorem foldlM_addLegalNode (entries : List (Str × List Str)) (legal : Addrs) :
    entries.foldlM addLegalNode legal =
      if ∃ entry ∈ entries, cutIdx clusterPrefix entry.1 = -1 then throw (.rv 1)
      else pure (entries.foldl (fun legal entry =>
        legal.insert (legalNode (cutIdx clusterPrefix entry.1) entry.2)) legal) := by
  induction entries generalizing legal with
  | nil => simp
  | cons entry entries ih =>
    rw [List.foldlM_cons, addLegalNode]
    by_cases hidx : cutIdx clusterPrefix entry.1 = -1
    · rw [if_pos hidx, if_pos ⟨entry, by simp, hidx⟩]
      rfl
    · rw [if_neg hidx, pure_bind, ih]
      simp only [List.mem_cons, exists_eq_or_imp, hidx, false_or, List.foldl_cons]

/-- Every cluster of the new set has a number. -/
def Numbered (lists : Std.ExtTreeMap Str (List Str)) : Prop :=
  ∀ cluster ∈ lists, cutIdx clusterPrefix cluster ≠ -1

theorem numbered_iff {lists : Std.ExtTreeMap Str (List Str)} :
    Numbered lists ↔ ¬ ∃ entry ∈ lists.toList, cutIdx clusterPrefix entry.1 = -1 := by
  constructor
  · rintro h ⟨⟨cluster, list⟩, hentry, hidx⟩
    rw [Std.ExtTreeMap.mem_toList_iff_getElem?_eq_some] at hentry
    exact h cluster (Ordered.mem_iff_getElem?.mpr ⟨list, hentry⟩) hidx
  · intro h cluster hcluster hidx
    obtain ⟨list, hget⟩ := Ordered.mem_iff_getElem?.mp hcluster
    exact h ⟨(cluster, list), Std.ExtTreeMap.mem_toList_iff_getElem?_eq_some.mpr hget, hidx⟩

/-- Outside the branch of `legal_nodes` the trees agree. -/
def SameOutside (t t' : Tree) : Prop :=
  ∀ q, ¬ nodePath <:+ q → t'.get q = t.get q ∧ t'.counter q = t.counter q

theorem not_in_branch {base : Str} {q : Path} (h : q.getLast? ≠ some base) : ¬ [base] <:+ q := by
  rintro ⟨names, rfl⟩
  exact h (List.getLast?_concat)

/-- One child more, and nothing beside it. -/
theorem addLegal_ok {node : Str} {u : Unit} (h : Ok serve (addLegal node) s u s') :
    SameOutside s s' ∧ (∀ q ∈ s, q ∈ s') ∧
      ('/' ∉ node → node :: nodePath ∈ s' ∧
        ∀ name, name :: nodePath ∈ s' → name = node ∨ name :: nodePath ∈ s) := by
  obtain ⟨q, hcreate⟩ := create_unit.mp h
  obtain ⟨name, names, hpath⟩ := Path.slash_eq nodePath node
  rw [hpath] at hcreate
  obtain ⟨_, hcreated⟩ := Tree.create_ok hcreate
  have hname : s.createdName name (names ++ nodePath) .persistent = name := rfl
  refine ⟨fun q hq => ?_, fun q hq => (hcreated.mem_iff q).mpr (Or.inr hq), fun hslash => ?_⟩
  · have hself : q ≠ s.createdName name (names ++ nodePath) .persistent :: (names ++ nodePath) := by
      rintro rfl
      exact hq ⟨name :: names, rfl⟩
    have hparent : q ≠ names ++ nodePath := by
      rintro rfl
      exact hq ⟨names, rfl⟩
    rw [hcreated.get, hcreated.counter, if_neg hself, if_neg hself, if_neg hparent]
    exact ⟨rfl, rfl⟩
  · rw [Path.slash_name hslash] at hpath
    obtain ⟨rfl, hrest⟩ := List.cons.inj hpath
    have hmem := hcreated.mem_iff
    rw [hname, ← hrest] at hmem
    refine ⟨(hmem _).mpr (Or.inl rfl), fun other hother => ?_⟩
    rcases (hmem _).mp hother with heq | hold
    · exact Or.inl (List.cons.inj heq).1
    · exact Or.inr hold

/-- The children of `legal_nodes` are the wanted ones afterwards, as long as none of them has a
slash, and nothing outside of it has changed. -/
structure Published (lists : Std.ExtTreeMap Str (List Str)) (t t' : Tree) : Prop where
  numbered : Numbered lists
  same : SameOutside t t'
  children : (∀ node ∈ legalSet lists, '/' ∉ node) →
    ∀ node, node :: nodePath ∈ t' ↔ node ∈ legalSet lists

theorem mem_filter_addrs {s : Addrs} {f : Str → Bool} {a : Str} :
    a ∈ s.filter f ↔ a ∈ s ∧ f a := by
  rw [← Std.ExtTreeSet.mem_toList, Std.ExtTreeSet.toList_filter, List.mem_filter,
    Std.ExtTreeSet.mem_toList]

/-- A `legal_cmp` that succeeds has published exactly the lists. -/
theorem legalCmp_ok {lists : Std.ExtTreeMap Str (List Str)} {u : Unit}
    (h : Ok serve (legalCmp lists) t u t') : Published lists t t' := by
  unfold legalCmp at h
  obtain ⟨befRds, t₀, hread, h⟩ := ok_bind.mp h
  obtain ⟨_, rfl, rfl⟩ := getNodes_ok.mp (orReturn_ok.mp hread)
  obtain ⟨legal, t₁, hlegal, h⟩ := ok_bind.mp h
  rw [foldlM_addLegalNode] at hlegal
  split at hlegal
  · exact absurd hlegal ok_throw
  · next hnumbered =>
    obtain ⟨hset, rfl⟩ := ok_pure.mp hlegal
    have hlegal : legal = legalSet lists := hset.symm
    subst hlegal
    obtain ⟨_, s, hrms, hadds⟩ := ok_bind.mp h
    have hpruned := forM_pruned (fun node _ _ _ hrun =>
      (Tree.delete_ok (deleteNode_ok.mp (orReturn_ok.mp hrun))).pruned) hrms
    refine ⟨numbered_iff.mpr hnumbered, ?_, ?_⟩
    · have hadded : SameOutside s t' := by
        refine hadds.forM (fun _ s₁ => SameOutside s s₁) (fun _ _ => ⟨rfl, rfl⟩) ?_
        intro visited node rest _ s₁ s₂ hrun hsame q hq
        have hstep := (addLegal_ok hrun).1 q hq
        exact ⟨hstep.1.trans (hsame q hq).1, hstep.2.trans (hsame q hq).2⟩
      intro q hq
      have hkept : ¬ ∃ node ∈ ((nodesOf t₀ nodePath false).filter
          (· ∉ legalSet lists) : Addrs).toList, q = node :: nodePath := by
        rintro ⟨node, _, rfl⟩
        exact hq ⟨[node], rfl⟩
      have hold := hpruned.kept q hkept
      have hnew := hadded q hq
      exact ⟨hnew.1.trans hold.1, hnew.2.trans hold.2⟩
    · intro hslash
      have hleft : ∀ name, name :: nodePath ∈ s ↔
          name :: nodePath ∈ t₀ ∧ name ∈ legalSet lists := by
        intro name
        by_cases hr : ∃ node ∈ ((nodesOf t₀ nodePath false).filter
            (· ∉ legalSet lists) : Addrs).toList, name :: nodePath = node :: nodePath
        · refine ⟨fun hmem => absurd hmem (hpruned.gone _ hr), fun hmem => ?_⟩
          obtain ⟨node, hnode, heq⟩ := hr
          cases heq
          rw [Std.ExtTreeSet.mem_toList, mem_filter_addrs] at hnode
          exact absurd hmem.2 (by simpa using hnode.2)
        · rw [Tree.mem_iff, (hpruned.kept _ hr).1, ← Tree.mem_iff]
          refine ⟨fun hmem => ⟨hmem, ?_⟩, fun hmem => hmem.1⟩
          by_contra hout
          refine hr ⟨name, ?_, rfl⟩
          rw [Std.ExtTreeSet.mem_toList, mem_filter_addrs, mem_nodesOf]
          exact ⟨⟨hmem, by simp⟩, by simpa using hout⟩
      have hadded : ∀ name, name :: nodePath ∈ t' ↔ name :: nodePath ∈ s ∨
          name ∈ ((legalSet lists).filter (· ∉ nodesOf t₀ nodePath false) : Addrs).toList := by
        refine hadds.forM (fun visited s₁ =>
          ∀ name, name :: nodePath ∈ s₁ ↔ name :: nodePath ∈ s ∨ name ∈ visited) (by simp) ?_
        intro visited node rest hsplit s₁ s₂ hrun hloop name
        have hnode : node ∈ legalSet lists := by
          have hmem := (Ordered.visiting_set hsplit).1
          exact (mem_filter_addrs.mp hmem).1
        obtain ⟨_, hkeep, hcreated⟩ := addLegal_ok hrun
        obtain ⟨hself, honly⟩ := hcreated (hslash node hnode)
        rw [List.mem_append, List.mem_singleton, ← or_assoc, ← hloop name]
        constructor
        · intro hmem
          exact (honly name hmem).symm
        · rintro (hmem | rfl)
          · exact hkeep _ hmem
          · exact hself
      intro name
      rw [hadded name, hleft name, Std.ExtTreeSet.mem_toList, mem_filter_addrs]
      simp only [mem_nodesOf, Bool.false_eq_true, false_implies, and_true, decide_not,
        Bool.not_eq_true', decide_eq_false_iff_not]
      tauto

/-- What is left of a `gen_legal_redis` that succeeds: the table it read, the lists and what is
published. -/
structure Generated (cfgs : StrMap) (legal : Legal) (t t' : Tree) : Prop where
  steps : ∃ chks errs s, CheckRead t checkPath (fun c => c :: checkPath ∈ t) chks s ∧
    (∀ c, errs[c]? = clusterEntry s errPath false c) ∧
    Listed cfgs errs chks legal.clusterLegalRedis ∧ Published legal.clusterLegalRedis s t'

theorem ok_liftExcept {α : Type} {e : Except Halt α} {value : α} :
    Ok serve (liftM e : Ctl α) t value t' ↔ e = .ok value ∧ t = t' := by
  have hrun : (liftM e : Ctl α).run = pure e := by
    cases e <;> rfl
  simp [Routine.Ok, hrun]

/-- What a run that ends well read and computed. -/
theorem genLegalRedis_steps {cfgs : StrMap} {legal : Legal}
    (h : Ok serve (genLegalRedis cfgs) t legal t') :
    ∃ chks errs s, Ok serve (getCheck checkPath) t chks s ∧
      (∀ c, errs[c]? = clusterEntry s errPath false c) ∧
      chks.toList.foldlM (genCluster cfgs errs) ⟨∅, ∅⟩ = .ok legal ∧
      Published legal.clusterLegalRedis s t' := by
  unfold genLegalRedis at h
  obtain ⟨chks, s, hread, h⟩ := ok_bind.mp h
  obtain ⟨errs, s₁, herrs, h⟩ := ok_bind.mp h
  obtain ⟨legal', s₂, hlegal, h⟩ := ok_bind.mp h
  obtain ⟨_, s₃, hcmp, hpure⟩ := ok_bind.mp h
  obtain ⟨rfl, rfl⟩ := ok_pure.mp hpure
  obtain ⟨_, rfl, herrs⟩ := getClusterNode_ok.mp (orReturn_ok.mp herrs)
  obtain ⟨hlists, rfl⟩ := ok_liftExcept.mp hlegal
  exact ⟨chks, errs, s₁, orReturn_ok.mp hread, herrs, hlists, legalCmp_ok (orReturn_ok.mp hcmp)⟩

theorem genLegalRedis_ok {cfgs : StrMap} {legal : Legal}
    (h : Ok serve (genLegalRedis cfgs) t legal t') : Generated cfgs legal t t' := by
  obtain ⟨chks, errs, s, hread, herrs, hlists, hpublished⟩ := genLegalRedis_steps h
  exact ⟨chks, errs, s, (getCheck_ok hread).2, herrs, genClusters_ok hlists, hpublished⟩

/-! ## The configuration -/

/-- No address is configured twice. -/
def SingleHome (cfgs : Clusters) : Prop :=
  ∀ (c d : Str) (nodes nodes' : Addrs) (addr : Str), cfgs[c]? = some nodes → cfgs[d]? = some nodes' → addr ∈ nodes →
    addr ∈ nodes' → c = d

theorem foldlM_addSingle {addrs : List Str} {single : Addrs} :
    (∃ result, Ok serve (addrs.foldlM addSingle single) t result t') ↔
      t = t' ∧ addrs.Nodup ∧ ∀ a ∈ addrs, a ∉ single := by
  induction addrs generalizing single with
  | nil => simp
  | cons addr addrs ih =>
    simp only [ok_foldlM_cons]
    by_cases hseen : addr ∈ single
    · constructor
      · rintro ⟨result, acc, s, hstep, _⟩
        rw [addSingle, if_pos hseen] at hstep
        exact absurd hstep ok_throw
      · rintro ⟨_, _, hnew⟩
        exact absurd hseen (hnew addr (by simp))
    · constructor
      · rintro ⟨result, acc, s, hstep, hrest⟩
        rw [addSingle, if_neg hseen] at hstep
        obtain ⟨rfl, rfl⟩ := ok_pure.mp hstep
        obtain ⟨rfl, hnodup, hnew⟩ := ih.mp ⟨result, hrest⟩
        have hfresh : addr ∉ addrs := fun hmem =>
          hnew addr hmem (Ordered.mem_insert.mpr (Or.inl rfl))
        refine ⟨rfl, List.nodup_cons.mpr ⟨hfresh, hnodup⟩, fun a ha hsingle => ?_⟩
        rcases List.mem_cons.mp ha with rfl | ha
        · exact hseen hsingle
        · exact hnew a ha (Ordered.mem_insert.mpr (Or.inr hsingle))
      · rintro ⟨rfl, hnodup, hnew⟩
        obtain ⟨hfresh, hnodup⟩ := List.nodup_cons.mp hnodup
        obtain ⟨result, hrest⟩ := ih.mpr ⟨rfl, hnodup, fun a ha hmem => by
          rcases Ordered.mem_insert.mp hmem with rfl | hmem
          · exact hfresh ha
          · exact hnew a (by simp [ha]) hmem⟩
        refine ⟨result, _, t, ?_, hrest⟩
        rw [addSingle, if_neg hseen]
        exact ok_pure.mpr ⟨rfl, rfl⟩

/-- No address twice is what the loop over all clusters checks. -/
theorem nodup_flatMap_iff {cfgs : Clusters} :
    (cfgs.toList.flatMap fun (_, nodes) => nodes.toList).Nodup ↔ SingleHome cfgs := by
  rw [List.nodup_flatMap]
  constructor
  · rintro ⟨_, hdisjoint⟩ c d nodes nodes' addr hc hd ha ha'
    rw [← Std.ExtTreeMap.mem_toList_iff_getElem?_eq_some] at hc hd
    by_contra hne
    have symmetric : Std.Symm (Function.onFun List.Disjoint fun (entry : Str × Addrs) =>
        entry.2.toList) := ⟨fun _ _ h _ ha hb => h hb ha⟩
    have hpair := List.Pairwise.forall hdisjoint hc hd (fun heq => hne (by cases heq; rfl))
    exact hpair (Std.ExtTreeSet.mem_toList.mpr ha) (Std.ExtTreeSet.mem_toList.mpr ha')
  · intro hsingle
    refine ⟨fun entry _ => Ordered.nodup_toList _, ?_⟩
    have hkeys := Ordered.nodup_keys cfgs
    rw [List.Nodup, List.pairwise_map] at hkeys
    refine List.Pairwise.imp_of_mem ?_ hkeys
    rintro ⟨c, nodes⟩ ⟨d, nodes'⟩ hc hd hne a ha ha'
    rw [Std.ExtTreeMap.mem_toList_iff_getElem?_eq_some] at hc hd
    rw [Std.ExtTreeSet.mem_toList] at ha ha'
    exact hne (hsingle c d nodes nodes' a hc hd ha ha')

/-- The configuration is accepted when no address has two homes. -/
theorem getConfig_ok {path : Path} {cfgs : Clusters} :
    Ok serve (getConfig path) t cfgs t' ↔
      path ∈ t ∧ t' = t ∧ (∀ cluster, cfgs[cluster]? = clusterEntry t path true cluster) ∧
        SingleHome cfgs := by
  unfold getConfig
  rw [ok_bind]
  constructor
  · rintro ⟨cfgs', s, hread, hrest⟩
    obtain ⟨hpath, rfl, hentries⟩ := getClusterNode_ok.mp (orReturn_ok.mp hread)
    obtain ⟨result, s', hsingle, hpure⟩ := ok_bind.mp hrest
    obtain ⟨rfl, rfl⟩ := ok_pure.mp hpure
    obtain ⟨rfl, hnodup, _⟩ := foldlM_addSingle.mp ⟨result, hsingle⟩
    exact ⟨hpath, rfl, hentries, nodup_flatMap_iff.mp hnodup⟩
  · rintro ⟨hpath, rfl, hentries, hsingle⟩
    obtain ⟨result, hrun⟩ : ∃ result, Ok serve
        ((cfgs.toList.flatMap fun (_, nodes) => nodes.toList).foldlM addSingle ∅) t' result t' :=
      foldlM_addSingle.mpr ⟨rfl, nodup_flatMap_iff.mpr hsingle, by simp⟩
    refine ⟨cfgs, t', orReturn_ok.mpr (getClusterNode_ok.mpr ⟨hpath, rfl, hentries⟩), ?_⟩
    rw [ok_bind]
    exact ⟨result, t', hrun, ok_pure.mpr ⟨rfl, rfl⟩⟩

/-! ## The whole locked run -/

/-- What the cleaning passes of a check read, and the trees between them. -/
structure CleanedRun (start : Tree) where
  cfgs : Clusters
  errs : Clusters
  chks : Checks
  read : Tree
  grown : Tree
  errored : Tree
  cleaned : Tree
  config : ∀ c, cfgs[c]? = clusterEntry start cfgPath true c
  single : SingleHome cfgs
  errors : ∀ c, errs[c]? = clusterEntry start errPath false c
  checks : CheckRead start checkPath (fun c => c :: checkPath ∈ start) chks read
  add : Ok serve (logicCheckAdd cfgs errs chks) read ⟨⟩ grown
  errorRm : Ok serve (logicErrorRm cfgs errs) grown ⟨⟩ errored
  checkRm : Ok serve (logicCheckRm cfgs chks) errored ⟨⟩ cleaned

/-- The trees between all the passes of a check that ends well. -/
structure LockedRun (net : Network) (start : Tree) (legal : Legal) (finish : Tree)
    extends CleanedRun start where
  repaired : Tree
  failed : Tree
  repair : Ok serve (checkError (checkRedis net 2 (allAddrs cfgs) ∅)) cleaned ⟨⟩ repaired
  fail : Ok serve (checkCheck (checkRedis net 2 (allAddrs cfgs) ∅)) repaired ⟨⟩ failed
  publish : Ok serve (genLegalRedis (checkRedis net 2 (allAddrs cfgs) ∅)) failed legal finish

/-- A check that ends well under the lock has gone through all of its passes. -/
theorem checkLocked_ok {net : Network} {legal : Legal}
    (h : Ok serve (checkLocked net) t legal t') : Nonempty (LockedRun net t legal t') := by
  unfold checkLocked at h
  obtain ⟨cfgs, t₁, hcfgs, rest⟩ := ok_bind.mp h
  obtain ⟨_, rfl, hconfig, hsingle⟩ := getConfig_ok.mp hcfgs
  obtain ⟨errs, t₂, herrs, rest'⟩ := ok_bind.mp rest
  obtain ⟨_, rfl, herrors⟩ := getClusterNode_ok.mp herrs
  obtain ⟨chks, read, hread, h⟩ := ok_bind.mp rest'
  obtain ⟨_, grown, hadd, h⟩ := ok_bind.mp h
  obtain ⟨_, errored, herrorRm, h⟩ := ok_bind.mp h
  obtain ⟨_, cleaned, hcheckRm, h⟩ := ok_bind.mp h
  obtain ⟨_, repaired, hrepair, h⟩ := ok_bind.mp h
  obtain ⟨_, failed, hfail, hpublish⟩ := ok_bind.mp h
  exact ⟨⟨⟨cfgs, errs, chks, read, grown, errored, cleaned, hconfig, hsingle, herrors,
    (getCheck_ok hread).2, hadd, herrorRm, hcheckRm⟩, repaired, failed, hrepair, hfail, hpublish⟩⟩

end RedisCluster.Source
