import RedisCluster.Source.CtrlCalls

/-!
# Effects of the controller's passes

What each pass of `check` does to the tree when it runs to its end, over whatever
tree it starts from.
-/

set_option autoImplicit false

namespace RedisCluster.Source
open Library Routine ZkCall

variable {t t' s s' : Tree}

/-! ## Deleting passes -/

/-- A loop whose rounds each account for some items accounts for all of them. -/
theorem forM_union {β ι : Type} {f : β → Ctl Unit} {xs : List β} {items : β → ι → Prop} {u : Unit}
    (R : (ι → Prop) → Tree → Tree → Prop) (refl : ∀ t, R (fun _ => False) t t)
    (trans : ∀ p q t t' t'', R p t t' → R q t' t'' → R (fun i => p i ∨ q i) t t'')
    (body : ∀ x ∈ xs, ∀ s s', Ok serve (f x) s ⟨⟩ s' → R (items x) s s')
    (run : Ok serve (xs.forM f) t u t') : R (fun i => ∃ x ∈ xs, items x i) t t' := by
  refine run.forM (fun visited s => R (fun i => ∃ x ∈ visited, items x i) t s) ?_ ?_
  · simpa using refl t
  · intro visited x rest hsplit s₁ s₂ hrun hrel
    have hnext := trans _ _ _ _ _ hrel (body x (by simp [hsplit]) s₁ s₂ hrun)
    simpa [or_and_right, exists_or] using hnext

/-- A loop whose rounds only delete nodes only deletes nodes. -/
theorem forM_pruned {β : Type} {f : β → Ctl Unit} {xs : List β} {removed : β → Path → Prop}
    {u : Unit} (body : ∀ x ∈ xs, ∀ s s', Ok serve (f x) s ⟨⟩ s' → s.Pruned s' (removed x))
    (run : Ok serve (xs.forM f) t u t') : t.Pruned t' fun q => ∃ x ∈ xs, removed x q :=
  forM_union (fun removed t t' => t.Pruned t' removed) Tree.Pruned.refl
    (fun _ _ _ _ _ h h' => h.trans h') body run

/-- A deletion under a condition. -/
theorem deleteIf_pruned {c : Prop} [Decidable c] {name : Str} {path : Path} {code : Nat} {u : Unit}
    (run : Ok serve (if c then orReturn (deleteNode (name :: path)) code else return ()) s u s') :
    s.Pruned s' fun q => c ∧ q = name :: path := by
  split at run
  · next hc =>
    have hdelete := Tree.delete_ok (deleteNode_ok.mp (orReturn_ok.mp run))
    exact hdelete.pruned.congr fun q => by simp [hc]
  · next hc =>
    obtain ⟨_, rfl⟩ := ok_pure.mp run
    exact (Tree.Pruned.refl s).congr fun q => by simp [hc]

/-- The error nodes that `logic_error_rm` deletes for a cluster. -/
def ErrorRemoved (cfgs : Clusters) (cluster : Str) (nodes : Addrs) (q : Path) : Prop :=
  (∃ addr ∈ nodes, notConfigured cfgs[cluster]? addr ∧ q = addr :: cluster :: errPath) ∨
    (cfgs[cluster]? = none ∧ q = cluster :: errPath)

theorem errorRmCluster_ok {cfgs : Clusters} {cluster : Str} {nodes : Addrs} {u : Unit}
    (run : Ok serve (errorRmCluster cfgs (cluster, nodes)) s u s') :
    s.Pruned s' (ErrorRemoved cfgs cluster nodes) := by
  unfold errorRmCluster at run
  obtain ⟨_, s₁, hnodes, hcluster⟩ := ok_bind.mp run
  have hinner := forM_pruned
    (fun addr _ _ _ hrun => deleteIf_pruned hrun) hnodes
  refine (hinner.trans (deleteIf_pruned hcluster)).congr fun q => ?_
  simp [ErrorRemoved]

/-- `logic_error_rm` deletes exactly the error nodes that are not configured, and clusters that are
not. -/
theorem logicErrorRm_ok {cfgs errs : Clusters} {u : Unit}
    (run : Ok serve (logicErrorRm cfgs errs) t u t') :
    t.Pruned t' fun q => ∃ cluster nodes, errs[cluster]? = some nodes ∧
      ErrorRemoved cfgs cluster nodes q := by
  unfold logicErrorRm at run
  refine (forM_pruned (fun entry _ _ _ hrun => errorRmCluster_ok hrun) run).congr fun q => ?_
  simp

/-- The check nodes that `logic_check_rm` deletes for a cluster. -/
def CheckRemoved (cfgs : Clusters) (cluster : Str) (rdis : StrMap) (q : Path) : Prop :=
  (∃ addr node, rdis[addr]? = some node ∧ notConfigured cfgs[cluster]? addr ∧
    q = node :: cluster :: checkPath) ∨ (cfgs[cluster]? = none ∧ q = cluster :: checkPath)

theorem checkRmCluster_ok {cfgs : Clusters} {cluster : Str} {rdis : StrMap} {u : Unit}
    (run : Ok serve (checkRmCluster cfgs (cluster, rdis)) s u s') :
    s.Pruned s' (CheckRemoved cfgs cluster rdis) := by
  unfold checkRmCluster at run
  obtain ⟨_, s₁, hnodes, hcluster⟩ := ok_bind.mp run
  have hinner := forM_pruned
    (fun entry _ _ _ hrun => deleteIf_pruned hrun) hnodes
  refine (hinner.trans (deleteIf_pruned hcluster)).congr fun q => ?_
  simp [CheckRemoved]

/-- `logic_check_rm` deletes exactly the check nodes that its table names for addresses that are not
configured. -/
theorem logicCheckRm_ok {cfgs : Clusters} {chks : Checks} {u : Unit}
    (run : Ok serve (logicCheckRm cfgs chks) t u t') :
    t.Pruned t' fun q => ∃ cluster rdis, chks[cluster]? = some rdis ∧
      CheckRemoved cfgs cluster rdis q := by
  unfold logicCheckRm at run
  refine (forM_pruned (fun entry _ _ _ hrun => checkRmCluster_ok hrun) run).congr fun q => ?_
  simp

/-! ## What only grows -/

/-- The name of the check node with this number. -/
def seqName (k : Nat) : Str := redisPrefix ++ Text.sequenceDigits k

theorem seqName_injective : Function.Injective seqName := fun _ _ h =>
  Text.sequenceDigits_injective (List.append_cancel_left h)

/-- Names that ZooKeeper gives are ordered like their numbers, as all have ten digits. -/
theorem compare_seqName {j k : Nat} (hj : j < 10 ^ 10) (hk : k < 10 ^ 10) :
    compare (seqName j) (seqName k) = compare j k := by
  have hcons : ∀ i, seqName i = 'r' :: Text.sequenceDigits i := fun _ => rfl
  rw [hcons, hcons, List.compare_cons_cons, Std.ReflOrd.compare_self, Ordering.eq_then]
  exact Text.compare_sequenceDigits hj hk

theorem cutIdx_seqName {k : Nat} (h : k < 10 ^ 10) : cutIdx redisPrefix (seqName k) = k := by
  have hafter : Text.afterFirst redisPrefix (seqName k) = some (Text.sequenceDigits k) := by
    simp [seqName, redisPrefix, Text.afterFirst]
  rw [cutIdx, hafter]
  have hcast : Text.lexicalCast (-2 ^ 63) (2 ^ 63 - 1) (Text.sequenceDigits k) = some (k : Int) := by
    rw [Text.lexicalCast, Text.readInt_sequenceDigits, Option.filter_some, if_pos]
    exact decide_eq_true (by omega)
  dsimp only
  rw [hcast, Option.getD_some]

theorem seqName_has_idx {k : Nat} (h : k < 10 ^ 10) : cutIdx redisPrefix (seqName k) ≠ -1 := by
  rw [cutIdx_seqName h]
  omega

/-- The check nodes of a cluster are old ones or have a number of their own. -/
structure Advances (t t' : Tree) (cluster : Str) : Prop where
  counter : t.counter (cluster :: checkPath) ≤ t'.counter (cluster :: checkPath)
  nodes : ∀ n node, t'.get (n :: cluster :: checkPath) = some node →
    t.get (n :: cluster :: checkPath) = some node ∨
      ∃ k, n = seqName k ∧ t.counter (cluster :: checkPath) ≤ k ∧
        k < t'.counter (cluster :: checkPath) ∧ k < 10 ^ 10

theorem Advances.refl (t : Tree) (cluster : Str) : Advances t t cluster where
  counter := Nat.le_refl _
  nodes _ _ h := Or.inl h

theorem Advances.trans {t'' : Tree} {cluster : Str} (h : Advances t t' cluster)
    (h' : Advances t' t'' cluster) : Advances t t'' cluster where
  counter := Nat.le_trans h.counter h'.counter
  nodes n node hget := by
    rcases h'.nodes n node hget with hget | ⟨k, rfl, hle, hlt, hbound⟩
    · rcases h.nodes n node hget with hget | ⟨k, rfl, hle, hlt, hbound⟩
      · exact Or.inl hget
      · exact Or.inr ⟨k, rfl, hle, Nat.lt_of_lt_of_le hlt h'.counter, hbound⟩
    · exact Or.inr ⟨k, rfl, Nat.le_trans h.counter hle, hlt, hbound⟩

theorem Advances.of_same {cluster : Str}
    (hget : ∀ n, t'.get (n :: cluster :: checkPath) = t.get (n :: cluster :: checkPath))
    (hcounter : t'.counter (cluster :: checkPath) = t.counter (cluster :: checkPath)) :
    Advances t t' cluster where
  counter := Nat.le_of_eq hcounter.symm
  nodes n _ h := Or.inl (hget n ▸ h)

/-- Numbers are not given back by deletes. -/
theorem Advances.of_pruned {removed : Path → Prop} {cluster : Str} (h : t.Pruned t' removed)
    (hcluster : ¬ removed (cluster :: checkPath)) : Advances t t' cluster where
  counter := Nat.le_of_eq (h.kept _ hcluster).2.symm
  nodes n node hget := by
    by_cases hr : removed (n :: cluster :: checkPath)
    · exact absurd (Tree.mem_of_get hget) (h.gone _ hr)
    · rw [(h.kept _ hr).1] at hget
      exact Or.inl hget

theorem Advances.of_checkRead {chks : Checks} {cluster : Str}
    (h : CheckRead t checkPath (fun c => c :: checkPath ∈ t) chks t') :
    Advances t t' cluster where
  counter := Nat.le_of_eq (h.outside fun n c heq => by simp at heq).2.symm
  nodes n node hget := Or.inl (h.sub hget)

/-- Every node stays, and every new node is of a known kind. -/
structure Grown (made : Path → Znode → Prop) (t t' : Tree) : Prop where
  kept : ∀ q node, t.get q = some node → t'.get q = some node
  origin : ∀ q node, t'.get q = some node → t.get q = some node ∨ made q node

section Grown
variable {made made' : Path → Znode → Prop}

theorem Grown.refl (t : Tree) : Grown made t t where
  kept _ _ h := h
  origin _ _ h := Or.inl h

theorem Grown.trans {t'' : Tree} (h : Grown made t t') (h' : Grown made t' t'') :
    Grown made t t'' where
  kept q node hget := h'.kept q node (h.kept q node hget)
  origin q node hget := (h'.origin q node hget).elim (h.origin q node) Or.inr

theorem Grown.mono (h : Grown made t t') (hmade : ∀ q node, made q node → made' q node) :
    Grown made' t t' where
  kept := h.kept
  origin q node hget := (h.origin q node hget).imp_right (hmade q node)

theorem Grown.mem (h : Grown made t t') {q : Path} (hq : q ∈ t) : q ∈ t' := by
  obtain ⟨node, hget⟩ := Tree.mem_iff.mp hq
  exact Tree.mem_of_get (h.kept q node hget)

/-- What a node holds stays while nodes are only created. -/
theorem Grown.hasData (h : Grown made t t') {q : Path} {data : Str} (hq : HasData t q data) :
    HasData t' q data := by
  obtain ⟨node, hget, hdata⟩ := hq
  exact ⟨node, h.kept q node hget, hdata⟩

theorem Grown.of_created {name : Str} {path : Path} {data : Option Str} {mode : CreateMode}
    (h : t.Created name path data mode t') :
    Grown (fun q node => q = t.createdName name path mode :: path ∧ node = ⟨data, mode.owner⟩)
      t t' where
  kept q node hget := by
    rw [h.get, if_neg]
    · exact hget
    · rintro rfl
      exact h.fresh (Tree.mem_of_get hget)
  origin q node hget := by
    rw [h.get] at hget
    split at hget
    · next hq => exact Or.inr ⟨hq, (Option.some.inj hget).symm⟩
    · exact Or.inl hget

end Grown

/-! ## Creating one node -/

/-- `if (create_node(path, ..)) return code;` -/
theorem create_unit {path : Path} {mode : CreateMode} {value : Str} {code : Nat} {u : Unit} :
    Ok serve (do let _ ← orReturn (createNode path mode value) code) t u t' ↔
      ∃ q, t.create path (dataOf value) mode = .ok (q, t') := by
  rw [ok_bind]
  constructor
  · rintro ⟨q, s, hcreate, hpure⟩
    obtain ⟨_, rfl⟩ := ok_pure.mp hpure
    exact ⟨q, createNode_ok.mp (orReturn_ok.mp hcreate)⟩
  · rintro ⟨q, hcreate⟩
    exact ⟨q, t', orReturn_ok.mpr (createNode_ok.mpr hcreate), ok_pure.mpr ⟨rfl, rfl⟩⟩

/-- A new check node: its name is the next number, its data the address. -/
structure CheckCreated (t : Tree) (cluster addr : Str) (t' : Tree) : Prop where
  grown : Grown (fun q node => (∃ k, q = seqName k :: cluster :: checkPath) ∧
    node = ⟨dataOf addr, none⟩) t t'
  advances : ∀ c, Advances t t' c
  data : addr ≠ [] → ∃ k, k < 10 ^ 10 ∧ HasData t' (seqName k :: cluster :: checkPath) addr

/-- A check node is created under the next number of its cluster. -/
theorem createCheck_ok {cluster addr : Str} {q : Path}
    (h : t.create (redisPrefix :: cluster :: checkPath) (dataOf addr) .sequence = .ok (q, t')) :
    CheckCreated t cluster addr t' := by
  obtain ⟨_, hcreated⟩ := Tree.create_ok h
  have hname : t.createdName redisPrefix (cluster :: checkPath) .sequence =
      seqName (t.counter (cluster :: checkPath)) := rfl
  have hget := hcreated.get
  have hcounter := hcreated.counter
  rw [hname] at hget hcounter
  refine ⟨?_, ?_, ?_⟩
  · exact (Grown.of_created hcreated).mono fun q node h => ⟨⟨_, h.1⟩, h.2⟩
  · intro c
    have hnext : t'.counter (c :: checkPath) =
        if c = cluster then t.counter (c :: checkPath) + 1 else t.counter (c :: checkPath) := by
      rw [hcounter, if_neg (by simp)]
      by_cases hc : c = cluster
      · subst hc
        simp
      · simp [hc]
    refine ⟨?_, fun n node hnode => ?_⟩
    · rw [hnext]
      split <;> omega
    · rw [hget] at hnode
      split at hnode
      · next heq =>
        cases heq
        refine Or.inr ⟨_, rfl, Nat.le_refl _, ?_, hcreated.numbered rfl⟩
        rw [hnext, if_pos rfl]
        omega
      · exact Or.inl hnode
  · intro haddr
    refine ⟨_, hcreated.numbered rfl, ⟨dataOf addr, none⟩, by rw [hget, if_pos rfl]; rfl, ?_⟩
    exact if_neg haddr

theorem Advances.of_grown {made : Path → Znode → Prop} {cluster : Str} (h : Grown made t t')
    (hmade : ∀ n node, ¬ made (n :: cluster :: checkPath) node)
    (hcounter : t.counter (cluster :: checkPath) ≤ t'.counter (cluster :: checkPath)) :
    Advances t t' cluster where
  counter := hcounter
  nodes n node hget := Or.inl ((h.origin _ _ hget).resolve_right (hmade n node))

/-! ## logic_check_add -/

/-- The node of a cluster is created without data. -/
def BranchMade (path q : Path) (node : Znode) : Prop := q = path ∧ node = ⟨none, none⟩

/-- The node of a cluster is there after it was found missing. -/
theorem addBranch_ok {missing : Bool} {cluster : Str} {tree : Path} {u : Unit}
    (htree : ∀ c, tree ≠ c :: checkPath)
    (run : Ok serve (addBranch missing (cluster :: tree)) s u s') :
    Grown (fun q node => missing ∧ BranchMade (cluster :: tree) q node) s s' ∧
      (missing → cluster :: tree ∈ s') ∧ ∀ c, Advances s s' c := by
  unfold addBranch at run
  split at run
  · next hmissing =>
    obtain ⟨q, hcreate⟩ := create_unit.mp run
    obtain ⟨_, hcreated⟩ := Tree.create_ok hcreate
    have hgrown : Grown (BranchMade (cluster :: tree)) s s' := Grown.of_created hcreated
    refine ⟨hgrown.mono fun q node h => ⟨hmissing, h⟩,
      fun _ => (hcreated.mem_iff _).mpr (Or.inl rfl), fun c => ?_⟩
    refine Advances.of_grown hgrown (fun n node hmade => ?_) ?_
    · exact htree c (List.cons.inj hmade.1).2.symm
    · rw [hcreated.counter]
      split
      · next heq =>
        rw [heq, Tree.counter_of_not_mem hcreated.fresh]
      · split
        · next heq => exact absurd heq.symm (htree c)
        · exact Nat.le_refl _
  · next hmissing =>
    obtain ⟨_, rfl⟩ := ok_pure.mp run
    exact ⟨Grown.refl _, fun h => absurd h hmissing, Advances.refl _⟩

/-- A check node is created for an address of the cluster. -/
def AddressMade (cluster : Str) (wanted : Str → Prop) (q : Path) (node : Znode) : Prop :=
  ∃ addr, wanted addr ∧ (∃ k, q = seqName k :: cluster :: checkPath) ∧ node = ⟨dataOf addr, none⟩

/-- An address gets a check node if it is in neither table. -/
theorem checkAddNode_ok {tmp : Option StrMap} {tmpErr : Option Addrs} {cluster addr : Str} {u : Unit}
    (run : Ok serve (checkAddNode tmp tmpErr cluster addr) s u s') :
    Grown (AddressMade cluster fun a => a = addr ∧ isNew tmp tmpErr addr) s s' ∧
      (isNew tmp tmpErr addr → addr ≠ [] →
        ∃ k, k < 10 ^ 10 ∧ HasData s' (seqName k :: cluster :: checkPath) addr) ∧
      ∀ c, Advances s s' c := by
  unfold checkAddNode at run
  split at run
  · next hnew =>
    obtain ⟨q, hcreate⟩ := create_unit.mp run
    have hcreated := createCheck_ok hcreate
    refine ⟨hcreated.grown.mono fun q node h => ?_, fun _ => hcreated.data, hcreated.advances⟩
    exact ⟨addr, ⟨rfl, hnew⟩, h.1, h.2⟩
  · next hnew =>
    obtain ⟨_, rfl⟩ := ok_pure.mp run
    exact ⟨Grown.refl _, fun h => absurd h hnew, Advances.refl _⟩

/-- A loop that creates nodes for the wanted addresses of a cluster. -/
structure AddressesAdded (cluster : Str) (wanted : Str → Prop) (t t' : Tree) : Prop where
  grown : Grown (AddressMade cluster wanted) t t'
  added : ∀ addr, wanted addr → addr ≠ [] →
    ∃ k, k < 10 ^ 10 ∧ HasData t' (seqName k :: cluster :: checkPath) addr
  advances : ∀ c, Advances t t' c

theorem checkAddNodes_ok {tmp : Option StrMap} {tmpErr : Option Addrs} {cluster : Str}
    {addrs : Addrs} {u : Unit}
    (run : Ok serve (addrs.toList.forM (checkAddNode tmp tmpErr cluster)) s u s') :
    AddressesAdded cluster (fun addr => addr ∈ addrs ∧ isNew tmp tmpErr addr) s s' := by
  have hend : AddressesAdded cluster (fun addr => addr ∈ addrs.toList ∧ isNew tmp tmpErr addr)
      s s' := by
    refine run.forM (fun visited s₁ =>
      AddressesAdded cluster (fun addr => addr ∈ visited ∧ isNew tmp tmpErr addr) s s₁) ?_ ?_
    · exact ⟨Grown.refl _, fun addr h => by simp at h, Advances.refl _⟩
    · intro visited addr rest hsplit s₁ s₂ hrun hadded
      obtain ⟨hgrown, hdata, hadvances⟩ := checkAddNode_ok hrun
      refine ⟨?_, ?_, fun c => (hadded.advances c).trans (hadvances c)⟩
      · refine (hadded.grown.mono fun q node h => ?_).trans (hgrown.mono fun q node h => ?_)
        · obtain ⟨a, ⟨ha, hnew⟩, hrest⟩ := h
          exact ⟨a, ⟨by simp [ha], hnew⟩, hrest⟩
        · obtain ⟨a, ⟨rfl, hnew⟩, hrest⟩ := h
          exact ⟨a, ⟨by simp, hnew⟩, hrest⟩
      · rintro a ⟨ha, hnew⟩ hne
        rcases List.mem_append.mp ha with ha | ha
        · obtain ⟨k, hlt, hk⟩ := hadded.added a ⟨ha, hnew⟩ hne
          exact ⟨k, hlt, hgrown.hasData hk⟩
        · obtain rfl := List.mem_singleton.mp ha
          exact hdata hnew hne
  simpa only [Std.ExtTreeSet.mem_toList] using hend

/-- What `logic_check_add` creates for one cluster. -/
def ClusterMade (errs : Clusters) (chks : Checks) (cluster : Str) (addrs : Addrs) (q : Path)
    (node : Znode) : Prop :=
  (errs[cluster]? = none ∧ BranchMade (cluster :: errPath) q node) ∨
    (chks[cluster]? = none ∧ BranchMade (cluster :: checkPath) q node) ∨
      AddressMade cluster (fun addr => addr ∈ addrs ∧ isNew chks[cluster]? errs[cluster]? addr)
        q node

/-- What the pass has done for a cluster once it has visited it. -/
structure ClusterAdded (errs : Clusters) (chks : Checks) (cluster : Str) (addrs : Addrs)
    (t : Tree) : Prop where
  error : errs[cluster]? = none → cluster :: errPath ∈ t
  check : chks[cluster]? = none → cluster :: checkPath ∈ t
  added : ∀ addr ∈ addrs, isNew chks[cluster]? errs[cluster]? addr → addr ≠ [] →
    ∃ k, k < 10 ^ 10 ∧ HasData t (seqName k :: cluster :: checkPath) addr

theorem ClusterAdded.mono {made : Path → Znode → Prop} {errs : Clusters} {chks : Checks}
    {cluster : Str} {addrs : Addrs} (h : ClusterAdded errs chks cluster addrs t)
    (hgrown : Grown made t t') : ClusterAdded errs chks cluster addrs t' where
  error herr := hgrown.mem (h.error herr)
  check hchk := hgrown.mem (h.check hchk)
  added addr haddr hnew hne := by
    obtain ⟨k, hlt, hk⟩ := h.added addr haddr hnew hne
    exact ⟨k, hlt, hgrown.hasData hk⟩

/-- One cluster of `logic_check_add`: its two branches are there, and every address that was in
neither table has a check node. -/
theorem checkAddCluster_ok {errs : Clusters} {chks : Checks} {cluster : Str} {addrs : Addrs}
    {u : Unit} (run : Ok serve (checkAddCluster errs chks (cluster, addrs)) s u s') :
    Grown (ClusterMade errs chks cluster addrs) s s' ∧ ClusterAdded errs chks cluster addrs s' ∧
      ∀ c, Advances s s' c := by
  unfold checkAddCluster at run
  obtain ⟨_, s₁, herror, run⟩ := ok_bind.mp run
  obtain ⟨_, s₂, hcheck, hnodes⟩ := ok_bind.mp run
  obtain ⟨hgrown₁, hmem₁, hadv₁⟩ := addBranch_ok (fun c => by simp [errPath, checkPath]) herror
  obtain ⟨hgrown₂, hmem₂, hadv₂⟩ := addBranch_ok (fun c => by simp [checkPath]) hcheck
  have hadded := checkAddNodes_ok hnodes
  have hnone : ∀ {β : Type} {o : Option β}, o.isNone = true ↔ o = none := Option.isNone_iff_eq_none
  refine ⟨?_, ⟨?_, ?_, ?_⟩, fun c => ((hadv₁ c).trans (hadv₂ c)).trans (hadded.advances c)⟩
  · refine ((hgrown₁.mono fun q node h => ?_).trans (hgrown₂.mono fun q node h => ?_)).trans
      (hadded.grown.mono fun q node h => ?_)
    · exact Or.inl ⟨hnone.mp h.1, h.2⟩
    · exact Or.inr (Or.inl ⟨hnone.mp h.1, h.2⟩)
    · exact Or.inr (Or.inr h)
  · intro herr
    exact hadded.grown.mem (hgrown₂.mem (hmem₁ (hnone.mpr herr)))
  · intro hchk
    exact hadded.grown.mem (hmem₂ (hnone.mpr hchk))
  · intro addr haddr hnew hne
    exact hadded.added addr ⟨haddr, hnew⟩ hne

/-- What `logic_check_add` creates. -/
def CheckMade (cfgs errs : Clusters) (chks : Checks) (q : Path) (node : Znode) : Prop :=
  ∃ cluster addrs, cfgs[cluster]? = some addrs ∧ ClusterMade errs chks cluster addrs q node

/-- What `logic_check_add` leaves: nodes were created for the configuration only, and every
configured cluster is complete. -/
structure ChecksAdded (cfgs errs : Clusters) (chks : Checks) (t t' : Tree) : Prop where
  grown : Grown (CheckMade cfgs errs chks) t t'
  added : ∀ cluster addrs, cfgs[cluster]? = some addrs →
    ClusterAdded errs chks cluster addrs t'
  advances : ∀ c, Advances t t' c

theorem logicCheckAdd_ok {cfgs errs : Clusters} {chks : Checks} {u : Unit}
    (run : Ok serve (logicCheckAdd cfgs errs chks) t u t') :
    ChecksAdded cfgs errs chks t t' := by
  unfold logicCheckAdd at run
  have hend : Grown (CheckMade cfgs errs chks) t t' ∧ (∀ c, Advances t t' c) ∧
      ∀ entry ∈ cfgs.toList, ClusterAdded errs chks entry.1 entry.2 t' := by
    refine run.forM (fun visited s => Grown (CheckMade cfgs errs chks) t s ∧
      (∀ c, Advances t s c) ∧ ∀ entry ∈ visited, ClusterAdded errs chks entry.1 entry.2 s) ?_ ?_
    · exact ⟨Grown.refl _, Advances.refl _, by simp⟩
    · rintro visited ⟨cluster, addrs⟩ rest hsplit s₁ s₂ hrun ⟨hgrown, hadv, hadded⟩
      obtain ⟨hget, _⟩ := Ordered.visiting hsplit
      obtain ⟨hgrown', hcluster, hadv'⟩ := checkAddCluster_ok hrun
      refine ⟨hgrown.trans (hgrown'.mono fun q node h => ⟨cluster, addrs, hget, h⟩),
        fun c => (hadv c).trans (hadv' c), ?_⟩
      intro entry hentry
      rcases List.mem_append.mp hentry with hentry | hentry
      · exact (hadded entry hentry).mono hgrown'
      · obtain rfl := List.mem_singleton.mp hentry
        exact hcluster
  obtain ⟨hgrown, hadv, hadded⟩ := hend
  refine ⟨hgrown, fun cluster addrs hget => ?_, hadv⟩
  exact hadded (cluster, addrs) (Std.ExtTreeMap.mem_toList_iff_getElem?_eq_some.mpr hget)

/-! ## What moves nodes -/

/-- Some nodes go, some of a known kind come, and the others stay. -/
structure Edited (removed : Path → Prop) (made : Path → Znode → Prop) (t t' : Tree) : Prop where
  kept : ∀ q node, t.get q = some node → ¬ removed q → t'.get q = some node
  origin : ∀ q node, t'.get q = some node → (t.get q = some node ∧ ¬ removed q) ∨ made q node

section Edited
variable {removed removed' : Path → Prop} {made made' : Path → Znode → Prop}

theorem Edited.refl (t : Tree) : Edited (fun _ => False) (fun _ _ => False) t t where
  kept _ _ h _ := h
  origin _ _ h := Or.inl ⟨h, id⟩

/-- What two passes remove and make one after the other. -/
theorem Edited.trans {t'' : Tree} (h : Edited removed made t t')
    (h' : Edited removed' made' t' t'') :
    Edited (fun q => removed q ∨ removed' q) (fun q node => made q node ∨ made' q node) t t'' where
  kept q node hget hr :=
    h'.kept q node (h.kept q node hget fun hq => hr (Or.inl hq)) fun hq => hr (Or.inr hq)
  origin q node hget := by
    rcases h'.origin q node hget with ⟨hget, hr'⟩ | hmade
    · rcases h.origin q node hget with ⟨hget, hr⟩ | hmade
      · exact Or.inl ⟨hget, fun hq => hq.elim hr hr'⟩
      · exact Or.inr (Or.inl hmade)
    · exact Or.inr (Or.inr hmade)

theorem Edited.congr (h : Edited removed made t t') (hr : ∀ q, removed q ↔ removed' q)
    (hm : ∀ q node, made q node ↔ made' q node) : Edited removed' made' t t' where
  kept q node hget hq := h.kept q node hget (mt (hr q).mp hq)
  origin q node hget := by
    rcases h.origin q node hget with ⟨hget, hq⟩ | hmade
    · exact Or.inl ⟨hget, mt (hr q).mpr hq⟩
    · exact Or.inr ((hm q node).mp hmade)

theorem Edited.of_pruned (h : t.Pruned t' removed) : Edited removed (fun _ _ => False) t t' where
  kept q node hget hq := by rwa [(h.kept q hq).1]
  origin q node hget := by
    by_cases hq : removed q
    · exact absurd (Tree.mem_of_get hget) (h.gone q hq)
    · rw [(h.kept q hq).1] at hget
      exact Or.inl ⟨hget, hq⟩

theorem Edited.of_grown (h : Grown made t t') : Edited (fun _ => False) made t t' where
  kept q node hget _ := h.kept q node hget
  origin q node hget := (h.origin q node hget).imp_left fun hget => ⟨hget, id⟩

theorem Edited.hasData (h : Edited removed made t t') {q : Path} {data : Str}
    (hq : HasData t q data) (hr : ¬ removed q) : HasData t' q data := by
  obtain ⟨node, hget, hdata⟩ := hq
  exact ⟨node, h.kept q node hget hr, hdata⟩

theorem Edited.mem (h : Edited removed made t t') {q : Path} (hq : q ∈ t) (hr : ¬ removed q) :
    q ∈ t' := by
  obtain ⟨node, hget⟩ := Tree.mem_iff.mp hq
  exact Tree.mem_of_get (h.kept q node hget hr)

end Edited

/-! ## check_error -/

/-- The addresses in `repaired`, each with its cluster, went back from error to check. -/
structure ErrorsRepaired (repaired : Str × Str → Prop) (t t' : Tree) : Prop where
  edited : Edited (fun q => ∃ c a, repaired (c, a) ∧ q = a :: c :: errPath)
    (fun q node => ∃ c a, repaired (c, a) ∧ (∃ k, q = seqName k :: c :: checkPath) ∧
      node = ⟨dataOf a, none⟩) t t'
  present : ∀ c a, repaired (c, a) → a :: c :: errPath ∈ t
  added : ∀ c a, repaired (c, a) → a ≠ [] → ∃ k, k < 10 ^ 10 ∧ HasData t' (seqName k :: c :: checkPath) a
  advances : ∀ c, Advances t t' c

theorem ErrorsRepaired.refl (t : Tree) : ErrorsRepaired (fun _ => False) t t where
  edited := (Edited.refl t).congr (fun _ => by simp) (fun _ _ => by simp)
  present _ _ h := h.elim
  added _ _ h := h.elim
  advances := Advances.refl t

/-- Repairs of different addresses add up. -/
theorem ErrorsRepaired.trans {t'' : Tree} {first second : Str × Str → Prop}
    (h : ErrorsRepaired first t t') (h' : ErrorsRepaired second t' t'') :
    ErrorsRepaired (fun i => first i ∨ second i) t t'' where
  edited := (h.edited.trans h'.edited).congr (fun q => by simp [or_and_right, exists_or])
    (fun q node => by simp [or_and_right, exists_or])
  present c a hrepaired := by
    rcases hrepaired with hf | hs
    · exact h.present c a hf
    · obtain ⟨node, hget⟩ := Tree.mem_iff.mp (h'.present c a hs)
      rcases h.edited.origin _ _ hget with ⟨hget, _⟩ | ⟨_, _, _, ⟨k, hq⟩, _⟩
      · exact Tree.mem_of_get hget
      · simp [errPath, checkPath] at hq
  added c a hrepaired hne := by
    rcases hrepaired with hf | hs
    · obtain ⟨k, hlt, hk⟩ := h.added c a hf hne
      refine ⟨k, hlt, h'.edited.hasData hk ?_⟩
      simp [errPath, checkPath]
    · exact h'.added c a hs hne
  advances c := (h.advances c).trans (h'.advances c)

/-- An address in error that answers is moved under check. -/
theorem checkErrorNode_ok {cfgs : StrMap} {cluster addr : Str} {u : Unit}
    (run : Ok serve (checkErrorNode cfgs cluster addr) s u s') :
    ErrorsRepaired (fun i => i = (cluster, addr) ∧ addr ∈ cfgs) s s' := by
  unfold checkErrorNode at run
  split at run
  · next haddr =>
    obtain ⟨_, s₁, hdelete, hcreate⟩ := ok_bind.mp run
    have hdeleted := Tree.delete_ok (deleteNode_ok.mp (orReturn_ok.mp hdelete))
    obtain ⟨q, hcreate⟩ := create_unit.mp hcreate
    have hcreated := createCheck_ok hcreate
    refine ⟨?_, ?_, ?_, ?_⟩
    · refine ((Edited.of_pruned hdeleted.pruned).trans (Edited.of_grown hcreated.grown)).congr
        (fun q => ?_) (fun q node => ?_)
      · simp [haddr]
      · simp [haddr]
    · rintro c a ⟨heq, _⟩
      cases heq
      exact hdeleted.mem
    · rintro c a ⟨heq, _⟩ hne
      cases heq
      exact hcreated.data hne
    · intro c
      exact (Advances.of_pruned hdeleted.pruned (by simp [checkPath, errPath])).trans
        (hcreated.advances c)
  · next haddr =>
    obtain ⟨_, rfl⟩ := ok_pure.mp run
    simpa [haddr] using ErrorsRepaired.refl s

/-- An address in error that answers again. -/
def Repaired (t : Tree) (cfgs : StrMap) (i : Str × Str) : Prop :=
  i.2 :: i.1 :: errPath ∈ t ∧ i.2 ∈ cfgs

/-- `check_error` moves exactly the addresses in error that answer. -/
theorem checkError_ok {cfgs : StrMap} {u : Unit} (run : Ok serve (checkError cfgs) t u t') :
    ErrorsRepaired (Repaired t cfgs) t t' := by
  unfold checkError at run
  obtain ⟨errs, s, hread, hloop⟩ := ok_bind.mp run
  obtain ⟨_, rfl, hentries⟩ := getClusterNode_ok.mp (orReturn_ok.mp hread)
  have hclusters := forM_union ErrorsRepaired ErrorsRepaired.refl
    (fun _ _ _ _ _ h h' => h.trans h') (fun entry _ _ _ hrun =>
      forM_union ErrorsRepaired ErrorsRepaired.refl (fun _ _ _ _ _ h h' => h.trans h')
        (fun addr _ _ _ hrun => checkErrorNode_ok hrun) hrun) hloop
  have hsame : (fun i => ∃ entry ∈ errs.toList, ∃ addr ∈ entry.2.toList,
      i = (entry.1, addr) ∧ addr ∈ cfgs) = Repaired s cfgs := by
    funext ⟨cluster, addr⟩
    refine propext ⟨?_, ?_⟩
    · rintro ⟨⟨c, nodes⟩, hentry, a, ha, heq, hcfgs⟩
      cases heq
      rw [Std.ExtTreeMap.mem_toList_iff_getElem?_eq_some, hentries] at hentry
      obtain ⟨_, _, rfl⟩ := clusterEntry_some.mp hentry
      rw [Std.ExtTreeSet.mem_toList, mem_nodesOf] at ha
      exact ⟨ha.1, hcfgs⟩
    · rintro ⟨hmem, hcfgs⟩
      refine ⟨(cluster, nodesOf s (cluster :: errPath) false), ?_, addr, ?_, rfl, hcfgs⟩
      · rw [Std.ExtTreeMap.mem_toList_iff_getElem?_eq_some, hentries, clusterEntry_some]
        exact ⟨Tree.mem_parent hmem, by simp, rfl⟩
      · rw [Std.ExtTreeSet.mem_toList, mem_nodesOf]
        exact ⟨hmem, by simp⟩
  rw [hsame] at hclusters
  exact hclusters

/-! ## check_check -/

/-- A cluster, an address that does not answer, and its check node. -/
abbrev Failure := Str × Str × Str

/-- The failed addresses went from check to error. -/
structure ErrorsSet (failed : Failure → Prop) (t t' : Tree) : Prop where
  edited : Edited (fun q => ∃ c a n, failed (c, a, n) ∧ q = n :: c :: checkPath)
    (fun q node => ∃ c a n, failed (c, a, n) ∧ q = a :: c :: errPath ∧ node = ⟨none, none⟩) t t'
  present : ∀ c a n, failed (c, a, n) → n :: c :: checkPath ∈ t
  fresh : ∀ c a n, failed (c, a, n) → a :: c :: errPath ∉ t
  added : ∀ c a n, failed (c, a, n) → a :: c :: errPath ∈ t'
  advances : ∀ c, Advances t t' c

theorem ErrorsSet.refl (t : Tree) : ErrorsSet (fun _ => False) t t where
  edited := (Edited.refl t).congr (fun _ => by simp) (fun _ _ => by simp)
  present _ _ _ h := h.elim
  fresh _ _ _ h := h.elim
  added _ _ _ h := h.elim
  advances := Advances.refl t

theorem ErrorsSet.trans {t'' : Tree} {first second : Failure → Prop}
    (h : ErrorsSet first t t') (h' : ErrorsSet second t' t'') :
    ErrorsSet (fun i => first i ∨ second i) t t'' where
  edited := (h.edited.trans h'.edited).congr (fun q => by simp [or_and_right, exists_or])
    (fun q node => by simp [or_and_right, exists_or])
  present c a n hfailed := by
    rcases hfailed with hf | hs
    · exact h.present c a n hf
    · obtain ⟨node, hget⟩ := Tree.mem_iff.mp (h'.present c a n hs)
      rcases h.edited.origin _ _ hget with ⟨hget, _⟩ | ⟨_, _, _, _, hq, _⟩
      · exact Tree.mem_of_get hget
      · simp [errPath, checkPath] at hq
  fresh c a n hfailed := by
    rcases hfailed with hf | hs
    · exact h.fresh c a n hf
    · exact fun hmem => h'.fresh c a n hs (h.edited.mem hmem (by simp [errPath, checkPath]))
  added c a n hfailed := by
    rcases hfailed with hf | hs
    · exact h'.edited.mem (h.added c a n hf) (by simp [errPath, checkPath])
    · exact h'.added c a n hs
  advances c := (h.advances c).trans (h'.advances c)

/-- An address under check that does not answer is moved to error. A slash in it would make a deeper
path. -/
theorem checkCheckNode_ok {cfgs : StrMap} {cluster addr node : Str} {u : Unit}
    (hslash : '/' ∉ addr)
    (run : Ok serve (checkCheckNode cfgs cluster (addr, node)) s u s') :
    ErrorsSet (fun i => i = (cluster, addr, node) ∧ addr ∉ cfgs) s s' := by
  unfold checkCheckNode at run
  split at run
  · next haddr =>
    obtain ⟨_, rfl⟩ := ok_pure.mp run
    have hnone : (fun i : Failure => i = (cluster, addr, node) ∧ addr ∉ cfgs) =
        fun _ => False := by
      funext i
      exact propext ⟨fun h => h.2 haddr, False.elim⟩
    rw [hnone]
    exact ErrorsSet.refl s
  · next haddr =>
    obtain ⟨q, s₁, hcreate, hdelete⟩ := ok_bind.mp run
    have hcreate := createNode_ok.mp (orReturn_ok.mp hcreate)
    rw [Path.slash_name hslash] at hcreate
    obtain ⟨_, hcreated⟩ := Tree.create_ok hcreate
    have hdeleted := Tree.delete_ok (deleteNode_ok.mp (orReturn_ok.mp hdelete))
    have hgrown := Grown.of_created hcreated
    have hedited := (Edited.of_grown hgrown).trans (Edited.of_pruned hdeleted.pruned)
    refine ⟨?_, ?_, ?_, ?_, ?_⟩
    · refine hedited.congr (fun q => ?_) (fun q z => ?_)
      · constructor
        · rintro (h | h)
          · exact h.elim
          · exact ⟨_, _, _, ⟨rfl, haddr⟩, h⟩
        · rintro ⟨c, a, n, ⟨heq, _⟩, hq⟩
          cases heq
          exact Or.inr hq
      · constructor
        · rintro (⟨hq, hz⟩ | h)
          · exact ⟨_, _, _, ⟨rfl, haddr⟩, hq, hz⟩
          · exact h.elim
        · rintro ⟨c, a, n, ⟨heq, _⟩, hq, hz⟩
          cases heq
          exact Or.inl ⟨hq, hz⟩
    · rintro c a n ⟨heq, _⟩
      cases heq
      refine ((hcreated.mem_iff _).mp hdeleted.mem).resolve_left ?_
      simp [Tree.createdName, errPath, checkPath]
    · rintro c a n ⟨heq, _⟩
      cases heq
      exact hcreated.fresh
    · rintro c a n ⟨heq, _⟩
      cases heq
      refine (hdeleted.mem_iff _).mpr ⟨by simp [errPath, checkPath], ?_⟩
      exact (hcreated.mem_iff _).mpr (Or.inl rfl)
    · intro c
      have hcounter : s.counter (c :: checkPath) ≤ s₁.counter (c :: checkPath) := by
        rw [hcreated.counter, if_neg (by simp [checkPath, errPath]),
          if_neg (by simp [checkPath, errPath])]
      refine (Advances.of_grown hgrown (fun n z hmade => ?_) hcounter).trans
        (Advances.of_pruned hdeleted.pruned (by simp [checkPath]))
      simp [checkPath, errPath] at hmade

/-- An address of a check map that does not answer. -/
def Failed (chks : Checks) (cfgs : StrMap) (i : Failure) : Prop :=
  (∃ rdis, chks[i.1]? = some rdis ∧ rdis[i.2.1]? = some i.2.2) ∧ i.2.1 ∉ cfgs

/-- `check_check` reads the check nodes again and moves exactly those that do not answer. -/
theorem checkCheck_ok {cfgs : StrMap} {u : Unit} (run : Ok serve (checkCheck cfgs) t u t')
    (hslash : ∀ c n d, HasData t (n :: c :: checkPath) d → '/' ∉ d) :
    ∃ chks s, CheckRead t checkPath (fun c => c :: checkPath ∈ t) chks s ∧
      ErrorsSet (Failed chks cfgs) s t' := by
  unfold checkCheck at run
  obtain ⟨chks, s, hread, hloop⟩ := ok_bind.mp run
  obtain ⟨_, hread⟩ := getCheck_ok (orReturn_ok.mp hread)
  refine ⟨chks, s, hread, ?_⟩
  have hnames : ∀ c rdis, (c, rdis) ∈ chks.toList → ∀ a n, (a, n) ∈ rdis.toList → '/' ∉ a := by
    intro c rdis hc a n ha
    rw [Std.ExtTreeMap.mem_toList_iff_getElem?_eq_some] at hc ha
    exact hslash c n a ((hread.clusters c rdis hc).names a n ha).2.2
  have hclusters := forM_union ErrorsSet ErrorsSet.refl
    (fun _ _ _ _ _ h h' => h.trans h') (fun entry hentry _ _ hrun =>
      forM_union ErrorsSet ErrorsSet.refl (fun _ _ _ _ _ h h' => h.trans h')
        (fun pair hpair _ _ hrun =>
          checkCheckNode_ok (hnames entry.1 entry.2 hentry pair.1 pair.2 hpair) hrun) hrun) hloop
  have hsame : (fun i : Failure => ∃ entry ∈ chks.toList, ∃ pair ∈ entry.2.toList,
      i = (entry.1, pair.1, pair.2) ∧ pair.1 ∉ cfgs) = Failed chks cfgs := by
    funext ⟨c, a, n⟩
    refine propext ⟨?_, ?_⟩
    · rintro ⟨⟨c', rdis⟩, hc, ⟨a', n'⟩, ha, heq, hcfgs⟩
      cases heq
      rw [Std.ExtTreeMap.mem_toList_iff_getElem?_eq_some] at hc ha
      exact ⟨⟨rdis, hc, ha⟩, hcfgs⟩
    · rintro ⟨⟨rdis, hc, ha⟩, hcfgs⟩
      exact ⟨(c, rdis), Std.ExtTreeMap.mem_toList_iff_getElem?_eq_some.mpr hc, (a, n),
        Std.ExtTreeMap.mem_toList_iff_getElem?_eq_some.mpr ha, rfl, hcfgs⟩
  rw [hsame] at hclusters
  exact hclusters

end RedisCluster.Source
