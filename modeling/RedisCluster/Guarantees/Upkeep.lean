import RedisCluster.Guarantees.Master

/-!
# What every run leaves intact

A check may be cut off after any call, and any call may fail before or after it took
effect. Whatever happens, check nodes have names that their cluster has given out and
carry the name of an address, and the nodes that a check deletes have no children.
-/

set_option autoImplicit false

namespace RedisCluster.Guarantees
open Library Routine ZkCall Source

/-- What every tree that controllers leave has in common, also where they were interrupted: check
nodes have names that ZooKeeper gave out and hold names that it takes, and nothing is below an error
node, a check node or a child of `legal_nodes`. -/
structure Tended (t : Tree) : Prop where
  names : ControllerNodes t
  data : ∀ n c, n :: c :: checkPath ∈ t → ∃ d, HasData t (n :: c :: checkPath) d ∧ ValidName d
  checkLeaf : ∀ m n c, m :: n :: c :: checkPath ∉ t
  errorLeaf : ∀ m n c, m :: n :: c :: errPath ∉ t
  legalLeaf : ∀ m n, m :: n :: nodePath ∉ t

variable {t t' : Tree}

theorem tended_empty : Tended Tree.empty := by
  constructor <;> intros <;> simp_all [ControllerNodes, Tree.mem_empty]

/-- Nodes that disappear do no harm. -/
theorem Tended.sub (h : Tended t) (sub : ∀ q node, t'.get q = some node → t.get q = some node)
    (counter : ∀ c, c :: checkPath ∈ t' → t'.counter (c :: checkPath) = t.counter (c :: checkPath)) :
    Tended t' := by
  have mem : ∀ q, q ∈ t' → q ∈ t := by
    intro q hq
    obtain ⟨node, hget⟩ := Tree.mem_iff.mp hq
    exact Tree.mem_of_get (sub q node hget)
  constructor
  · intro n c hn
    rw [counter c (Tree.mem_parent hn)]
    exact h.names n c (mem _ hn)
  · intro n c hn
    obtain ⟨d, ⟨node, hget, hd⟩, hvalid⟩ := h.data n c (mem _ hn)
    obtain ⟨node', hget'⟩ := Tree.mem_iff.mp hn
    have hsame := sub _ _ hget'
    rw [hget] at hsame
    cases hsame
    exact ⟨d, ⟨node, hget', hd⟩, hvalid⟩
  · exact fun m n c hm => h.checkLeaf m n c (mem _ hm)
  · exact fun m n c hm => h.errorLeaf m n c (mem _ hm)
  · exact fun m n hm => h.legalLeaf m n (mem _ hm)

theorem Tended.deleted (h : Tended t) {name : Str} {path : Path} (hd : t.Deleted name path t') :
    Tended t' := by
  refine h.sub (fun q node => hd.pruned.sub_get) fun c hc => ?_
  rw [hd.counter, if_neg]
  intro heq
  rw [heq, hd.mem_iff] at hc
  exact hc.1 rfl

theorem Tended.expire (h : Tended t) (session : Nat) : Tended (t.expire session) := by
  refine h.sub (fun q node hget => ?_) fun c hc => Tree.counter_expire hc
  rw [Tree.get_expire] at hget
  split at hget
  · exact hget
  · cases hget

/-- Nothing is asked of the configuration. -/
theorem Tended.reconfigured (h : Tended t) (change : Reconfigured t t') : Tended t' := by
  have mem : ∀ q, q.getLast? ≠ some "config".toList → q ∈ t' → q ∈ t := by
    intro q hq hmem
    rwa [Tree.mem_iff, change.get q (not_in_branch hq), ← Tree.mem_iff] at hmem
  constructor
  · exact reconfigured_nodes change h.names
  · intro n c hn
    obtain ⟨d, hd, hvalid⟩ := h.data n c (mem _ (by simp [checkPath]) hn)
    exact ⟨d, (HasData.congr (reconfigured_check change n c)).mpr hd, hvalid⟩
  · exact fun m n c hm => h.checkLeaf m n c (mem _ (by simp [checkPath]) hm)
  · exact fun m n c hm => h.errorLeaf m n c (mem _ (by simp [errPath]) hm)
  · exact fun m n hm => h.legalLeaf m n (mem _ (by simp [nodePath]) hm)

/-- A node in a place where the controller creates plain ones. -/
structure Plain (path : Path) : Prop where
  check : ∀ c, path ≠ c :: checkPath
  checkNode : ∀ n c, path ≠ n :: c :: checkPath
  errorNode : ∀ n c, path ≠ n :: c :: errPath
  legal : ∀ n, path ≠ n :: nodePath

/-- Any node but a check node may come without conditions on its data. -/
theorem Tended.created (h : Tended t) {name : Str} {path : Path} {data : Option Str}
    {mode : CreateMode} (plain : Plain path) (hc : t.Created name path data mode t') :
    Tended t' := by
  have mem : ∀ q, q ∈ t' → q = t.createdName name path mode :: path ∨ q ∈ t := fun q => (hc.mem_iff q).mp
  have old : ∀ n c, n :: c :: checkPath ∈ t' → n :: c :: checkPath ∈ t ∧
      t'.get (n :: c :: checkPath) = t.get (n :: c :: checkPath) := by
    intro n c hn
    have hne : n :: c :: checkPath ≠ t.createdName name path mode :: path := fun heq =>
      plain.check c (List.cons.inj heq).2.symm
    exact ⟨(mem _ hn).resolve_left hne, by rw [hc.get, if_neg hne]⟩
  constructor
  · intro n c hn
    have hold := (old n c hn).1
    have hself : c :: checkPath ≠ t.createdName name path mode :: path := fun heq =>
      hc.fresh (heq ▸ Tree.mem_parent hold)
    rw [hc.counter, if_neg hself, if_neg fun heq => plain.check c heq.symm]
    exact h.names n c hold
  · intro n c hn
    obtain ⟨hold, hsame⟩ := old n c hn
    obtain ⟨d, hd, hvalid⟩ := h.data n c hold
    exact ⟨d, (HasData.congr hsame).mpr hd, hvalid⟩
  · intro m n c hm
    rcases mem _ hm with heq | hold
    · exact plain.checkNode n c (List.cons.inj heq).2.symm
    · exact h.checkLeaf m n c hold
  · intro m n c hm
    rcases mem _ hm with heq | hold
    · exact plain.errorNode n c (List.cons.inj heq).2.symm
    · exact h.errorLeaf m n c hold
  · intro m n hm
    rcases mem _ hm with heq | hold
    · exact plain.legal n (List.cons.inj heq).2.symm
    · exact h.legalLeaf m n hold

/-- A check node comes with the name of an address. -/
theorem Tended.createdCheck (h : Tended t) {c addr : Str} (valid : ValidName addr)
    (hc : t.Created redisPrefix (c :: checkPath) (dataOf addr) .sequence t') : Tended t' := by
  have hname : t.createdName redisPrefix (c :: checkPath) .sequence =
      seqName (t.counter (c :: checkPath)) := rfl
  have hget := hc.get
  have hcounter := hc.counter
  have hmem := hc.mem_iff
  rw [hname] at hget hcounter hmem
  constructor
  · intro n d hn
    rw [hcounter, if_neg (by simp)]
    rcases (hmem _).mp hn with heq | hold
    · cases heq
      rw [if_pos rfl]
      exact ⟨_, rfl, by omega, hc.numbered rfl⟩
    · obtain ⟨k, hk, hless, hbound⟩ := h.names n d hold
      refine ⟨k, hk, ?_, hbound⟩
      split
      · next heq =>
        cases heq
        omega
      · exact hless
  · intro n d hn
    by_cases heq : n :: d :: checkPath = seqName (t.counter (c :: checkPath)) :: c :: checkPath
    · refine ⟨addr, ⟨_, by rw [hget, if_pos heq], ?_⟩, valid⟩
      exact if_neg valid.1
    · obtain ⟨a, ⟨node, hnode, hd⟩, ha⟩ := h.data n d (((hmem _).mp hn).resolve_left heq)
      exact ⟨a, ⟨node, by rw [hget, if_neg heq, hnode], hd⟩, ha⟩
  · intro m n d hm
    rcases (hmem _).mp hm with heq | hold
    · simp [checkPath] at heq
    · exact h.checkLeaf m n d hold
  · intro m n d hm
    rcases (hmem _).mp hm with heq | hold
    · simp [checkPath, errPath] at heq
    · exact h.errorLeaf m n d hold
  · intro m n hm
    rcases (hmem _).mp hm with heq | hold
    · simp [checkPath, nodePath] at heq
    · exact h.legalLeaf m n hold

/-! ## The controller's routines -/

/-- The routine keeps the trees tended, whichever calls fail. -/
abbrev Tends {α : Type} (post : α → Prop) (x : Ctl α) : Prop := Keeps Faulty Tended post x

/-- A call that only reads. -/
theorem tends_read {c : ZkCall} {post : c.Resp → Prop} (same : ∀ t, (serve c t).2 = t)
    (served : ∀ t, Tended t → post (serve c t).1) (failed : ∀ e, post (.error e)) :
    Tends post (ask c) := by
  apply Keeps.ask
  intro t r t' ht hfaulty
  constructor
  · rcases hfaulty.state with rfl | rfl
    · exact ht
    · rwa [same]
  · rcases hfaulty with hserved | ⟨e, rfl, _⟩
    · have hpost := served t ht
      rwa [hserved] at hpost
    · exact failed e

theorem tends_exists {path : Path} : Tends (fun _ => True) (ask (.zooExists path)) :=
  tends_read (fun _ => rfl) (fun _ _ => trivial) fun _ => trivial

/-- An answer of ZooKeeper is a value that is true of the tree, or an error. -/
theorem tends_call {c : ZkCall} {code : Nat} {post : c.Value → Prop}
    (h : Tends (fun r => ∀ value, r = .ok value → post value) (ask c)) :
    Tends post (call c code) := by
  refine Keeps.bind h fun r hr => ?_
  cases r with
  | ok value => exact Keeps.pure (hr value rfl)
  | error e => exact Keeps.throw

theorem tends_orReturn {α : Type} {post : α → Prop} {x : Ctl α} {code : Nat} (h : Tends post x) :
    Tends post (orReturn x code) := Keeps.adapt h

theorem tends_deleteNode {name : Str} {path : Path} :
    Tends (fun _ => True) (deleteNode (name :: path)) :=
  fun _ ht => deleteNode_safe ht fun _ hd => ⟨ht.deleted hd, trivial⟩

theorem tends_createNode {name : Str} {path : Path} {mode : CreateMode} {value : Str}
    (plain : Plain path) : Tends (fun _ => True) (createNode (name :: path) mode value) :=
  fun _ ht => createNode_safe ht fun _ hc => ⟨ht.created plain hc, trivial⟩

theorem tends_createCheck {c addr : Str} (valid : ValidName addr) :
    Tends (fun _ => True) (createNode (redisPrefix :: c :: checkPath) .sequence addr) :=
  fun _ ht => createNode_safe ht fun _ hc => ⟨ht.createdCheck valid hc, trivial⟩

theorem plain_root : Plain [] := by constructor <;> simp

theorem plain_base {name : Str} : Plain [name] := by
  constructor <;> simp [checkPath, errPath, nodePath]

theorem plain_errorCluster {c : Str} : Plain (c :: errPath) := by
  constructor <;> simp [checkPath, errPath, nodePath]

theorem tends_children {path : Path} {code : Nat} :
    Tends (fun names => ∀ n ∈ names, ValidName n) (call (.zooGetChildren path) code) := by
  apply tends_call
  refine tends_read (fun _ => rfl) (fun t _ => ?_) (fun e names hnames => ?_)
  · intro names hnames n hn
    rw [serve] at hnames
    dsimp only at hnames
    split at hnames
    · cases hnames
      exact Tree.validName_of_mem (Tree.mem_children.mp hn)
    · cases hnames
  · cases hnames

/-- What a check node holds can be used as a name. -/
theorem tends_getData {n c : Str} : Tends ValidName (getData (n :: c :: checkPath)) := by
  have hget : Tends (fun data => ∀ d, data = some d → ValidName d)
      (call (.zooGet (n :: c :: checkPath)) 1) := by
    apply tends_call
    refine tends_read (fun t => ?_) (fun t ht => ?_) (fun e data hdata => ?_)
    · rw [serve]
      split <;> rfl
    · intro data hdata d hd
      rw [serve] at hdata
      split at hdata
      · next node hnode =>
        cases hdata
        obtain ⟨a, ⟨node', hnode', ha⟩, hvalid⟩ := ht.data n c (Tree.mem_of_get hnode)
        rw [hnode] at hnode'
        cases hnode'
        rw [hd] at ha
        cases ha
        exact hvalid
      · cases hdata
    · cases hdata
  refine Keeps.bind hget fun data hdata => ?_
  cases data with
  | none => exact Keeps.throw
  | some d => exact Keeps.pure (hdata d rfl)

theorem tends_getNodes {path : Path} {isaddr : Bool} :
    Tends (fun nodes => ∀ a ∈ nodes, ValidName a) (getNodes path isaddr) := by
  refine Keeps.bind tends_children fun names hnames => Keeps.pure fun a ha => ?_
  rw [Std.ExtTreeSet.mem_ofList, List.contains_iff_mem] at ha
  split at ha
  · exact hnames a (List.mem_of_mem_filter ha)
  · exact hnames a ha

/-- Every address of the clusters can name a node. -/
def ValidClusters (cfgs : Clusters) : Prop :=
  ∀ (c : Str) (nodes : Addrs), cfgs[c]? = some nodes → ∀ a ∈ nodes, ValidName a

/-- Every address of the check maps can name a node. -/
def ValidChecks (chks : Checks) : Prop :=
  ∀ (c : Str) (rdis : StrMap), chks[c]? = some rdis → ∀ a ∈ rdis, ValidName a

theorem tends_getClusterNode {path : Path} {ischeck : Bool} :
    Tends ValidClusters (getClusterNode path ischeck) := by
  refine Keeps.bind tends_children fun clusters _ => ?_
  refine Keeps.foldlM (fun cfgs cluster _ hcfgs => ?_) (by simp [ValidClusters])
  refine Keeps.ite (fun _ => Keeps.pure hcfgs) fun _ => ?_
  refine Keeps.bind (tends_orReturn tends_getNodes) fun nodes hnodes => Keeps.pure ?_
  intro c nodes' hget
  rw [Ordered.getElem?_insert] at hget
  split at hget
  · cases hget
    exact hnodes
  · exact hcfgs c nodes' hget

theorem tends_getConfig {path : Path} : Tends ValidClusters (getConfig path) := by
  refine Keeps.bind (tends_orReturn tends_getClusterNode) fun cfgs hcfgs => ?_
  have hsingle : Tends (fun _ => True)
      ((cfgs.toList.flatMap fun entry => entry.2.toList).foldlM addSingle ∅) :=
    Keeps.foldlM (fun _ _ _ _ => Keeps.ite (fun _ => Keeps.throw) fun _ => Keeps.pure trivial) trivial
  exact Keeps.bind hsingle fun _ _ => Keeps.pure hcfgs

theorem valid_insert {rdis : StrMap} {data node : Str} (h : ∀ a ∈ rdis, ValidName a)
    (hdata : ValidName data) : ∀ a ∈ rdis.insert data node, ValidName a := by
  intro a ha
  rcases Ordered.mem_insert_map.mp ha with rfl | ha
  · exact hdata
  · exact h a ha

theorem tends_getCheckNode {c node : Str} {rdis : StrMap} (h : ∀ a ∈ rdis, ValidName a) :
    Tends (fun rdis' : StrMap => ∀ a ∈ rdis', ValidName a) (getCheckNode checkPath c rdis node) := by
  refine Keeps.bind (tends_orReturn tends_getData) fun data hdata => ?_
  refine Keeps.ite (fun _ => ?_) fun _ => ?_
  · exact Keeps.bind (tends_orReturn tends_deleteNode) fun _ _ => Keeps.pure h
  · split
    · refine Keeps.ite (fun _ => ?_) fun _ => ?_
      · exact Keeps.bind (tends_orReturn tends_deleteNode) fun _ _ =>
          Keeps.pure (valid_insert h hdata)
      · exact Keeps.bind (tends_orReturn tends_deleteNode) fun _ _ => Keeps.pure h
    · exact Keeps.pure (valid_insert h hdata)

/-- Addresses in the table of `get_check` can be used as names. -/
theorem tends_getCheck : Tends ValidChecks (getCheck checkPath) := by
  refine Keeps.bind (tends_orReturn tends_getClusterNode) fun cls _ => ?_
  refine Keeps.foldlM (fun chks entry _ hchks => ?_) (by simp [ValidChecks])
  have hnodes : Tends (fun rdis : StrMap => ∀ a ∈ rdis, ValidName a)
      (entry.2.toList.foldlM (getCheckNode checkPath entry.1) ∅) :=
    Keeps.foldlM (fun _ _ _ hrdis => tends_getCheckNode hrdis) (by simp)
  refine Keeps.bind hnodes fun rdis hrdis => Keeps.pure fun c rdis' hget => ?_
  rw [Ordered.getElem?_insert] at hget
  split at hget
  · cases hget
    exact hrdis
  · exact hchks c rdis' hget

theorem tends_nodeExist {path : Path} : Tends (fun _ => True) (nodeExist path) := by
  refine Keeps.bind tends_exists fun r _ => ?_
  split <;> exact Keeps.pure trivial

theorem tends_checkAddCreate {name : Str} :
    Tends (fun _ => True) (checkAddCreate [name] .persistent []) := by
  refine Keeps.bind tends_nodeExist fun rv _ => ?_
  split
  · refine Keeps.bind (tends_orReturn (tends_createNode plain_root)) fun truePath _ => ?_
    refine Keeps.bind tends_nodeExist fun rv _ => ?_
    split
    · exact Keeps.pure trivial
    · exact Keeps.throw
  · exact Keeps.throw
  · exact Keeps.pure trivial

theorem tends_initPathCheck : Tends (fun _ => True) initPathCheck := by
  unfold initPathCheck
  refine Keeps.bind (tends_orReturn tends_checkAddCreate) fun _ _ => ?_
  refine Keeps.bind (tends_orReturn tends_checkAddCreate) fun _ _ => ?_
  refine Keeps.bind (tends_orReturn tends_checkAddCreate) fun _ _ => ?_
  refine Keeps.bind (tends_orReturn tends_checkAddCreate) fun _ _ => ?_
  exact tends_orReturn tends_checkAddCreate

theorem tends_freeLock : Tends (fun _ => True) freeLock := by
  have hdelete : Tends (fun _ => True) (ask (.zooDelete lockNode)) := by
    apply Keeps.ask
    intro t r t' ht hfaulty
    refine ⟨?_, trivial⟩
    rcases hfaulty.state with rfl | rfl
    · exact ht
    · rw [serve]
      split
      · next hd => exact ht.deleted (Tree.delete_ok hd)
      · exact ht
  exact Keeps.bind hdelete fun _ _ => Keeps.pure trivial

theorem tends_getLock {session : Nat} : Tends (fun _ => True) (getLock session) := by
  have hcreate : Tends (fun _ => True) (ask (.zooCreate lockNode none (.ephemeral session))) := by
    apply Keeps.ask
    intro t r t' ht hfaulty
    refine ⟨?_, trivial⟩
    rcases hfaulty.state with rfl | rfl
    · exact ht
    · rw [serve]
      split
      · next hc => exact ht.created plain_base (Tree.create_ok hc).2
      · exact ht
  refine Keeps.bind hcreate fun r _ => ?_
  split <;> exact Keeps.pure trivial

theorem tends_addBranch {missing : Bool} {c base : Str} :
    Tends (fun _ => True) (addBranch missing (c :: [base])) := by
  refine Keeps.ite (fun _ => ?_) fun _ => Keeps.pure trivial
  exact Keeps.bind (tends_orReturn (tends_createNode plain_base)) fun _ _ => Keeps.pure trivial

theorem tends_checkAddNode {tmp : Option StrMap} {tmpErr : Option Addrs} {c addr : Str}
    (valid : ValidName addr) : Tends (fun _ => True) (checkAddNode tmp tmpErr c addr) := by
  refine Keeps.ite (fun _ => ?_) fun _ => Keeps.pure trivial
  exact Keeps.bind (tends_orReturn (tends_createCheck valid)) fun _ _ => Keeps.pure trivial

theorem tends_checkAddCluster {errs : Clusters} {chks : Checks} {c : Str} {addrs : Addrs}
    (h : ∀ a ∈ addrs, ValidName a) :
    Tends (fun _ => True) (checkAddCluster errs chks (c, addrs)) := by
  refine Keeps.bind tends_addBranch fun _ _ => ?_
  refine Keeps.bind tends_addBranch fun _ _ => ?_
  exact Keeps.forM fun addr haddr => tends_checkAddNode (h addr (Std.ExtTreeSet.mem_toList.mp haddr))

theorem tends_logicCheckAdd {cfgs errs : Clusters} {chks : Checks} (h : ValidClusters cfgs) :
    Tends (fun _ => True) (logicCheckAdd cfgs errs chks) :=
  Keeps.forM fun entry hentry => tends_checkAddCluster
    (h entry.1 entry.2 (Std.ExtTreeMap.mem_toList_iff_getElem?_eq_some.mp hentry))

theorem tends_deleteIf {c : Prop} [Decidable c] {name : Str} {path : Path} {code : Nat} :
    Tends (fun _ => True) (if c then orReturn (deleteNode (name :: path)) code else return ()) :=
  Keeps.ite (fun _ => tends_orReturn tends_deleteNode) fun _ => Keeps.pure trivial

theorem tends_logicErrorRm {cfgs errs : Clusters} :
    Tends (fun _ => True) (logicErrorRm cfgs errs) :=
  Keeps.forM fun _ _ => Keeps.bind (Keeps.forM fun _ _ => tends_deleteIf) fun _ _ => tends_deleteIf

theorem tends_logicCheckRm {cfgs : Clusters} {chks : Checks} :
    Tends (fun _ => True) (logicCheckRm cfgs chks) :=
  Keeps.forM fun _ _ => Keeps.bind (Keeps.forM fun _ _ => tends_deleteIf) fun _ _ => tends_deleteIf

theorem tends_checkError {cfgs : StrMap} : Tends (fun _ => True) (checkError cfgs) := by
  refine Keeps.bind (tends_orReturn tends_getClusterNode) fun errs herrs => ?_
  refine Keeps.forM fun entry hentry => Keeps.forM fun addr haddr => ?_
  have hvalid : ValidName addr := herrs entry.1 entry.2
    (Std.ExtTreeMap.mem_toList_iff_getElem?_eq_some.mp hentry) addr
    (Std.ExtTreeSet.mem_toList.mp haddr)
  refine Keeps.ite (fun _ => ?_) fun _ => Keeps.pure trivial
  refine Keeps.bind (tends_orReturn tends_deleteNode) fun _ _ => ?_
  exact Keeps.bind (tends_orReturn (tends_createCheck hvalid)) fun _ _ => Keeps.pure trivial

theorem tends_checkCheck {cfgs : StrMap} : Tends (fun _ => True) (checkCheck cfgs) := by
  refine Keeps.bind (tends_orReturn tends_getCheck) fun chks hchks => ?_
  refine Keeps.forM fun entry hentry => Keeps.forM fun pair hpair => ?_
  have hget := Std.ExtTreeMap.mem_toList_iff_getElem?_eq_some.mp hpair
  have hvalid : ValidName pair.1 := hchks entry.1 entry.2
    (Std.ExtTreeMap.mem_toList_iff_getElem?_eq_some.mp hentry) pair.1
    (Ordered.mem_iff_getElem?.mpr ⟨pair.2, hget⟩)
  refine Keeps.ite (fun _ => Keeps.pure trivial) fun _ => ?_
  rw [Path.slash_name hvalid.2]
  refine Keeps.bind (tends_orReturn (tends_createNode plain_errorCluster)) fun _ _ => ?_
  exact tends_orReturn tends_deleteNode

/-- The addresses of the lists can name nodes. -/
def ValidLists (lists : Std.ExtTreeMap Str (List Str)) : Prop :=
  ∀ (c : Str) (list : List Str), lists[c]? = some list → ∀ a ∈ list, ValidName a

/-- What `gen_legal_redis` lists are names that ZooKeeper takes. -/
theorem validLists {cfgs : StrMap} {errs : Clusters} {chks : Checks}
    {lists : Std.ExtTreeMap Str (List Str)} (herrs : ValidClusters errs) (hchks : ValidChecks chks)
    (h : Listed cfgs errs chks lists) : ValidLists lists := by
  intro c list hlist
  obtain ⟨rds, hrds, hlegal⟩ := h.list c list hlist
  cases hlegal with
  | ranked _ _ =>
    intro a ha
    obtain ⟨entry, hentry, rfl⟩ := List.mem_map.mp ha
    exact hchks c rds hrds entry.1 (Ordered.mem_iff_getElem?.mpr ⟨_, mem_sortRedis.mp hentry⟩)
  | standby _ known least =>
    intro a ha
    obtain rfl := List.mem_singleton.mp ha
    refine herrs c _ known a (Std.ExtTreeSet.mem_toList.mp ?_)
    rw [least]
    exact List.mem_cons_self

theorem slash_not_mem_legalSet {lists : Std.ExtTreeMap Str (List Str)} (h : ValidLists lists) :
    ∀ node ∈ legalSet lists, '/' ∉ node := by
  intro node hnode hslash
  obtain ⟨c, list, hlist, rfl⟩ := mem_legalSet.mp hnode
  rcases mem_legalNode hslash with hidx | heq | ⟨a, ha, hmem⟩
  · exact Text.not_mem_decimal _ (by decide) (by decide) hidx
  · cases heq
  · exact (h c list hlist a ha).2 hmem

theorem tends_legalCmp {lists : Std.ExtTreeMap Str (List Str)} (h : ValidLists lists) :
    Tends (fun _ => True) (legalCmp lists) := by
  refine Keeps.bind (tends_orReturn tends_getNodes) fun befRds _ => ?_
  rw [foldlM_addLegalNode]
  split
  · exact Keeps.bind Keeps.throw fun _ h => h
  · rw [pure_bind]
    refine Keeps.bind (Keeps.forM fun node _ => tends_orReturn tends_deleteNode) fun _ _ => ?_
    apply Keeps.forM
    intro node hnode
    have hmem : node ∈ legalSet lists :=
      (mem_filter_addrs.mp (Std.ExtTreeSet.mem_toList.mp hnode)).1
    unfold addLegal
    rw [Path.slash_name (slash_not_mem_legalSet h node hmem)]
    exact Keeps.bind (tends_orReturn (tends_createNode plain_base)) fun _ _ => Keeps.pure trivial

theorem tends_genLegalRedis {cfgs : StrMap} : Tends (fun _ => True) (genLegalRedis cfgs) := by
  refine Keeps.bind (tends_orReturn tends_getCheck) fun chks hchks => ?_
  refine Keeps.bind (tends_orReturn tends_getClusterNode) fun errs herrs => ?_
  have hlists : Tends (fun legal : Legal => ValidLists legal.clusterLegalRedis)
      (liftM (chks.toList.foldlM (genCluster cfgs errs) ⟨∅, ∅⟩)) :=
    Keeps.liftExcept fun legal hlegal => validLists herrs hchks (genClusters_ok hlegal)
  refine Keeps.bind hlists fun legal hlegal => ?_
  exact Keeps.bind (tends_orReturn (tends_legalCmp hlegal)) fun _ _ => Keeps.pure trivial

/-- Wherever a check stops under the lock, it leaves a tended tree. -/
theorem tends_checkLocked {net : Network} : Tends (fun _ => True) (checkLocked net) := by
  refine Keeps.bind tends_getConfig fun cfgs hcfgs => ?_
  refine Keeps.bind tends_getClusterNode fun errs herrs => ?_
  refine Keeps.bind tends_getCheck fun chks hchks => ?_
  refine Keeps.bind (tends_logicCheckAdd hcfgs) fun _ _ => ?_
  refine Keeps.bind tends_logicErrorRm fun _ _ => ?_
  refine Keeps.bind tends_logicCheckRm fun _ _ => ?_
  refine Keeps.bind tends_checkError fun _ _ => ?_
  refine Keeps.bind tends_checkCheck fun _ _ => ?_
  exact tends_genLegalRedis

/-- A check keeps the tree tended wherever it is cut off. -/
theorem tends_check {zkh : Option Nat} {net : Network} : Tends (fun _ => True) (check zkh net) := by
  unfold check
  cases zkh with
  | none => exact Keeps.throw
  | some session =>
    refine Keeps.bind tends_initPathCheck fun _ _ => ?_
    refine Keeps.bind tends_getLock fun locked _ => ?_
    refine Keeps.ite (fun _ => ?_) fun _ => Keeps.throw
    refine Keeps.bind tends_checkLocked.lift fun r _ => ?_
    split
    · exact Keeps.bind tends_freeLock fun _ _ => Keeps.pure trivial
    · exact Keeps.throw
    · exact Keeps.bind tends_freeLock fun _ _ => Keeps.throw

end RedisCluster.Guarantees
