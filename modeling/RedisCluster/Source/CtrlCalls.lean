import RedisCluster.Library.Ordered
import RedisCluster.Source.RedisCtrl

/-!
# Effects of the controller's calls and reads

What a successful call of `RedisCtrl.cpp` means for the tree, and what the reading
routines return. `Pruned` is the effect of every routine that only deletes.
-/

set_option autoImplicit false

namespace RedisCluster.Source
open Library Routine ZkCall

section Calls
variable {α : Type} {t t' : Tree} {path : Path} {name : Str} {code : Nat}

/-- A call that succeeds has answered what ZooKeeper serves. -/
theorem call_ok {c : ZkCall} {value : c.Value} :
    Ok serve (call c code) t value t' ↔ c.serve t = (.ok value, t') := by
  unfold call
  rw [ok_bind]
  constructor
  · rintro ⟨r, s, hask, hr⟩
    cases r with
    | ok v =>
      obtain ⟨rfl, rfl⟩ := ok_pure.mp hr
      exact ok_ask.mp hask
    | error e => exact absurd hr ok_throw
  · intro h
    exact ⟨.ok value, t', ok_ask.mpr h, ok_pure.mpr ⟨rfl, rfl⟩⟩

@[simp] theorem orReturn_ok {x : Ctl α} {value : α} :
    Ok serve (orReturn x code) t value t' ↔ Ok serve x t value t' :=
  ok_adapt

/-- The data of a node created with `value`: an empty value leaves it without data. -/
def dataOf (value : Str) : Option Str := if value = [] then none else some value

theorem createNode_ok {mode : CreateMode} {value : Str} {q : Path} :
    Ok serve (createNode path mode value) t q t' ↔ t.create path (dataOf value) mode = .ok (q, t') := by
  rw [createNode, call_ok, serve, dataOf]
  cases t.create path (if value = [] then none else some value) mode with
  | ok result => simp [Prod.ext_iff]
  | error e => simp

theorem deleteNode_ok {u : Unit} :
    Ok serve (deleteNode path) t u t' ↔ t.delete path = .ok t' := by
  rw [deleteNode, call_ok, serve]
  cases t.delete path with
  | ok result => simp [Prod.ext_iff]
  | error e => simp

theorem zooGet_ok {data : Option Str} :
    Ok serve (call (.zooGet path) code) t data t' ↔
      t' = t ∧ ∃ node, t.get path = some node ∧ node.data = data := by
  refine call_ok.trans ?_
  rw [serve]
  cases t.get path with
  | none => simp
  | some node => simp [Prod.ext_iff, and_comm, eq_comm (a := t')]

theorem zooGetChildren_ok {names : List Str} :
    Ok serve (call (.zooGetChildren path) code) t names t' ↔
      t' = t ∧ path ∈ t ∧ names = t.children path := by
  refine call_ok.trans ?_
  rw [serve]
  by_cases hpath : path ∈ t
  · simp [hpath, Prod.ext_iff, and_comm, eq_comm (a := t'), eq_comm (a := names)]
  · simp [hpath]

theorem getData_ok {data : Str} :
    Ok serve (getData path) t data t' ↔
      t' = t ∧ ∃ node, t.get path = some node ∧ node.data = some data := by
  unfold getData
  rw [ok_bind]
  constructor
  · rintro ⟨value, s, hget, hmatch⟩
    obtain ⟨rfl, node, hnode, rfl⟩ := zooGet_ok.mp hget
    cases hdata : node.data with
    | none => rw [hdata] at hmatch; exact absurd hmatch ok_throw
    | some d =>
      rw [hdata] at hmatch
      obtain ⟨rfl, rfl⟩ := ok_pure.mp hmatch
      exact ⟨rfl, node, hnode, hdata⟩
  · rintro ⟨rfl, node, hnode, hdata⟩
    exact ⟨some data, t', zooGet_ok.mpr ⟨rfl, node, hnode, hdata⟩, ok_pure.mpr ⟨rfl, rfl⟩⟩

/-- Under faults a call leaves the old tree or the served one, and a value it returns is
the served one. -/
theorem call_safe {c : ZkCall} {inv : Tree → Prop} {post : c.Value → Tree → Prop}
    (here : inv t) (there : inv (serve c t).2)
    (returned : ∀ value t', serve c t = (.ok value, t') → post value t') :
    Safe Faulty inv post (call c code) t := by
  unfold call
  have asked : Safe Faulty inv (fun (r : c.Resp) t' => ∀ value, r = .ok value → post value t')
      (ask c : Ctl c.Resp) t := by
    apply Safe.ask here
    intro r t' hfaulty
    constructor
    · rcases hfaulty.state with rfl | rfl
      · exact here
      · exact there
    · rintro value rfl
      rcases hfaulty with hserved | ⟨e, herr, _⟩
      · exact returned value t' hserved
      · cases herr
  refine Safe.bind (asked.mono fun r t' hpost hinv => ?_)
  cases r with
  | ok value => exact Safe.pure hinv (hpost value rfl)
  | error e => exact Safe.throw hinv

theorem orReturn_safe {x : Ctl α} {inv : Tree → Prop} {post : α → Tree → Prop}
    (h : Safe Faulty inv post x t) : Safe Faulty inv post (orReturn x code) t :=
  Safe.adapt h

/-- Deleting a node keeps what holds before and after the delete, whether the call reports it or
not. -/
theorem deleteNode_safe {inv : Tree → Prop} {post : Unit → Tree → Prop} (here : inv t)
    (deleted : ∀ t', t.Deleted name path t' → inv t' ∧ post () t') :
    Safe Faulty inv post (deleteNode (name :: path)) t := by
  unfold deleteNode
  cases hdelete : t.delete (name :: path) with
  | ok t' =>
    have hserve : serve (.zooDelete (name :: path)) t = (.ok (), t') := by
      rw [serve, hdelete]
    have hdeleted := deleted t' (Tree.delete_ok hdelete)
    apply call_safe here
    · rw [hserve]
      exact hdeleted.1
    · intro value t'' hreturned
      rw [hserve] at hreturned
      cases hreturned
      exact hdeleted.2
  | error e =>
    have hserve : serve (.zooDelete (name :: path)) t = (.error e, t) := by
      rw [serve, hdelete]
    apply call_safe here
    · rw [hserve]
      exact here
    · intro value t'' hreturned
      rw [hserve] at hreturned
      cases hreturned

/-- Creating a node keeps what holds before and after the create, whether the call reports it or
not. -/
theorem createNode_safe {inv : Tree → Prop} {mode : CreateMode} {value : Str}
    {post : Path → Tree → Prop} (here : inv t)
    (created : ∀ t', t.Created name path (dataOf value) mode t' →
      inv t' ∧ post (t.createdName name path mode :: path) t') :
    Safe Faulty inv post (createNode (name :: path) mode value) t := by
  change Safe Faulty inv post (call (.zooCreate (name :: path) (dataOf value) mode) 1) t
  cases hcreate : t.create (name :: path) (dataOf value) mode with
  | ok result =>
    obtain ⟨q, t'⟩ := result
    have hserve : serve (.zooCreate (name :: path) (dataOf value) mode) t = (.ok q, t') := by
      rw [serve, hcreate]
    obtain ⟨rfl, hcreated⟩ := Tree.create_ok hcreate
    have hpost := created t' hcreated
    apply call_safe here
    · rw [hserve]
      exact hpost.1
    · intro value t'' hreturned
      rw [hserve] at hreturned
      cases hreturned
      exact hpost.2
  | error e =>
    have hserve : serve (.zooCreate (name :: path) (dataOf value) mode) t = (.error e, t) := by
      rw [serve, hcreate]
    apply call_safe here
    · rw [hserve]
      exact here
    · intro value t'' hreturned
      rw [hserve] at hreturned
      cases hreturned

/-- The addresses or names that `get_nodes` reads below a path. -/
def nodesOf (t : Tree) (path : Path) (isaddr : Bool) : Addrs :=
  .ofList (if isaddr then (t.children path).filter isvalidAddr else t.children path)

theorem mem_nodesOf {isaddr : Bool} :
    name ∈ nodesOf t path isaddr ↔ name :: path ∈ t ∧ (isaddr → isvalidAddr name) := by
  unfold nodesOf
  rw [Std.ExtTreeSet.mem_ofList, List.contains_iff_mem]
  cases isaddr with
  | false => simp
  | true => simp

/-- `get_nodes` reads the children of a path, or those that are addresses, and changes nothing. -/
theorem getNodes_ok {isaddr : Bool} {nodes : Addrs} :
    Ok serve (getNodes path isaddr) t nodes t' ↔
      path ∈ t ∧ t' = t ∧ nodes = nodesOf t path isaddr := by
  unfold getNodes
  rw [ok_bind]
  constructor
  · rintro ⟨children, s, hcall, hpure⟩
    obtain ⟨rfl, hpath, rfl⟩ := zooGetChildren_ok.mp hcall
    obtain ⟨rfl, rfl⟩ := ok_pure.mp hpure
    exact ⟨hpath, rfl, rfl⟩
  · rintro ⟨hpath, rfl, rfl⟩
    exact ⟨_, _, zooGetChildren_ok.mpr ⟨rfl, hpath, rfl⟩, ok_pure.mpr ⟨rfl, rfl⟩⟩

theorem getNodes_safe {inv : Tree → Prop} {isaddr : Bool} (here : inv t) :
    Safe Faulty inv (fun nodes t' => t' = t ∧ nodes = nodesOf t path isaddr)
      (getNodes path isaddr) t := by
  have hsame : (serve (.zooGetChildren path) t).2 = t := rfl
  have hread : Safe Faulty inv (fun names t' => t' = t ∧ names = t.children path)
      (call (.zooGetChildren path) 1) t := by
    apply call_safe here
    · rwa [hsame]
    · intro names t' hserve
      have hcall : Ok serve (call (.zooGetChildren path) 1) t names t' := call_ok.mpr hserve
      obtain ⟨rfl, _, rfl⟩ := zooGetChildren_ok.mp hcall
      exact ⟨rfl, rfl⟩
  refine Safe.bind (hread.mono fun names t' h hinv => ?_)
  obtain ⟨rfl, rfl⟩ := h
  exact Safe.pure hinv ⟨rfl, rfl⟩

end Calls

/-! ## Reading one level of clusters -/

section Reads
variable {t t' : Tree} {path : Path} {ischeck : Bool}

/-- The entry that `get_cluster_node` makes for a cluster. -/
def clusterEntry (t : Tree) (path : Path) (ischeck : Bool) (cluster : Str) : Option Addrs :=
  if cluster :: path ∈ t ∧ (ischeck → cutIdx clusterPrefix cluster ≠ -1) then
    some (nodesOf t (cluster :: path) ischeck)
  else none

private theorem addCluster_total (cfgs : Clusters) {cluster : Str} (ischeck : Bool)
    (hcluster : cluster :: path ∈ t) :
    ∃ cfgs' : Clusters, Ok serve (addCluster path ischeck cfgs cluster) t cfgs' t ∧
      ∀ c, cfgs'[c]? =
        if c = cluster then (clusterEntry t path ischeck c).or cfgs[c]? else cfgs[c]? := by
  unfold addCluster
  by_cases hskip : ischeck ∧ cutIdx clusterPrefix cluster = -1
  · refine ⟨cfgs, by rw [if_pos hskip]; exact ok_pure.mpr ⟨rfl, rfl⟩, fun c => ?_⟩
    by_cases hc : c = cluster
    · subst hc
      have hentry : clusterEntry t path ischeck c = none :=
        if_neg fun h => h.2 hskip.1 hskip.2
      rw [if_pos rfl, hentry, Option.none_or]
    · rw [if_neg hc]
  · refine ⟨cfgs.insert cluster (nodesOf t (cluster :: path) ischeck), ?_, fun c => ?_⟩
    · rw [if_neg hskip, ok_bind]
      exact ⟨_, t, orReturn_ok.mpr (getNodes_ok.mpr ⟨hcluster, rfl, rfl⟩),
        ok_pure.mpr ⟨rfl, rfl⟩⟩
    · rw [Ordered.getElem?_insert]
      by_cases hc : c = cluster
      · subst hc
        have hentry : clusterEntry t path ischeck c = some (nodesOf t (c :: path) ischeck) :=
          if_pos ⟨hcluster, fun h heq => hskip ⟨h, heq⟩⟩
        rw [if_pos rfl, if_pos rfl, hentry, Option.some_or]
      · rw [if_neg hc, if_neg hc]

theorem mem_childSet {cluster : Str} :
    cluster ∈ (Std.ExtTreeSet.ofList (t.children path) : Addrs).toList ↔ cluster :: path ∈ t := by
  rw [Std.ExtTreeSet.mem_toList, Std.ExtTreeSet.mem_ofList, List.contains_iff_mem,
    Tree.mem_children]

private theorem getClusterNode_total (ischeck : Bool) (hpath : path ∈ t) :
    ∃ cfgs : Clusters, Ok serve (getClusterNode path ischeck) t cfgs t ∧
      ∀ cluster, cfgs[cluster]? = clusterEntry t path ischeck cluster := by
  obtain ⟨cfgs, s, hrun, rfl, hcfgs⟩ : ∃ cfgs s, Ok serve
      ((Std.ExtTreeSet.ofList (t.children path) : Addrs).toList.foldlM (addCluster path ischeck) ∅)
      t cfgs s ∧ s = t ∧ ∀ cluster, cfgs[cluster]? =
        if cluster ∈ (Std.ExtTreeSet.ofList (t.children path) : Addrs).toList then
          clusterEntry t path ischeck cluster else none := by
    refine ok_foldlM_total (fun visited cfgs s => s = t ∧ ∀ cluster, cfgs[cluster]? =
      if cluster ∈ visited then clusterEntry t path ischeck cluster else none) ⟨rfl, by simp⟩ ?_
    rintro visited cluster rest hsplit cfgs s ⟨rfl, hloop⟩
    have hcluster : cluster :: path ∈ s := mem_childSet.mp (by simp [hsplit])
    have hnew := Ordered.not_visited hsplit
    obtain ⟨cfgs', hrun, hcfgs'⟩ := addCluster_total cfgs ischeck hcluster
    refine ⟨cfgs', s, hrun, rfl, fun c => ?_⟩
    rw [hcfgs' c, hloop c]
    by_cases hc : c = cluster
    · subst hc
      simp [hnew]
    · simp [hc]
  refine ⟨cfgs, ?_, fun cluster => ?_⟩
  · unfold getClusterNode
    rw [ok_bind]
    exact ⟨_, _, zooGetChildren_ok.mpr ⟨rfl, hpath, rfl⟩, hrun⟩
  · rw [hcfgs cluster]
    by_cases hc : cluster :: path ∈ s
    · rw [if_pos (mem_childSet.mpr hc)]
    · rw [if_neg (mt mem_childSet.mp hc), clusterEntry, if_neg fun h => hc h.1]

/-- `get_cluster_node` only reads, and cannot fail once its path exists. -/
theorem getClusterNode_ok {cfgs : Clusters} :
    Ok serve (getClusterNode path ischeck) t cfgs t' ↔
      path ∈ t ∧ t' = t ∧ ∀ cluster, cfgs[cluster]? = clusterEntry t path ischeck cluster := by
  constructor
  · intro h
    have hpath : path ∈ t := by
      obtain ⟨_, _, hcall, _⟩ := ok_bind.mp h
      exact (zooGetChildren_ok.mp hcall).2.1
    obtain ⟨cfgs', hrun, hcfgs⟩ := getClusterNode_total ischeck hpath
    obtain ⟨rfl, rfl⟩ := hrun.unique h
    exact ⟨hpath, rfl, hcfgs⟩
  · rintro ⟨hpath, rfl, hcfgs⟩
    obtain ⟨cfgs', hrun, hcfgs'⟩ := getClusterNode_total ischeck hpath
    have heq : cfgs' = cfgs := Std.ExtTreeMap.ext_getElem? fun c => by rw [hcfgs, hcfgs']
    exact heq ▸ hrun

/-- `get_cluster_node` succeeds on any tree that has the path: what it does not accept it skips. -/
theorem getClusterNode_runs (ischeck : Bool) (hpath : path ∈ t) :
    ∃ cfgs, Ok serve (getClusterNode path ischeck) t cfgs t := by
  obtain ⟨cfgs, hrun, _⟩ := getClusterNode_total ischeck hpath
  exact ⟨cfgs, hrun⟩

/-- A cluster is read with its nodes; its name must be numbered only where this is checked. -/
theorem clusterEntry_some {cluster : Str} {nodes : Addrs} :
    clusterEntry t path ischeck cluster = some nodes ↔
      cluster :: path ∈ t ∧ (ischeck → cutIdx clusterPrefix cluster ≠ -1) ∧
        nodes = nodesOf t (cluster :: path) ischeck := by
  rw [clusterEntry]
  split
  · next h =>
    rw [Option.some.injEq]
    exact ⟨fun heq => ⟨h.1, h.2, heq.symm⟩, fun hnodes => hnodes.2.2.symm⟩
  · next h => exact ⟨fun heq => (nomatch heq), fun hnodes => absurd ⟨hnodes.1, hnodes.2.1⟩ h⟩

end Reads

/-! ## Reading the check nodes

`get_check` walks the nodes of a cluster in name order, and deletes a node whose name
has no number or whose data an earlier node carries. -/

/-- The node is there and holds these bytes. -/
def HasData (t : Tree) (q : Path) (data : Str) : Prop :=
  ∃ node, t.get q = some node ∧ node.data = some data

theorem HasData.mem {t : Tree} {q : Path} {data : Str} (h : HasData t q data) : q ∈ t := by
  obtain ⟨node, hget, _⟩ := h
  exact Tree.mem_of_get hget

theorem HasData.unique {t : Tree} {q : Path} {d d' : Str} (h : HasData t q d)
    (h' : HasData t q d') : d = d' := by
  obtain ⟨node, hget, hdata⟩ := h
  obtain ⟨node', hget', hdata'⟩ := h'
  rw [hget] at hget'
  cases hget'
  rw [hdata] at hdata'
  exact Option.some.inj hdata'

theorem HasData.congr {t t' : Tree} {q : Path} {data : Str} (h : t'.get q = t.get q) :
    HasData t' q data ↔ HasData t q data := by
  rw [HasData, HasData, h]

/-- The name has a number, and no smaller numbered name carries the same data. -/
def Survives (t : Tree) (base : Path) (node : Str) : Prop :=
  cutIdx redisPrefix node ≠ -1 ∧ ∀ earlier data, compare earlier node = .lt →
    cutIdx redisPrefix earlier ≠ -1 → HasData t (earlier :: base) data →
      ¬ HasData t (node :: base) data

/-- What one check node adds to the map of its cluster. -/
def noteCheck (rdis : StrMap) (node data : Str) : StrMap :=
  if cutIdx redisPrefix node = -1 then rdis
  else match rdis[data]? with
    | some kept =>
      if cutIdx redisPrefix node < cutIdx redisPrefix kept then rdis.insert data node else rdis
    | none => rdis.insert data node

/-- Whatever the map then says, the node just read is the one that is deleted. -/
theorem getCheckNode_ok {t t' : Tree} {path : Path} {cluster node : Str} {rdis rdis' : StrMap} :
    Ok serve (getCheckNode path cluster rdis node) t rdis' t' ↔
      ∃ data, HasData t (node :: cluster :: path) data ∧ rdis' = noteCheck rdis node data ∧
        if cutIdx redisPrefix node ≠ -1 ∧ data ∉ rdis then t' = t
        else t.delete (node :: cluster :: path) = .ok t' := by
  unfold getCheckNode noteCheck
  rw [ok_bind]
  simp only [orReturn_ok, getData_ok]
  constructor
  · rintro ⟨data, s, ⟨rfl, hdata⟩, hrun⟩
    refine ⟨data, hdata, ?_⟩
    split at hrun
    · next hidx =>
      obtain ⟨_, s', hdelete, hpure⟩ := ok_bind.mp hrun
      obtain ⟨rfl, rfl⟩ := ok_pure.mp hpure
      rw [if_pos hidx, if_neg fun h => h.1 hidx]
      exact ⟨rfl, deleteNode_ok.mp (orReturn_ok.mp hdelete)⟩
    · next hidx =>
      rw [if_neg hidx]
      cases hkept : rdis[data]? with
      | some kept =>
        have hmem : ¬ (cutIdx redisPrefix node ≠ -1 ∧ data ∉ rdis) := fun h =>
          h.2 (Ordered.mem_iff_getElem?.mpr ⟨kept, hkept⟩)
        rw [if_neg hmem]
        simp only [hkept] at hrun
        split at hrun
        · next hless =>
          obtain ⟨_, s', hdelete, hpure⟩ := ok_bind.mp hrun
          obtain ⟨rfl, rfl⟩ := ok_pure.mp hpure
          rw [Std.ExtTreeMap.getElem?_insert_self] at hdelete
          simp only [if_pos hless, true_and]
          exact deleteNode_ok.mp (orReturn_ok.mp hdelete)
        · next hless =>
          obtain ⟨_, s', hdelete, hpure⟩ := ok_bind.mp hrun
          obtain ⟨rfl, rfl⟩ := ok_pure.mp hpure
          simp only [if_neg hless, true_and]
          exact deleteNode_ok.mp (orReturn_ok.mp hdelete)
      | none =>
        rw [if_pos ⟨hidx, Ordered.not_mem_iff_getElem?.mpr hkept⟩]
        simp only [hkept] at hrun
        obtain ⟨rfl, rfl⟩ := ok_pure.mp hrun
        exact ⟨rfl, rfl⟩
  · rintro ⟨data, hdata, rfl, heffect⟩
    refine ⟨data, t, ⟨rfl, hdata⟩, ?_⟩
    by_cases hidx : cutIdx redisPrefix node = -1
    · rw [if_neg fun h => h.1 hidx] at heffect
      rw [if_pos hidx, if_pos hidx, ok_bind]
      exact ⟨(), t', orReturn_ok.mpr (deleteNode_ok.mpr heffect), ok_pure.mpr ⟨rfl, rfl⟩⟩
    · rw [if_neg hidx, if_neg hidx]
      cases hkept : rdis[data]? with
      | some kept =>
        have hmem : ¬ (cutIdx redisPrefix node ≠ -1 ∧ data ∉ rdis) := fun h =>
          h.2 (Ordered.mem_iff_getElem?.mpr ⟨kept, hkept⟩)
        rw [if_neg hmem] at heffect
        dsimp only
        split
        · rw [ok_bind, Std.ExtTreeMap.getElem?_insert_self]
          exact ⟨(), t', orReturn_ok.mpr (deleteNode_ok.mpr heffect), ok_pure.mpr ⟨rfl, rfl⟩⟩
        · rw [ok_bind]
          exact ⟨(), t', orReturn_ok.mpr (deleteNode_ok.mpr heffect), ok_pure.mpr ⟨rfl, rfl⟩⟩
      | none =>
        rw [if_pos ⟨hidx, Ordered.not_mem_iff_getElem?.mpr hkept⟩] at heffect
        subst heffect
        exact ok_pure.mpr ⟨rfl, rfl⟩

/-- An entry of `rdis` after a node was read: the old one, or this node where its number is less. -/
theorem noteCheck_get {rdis : StrMap} {node data d n : Str}
    (h : (noteCheck rdis node data)[d]? = some n) :
    rdis[d]? = some n ∨ (n = node ∧ d = data ∧ cutIdx redisPrefix node ≠ -1 ∧
      ∀ kept, rdis[data]? = some kept → cutIdx redisPrefix node < cutIdx redisPrefix kept) := by
  unfold noteCheck at h
  split at h
  · exact Or.inl h
  · next hidx =>
    split at h
    · next kept hkept =>
      split at h
      · next hless =>
        rw [Ordered.getElem?_insert] at h
        split at h
        · next hd =>
          cases h
          refine Or.inr ⟨rfl, hd, hidx, fun kept' hkept' => ?_⟩
          rw [hkept] at hkept'
          cases hkept'
          exact hless
        · exact Or.inl h
      · exact Or.inl h
    · next hkept =>
      rw [Ordered.getElem?_insert] at h
      split at h
      · next hd =>
        cases h
        refine Or.inr ⟨rfl, hd, hidx, fun kept' hkept' => ?_⟩
        rw [hkept] at hkept'
        cases hkept'
      · exact Or.inl h

/-- Of two nodes for one address the one with the smaller number is named. -/
theorem noteCheck_self {rdis : StrMap} {node data kept : Str} (hidx : cutIdx redisPrefix node ≠ -1)
    (h : rdis[data]? = some kept) : (noteCheck rdis node data)[data]? =
      some (if cutIdx redisPrefix node < cutIdx redisPrefix kept then node else kept) := by
  simp only [noteCheck, if_neg hidx, h]
  split
  · exact Std.ExtTreeMap.getElem?_insert_self
  · exact h

/-- The addresses of `rdis` are those of the numbered nodes that were read. -/
theorem mem_noteCheck {rdis : StrMap} {node data d : Str} :
    d ∈ noteCheck rdis node data ↔ d ∈ rdis ∨ (d = data ∧ cutIdx redisPrefix node ≠ -1) := by
  unfold noteCheck
  split
  · next hidx => simp [hidx]
  · next hidx =>
    split
    · next kept hkept =>
      have hmem : data ∈ rdis := Ordered.mem_iff_getElem?.mpr ⟨kept, hkept⟩
      have hsame : d ∈ rdis ↔ d ∈ rdis ∨ (d = data ∧ cutIdx redisPrefix node ≠ -1) := by
        refine ⟨Or.inl, ?_⟩
        rintro (h | ⟨rfl, _⟩)
        · exact h
        · exact hmem
      split
      · rw [Ordered.mem_insert_map, ← hsame]
        refine ⟨?_, Or.inr⟩
        rintro (rfl | h)
        · exact hmem
        · exact h
      · exact hsame
    · rw [Ordered.mem_insert_map]
      simp [hidx, or_comm]

/-- What `get_check` has done to a cluster when it has read the nodes in `visited`. The map
names, for every address, the first node with the smallest number: not always the node
that is left in the tree. -/
structure ClusterRead (t : Tree) (base : Path) (visited : Str → Prop) (rdis : StrMap)
    (t' : Tree) : Prop where
  data : ∀ n, visited n → ∃ d, HasData t (n :: base) d
  kept : ∀ n, visited n → Survives t base n → t'.get (n :: base) = t.get (n :: base)
  gone : ∀ n, visited n → ¬ Survives t base n → n :: base ∉ t'
  covers : ∀ n d, visited n → cutIdx redisPrefix n ≠ -1 → HasData t (n :: base) d → d ∈ rdis
  survivor : ∀ d ∈ rdis, ∃ n, visited n ∧ Survives t base n ∧ HasData t (n :: base) d
  names : ∀ d n, rdis[d]? = some n →
    visited n ∧ cutIdx redisPrefix n ≠ -1 ∧ HasData t (n :: base) d
  least : ∀ d n m, rdis[d]? = some n → visited m → cutIdx redisPrefix m ≠ -1 →
    HasData t (m :: base) d → cutIdx redisPrefix n ≤ cutIdx redisPrefix m ∧
      (compare m n = .lt → cutIdx redisPrefix n < cutIdx redisPrefix m)

/-- Outside the nodes read, the tree is the same. -/
structure NodesRead (t : Tree) (base : Path) (visited : Str → Prop) (rdis : StrMap)
    (t' : Tree) : Prop extends ClusterRead t base visited rdis t' where
  frame : ∀ q, (∀ n, visited n → q ≠ n :: base) → t'.get q = t.get q ∧ t'.counter q = t.counter q

/-- Which nodes survive is decided by the nodes of one cluster. -/
theorem Survives.congr {t s : Tree} {base : Path}
    (hget : ∀ n, s.get (n :: base) = t.get (n :: base)) (n : Str) :
    Survives s base n ↔ Survives t base n := by
  simp only [Survives, HasData, hget]

/-- The effect on a cluster is read off the nodes of that cluster. -/
theorem ClusterRead.congr {t s t' s' : Tree} {base : Path} {visited : Str → Prop} {rdis : StrMap}
    (h : ClusterRead s base visited rdis s') (hget : ∀ n, s.get (n :: base) = t.get (n :: base))
    (hget' : ∀ n, t'.get (n :: base) = s'.get (n :: base)) :
    ClusterRead t base visited rdis t' := by
  have hdata : ∀ n d, HasData s (n :: base) d ↔ HasData t (n :: base) d :=
    fun n d => HasData.congr (hget n).symm |>.symm
  have hsurvives := Survives.congr hget
  refine ⟨?_, ?_, ?_, ?_, ?_, ?_, ?_⟩
  · intro n hn
    obtain ⟨d, hd⟩ := h.data n hn
    exact ⟨d, (hdata n d).mp hd⟩
  · intro n hn hsurvive
    rw [hget', h.kept n hn ((hsurvives n).mpr hsurvive), hget]
  · intro n hn hdead
    have hgone := h.gone n hn (mt (hsurvives n).mp hdead)
    rw [Tree.not_mem_iff] at hgone ⊢
    rw [hget', hgone]
  · intro n d hn hidx hd
    exact h.covers n d hn hidx ((hdata n d).mpr hd)
  · intro d hd
    obtain ⟨n, hn, hsurvive, hnd⟩ := h.survivor d hd
    exact ⟨n, hn, (hsurvives n).mp hsurvive, (hdata n d).mp hnd⟩
  · intro d n hn
    obtain ⟨hv, hidx, hd⟩ := h.names d n hn
    exact ⟨hv, hidx, (hdata n d).mp hd⟩
  · intro d n m hn hm hidx hd
    exact h.least d n m hn hm hidx ((hdata m d).mpr hd)

/-- Nothing is read at the start. -/
theorem NodesRead.start (t : Tree) (base : Path) : NodesRead t base (fun _ => False) ∅ t where
  frame _ _ := ⟨rfl, rfl⟩
  data _ h := h.elim
  kept _ h := h.elim
  gone _ h := h.elim
  covers _ _ h := h.elim
  survivor _ h := by simp at h
  names _ _ h := by simp at h
  least _ _ _ h := by simp at h

/-- The node just read survives exactly if its address is new to the map. -/
theorem NodesRead.survives_iff {t s : Tree} {base : Path} {visited : Str → Prop} {rdis : StrMap}
    {node data : Str} (h : NodesRead t base visited rdis s)
    (sorted : ∀ m, visited m → compare m node = .lt)
    (closed : ∀ m d, compare m node = .lt → HasData t (m :: base) d → visited m)
    (hdata : HasData t (node :: base) data) :
    Survives t base node ↔ cutIdx redisPrefix node ≠ -1 ∧ data ∉ rdis := by
  constructor
  · rintro ⟨hidx, hfirst⟩
    refine ⟨hidx, fun hmem => ?_⟩
    obtain ⟨m, hm⟩ := Ordered.mem_iff_getElem?.mp hmem
    obtain ⟨hvisited, hmidx, hmdata⟩ := h.names _ _ hm
    exact hfirst m data (sorted m hvisited) hmidx hmdata hdata
  · rintro ⟨hidx, hnew⟩
    refine ⟨hidx, fun m d hless hmidx hmdata hsame => hnew ?_⟩
    have heq : d = data := hsame.unique hdata
    subst heq
    exact h.covers m d (closed m d hless hmdata) hmidx hmdata

/-- One more node in the order of the names. It is deleted where its address was read before, and
also where it has no number. -/
theorem NodesRead.step {t s s' : Tree} {base : Path} {visited : Str → Prop} {rdis : StrMap}
    {node data : Str} (h : NodesRead t base visited rdis s)
    (sorted : ∀ m, visited m → compare m node = .lt)
    (closed : ∀ m d, compare m node = .lt → HasData t (m :: base) d → visited m)
    (hdata : HasData t (node :: base) data)
    (heffect : if cutIdx redisPrefix node ≠ -1 ∧ data ∉ rdis then s' = s
      else s.Deleted node base s') :
    NodesRead t base (fun n => visited n ∨ n = node) (noteCheck rdis node data) s' := by
  have hnew : ¬ visited node := fun hv => by
    have hlt := sorted node hv
    rw [Std.ReflOrd.compare_self] at hlt
    cases hlt
  have hsurvives := h.survives_iff sorted closed hdata
  have others : ∀ q, q ≠ node :: base → s'.get q = s.get q ∧ s'.counter q = s.counter q := by
    intro q hq
    split at heffect
    · subst heffect
      exact ⟨rfl, rfl⟩
    · exact ⟨by rw [heffect.get, if_neg hq], by rw [heffect.counter, if_neg hq]⟩
  have hself : s.get (node :: base) = t.get (node :: base) := by
    refine (h.frame _ fun n hn heq => hnew ?_).1
    cases heq
    exact hn
  refine ⟨⟨?_, ?_, ?_, ?_, ?_, ?_, ?_⟩, ?frame⟩
  case frame =>
    intro q hq
    have hnode : q ≠ node :: base := hq node (Or.inr rfl)
    have hframe := h.frame q fun n hn => hq n (Or.inl hn)
    rw [(others q hnode).1, (others q hnode).2]
    exact hframe
  · rintro n (hn | rfl)
    · exact h.data n hn
    · exact ⟨data, hdata⟩
  · rintro n (hn | rfl) hsurvive
    · have hne : n :: base ≠ node :: base := fun heq => hnew (by cases heq; exact hn)
      rw [(others _ hne).1, h.kept n hn hsurvive]
    · rw [if_pos (hsurvives.mp hsurvive)] at heffect
      rw [heffect, hself]
  · rintro n (hn | rfl) hdead
    · have hne : n :: base ≠ node :: base := fun heq => hnew (by cases heq; exact hn)
      have hgone := h.gone n hn hdead
      rw [Tree.not_mem_iff] at hgone ⊢
      rw [(others _ hne).1, hgone]
    · rw [if_neg fun hc => hdead (hsurvives.mpr hc)] at heffect
      rw [heffect.mem_iff]
      exact fun hm => hm.1 rfl
  · rintro n d (hn | rfl) hidx hd
    · exact mem_noteCheck.mpr (Or.inl (h.covers n d hn hidx hd))
    · exact mem_noteCheck.mpr (Or.inr ⟨hd.unique hdata, hidx⟩)
  · intro d hd
    by_cases hold : d ∈ rdis
    · obtain ⟨n, hn, hsurvive, hnd⟩ := h.survivor d hold
      exact ⟨n, Or.inl hn, hsurvive, hnd⟩
    · obtain ⟨rfl, hidx⟩ := (mem_noteCheck.mp hd).resolve_left hold
      exact ⟨node, Or.inr rfl, hsurvives.mpr ⟨hidx, hold⟩, hdata⟩
  · intro d n hget
    rcases noteCheck_get hget with hold | ⟨rfl, rfl, hidx, _⟩
    · obtain ⟨hn, hidx, hd⟩ := h.names d n hold
      exact ⟨Or.inl hn, hidx, hd⟩
    · exact ⟨Or.inr rfl, hidx, hdata⟩
  · rintro d n m hget (hm | rfl) hidx hd
    · rcases noteCheck_get hget with hold | ⟨rfl, rfl, _, hless⟩
      · exact h.least d n m hold hm hidx hd
      · obtain ⟨kept, hkept⟩ := Ordered.mem_iff_getElem?.mp (h.covers m d hm hidx hd)
        have hle := (h.least d kept m hkept hm hidx hd).1
        have hlt := hless kept hkept
        exact ⟨by omega, fun _ => by omega⟩
    · have heq : d = data := hd.unique hdata
      subst heq
      rcases noteCheck_get hget with hold | ⟨rfl, _, _, _⟩
      · obtain ⟨hn, _, _⟩ := h.names d n hold
        have hlt := sorted n hn
        have hnode : compare m n ≠ .lt := by
          rw [Std.OrientedOrd.eq_swap, hlt]
          decide
        rw [noteCheck_self hidx hold] at hget
        refine ⟨?_, fun hless => absurd hless hnode⟩
        split at hget
        · cases hget
          exact le_refl _
        · next hle => exact Int.not_lt.mp hle
      · refine ⟨le_refl _, fun hless => ?_⟩
        rw [Std.ReflOrd.compare_self] at hless
        cases hless

/-- The loop over the nodes of a cluster reads all of them. -/
theorem readNodes_ok {t t' : Tree} {path : Path} {cluster : Str} {nodes : Addrs} {rdis : StrMap}
    (hnodes : ∀ n, n ∈ nodes ↔ n :: cluster :: path ∈ t)
    (run : Ok serve (nodes.toList.foldlM (getCheckNode path cluster) ∅) t rdis t') :
    NodesRead t (cluster :: path) (fun n => n :: cluster :: path ∈ t) rdis t' := by
  have hend : NodesRead t (cluster :: path) (· ∈ nodes.toList) rdis t' := by
    refine run.foldlM (fun visited rdis s => NodesRead t (cluster :: path) (· ∈ visited) rdis s)
      ?_ ?_
    · simpa using NodesRead.start t (cluster :: path)
    · intro visited node rest hsplit rdis s rdis' s' hrun hread
      obtain ⟨_, sorted, closed⟩ := Ordered.visiting_set hsplit
      obtain ⟨data, hdata, rfl, heffect⟩ := getCheckNode_ok.mp hrun
      have hself : s.get (node :: cluster :: path) = t.get (node :: cluster :: path) := by
        refine (hread.frame _ fun n hn heq => Ordered.not_visited hsplit ?_).1
        cases heq
        exact hn
      have hdeleted : if cutIdx redisPrefix node ≠ -1 ∧ data ∉ rdis then s' = s
          else s.Deleted node (cluster :: path) s' := by
        split at heffect
        · next hc =>
          rw [if_pos hc]
          exact heffect
        · next hc =>
          rw [if_neg hc]
          exact Tree.delete_ok heffect
      have hstep := hread.step sorted
        (fun m d hless hm => closed m ((hnodes m).mpr hm.mem) hless)
        ((HasData.congr hself).mp hdata) hdeleted
      simpa using hstep
  simpa only [Std.ExtTreeSet.mem_toList, hnodes] using hend

/-- What `get_check` returns and leaves behind. -/
structure CheckRead (t : Tree) (path : Path) (visited : Str → Prop) (chks : Checks)
    (t' : Tree) : Prop where
  frame : ∀ q, (∀ n c, visited c → n :: c :: path ∈ t → q ≠ n :: c :: path) →
    t'.get q = t.get q ∧ t'.counter q = t.counter q
  keys : ∀ c, c ∈ chks ↔ visited c
  clusters : ∀ c rdis, chks[c]? = some rdis →
    ClusterRead t (c :: path) (fun n => n :: c :: path ∈ t) rdis t'

private theorem getCheckCluster_step {t s s' : Tree} {path : Path} {visited : List Str}
    {chks chks' : Checks} {cluster : Str} {nodes : Addrs}
    (h : CheckRead t path (· ∈ visited) chks s) (hnew : cluster ∉ visited)
    (hnodes : ∀ n, n ∈ nodes ↔ n :: cluster :: path ∈ t)
    (run : Ok serve (getCheckCluster path chks (cluster, nodes)) s chks' s') :
    CheckRead t path (· ∈ visited ++ [cluster]) chks' s' := by
  unfold getCheckCluster at run
  obtain ⟨rdis, s₁, hread, hpure⟩ := ok_bind.mp run
  obtain ⟨rfl, rfl⟩ := ok_pure.mp hpure
  have here : ∀ n, s.get (n :: cluster :: path) = t.get (n :: cluster :: path) := by
    intro n
    refine (h.frame _ fun m c hc _ heq => hnew ?_).1
    cases heq
    exact hc
  have hsame : ∀ n, n :: cluster :: path ∈ s ↔ n :: cluster :: path ∈ t := by
    intro n
    rw [Tree.mem_iff, Tree.mem_iff, here]
  have hcluster := readNodes_ok (fun n => (hnodes n).trans (hsame n).symm) hread
  have elsewhere : ∀ n c, c ≠ cluster → s₁.get (n :: c :: path) = s.get (n :: c :: path) := by
    intro n c hc
    refine (hcluster.frame _ fun m _ heq => hc ?_).1
    cases heq
    rfl
  refine ⟨?_, ?_, ?_⟩
  · intro q hq
    have hframe := h.frame q fun n c hc => hq n c (by simp [hc])
    have hframe' := hcluster.frame q fun n hn => hq n cluster (by simp) ((hsame n).mp hn)
    rw [hframe'.1, hframe'.2]
    exact hframe
  · intro c
    rw [Ordered.mem_insert_map, h.keys c, List.mem_append, List.mem_singleton, or_comm]
  · intro c rdis' hget
    rw [Ordered.getElem?_insert] at hget
    split at hget
    · next hc =>
      subst hc
      cases hget
      have hread := hcluster.toClusterRead.congr here fun _ => rfl
      simpa only [hsame] using hread
    · next hc =>
      exact (h.clusters c rdis' hget).congr (fun _ => rfl) fun n => elsewhere n c hc

/-- A `get_check` that succeeds has read every cluster, and only nodes two levels below its path are
gone. -/
theorem getCheck_ok {t t' : Tree} {path : Path} {chks : Checks}
    (run : Ok serve (getCheck path) t chks t') :
    path ∈ t ∧ CheckRead t path (fun c => c :: path ∈ t) chks t' := by
  unfold getCheck at run
  obtain ⟨cls, s, hcls, hloop⟩ := ok_bind.mp run
  obtain ⟨hpath, rfl, hentries⟩ := getClusterNode_ok.mp (orReturn_ok.mp hcls)
  have hend : CheckRead s path (· ∈ cls.toList.map Prod.fst) chks t' := by
    refine hloop.foldlM (fun visited chks s' =>
      CheckRead s path (· ∈ visited.map Prod.fst) chks s') ?_ ?_
    · exact ⟨fun _ _ => ⟨rfl, rfl⟩, fun c => by simp, fun c rdis h => by simp at h⟩
    · rintro visited ⟨cluster, nodes⟩ rest hsplit chks s₁ chks' s₂ hrun hread
      obtain ⟨hget, hnew⟩ := Ordered.visiting hsplit
      rw [hentries] at hget
      obtain ⟨_, _, rfl⟩ := clusterEntry_some.mp hget
      rw [List.map_append]
      exact getCheckCluster_step hread hnew (fun n => by simp [mem_nodesOf]) hrun
  have hkeys : ∀ c, c ∈ cls.toList.map Prod.fst ↔ c :: path ∈ s := by
    intro c
    rw [Std.ExtTreeMap.map_fst_toList_eq_keys, Std.ExtTreeMap.mem_keys,
      Ordered.mem_iff_getElem?, hentries]
    simp [clusterEntry_some]
  refine ⟨hpath, ?_⟩
  simpa only [hkeys] using hend

/-- `get_check` leaves alone what is not a check node. -/
theorem CheckRead.outside {t t' : Tree} {path : Path} {visited : Str → Prop} {chks : Checks}
    (h : CheckRead t path visited chks t') {q : Path} (hq : ∀ n c, q ≠ n :: c :: path) :
    t'.get q = t.get q ∧ t'.counter q = t.counter q :=
  h.frame q fun n c _ _ => hq n c

/-- Only check nodes are deleted by `get_check`. -/
theorem CheckRead.mem_outside {t t' : Tree} {path : Path} {visited : Str → Prop} {chks : Checks}
    (h : CheckRead t path visited chks t') {q : Path} (hq : ∀ n c, q ≠ n :: c :: path) :
    q ∈ t' ↔ q ∈ t := by
  rw [Tree.mem_iff, Tree.mem_iff, (h.outside hq).1]

/-- `get_check` only deletes. -/
theorem CheckRead.sub {t t' : Tree} {path : Path} {chks : Checks}
    (h : CheckRead t path (fun c => c :: path ∈ t) chks t') {q : Path} {node : Znode}
    (hget : t'.get q = some node) : t.get q = some node := by
  by_cases hread : ∃ n c, n :: c :: path ∈ t ∧ q = n :: c :: path
  · obtain ⟨n, c, hn, rfl⟩ := hread
    have hc : c :: path ∈ t := Tree.mem_parent hn
    obtain ⟨rdis, hrdis⟩ := Ordered.mem_iff_getElem?.mp ((h.keys c).mpr hc)
    have hcluster := h.clusters c rdis hrdis
    by_cases hsurvive : Survives t (c :: path) n
    · rw [← hcluster.kept n hn hsurvive, hget]
    · exact absurd (Tree.mem_of_get hget) (hcluster.gone n hn hsurvive)
  · rw [← (h.frame q fun n c _ hn heq => hread ⟨n, c, hn, heq⟩).1, hget]

/-- Two survivors never carry the same data. -/
theorem Survives.unique {t : Tree} {base : Path} {n m data : Str} (hn : Survives t base n)
    (hm : Survives t base m) (hnd : HasData t (n :: base) data)
    (hmd : HasData t (m :: base) data) : n = m := by
  cases hcompare : compare n m with
  | lt => exact absurd hmd (hm.2 n data hcompare hn.1 hnd)
  | eq => exact Std.LawfulEqOrd.compare_eq_iff_eq.mp hcompare
  | gt =>
    have hless : compare m n = .lt := by
      rw [Std.OrientedOrd.eq_swap, hcompare]
      rfl
    exact absurd hnd (hn.2 m data hless hm.1 hmd)

/-- A node left by `get_check` is a survivor of the tree it read. -/
theorem CheckRead.survives {t t' : Tree} {path : Path} {chks : Checks}
    (h : CheckRead t path (fun c => c :: path ∈ t) chks t') {n c : Str}
    (hn : n :: c :: path ∈ t') : n :: c :: path ∈ t ∧ Survives t (c :: path) n := by
  obtain ⟨node, hget⟩ := Tree.mem_iff.mp hn
  have hold : n :: c :: path ∈ t := Tree.mem_of_get (h.sub hget)
  obtain ⟨rdis, hrdis⟩ := Ordered.mem_iff_getElem?.mp ((h.keys c).mpr (Tree.mem_parent hold))
  refine ⟨hold, ?_⟩
  by_contra hdead
  exact (h.clusters c rdis hrdis).gone n hold hdead hn

/-- A check node that survives is left as it was. -/
theorem CheckRead.mem {t t' : Tree} {path : Path} {chks : Checks}
    (h : CheckRead t path (fun c => c :: path ∈ t) chks t') {n c : Str}
    (hn : n :: c :: path ∈ t) (hsurvive : Survives t (c :: path) n) :
    t'.get (n :: c :: path) = t.get (n :: c :: path) := by
  obtain ⟨rdis, hrdis⟩ := Ordered.mem_iff_getElem?.mp ((h.keys c).mpr (Tree.mem_parent hn))
  exact (h.clusters c rdis hrdis).kept n hn hsurvive

/-- Nothing is deleted where every check node survives. -/
theorem CheckRead.unchanged {t t' : Tree} {path : Path} {chks : Checks}
    (h : CheckRead t path (fun c => c :: path ∈ t) chks t')
    (hall : ∀ n c, n :: c :: path ∈ t → Survives t (c :: path) n) (q : Path) :
    t'.get q = t.get q := by
  by_cases hread : ∃ n c, n :: c :: path ∈ t ∧ q = n :: c :: path
  · obtain ⟨n, c, hn, rfl⟩ := hread
    exact h.mem hn (hall n c hn)
  · exact (h.frame q fun n c _ hn heq => hread ⟨n, c, hn, heq⟩).1

end RedisCluster.Source
