import RedisCluster.Library.Program
import RedisCluster.Library.Text

/-!
# A tree of named nodes

The data model of ZooKeeper, as far as clients see it: nodes with data, a parent
for every node, ephemeral nodes that disappear with their session, and
sequential names numbered by a counter of the parent. A path lists its names
from the last to the first, so the parent of `name :: path` is `path`; the empty
path is the root the client works under.

`create` fails on an existing node or a missing parent, `delete` on a missing or
non-empty node. A sequential name has ten digits; once the counter outgrows them
the create fails.
-/

set_option autoImplicit false

namespace RedisCluster.Library

/-- The names from the node up, the root being the empty list. -/
abbrev Path := List Str

/-- The path `path/text`: a slash in the text starts a new name. -/
def Path.slash (path : Path) (text : Str) : Path :=
  (text.splitOn '/').foldl (fun path name => name :: path) path

/-- A name with a slash would come out as a deeper path. -/
theorem Path.slash_name {path : Path} {name : Str} (h : '/' ∉ name) :
    path.slash name = name :: path := by
  rw [slash, List.splitOn_eq_singleton h]
  rfl

/-- The text only adds names: the path stays the lower end, and at least one is added. -/
theorem Path.slash_eq (path : Path) (text : Str) :
    ∃ name names, path.slash text = name :: (names ++ path) := by
  have split : ∀ (texts : List Str) (path : Path),
      ∃ names, texts.foldl (fun path name => name :: path) path = names ++ path := by
    intro texts
    induction texts with
    | nil => exact fun path => ⟨[], rfl⟩
    | cons name texts ih =>
      intro path
      obtain ⟨names, h⟩ := ih (name :: path)
      exact ⟨names ++ [name], by simp [h]⟩
  cases htexts : text.splitOn '/' with
  | nil => exact absurd htexts (List.splitOn_ne_nil _ _)
  | cons first texts =>
    rw [slash, htexts, List.foldl_cons]
    obtain ⟨names, h⟩ := split texts (first :: path)
    rw [h]
    cases names with
    | nil => exact ⟨first, [], rfl⟩
    | cons name names => exact ⟨name, names ++ [first], by simp⟩

/-- The text adds one name only where it is that name. -/
theorem Path.slash_child {path : Path} {text name : Str} (h : path.slash text = name :: path) :
    text = name := by
  have hfold : ∀ (texts : List Str) (path : Path),
      texts.foldl (fun path name => name :: path) path = texts.reverse ++ path := by
    intro texts
    induction texts with
    | nil => exact fun path => rfl
    | cons first texts ih =>
      intro path
      rw [List.foldl_cons, ih, List.reverse_cons, List.append_assoc]
      rfl
  rw [slash, hfold] at h
  have hnames : (text.splitOn '/').reverse = [name] := List.append_cancel_right h
  have hsplit : text.splitOn '/' = [name] := by
    rw [← List.reverse_reverse (text.splitOn '/'), hnames]
    rfl
  have htext : ['/'].intercalate (text.splitOn '/') = text := List.intercalate_splitOn '/'
  rw [hsplit, List.intercalate_singleton] at htext
  exact htext.symm

structure Znode where
  /-- `none` is a node without data, which is not the empty byte string. -/
  data : Option Str
  /-- The session an ephemeral node belongs to. -/
  owner : Option Nat
  deriving DecidableEq, Repr

/-- How a node is created. A sequence node gets a number behind its name. -/
inductive CreateMode where
  | persistent
  | ephemeral (session : Nat)
  | sequence
  deriving DecidableEq, Repr

/-- Only an ephemeral node has an owner. -/
def CreateMode.owner : CreateMode → Option Nat
  | .ephemeral session => some session
  | _ => none

/-- The errors that the calls below tell apart. -/
inductive ZkError where
  | noNode | nodeExists | notEmpty | badArguments | connectionLoss
  deriving DecidableEq, Repr

def ValidName (name : Str) : Prop := name ≠ [] ∧ '/' ∉ name

instance (name : Str) : Decidable (ValidName name) := inferInstanceAs (Decidable (_ ∧ _))

/-- The nodes, with a counter for the next sequence number below each. The parent of every node is
there, and names are valid. -/
structure Tree where
  nodes : Std.ExtTreeMap Path Znode
  /-- The number of the next sequential child. -/
  counters : Std.ExtTreeMap Path Nat
  root : ∃ node, nodes[([] : Path)]? = some node ∧ node.owner = none
  parent : ∀ name path, name :: path ∈ nodes → path ∈ nodes ∧ ValidName name

namespace Tree

instance : Membership Path Tree := ⟨fun t path => path ∈ t.nodes⟩

instance (path : Path) (t : Tree) : Decidable (path ∈ t) :=
  inferInstanceAs (Decidable (path ∈ t.nodes))

/-- The node at a path. -/
def get (t : Tree) (path : Path) : Option Znode := t.nodes[path]?

/-- A node that does not exist counts from 0. -/
def counter (t : Tree) (path : Path) : Nat :=
  if path ∈ t then t.counters[path]?.getD 0 else 0

theorem mem_iff {t : Tree} {path : Path} : path ∈ t ↔ ∃ node, t.get path = some node := by
  change path ∈ t.nodes ↔ _
  rw [Std.ExtTreeMap.mem_iff_isSome_getElem?, Option.isSome_iff_exists]
  rfl

theorem not_mem_iff {t : Tree} {path : Path} : path ∉ t ↔ t.get path = none := by
  rw [mem_iff, Option.eq_none_iff_forall_ne_some]
  simp

/-- Where there is no node there is no counter. -/
theorem counter_of_not_mem {t : Tree} {path : Path} (h : path ∉ t) : t.counter path = 0 :=
  if_neg h

theorem mem_of_get {t : Tree} {path : Path} {node : Znode} (h : t.get path = some node) :
    path ∈ t :=
  mem_iff.mpr ⟨node, h⟩

theorem root_mem (t : Tree) : [] ∈ t := by
  obtain ⟨node, h, _⟩ := t.root
  exact mem_of_get h

/-- Trees have no gaps. -/
theorem mem_parent {t : Tree} {name : Str} {path : Path} (h : name :: path ∈ t) : path ∈ t :=
  (t.parent name path h).1

theorem validName_of_mem {t : Tree} {name : Str} {path : Path} (h : name :: path ∈ t) :
    ValidName name :=
  (t.parent name path h).2

/-- A tree is its nodes and its counters. -/
theorem ext {t t' : Tree} (hget : ∀ path, t.get path = t'.get path)
    (hcounter : t.counters = t'.counters) : t = t' := by
  cases t with
  | mk nodes counters root parent =>
    cases t' with
    | mk nodes' counters' root' parent' =>
      have hnodes : nodes = nodes' := Std.ExtTreeMap.ext_getElem? hget
      cases hnodes
      cases hcounter
      rfl

/-- Only the root: what a client finds before it has created anything. -/
def empty : Tree where
  nodes := (∅ : Std.ExtTreeMap Path Znode).insert [] ⟨none, none⟩
  counters := ∅
  root := ⟨⟨none, none⟩, Std.ExtTreeMap.getElem?_insert_self, rfl⟩
  parent := by
    intro name path h
    rw [Std.ExtTreeMap.mem_insert, Std.LawfulEqCmp.compare_eq_iff_eq] at h
    rcases h with h | h
    · cases h
    · exact absurd h Std.ExtTreeMap.not_mem_empty

theorem mem_empty {path : Path} : path ∈ empty ↔ path = [] := by
  change path ∈ empty.nodes ↔ _
  rw [empty, Std.ExtTreeMap.mem_insert, Std.LawfulEqCmp.compare_eq_iff_eq]
  constructor
  · rintro (h | h)
    · exact h.symm
    · exact absurd h Std.ExtTreeMap.not_mem_empty
  · intro h
    exact Or.inl h.symm

/-! ## Children -/

/-- The names below a path, in their order. -/
def children (t : Tree) (path : Path) : List Str :=
  t.nodes.keys.filterMap fun
    | [] => none
    | name :: parent => if parent = path then some name else none

@[simp] theorem mem_children {t : Tree} {path : Path} {name : Str} :
    name ∈ t.children path ↔ name :: path ∈ t := by
  rw [children, List.mem_filterMap]
  constructor
  · rintro ⟨key, hkey, h⟩
    cases key with
    | nil => cases h
    | cons head parent =>
      dsimp only at h
      split at h
      · next heq =>
        subst heq
        cases h
        exact Std.ExtTreeMap.mem_keys.mp hkey
      · cases h
  · intro h
    exact ⟨name :: path, Std.ExtTreeMap.mem_keys.mpr h, by simp⟩

/-! ## Adding and removing one node -/

/-- One node more, below a node that is there. -/
def add (t : Tree) (name : Str) (path : Path) (node : Znode) (hname : ValidName name)
    (hpath : path ∈ t) : Tree where
  nodes := t.nodes.insert (name :: path) node
  counters := (t.counters.insert path (t.counter path + 1)).erase (name :: path)
  root := by
    obtain ⟨root, h, howner⟩ := t.root
    refine ⟨root, ?_, howner⟩
    rw [Std.ExtTreeMap.getElem?_insert, if_neg, h]
    rw [Std.LawfulEqCmp.compare_eq_iff_eq]
    exact List.cons_ne_nil _ _
  parent := by
    intro other parent h
    rw [Std.ExtTreeMap.mem_insert, Std.LawfulEqCmp.compare_eq_iff_eq] at h
    rcases h with h | h
    · cases h
      exact ⟨Std.ExtTreeMap.mem_insert.mpr (Or.inr hpath), hname⟩
    · exact ⟨Std.ExtTreeMap.mem_insert.mpr (Or.inr (t.parent _ _ h).1), (t.parent _ _ h).2⟩

/-- One leaf less. -/
def remove (t : Tree) (name : Str) (path : Path) (leaf : t.children (name :: path) = []) :
    Tree where
  nodes := t.nodes.erase (name :: path)
  counters := t.counters.erase (name :: path)
  root := by
    obtain ⟨root, h, howner⟩ := t.root
    refine ⟨root, ?_, howner⟩
    rw [Std.ExtTreeMap.getElem?_erase, if_neg, h]
    rw [Std.LawfulEqCmp.compare_eq_iff_eq]
    exact List.cons_ne_nil _ _
  parent := by
    intro other parent h
    rw [Std.ExtTreeMap.mem_erase] at h
    refine ⟨Std.ExtTreeMap.mem_erase.mpr ⟨?_, (t.parent _ _ h.2).1⟩, (t.parent _ _ h.2).2⟩
    rw [ne_eq, Std.LawfulEqCmp.compare_eq_iff_eq]
    intro heq
    subst heq
    have hchild : other ∈ t.children (name :: path) := mem_children.mpr h.2
    rw [leaf] at hchild
    cases hchild

variable {t : Tree} {name : Str} {path : Path} {node : Znode}

theorem get_add (hname : ValidName name) (hpath : path ∈ t) (q : Path) :
    (t.add name path node hname hpath).get q =
      if q = name :: path then some node else t.get q := by
  simp only [get, add, Std.ExtTreeMap.getElem?_insert, Std.LawfulEqCmp.compare_eq_iff_eq,
    eq_comm (a := q)]

theorem get_remove (leaf : t.children (name :: path) = []) (q : Path) :
    (t.remove name path leaf).get q = if q = name :: path then none else t.get q := by
  simp only [get, remove, Std.ExtTreeMap.getElem?_erase, Std.LawfulEqCmp.compare_eq_iff_eq,
    eq_comm (a := q)]

theorem mem_add (hname : ValidName name) (hpath : path ∈ t) (q : Path) :
    q ∈ t.add name path node hname hpath ↔ q = name :: path ∨ q ∈ t := by
  rw [mem_iff, mem_iff, get_add]
  by_cases hq : q = name :: path <;> simp [hq]

theorem mem_remove (leaf : t.children (name :: path) = []) (q : Path) :
    q ∈ t.remove name path leaf ↔ q ≠ name :: path ∧ q ∈ t := by
  rw [mem_iff, mem_iff, get_remove]
  by_cases hq : q = name :: path <;> simp [hq]

/-- A create takes a number from its parent, whatever its mode. -/
theorem counter_add (hname : ValidName name) (hpath : path ∈ t) (q : Path) :
    (t.add name path node hname hpath).counter q =
      if q = name :: path then 0 else if q = path then t.counter path + 1 else t.counter q := by
  rw [counter, counter, counter, if_pos hpath]
  simp only [mem_add]
  simp only [counter, if_pos hpath, add, Std.ExtTreeMap.getElem?_erase,
    Std.ExtTreeMap.getElem?_insert, Std.LawfulEqCmp.compare_eq_iff_eq, eq_comm (a := q)]
  by_cases hself : name :: path = q
  · simp [hself]
  · by_cases hparent : path = q
    · subst hparent
      simp [hself, hpath]
    · simp [hself, hparent]

theorem counter_remove (leaf : t.children (name :: path) = []) (q : Path) :
    (t.remove name path leaf).counter q = if q = name :: path then 0 else t.counter q := by
  rw [counter, counter]
  simp only [mem_remove]
  simp only [remove, Std.ExtTreeMap.getElem?_erase, Std.LawfulEqCmp.compare_eq_iff_eq,
    eq_comm (a := q)]
  by_cases hself : name :: path = q <;> simp [hself, eq_comm (a := q)]

/-! ## The operations of a client -/

/-- The last name of a created node: a sequential one gets the parent's number. -/
def createdName (t : Tree) (name : Str) (path : Path) : CreateMode → Str
  | .sequence => name ++ Text.sequenceDigits (t.counter path)
  | _ => name

/-- `zoo_create`: the parent must be there and the name free, and a sequence number must have ten
digits. -/
def create (t : Tree) (path : Path) (data : Option Str) (mode : CreateMode) :
    Except ZkError (Path × Tree) :=
  match path with
  | [] => .error .nodeExists
  | name :: path =>
    let name := t.createdName name path mode
    if hname : ValidName name then
      if hpath : path ∈ t then
        if mode = .sequence ∧ 10 ^ 10 ≤ t.counter path then .error .badArguments
        else if name :: path ∈ t then .error .nodeExists
        else .ok (name :: path, t.add name path ⟨data, mode.owner⟩ hname hpath)
      else .error .noNode
    else .error .badArguments

/-- `zoo_delete`: a leaf goes, but never the root. -/
def delete (t : Tree) (path : Path) : Except ZkError Tree :=
  match path with
  | [] => .error .badArguments
  | name :: path =>
    if name :: path ∈ t then
      if leaf : t.children (name :: path) = [] then .ok (t.remove name path leaf)
      else .error .notEmpty
    else .error .noNode

/-- The tree with some nodes put in, parents first. -/
def plant (t : Tree) (nodes : List (Path × Option Str)) : Tree :=
  nodes.foldl (fun t node =>
    match t.create node.1 node.2 .persistent with
    | .ok (_, t') => t'
    | .error _ => t) t

theorem plant_ok {node : Path × Option Str} {nodes : List (Path × Option Str)} {q : Path} {t' : Tree}
    (h : t.create node.1 node.2 .persistent = .ok (q, t')) :
    t.plant (node :: nodes) = t'.plant nodes := by
  rw [plant, List.foldl_cons, h, plant]

theorem plant_error {node : Path × Option Str} {nodes : List (Path × Option Str)} {e : ZkError}
    (h : t.create node.1 node.2 .persistent = .error e) :
    t.plant (node :: nodes) = t.plant nodes := by
  rw [plant, List.foldl_cons, h, plant]

/-- What a successful create means, for the node and for the whole tree. -/
structure Created (t : Tree) (name : Str) (path : Path) (data : Option Str) (mode : CreateMode)
    (t' : Tree) : Prop where
  valid : ValidName (t.createdName name path mode)
  parent : path ∈ t
  numbered : mode = .sequence → t.counter path < 10 ^ 10
  fresh : t.createdName name path mode :: path ∉ t
  get : ∀ q, t'.get q =
    if q = t.createdName name path mode :: path then some ⟨data, mode.owner⟩ else t.get q
  counter : ∀ q, t'.counter q =
    if q = t.createdName name path mode :: path then 0
    else if q = path then t.counter path + 1 else t.counter q

/-- The tree after a delete: one node less, and the counters of the others as they were. -/
structure Deleted (t : Tree) (name : Str) (path : Path) (t' : Tree) : Prop where
  mem : name :: path ∈ t
  leaf : t.children (name :: path) = []
  get : ∀ q, t'.get q = if q = name :: path then none else t.get q
  counter : ∀ q, t'.counter q = if q = name :: path then 0 else t.counter q

/-- What a create has done that succeeded. -/
theorem create_ok {data : Option Str} {mode : CreateMode} {q : Path} {t' : Tree}
    (h : t.create (name :: path) data mode = .ok (q, t')) :
    q = t.createdName name path mode :: path ∧ t.Created name path data mode t' := by
  dsimp only [create] at h
  split at h
  · next hname =>
    split at h
    · next hpath =>
      split at h
      · cases h
      · next hnumber =>
        split at h
        · cases h
        · next hfresh =>
          cases h
          refine ⟨rfl, hname, hpath, fun hm => ?_, hfresh, get_add hname hpath,
            counter_add hname hpath⟩
          exact Nat.lt_of_not_le fun hle => hnumber ⟨hm, hle⟩
    · cases h
  · cases h

/-- When a create succeeds. -/
theorem create_of_fresh {data : Option Str} {mode : CreateMode}
    (hname : ValidName (t.createdName name path mode)) (hpath : path ∈ t)
    (hnumber : mode = .sequence → t.counter path < 10 ^ 10)
    (hfresh : t.createdName name path mode :: path ∉ t) :
    ∃ t', t.create (name :: path) data mode = .ok (t.createdName name path mode :: path, t') := by
  have hno : ¬ (mode = .sequence ∧ 10 ^ 10 ≤ t.counter path) := by
    rintro ⟨hm, hle⟩
    exact absurd (hnumber hm) (Nat.not_lt.mpr hle)
  refine ⟨t.add (t.createdName name path mode) path ⟨data, mode.owner⟩ hname hpath, ?_⟩
  simp only [create, dif_pos hname, dif_pos hpath, if_neg hno, if_neg hfresh]

/-- What a delete has done that succeeded. -/
theorem delete_ok {t' : Tree} (h : t.delete (name :: path) = .ok t') : t.Deleted name path t' := by
  dsimp only [delete] at h
  split at h
  · next hmem =>
    split at h
    · next leaf =>
      cases h
      exact ⟨hmem, leaf, get_remove leaf, counter_remove leaf⟩
    · cases h
  · cases h

/-- A leaf can be deleted. -/
theorem delete_of_leaf (hmem : name :: path ∈ t) (leaf : t.children (name :: path) = []) :
    ∃ t', t.delete (name :: path) = .ok t' := by
  refine ⟨t.remove name path leaf, ?_⟩
  simp only [delete, if_pos hmem, dif_pos leaf]

theorem Created.mem_iff {data : Option Str} {mode : CreateMode} {t' : Tree}
    (h : t.Created name path data mode t') (q : Path) :
    q ∈ t' ↔ q = t.createdName name path mode :: path ∨ q ∈ t := by
  rw [Tree.mem_iff, Tree.mem_iff, h.get]
  split <;> simp_all

theorem Deleted.mem_iff {t' : Tree} (h : t.Deleted name path t') (q : Path) :
    q ∈ t' ↔ q ≠ name :: path ∧ q ∈ t := by
  rw [Tree.mem_iff, Tree.mem_iff, h.get]
  split <;> simp_all

/-- Some nodes were deleted, and nothing else happened. -/
structure Pruned (t t' : Tree) (removed : Path → Prop) : Prop where
  mem : ∀ q, removed q → q ∈ t
  gone : ∀ q, removed q → q ∉ t'
  kept : ∀ q, ¬ removed q → t'.get q = t.get q ∧ t'.counter q = t.counter q

theorem Pruned.refl (t : Tree) : t.Pruned t fun _ => False where
  mem _ h := h.elim
  gone _ h := h.elim
  kept _ _ := ⟨rfl, rfl⟩

theorem Deleted.pruned {t' : Tree} (h : t.Deleted name path t') :
    t.Pruned t' fun q => q = name :: path where
  mem q hq := hq ▸ h.mem
  gone q hq := by
    rw [h.mem_iff]
    exact fun hm => hm.1 hq
  kept q hq := by
    rw [h.get, h.counter, if_neg hq, if_neg hq]
    exact ⟨rfl, rfl⟩

theorem Pruned.sub {t' : Tree} {removed : Path → Prop} (h : t.Pruned t' removed) {q : Path}
    (hq : q ∈ t') : q ∈ t := by
  by_cases hr : removed q
  · exact h.mem q hr
  · rw [mem_iff] at hq ⊢
    rwa [(h.kept q hr).1] at hq

theorem Pruned.sub_get {t' : Tree} {removed : Path → Prop} (h : t.Pruned t' removed) {q : Path}
    {node : Znode} (hget : t'.get q = some node) : t.get q = some node := by
  by_cases hr : removed q
  · exact absurd (mem_of_get hget) (h.gone q hr)
  · rw [← (h.kept q hr).1, hget]

theorem Pruned.stays {t' : Tree} {removed : Path → Prop} (h : t.Pruned t' removed) {q : Path}
    (hq : q ∈ t) (hr : ¬ removed q) : q ∈ t' := by
  rw [mem_iff] at hq ⊢
  rwa [(h.kept q hr).1]

/-- What two prunings remove one after the other. -/
theorem Pruned.trans {t' t'' : Tree} {first second : Path → Prop} (h : t.Pruned t' first)
    (h' : t'.Pruned t'' second) : t.Pruned t'' fun q => first q ∨ second q where
  mem q hq := hq.elim (h.mem q) fun hs => h.sub (h'.mem q hs)
  gone q hq := hq.elim (fun hf hm => h.gone q hf (h'.sub hm)) (h'.gone q)
  kept q hq := by
    have hfirst := h.kept q fun hf => hq (Or.inl hf)
    have hsecond := h'.kept q fun hs => hq (Or.inr hs)
    exact ⟨hsecond.1.trans hfirst.1, hsecond.2.trans hfirst.2⟩

theorem Pruned.congr {t' : Tree} {removed removed' : Path → Prop} (h : t.Pruned t' removed)
    (heq : ∀ q, removed q ↔ removed' q) : t.Pruned t' removed' := by
  have hsame : removed = removed' := funext fun q => propext (heq q)
  exact hsame ▸ h

/-- No node on the way to `path` belongs to the session. -/
def outlives (t : Tree) (session : Nat) : Path → Bool
  | [] => true
  | name :: path =>
    (t.get (name :: path)).all (fun node => node.owner ≠ some session) && t.outlives session path

theorem mem_filter_outlives {session : Nat} {path : Path} :
    path ∈ t.nodes.filter (fun q _ => t.outlives session q) ↔
      path ∈ t ∧ t.outlives session path = true := by
  rw [Std.ExtTreeMap.mem_iff_isSome_getElem?, Std.ExtTreeMap.getElem?_filter', mem_iff]
  change (Option.filter _ (t.get path)).isSome ↔ _
  cases t.get path <;> simp [Option.filter]

/-- The session ends: its ephemeral nodes disappear, with whatever is below them. -/
def expire (t : Tree) (session : Nat) : Tree where
  nodes := t.nodes.filter fun path _ => t.outlives session path
  counters := t.counters
  root := by
    obtain ⟨root, h, howner⟩ := t.root
    refine ⟨root, ?_, howner⟩
    rw [Std.ExtTreeMap.getElem?_filter', h]
    rfl
  parent := by
    intro name path h
    obtain ⟨hmem, hout⟩ := mem_filter_outlives.mp h
    rw [outlives, Bool.and_eq_true] at hout
    exact ⟨mem_filter_outlives.mpr ⟨(t.parent _ _ hmem).1, hout.2⟩, (t.parent _ _ hmem).2⟩

/-- A session takes its nodes with it, and what is below them. -/
theorem get_expire (session : Nat) (q : Path) :
    (t.expire session).get q = if t.outlives session q then t.get q else none := by
  rw [get, expire, Std.ExtTreeMap.getElem?_filter']
  change Option.filter _ (t.get q) = _
  cases t.get q with
  | none => simp
  | some node => cases t.outlives session q <;> simp [Option.filter]

theorem mem_expire (session : Nat) (q : Path) :
    q ∈ t.expire session ↔ q ∈ t ∧ t.outlives session q = true :=
  mem_filter_outlives

theorem counter_expire {session : Nat} {q : Path} (h : q ∈ t.expire session) :
    (t.expire session).counter q = t.counter q := by
  rw [counter, counter, if_pos h, if_pos ((mem_expire session q).mp h).1]
  rfl

end Tree

/-! ## Calls and who answers them -/

/-- The calls of the C client that are modelled. -/
inductive ZkCall where
  | zooExists (path : Path)
  | zooGet (path : Path)
  | zooGetChildren (path : Path)
  | zooCreate (path : Path) (data : Option Str) (mode : CreateMode)
  | zooDelete (path : Path)

/-- What a call brings if it succeeds. -/
abbrev ZkCall.Value : ZkCall → Type
  | .zooExists _ => Unit
  | .zooGet _ => Option Str
  | .zooGetChildren _ => List Str
  | .zooCreate .. => Path
  | .zooDelete _ => Unit

/-- A call may fail. -/
abbrev ZkCall.Resp (c : ZkCall) : Type := Except ZkError c.Value

/-- Every call behaves normally. -/
def ZkCall.serve : (c : ZkCall) → Tree → c.Resp × Tree
  | .zooExists path, t => (if path ∈ t then .ok () else .error .noNode, t)
  | .zooGet path, t =>
    match t.get path with
    | some node => (.ok node.data, t)
    | none => (.error .noNode, t)
  | .zooGetChildren path, t => (if path ∈ t then .ok (t.children path) else .error .noNode, t)
  | .zooCreate path data mode, t =>
    match t.create path data mode with
    | .ok (q, t') => (.ok q, t')
    | .error e => (.error e, t)
  | .zooDelete path, t =>
    match t.delete path with
    | .ok t' => (.ok (), t')
    | .error e => (.error e, t)

/-- A call may also fail, before or after it took effect. -/
def ZkCall.Faulty : Program.Env ZkCall.Resp Tree := fun c t r t' =>
  c.serve t = (r, t') ∨ ∃ e, r = .error e ∧ (t' = t ∨ t' = (c.serve t).2)

/-- Under either environment the tree is the old one or the served one. -/
theorem ZkCall.Faulty.state {c : ZkCall} {t t' : Tree} {r : c.Resp}
    (h : ZkCall.Faulty c t r t') : t' = t ∨ t' = (c.serve t).2 := by
  rcases h with h | ⟨_, _, h⟩
  · rw [h]
    exact Or.inr rfl
  · exact h

end RedisCluster.Library
