import Mathlib.Logic.Relation
import RedisCluster.Source.RedisCtrl
import RedisCluster.Source.RedisHash

/-!
# Watching legal_nodes

`start`, `redis_node_wc` and `redis_node_cb` of `RedisHash.cpp`, for any number of clients.
ZooKeeper answers every `zoo_awget_children`, and leaves a watch where the answer is a list. A
watch fires at the next change of the children, once, and its event comes before the answers
to later requests. A session event names no path, and the request it leads to is refused at
once; so it is left out, as is the `sleep`.
-/

set_option autoImplicit false

namespace RedisCluster.Source
open Library

/-- What ZooKeeper sends to a session. -/
inductive Notice where
  /-- The answer to `zoo_awget_children`. -/
  | reply (rc : Except ZkError (List Str))
  | event

/-- A client, with what is under way between its session and ZooKeeper. -/
structure Watcher where
  table : RedisHash
  /-- The requests that ZooKeeper has not answered. -/
  asked : Nat
  /-- What it has sent to the session, in order. -/
  inbox : List Notice
  watched : Bool

def Watcher.zooAwgetChildren (w : Watcher) : Watcher := { w with asked := w.asked + 1 }

/-- `RedisHash::start`. -/
def Watcher.start : Watcher := zooAwgetChildren ⟨.empty, 0, [], false⟩

/-- `redis_node_wc`: any event of the node asks for the children again, with a watch. -/
def redisNodeWc (w : Watcher) : Watcher := w.zooAwgetChildren

/-- `redis_node_cb` with its request for another answer after an error. -/
def redisNodeAnswered (routine : Sorting sortClusterFun) (rc : Except ZkError (List Str))
    (w : Watcher) : Watcher :=
  let w := { w with table := redisNodeCb routine rc w.table }
  match rc with
  | .error _ => w.zooAwgetChildren
  | .ok _ => w

def Watcher.handle (routine : Sorting sortClusterFun) : Notice → Watcher → Watcher
  | .reply rc, w => redisNodeAnswered routine rc w
  | .event, w => redisNodeWc w

/-! ## ZooKeeper and its clients -/

/-- What a list of the children shows. -/
def listing (t : Tree) : Option (List Str) :=
  if nodePath ∈ t then some (t.children nodePath) else none

/-- The watch fires if the children have changed. -/
def Watcher.fire (w : Watcher) (changed : Bool) : Watcher :=
  if changed && w.watched then { w with inbox := w.inbox ++ [.event], watched := false } else w

/-- The tree and the clients that watch it. -/
structure Watched where
  tree : Tree
  clients : Nat → Watcher

def Watched.update (s : Watched) (i : Nat) (w : Watcher) : Watched :=
  { s with clients := Function.update s.clients i w }

@[simp] theorem Watched.tree_update (s : Watched) (i : Nat) (w : Watcher) : (s.update i w).tree = s.tree :=
  rfl

@[simp] theorem Watched.update_self (s : Watched) (i : Nat) (w : Watcher) :
    (s.update i w).clients i = w := by
  simp [Watched.update]

theorem Watched.update_other (s : Watched) {i j : Nat} (ne : j ≠ i) (w : Watcher) :
    (s.update i w).clients j = s.clients j := by
  simp [Watched.update, ne]

/-- Clients that have just started. -/
def Watched.start (t : Tree) : Watched := ⟨t, fun _ => .start⟩

section Steps
variable (routine : Sorting sortClusterFun)

/-- The steps that do not depend on what else happens: an answer with the children as they are,
in any order, and a delivery. -/
inductive Settling (i : Nat) (s : Watched) : Watched → Prop
  | serve {n : Nat} {strings : List Str} (asked : (s.clients i).asked = n + 1)
      (there : nodePath ∈ s.tree) (listed : strings.Perm (s.tree.children nodePath)) :
      Settling i s (s.update i { s.clients i with
        asked := n, inbox := (s.clients i).inbox ++ [.reply (.ok strings)], watched := true })
  | deliver {notice : Notice} {rest : List Notice} (next : (s.clients i).inbox = notice :: rest) :
      Settling i s (s.update i (Watcher.handle routine notice { s.clients i with inbox := rest }))

/-- Anybody may change the tree, and a request may fail. -/
inductive WatchStep (s : Watched) : Watched → Prop
  | change (t' : Tree) : WatchStep s
      ⟨t', fun i => (s.clients i).fire (decide (listing s.tree ≠ listing t'))⟩
  | refuse {i n : Nat} (e : ZkError) (asked : (s.clients i).asked = n + 1) :
      WatchStep s (s.update i { s.clients i with
        asked := n, inbox := (s.clients i).inbox ++ [.reply (.error e)] })
  | settle {i : Nat} {s' : Watched} (step : Settling routine i s s') : WatchStep s s'

end Steps

abbrev WatchRun (routine : Sorting sortClusterFun) : Watched → Watched → Prop :=
  Relation.ReflTransGen (WatchStep routine)

end RedisCluster.Source
