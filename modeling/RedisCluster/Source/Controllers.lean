import Mathlib.Logic.Relation
import RedisCluster.Source.RedisCtrl

/-!
# Several controllers

Any number of controllers run `check` again and again on one tree, each with a session of its
own. Their calls interleave in any way.
-/

set_option autoImplicit false

namespace RedisCluster.Source
open Library

/-- The tree, and for every session what its controller has still to do of a `check`. -/
structure Controllers where
  tree : Tree
  running : Nat → Option (Program ZkCall.Resp (Except Halt Legal))

/-- Nobody is inside `check`. -/
def Controllers.outside (t : Tree) : Controllers := ⟨t, fun _ => none⟩

/-- `env` says what ZooKeeper may answer. A controller does not come back from the exception
that ends its process. -/
inductive ControllerStep (env : Program.Env ZkCall.Resp Tree) : Controllers → Controllers → Prop
  | enter {s : Controllers} {session : Nat} (net : Network) (outside : s.running session = none) :
      ControllerStep env s
        { s with running := Function.update s.running session (some (check (some session) net).run) }
  | call {s : Controllers} {session : Nat} {c : ZkCall} {r : c.Resp} {t' : Tree}
      {next : c.Resp → Program ZkCall.Resp (Except Halt Legal)}
      (inside : s.running session = some (.call c next)) (answered : env c s.tree r t') :
      ControllerStep env s ⟨t', Function.update s.running session (some (next r))⟩
  | leave {s : Controllers} {session : Nat} {outcome : Except Halt Legal}
      (inside : s.running session = some (.done outcome)) (returns : outcome ≠ .error .lengthError) :
      ControllerStep env s { s with running := Function.update s.running session none }

/-- What the controllers reach. -/
abbrev ControllerRun (env : Program.Env ZkCall.Resp Tree) : Controllers → Controllers → Prop :=
  Relation.ReflTransGen (ControllerStep env)

end RedisCluster.Source
