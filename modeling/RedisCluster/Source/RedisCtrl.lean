import Mathlib.Data.List.Sort
import RedisCluster.Library.Znode
import RedisCluster.Source.Reply
import RedisCluster.Source.Util

/-!
# The controller

`RedisCtrl.cpp`. A routine of the class is a `Ctl`: it calls ZooKeeper, and leaves
early with the `rv` the source returns. `std::map` and `std::set` are ordered maps
and sets of byte strings, and loops over them run in key order. Paths are relative
to `zk_root_path_`; the fixed buffers (1024 bytes for a path, 256 for data) are
taken to be large enough, and logging is left out.

What `check_redis` gets back from the network is a parameter: one collection of
replies for each of its attempts.
-/

set_option autoImplicit false

namespace RedisCluster.Source
open Library

/-- `set<string>`: addresses, or names of nodes. -/
abbrev Addrs := Std.ExtTreeSet Str

/-- `map<string, set<string>>`: clusters and their addresses. -/
abbrev Clusters := Std.ExtTreeMap Str Addrs

/-- `map<string, string>`: an address and its check node, or what the redis answered. -/
abbrev StrMap := Std.ExtTreeMap Str Str

/-- `map<string, map<string, string>>`: the addresses of each cluster and their check nodes. -/
abbrev Checks := Std.ExtTreeMap Str StrMap

/-- How a function of `RedisCtrl` ends that does not come to its end. -/
inductive Halt where
  | rv (code : Nat)
  /-- `check()` has no ZooKeeper handle, or another controller holds the lock. -/
  | noHandle
  | noLock
  /-- `std::length_error`: `get_data` assigns the length -1 of a node without data. -/
  | lengthError
  deriving DecidableEq, Repr

/-- A function of `RedisCtrl`: it makes calls of ZooKeeper one after the other, and may halt. -/
abbrev Ctl := Routine ZkCall.Resp Halt

def clusterPrefix : Str := "cluster".toList
def redisPrefix : Str := "r".toList

def lockPath : Path := ["lock".toList]
def cfgPath : Path := ["config".toList]
def errPath : Path := ["error".toList]
def checkPath : Path := ["check".toList]
def nodePath : Path := ["legal_nodes".toList]
/-- The node that a controller creates below `lock` while it is in `check`. -/
def lockNode : Path := "lock".toList :: lockPath

/-! ## Names and addresses -/

/-- The number after the first occurrence of `pref`, or -1. -/
def cutIdx (pref cluster : Str) : Int :=
  match Text.afterFirst pref cluster with
  | none => -1
  | some sidx => (Text.lexicalCast (-2 ^ 63) (2 ^ 63 - 1) sidx).getD (-1)

/-- An address is what `str_ipv4` reads. The ip is not looked at. -/
def isvalidAddr (addr : Str) : Bool := (strIpv4 addr).isSome

/-! ## One ZooKeeper call -/

/-- A call whose every failure is the return value `code`. -/
def call (c : ZkCall) (code : Nat) : Ctl c.Value := do
  match ← Routine.ask c with
  | .ok value => return value
  | .error _ => throw (.rv code)

/-- `if (x) return code;` -/
def orReturn {α : Type} (x : Ctl α) (code : Nat) : Ctl α :=
  ExceptT.adapt (fun | .rv _ => .rv code | halt => halt) x

/-- `create_node`: an empty value creates a node without data. -/
def createNode (path : Path) (mode : CreateMode) (value : Str) : Ctl Path :=
  call (.zooCreate path (if value = [] then none else some value) mode) 1

def deleteNode (path : Path) : Ctl Unit := call (.zooDelete path) 1

/-- 0 where there is a node, 1 where there is none, 2 where this is not known. -/
def nodeExist (path : Path) : Ctl Nat := do
  match ← Routine.ask (.zooExists path) with
  | .ok _ => return 0
  | .error .noNode => return 1
  | .error _ => return 2

/-- A node without data ends the process: its length is -1. -/
def getData (path : Path) : Ctl Str := do
  match ← call (.zooGet path) 1 with
  | some data => return data
  | none => throw .lengthError

/-- The children of a path, with `isaddr` only those that are addresses. -/
def getNodes (path : Path) (isaddr : Bool) : Ctl Addrs := do
  let children ← call (.zooGetChildren path) 1
  return .ofList (if isaddr then children.filter isvalidAddr else children)

/-! ## Reading the trees -/

/-- The body of the loop of `get_cluster_node`. -/
def addCluster (path : Path) (ischeck : Bool) (cfgs : Clusters) (cluster : Str) :
    Ctl Clusters := do
  if ischeck ∧ cutIdx clusterPrefix cluster = -1 then return cfgs
  else
    let nodes ← orReturn (getNodes (cluster :: path) ischeck) 2
    return cfgs.insert cluster nodes

/-- Clusters come in the order of their names. Those without a number are left out with `ischeck`.
-/
def getClusterNode (path : Path) (ischeck : Bool) : Ctl Clusters := do
  let clusters ← call (.zooGetChildren path) 1
  (Std.ExtTreeSet.ofList clusters : Addrs).toList.foldlM (addCluster path ischeck) ∅

/-- The insertion into `single_redis`, which refuses an address seen before. -/
def addSingle (single : Addrs) (addr : Str) : Ctl Addrs :=
  if addr ∈ single then throw (.rv 2) else return single.insert addr

/-- An address that is in two clusters is refused. -/
def getConfig (path : Path) : Ctl Clusters := do
  let cfgs ← orReturn (getClusterNode path true) 1
  let _ ← (cfgs.toList.flatMap fun (_, nodes) => nodes.toList).foldlM addSingle ∅
  return cfgs

/-- Error nodes are not looked at as addresses. -/
def getError (path : Path) : Ctl Clusters := getClusterNode path false

/-- One check node: the body of the inner loop of `get_check`. -/
def getCheckNode (path : Path) (cluster : Str) (rdis : StrMap) (node : Str) : Ctl StrMap := do
  let data ← orReturn (getData (node :: cluster :: path)) 2
  if cutIdx redisPrefix node = -1 then
    orReturn (deleteNode (node :: cluster :: path)) 3
    return rdis
  match rdis[data]? with
  | some kept =>
    let idx0 := cutIdx redisPrefix kept
    let idx1 := cutIdx redisPrefix node
    if idx1 < idx0 then
      let rdis := rdis.insert data node
      -- `kt` is an iterator into the map, so `kt->second` is the name just written
      let second := rdis[data]?.getD kept
      orReturn (deleteNode (second :: cluster :: path)) 4
      return rdis
    else
      orReturn (deleteNode (node :: cluster :: path)) 4
      return rdis
  | none => return rdis.insert data node

/-- The check nodes of one cluster, in the order of their names. -/
def getCheckCluster (path : Path) (chks : Checks) (entry : Str × Addrs) : Ctl Checks := do
  let rdis ← entry.2.toList.foldlM (getCheckNode path entry.1) ∅
  return chks.insert entry.1 rdis

/-- Reads the check nodes, and deletes those that have no number or whose address came before. -/
def getCheck (path : Path) : Ctl Checks := do
  let cls ← orReturn (getClusterNode path false) 1
  cls.toList.foldlM (getCheckCluster path) ∅

/-! ## Setup and lock -/

/-- Looks whether the node is there, creates it if it is not, and looks again. -/
def checkAddCreate (path : Path) (mode : CreateMode) (value : Str) : Ctl Unit := do
  match ← nodeExist path with
  | 1 =>
    let truePath ← orReturn (createNode path mode value) 1
    match ← nodeExist truePath with
    | 0 => return ()
    | rv => throw (.rv rv)
  | 2 => throw (.rv 3)
  | _ => return ()

/-- The base nodes one after the other. `check` does this before it asks for the lock. -/
def initPathCheck : Ctl Unit := do
  orReturn (checkAddCreate lockPath .persistent []) 1
  orReturn (checkAddCreate cfgPath .persistent []) 2
  orReturn (checkAddCreate errPath .persistent []) 3
  orReturn (checkAddCreate checkPath .persistent []) 4
  orReturn (checkAddCreate nodePath .persistent []) 5

/-- A delete that fails is only logged. -/
def freeLock : Ctl Unit := do
  let _ ← Routine.ask (.zooDelete lockNode)

/-- Any failure of the create counts as a lock that somebody else holds. -/
def getLock (session : Nat) : Ctl Bool := do
  match ← Routine.ask (.zooCreate lockNode none (.ephemeral session)) with
  | .ok _ => return true
  | .error _ => return false

/-! ## The passes over the trees

The two `rm` passes treat what is configured nowhere, or not in this cluster, alike. -/

/-- The cluster is not configured, or the address is not in it. -/
def notConfigured (tmpCfg : Option Addrs) (addr : Str) : Bool := tmpCfg.all (addr ∉ ·)

/-- One cluster in error. It goes as a whole if it is not configured, after its addresses. -/
def errorRmCluster (cfgs : Clusters) (entry : Str × Addrs) : Ctl Unit := do
  let path := entry.1 :: errPath
  let tmpCfg := cfgs[entry.1]?
  entry.2.toList.forM fun addr =>
    if notConfigured tmpCfg addr then orReturn (deleteNode (addr :: path)) 2 else return ()
  if tmpCfg.isNone then orReturn (deleteNode path) 1 else return ()

def logicErrorRm (cfgs errs : Clusters) : Ctl Unit := errs.toList.forM (errorRmCluster cfgs)

/-- One cluster under check. The node that is deleted is the one that the table names for the
address. -/
def checkRmCluster (cfgs : Clusters) (entry : Str × StrMap) : Ctl Unit := do
  let path := entry.1 :: checkPath
  let tmpCfg := cfgs[entry.1]?
  entry.2.toList.forM fun (addr, node) =>
    if notConfigured tmpCfg addr then orReturn (deleteNode (node :: path)) 2 else return ()
  if tmpCfg.isNone then orReturn (deleteNode path) 1 else return ()

def logicCheckRm (cfgs : Clusters) (chks : Checks) : Ctl Unit :=
  chks.toList.forM (checkRmCluster cfgs)

/-- The address is new: it is neither checked nor in error. -/
def isNew (tmp : Option StrMap) (tmpErr : Option Addrs) (addr : Str) : Bool :=
  tmp.all (addr ∉ ·) && tmpErr.all (addr ∉ ·)

/-- A new address gets a check node under the next number. -/
def checkAddNode (tmp : Option StrMap) (tmpErr : Option Addrs) (cluster addr : Str) :
    Ctl Unit :=
  if isNew tmp tmpErr addr then do
    let _ ← orReturn (createNode (redisPrefix :: cluster :: checkPath) .sequence addr) 2
  else return ()

/-- `if (tmp == end()) create_node(path, 0, "", true_path)` -/
def addBranch (missing : Bool) (path : Path) : Ctl Unit :=
  if missing then do
    let _ ← orReturn (createNode path .persistent []) 1
  else return ()

/-- One configured cluster: its two branches where they were not read, and its new addresses. -/
def checkAddCluster (errs : Clusters) (chks : Checks) (entry : Str × Addrs) : Ctl Unit := do
  let tmp := chks[entry.1]?
  let tmpErr := errs[entry.1]?
  addBranch tmpErr.isNone (entry.1 :: errPath)
  addBranch tmp.isNone (entry.1 :: checkPath)
  entry.2.toList.forM (checkAddNode tmp tmpErr entry.1)

def logicCheckAdd (cfgs errs : Clusters) (chks : Checks) : Ctl Unit :=
  cfgs.toList.forM (checkAddCluster errs chks)

/-! ## The health check -/

/-- `ip_port`: the first and the last word of the reply, with a colon between them. -/
def ipPort (addr : Str) : Str :=
  if addr = [] then []
  else if ' ' ∉ addr then "ERRORADDR".toList
  else
    addr.takeWhile (· ≠ ' ') ++ ':' :: (addr.reverse.takeWhile (· ≠ ' ')).reverse

/-- The answer to `CONFIG GET slaveof`, if it has the right form. -/
def slaveofReply (rv : RedisRv) : Option Str :=
  match rv.type, rv.element with
  | .array, [name, value] =>
    if name.type = .string ∧ value.type = .string ∧ name.str = "slaveof".toList then
      some (ipPort value.str)
    else none
  | _, _ => none

/-- What the commands of one attempt of `check_redis` got back; attempts count down. -/
abbrev Network := Nat → Commands → RedisRvs

/-- `CONFIG GET slaveof` for each redis. Addresses with one number share a command. -/
def configCommands (addrs : Addrs) : Commands :=
  addrs.toList.foldl (fun cmds addr =>
    match strIpv4Int64 addr with
    | some ipv4 => cmds.insert ipv4 ["CONFIG".toList, "GET".toList, "slaveof".toList]
    | none => cmds) ∅

/-- `tries` further attempts may follow this one. -/
def checkRedis (net : Network) (tries : Nat) (addrs : Addrs) (cfgs : StrMap) : StrMap :=
  let cfgs := (net (tries + 1) (configCommands addrs)).toList.foldl (fun cfgs (ipv4, rv) =>
    match slaveofReply rv with
    | some slaveof => cfgs.insert (int64StrIpv4 ipv4) slaveof
    | none => cfgs) cfgs
  let errAddrs : Addrs := addrs.filter (· ∉ cfgs)
  match tries with
  | 0 => cfgs
  | tries + 1 => if errAddrs.isEmpty then cfgs else checkRedis net tries errAddrs cfgs

/-- The addresses of all clusters. -/
def allAddrs (cfgs : Clusters) : Addrs :=
  cfgs.toList.foldl (fun addrs (_, nodes) => addrs.insertMany nodes.toList) ∅

/-- An address in error that answers goes under check: first its error node is deleted. -/
def checkErrorNode (cfgs : StrMap) (cluster addr : Str) : Ctl Unit :=
  if addr ∈ cfgs then do
    orReturn (deleteNode (addr :: cluster :: errPath)) 2
    let _ ← orReturn (createNode (redisPrefix :: cluster :: checkPath) .sequence addr) 3
  else return ()

/-- The error nodes are read again for this. -/
def checkError (cfgs : StrMap) : Ctl Unit := do
  let errs ← orReturn (getError errPath) 1
  errs.toList.forM fun (cluster, nodes) => nodes.toList.forM (checkErrorNode cfgs cluster)

/-- An address under check that does not answer goes into error: first its error node is created. -/
def checkCheckNode (cfgs : StrMap) (cluster : Str) (entry : Str × Str) : Ctl Unit :=
  if entry.1 ∈ cfgs then return ()
  else do
    let _ ← orReturn (createNode (Path.slash (cluster :: errPath) entry.1) .persistent []) 2
    orReturn (deleteNode (entry.2 :: cluster :: checkPath)) 3

/-- The check nodes are read again for this, which deletes what `get_check` deletes. -/
def checkCheck (cfgs : StrMap) : Ctl Unit := do
  let chks ← orReturn (getCheck checkPath) 1
  chks.toList.forM fun (cluster, rdis) => rdis.toList.forM (checkCheckNode cfgs cluster)

/-! ## The published lists -/

/-- Redis are ordered by the names of their check nodes. -/
def sortRdsSeqFun (a b : Str × Str) : Prop := (compare a.2 b.2).isLE

instance : DecidableRel sortRdsSeqFun := fun _ _ => inferInstanceAs (Decidable (_ = true))

/-- The names of check nodes differ, so every sorting routine gives this list. -/
def sortRedis (rds : StrMap) : List (Str × Str) := rds.toList.insertionSort sortRdsSeqFun

/-- What `gen_legal_redis` computes. -/
structure Legal where
  clusterLegalRedis : Std.ExtTreeMap Str (List Str)
  /-- The `SLAVEOF` commands to send: an address and its master, or `NO:ONE`. -/
  cmds : StrMap

/-- The loop over the listed redis of one cluster, which sets up replication. -/
def slaveofCmds (cfgs : StrMap) (master : Str) (first : Bool) (cmds : StrMap) :
    List (Str × Str) → Except Halt StrMap
  | [] => .ok cmds
  | (rds, _) :: seqs =>
    match cfgs[rds]? with
    | none => .error (.rv 2)
    | some cfg =>
      let want := if first then [] else master
      let cmd := if first then "NO:ONE".toList else master
      if cfg = want then slaveofCmds cfgs master false cmds seqs
      else if rds ∈ cmds then .error (.rv (if first then 3 else 4))
      else slaveofCmds cfgs master false (cmds.insert rds cmd) seqs

/-- One cluster of `gen_legal_redis`. Where nobody is under check, the first address in error stands
alone. -/
def genCluster (cfgs : StrMap) (errs : Clusters) (legal : Legal) (entry : Str × StrMap) :
    Except Halt Legal :=
  match sortRedis entry.2 with
  | [] =>
    match errs[entry.1]?.map (·.toList) with
    | some (addr :: _) =>
      .ok { legal with clusterLegalRedis := legal.clusterLegalRedis.insert entry.1 [addr] }
    | _ => .error (.rv 2)
  | (master, seq) :: seqs => do
    let cmds ← slaveofCmds cfgs master true legal.cmds ((master, seq) :: seqs)
    return ⟨legal.clusterLegalRedis.insert entry.1 (master :: seqs.map Prod.fst), cmds⟩

/-- The child of `legal_nodes` for a cluster. -/
def legalNode (idx : Int) (addrs : List Str) : Str :=
  addrs.foldl (fun cls addr => cls ++ ';' :: addr) (Text.decimal idx)

/-- A cluster without a number is refused, before anything is changed. -/
def addLegalNode (legal : Addrs) (entry : Str × List Str) : Ctl Addrs :=
  let idx := cutIdx clusterPrefix entry.1
  if idx = -1 then throw (.rv 1) else return legal.insert (legalNode idx entry.2)

def rmLegal (node : Str) : Ctl Unit := orReturn (deleteNode (node :: nodePath)) 2

def addLegal (node : Str) : Ctl Unit := do
  let _ ← orReturn (createNode (nodePath.slash node) .persistent []) 3

/-- `legal_cmp`: what is not wanted is deleted, and after that what is missing is created. -/
def legalCmp (clusterLegalRedis : Std.ExtTreeMap Str (List Str)) : Ctl Unit := do
  let befRds ← orReturn (getNodes nodePath false) 1
  let legalRedis ← clusterLegalRedis.toList.foldlM addLegalNode (∅ : Addrs)
  let ndRms : Addrs := befRds.filter (· ∉ legalRedis)
  let ndAdds : Addrs := legalRedis.filter (· ∉ befRds)
  ndRms.toList.forM rmLegal
  ndAdds.toList.forM addLegal

/-- The result is what `legal_cmp` and `do_slaveof_cmd` are called with. -/
def genLegalRedis (cfgs : StrMap) : Ctl Legal := do
  let chks ← orReturn (getCheck checkPath) 1
  let errs ← orReturn (getError errPath) 1
  let legal ← liftM (chks.toList.foldlM (genCluster cfgs errs) ⟨∅, ∅⟩)
  orReturn (legalCmp legal.clusterLegalRedis) 5
  return legal

/-! ## One check -/

/-- What `check` does while it holds the lock. -/
def checkLocked (net : Network) : Ctl Legal := do
  let cfgs ← getConfig cfgPath
  let errs ← getError errPath
  let chks ← getCheck checkPath
  logicCheckAdd cfgs errs chks
  logicErrorRm cfgs errs
  logicCheckRm cfgs chks
  let redisCfgs := checkRedis net 2 (allAddrs cfgs) ∅
  checkError redisCfgs
  checkCheck redisCfgs
  genLegalRedis redisCfgs

/-- `zkh` is the session of the handle. The destructor of `local_lock` frees the lock on
every return; an exception that nothing catches ends the process instead. -/
def check (zkh : Option Nat) (net : Network) : Ctl Legal := do
  match zkh with
  | none => throw .noHandle
  | some session =>
    initPathCheck
    if ← getLock session then
      match ← ExceptT.lift (checkLocked net).run with
      | .ok legal =>
        freeLock
        return legal
      | .error .lengthError => throw .lengthError
      | .error halt =>
        freeLock
        throw halt
    else throw .noLock

end RedisCluster.Source
