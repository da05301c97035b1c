import RedisCluster.Source.RedisCmd
import RedisCluster.Source.RedisHash

/-!
# The session store's client

`OnlineCtrl.cpp`: the requests of a connection, synchronous and asynchronous, and the
removal of sessions whose time has come. Statistics and logging are left out.
-/

set_option autoImplicit false

namespace RedisCluster.Source
open Library

/-- `script_t`, whose text and SHA-1 the directory has. -/
structure ScriptT where
  needLoad : Bool
  addrs : Std.ExtTreeSet UInt64

/-- The scripts of the requests, and the table that routes them. -/
structure OnlineCtrl where
  dir : ScriptDir
  rh : RedisHash
  cityHash64 : Str → UInt64
  scripts : ReqType → ScriptT

/-- What a call returns and writes to its out parameter. -/
structure Answer (σ α : Type) where
  code : Int
  out : Option α
  oc : OnlineCtrl
  net : σ

/-- The address waits to be loaded, and the next lookup is told to. -/
def ScriptT.add (script : ScriptT) (addr : UInt64) : ScriptT := ⟨true, script.addrs.insert addr⟩

def OnlineCtrl.setScript (oc : OnlineCtrl) (type : ReqType) (script : ScriptT) : OnlineCtrl :=
  { oc with scripts := Function.update oc.scripts type script }

/-! ## Replies -/

/-- The one reply, if there is exactly one. -/
def single (rv : RedisRvs) : Option RedisRv :=
  match rv.toList with
  | [(_, tmp)] => some tmp
  | _ => none

/-- Two integers, `send_idx` and `recv_idx`. -/
def idxPair (tmp : RedisRv) : Option ProtoIdxPair :=
  match tmp.type, tmp.element with
  | .array, [sendIdx, recvIdx] =>
    if sendIdx.type = .integer ∧ recvIdx.type = .integer then
      some ⟨toInt32 sendIdx.integer, toInt32 recvIdx.integer⟩
    else none
  | _, _ => none

/-- 2 without a reply, 3 for one without two numbers. -/
def rvCheckSyn (rv : RedisRvs) : Int × Option ProtoIdxPair :=
  match single rv with
  | none => (2, none)
  | some tmp =>
    match idxPair tmp with
    | none => (3, none)
    | some idx => (0, some idx)

/-- Nil is a session that was not there. -/
def rvCheckFin (rv : RedisRvs) : Int × Option Str :=
  match single rv with
  | none => (2, none)
  | some tmp =>
    match tmp.type with
    | .string => (0, some tmp.str)
    | .nil => (1, none)
    | _ => (2, none)

/-- Other replies than a status or nil are only logged. -/
def rvCheckFinDelay (rv : RedisRvs) : Int :=
  match single rv with
  | none => 2
  | some _ => 0

/-- Nil is a session that was not there; other replies than arrays are not expected. -/
def rvCheckUpidx (rv : RedisRvs) : Int × Option ProtoIdxPair :=
  match single rv with
  | none => (2, none)
  | some tmp =>
    match tmp.type with
    | .array =>
      match idxPair tmp with
      | none => (3, none)
      | some idx => (0, some idx)
    | .nil => (1, none)
    | _ => (2, none)

/-- `check_scritp_load`: the script is to be loaded where it was not known. -/
def checkScriptLoad (oc : OnlineCtrl) (type : ReqType) (rv : RedisRvs) : OnlineCtrl :=
  match rv.toList with
  | [(addr, tmp)] =>
    if tmp.type = .error ∧ "NOSCRIPT".toList.isPrefixOf tmp.str then
      oc.setScript type ((oc.scripts type).add addr)
    else oc
  | _ => oc

section Calls
variable {σ : Type} (net : RedisNetwork σ) (rounds : Nat)

/-! ## Arguments -/

/-- `lookup_sha1` first loads the script where it was found missing. -/
def lookupSha1 (oc : OnlineCtrl) (type : ReqType) (s : σ) : Option (Str × OnlineCtrl × σ) :=
  let file := LuaFile.request type
  if (oc.scripts type).needLoad then do
    let addrCmd : Commands := (oc.scripts type).addrs.toList.foldl (fun cmds addr =>
      cmds.insert addr ["SCRIPT".toList, "LOAD".toList, oc.dir.data file]) ∅
    let (_, s) ← cmd net [] rounds false addrCmd ∅ s
    return (oc.dir.sha1 file, oc.setScript type ⟨false, ∅⟩, s)
  else some (oc.dir.sha1 file, oc, s)

/-- `gen_redis_args`, and the data that `syn` appends. -/
def genRedisArgs (oc : OnlineCtrl) (uid : Int) (r : Request) (s : σ) :
    Option (List Str × OnlineCtrl × σ) := do
  let (sha1, oc, s) ← lookupSha1 net rounds oc r.type s
  let keys := Text.decimal uid :: r.keys
  return ("EVALSHA".toList :: sha1 :: Text.decimal keys.length :: (keys ++ r.data), oc, s)

/-! ## Synchronous requests -/

/-- `single_uid_commend` -/
def singleUidCommend (oc : OnlineCtrl) (suid : Str) (args : List Str) (luaCode : Str) (s : σ) :
    Option (RedisRvs × σ) :=
  let rdAddr := redisAddrMaster oc.rh oc.cityHash64 suid
  if rdAddr = 0 then some (∅, s)
  else cmd net luaCode rounds false ((∅ : Commands).insert rdAddr args) ∅ s

/-- The script of a request runs on the master of its user. -/
def commend (oc : OnlineCtrl) (uid : Int) (r : Request) (s : σ) : Option (RedisRvs × OnlineCtrl × σ) := do
  let (args, oc, s) ← genRedisArgs net rounds oc uid r s
  let (rv, s) ← singleUidCommend net rounds oc (Text.decimal uid) args
    (oc.dir.data (.request r.type)) s
  return (rv, oc, s)

/-- Fields without a value are refused before anything is sent. -/
def OnlineCtrl.syn (oc : OnlineCtrl) (uid : Int) (proto : ProtoSyn) (s : σ) :
    Option (Answer σ ProtoIdxPair) :=
  if proto.data.length % 2 ≠ 0 then some ⟨1, none, oc, s⟩
  else do
    let (rv, oc, s) ← commend net rounds oc uid (.syn proto) s
    return ⟨(rvCheckSyn rv).1, (rvCheckSyn rv).2, oc, s⟩

def OnlineCtrl.fin (oc : OnlineCtrl) (uid : Int) (proto : ProtoFin) (s : σ) :
    Option (Answer σ Str) := do
  let (rv, oc, s) ← commend net rounds oc uid (.fin proto) s
  return ⟨(rvCheckFin rv).1, (rvCheckFin rv).2, oc, s⟩

/-- Only the code comes back. -/
def OnlineCtrl.finDelay (oc : OnlineCtrl) (uid : Int) (proto : ProtoFinDelay) (s : σ) :
    Option (Answer σ Unit) := do
  let (rv, oc, s) ← commend net rounds oc uid (.finDelay proto) s
  return ⟨rvCheckFinDelay rv, none, oc, s⟩

def OnlineCtrl.upidx (oc : OnlineCtrl) (uid : Int) (proto : ProtoUpidx) (s : σ) :
    Option (Answer σ ProtoIdxPair) := do
  let (rv, oc, s) ← commend net rounds oc uid (.upidx proto) s
  return ⟨(rvCheckUpidx rv).1, (rvCheckUpidx rv).2, oc, s⟩

/-! ## Asynchronous requests -/

/-- `single_uid_commend_async`, up to and with the callback, which checks the reply. -/
def commendAsync (oc : OnlineCtrl) (uid : Int) (r : Request) (s : σ) : Option (OnlineCtrl × σ) := do
  let (args, oc, s) ← genRedisArgs net rounds oc uid r s
  let rdAddr := redisAddrMaster oc.rh oc.cityHash64 (Text.decimal uid)
  if rdAddr = 0 then return (oc, s)
  else
    let (rv, s) := cmdAsyncRv net ((∅ : Commands).insert rdAddr args) s
    return (checkScriptLoad oc r.type rv, s)

/-- `single_uid_commend_async` alone: the replies are those that its callback will get, if the
request was sent. -/
def singleUidCommendAsync (oc : OnlineCtrl) (uid : Int) (r : Request) (s : σ) :
    Option (Option RedisRvs × OnlineCtrl × σ) := do
  let (args, oc, s) ← genRedisArgs net rounds oc uid r s
  let rdAddr := redisAddrMaster oc.rh oc.cityHash64 (Text.decimal uid)
  if rdAddr = 0 then return (none, oc, s)
  else
    let (rv, s) := cmdAsyncRv net ((∅ : Commands).insert rdAddr args) s
    return (some rv, oc, s)

def OnlineCtrl.synAsync (oc : OnlineCtrl) (uid : Int) (proto : ProtoSyn) (s : σ) :
    Option (Int × OnlineCtrl × σ) :=
  if proto.data.length % 2 ≠ 0 then some (1, oc, s)
  else do return (0, ← commendAsync net rounds oc uid (.syn proto) s)

def OnlineCtrl.finAsync (oc : OnlineCtrl) (uid : Int) (proto : ProtoFin) (s : σ) :
    Option (Int × OnlineCtrl × σ) := do
  return (0, ← commendAsync net rounds oc uid (.fin proto) s)

def OnlineCtrl.finDelayAsync (oc : OnlineCtrl) (uid : Int) (proto : ProtoFinDelay) (s : σ) :
    Option (Int × OnlineCtrl × σ) := do
  return (0, ← commendAsync net rounds oc uid (.finDelay proto) s)

def OnlineCtrl.upidxAsync (oc : OnlineCtrl) (uid : Int) (proto : ProtoUpidx) (s : σ) :
    Option (Int × OnlineCtrl × σ) := do
  return (0, ← commendAsync net rounds oc uid (.upidx proto) s)

/-! ## Removal -/

/-- The pairs of one reply, in their order; others are only logged. -/
def replyPairs : List RedisRv → List (Int × Str)
  | uid :: info :: rest =>
    if uid.type = .integer ∧ info.type = .string then (uid.integer, info.str) :: replyPairs rest
    else replyPairs rest
  | _ => []

/-- The pairs of all replies, by the addresses of the redis. -/
def timeoutRvs (rv : RedisRvs) : List (Int × Str) :=
  rv.toList.flatMap fun (_, tmp) =>
    if tmp.type = .array ∧ tmp.element.length % 2 = 0 then replyPairs tmp.element else []

/-- Clusters with one master share its arguments, which then come twice. -/
def timeoutCommands (oc : OnlineCtrl) (stamp count : Int) : Commands :=
  (redisAll oc.rh).toList.foldl (fun addrCmd (_, addr) =>
    addrCmd.insert addr (addrCmd[addr]?.getD [] ++ ["EVALSHA".toList, oc.dir.sha1 .timeoutRm,
      Text.decimal 2, Text.decimal stamp, Text.decimal count])) ∅

/-- `rvs` is what the caller's vector gets. -/
def OnlineCtrl.timeoutRm (oc : OnlineCtrl) (stamp count : Int) (s : σ) :
    Option (Int × List (Int × Str) × σ) := do
  let (rv, s) ← cmd net (oc.dir.data .timeoutRm) rounds false (timeoutCommands oc stamp count) ∅ s
  return (0, timeoutRvs rv, s)

end Calls
end RedisCluster.Source
