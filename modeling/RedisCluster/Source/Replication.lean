import RedisCluster.Source.RedisCtrl

/-!
# Replication commands

`RedisCtrl::do_slaveof_cmd`, and what a redis reports to `CONFIG GET slaveof` after the
commands it got. As in `check_redis`, the replies of each attempt are a parameter.
-/

set_option autoImplicit false

namespace RedisCluster.Source
open Library

/-! ## do_slaveof_cmd -/

/-- The command for `NO:ONE` or for the address of a master. -/
def slaveofArgs (cmd : Str) : Option (List Str) :=
  if cmd = "NO:ONE".toList then some ["SLAVEOF".toList, "NO".toList, "ONE".toList]
  else
    match strIpv4 cmd with
    | some (ip, port) => some ["SLAVEOF".toList, ip, Text.decimal port]
    | none => none

/-- An entry with a text that is no address is only logged. -/
def slaveofEntry (entry : Str × Str) : Option (UInt64 × List Str) := do
  let ipv4 ← strIpv4Int64 entry.1
  let args ← slaveofArgs entry.2
  return (ipv4, args)

def slaveofCommands (cmds : StrMap) : Commands :=
  cmds.toList.foldl (fun addrCmd entry =>
    match slaveofEntry entry with
    | some (ipv4, args) => addrCmd.insert ipv4 args
    | none => addrCmd) ∅

/-- The addresses that answered `OK`. -/
def okAddrs (rv : RedisRvs) : Addrs :=
  rv.toList.foldl (fun okAddrs (ipv4, rv) =>
    if rv.type = .status ∧ rv.str = "OK".toList then okAddrs.insert (int64StrIpv4 ipv4)
    else okAddrs) ∅

/-- The commands of each attempt; `tries` further attempts may follow the first. -/
def doSlaveofCmd (net : Network) (tries : Nat) (cmds : StrMap) : List Commands :=
  let addrCmd := slaveofCommands cmds
  if addrCmd.isEmpty then []
  else
    let rv := net (tries + 1) addrCmd
    let errAddrs : StrMap := cmds.filter fun addr _ => addr ∉ okAddrs rv
    match tries with
    | 0 => [addrCmd]
    | tries + 1 =>
      addrCmd :: if errAddrs.isEmpty then [] else doSlaveofCmd net tries errAddrs

/-! ## The redis -/

/-- What each redis reports as its `slaveof`: `ip port` of its master, or nothing. -/
abbrev Upstreams := UInt64 → Str

/-- What a redis reports after a command. -/
def slaveof : List Str → Str → Str
  | [_, ip, port], _ =>
    if ip = "NO".toList ∧ port = "ONE".toList then [] else ip ++ ' ' :: port
  | _, old => old

/-- All of the commands are delivered and obeyed, and no other redis changes. -/
def obeyed (before : Upstreams) (cmds : Commands) : Upstreams := fun ipv4 =>
  match cmds[ipv4]? with
  | some args => slaveof args (before ipv4)
  | none => before ipv4

example : slaveofArgs "10.0.0.7:6379".toList =
    some ["SLAVEOF".toList, "10.0.0.7".toList, "6379".toList] := by
  decide +kernel

end RedisCluster.Source
