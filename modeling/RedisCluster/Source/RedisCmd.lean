import RedisCluster.Source.RedisEvent
import RedisCluster.Source.ScriptServer

/-!
# Synchronous commands

`RedisEvent::cmd`. The commands of a round go out at once, and the caller waits until all
replies are there or the time is up. Which commands are sent and run, and which replies
come in time and in what order, is up to the network.
-/

set_option autoImplicit false

namespace RedisCluster.Source
open Library

/-! ## RedisEvent::cmd -/

/-- A round of commands gives the replies that are processed before the wait ends, in
their order; `none` is `NULL`. -/
structure RedisNetwork (σ : Type) where
  round : σ → Commands → List (UInt64 × Option RedisReply) × σ

/-- The commands that fit `cmd_argv_`. -/
def sendable (addrCmd : Commands) : Commands :=
  addrCmd.filter fun _ args => args.length < argvMaxLen

/-- `argv[0]` and `argv[1]` with `iseval`. -/
def evalArgs (luaCode : Str) (args : List Str) : List Str :=
  ("EVAL".toList :: luaCode :: args.drop 2).take args.length

/-- `carg.err` starts empty in every round. -/
def collect (replies : List (UInt64 × Option RedisReply)) (rv : RedisRvs) : RedisRvs × RedisRvs :=
  replies.foldl (fun carg reply => redisrpRedisrvs reply.2 carg.1 carg.2 reply.1) (rv, ∅)

/-- The command was an `EVALSHA`, and its script is not known. -/
def lacksScript (args : List Str) (err : RedisRv) : Bool :=
  2 ≤ args.length && args.head? = some "EVALSHA".toList && "NOSCRIPT".toList.isPrefixOf err.str

def errAddrs (addrCmd : Commands) (err : RedisRvs) : Commands :=
  addrCmd.filter fun addr args => err[addr]?.any (lacksScript args)

/-- The call of itself is bounded by the number of rounds. -/
def cmd {σ : Type} (net : RedisNetwork σ) (luaCode : Str) :
    Nat → Bool → Commands → RedisRvs → σ → Option (RedisRvs × σ)
  | 0, _, _, _, _ => none
  | rounds + 1, iseval, addrCmd, rv, s =>
    if addrCmd.isEmpty then some (rv, s)
    else
      let sent := (sendable addrCmd).map fun _ args => if iseval then evalArgs luaCode args else args
      let (replies, s) := net.round s sent
      let (rv, err) := collect replies rv
      if luaCode ≠ [] ∧ err.isEmpty = false then
        cmd net luaCode rounds true (errAddrs addrCmd err) rv s
      else some (rv, s)

/-- What the callback of `cmd_async` gets: the replies before the deadline. -/
def cmdAsyncRv {σ : Type} (net : RedisNetwork σ) (addrCmd : Commands) (s : σ) : RedisRvs × σ :=
  let (replies, s) := net.round s (sendable addrCmd)
  (replies.foldl (fun rv reply => redisrpRedisrvs2 reply.2 rv reply.1) ∅, s)

/-! ## The redis behind it -/

/-- What becomes of one command. Before it runs anything may happen to its redis, and the
connection may break before its reply is there. -/
structure Fate where
  sent : Bool
  before : Redis → Redis
  runs : Bool
  answers : Bool

/-- What becomes of a round, and which of the sent commands are answered in time. -/
structure CmdRound where
  fate : UInt64 → Fate
  arrivals : List UInt64 → List UInt64
  subset : ∀ sent, ∀ addr ∈ arrivals sent, addr ∈ sent
  nodup : ∀ sent, sent.Nodup → (arrivals sent).Nodup

/-- A script that was run, with the keyspace it found. -/
structure Execution where
  addr : UInt64
  file : LuaFile
  keys : List Str
  argv : List Str
  found : Keyspace
  inTime : Bool

def Execution.reply (e : Execution) : RedisReply := (runScript (e.file.script e.keys e.argv) e.found).1

structure World where
  servers : UInt64 → Redis
  rounds : Nat
  log : List Execution

variable (dir : ScriptDir)

/-- A command that was sent is answered `NULL` if there is no reply. -/
def Fate.outcome (fate : Fate) (r : Redis) (args : List Str) : Option (Option RedisReply) × Redis :=
  if fate.sent then
    if fate.runs then
      let (reply, r) := (fate.before r).exec dir args
      (some (if fate.answers then some reply else none), r)
    else (some none, fate.before r)
  else (none, r)

def Fate.execution (fate : Fate) (r : Redis) (addr : UInt64) (args : List Str) (arrives : Bool) :
    Option Execution :=
  if fate.sent && fate.runs then
    match redisOrder dir (fate.before r).cached args with
    | .run file keys argv => some ⟨addr, file, keys, argv, (fate.before r).keys, fate.answers && arrives⟩
    | _ => none
  else none

/-- The commands of a round go to different redis. -/
def network (plan : Nat → CmdRound) : RedisNetwork World where
  round w cmds :=
    let round := plan w.rounds
    let arrived := round.arrivals (cmds.keys.filter fun addr => (round.fate addr).sent)
    (arrived.filterMap fun addr => do
      let args ← cmds[addr]?
      let reply ← ((round.fate addr).outcome dir (w.servers addr) args).1
      return (addr, reply),
    { servers := fun addr =>
        match cmds[addr]? with
        | some args => ((round.fate addr).outcome dir (w.servers addr) args).2
        | none => w.servers addr
      rounds := w.rounds + 1
      log := w.log ++ cmds.toList.filterMap fun (addr, args) =>
        (round.fate addr).execution dir (w.servers addr) addr args (arrived.contains addr) })

end RedisCluster.Source
