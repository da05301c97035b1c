import RedisCluster.Library.History
import RedisCluster.Source.OnlineCtrl

/-!
# Many calls at once

Threads that make calls of `OnlineCtrl`, on redis that they share. A round of commands is sent in one
critical section. After that each command may be run at any time, even after its call has returned,
or never. A wait may end at any time, with any answers that have not come too late for it, also with
those to other calls, as when its slot is used again while their answers are out. What an answer does
to memory after its call has left without `reset`, as after a spurious wakeup, is left out. While calls
are under way redis may be shown scripts, as by `lookup_sha1`, or forget them, the table may change,
and time passes.
-/

set_option autoImplicit false

namespace RedisCluster.Source
open Library

/-! ## Calls -/

/-- A call that has a script run. -/
inductive OnlineTask where
  | request (uid : Int) (r : Request)
  | requestAsync (uid : Int) (r : Request)
  | timeoutRm (stamp count : Int)

namespace OnlineTask

/-- The script that it has run. -/
def file : OnlineTask → LuaFile
  | .request _ r => .request r.type
  | .requestAsync _ r => .request r.type
  | .timeoutRm _ _ => .timeoutRm

/-- It is made by `cmd_async`, which sends once. -/
def isAsync : OnlineTask → Bool
  | .requestAsync _ _ => true
  | _ => false

/-- The command of a request, for the master of its user. A request that is refused sends none. -/
def requestCommands (oc : OnlineCtrl) (uid : Int) (r : Request) : Commands :=
  let rdAddr := redisAddrMaster oc.rh oc.cityHash64 (Text.decimal uid)
  let keys := Text.decimal uid :: r.keys
  if r.accepted = false ∨ rdAddr = 0 then ∅
  else (∅ : Commands).insert rdAddr ("EVALSHA".toList :: oc.dir.sha1 (.request r.type) ::
    Text.decimal keys.length :: (keys ++ r.data))

/-- What it sends in the first round. -/
def commands (oc : OnlineCtrl) : OnlineTask → Commands
  | .request uid r => requestCommands oc uid r
  | .requestAsync uid r => requestCommands oc uid r
  | .timeoutRm stamp count => timeoutCommands oc stamp count

end OnlineTask

/-- Where a call is. -/
inductive CallerPhase where
  /-- At the beginning of `cmd`, the first time or when it calls itself. -/
  | ready
  | waiting
  | returned
  deriving DecidableEq, Repr

/-- A call, with the arguments of `cmd` in this round. -/
structure Caller where
  task : OnlineTask
  iseval : Bool
  addrCmd : Commands
  rv : RedisRvs
  round : Nat
  phase : CallerPhase

namespace Caller
variable (dir : ScriptDir)

def enter (oc : OnlineCtrl) (task : OnlineTask) : Caller := ⟨task, false, task.commands oc, ∅, 0, .ready⟩

/-- The commands of the round. -/
def sent (c : Caller) : Commands :=
  (sendable c.addrCmd).map fun _ args => if c.iseval then evalArgs (dir.data c.task.file) args else args

/-- From the end of the wait: `cmd` calls itself with what is left, which may be nothing. -/
def proceed (c : Caller) (replies : List (UInt64 × Option RedisReply)) : Caller :=
  if c.task.isAsync then
    { c with
      addrCmd := ∅
      rv := replies.foldl (fun rv reply => redisrpRedisrvs2 reply.2 rv reply.1) c.rv
      phase := .ready }
  else
    let (rv, err) := collect replies c.rv
    if dir.data c.task.file ≠ [] ∧ err.isEmpty = false then
      { c with iseval := true, addrCmd := errAddrs c.addrCmd err, rv := rv, phase := .ready }
    else { c with addrCmd := ∅, rv := rv, phase := .ready }

end Caller

/-! ## Traffic -/

/-- A command that was sent, with the round of its call. -/
structure Flight where
  call : Nat
  round : Nat
  addr : UInt64
  args : List Str
  deriving DecidableEq

/-- What a redis has answered to a command of this round. -/
structure FlightReply where
  call : Nat
  round : Nat
  addr : UInt64
  reply : RedisReply

/-- The log has the calls, what redis have run for them, and what they have returned. -/
structure CallTraffic where
  rh : RedisHash
  servers : UInt64 → Redis
  callers : Nat → Option Caller
  flights : List Flight
  replies : List FlightReply
  log : List (Note OnlineTask UInt64 RedisRvs SessionEvent)

/-- One step of the traffic. -/
inductive TrafficEvent where
  /-- A call comes to read the table. -/
  | call (n : Nat) (task : OnlineTask)
  /-- What is short enough is sent where there is a connection for it. -/
  | send (n : Nat) (connected : UInt64 → Bool)
  /-- A redis executes a command. -/
  | exec (f : Flight)
  /-- The wait ends, with these replies; `none` is `NULL`. -/
  | proceed (n : Nat) (replies : List (UInt64 × Option RedisReply))
  | ret (n : Nat)
  /-- A redis is shown scripts, or forgets them. -/
  | cache (addr : UInt64) (cached : Str → Bool)
  | table (rh : RedisHash)
  /-- Time passes for every redis, in milliseconds. -/
  | elapse (d : Nat)

def CallTraffic.init (rh : RedisHash) (servers : UInt64 → Redis) : CallTraffic :=
  ⟨rh, servers, fun _ => none, [], [], []⟩

def CallTraffic.setCaller (s : CallTraffic) (n : Nat) (c : Caller) : CallTraffic :=
  { s with callers := Function.update s.callers n (some c) }

@[simp] theorem CallTraffic.callers_setCaller_self (s : CallTraffic) (n : Nat) (c : Caller) :
    (s.setCaller n c).callers n = some c := Function.update_self ..

/-- What may happen next. Calls have numbers of their own. An answer is one that its redis has given,
to this call or to another one. -/
def TrafficEnabled (s : CallTraffic) : TrafficEvent → Prop
  | .call n _ => s.callers n = none
  | .send n _ => ∃ c, s.callers n = some c ∧ c.phase = .ready ∧ c.addrCmd.isEmpty = false
  | .exec f => f ∈ s.flights
  | .proceed n replies => ∃ c, s.callers n = some c ∧ c.phase = .waiting ∧
      ∀ addr r, (addr, some r) ∈ replies → ∃ call round, ⟨call, round, addr, r⟩ ∈ s.replies
  | .ret n => ∃ c, s.callers n = some c ∧ c.phase = .ready ∧ c.addrCmd.isEmpty = true
  | _ => True

variable (oc : OnlineCtrl)

/-- The commands that go out in a round. -/
def flightsOf (n : Nat) (c : Caller) (connected : UInt64 → Bool) : List Flight :=
  ((c.sent oc.dir).toList.filter fun entry => connected entry.1).map fun entry =>
    ⟨n, c.round + 1, entry.1, entry.2⟩

/-- The log after a command, which may have had the script of its call run. -/
def logAfter (s : CallTraffic) (task : OnlineTask) (f : Flight) :
    List (Note OnlineTask UInt64 RedisRvs SessionEvent) :=
  match redisOrder oc.dir (s.servers f.addr).cached f.args with
  | .run _ _ _ => s.log ++ [.acted f.call task f.addr]
  | _ => s.log

/-- `none` where the event names a call that was not made. -/
def trafficStep (s : CallTraffic) : TrafficEvent → Option CallTraffic
  | .call n task => some { s.setCaller n (.enter { oc with rh := s.rh } task) with
      log := s.log ++ [.called n task] }
  | .send n connected => do
    let c ← s.callers n
    return { s.setCaller n { c with round := c.round + 1, phase := .waiting } with
      flights := s.flights ++ flightsOf oc n c connected }
  | .exec f => do
    let c ← s.callers f.call
    let (reply, r) := (s.servers f.addr).exec oc.dir f.args
    return { s with
      servers := Function.update s.servers f.addr r
      flights := s.flights.erase f
      replies := s.replies ++ [⟨f.call, f.round, f.addr, reply⟩]
      log := logAfter oc s c.task f }
  | .proceed n replies => do
    let c ← s.callers n
    return s.setCaller n (c.proceed oc.dir replies)
  | .ret n => do
    let c ← s.callers n
    return { s.setCaller n { c with phase := .returned } with log := s.log ++ [.returned n c.rv] }
  | .cache addr cached => some { s with
      servers := Function.update s.servers addr { s.servers addr with cached := cached } }
  | .table rh => some { s with rh := rh }
  | .elapse d => some { s with
      servers := fun addr => { s.servers addr with keys := (s.servers addr).keys.elapse d }
      log := s.log ++ [.passed (.elapse d)] }

section Step
variable {oc} {s : CallTraffic} {n : Nat} {c : Caller}

theorem trafficStep_send (hc : s.callers n = some c) (connected : UInt64 → Bool) :
    trafficStep oc s (.send n connected) =
      some { s.setCaller n { c with round := c.round + 1, phase := .waiting } with
        flights := s.flights ++ flightsOf oc n c connected } := by
  rw [trafficStep, hc]
  rfl

theorem trafficStep_exec {f : Flight} (hc : s.callers f.call = some c) :
    trafficStep oc s (.exec f) = some { s with
      servers := Function.update s.servers f.addr ((s.servers f.addr).exec oc.dir f.args).2
      flights := s.flights.erase f
      replies := s.replies ++ [⟨f.call, f.round, f.addr, ((s.servers f.addr).exec oc.dir f.args).1⟩]
      log := logAfter oc s c.task f } := by
  rw [trafficStep, hc]
  rfl

theorem trafficStep_proceed (hc : s.callers n = some c) (replies : List (UInt64 × Option RedisReply)) :
    trafficStep oc s (.proceed n replies) = some (s.setCaller n (c.proceed oc.dir replies)) := by
  rw [trafficStep, hc]
  rfl

theorem trafficStep_ret (hc : s.callers n = some c) : trafficStep oc s (.ret n) =
    some { s.setCaller n { c with phase := .returned } with log := s.log ++ [.returned n c.rv] } := by
  rw [trafficStep, hc]
  rfl

end Step

abbrev TrafficRun (s : CallTraffic) : List TrafficEvent → CallTraffic → Prop :=
  Run TrafficEnabled (trafficStep oc) s

end RedisCluster.Source
