import Mathlib.Order.Lattice
import RedisCluster.Library.Multimap
import RedisCluster.Source.Reply

/-!
# Asynchronous requests

`RedisEvent.cpp`. A request takes a slot of a ring, which hiredis hands back with every
reply, and allocates a block that the slot points to while the request is open. A
deadline entry for the slot lets the periodic timer end the request first. The mutex
makes every call of `cmd_async`, every reply and every timer callback one step.

Times are of any linearly ordered type. A step has no result where the code would use a
block that it has freed.
-/

set_option autoImplicit false

namespace RedisCluster.Source
open Library

/-- `CUR_CALL_NUM` -/
def curCallNum : Nat := 1000000
/-- `ARGV_MAX_LEN`: a command with so many arguments is not sent. -/
def argvMaxLen : Nat := 2048

/-- An index of `cfg_`, which stands for `cflag_t *`. -/
abbrev Slot := Fin curCallNum

/-- `d` is the block that the slot points to. -/
structure CFlag where
  f : Int
  d : Option Nat
  deriving DecidableEq, Repr

def CFlag.idle : CFlag := ⟨0, none⟩

section Model
variable (τ : Type) [LinearOrder τ]

/-- `cmd_async_arg_t`, which lives from the call to its callback. -/
structure CmdAsyncArg where
  rv : RedisRvs
  key : Int
  data : Nat
  callback : Bool
  callStamp : τ
  timeout : τ

/-- One call of a callback: its arguments, and the block they came from. -/
structure Invocation where
  call : Nat
  rv : RedisRvs
  elapsed : τ
  istmout : Bool
  key : Int
  data : Nat

/-- A command that hiredis still owes a reply for. -/
structure Command where
  call : Nat
  addr : UInt64
  cf : Slot
  deriving DecidableEq, Repr

/-- `idx_` is never set before its first use. -/
structure EventState where
  idx : UInt64
  cfg : Slot → CFlag
  req : Multimap τ Slot
  args : Nat → Option (CmdAsyncArg τ)
  allocs : Nat
  pending : List Command
  log : List (Invocation τ)

/-- What `lookup` finds for an address, and whether hiredis refuses a command for it. -/
structure Connection where
  status : Int
  refuses : Bool

/-- The arguments of `cmd_async`, its time, and the connections it finds. -/
structure AsyncCall where
  key : Int
  data : Nat
  callback : Bool
  addrCmd : Commands
  callStamp : τ
  timeout : τ
  ctxs : UInt64 → Option Connection

/-- What happens to asynchronous calls. -/
inductive AsyncEvent where
  | cmdAsync (call : AsyncCall τ)
  /-- The reply, or `NULL`, to the command that a call sent to an address. -/
  | reply (now : τ) (call : Nat) (addr : UInt64) (r : Option RedisReply)
  | tick (stamp : τ)

end Model

section Steps
variable {τ : Type} [LinearOrder τ] [Add τ] [Sub τ] [Zero τ]

namespace EventState

omit [Add τ] [Sub τ] [Zero τ] in
def init (idx : UInt64) : EventState τ :=
  ⟨idx, fun _ => .idle, .empty, fun _ => none, 0, [], []⟩

omit [Add τ] [Sub τ] [Zero τ] in
def setCf (s : EventState τ) (cf : Slot) (c : CFlag) : EventState τ :=
  { s with cfg := Function.update s.cfg cf c }

omit [Add τ] [Sub τ] [Zero τ] in
def setArg (s : EventState τ) (ptr : Nat) (arg : Option (CmdAsyncArg τ)) : EventState τ :=
  { s with args := Function.update s.args ptr arg }

omit [Add τ] [Sub τ] [Zero τ] in
/-- `if (carg->callback) { carg->callback(..); delete carg; }` -/
def finish (s : EventState τ) (ptr : Nat) (arg : CmdAsyncArg τ) (elapsed : τ) (istmout : Bool) :
    EventState τ :=
  if arg.callback then
    { s.setArg ptr none with log := s.log ++ [⟨ptr, arg.rv, elapsed, istmout, arg.key, arg.data⟩] }
  else s

end EventState

/-- The slot that the next call takes. -/
def nextCf (idx : UInt64) : Slot :=
  if h : (idx + 1).toNat < curCallNum then ⟨(idx + 1).toNat, h⟩ else ⟨0, by decide⟩

/-- The command for one address is sent: it is short enough, and the connection is ready. -/
def sends (ctxs : UInt64 → Option Connection) (entry : UInt64 × List Str) : Bool :=
  if entry.2.length ≥ argvMaxLen then false
  else match ctxs entry.1 with
    | none => false
    | some c => c.status = 1 && !c.refuses

/-- The loop of `cmd_async` over the addresses. -/
def sendAll (ctxs : UInt64 → Option Connection) (ptr : Nat) (cf : Slot)
    (sent : Nat × List Command) (entry : UInt64 × List Str) : Nat × List Command :=
  if sends ctxs entry then (sent.1 + 1, sent.2 ++ [⟨ptr, entry.1, cf⟩]) else sent

def cmdAsync (s : EventState τ) (c : AsyncCall τ) : EventState τ :=
  if c.addrCmd.isEmpty then s
  else
    let tmout := c.callStamp + c.timeout
    let carg : CmdAsyncArg τ := ⟨∅, c.key, c.data, c.callback, c.callStamp, tmout⟩
    let ptr := s.allocs
    let cf := nextCf s.idx
    let (wsz, pending) := c.addrCmd.toList.foldl (sendAll c.ctxs ptr cf) (0, s.pending)
    let s := { s.setArg ptr (some carg) with
      idx := .ofNat cf, allocs := s.allocs + 1, req := s.req.insert tmout cf, pending := pending }
    if wsz > 0 then s.setCf cf ⟨wsz, some ptr⟩ else s.finish ptr carg 0 false

/-- `addr` is the address of the connection that the reply came on. -/
def redisCmdAsyncCb (s : EventState τ) (now : τ) (addr : UInt64) (cf : Slot)
    (r : Option RedisReply) : Option (EventState τ) :=
  match s.cfg cf with
  | ⟨f, some ptr⟩ =>
    if f = 0 then some s
    else do
      let carg ← s.args ptr
      let s := s.setCf cf (if f - 1 = 0 then .idle else ⟨f - 1, some ptr⟩)
      let carg := { carg with rv := redisrpRedisrvs2 r carg.rv addr }
      let s := s.setArg ptr (some carg)
      if (s.cfg cf).f = 0 then
        let s := { s with req := s.req.erase carg.timeout cf }
        return s.finish ptr carg (now - carg.callStamp) false
      else return s
  | ⟨_, none⟩ => some s

/-- What `timeout_callback` does with an entry it has taken out. -/
def timeoutEntry (s : EventState τ) (stamp : τ) (cf : Slot) : Option (EventState τ) :=
  match s.cfg cf with
  | ⟨f, some ptr⟩ =>
    if f = 0 then some s
    else do
      let carg ← s.args ptr
      return (s.setCf cf .idle).finish ptr carg (stamp - carg.callStamp) true
  | ⟨_, none⟩ => some s

/-- The loop of `timeout_callback`, for at most `rounds` entries. -/
def timeoutLoop (stamp : τ) : Nat → EventState τ → Option (EventState τ)
  | 0, s => some s
  | rounds + 1, s =>
    match s.req.entries with
    | [] => some s
    | (deadline, cf) :: _ =>
      if deadline < stamp then do
        let s ← timeoutEntry { s with req := s.req.popFront } stamp cf
        timeoutLoop stamp rounds s
      else some s

/-- No callback adds an entry, so there are no more rounds than entries. -/
def timeoutCallback (s : EventState τ) (stamp : τ) : Option (EventState τ) :=
  timeoutLoop stamp s.req.entries.length s

/-- The slot is referenced by no undelivered reply and no deadline entry. -/
def SlotFree (s : EventState τ) (cf : Slot) : Prop :=
  (∀ p ∈ s.pending, p.cf ≠ cf) ∧ ∀ e ∈ s.req.entries, e.2 ≠ cf

/-- What may happen next. -/
def Enabled (s : EventState τ) : AsyncEvent τ → Prop
  | .cmdAsync c => c.addrCmd.isEmpty = false ∧ c.callback = true ∧ SlotFree s (nextCf s.idx)
  | .reply _ call addr _ => ∃ p ∈ s.pending, p.call = call ∧ p.addr = addr
  | .tick _ => True

instance (s : EventState τ) (cf : Slot) : Decidable (SlotFree s cf) :=
  inferInstanceAs (Decidable ((∀ p ∈ s.pending, p.cf ≠ cf) ∧ ∀ e ∈ s.req.entries, e.2 ≠ cf))

instance (s : EventState τ) (e : AsyncEvent τ) : Decidable (Enabled s e) :=
  match e with
  | .cmdAsync c => inferInstanceAs
      (Decidable (c.addrCmd.isEmpty = false ∧ c.callback = true ∧ SlotFree s (nextCf s.idx)))
  | .reply _ call addr _ =>
    inferInstanceAs (Decidable (∃ p ∈ s.pending, p.call = call ∧ p.addr = addr))
  | .tick _ => inferInstanceAs (Decidable True)

/-- `none` where the source reads what it has freed. -/
def eventStep (s : EventState τ) : AsyncEvent τ → Option (EventState τ)
  | .cmdAsync c => some (cmdAsync s c)
  | .reply now call addr r => do
    let p ← s.pending.find? fun p => p.call = call ∧ p.addr = addr
    redisCmdAsyncCb { s with pending := s.pending.erase p } now addr p.cf r
  | .tick stamp => timeoutCallback s stamp

/-- A run of events, each of which may happen when its turn comes. -/
def runEvents (s : EventState τ) : List (AsyncEvent τ) → Option (EventState τ)
  | [] => some s
  | e :: es => if Enabled s e then do runEvents (← eventStep s e) es else none

end Steps
end RedisCluster.Source
