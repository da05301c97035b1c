import RedisCluster.Library.Run
import RedisCluster.Source.RedisEvent
import RedisCluster.Source.Util

/-!
# The table of connections

`userdata_t` has one `redisAsyncContext` for an address. `RedisEvent::connect` puts it there
through `redisLibevAttach`, and the cleanup hook, which hiredis runs when it gives a context up,
takes it out. The loop mutex makes each call of `cmd` or `cmd_async` and each callback one step.

Contexts are numbered in the order of their `redisAsyncConnect`. A step has no result where an
assertion fails, and where the code would use a `NULL` pointer or a context that is freed.
-/

set_option autoImplicit false

namespace RedisCluster.Source
open Library

def redisOk : Int := 0

/-- `redisLibevEvents`; `status` is 0 from the attach, and 1 once established. -/
structure LibevEvents where
  context : Nat
  addr : UInt64
  status : Int
  deriving DecidableEq, Repr

/-- `redisAsyncContext`: whom it connects to, `ev`, and whether `connect_cb` is set. The last three
are what hiredis has to do for it: the addresses whose commands it owes a reply for, the status
that it gave to `connect_cb`, and whether the cleanup hook has run. -/
structure AsyncContext where
  ip : Str
  port : Int
  err : Bool
  evData : Option LibevEvents
  evCleanup : Bool
  onConnect : Bool
  pending : List UInt64
  reported : Option Int
  cleaned : Bool
  deriving DecidableEq, Repr

/-- What hiredis does with an address in one call: `redisAsyncConnect` fails at once, or
`redisAsyncCommandArgv` returns `REDIS_ERR`. -/
structure HiredisAnswer where
  err : Bool
  refuses : Bool

/-- A call of `redisAsyncCommandArgv`: the address it is for, and the context as it was then. -/
structure Issue where
  addr : UInt64
  context : AsyncContext
  refused : Bool
  deriving DecidableEq, Repr

/-- The table of connections, the contexts that were made, and the commands that were issued over
them. -/
structure ConnState where
  ctxs : Std.ExtTreeMap UInt64 Nat
  contexts : Nat → Option AsyncContext
  allocs : Nat
  issued : List Issue

/-- What happens to connections: calls of the program, and what hiredis calls back. -/
inductive ConnEvent where
  | cmd (addrCmd : Commands) (hiredis : UInt64 → HiredisAnswer)
  | cmdAsync (addrCmd : Commands) (hiredis : UInt64 → HiredisAnswer)
  /-- hiredis calls `connect_cb`. -/
  | connected (c : Nat) (status : Int)
  /-- The reply, or `NULL`, to the first command that the context owes one for. -/
  | reply (c : Nat) (r : Option RedisReply)
  | cleanup (c : Nat)
  /-- hiredis calls `disconnect_cb`, which only writes to the log. -/
  | disconnected (c : Nat) (status : Int)
  | free (c : Nat)

namespace ConnState

def init : ConnState := ⟨∅, fun _ => none, 0, []⟩

def setContext (s : ConnState) (c : Nat) (ac : Option AsyncContext) : ConnState :=
  { s with contexts := Function.update s.contexts c ac }

/-! ## `userdata_t` -/

/-- `none` where the assertion fails, as the address is in the table. -/
def insert (s : ConnState) (addr : UInt64) (c : Nat) : Option ConnState :=
  if addr ∈ s.ctxs then none else some { s with ctxs := s.ctxs.insert addr c }

/-- `none` where the assertion fails, as the address is not in the table. -/
def clear (s : ConnState) (addr : UInt64) : Option ConnState :=
  if addr ∈ s.ctxs then some { s with ctxs := s.ctxs.erase addr } else none

def lookup (s : ConnState) (addr : UInt64) : Option Nat := s.ctxs[addr]?

/-! ## `libev.cpp` -/

/-- A context with a record already is left as it is (`REDIS_ERR`). -/
def redisLibevAttach (s : ConnState) (c : Nat) (addr : UInt64) : Option ConnState := do
  let ac ← s.contexts c
  if ac.evData.isSome then return s
  let s ← s.insert addr c
  return s.setContext c (some { ac with evData := some ⟨c, addr, 0⟩, evCleanup := true })

/-- The cleanup hook: the address leaves the table, and its context loses its record. -/
def redisLibevCleanup (s : ConnState) (e : LibevEvents) : Option ConnState := do
  let s ← s.clear e.addr
  let context ← s.contexts e.context
  return s.setContext e.context (some { context with evData := none })

/-! ## `RedisEvent` -/

/-- hiredis owes a reply for the command, unless it returns `REDIS_ERR`. -/
def redisAsyncCommandArgv (s : ConnState) (c : Nat) (ac : AsyncContext) (addr : UInt64) (refused : Bool) :
    ConnState :=
  { s.setContext c (some { ac with pending := if refused then ac.pending else ac.pending ++ [addr] }) with
    issued := s.issued ++ [⟨addr, ac, refused⟩] }

/-- The context that failed at once is neither attached nor freed. -/
def connect (s : ConnState) (addr : UInt64) (err : Bool) : Option ConnState := do
  let c := s.allocs
  let ac : AsyncContext :=
    ⟨(int64Ipv4 addr).1, (int64Ipv4 addr).2, err, none, false, false, [], none, false⟩
  let s := { s.setContext c (some ac) with allocs := c + 1 }
  if err then return s
  let s ← s.redisLibevAttach c addr
  let ac ← s.contexts c
  return s.setContext c (some { ac with onConnect := true })

/-- A connection that failed is left to hiredis, which frees it. -/
def connectCb (s : ConnState) (c : Nat) (status : Int) : Option ConnState :=
  if status ≠ redisOk then some s
  else do
    let ac ← s.contexts c
    let re ← ac.evData
    return s.setContext c (some { ac with evData := some { re with status := 1 } })

/-- The callbacks of `cmd` and `cmd_async` file a reply under the address of this record. -/
def replyAddr (s : ConnState) (c : Nat) : Option UInt64 := do
  let ac ← s.contexts c
  let re ← ac.evData
  return re.addr

/-- What the loop of `cmd` does for one address. -/
def sendTo (hiredis : UInt64 → HiredisAnswer) (s : ConnState) (entry : UInt64 × List Str) :
    Option ConnState :=
  if entry.2.length ≥ argvMaxLen then some s
  else
    match s.lookup entry.1 with
    | none => s.connect entry.1 (hiredis entry.1).err
    | some c => do
      let ac ← s.contexts c
      let rd ← ac.evData -- `assert(rd)`
      return if rd.status = 1 then s.redisAsyncCommandArgv c ac entry.1 (hiredis entry.1).refuses else s

/-- One command for each address: over the connection if it is established; otherwise one is begun.
-/
def cmd (s : ConnState) (addrCmd : Commands) (hiredis : UInt64 → HiredisAnswer) : Option ConnState :=
  if addrCmd.isEmpty then some s else addrCmd.toList.foldlM (sendTo hiredis) s

/-- Its loop over the addresses is that of `cmd`. -/
def cmdAsync (s : ConnState) (addrCmd : Commands) (hiredis : UInt64 → HiredisAnswer) :
    Option ConnState :=
  if addrCmd.isEmpty then some s else addrCmd.toList.foldlM (sendTo hiredis) s

end ConnState

/-- What may happen next. hiredis calls `connect_cb` at most once and runs the cleanup hook exactly
once, when `connect_cb` can no longer come and no reply is owed; then it frees the context. -/
def ConnEnabled (s : ConnState) : ConnEvent → Prop
  | .cmd _ _ => True
  | .cmdAsync _ _ => True
  | .connected c _ => ∃ ac, s.contexts c = some ac ∧ ac.onConnect = true ∧ ac.reported = none ∧
      ac.cleaned = false
  | .reply c _ => ∃ ac, s.contexts c = some ac ∧ ac.pending ≠ []
  | .cleanup c => ∃ ac, s.contexts c = some ac ∧ ac.evCleanup = true ∧ ac.cleaned = false ∧
      ac.pending = []
  | .disconnected c _ => ∃ ac, s.contexts c = some ac
  | .free c => ∃ ac, s.contexts c = some ac ∧ ac.cleaned = true

def connStep (s : ConnState) : ConnEvent → Option ConnState
  | .cmd addrCmd hiredis => s.cmd addrCmd hiredis
  | .cmdAsync addrCmd hiredis => s.cmdAsync addrCmd hiredis
  | .connected c status => do
    let ac ← s.contexts c
    (s.setContext c (some { ac with reported := some status })).connectCb c status
  | .reply c r => do
    let ac ← s.contexts c
    if r.isSome then let _ ← s.replyAddr c
    return s.setContext c (some { ac with pending := ac.pending.tail })
  | .cleanup c => do
    let ac ← s.contexts c
    let e ← ac.evData
    (s.setContext c (some { ac with cleaned := true })).redisLibevCleanup e
  | .disconnected _ _ => some s
  | .free c => some (s.setContext c none)

abbrev ConnRun (s : ConnState) : List ConnEvent → ConnState → Prop := Run ConnEnabled connStep s

/-! ## What the functions do -/

namespace ConnState

section Functions
variable {s : ConnState} {c c' : Nat} {now later : Option AsyncContext} {ac : AsyncContext}
  {e : LibevEvents} {addr : UInt64} {status : Int}

theorem setContext_contexts :
    (s.setContext c now).contexts c' = if c' = c then now else s.contexts c' :=
  Function.update_apply ..

@[simp] theorem setContext_self : (s.setContext c now).contexts c = now :=
  Function.update_self ..

@[simp] theorem setContext_ctxs : (s.setContext c now).ctxs = s.ctxs := rfl

@[simp] theorem setContext_setContext :
    (s.setContext c now).setContext c later = s.setContext c later := by
  unfold setContext
  rw [Function.update_idem]

theorem connectCb_failure (h : status ≠ redisOk) : s.connectCb c status = some s :=
  if_pos h

theorem connectCb_success (here : s.contexts c = some ac) (record : ac.evData = some e) :
    s.connectCb c redisOk = some (s.setContext c
      (some { ac with evData := some { e with status := 1 } })) := by
  unfold connectCb
  rw [if_neg fun h => h rfl, here]
  simp [record]

/-- The record names the context that it belongs to, and the table has its address. -/
theorem redisLibevCleanup_eq (here : s.contexts e.context = some ac) (mem : e.addr ∈ s.ctxs) :
    s.redisLibevCleanup e = some { s.setContext e.context (some { ac with evData := none }) with
      ctxs := s.ctxs.erase e.addr } := by
  unfold redisLibevCleanup clear
  rw [if_pos mem]
  simp [here, setContext]

/-- A context for the address that failed at once, or was attached. -/
def newContext (c : Nat) (addr : UInt64) (err : Bool) : AsyncContext :=
  ⟨(int64Ipv4 addr).1, (int64Ipv4 addr).2, err, if err then none else some ⟨c, addr, 0⟩, !err, !err, [],
    none, false⟩

theorem connect_eq (absent : addr ∉ s.ctxs) (err : Bool) : s.connect addr err =
    some { s.setContext s.allocs (some (newContext s.allocs addr err)) with
      allocs := s.allocs + 1
      ctxs := if err then s.ctxs else s.ctxs.insert addr s.allocs } := by
  cases err with
  | true => rfl
  | false => simp [connect, redisLibevAttach, insert, absent, setContext, newContext]

end Functions
end ConnState
end RedisCluster.Source
