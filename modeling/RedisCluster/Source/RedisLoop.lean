import RedisCluster.Library.Run
import RedisCluster.Source.RedisEvent

/-!
# Synchronous and asynchronous calls on one ring

`RedisEvent::cmd` takes its slot from the same ring as `cmd_async`, and the slot points to
`carg` on its stack. Its wait ends when the last reply notifies it or when its time is up;
it resets the slot then, whatever the slot points to by that time.
-/

set_option autoImplicit false

namespace RedisCluster.Source
open Library

/-- The arguments of `cmd`, and the connections it finds. -/
structure SyncCall where
  rv : RedisRvs
  addrCmd : Commands
  ctxs : UInt64 → Option Connection

/-- What a `cmd` keeps on its stack until it has passed its wait; `rv` and `err` are
`carg`. -/
structure CmdFrame where
  rv : RedisRvs
  err : RedisRvs
  cf : Slot
  notified : Bool

section Model
variable (τ : Type) [LinearOrder τ]

/-- Frames and blocks are numbered together, by their calls. -/
structure LoopState where
  ev : EventState τ
  syncPending : List Command
  frames : Nat → Option CmdFrame

/-- What happens to the loop when synchronous calls share its slots. -/
inductive LoopEvent where
  | cmd (call : SyncCall)
  | async (e : AsyncEvent τ)
  /-- The reply, or `NULL`, to a command of a `cmd`. -/
  | reply (call : Nat) (addr : UInt64) (r : Option RedisReply)
  /-- A `cmd` goes on after its wait. -/
  | pass (call : Nat) (istmout : Bool)

end Model

section Steps
variable {τ : Type} [LinearOrder τ]

def LoopState.init (idx : UInt64) : LoopState τ := ⟨.init idx, [], fun _ => none⟩

/-- `cmd`, up to its wait. It waits only if it could send something. -/
def cmdSend (s : LoopState τ) (c : SyncCall) : LoopState τ :=
  if c.addrCmd.isEmpty then s
  else
    let ptr := s.ev.allocs
    let cf := nextCf s.ev.idx
    let (wsz, pending) := c.addrCmd.toList.foldl (sendAll c.ctxs ptr cf) (0, s.syncPending)
    let s := { s with
      ev := { s.ev with idx := .ofNat cf, allocs := s.ev.allocs + 1 }
      syncPending := pending }
    if wsz > 0 then
      { s with
        ev := s.ev.setCf cf ⟨wsz, some ptr⟩
        frames := Function.update s.frames ptr (some ⟨c.rv, ∅, cf, false⟩) }
    else s

/-- `redis_cmd_cb` -/
def redisCmdCb (s : LoopState τ) (addr : UInt64) (cf : Slot) (r : Option RedisReply) :
    Option (LoopState τ) :=
  match s.ev.cfg cf with
  | ⟨f, some ptr⟩ =>
    if f = 0 then some s
    else do
      let carg ← s.frames ptr
      let (rv, err) := redisrpRedisrvs r carg.rv carg.err addr
      return { s with
        ev := s.ev.setCf cf (if f - 1 = 0 then .idle else ⟨f - 1, some ptr⟩)
        frames := Function.update s.frames ptr
          (some { carg with rv := rv, err := err, notified := carg.notified || f - 1 = 0 }) }
  | ⟨_, none⟩ => some s

/-- `cmd`, from the end of its wait; `carg` is gone when it returns. -/
def cmdPass (s : LoopState τ) (call : Nat) (istmout : Bool) : Option (LoopState τ) := do
  let frame ← s.frames call
  return { s with
    ev := if istmout then s.ev.setCf frame.cf .idle else s.ev
    frames := Function.update s.frames call none }

/-- What may happen next. A call with no address returns at once. -/
def LoopEnabled (s : LoopState τ) : LoopEvent τ → Prop
  | .cmd c => c.addrCmd.isEmpty = false
  | .async (.cmdAsync c) => c.addrCmd.isEmpty = false
  | .async (.reply _ call addr _) => ∃ p ∈ s.ev.pending, p.call = call ∧ p.addr = addr
  | .async (.tick _) => True
  | .reply call addr _ => ∃ p ∈ s.syncPending, p.call = call ∧ p.addr = addr
  | .pass call istmout => ∃ frame, s.frames call = some frame ∧
      (istmout = true ∨ frame.notified = true)

/-- The slot is referenced by no undelivered reply, no deadline entry and no `cmd` that has
not passed its wait. -/
def SlotUnused (s : LoopState τ) (cf : Slot) : Prop :=
  SlotFree s.ev cf ∧ (∀ p ∈ s.syncPending, p.cf ≠ cf) ∧
    ∀ call frame, s.frames call = some frame → frame.cf ≠ cf

variable [Add τ] [Sub τ] [Zero τ]

/-- `none` where the source writes through a reference that is gone. -/
def loopStep (s : LoopState τ) : LoopEvent τ → Option (LoopState τ)
  | .cmd c => some (cmdSend s c)
  | .async e => do return { s with ev := ← eventStep s.ev e }
  | .reply call addr r => do
    let p ← s.syncPending.find? fun p => p.call = call ∧ p.addr = addr
    redisCmdCb { s with syncPending := s.syncPending.erase p } addr p.cf r
  | .pass call istmout => cmdPass s call istmout

abbrev LoopRun (s : LoopState τ) : List (LoopEvent τ) → LoopState τ → Prop :=
  Run LoopEnabled loopStep s

end Steps
end RedisCluster.Source
