import RedisCluster.Source.RedisLoop

/-!
# One synchronous call, step by step

`RedisEvent::cmd` from the critical section in which it sends its commands until it returns,
interleaved with the callbacks for its replies. `carg.mux` is locked before the loop mutex is
unlocked and is given up only by the wait itself, so the callback that notifies waits for the
wait to begin. `timed_wait` returns `false` exactly if its time is up, and nothing looks at
what has come when it returns `true`.
-/

set_option autoImplicit false

namespace RedisCluster.Source
open Library

/-- Where `cmd` is. -/
inductive CmdPhase where
  /-- It holds `carg.mux`; the loop mutex is unlocked. -/
  | locked
  | waiting
  /-- The wait has ended; it returns when `carg.mux` is locked again. -/
  | woken (istmout : Bool)
  /-- `is_timeout` is set, and the loop mutex is to be locked. -/
  | late
  | passed
  | returned
  deriving DecidableEq, Repr

/-- What happens while one call waits. -/
inductive CmdEvent where
  | wait
  | reply (addr : UInt64) (r : Option RedisReply)
  | timeout
  | spurious
  | pass
  | reset
  | ret

section Model
variable (τ : Type) [LinearOrder τ]

/-- The loop, and the call of `cmd` with this number and slot. -/
structure CmdState where
  loop : LoopState τ
  call : Nat
  cf : Slot
  phase : CmdPhase

end Model

section Steps
variable {τ : Type} [LinearOrder τ]

/-- A `cmd` that could send nothing does not wait. -/
def cmdEnter (s : LoopState τ) (c : SyncCall) : CmdState τ where
  loop := cmdSend s c
  call := s.ev.allocs
  cf := nextCf s.ev.idx
  phase := if ((cmdSend s c).frames s.ev.allocs).isSome then .locked else .passed

/-- The command that a reply for the call is for. -/
def ownCommands (s : CmdState τ) : List Command :=
  s.loop.syncPending.filter fun p => p.call = s.call

/-- `notify_one` wakes a `cmd` that waits. -/
def wake (phase : CmdPhase) (carg : Option CmdFrame) : CmdPhase :=
  if phase = .waiting ∧ (carg.any CmdFrame.notified) = true then .woken false else phase

/-- What may happen next. The callback that counts the slot down to zero needs `carg.mux`. -/
def CmdEnabled (s : CmdState τ) : CmdEvent → Prop
  | .wait => s.phase = .locked
  | .reply addr _ => (∃ p ∈ s.loop.syncPending, p.call = s.call ∧ p.addr = addr) ∧
      ¬ (s.phase = .locked ∧ s.loop.ev.cfg s.cf = ⟨1, some s.call⟩)
  | .timeout => s.phase = .waiting
  | .spurious => s.phase = .waiting
  | .pass => ∃ istmout, s.phase = .woken istmout
  | .reset => s.phase = .late
  | .ret => s.phase = .passed

variable [Add τ] [Sub τ] [Zero τ]

/-- There is no result where a callback would use a `carg` that is gone. -/
def cmdStep (s : CmdState τ) : CmdEvent → Option (CmdState τ)
  | .wait => some { s with phase := .waiting }
  | .reply addr r => do
    let loop ← loopStep s.loop (.reply s.call addr r)
    return { s with loop := loop, phase := wake s.phase (loop.frames s.call) }
  | .timeout => some { s with phase := .woken true }
  | .spurious => some { s with phase := .woken false }
  | .pass => some { s with phase := if s.phase = .woken true then .late else .passed }
  | .reset => some { s with
      loop := { s.loop with ev := s.loop.ev.setCf s.cf .idle }
      phase := .passed }
  | .ret => some { s with
      loop := { s.loop with frames := Function.update s.loop.frames s.call none }
      phase := .returned }

abbrev CmdRun (s : CmdState τ) : List CmdEvent → CmdState τ → Prop := Run CmdEnabled cmdStep s

end Steps
end RedisCluster.Source
