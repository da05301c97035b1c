import RedisCluster.Source.OnlineCtrl

/-!
# Loading scripts from several threads

`script_t::add` and `script_t::lookup_sha1` as atomic steps: `add` is one locked section, and a
lookup reads `need_load_`, swaps the addresses under the lock, sends `SCRIPT LOAD` to them, and
takes `need_load_` back.
-/

set_option autoImplicit false

namespace RedisCluster.Source
open Library

/-- `set<uint64_t>` -/
abbrev AddrSet := Std.ExtTreeSet UInt64

/-- Where a thread is in `lookup_sha1`. -/
inductive LookupPc where
  | out
  /-- `need_load_` was true. -/
  | entered
  | swapped (addrs : AddrSet)
  | loaded

/-- `add` and the swap hold the lock. The test of `need_load_` and its reset do not, and are one
step each. -/
inductive LoadEvent where
  | add (addr : UInt64)
  /-- The thread calls `lookup_sha1` and reads `need_load_`. -/
  | enter (t : Nat)
  | swap (t : Nat)
  | load (t : Nat)
  | reset (t : Nat)

/-- The script with its addresses, and where every thread is. -/
structure LoadState where
  script : ScriptT
  threads : Nat → LookupPc
  /-- The addresses of every `SCRIPT LOAD` that was sent. -/
  loads : List AddrSet

def LoadState.init : LoadState := ⟨⟨false, ∅⟩, fun _ => .out, []⟩

def LoadState.goto (s : LoadState) (t : Nat) (pc : LookupPc) : LoadState :=
  { s with threads := Function.update s.threads t pc }

/-- There is no step that a thread is not at. -/
def loadStep (s : LoadState) : LoadEvent → Option LoadState
  | .add addr => some { s with script := s.script.add addr }
  | .enter t =>
    match s.threads t with
    | .out => some (s.goto t (if s.script.needLoad then .entered else .out))
    | _ => none
  | .swap t =>
    match s.threads t with
    | .entered => some { s.goto t (.swapped s.script.addrs) with script := ⟨s.script.needLoad, ∅⟩ }
    | _ => none
  | .load t =>
    match s.threads t with
    | .swapped addrs =>
      -- nothing is sent to no addresses
      some { s.goto t .loaded with loads := if addrs.isEmpty then s.loads else s.loads ++ [addrs] }
    | _ => none
  | .reset t =>
    match s.threads t with
    | .loaded => some { s.goto t .out with script := ⟨false, s.script.addrs⟩ }
    | _ => none

/-! ## Steps -/

section Steps
variable {s s' : LoadState} {t : Nat}

theorem loadStep_enter : loadStep s (.enter t) = some s' ↔
    s.threads t = .out ∧ s' = s.goto t (if s.script.needLoad then .entered else .out) := by
  rw [loadStep]
  cases s.threads t <;> simp [@eq_comm _ s']

theorem loadStep_swap : loadStep s (.swap t) = some s' ↔ s.threads t = .entered ∧
    s' = { s.goto t (.swapped s.script.addrs) with script := ⟨s.script.needLoad, ∅⟩ } := by
  rw [loadStep]
  cases s.threads t <;> simp [@eq_comm _ s']

theorem loadStep_load : loadStep s (.load t) = some s' ↔ ∃ addrs, s.threads t = .swapped addrs ∧
    s' = { s.goto t .loaded with loads := if addrs.isEmpty then s.loads else s.loads ++ [addrs] } := by
  rw [loadStep]
  cases s.threads t <;> simp [@eq_comm _ s']

theorem loadStep_reset : loadStep s (.reset t) = some s' ↔ s.threads t = .loaded ∧
    s' = { s.goto t .out with script := ⟨false, s.script.addrs⟩ } := by
  rw [loadStep]
  cases s.threads t <;> simp [@eq_comm _ s']

@[simp] theorem goto_script {pc : LookupPc} : (s.goto t pc).script = s.script := rfl

theorem goto_threads {pc : LookupPc} {u : Nat} :
    (s.goto t pc).threads u = if u = t then pc else s.threads u :=
  Function.update_apply ..

end Steps
end RedisCluster.Source
