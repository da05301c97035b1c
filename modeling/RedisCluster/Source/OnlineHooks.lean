import RedisCluster.Source.LogicCore

/-!
# The hooks

`test.cpp`: the requests of the logic layer go to `g_oc`. The hooks make its asynchronous calls and
return 0 at once. The synchronous calls stand in the comments of the hooks; with them a hook returns
what the call returns. Notifications are only logged.
-/

set_option autoImplicit false

namespace RedisCluster.Source
open Library

variable {σ : Type}

/-! ## The hooks as they are -/

/-- `g_oc` and the redis behind it, with the replies whose callbacks the event thread has still to
run. -/
structure OnlineService (σ : Type) where
  oc : OnlineCtrl
  net : σ
  due : List (ReqType × RedisRvs)

section Hooks
variable (net : RedisNetwork σ) (rounds : Nat)

/-- `syn_async`, `fin_async`, `fin_delay_async` or `upidx_async`. Only `syn_async` refuses anything. -/
def OnlineService.requestAsync (uid : Int) (r : Request) (s : OnlineService σ) : OnlineService σ :=
  if r.accepted = false then s
  else
    match singleUidCommendAsync net rounds s.oc uid r s.net with
    | some (rv, oc, net) => ⟨oc, net, s.due ++ (rv.map fun rv => (r.type, rv)).toList⟩
    | none => s

def hookOfflineNotify {τ : Type} : HookOfflineNotifyFn τ := fun _ _ s => (0, s)

def hookOfflineNotifyMulti {τ : Type} : HookOfflineNotifyMultiFn τ := fun _ s => (0, s)

end Hooks

/-! ## The hooks of the comments -/

/-- A call that has not come back leaves things as they were. -/
def hookAnswer {α : Type} (unset : α) (s : OnlineCtrl × σ) :
    Option (Answer σ α) → (Int × α) × (OnlineCtrl × σ)
  | some answer => ((answer.code, answer.out.getD unset), (answer.oc, answer.net))
  | none => ((0, unset), s)

section Comments
variable (net : RedisNetwork σ) (rounds : Nat)

/-- `hook_syn` with `g_oc.syn`. -/
def syncSyn : HookSynFn (OnlineCtrl × σ) := fun _ uid proto s =>
  hookAnswer ⟨0, 0⟩ s (s.1.syn net rounds uid proto s.2)

/-- `hook_fin` with `g_oc.fin`. -/
def syncFin : HookFinFn (OnlineCtrl × σ) := fun _ uid proto s =>
  hookAnswer [] s (s.1.fin net rounds uid proto s.2)

/-- `hook_fin_delay` with `g_oc.fin_delay`. -/
def syncFinDelay : HookFinDelayFn (OnlineCtrl × σ) := fun _ uid proto s =>
  let ((code, _), s) := hookAnswer () s (s.1.finDelay net rounds uid proto s.2)
  (code, s)

/-- `hook_upidx` with `g_oc.upidx`. -/
def syncUpidx : HookUpidxFn (OnlineCtrl × σ) := fun _ uid proto s =>
  hookAnswer ⟨0, 0⟩ s (s.1.upidx net rounds uid proto s.2)

def syncTimeoutRm : HookTimeoutRmFn (OnlineCtrl × σ) := fun _ stamp count s => do
  let (code, rvs, net) ← s.1.timeoutRm net rounds stamp count s.2
  return (code, rvs, (s.1, net))

/-- A `LogicCore` over the synchronous calls of `g_oc`. `g_lc` itself has the hooks above. -/
def onlineCore (parse : ParseFromString) : LogicCore (OnlineCtrl × σ) where
  parse := parse
  synHook := some (syncSyn net rounds)
  finHook := some (syncFin net rounds)
  finDelayHook := some (syncFinDelay net rounds)
  upidxHook := some (syncUpidx net rounds)
  timeoutRmHook := some (syncTimeoutRm net rounds)
  offlineNotifyHook := some hookOfflineNotify
  offlineNotifyMultiHook := some hookOfflineNotifyMulti

end Comments
end RedisCluster.Source
