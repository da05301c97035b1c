import RedisCluster.Source.OnlineCtrl

/-!
# The logic layer

`LogicCore.cpp` and the `PHandle` classes: the messages of the connection layer, which call
the hooks, and the loop that has the sessions removed whose time has come. Statistics and
logging are left out.
-/

set_option autoImplicit false

namespace RedisCluster.Source
open Library

/-! ## Messages -/

/-- A field that is missing has its default, 0 or empty. -/
structure ProHead where
  type : Int
  conn : Int
  sid : Int
  rid : Int
  uid : Int
  subPro : Str

/-- A field of the client. -/
structure ExtCliData where
  key : Str
  value : Str

/-- The client is logged in. -/
structure ProSynOk where
  cliTp : Int
  cliVer : Str
  ext : List ExtCliData

/-- The counts of a client, whose version is in the message too. -/
structure ProUpidx where
  cliTp : Int
  cliVer : Str

/-- The time that is left to a client, in seconds. -/
structure ProFinDelay where
  expire : Int

/-- `ParseFromString` of every message: whether it succeeds, and what it leaves in the
message, which a failed parse may have filled in part. -/
structure ParseFromString where
  proHead : Str → Bool × ProHead
  proSyn : Str → Bool
  proSynOk : Str → Bool × ProSynOk
  proUpidx : Str → Bool × ProUpidx
  proFin : Str → Bool
  proFinDelay : Str → Bool × ProFinDelay

/-- The types of messages that have a handler. -/
inductive PHandle where
  | syn | synOk | upidx | fin | finDelay
  deriving DecidableEq, Repr

/-- The `switch` of `from_sublayer`. -/
def pHandle : Int → Option PHandle
  | 1 => some .syn
  | 2 => some .synOk
  | 7 => some .upidx
  | 3 => some .fin
  | 4 => some .finDelay
  | _ => none

/-! ## Hooks -/

/-- A call of a hook, with its arguments. -/
inductive HookCall where
  | syn (timeout uid : Int) (proto : ProtoSyn)
  | fin (timeout uid : Int) (proto : ProtoFin)
  | finDelay (timeout uid : Int) (proto : ProtoFinDelay)
  | upidx (timeout uid : Int) (proto : ProtoUpidx)
  | timeoutRm (timeout stamp count : Int)
  | offlineNotify (uid : Int) (cliInfo : Str)
  | offlineNotifyMulti (rvs : List (Int × Str))

section Hooks
variable (σ : Type)

/-- A hook gets a timeout, a user and the request, and returns a code, and here the counts. -/
def HookSynFn := Int → Int → ProtoSyn → σ → (Int × ProtoIdxPair) × σ
/-- Beside the code it returns what is told of the client. -/
def HookFinFn := Int → Int → ProtoFin → σ → (Int × Str) × σ
def HookFinDelayFn := Int → Int → ProtoFinDelay → σ → Int × σ
def HookUpidxFn := Int → Int → ProtoUpidx → σ → (Int × ProtoIdxPair) × σ
/-- It may not come back. -/
def HookTimeoutRmFn := Int → Int → Int → σ → Option (Int × List (Int × Str) × σ)
def HookOfflineNotifyFn := Int → Str → σ → Int × σ
def HookOfflineNotifyMultiFn := List (Int × Str) → σ → Int × σ

/-- `LogicCore` with its hooks, each of which may be unset. -/
structure LogicCore where
  parse : ParseFromString
  synHook : Option (HookSynFn σ)
  finHook : Option (HookFinFn σ)
  finDelayHook : Option (HookFinDelayFn σ)
  upidxHook : Option (HookUpidxFn σ)
  timeoutRmHook : Option (HookTimeoutRmFn σ)
  offlineNotifyHook : Option (HookOfflineNotifyFn σ)
  offlineNotifyMultiHook : Option (HookOfflineNotifyMultiFn σ)

end Hooks

variable {σ : Type}

/-- A hook that is not set is not called, and returns the default. -/
def callHook {β : Type} (hook : Option (σ → β × σ)) (call : HookCall) (unset : β) (s : σ) :
    β × List HookCall × σ :=
  match hook with
  | some fn => ((fn s).1, [call], (fn s).2)
  | none => (unset, [], s)

namespace LogicCore
variable (lc : LogicCore σ)

def synFn (timeout uid : Int) (proto : ProtoSyn) : σ → (Int × ProtoIdxPair) × List HookCall × σ :=
  callHook (lc.synHook.map fun fn => fn timeout uid proto) (.syn timeout uid proto) (0, ⟨0, 0⟩)

def finFn (timeout uid : Int) (proto : ProtoFin) : σ → (Int × Str) × List HookCall × σ :=
  callHook (lc.finHook.map fun fn => fn timeout uid proto) (.fin timeout uid proto) (0, [])

def finDelayFn (timeout uid : Int) (proto : ProtoFinDelay) : σ → Int × List HookCall × σ :=
  callHook (lc.finDelayHook.map fun fn => fn timeout uid proto) (.finDelay timeout uid proto) 0

def upidxFn (timeout uid : Int) (proto : ProtoUpidx) :
    σ → (Int × ProtoIdxPair) × List HookCall × σ :=
  callHook (lc.upidxHook.map fun fn => fn timeout uid proto) (.upidx timeout uid proto) (0, ⟨0, 0⟩)

def timeoutRmFn (timeout stamp count : Int) (s : σ) :
    Option ((Int × List (Int × Str)) × List HookCall × σ) :=
  match lc.timeoutRmHook with
  | some fn => do
    let (rv, rvs, s) ← fn timeout stamp count s
    return ((rv, rvs), [.timeoutRm timeout stamp count], s)
  | none => some ((0, []), [], s)

def offlineNotifyFn (uid : Int) (cliInfo : Str) : σ → Int × List HookCall × σ :=
  callHook (lc.offlineNotifyHook.map fun fn => fn uid cliInfo) (.offlineNotify uid cliInfo) 0

def offlineNotifyMultiFn (rvs : List (Int × Str)) : σ → Int × List HookCall × σ :=
  callHook (lc.offlineNotifyMultiHook.map fun fn => fn rvs) (.offlineNotifyMulti rvs) 0

/-! ## Handlers

What a parse returns is only logged. -/

/-- `PHandleSynOk::process`: a login becomes a `syn`, also where the login did not parse. -/
def processSynOk (now : Int) (sublayerIndex : Str) (ph : ProHead) (s : σ) : List HookCall × σ :=
  let (_, ps) := lc.parse.proSynOk ph.subPro
  if ph.uid ≤ 0 then ([], s)
  else
    let data := ps.ext.flatMap fun ext => [ext.key, ext.value]
    (lc.synFn 100 ph.uid ⟨⟨ph.conn, ⟨ph.sid, 0⟩, sublayerIndex⟩, now, ps.cliTp, ps.cliVer, data⟩ s).2

/-- `PHandleUpidx::process` -/
def processUpidx (now : Int) (sublayerIndex : Str) (ph : ProHead) (s : σ) : List HookCall × σ :=
  let (_, ps) := lc.parse.proUpidx ph.subPro
  if ph.uid ≤ 0 then ([], s)
  else
    -- `cli_ver` is not copied
    (lc.upidxFn 100 ph.uid ⟨⟨ph.conn, ⟨ph.sid, ph.rid⟩, sublayerIndex⟩, now, ps.cliTp, []⟩ s).2

/-- `PHandleFin::process`: whoever asked for the end is told of it if the hook returns 0. -/
def processFin (sublayerIndex : Str) (ph : ProHead) (s : σ) : List HookCall × σ :=
  let _ := lc.parse.proFin ph.subPro
  if ph.uid ≤ 0 then ([], s)
  else
    let ((rv, cliInfo), calls, s) := lc.finFn 100 ph.uid ⟨ph.conn, ⟨ph.sid, ph.rid⟩, sublayerIndex⟩ s
    if rv = 0 then
      let (_, calls', s) := lc.offlineNotifyFn ph.uid cliInfo s
      (calls ++ calls', s)
    else (calls, s)

/-- `PHandleFinDelay::process`: the stamp is the time of the message and what is left, in an `int`.
-/
def processFinDelay (now : Int) (sublayerIndex : Str) (ph : ProHead) (s : σ) : List HookCall × σ :=
  let (_, ps) := lc.parse.proFinDelay ph.subPro
  if ph.uid ≤ 0 then ([], s)
  else
    (lc.finDelayFn 100 ph.uid ⟨⟨ph.conn, ⟨ph.sid, ph.rid⟩, sublayerIndex⟩, toInt32 (now + ps.expire)⟩ s).2

/-- The handler of a message. That of SYN only logs. -/
def process : PHandle → Int → Str → ProHead → σ → List HookCall × σ
  | .syn, _, _, _, s => ([], s)
  | .synOk, now, sublayerIndex, ph, s => lc.processSynOk now sublayerIndex ph s
  | .upidx, now, sublayerIndex, ph, s => lc.processUpidx now sublayerIndex ph s
  | .fin, _, sublayerIndex, ph, s => lc.processFin sublayerIndex ph s
  | .finDelay, now, sublayerIndex, ph, s => lc.processFinDelay now sublayerIndex ph s

/-- The hooks that a message calls; `now` is what `time_now_fn` returns. -/
def fromSublayer (now : Int) (sublayerIndex pro : Str) (s : σ) : List HookCall × σ :=
  let (parsed, pb) := lc.parse.proHead pro
  if parsed = false then ([], s)
  else
    match pHandle pb.type with
    | some handle => lc.process handle now sublayerIndex pb s
    | none => ([], s)

/-- The call that the connection layer makes itself; the session starts at 1. -/
def fromSublayerSynok (now uid conn cliTp : Int) (ver sublayerIndex : Str)
    (data : Std.ExtTreeMap Str Str) (s : σ) : List HookCall × σ :=
  let kvs := data.toList.flatMap fun entry => [entry.1, entry.2]
  (lc.synFn 100 uid ⟨⟨conn, ⟨1, 0⟩, sublayerIndex⟩, now, cliTp, ver, kvs⟩ s).2

/-! ## Removal -/

/-- One turn of the loop of `check_timeout`. -/
def checkTimeoutTurn (now : Int) (s : σ) : Option (List HookCall × σ) := do
  let ((rv, rvs), calls, s) ← lc.timeoutRmFn 300 now (-1) s
  if rv ≠ 0 then return (calls, s)
  else
    let (_, calls', s) := lc.offlineNotifyMultiFn rvs s
    return (calls ++ calls', s)

/-- The loop, for as many turns as there are times. -/
def checkTimeout : List Int → σ → Option (List HookCall × σ)
  | [], s => some ([], s)
  | now :: nows, s => do
    let (calls, s) ← lc.checkTimeoutTurn now s
    let (calls', s) ← checkTimeout nows s
    return (calls ++ calls', s)

end LogicCore
end RedisCluster.Source
