import RedisCluster.Guarantees.SyncAsync
import RedisCluster.Source.OnlineHooks

/-!
# Messages and what the redis make of them

A message of the connection layer is one request at most, which one redis serves. So what a redis
has after a run of messages is what the session scripts make of the requests for it.

The first part holds for any hooks. In the runs the hooks make the synchronous calls of
`OnlineCtrl`, as the comments in the hooks of the source have it, and every command is answered in
time.
-/

set_option autoImplicit false

namespace RedisCluster.Guarantees
open Library Source

/-! ## The request of a message -/

/-- What a handler asks for, if it asks for anything. -/
def requestOf (parse : ParseFromString) (now : Int) (sublayerIndex : Str) (ph : ProHead) :
    PHandle → Option Request
  | .syn => none
  | .synOk =>
    let ps := (parse.proSynOk ph.subPro).2
    some (.syn ⟨⟨ph.conn, ⟨ph.sid, 0⟩, sublayerIndex⟩, now, ps.cliTp, ps.cliVer,
      ps.ext.flatMap fun ext => [ext.key, ext.value]⟩)
  | .upidx => some (.upidx ⟨⟨ph.conn, ⟨ph.sid, ph.rid⟩, sublayerIndex⟩, now,
      (parse.proUpidx ph.subPro).2.cliTp, []⟩)
  | .fin => some (.fin ⟨⟨ph.conn, ⟨ph.sid, ph.rid⟩, sublayerIndex⟩⟩)
  | .finDelay => some (.finDelay ⟨⟨ph.conn, ⟨ph.sid, ph.rid⟩, sublayerIndex⟩,
      toInt32 (now + (parse.proFinDelay ph.subPro).2.expire)⟩)

/-- The user and the request of a message. -/
def messageRequest (parse : ParseFromString) (now : Int) (sublayerIndex pro : Str) :
    Option (Int × Request) :=
  let ph := (parse.proHead pro).2
  if (parse.proHead pro).1 = true ∧ 0 < ph.uid then
    ((pHandle ph.type).bind (requestOf parse now sublayerIndex ph)).map fun r => (ph.uid, r)
  else none

section Asks
variable {σ : Type} (lc : LogicCore σ)

/-- The call of the hook of a request. -/
def askHook (uid : Int) (s : σ) : Request → σ
  | .syn proto => (lc.synFn 100 uid proto s).2.2
  | .fin proto => (lc.finFn 100 uid proto s).2.2
  | .finDelay proto => (lc.finDelayFn 100 uid proto s).2.2
  | .upidx proto => (lc.upidxFn 100 uid proto s).2.2

variable (silent : ∀ uid cliInfo s, (lc.offlineNotifyFn uid cliInfo s).2.2 = s) (now : Int)
  (sublayerIndex : Str)

include silent in
theorem process_asks (handle : PHandle) (ph : ProHead) (s : σ) :
    (lc.process handle now sublayerIndex ph s).2 =
      if 0 < ph.uid then
        match requestOf lc.parse now sublayerIndex ph handle with
        | some r => askHook lc ph.uid s r
        | none => s
      else s := by
  by_cases huid : 0 < ph.uid
  · have hnot : ¬ ph.uid ≤ 0 := by omega
    rw [if_pos huid]
    cases handle with
    | syn => rfl
    | synOk =>
      rw [LogicCore.process, LogicCore.processSynOk]
      simp only [if_neg hnot]
      rfl
    | upidx =>
      rw [LogicCore.process, LogicCore.processUpidx]
      simp only [if_neg hnot]
      rfl
    | fin =>
      rw [LogicCore.process, LogicCore.processFin]
      simp only [if_neg hnot]
      split
      · exact silent _ _ _
      · rfl
    | finDelay =>
      rw [LogicCore.process, LogicCore.processFinDelay]
      simp only [if_neg hnot]
      rfl
  · have hle : ph.uid ≤ 0 := by omega
    rw [if_neg huid]
    cases handle with
    | syn => rfl
    | synOk => rw [LogicCore.process, LogicCore.processSynOk]; simp only [if_pos hle]
    | upidx => rw [LogicCore.process, LogicCore.processUpidx]; simp only [if_pos hle]
    | fin => rw [LogicCore.process, LogicCore.processFin]; simp only [if_pos hle]
    | finDelay => rw [LogicCore.process, LogicCore.processFinDelay]; simp only [if_pos hle]

include silent in
/-- Whatever the hooks are, a message calls that of its request and no other. -/
theorem fromSublayer_asks (pro : Str) (s : σ) :
    (lc.fromSublayer now sublayerIndex pro s).2 =
      match messageRequest lc.parse now sublayerIndex pro with
      | some (uid, r) => askHook lc uid s r
      | none => s := by
  cases hparsed : lc.parse.proHead pro with
  | mk parsed ph =>
  unfold LogicCore.fromSublayer messageRequest
  rw [hparsed]
  cases parsed with
  | false => rfl
  | true =>
    cases hhandle : pHandle ph.type with
    | none => simp [hhandle]
    | some handle =>
      have hprocess := process_asks lc silent now sublayerIndex handle ph s
      simp only [hhandle, Option.bind_some, true_and, Bool.true_eq_false, if_false, hprocess]
      by_cases huid : 0 < ph.uid
      · simp only [if_pos huid]
        cases requestOf lc.parse now sublayerIndex ph handle <;> rfl
      · simp only [if_neg huid]

end Asks

section Perform
variable {σ : Type} (net : RedisNetwork σ) (rounds : Nat)

/-- A request, by its synchronous call. -/
def perform (s : OnlineCtrl × σ) (uid : Int) : Request → OnlineCtrl × σ
  | .syn proto => (syncSyn net rounds 100 uid proto s).2
  | .fin proto => (syncFin net rounds 100 uid proto s).2
  | .finDelay proto => (syncFinDelay net rounds 100 uid proto s).2
  | .upidx proto => (syncUpidx net rounds 100 uid proto s).2

theorem askHook_onlineCore (parse : ParseFromString) (uid : Int) (s : OnlineCtrl × σ) (r : Request) :
    askHook (onlineCore net rounds parse) uid s r = perform net rounds s uid r := by
  cases r <;> rfl

/-- A message is performed as its request. -/
theorem fromSublayer_perform (parse : ParseFromString) (now : Int) (sublayerIndex pro : Str)
    (s : OnlineCtrl × σ) :
    ((onlineCore net rounds parse).fromSublayer now sublayerIndex pro s).2 =
      match messageRequest parse now sublayerIndex pro with
      | some (uid, r) => perform net rounds s uid r
      | none => s := by
  have hasks := fromSublayer_asks (onlineCore net rounds parse) (fun _ _ _ => rfl) now sublayerIndex pro s
  simp only [askHook_onlineCore] at hasks
  exact hasks

end Perform

/-! ## One request -/

/-- The script path, the table and the hash are the same. -/
structure SameTable (oc oc' : OnlineCtrl) : Prop where
  dir : oc'.dir = oc.dir
  rh : oc'.rh = oc.rh
  cityHash64 : oc'.cityHash64 = oc.cityHash64

theorem SameTable.refl (oc : OnlineCtrl) : SameTable oc oc := ⟨rfl, rfl, rfl⟩

theorem SameTable.trans {oc oc' oc'' : OnlineCtrl} (h : SameTable oc oc') (h' : SameTable oc' oc'') :
    SameTable oc oc'' :=
  ⟨h'.dir.trans h.dir, h'.rh.trans h.rh, h'.cityHash64.trans h.cityHash64⟩

theorem SameTable.masterOf {oc oc' : OnlineCtrl} (h : SameTable oc oc') (uid : Int) :
    masterOf oc' uid = masterOf oc uid := by
  rw [Guarantees.masterOf, h.rh, h.cityHash64, Guarantees.masterOf]

/-- The request runs its script on this redis. -/
def Reaches (oc : OnlineCtrl) (uid : Int) (r : Request) (addr : UInt64) : Prop :=
  addr = masterOf oc uid ∧ addr ≠ 0 ∧ (requestArgs oc.dir uid r).length < argvMaxLen

instance (oc : OnlineCtrl) (uid : Int) (r : Request) (addr : UInt64) : Decidable (Reaches oc uid r addr) :=
  inferInstanceAs (Decidable (_ ∧ _ ∧ _))

theorem SameTable.reaches {oc oc' : OnlineCtrl} (h : SameTable oc oc') (uid : Int) (r : Request)
    (addr : UInt64) : Reaches oc' uid r addr ↔ Reaches oc uid r addr := by
  rw [Reaches, h.masterOf, h.dir, Reaches]

section Request
variable {dir : ScriptDir} {plan : Nat → CmdRound} (prompt : Prompt plan)

include prompt in
/-- Loading a script leaves the data alone. -/
theorem afterLookup_keys (oc : OnlineCtrl) (type : ReqType) (w : World) (addr : UInt64) :
    ((afterLookup plan oc type w).servers addr).keys = (w.servers addr).keys := by
  unfold afterLookup
  dsimp only
  split
  · rw [prompt.servers]
    split
    · next args hargs =>
      obtain ⟨args', hargs', _, heq⟩ := sentCmds_get.mp hargs
      rw [loadCmds_get] at hargs'
      split at hargs'
      · cases hargs'
        rw [heq, if_neg Bool.false_ne_true, loadArgs, exec_load, Redis.learn]
      · simp at hargs'
    · rfl
  · rfl

include prompt in
/-- A call changes the user's redis, as the script says, and no other. -/
theorem commend_keys {uid : Int} {r : Request} (oc : OnlineCtrl) (accepted : r.accepted = true)
    (w : World) (rounds : Nat) :
    ∃ rv w', commend (network oc.dir plan) (rounds + 3) oc uid r w = some (rv, looked oc r.type, w') ∧
      ∀ addr, (w'.servers addr).keys =
        if Reaches oc uid r addr then sessionStep (w.servers addr).keys (.request uid r)
        else (w.servers addr).keys := by
  by_cases routed : masterOf oc uid = 0
  · refine ⟨∅, afterLookup plan oc r.type w, by rw [commend_eq, if_pos routed], fun addr => ?_⟩
    rw [if_neg fun h => h.2.1 (h.1.trans routed), afterLookup_keys prompt]
  · obtain ⟨rv, w', hcommend, hran⟩ := @commend_ran uid r oc plan w prompt accepted routed rounds
    refine ⟨rv, w', hcommend, fun addr => ?_⟩
    split
    · next h =>
      rw [hran.asked addr (asks_insert.mpr ⟨h.1, h.2.2⟩), sessionStep, if_pos accepted]
      exact congrArg (fun s => (runScript (scriptOf r.type (requestKeys uid r) r.data) s).2)
        (afterLookup_keys prompt oc r.type w addr)
    · next h =>
      rw [hran.other addr, afterLookup_keys prompt]
      intro asks
      obtain ⟨rfl, hlen⟩ := asks_insert.mp asks
      exact h ⟨rfl, routed, hlen⟩

include prompt in
theorem perform_keys (rounds : Nat) (s : OnlineCtrl × World) (hdir : s.1.dir = dir) (uid : Int)
    (r : Request) : SameTable s.1 (perform (network dir plan) (rounds + 3) s uid r).1 ∧
      ∀ addr, ((perform (network dir plan) (rounds + 3) s uid r).2.servers addr).keys =
        if Reaches s.1 uid r addr then sessionStep (s.2.servers addr).keys (.request uid r)
        else (s.2.servers addr).keys := by
  subst hdir
  cases haccepted : r.accepted with
  | false =>
    cases r with
    | syn proto =>
      have hodd : proto.data.length % 2 ≠ 0 := of_decide_eq_false haccepted
      have hsame : perform (network s.1.dir plan) (rounds + 3) s uid (.syn proto) = s := by
        rw [perform, syncSyn, OnlineCtrl.syn, if_pos hodd]
        rfl
      rw [hsame]
      refine ⟨.refl _, fun addr => ?_⟩
      rw [sessionStep, haccepted]
      split <;> rfl
    | fin proto => cases haccepted
    | finDelay proto => cases haccepted
    | upidx proto => cases haccepted
  | true =>
    obtain ⟨rv, w', hcommend, hkeys⟩ := commend_keys prompt s.1 haccepted s.2 rounds
    have hperform : perform (network s.1.dir plan) (rounds + 3) s uid r = (looked s.1 r.type, w') := by
      cases r with
      | syn proto =>
        have heven : ¬ proto.data.length % 2 ≠ 0 := not_not.mpr (of_decide_eq_true haccepted)
        rw [perform, syncSyn, OnlineCtrl.syn, if_neg heven, hcommend]
        rfl
      | fin proto =>
        rw [perform, syncFin, OnlineCtrl.fin, hcommend]
        rfl
      | finDelay proto =>
        rw [perform, syncFinDelay, OnlineCtrl.finDelay, hcommend]
        rfl
      | upidx proto =>
        rw [perform, syncUpidx, OnlineCtrl.upidx, hcommend]
        rfl
    obtain ⟨hdir, hrh, hhash⟩ := looked_same s.1 r.type
    rw [hperform]
    exact ⟨⟨hdir, hrh, hhash⟩, hkeys⟩

end Request

/-! ## Runs -/

inductive OnlineEvent where
  /-- `now` is the time of the logic layer. -/
  | message (now : Int) (sublayerIndex pro : Str)
  /-- Time passes for every redis, in milliseconds. -/
  | elapse (d : Nat)

/-- Time passes on every redis. -/
def elapseAll (w : World) (d : Nat) : World :=
  { w with servers := fun addr => { w.servers addr with keys := (w.servers addr).keys.elapse d } }

def onlineStep (net : RedisNetwork World) (rounds : Nat) (parse : ParseFromString) (s : OnlineCtrl × World) :
    OnlineEvent → OnlineCtrl × World
  | .message now sublayerIndex pro =>
    ((onlineCore net rounds parse).fromSublayer now sublayerIndex pro s).2
  | .elapse d => (s.1, elapseAll s.2 d)

def onlineRun (net : RedisNetwork World) (rounds : Nat) (parse : ParseFromString) (s : OnlineCtrl × World)
    (es : List OnlineEvent) : OnlineCtrl × World :=
  es.foldl (onlineStep net rounds parse) s

/-- What an event is for one redis. -/
def eventAt (oc : OnlineCtrl) (parse : ParseFromString) (addr : UInt64) : OnlineEvent → Option SessionEvent
  | .message now sublayerIndex pro =>
    match messageRequest parse now sublayerIndex pro with
    | some (uid, r) => if Reaches oc uid r addr then some (.request uid r) else none
    | none => none
  | .elapse d => some (.elapse d)

section Runs
variable {dir : ScriptDir} {plan : Nat → CmdRound} (prompt : Prompt plan) (rounds : Nat)
  (parse : ParseFromString)

include prompt in
theorem onlineStep_keys (s : OnlineCtrl × World) (hdir : s.1.dir = dir) (e : OnlineEvent) :
    SameTable s.1 (onlineStep (network dir plan) (rounds + 3) parse s e).1 ∧
      ∀ addr, ((onlineStep (network dir plan) (rounds + 3) parse s e).2.servers addr).keys =
        ((eventAt s.1 parse addr e).toList).foldl sessionStep (s.2.servers addr).keys := by
  cases e with
  | elapse d => exact ⟨.refl _, fun addr => rfl⟩
  | message now sublayerIndex pro =>
    rw [onlineStep, fromSublayer_perform]
    cases hfound : messageRequest parse now sublayerIndex pro with
    | none =>
      simp only [eventAt, hfound]
      exact ⟨.refl _, fun addr => rfl⟩
    | some found =>
      simp only [eventAt, hfound]
      obtain ⟨htable, hkeys⟩ := perform_keys prompt rounds s hdir found.1 found.2
      refine ⟨htable, fun addr => (hkeys addr).trans ?_⟩
      split <;> rfl

include prompt in
/-- After a run every redis has what its own events have made of what it had. -/
theorem onlineRun_keys (s : OnlineCtrl × World) (hdir : s.1.dir = dir) (es : List OnlineEvent) :
    SameTable s.1 (onlineRun (network dir plan) (rounds + 3) parse s es).1 ∧
      ∀ addr, ((onlineRun (network dir plan) (rounds + 3) parse s es).2.servers addr).keys =
        (es.filterMap (eventAt s.1 parse addr)).foldl sessionStep (s.2.servers addr).keys := by
  induction es generalizing s with
  | nil => exact ⟨.refl _, fun addr => rfl⟩
  | cons e es ih =>
    obtain ⟨htable, hkeys⟩ := onlineStep_keys prompt rounds parse s hdir e
    obtain ⟨htable', hkeys'⟩ := ih _ (htable.dir.trans hdir)
    refine ⟨htable.trans htable', fun addr => ?_⟩
    have hevent : eventAt (onlineStep (network dir plan) (rounds + 3) parse s e).1 parse addr =
        eventAt s.1 parse addr := by
      funext e'
      cases e' with
      | elapse d => rfl
      | message now sublayerIndex pro => simp only [eventAt, htable.reaches]
    rw [onlineRun, List.foldl_cons]
    refine (hkeys' addr).trans ?_
    rw [hkeys, hevent, ← List.foldl_append, List.filterMap_cons]
    cases eventAt s.1 parse addr e <;> rfl

end Runs

end RedisCluster.Guarantees
