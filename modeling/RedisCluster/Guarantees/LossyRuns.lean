import RedisCluster.Guarantees.ServiceRuns

/-!
# The service on a network that loses things

A command may not be sent or not be run, its answer may be lost or late, and a redis may forget its
scripts. Every request is run on its redis once or not at all, in order, and what is answered was
run.

The hooks make the synchronous calls here too: a code of 0 means an answer only where the call waits
for one. Nobody but the service writes to the redis.
-/

set_option autoImplicit false

namespace RedisCluster.Guarantees
open Library Source

/-- Nobody else writes to the redis. -/
def Undisturbed (plan : Nat → CmdRound) : Prop :=
  ∀ n addr r, (((plan n).fate addr).before r).keys = r.keys

/-! ## One round -/

section Collect
variable {replies : List (UInt64 × Option RedisReply)} {rv : RedisRvs} {a : UInt64}

/-- Errors are not among the answers. -/
theorem collect_rv_same (nodup : (replies.map Prod.fst).Nodup)
    (errors : ∀ r, (a, some r) ∈ replies → r.type = .error) : (collect replies rv).1[a]? = rv[a]? := by
  change (collectFrom replies (rv, ∅)).1[a]? = rv[a]?
  by_cases h : a ∈ replies.map Prod.fst
  · obtain ⟨reply, hmem, _⟩ := reply_at nodup h
    rw [(collectFrom_of_mem nodup hmem).1, redisrpRedisrvs_self.1]
    cases reply with
    | none => rfl
    | some r =>
      dsimp only
      rw [if_pos (errors r hmem)]
  · exact (collectFrom_of_not_mem h).1

/-- Answers are not among the errors. -/
theorem collect_err_none (nodup : (replies.map Prod.fst).Nodup)
    (answers : ∀ r, (a, some r) ∈ replies → r.type ≠ .error) : (collect replies rv).2[a]? = none := by
  rw [Option.eq_none_iff_forall_ne_some]
  intro v hv
  obtain ⟨r, hr, herror, _⟩ := (collect_err nodup).mp hv
  exact answers r hr herror

end Collect

section Round
variable {dir : ScriptDir} {plan : Nat → CmdRound} {w : World} {file : LuaFile}
  {keys argv : UInt64 → List Str} {addrCmd : Commands} {addr : UInt64} {rv : RedisRvs}

/-- What the script of a command makes of a keyspace. -/
def ranKeys (file : LuaFile) (keys argv : UInt64 → List Str) (addr : UInt64) (s : Keyspace) : Keyspace :=
  (runScript (file.script (keys addr) (argv addr)) s).2

/-- A redis refuses a script that it does not know, or runs it. -/
theorem Evals.exec_cases (evals : Evals dir file keys argv addrCmd) {iseval : Bool} {args : List Str}
    (hargs : (sentCmds (dir.data file) iseval addrCmd)[addr]? = some args) (r : Redis) :
    (iseval = false ∧ r.exec dir args = (.error noScript, r)) ∨
      r.exec dir args = ((runScript (file.script (keys addr) (argv addr)) r.keys).1,
        r.ran dir file (keys addr) (argv addr)) := by
  obtain ⟨args', hargs', _, rfl⟩ := sentCmds_get.mp hargs
  rw [evals addr args' hargs']
  cases iseval with
  | true =>
    rw [if_pos rfl, evalArgs_evalsha]
    exact Or.inr exec_eval
  | false =>
    rw [if_neg Bool.false_ne_true]
    cases hcached : r.cached (dir.sha1 file) with
    | true => exact Or.inr (exec_evalsha hcached)
    | false => exact Or.inl ⟨rfl, exec_evalsha_unknown hcached⟩

theorem servers_sent {cmds : Commands} {args : List Str} (sent : cmds[addr]? = some args) :
    (afterRound dir plan w cmds).servers addr =
      (((plan w.rounds).fate addr).outcome dir (w.servers addr) args).2 := by
  simp [afterRound, network, sent]

theorem servers_unsent {cmds : Commands} (unsent : cmds[addr]? = none) :
    (afterRound dir plan w cmds).servers addr = w.servers addr := by
  simp [afterRound, network, unsent]

/-- After a round the script has not run, and only an `EVALSHA` may have to be sent again, or it has
run. -/
theorem round_once (undisturbed : Undisturbed plan) (evals : Evals dir file keys argv addrCmd)
    (iseval : Bool) (fine : Asks addrCmd addr → (answerOf file keys argv w addr).type ≠ .error) :
    (((afterRound dir plan w (sentCmds (dir.data file) iseval addrCmd)).servers addr).keys =
        (w.servers addr).keys ∧
      (collect (replies dir plan w (sentCmds (dir.data file) iseval addrCmd)) rv).1[addr]? = rv[addr]? ∧
      (iseval = true →
        (collect (replies dir plan w (sentCmds (dir.data file) iseval addrCmd)) rv).2[addr]? = none)) ∨
    (Asks addrCmd addr ∧
      ((afterRound dir plan w (sentCmds (dir.data file) iseval addrCmd)).servers addr).keys =
        ranKeys file keys argv addr (w.servers addr).keys ∧
      (collect (replies dir plan w (sentCmds (dir.data file) iseval addrCmd)) rv).2[addr]? = none) := by
  have hkeys := undisturbed w.rounds addr (w.servers addr)
  cases hargs : (sentCmds (dir.data file) iseval addrCmd)[addr]? with
  | none =>
    have hnone : ∀ reply, (addr, reply) ∉ replies dir plan w (sentCmds (dir.data file) iseval addrCmd) := by
      intro reply hmem
      obtain ⟨_, args, hsome, _⟩ := mem_replies.mp hmem
      rw [hargs] at hsome
      cases hsome
    refine Or.inl ⟨congrArg Redis.keys (servers_unsent hargs), ?_, fun _ => ?_⟩
    · exact collect_rv_same nodup_replies fun r hr => absurd hr (hnone _)
    · exact collect_err_none nodup_replies fun r hr => absurd hr (hnone _)
  | some args =>
    have hasks : Asks addrCmd addr := sentCmds_asks hargs
    have hreply : ∀ r, (addr, some r) ∈ replies dir plan w (sentCmds (dir.data file) iseval addrCmd) →
        ((plan w.rounds).fate addr).sent = true ∧ ((plan w.rounds).fate addr).runs = true ∧
          ((((plan w.rounds).fate addr).before (w.servers addr)).exec dir args).1 = r := by
      intro r hr
      obtain ⟨_, args', hsome, houtcome⟩ := mem_replies.mp hr
      rw [hargs] at hsome
      cases hsome
      obtain ⟨hsent, hruns, _, hexec⟩ := outcome_some.mp houtcome
      exact ⟨hsent, hruns, hexec⟩
    have hservers := @servers_sent dir plan w addr _ args hargs
    unfold Fate.outcome at hservers
    by_cases hsent : ((plan w.rounds).fate addr).sent = true
    · by_cases hruns : ((plan w.rounds).fate addr).runs = true
      · rw [if_pos hsent, if_pos hruns] at hservers
        rcases evals.exec_cases hargs (((plan w.rounds).fate addr).before (w.servers addr)) with
          ⟨hplain, hexec⟩ | hexec
        · rw [hexec] at hservers hreply
          refine Or.inl ⟨(congrArg Redis.keys hservers).trans hkeys, ?_, fun h => ?_⟩
          · apply collect_rv_same nodup_replies
            rintro r hr
            obtain ⟨_, _, rfl⟩ := hreply r hr
            rfl
          · rw [hplain] at h
            cases h
        · rw [hexec] at hservers hreply
          refine Or.inr ⟨hasks, ?_, ?_⟩
          · refine (congrArg Redis.keys hservers).trans ?_
            change (runScript _ (((plan w.rounds).fate addr).before (w.servers addr)).keys).2 = _
            rw [hkeys]
            rfl
          · apply collect_err_none nodup_replies
            intro r hr
            obtain ⟨_, _, rfl⟩ := hreply r hr
            rw [hkeys]
            exact fine hasks
      · rw [if_pos hsent, if_neg hruns] at hservers
        refine Or.inl ⟨(congrArg Redis.keys hservers).trans hkeys, ?_, fun _ => ?_⟩
        · exact collect_rv_same nodup_replies fun r hr => absurd (hreply r hr).2.1 hruns
        · exact collect_err_none nodup_replies fun r hr => absurd (hreply r hr).2.1 hruns
    · rw [if_neg hsent] at hservers
      refine Or.inl ⟨congrArg Redis.keys hservers, ?_, fun _ => ?_⟩
      · exact collect_rv_same nodup_replies fun r hr => absurd (hreply r hr).1 hsent
      · exact collect_err_none nodup_replies fun r hr => absurd (hreply r hr).1 hsent

end Round

/-! ## The whole call -/

/-- On every redis the script has not run, and has no answer, or it has run once. -/
def OnceAtMost (file : LuaFile) (keys argv : UInt64 → List Str) (addrCmd : Commands) (w w' : World)
    (rv rv' : RedisRvs) : Prop :=
  ∀ addr, ((w'.servers addr).keys = (w.servers addr).keys ∧ rv'[addr]? = rv[addr]?) ∨
    (Asks addrCmd addr ∧ (w'.servers addr).keys = ranKeys file keys argv addr (w.servers addr).keys)

section Call
variable {dir : ScriptDir} {plan : Nat → CmdRound} {w : World} {file : LuaFile}
  {keys argv : UInt64 → List Str} {addrCmd : Commands} {rv : RedisRvs}

/-- A call that sends the text has one round. -/
theorem cmd_text_once (undisturbed : Undisturbed plan) (evals : Evals dir file keys argv addrCmd)
    (fine : ∀ addr, Asks addrCmd addr → (answerOf file keys argv w addr).type ≠ .error) (rounds : Nat) :
    ∃ rv' w', cmd (network dir plan) (dir.data file) (rounds + 1) true addrCmd rv w = some (rv', w') ∧
      OnceAtMost file keys argv addrCmd w w' rv rv' := by
  cases hempty : addrCmd.isEmpty with
  | true => exact ⟨rv, w, cmd_empty hempty, fun addr => Or.inl ⟨rfl, rfl⟩⟩
  | false =>
    refine ⟨_, _, cmd_done hempty (Or.inr ?_), fun addr => ?_⟩
    · rw [Std.ExtTreeMap.isEmpty_iff]
      apply Std.ExtTreeMap.ext_getElem?
      intro addr
      rw [Std.ExtTreeMap.getElem?_empty]
      rcases @round_once dir plan w file keys argv addrCmd addr rv undisturbed evals true (fine addr) with
        ⟨_, _, herr⟩ | ⟨_, _, herr⟩
      · exact herr rfl
      · exact herr
    · rcases @round_once dir plan w file keys argv addrCmd addr rv undisturbed evals true (fine addr) with
        ⟨hkeys, hrv, _⟩ | ⟨hasks, hkeys, _⟩
      · exact Or.inl ⟨hkeys, hrv⟩
      · exact Or.inr ⟨hasks, hkeys⟩

/-- Where the script is sent again it has not run. -/
theorem cmd_once (undisturbed : Undisturbed plan) (evals : Evals dir file keys argv addrCmd)
    (fine : ∀ addr, Asks addrCmd addr → (answerOf file keys argv w addr).type ≠ .error) (rounds : Nat) :
    ∃ rv' w', cmd (network dir plan) (dir.data file) (rounds + 2) false addrCmd rv w = some (rv', w') ∧
      OnceAtMost file keys argv addrCmd w w' rv rv' := by
  cases hempty : addrCmd.isEmpty with
  | true => exact ⟨rv, w, cmd_empty hempty, fun addr => Or.inl ⟨rfl, rfl⟩⟩
  | false =>
    have first := fun addr =>
      @round_once dir plan w file keys argv addrCmd addr rv undisturbed evals false (fine addr)
    cases herr : (collect (replies dir plan w (sentCmds (dir.data file) false addrCmd)) rv).2.isEmpty with
    | true =>
      refine ⟨_, _, cmd_done hempty (Or.inr herr), fun addr => ?_⟩
      rcases first addr with ⟨hkeys, hrv, _⟩ | ⟨hasks, hkeys, _⟩
      · exact Or.inl ⟨hkeys, hrv⟩
      · exact Or.inr ⟨hasks, hkeys⟩
    | false =>
      have left : ∀ (addr : UInt64) (args : List Str), (errAddrs addrCmd (collect
          (replies dir plan w (sentCmds (dir.data file) false addrCmd)) rv).2)[addr]? = some args →
          addrCmd[addr]? = some args ∧
            ((afterRound dir plan w (sentCmds (dir.data file) false addrCmd)).servers addr).keys =
              (w.servers addr).keys ∧
            (collect (replies dir plan w (sentCmds (dir.data file) false addrCmd)) rv).1[addr]? =
              rv[addr]? := by
        intro addr args hargs
        obtain ⟨hcmd, v, hv, _⟩ := errAddrs_get.mp hargs
        rcases first addr with ⟨hkeys, hrv, _⟩ | ⟨_, _, hnone⟩
        · exact ⟨hcmd, hkeys, hrv⟩
        · rw [hnone] at hv
          cases hv
      have hagain := @cmd_again _ (network dir plan) _ (rounds + 1) _ _ rv w hempty (dir.nonempty file) herr
      have evals' : Evals dir file keys argv (errAddrs addrCmd
          (collect (replies dir plan w (sentCmds (dir.data file) false addrCmd)) rv).2) :=
        fun addr args hargs => evals addr args (left addr args hargs).1
      have fine' : ∀ addr, Asks (errAddrs addrCmd
          (collect (replies dir plan w (sentCmds (dir.data file) false addrCmd)) rv).2) addr →
          (answerOf file keys argv (afterRound dir plan w (sentCmds (dir.data file) false addrCmd))
            addr).type ≠ .error := by
        rintro addr ⟨args, hargs, hlen⟩
        obtain ⟨hcmd, hkeys, _⟩ := left addr args hargs
        unfold answerOf
        rw [hkeys]
        exact fine addr ⟨args, hcmd, hlen⟩
      obtain ⟨rv', w', hcmd, once⟩ := @cmd_text_once dir plan _ file keys argv _
        (collect (replies dir plan w (sentCmds (dir.data file) false addrCmd)) rv).1 undisturbed evals'
        fine' rounds
      refine ⟨rv', w', hagain.trans hcmd, fun addr => ?_⟩
      rcases once addr with ⟨hkeys, hrv⟩ | ⟨⟨args, hargs, hlen⟩, hkeys⟩
      · rcases first addr with ⟨hkeys', hrv', _⟩ | ⟨hasks, hkeys', _⟩
        · exact Or.inl ⟨hkeys.trans hkeys', hrv.trans hrv'⟩
        · exact Or.inr ⟨hasks, hkeys.trans hkeys'⟩
      · obtain ⟨hcmd', hsame, _⟩ := left addr args hargs
        rw [hsame] at hkeys
        exact Or.inr ⟨⟨args, hcmd', hlen⟩, hkeys⟩

end Call

/-! ## Requests and turns -/

section Requests
variable {plan : Nat → CmdRound} (undisturbed : Undisturbed plan)

include undisturbed in
/-- Loading a script leaves the data alone. -/
theorem afterLookup_undisturbed (oc : OnlineCtrl) (type : ReqType) (w : World) (addr : UInt64) :
    ((afterLookup plan oc type w).servers addr).keys = (w.servers addr).keys := by
  unfold afterLookup
  dsimp only
  split
  · generalize hcmds : sentCmds [] false _ = cmds
    cases hargs : cmds[addr]? with
    | none => exact congrArg Redis.keys (servers_unsent hargs)
    | some args =>
      rw [servers_sent hargs]
      have hkeys := undisturbed w.rounds addr (w.servers addr)
      rw [← hcmds] at hargs
      obtain ⟨args', hargs', _, rfl⟩ := sentCmds_get.mp hargs
      rw [loadCmds_get] at hargs'
      split at hargs'
      · cases hargs'
        unfold Fate.outcome
        split
        · split
          · rw [loadArgs, exec_load]
            exact hkeys
          · exact hkeys
        · rfl
      · simp at hargs'
  · rfl

/-- The request has not changed anything, or it has run on its redis. -/
def RunOnce (oc : OnlineCtrl) (uid : Int) (r : Request) (w w' : World) : Prop :=
  ∀ addr, (w'.servers addr).keys = (w.servers addr).keys ∨
    (Reaches oc uid r addr ∧
      (w'.servers addr).keys = sessionStep (w.servers addr).keys (.request uid r))

/-- The request has run on the redis of its user. -/
def RunThere (oc : OnlineCtrl) (uid : Int) (r : Request) (w w' : World) : Prop :=
  Reaches oc uid r (masterOf oc uid) ∧
    (w'.servers (masterOf oc uid)).keys =
      sessionStep (w.servers (masterOf oc uid)).keys (.request uid r)

theorem single_mem {rv : RedisRvs} (h : single rv ≠ none) : ∃ addr : UInt64, rv[addr]? ≠ none := by
  unfold single at h
  split at h
  · next addr v hlist =>
    refine ⟨addr, ?_⟩
    have hmem : (addr, v) ∈ rv.toList := by simp [hlist]
    rw [Std.ExtTreeMap.mem_toList_iff_getElem?_eq_some.mp hmem]
    simp
  · exact absurd rfl h

include undisturbed in
/-- One synchronous call: its script has run at most once, and it has where the call brings an
answer. -/
theorem commend_once {uid : Int} {r : Request} (oc : OnlineCtrl) (accepted : r.accepted = true)
    (w : World) (rounds : Nat) :
    ∃ rv w', commend (network oc.dir plan) (rounds + 3) oc uid r w = some (rv, looked oc r.type, w') ∧
      RunOnce oc uid r w w' ∧ (single rv ≠ none → RunThere oc uid r w w') := by
  have hlookup := afterLookup_undisturbed undisturbed oc r.type w
  by_cases routed : masterOf oc uid = 0
  · refine ⟨∅, afterLookup plan oc r.type w, by rw [commend_eq, if_pos routed],
      fun addr => Or.inl (hlookup addr), fun hsingle => ?_⟩
    obtain ⟨addr, haddr⟩ := single_mem hsingle
    simp at haddr
  · have evals : Evals oc.dir (.request r.type) (fun _ => requestKeys uid r) (fun _ => r.data)
        (requestCmd oc uid r) := fun addr args hargs => (insert_get.mp hargs).2
    obtain ⟨rv, w', hcmd, once⟩ := @cmd_once oc.dir plan (afterLookup plan oc r.type w) _ _ _ _ ∅
      undisturbed evals (fun _ _ => (request_writes uid accepted _).1) (rounds + 1)
    have hran : ∀ addr, ranKeys (.request r.type) (fun _ => requestKeys uid r) (fun _ => r.data) addr
        ((afterLookup plan oc r.type w).servers addr).keys =
          sessionStep (w.servers addr).keys (.request uid r) := by
      intro addr
      rw [hlookup, sessionStep, if_pos accepted]
      rfl
    have hreaches : ∀ addr, Asks (requestCmd oc uid r) addr → Reaches oc uid r addr := by
      intro addr hasks
      obtain ⟨rfl, hlen⟩ := asks_insert.mp hasks
      exact ⟨rfl, routed, hlen⟩
    refine ⟨rv, w', ?_, fun addr => ?_, fun hsingle => ?_⟩
    · rw [commend_eq, if_neg routed]
      unfold requestCmd at hcmd
      rw [hcmd]
      rfl
    · rcases once addr with ⟨hkeys, _⟩ | ⟨hasks, hkeys⟩
      · exact Or.inl (hkeys.trans (hlookup addr))
      · exact Or.inr ⟨hreaches addr hasks, hkeys.trans (hran addr)⟩
    · obtain ⟨addr, haddr⟩ := single_mem hsingle
      rcases once addr with ⟨_, hrv⟩ | ⟨hasks, hkeys⟩
      · rw [hrv] at haddr
        simp at haddr
      · have hreach := hreaches addr hasks
        have haddr := hreach.1
        subst haddr
        exact ⟨hreach, hkeys.trans (hran _)⟩

/-- What the hook of a request returns. -/
def requestCode {σ : Type} (net : RedisNetwork σ) (rounds : Nat) (s : OnlineCtrl × σ) (uid : Int) :
    Request → Int
  | .syn proto => (syncSyn net rounds 100 uid proto s).1.1
  | .fin proto => (syncFin net rounds 100 uid proto s).1.1
  | .finDelay proto => (syncFinDelay net rounds 100 uid proto s).1
  | .upidx proto => (syncUpidx net rounds 100 uid proto s).1.1

/-- A call without an answer returns 2. -/
theorem code_of_nothing {rv : RedisRvs} (h : single rv = none) :
    (rvCheckSyn rv).1 = 2 ∧ (rvCheckFin rv).1 = 2 ∧ rvCheckFinDelay rv = 2 ∧ (rvCheckUpidx rv).1 = 2 := by
  unfold rvCheckSyn rvCheckFin rvCheckFinDelay rvCheckUpidx
  rw [h]
  exact ⟨rfl, rfl, rfl, rfl⟩

include undisturbed in
/-- A request is run once at most, and it was run if its call returns 0. -/
theorem perform_once (rounds : Nat) (s : OnlineCtrl × World) (uid : Int) (r : Request) :
    SameTable s.1 (perform (network s.1.dir plan) (rounds + 3) s uid r).1 ∧
      RunOnce s.1 uid r s.2 (perform (network s.1.dir plan) (rounds + 3) s uid r).2 ∧
      (requestCode (network s.1.dir plan) (rounds + 3) s uid r = 0 →
        RunThere s.1 uid r s.2 (perform (network s.1.dir plan) (rounds + 3) s uid r).2) := by
  cases haccepted : r.accepted with
  | false =>
    cases r with
    | syn proto =>
      have hodd : proto.data.length % 2 ≠ 0 := of_decide_eq_false haccepted
      have hhook : syncSyn (network s.1.dir plan) (rounds + 3) 100 uid proto s = ((1, ⟨0, 0⟩), s) := by
        rw [syncSyn, OnlineCtrl.syn, if_pos hodd]
        rfl
      rw [perform, requestCode, hhook]
      exact ⟨.refl _, fun addr => Or.inl rfl, fun (h : (1 : Int) = 0) => absurd h (by decide)⟩
    | fin proto => cases haccepted
    | finDelay proto => cases haccepted
    | upidx proto => cases haccepted
  | true =>
    obtain ⟨rv, w', hcommend, honce, hthere⟩ :=
      @commend_once plan undisturbed uid r s.1 haccepted s.2 rounds
    obtain ⟨hdir, hrh, hhash⟩ := looked_same s.1 r.type
    have hcode := @code_of_nothing rv
    have hrun : ∀ code : Int, (single rv = none → code = 2) → code = 0 → RunThere s.1 uid r s.2 w' := by
      intro code hnothing hzero
      apply hthere
      intro hnone
      rw [hnothing hnone] at hzero
      cases hzero
    cases r with
    | syn proto =>
      have heven : ¬ proto.data.length % 2 ≠ 0 := not_not.mpr (of_decide_eq_true haccepted)
      have hhook : syncSyn (network s.1.dir plan) (rounds + 3) 100 uid proto s =
          (((rvCheckSyn rv).1, (rvCheckSyn rv).2.getD ⟨0, 0⟩), (looked s.1 .syn, w')) := by
        rw [syncSyn, OnlineCtrl.syn, if_neg heven, hcommend]
        rfl
      rw [perform, requestCode, hhook]
      exact ⟨⟨hdir, hrh, hhash⟩, honce, hrun _ fun hnone => (hcode hnone).1⟩
    | fin proto =>
      have hhook : syncFin (network s.1.dir plan) (rounds + 3) 100 uid proto s =
          (((rvCheckFin rv).1, (rvCheckFin rv).2.getD []), (looked s.1 .fin, w')) := by
        rw [syncFin, OnlineCtrl.fin, hcommend]
        rfl
      rw [perform, requestCode, hhook]
      exact ⟨⟨hdir, hrh, hhash⟩, honce, hrun _ fun hnone => (hcode hnone).2.1⟩
    | finDelay proto =>
      have hhook : syncFinDelay (network s.1.dir plan) (rounds + 3) 100 uid proto s =
          (rvCheckFinDelay rv, (looked s.1 .finDelay, w')) := by
        rw [syncFinDelay, OnlineCtrl.finDelay, hcommend]
        rfl
      rw [perform, requestCode, hhook]
      exact ⟨⟨hdir, hrh, hhash⟩, honce, hrun _ fun hnone => (hcode hnone).2.2.1⟩
    | upidx proto =>
      have hhook : syncUpidx (network s.1.dir plan) (rounds + 3) 100 uid proto s =
          (((rvCheckUpidx rv).1, (rvCheckUpidx rv).2.getD ⟨0, 0⟩), (looked s.1 .upidx, w')) := by
        rw [syncUpidx, OnlineCtrl.upidx, hcommend]
        rfl
      rw [perform, requestCode, hhook]
      exact ⟨⟨hdir, hrh, hhash⟩, honce, hrun _ fun hnone => (hcode hnone).2.2.2⟩

include undisturbed in
/-- A turn sweeps every redis once at most. -/
theorem checkTimeoutTurn_once (rounds : Nat) (parse : ParseFromString)
    (s : OnlineCtrl × World) (names : ∀ addr, SessionNames (s.2.servers addr).keys) (now : Int) :
    ∃ calls w', (onlineCore (network s.1.dir plan) (rounds + 3) parse).checkTimeoutTurn now s =
        some (calls, s.1, w') ∧
      ∀ addr, (w'.servers addr).keys = (s.2.servers addr).keys ∨ (sweeps s.1 now addr = true ∧
        (w'.servers addr).keys = sessionStep (s.2.servers addr).keys (.timeoutRm now (-1))) := by
  have evals := (timeoutCommands_names s.1 now (-1)).evals
  obtain ⟨rv, w', hcmd, once⟩ := @cmd_once s.1.dir plan s.2 .timeoutRm _ _ _ ∅ undisturbed evals
    (fun addr _ => timeoutRm_fine (names addr) now _) (rounds + 1)
  refine ⟨_, w', turn_of_cmd parse hcmd, fun addr => ?_⟩
  rcases once addr with ⟨hkeys, _⟩ | ⟨hasks, hkeys⟩
  · exact Or.inl hkeys
  · exact Or.inr ⟨sweeps_iff.mpr hasks, hkeys⟩

end Requests

/-! ## Runs -/

/-- What some of the events, by their places, are for a redis. -/
def chosenOf {ε : Type} (happens : ε → Option SessionEvent) (chosen : Nat → Bool) (es : List ε) :
    List SessionEvent :=
  (es.zipIdx.filter fun entry => chosen entry.2).filterMap fun entry => happens entry.1

/-- The events of a redis, of those that were chosen. -/
def chosenEvents (oc : OnlineCtrl) (parse : ParseFromString) (addr : UInt64) (chosen : Nat → Bool)
    (es : List ServiceEvent) : List SessionEvent := chosenOf (serviceEventAt oc parse addr) chosen es

section Chosen
variable {ε : Type} {happens : ε → Option SessionEvent} {chosen chosen' : Nat → Bool} {es : List ε} {e : ε}

theorem chosenOf_snoc : chosenOf happens chosen (es ++ [e]) = chosenOf happens chosen es ++
    if chosen es.length then (happens e).toList else [] := by
  unfold chosenOf
  rw [List.zipIdx_append, List.filter_append, List.filterMap_append]
  congr 1
  rw [List.zipIdx_singleton, Nat.zero_add]
  cases h : chosen es.length with
  | true => cases hevent : happens e <;> simp [h, hevent]
  | false => simp [h]

/-- Later places do not matter. -/
theorem chosenOf_congr (same : ∀ i < es.length, chosen i = chosen' i) :
    chosenOf happens chosen es = chosenOf happens chosen' es := by
  unfold chosenOf
  congr 1
  apply List.filter_congr
  rintro ⟨e, i⟩ hentry
  exact same i (List.snd_lt_of_mem_zipIdx hentry)

end Chosen

/-- The events that the redis have run. -/
structure RanEvents (net : RedisNetwork World) (rounds : Nat) (parse : ParseFromString)
    (s : OnlineCtrl × World) (es : List ServiceEvent) (ran : UInt64 → Nat → Bool) : Prop where
  keys : ∀ addr, ((serviceRun net rounds parse s es).2.servers addr).keys =
    runSessions (chosenEvents s.1 parse addr (ran addr) es)
  /-- Time passes everywhere. -/
  time : ∀ i d, es[i]? = some (.elapse d) → ∀ addr, ran addr i = true
  /-- What a call returned 0 for has run. -/
  acknowledged : ∀ i now sublayerIndex pro uid r, es[i]? = some (.message now sublayerIndex pro) →
    messageRequest parse now sublayerIndex pro = some (uid, r) →
    requestCode net rounds (serviceRun net rounds parse s (es.take i)) uid r = 0 →
    serviceEventAt s.1 parse (masterOf s.1 uid) (.message now sublayerIndex pro) =
      some (.request uid r) ∧ ran (masterOf s.1 uid) i = true

section Runs
variable {plan : Nat → CmdRound} (undisturbed : Undisturbed plan)

theorem exists_ran {before after : UInt64 → Keyspace} {event : UInt64 → Option SessionEvent}
    (cases : ∀ addr, after addr = before addr ∨
      after addr = (event addr).toList.foldl sessionStep (before addr)) :
    ∃ ran : UInt64 → Bool,
      (∀ addr, after addr =
        (if ran addr then (event addr).toList else []).foldl sessionStep (before addr)) ∧
      ∀ addr, after addr = (event addr).toList.foldl sessionStep (before addr) → ran addr = true := by
  classical
  refine ⟨fun addr => decide (after addr = (event addr).toList.foldl sessionStep (before addr)),
    fun addr => ?_, fun addr h => decide_eq_true h⟩
  split
  · next h => exact of_decide_eq_true h
  · next h =>
    rcases cases addr with hsame | hran
    · exact hsame
    · exact absurd (decide_eq_true hran) h

/-- One event: who has run it, and that time passes everywhere and what is acknowledged has run. -/
structure RanEvent (net : RedisNetwork World) (rounds : Nat) (parse : ParseFromString)
    (s : OnlineCtrl × World) (e : ServiceEvent) (ran : UInt64 → Bool) : Prop where
  keys : ∀ addr, ((serviceStep net rounds parse s e).2.servers addr).keys =
    (if ran addr then (serviceEventAt s.1 parse addr e).toList else []).foldl sessionStep
      (s.2.servers addr).keys
  time : ∀ d, e = .elapse d → ∀ addr, ran addr = true
  acknowledged : ∀ now sublayerIndex pro uid r, e = .message now sublayerIndex pro →
    messageRequest parse now sublayerIndex pro = some (uid, r) → requestCode net rounds s uid r = 0 →
    serviceEventAt s.1 parse (masterOf s.1 uid) e = some (.request uid r) ∧
      ran (masterOf s.1 uid) = true

theorem serviceEventAt_message {oc : OnlineCtrl} {parse : ParseFromString} {now : Int}
    {sublayerIndex pro : Str} {uid : Int} {r : Request}
    (found : messageRequest parse now sublayerIndex pro = some (uid, r)) (addr : UInt64) :
    serviceEventAt oc parse addr (.message now sublayerIndex pro) =
      if Reaches oc uid r addr then some (.request uid r) else none := by
  simp only [serviceEventAt, eventAt, found]

include undisturbed in
/-- One event of the service, by its kind. -/
theorem serviceStep_once (rounds : Nat) (parse : ParseFromString) (s : OnlineCtrl × World)
    (names : ∀ addr, SessionNames (s.2.servers addr).keys) (e : ServiceEvent) :
    SameTable s.1 (serviceStep (network s.1.dir plan) (rounds + 3) parse s e).1 ∧
      ∃ ran, RanEvent (network s.1.dir plan) (rounds + 3) parse s e ran := by
  cases e with
  | elapse d =>
    exact ⟨.refl _, fun _ => true, fun addr => rfl, fun _ _ _ => rfl,
      fun _ _ _ _ _ h => by cases h⟩
  | sweep now =>
    obtain ⟨calls, w', hturn, hkeys⟩ := checkTimeoutTurn_once undisturbed rounds parse s names now
    have hstep : serviceStep (network s.1.dir plan) (rounds + 3) parse s (.sweep now) = (s.1, w') := by
      rw [serviceStep, hturn]
      rfl
    have hcases : ∀ addr, (w'.servers addr).keys = (s.2.servers addr).keys ∨ (w'.servers addr).keys =
        (serviceEventAt s.1 parse addr (.sweep now)).toList.foldl sessionStep
          (s.2.servers addr).keys := by
      intro addr
      refine (hkeys addr).imp_right fun hran => ?_
      rw [serviceEventAt_sweep, if_pos hran.1]
      exact hran.2
    obtain ⟨ran, hran, _⟩ := exists_ran hcases
    refine ⟨by rw [hstep]; exact .refl _, ran, fun addr => ?_, fun d h => (by cases h),
      fun _ _ _ _ _ h => by cases h⟩
    rw [hstep]
    exact hran addr
  | message now sublayerIndex pro =>
    have hperform := fromSublayer_perform (network s.1.dir plan) (rounds + 3) parse now sublayerIndex pro s
    cases hfound : messageRequest parse now sublayerIndex pro with
    | none =>
      rw [hfound] at hperform
      have hstep : serviceStep (network s.1.dir plan) (rounds + 3) parse s
          (.message now sublayerIndex pro) = s := hperform
      refine ⟨by rw [hstep]; exact .refl _, fun _ => false, fun addr => ?_, fun d h => (by cases h), ?_⟩
      · rw [hstep]
        rfl
      · intro now' sublayerIndex' pro' uid r heq hsome
        cases heq
        rw [hfound] at hsome
        cases hsome
    | some found =>
      obtain ⟨uid, r⟩ := found
      rw [hfound] at hperform
      obtain ⟨htable, honce, hthere⟩ := perform_once undisturbed rounds s uid r
      have hstep : serviceStep (network s.1.dir plan) (rounds + 3) parse s
          (.message now sublayerIndex pro) = perform (network s.1.dir plan) (rounds + 3) s uid r :=
        hperform
      have hevent := fun addr => @serviceEventAt_message s.1 parse now sublayerIndex pro uid r hfound addr
      have hcases : ∀ addr,
          ((perform (network s.1.dir plan) (rounds + 3) s uid r).2.servers addr).keys =
            (s.2.servers addr).keys ∨
          ((perform (network s.1.dir plan) (rounds + 3) s uid r).2.servers addr).keys =
            (serviceEventAt s.1 parse addr (.message now sublayerIndex pro)).toList.foldl sessionStep
              (s.2.servers addr).keys := by
        intro addr
        refine (honce addr).imp_right fun hran => ?_
        rw [hevent, if_pos hran.1]
        exact hran.2
      obtain ⟨ran, hran, hpref⟩ := exists_ran hcases
      refine ⟨by rw [hstep]; exact htable, ran, fun addr => ?_, fun d h => (by cases h), ?_⟩
      · rw [hstep]
        exact hran addr
      · intro now' sublayerIndex' pro' uid' r' heq hsome hcode
        cases heq
        rw [hfound] at hsome
        cases hsome
        obtain ⟨hreaches, hthere⟩ := hthere hcode
        refine ⟨(hevent _).trans (if_pos hreaches), hpref _ ?_⟩
        rw [hthere, hevent, if_pos hreaches]
        rfl

include undisturbed in
/-- By induction on the run. -/
theorem serviceRun_once (rounds : Nat) (parse : ParseFromString) (s : OnlineCtrl × World)
    (fresh : ∀ addr, (s.2.servers addr).keys = .empty) (es : List ServiceEvent) :
    SameTable s.1 (serviceRun (network s.1.dir plan) (rounds + 3) parse s es).1 ∧
      ∃ ran, RanEvents (network s.1.dir plan) (rounds + 3) parse s es ran := by
  induction es using List.reverseRecOn with
  | nil =>
    exact ⟨.refl _, fun _ _ => true, fun addr => fresh addr, fun _ _ _ _ => rfl,
      fun i _ _ _ _ _ h => by simp at h⟩
  | append_singleton es e ih =>
    obtain ⟨htable, ran, hran⟩ := ih
    have hrun : serviceRun (network s.1.dir plan) (rounds + 3) parse s (es ++ [e]) =
        serviceStep (network s.1.dir plan) (rounds + 3) parse
          (serviceRun (network s.1.dir plan) (rounds + 3) parse s es) e := List.foldl_concat ..
    generalize hnow : serviceRun (network s.1.dir plan) (rounds + 3) parse s es = s' at htable hrun
    have names : ∀ addr, SessionNames (s'.2.servers addr).keys := fun addr => by
      rw [← hnow, hran.keys]
      exact sessionNames_runSessions _
    have hstep := serviceStep_once undisturbed rounds parse s' names e
    rw [htable.dir] at hstep
    obtain ⟨htable', last, hlast⟩ := hstep
    refine ⟨by rw [hrun]; exact htable.trans htable',
      fun addr i => if i < es.length then ran addr i else last addr, fun addr => ?_, ?_, ?_⟩
    · have hbefore : chosenOf (serviceEventAt s.1 parse addr)
          (fun i => if i < es.length then ran addr i else last addr) es =
          chosenOf (serviceEventAt s.1 parse addr) (ran addr) es :=
        chosenOf_congr fun i hi => if_pos hi
      simp only [chosenEvents]
      rw [chosenOf_snoc, hbefore, if_neg (Nat.lt_irrefl _), hrun, hlast.keys, ← hnow, hran.keys, hnow,
        chosenEvents, runSessions, runSessions, List.foldl_append, serviceEventAt_same parse htable]
    · intro i d hget addr
      split
      · next hi =>
        rw [List.getElem?_append_left hi] at hget
        exact hran.time i d hget addr
      · next hi =>
        have hi' : es.length ≤ i := Nat.le_of_not_lt hi
        rw [List.getElem?_append_right hi', List.getElem?_singleton] at hget
        split at hget
        · exact hlast.time d (Option.some_inj.mp hget) addr
        · cases hget
    · intro i now sublayerIndex pro uid r hget hfound hcode
      split
      · next hi =>
        rw [List.getElem?_append_left hi] at hget
        rw [List.take_append_of_le_length (Nat.le_of_lt hi)] at hcode
        exact hran.acknowledged i now sublayerIndex pro uid r hget hfound hcode
      · next hi =>
        have hi' : es.length ≤ i := Nat.le_of_not_lt hi
        rw [List.getElem?_append_right hi', List.getElem?_singleton] at hget
        split at hget
        · next hzero =>
          have heq : i = es.length := by omega
          subst heq
          rw [List.take_left, hnow] at hcode
          have hacked := hlast.acknowledged now sublayerIndex pro uid r (Option.some_inj.mp hget) hfound
            hcode
          rw [htable.masterOf, Option.some_inj.mp hget, serviceEventAt_same parse htable] at hacked
          exact hacked
        · cases hget

end Runs

/-- Whatever the network loses, every redis has what some of its events have made of it, each of
them run once, whole and in order, and among them are all whose calls returned 0. So a session is
what these have made of it. The hooks make the synchronous calls; those of `g_lc` return 0 whatever
becomes of a request. Nobody else writes to the redis (`Undisturbed`), which hold nothing at the
start. -/
theorem requests_run_once {plan : Nat → CmdRound} (undisturbed : Undisturbed plan) (rounds : Nat)
    (parse : ParseFromString) (oc : OnlineCtrl) (w : World)
    (fresh : ∀ addr, (w.servers addr).keys = .empty) (es : List ServiceEvent) :
    ∃ ran, RanEvents (network oc.dir plan) (rounds + 3) parse (oc, w) es ran ∧
      ∀ uid lc, Stores ((serviceRun (network oc.dir plan) (rounds + 3) parse (oc, w) es).2.servers
        (masterOf oc uid)).keys uid lc (sessionAfter uid lc
          (chosenEvents oc parse (masterOf oc uid) (ran (masterOf oc uid)) es)) := by
  obtain ⟨_, ran, hran⟩ := serviceRun_once undisturbed rounds parse (oc, w) fresh es
  refine ⟨ran, hran, fun uid lc => ?_⟩
  rw [hran.keys]
  exact stores_after uid lc _

/-- Two requests whose answers are late, and a turn. -/
theorem requests_run_once_example :
    ∃ ran, RanEvents (network exampleCtrl.dir latePlan) 3 versionParse (exampleCtrl, freshWorld)
        [.message 5 ['g'] ['s'], .message 6 ['g'] [], .sweep 7] ran ∧
      ∀ uid lc, Stores ((serviceRun (network exampleCtrl.dir latePlan) 3 versionParse
          (exampleCtrl, freshWorld) [.message 5 ['g'] ['s'], .message 6 ['g'] [], .sweep 7]).2.servers
          (masterOf exampleCtrl uid)).keys uid lc (sessionAfter uid lc
        (chosenEvents exampleCtrl versionParse (masterOf exampleCtrl uid)
          (ran (masterOf exampleCtrl uid)) [.message 5 ['g'] ['s'], .message 6 ['g'] [], .sweep 7])) := by
  have undisturbed : Undisturbed latePlan := fun _ _ _ => rfl
  have h := requests_run_once undisturbed 0 versionParse exampleCtrl freshWorld (fun _ => rfl)
    [.message 5 ['g'] ['s'], .message 6 ['g'] [], .sweep 7]
  rw [Nat.zero_add] at h
  exact h

end RedisCluster.Guarantees
