import RedisCluster.Guarantees.PromptCalls

/-!
# Synchronous and asynchronous requests

Both send the same command. Where the redis does not know the script, the synchronous
call sends its text, and the asynchronous one only notes that it is to be loaded before
the next request.
-/

set_option autoImplicit false

namespace RedisCluster.Guarantees
open Library Source

/-! ## Requests write -/

/-- Every write changes the counts: it is counted, or users with few writes are dropped. -/
theorem written_rank_ne (s : Keyspace) (uid : Str) : (written s uid).zsets rankW ≠ s.zsets rankW := by
  intro h
  have hscore : ∀ m, (written s uid).zscore rankW m = s.zscore rankW m :=
    fun m => Keyspace.zscore_congr h
  have hincr : ∀ m, m ≠ uid → (s.zincrby rankW 1 uid).zscore rankW m = s.zscore rankW m := by
    intro m hm
    rw [Keyspace.zincrby, Keyspace.zscore_zadd, if_neg hm]
  unfold written at hscore
  dsimp only at hscore
  split at hscore
  · next hcard =>
    generalize s.zincrby rankW 1 uid = s' at hscore hcard hincr
    have hlen := Keyspace.length_ranked (s := s') (z := rankW)
    have hnodup := Keyspace.nodup_ranked (s := s') (z := rankW)
    -- Two members at least are dropped, and one of them is another user.
    obtain ⟨e, he, hne⟩ : ∃ e ∈ (s'.ranked rankW).take 2, e.1 ≠ uid := by
      match hlist : s'.ranked rankW with
      | [] => simp [hlist] at hlen; omega
      | [_] => simp [hlist] at hlen; omega
      | first :: second :: rest =>
        rw [hlist] at hnodup
        by_cases hfirst : first.1 = uid
        · refine ⟨second, by simp, ?_⟩
          rintro rfl
          simp [hfirst] at hnodup
        · exact ⟨first, by simp, hfirst⟩
    have hmem : e ∈ s'.ranked rankW := List.mem_of_mem_take he
    have hthere := Keyspace.mem_ranked.mp hmem
    have hgone := hscore e.1
    rw [Keyspace.zscore_zremrangebyrank, if_pos, ← hincr e.1 hne, hthere] at hgone
    · cases hgone
    · apply List.mem_map_of_mem
      exact List.take_subset_take_left _ (by omega) he
  · have hself := hscore uid
    rw [Keyspace.zincrby, Keyspace.zscore_zadd, if_pos rfl] at hself
    cases hold : s.zscore rankW uid with
    | none =>
      rw [hold] at hself
      cases hself
    | some n =>
      rw [hold, Option.some_inj, Option.getD_some] at hself
      omega

theorem written_rank_congr {s s' : Keyspace} (uid : Str) (h : s.zsets rankW = s'.zsets rankW) :
    (written s uid).zsets rankW = (written s' uid).zsets rankW := by
  have hincr : (s.zincrby rankW 1 uid).zsets rankW = (s'.zincrby rankW 1 uid).zsets rankW := by
    rw [Keyspace.zincrby, Keyspace.zincrby, Keyspace.zadd, Keyspace.zadd, Keyspace.zsets_setZset,
      Keyspace.zsets_setZset, Keyspace.zscore, Keyspace.zscore, h]
  unfold written
  dsimp only
  rw [Keyspace.zcard, Keyspace.zcard, hincr]
  split
  · unfold Keyspace.zremrangebyrank Keyspace.ranked
    dsimp only
    rw [Keyspace.zsets_setZset, Keyspace.zsets_setZset, hincr]
  · exact hincr

variable {uid : Int} {r : Request}

variable (uid) in
/-- The script of a request that is not refused writes, and does not answer an error. -/
theorem request_writes (accepted : r.accepted = true) (s : Keyspace) :
    (runScript ((LuaFile.request r.type).script (requestKeys uid r) r.data) s).1.type ≠ .error ∧
      ∃ s', s'.zsets rankW = s.zsets rankW ∧
        (runScript ((LuaFile.request r.type).script (requestKeys uid r) r.data) s).2.zsets rankW =
          (written s' (Text.decimal uid)).zsets rankW := by
  have hsynced : ∀ (lc sid gate ct cv : Str) (argv : List Str) (ep : Nat),
      ∃ s', s'.zsets rankW = s.zsets rankW ∧
        (synced s (Text.decimal uid) lc sid gate ct cv argv ep).zsets rankW =
          (written s' (Text.decimal uid)).zsets rankW := by
    intro lc sid gate ct cv argv ep
    refine ⟨_, ?_, rfl⟩
    rw [Keyspace.zrem, Keyspace.zsets_setZset_of_ne dlyCk_ne_rankW.symm, zsets_prolonged,
      Keyspace.zsets_expire, zsets_enrolled]
  cases r with
  | syn proto =>
    have hrun := runScript_ok (@syn_apply (Text.decimal uid) (Text.decimal proto.head.logicConn)
      (Text.decimal proto.head.idx.sendIdx) (Text.decimal proto.head.idx.recvIdx)
      proto.head.sublayerIndex (Text.decimal proto.expire) _ proto.cliVer _ _
      (toNumber_decimal proto.cliType) (of_decide_eq_true accepted) s)
    have hsame : runScript ((LuaFile.request (Request.syn proto).type).script
        (requestKeys uid (.syn proto)) (Request.syn proto).data) s = (_, _) := hrun
    rw [hsame]
    exact ⟨by simp [RedisReply.array, RedisReply.type], hsynced ..⟩
  | upidx proto =>
    have hrun := runScript_ok (@syn_apply (Text.decimal uid) (Text.decimal proto.head.logicConn)
      (Text.decimal proto.head.idx.sendIdx) (Text.decimal proto.head.idx.recvIdx)
      proto.head.sublayerIndex (Text.decimal proto.expire) _ proto.cliVer [] _
      (toNumber_decimal proto.cliType) rfl s)
    have hsame : runScript ((LuaFile.request (Request.upidx proto).type).script
        (requestKeys uid (.upidx proto)) (Request.upidx proto).data) s = (_, _) := hrun
    rw [hsame]
    exact ⟨by simp [RedisReply.array, RedisReply.type], hsynced ..⟩
  | fin proto =>
    have hrun := runScript_ok (fin_apply (Text.decimal uid) (Text.decimal proto.head.logicConn)
      (Text.decimal proto.head.idx.sendIdx) (Text.decimal proto.head.idx.recvIdx)
      proto.head.sublayerIndex s)
    have hsame : runScript ((LuaFile.request (Request.fin proto).type).script
        (requestKeys uid (.fin proto)) (Request.fin proto).data) s = (_, _) := hrun
    rw [hsame]
    constructor
    · cases s.hget (kuid (Text.decimal uid)) (Text.decimal proto.head.logicConn) <;>
        simp [RedisReply.ofOption, RedisReply.nil, RedisReply.bulk, RedisReply.type]
    · refine ⟨_, ?_, rfl⟩
      exact Keyspace.zsets_setZset_of_ne dlyCk_ne_rankW.symm
  | finDelay proto =>
    by_cases gate : GateIs s (Text.decimal uid) (Text.decimal proto.head.logicConn)
        proto.head.sublayerIndex
    · have hrun := runScript_ok (@finDelay_apply_match _ _ (Text.decimal proto.head.idx.sendIdx)
        (Text.decimal proto.head.idx.recvIdx) _ _ _ (toNumber_decimal proto.expire) _ gate)
      have hsame : runScript ((LuaFile.request (Request.finDelay proto).type).script
          (requestKeys uid (.finDelay proto)) (Request.finDelay proto).data) s = (_, _) := hrun
      rw [hsame]
      refine ⟨by simp [RedisReply.status, RedisReply.type], s, rfl, ?_⟩
      rw [delayed, Keyspace.zsets_hset, Keyspace.zadd]
      exact Keyspace.zsets_setZset_of_ne dlyCk_ne_rankW.symm
    · have hrun := runScript_ok (@finDelay_apply_other _ _ (Text.decimal proto.head.idx.sendIdx)
        (Text.decimal proto.head.idx.recvIdx) _ (Text.decimal proto.expire) _ gate)
      have hsame : runScript ((LuaFile.request (Request.finDelay proto).type).script
          (requestKeys uid (.finDelay proto)) (Request.finDelay proto).data) s = (_, _) := hrun
      rw [hsame]
      exact ⟨by simp [RedisReply.status, RedisReply.type], s, rfl, rfl⟩

/-- A request that runs does not leave the store as it was. -/
theorem request_changes (accepted : r.accepted = true) (s : Keyspace) :
    (runScript ((LuaFile.request r.type).script (requestKeys uid r) r.data) s).2 ≠ s := by
  obtain ⟨_, s', hsame, hwritten⟩ := request_writes uid accepted s
  intro h
  rw [h, written_rank_congr _ hsame] at hwritten
  exact written_rank_ne s _ hwritten.symm

/-! ## Both calls -/

section Calls
variable {oc : OnlineCtrl} {plan : Nat → CmdRound} {w : World} {addr : UInt64} {args : List Str}

theorem insert_get {a : UInt64} {x : List Str} :
    ((∅ : Commands).insert addr args)[a]? = some x ↔ a = addr ∧ x = args := by
  rw [Ordered.getElem?_insert]
  split
  · next h => simp [h, eq_comm]
  · next h => simp [h]

/-- The command of one redis, as a round has it. -/
theorem sentOne_get {luaCode : Str} {iseval : Bool} {a : UInt64} {x : List Str} :
    (sentCmds luaCode iseval ((∅ : Commands).insert addr args))[a]? = some x ↔
      a = addr ∧ args.length < argvMaxLen ∧
        x = if iseval then evalArgs luaCode args else args := by
  rw [sentCmds_get]
  constructor
  · rintro ⟨args', hargs', hlen, rfl⟩
    obtain ⟨rfl, rfl⟩ := insert_get.mp hargs'
    exact ⟨rfl, hlen, rfl⟩
  · rintro ⟨rfl, hlen, rfl⟩
    exact ⟨args, insert_get.mpr ⟨rfl, rfl⟩, hlen, rfl⟩

/-- A redis that gets one command runs it, unless it is too long to be sent. -/
theorem Prompt.server_one (prompt : Prompt plan) {dir : ScriptDir} {luaCode : Str} {iseval : Bool} :
    (afterRound dir plan w (sentCmds luaCode iseval ((∅ : Commands).insert addr args))).servers addr =
      if args.length < argvMaxLen then
        ((w.servers addr).exec dir (if iseval then evalArgs luaCode args else args)).2
      else w.servers addr := by
  rw [prompt.servers]
  split
  · next x hx =>
    obtain ⟨_, hlen, rfl⟩ := sentOne_get.mp hx
    rw [if_pos hlen]
  · next hnone =>
    rw [if_neg]
    intro hlen
    rw [sentOne_get.mpr ⟨rfl, hlen, rfl⟩] at hnone
    cases hnone

/-- One redis is asked. -/
theorem asks_insert {a : UInt64} :
    Asks ((∅ : Commands).insert addr args) a ↔ a = addr ∧ args.length < argvMaxLen := by
  constructor
  · rintro ⟨args', hargs', hlen⟩
    obtain ⟨rfl, rfl⟩ := insert_get.mp hargs'
    exact ⟨rfl, hlen⟩
  · rintro ⟨rfl, hlen⟩
    exact ⟨args, insert_get.mpr ⟨rfl, rfl⟩, hlen⟩

/-- The command of a request. -/
def requestCmd (oc : OnlineCtrl) (uid : Int) (r : Request) : Commands :=
  (∅ : Commands).insert (masterOf oc uid) (requestArgs oc.dir uid r)

/-- The synchronous call has the script run on the user's redis, whether that knows it or not. -/
theorem commend_ran (prompt : Prompt plan) (accepted : r.accepted = true)
    (routed : masterOf oc uid ≠ 0) (rounds : Nat) :
    ∃ rv w', commend (network oc.dir plan) (rounds + 3) oc uid r w =
        some (rv, looked oc r.type, w') ∧
      AllRan oc.dir (.request r.type) (fun _ => requestKeys uid r) (fun _ => r.data)
        (requestCmd oc uid r) (afterLookup plan oc r.type w) w' ∅ rv := by
  have evals : Evals oc.dir (.request r.type) (fun _ => requestKeys uid r) (fun _ => r.data)
      (requestCmd oc uid r) := by
    intro addr args hargs
    exact (insert_get.mp hargs).2
  obtain ⟨rv, w', hcmd, hran⟩ := @Prompt.cmd_evals _ plan (afterLookup plan oc r.type w) _ _ _ _ prompt
    evals (fun _ _ => (request_writes uid accepted _).1) (rounds + 1)
  refine ⟨rv, w', ?_, hran⟩
  rw [commend_eq, if_neg routed]
  unfold requestCmd at hcmd
  rw [hcmd]
  rfl

/-- After a synchronous call the master has run the script, whether it knew it or not. -/
theorem commend_server (prompt : Prompt plan) (accepted : r.accepted = true)
    (routed : masterOf oc uid ≠ 0) (rounds : Nat) :
    ∃ rv w', commend (network oc.dir plan) (rounds + 3) oc uid r w =
        some (rv, looked oc r.type, w') ∧
      w'.servers (masterOf oc uid) =
        if (requestArgs oc.dir uid r).length < argvMaxLen then
          ((afterLookup plan oc r.type w).servers (masterOf oc uid)).ran oc.dir (.request r.type)
            (requestKeys uid r) r.data
        else (afterLookup plan oc r.type w).servers (masterOf oc uid) := by
  obtain ⟨rv, w', hcommend, hran⟩ := @commend_ran uid r oc plan w prompt accepted routed rounds
  refine ⟨rv, w', hcommend, ?_⟩
  split
  · next hlen => exact hran.asked _ (asks_insert.mpr ⟨rfl, hlen⟩)
  · next hlen => exact hran.other _ fun asks => hlen (asks_insert.mp asks).2

/-- A round that does not send texts sends the commands as they are. -/
theorem sentCmds_whole (luaCode : Str) (cmds : Commands) : sentCmds luaCode false cmds = sendable cmds := by
  apply Std.ExtTreeMap.ext_getElem?
  intro a
  unfold sentCmds
  simp

/-- What the callback of an asynchronous request gets, and the redis after its command. -/
def sentAsync (plan : Nat → CmdRound) (oc : OnlineCtrl) (uid : Int) (r : Request) (w : World) :
    RedisRvs × World :=
  cmdAsyncRv (network oc.dir plan) (requestCmd oc uid r) (afterLookup plan oc r.type w)

/-- An asynchronous call loads the script where this is noted, and is sent once. -/
theorem singleUidCommendAsync_eq (oc : OnlineCtrl) (uid : Int) (r : Request) (rounds : Nat) (w : World) :
    singleUidCommendAsync (network oc.dir plan) (rounds + 1) oc uid r w =
      some (if masterOf oc uid = 0 then (none, looked oc r.type, afterLookup plan oc r.type w)
        else (some (sentAsync plan oc uid r w).1, looked oc r.type, (sentAsync plan oc uid r w).2)) := by
  obtain ⟨_, hrh, hhash⟩ := looked_same oc r.type
  unfold singleUidCommendAsync genRedisArgs
  rw [lookupSha1_eq]
  simp only [Option.bind_eq_bind, Option.bind_some, Option.pure_def, hrh, hhash]
  by_cases unrouted : masterOf oc uid = 0
  · rw [if_pos unrouted]
    exact if_pos unrouted
  · rw [if_neg unrouted]
    exact if_neg unrouted

/-- The callback comes at once. -/
theorem commendAsync_eq {net : RedisNetwork World} {rounds : Nat} :
    commendAsync net rounds oc uid r w = (singleUidCommendAsync net rounds oc uid r w).map
      fun sent => (sent.1.elim sent.2.1 (checkScriptLoad sent.2.1 r.type), sent.2.2) := by
  unfold commendAsync singleUidCommendAsync
  cases genRedisArgs net rounds oc uid r w with
  | none => rfl
  | some generated =>
    simp only [Option.bind_eq_bind, Option.bind_some, Option.pure_def]
    split <;> rfl

/-- The command is run only where the redis knows the script. -/
theorem sentAsync_servers (prompt : Prompt plan) (oc : OnlineCtrl) (uid : Int) (r : Request) (w : World)
    (addr : UInt64) : (sentAsync plan oc uid r w).2.servers addr =
      if addr = masterOf oc uid ∧ (requestArgs oc.dir uid r).length < argvMaxLen ∧
          ((afterLookup plan oc r.type w).servers addr).cached (oc.dir.sha1 (.request r.type)) = true then
        ((afterLookup plan oc r.type w).servers addr).ran oc.dir (.request r.type) (requestKeys uid r) r.data
      else (afterLookup plan oc r.type w).servers addr := by
  have evals : Evals oc.dir (.request r.type) (fun _ => requestKeys uid r) (fun _ => r.data)
      (requestCmd oc uid r) := fun addr args hargs => (insert_get.mp hargs).2
  change (afterRound oc.dir plan (afterLookup plan oc r.type w) (sendable (requestCmd oc uid r))).servers
    addr = _
  rw [← sentCmds_whole (oc.dir.data (.request r.type))]
  split
  · next h => exact prompt.round_ran evals false (asks_insert.mpr ⟨h.1, h.2.1⟩) (Or.inr h.2.2)
  · next h =>
    refine prompt.round_same evals false fun asks ready => h ?_
    obtain ⟨rfl, hlen⟩ := asks_insert.mp asks
    exact ⟨rfl, hlen, ready.resolve_left Bool.false_ne_true⟩

/-- The asynchronous call has it run only where the redis knows it. -/
theorem commendAsync_server (prompt : Prompt plan) (routed : masterOf oc uid ≠ 0) (rounds : Nat) :
    ∃ oc' w', commendAsync (network oc.dir plan) (rounds + 1) oc uid r w = some (oc', w') ∧
      w'.servers (masterOf oc uid) =
        if (requestArgs oc.dir uid r).length < argvMaxLen ∧
            ((afterLookup plan oc r.type w).servers (masterOf oc uid)).cached
              (oc.dir.sha1 (.request r.type)) = true then
          ((afterLookup plan oc r.type w).servers (masterOf oc uid)).ran oc.dir (.request r.type)
            (requestKeys uid r) r.data
        else (afterLookup plan oc r.type w).servers (masterOf oc uid) := by
  refine ⟨_, _, by rw [commendAsync_eq, singleUidCommendAsync_eq, if_neg routed]; rfl, ?_⟩
  exact (sentAsync_servers prompt oc uid r w _).trans (by simp only [true_and])

/-- Without a master nothing is sent. -/
theorem commendAsync_unrouted (unrouted : masterOf oc uid = 0) (rounds : Nat) :
    commendAsync (network oc.dir plan) (rounds + 1) oc uid r w =
      some (looked oc r.type, afterLookup plan oc r.type w) := by
  rw [commendAsync_eq, singleUidCommendAsync_eq, if_pos unrouted]
  rfl

/-- This redis knows the script of such requests, or is about to be sent it. -/
def KnownAt (oc : OnlineCtrl) (w : World) (addr : UInt64) (type : ReqType) : Prop :=
  (w.servers addr).cached (oc.dir.sha1 (.request type)) = true ∨
    ((oc.scripts type).needLoad = true ∧ addr ∈ (oc.scripts type).addrs)

instance (oc : OnlineCtrl) (w : World) (addr : UInt64) (type : ReqType) :
    Decidable (KnownAt oc w addr type) := inferInstanceAs (Decidable (_ ∨ _ ∧ _))

/-- The redis of the user knows the script, or is about to be sent it. -/
def Known (oc : OnlineCtrl) (w : World) (uid : Int) (r : Request) : Prop :=
  (w.servers (masterOf oc uid)).cached (oc.dir.sha1 (.request r.type)) = true ∨
    ((oc.scripts r.type).needLoad = true ∧ masterOf oc uid ∈ (oc.scripts r.type).addrs)

/-- Loading the script shows it to the redis, and changes nothing else. -/
theorem afterLookup_server (prompt : Prompt plan) (oc : OnlineCtrl) (type : ReqType) (w : World)
    (t : UInt64) : ((afterLookup plan oc type w).servers t).keys = (w.servers t).keys ∧
      (((afterLookup plan oc type w).servers t).cached (oc.dir.sha1 (.request type)) = true ↔
        KnownAt oc w t type) := by
  unfold KnownAt afterLookup
  dsimp only
  split
  · next h =>
    rw [prompt.servers]
    split
    · next args hargs =>
      obtain ⟨args', hargs', _, heq⟩ := sentCmds_get.mp hargs
      rw [loadCmds_get] at hargs'
      split at hargs'
      · next hmem =>
        cases hargs'
        rw [heq, if_neg Bool.false_ne_true, loadArgs, exec_load, Redis.learn]
        exact ⟨rfl, fun _ => Or.inr ⟨h.1, Std.ExtTreeSet.mem_toList.mp hmem⟩,
          fun _ => Function.update_self ..⟩
      · simp at hargs'
    · next hnone =>
      refine ⟨rfl, Or.inl, ?_⟩
      rintro (hcached | ⟨_, hmem⟩)
      · exact hcached
      · have hload := @sentCmds_get [] false
          (loadCmds oc.dir (.request type) (oc.scripts type).addrs.toList ∅) t
          (loadArgs oc.dir (.request type))
        rw [hnone] at hload
        have hsome := hload.mpr ⟨loadArgs oc.dir (.request type), ?_, ?_, rfl⟩
        · cases hsome
        · rw [loadCmds_get, if_pos (Std.ExtTreeSet.mem_toList.mpr hmem)]
        · show 3 < 2048
          decide
  · next h =>
    refine ⟨rfl, Or.inl, ?_⟩
    rintro (hcached | ⟨hneed, hmem⟩)
    · exact hcached
    · exfalso
      apply h
      refine ⟨hneed, ?_⟩
      rw [Std.ExtTreeMap.isEmpty_eq_false_iff]
      intro hempty
      have hget := @loadCmds_get oc.dir (.request type) (oc.scripts type).addrs.toList ∅ t
      rw [hempty, if_pos (Std.ExtTreeSet.mem_toList.mpr hmem), Std.ExtTreeMap.getElem?_empty] at hget
      cases hget

/-! ## The four requests -/

/-- `syn`, `fin`, `fin_delay` or `upidx`, with what the redis are after it. -/
def serve (net : RedisNetwork World) (rounds : Nat) (oc : OnlineCtrl) (uid : Int) (w : World) :
    Request → Option World
  | .syn proto => (oc.syn net rounds uid proto w).map Answer.net
  | .fin proto => (oc.fin net rounds uid proto w).map Answer.net
  | .finDelay proto => (oc.finDelay net rounds uid proto w).map Answer.net
  | .upidx proto => (oc.upidx net rounds uid proto w).map Answer.net

/-- `syn_async`, `fin_async`, `fin_delay_async` or `upidx_async`, after its callback. -/
def serveAsync (net : RedisNetwork World) (rounds : Nat) (oc : OnlineCtrl) (uid : Int) (w : World) :
    Request → Option World
  | .syn proto => (oc.synAsync net rounds uid proto w).map fun x => x.2.2
  | .fin proto => (oc.finAsync net rounds uid proto w).map fun x => x.2.2
  | .finDelay proto => (oc.finDelayAsync net rounds uid proto w).map fun x => x.2.2
  | .upidx proto => (oc.upidxAsync net rounds uid proto w).map fun x => x.2.2

section Serve
variable {net : RedisNetwork World} {rounds : Nat}

theorem serve_accepted (accepted : r.accepted = true) :
    serve net rounds oc uid w r = (commend net rounds oc uid r w).map fun x => x.2.2 := by
  have hmap : ∀ {α : Type} (f : RedisRvs × OnlineCtrl × World → Answer World α),
      (∀ x, (f x).net = x.2.2) → ((commend net rounds oc uid r w).bind fun x => some (f x)).map
        Answer.net = (commend net rounds oc uid r w).map fun x => x.2.2 := by
    intro α f hf
    cases commend net rounds oc uid r w with
    | none => rfl
    | some x => exact congrArg some (hf x)
  cases r with
  | syn proto =>
    have heven : ¬ proto.data.length % 2 ≠ 0 := not_not.mpr (of_decide_eq_true accepted)
    rw [serve, OnlineCtrl.syn, if_neg heven]
    exact hmap (fun x => ⟨(rvCheckSyn x.1).1, (rvCheckSyn x.1).2, x.2.1, x.2.2⟩) fun _ => rfl
  | fin proto => exact hmap (fun x => ⟨(rvCheckFin x.1).1, (rvCheckFin x.1).2, x.2.1, x.2.2⟩) fun _ => rfl
  | finDelay proto => exact hmap (fun x => ⟨rvCheckFinDelay x.1, none, x.2.1, x.2.2⟩) fun _ => rfl
  | upidx proto =>
    exact hmap (fun x => ⟨(rvCheckUpidx x.1).1, (rvCheckUpidx x.1).2, x.2.1, x.2.2⟩) fun _ => rfl

theorem serveAsync_accepted (accepted : r.accepted = true) :
    serveAsync net rounds oc uid w r = (commendAsync net rounds oc uid r w).map Prod.snd := by
  have hmap : ((commendAsync net rounds oc uid r w).bind fun x => some ((0 : Int), x)).map
      (fun x => x.2.2) = (commendAsync net rounds oc uid r w).map Prod.snd := by
    cases commendAsync net rounds oc uid r w <;> rfl
  cases r with
  | syn proto =>
    have heven : ¬ proto.data.length % 2 ≠ 0 := not_not.mpr (of_decide_eq_true accepted)
    rw [serveAsync, OnlineCtrl.synAsync, if_neg heven]
    exact hmap
  | fin proto => exact hmap
  | finDelay proto => exact hmap
  | upidx proto => exact hmap

/-- Fields without a value are refused by both. -/
theorem serve_refused (net : RedisNetwork World) (rounds : Nat) (oc : OnlineCtrl) (uid : Int) (w : World)
    (refused : r.accepted = false) :
    serve net rounds oc uid w r = some w ∧ serveAsync net rounds oc uid w r = some w := by
  cases r with
  | syn proto =>
    have hodd : proto.data.length % 2 ≠ 0 := of_decide_eq_false refused
    rw [serve, serveAsync, OnlineCtrl.syn, OnlineCtrl.synAsync, if_pos hodd, if_pos hodd]
    exact ⟨rfl, rfl⟩
  | fin proto => cases refused
  | finDelay proto => cases refused
  | upidx proto => cases refused

end Serve

/-- Both calls leave the user's redis with the same data exactly if it knows the script, or the
script is noted to be loaded there, or nothing is sent. The callback of the asynchronous call has
been run when the two are compared. Commands are answered in time. -/
theorem sync_async_same_iff (prompt : Prompt plan) (oc : OnlineCtrl) (w : World) (uid : Int)
    (r : Request) (rounds : Nat) :
    ∃ ws wa, serve (network oc.dir plan) (rounds + 3) oc uid w r = some ws ∧
      serveAsync (network oc.dir plan) (rounds + 3) oc uid w r = some wa ∧
      ((ws.servers (masterOf oc uid)).keys = (wa.servers (masterOf oc uid)).keys ↔
        Known oc w uid r ∨ r.accepted = false ∨
          argvMaxLen ≤ (requestArgs oc.dir uid r).length ∨ masterOf oc uid = 0) := by
  cases haccepted : r.accepted with
  | false =>
    obtain ⟨hsync, hasync⟩ :=
      serve_refused (network oc.dir plan) (rounds + 3) oc uid w haccepted
    exact ⟨w, w, hsync, hasync, by simp⟩
  | true =>
    rw [serve_accepted haccepted, serveAsync_accepted haccepted]
    by_cases routed : masterOf oc uid = 0
    · refine ⟨afterLookup plan oc r.type w, afterLookup plan oc r.type w, ?_, ?_,
        iff_of_true rfl (Or.inr (Or.inr (Or.inr routed)))⟩
      · rw [commend_eq, if_pos routed]
        rfl
      · rw [commendAsync_unrouted routed]
        rfl
    · obtain ⟨rv, ws, hsync, hws⟩ := commend_server (w := w) prompt haccepted routed rounds
      obtain ⟨oc', wa, hasync, hwa⟩ := commendAsync_server (w := w) (r := r) prompt routed (rounds + 2)
      have hknown : _ ↔ Known oc w uid r := (afterLookup_server prompt oc r.type w (masterOf oc uid)).2
      refine ⟨ws, wa, by rw [hsync]; rfl, by rw [hasync]; rfl, ?_⟩
      rw [hws, hwa, ← hknown]
      generalize (afterLookup plan oc r.type w).servers (masterOf oc uid) = server
      by_cases hlen : (requestArgs oc.dir uid r).length < argvMaxLen
      · by_cases hcached : server.cached (oc.dir.sha1 (.request r.type)) = true
        · rw [if_pos hlen, if_pos ⟨hlen, hcached⟩]
          exact iff_of_true rfl (Or.inl hcached)
        · rw [if_pos hlen, if_neg (fun h => hcached h.2)]
          refine iff_of_false (request_changes haccepted server.keys) ?_
          rintro (h | h | h | h)
          · exact hcached h
          · cases h
          · omega
          · exact routed h
      · rw [if_neg hlen, if_neg (fun h => hlen h.1)]
        exact iff_of_true rfl (Or.inr (Or.inr (Or.inl (Nat.not_lt.mp hlen))))

end Calls

/-! ## A redis that has seen no script -/

def exampleName : LuaFile → Str
  | .request .syn => "syn".toList
  | .request .fin => "fin".toList
  | .request .finDelay => "fin_delay".toList
  | .request .upidx => "syn".toList
  | .timeoutRm => "timeout_rm".toList
  | .getSessionInfo => "get_session_info".toList
  | .getMulti => "get_multi".toList

/-- `upidx.lua` has the text of `syn.lua`. -/
def sameText : LuaFile → LuaFile
  | .request .upidx => .request .syn
  | file => file

theorem script_sameText (file : LuaFile) : (sameText file).script = file.script := by
  cases file with
  | request type => cases type <;> rfl
  | timeoutRm | getSessionInfo | getMulti => rfl

theorem exampleName_eq : ∀ file ∈ LuaFile.all, ∀ other ∈ LuaFile.all,
    exampleName file = exampleName other → sameText file = sameText other := by decide

/-- Scripts under their names; `syn.lua` and `upidx.lua` have one text. -/
def exampleDir : ScriptDir where
  data := exampleName
  sha1 := exampleName
  nonempty file := by
    cases file with
    | request type => cases type <;> decide
    | timeoutRm | getSessionInfo | getMulti => decide
  sha1_eq _ _ h := h
  script_eq file other h := by
    refine ⟨h, ?_⟩
    rw [← script_sameText file, exampleName_eq file file.mem_all other other.mem_all h,
      script_sameText]

def exampleMaster : UInt64 := ipv4Int64 "10.0.0.7".toList 6379

def exampleCtrl : OnlineCtrl :=
  ⟨exampleDir, ⟨(∅ : ClusterAddrs).insert 1 [exampleMaster], [(1, [exampleMaster])]⟩, fun _ => 0,
    fun _ => ⟨false, ∅⟩⟩

def examplePlan : Nat → CmdRound := fun _ =>
  ⟨fun _ => ⟨true, id, true, true⟩, id, fun _ _ h => h, fun _ h => h⟩

theorem examplePlan_prompt : Prompt examplePlan := ⟨fun _ _ => rfl, fun _ _ _ h => h⟩

theorem exampleCtrl_routed : masterOf exampleCtrl 7 ≠ 0 := by decide +kernel

def exampleWorld (cached : Str → Bool) : World := ⟨fun _ => ⟨.empty, cached⟩, 0, []⟩

def exampleSyn : Request := .syn ⟨⟨1, ⟨1, 0⟩, ['g']⟩, 0, 100, ['v'], []⟩

/-- A redis that knows all scripts. -/
theorem sync_async_same_example :
    ∃ ws wa, serve (network exampleDir examplePlan) 3 exampleCtrl 7 (exampleWorld fun _ => true)
        exampleSyn = some ws ∧
      serveAsync (network exampleDir examplePlan) 3 exampleCtrl 7 (exampleWorld fun _ => true)
        exampleSyn = some wa ∧
      (ws.servers (masterOf exampleCtrl 7)).keys = (wa.servers (masterOf exampleCtrl 7)).keys := by
  obtain ⟨ws, wa, hsync, hasync, hsame⟩ := sync_async_same_iff examplePlan_prompt exampleCtrl
    (exampleWorld fun _ => true) 7 exampleSyn 0
  exact ⟨ws, wa, hsync, hasync, hsame.mpr (Or.inl (Or.inl rfl))⟩

/-- The synchronous call opens the session, the asynchronous one does not. -/
theorem async_effect_lost :
    (serve (network exampleDir examplePlan) 3 exampleCtrl 7 (exampleWorld fun _ => false) exampleSyn).map
        (fun w => (w.servers exampleMaster).keys.has (sessionKey 7 1)) = some true ∧
      (serveAsync (network exampleDir examplePlan) 3 exampleCtrl 7 (exampleWorld fun _ => false)
        exampleSyn).map (fun w => (w.servers exampleMaster).keys.has (sessionKey 7 1)) = some false := by
  decide +kernel

end RedisCluster.Guarantees
