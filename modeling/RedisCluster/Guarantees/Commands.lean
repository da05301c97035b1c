import RedisCluster.Source.OnlineCtrl

/-!
# What a synchronous command brings back

A call sends a script to several redis by its SHA-1, and once more as a text where it was
not known. It brings back exactly the replies of the runs that were answered in time.
-/

set_option autoImplicit false

namespace RedisCluster.Guarantees
open Library Source

/-! ## Collecting replies -/

section Collect
variable {replies : List (UInt64 × Option RedisReply)} {rv err rv' err' : RedisRvs}
  {addr a : UInt64} {reply : Option RedisReply}

theorem redisrpRedisrvs_of_ne (h : a ≠ addr) :
    (redisrpRedisrvs reply rv err addr).1[a]? = rv[a]? ∧
      (redisrpRedisrvs reply rv err addr).2[a]? = err[a]? := by
  unfold redisrpRedisrvs
  cases reply with
  | none => exact ⟨rfl, rfl⟩
  | some reply =>
    dsimp only
    split
    · exact ⟨by rw [Ordered.getElem?_insert, if_neg h], rfl⟩
    · exact ⟨rfl, by rw [Ordered.getElem?_insert, if_neg h]⟩

/-- What a reply leaves at its address, from what was there. -/
theorem redisrpRedisrvs_self : (redisrpRedisrvs reply rv err addr).1[addr]? =
      (match reply with
      | some r => if r.type = .error then rv[addr]?
        else some (redisrvsAdd r (rv[addr]?.getD .fresh))
      | none => rv[addr]?) ∧
    (redisrpRedisrvs reply rv err addr).2[addr]? =
      (match reply with
      | some r => if r.type = .error then some (redisrvsAdd r .fresh) else err[addr]?
      | none => err[addr]?) := by
  unfold redisrpRedisrvs
  cases reply with
  | none => exact ⟨rfl, rfl⟩
  | some r =>
    dsimp only
    by_cases h : r.type = .error
    · simp only [h, ne_eq, not_true_eq_false, if_false, if_true, Ordered.getElem?_insert, and_self]
    · simp only [h, ne_eq, not_false_eq_true, if_false, if_true, Ordered.getElem?_insert, and_self]

/-- The loop of `collect`, from any `carg`. -/
def collectFrom (replies : List (UInt64 × Option RedisReply)) (carg : RedisRvs × RedisRvs) :
    RedisRvs × RedisRvs :=
  replies.foldl (fun carg reply => redisrpRedisrvs reply.2 carg.1 carg.2 reply.1) carg

theorem collectFrom_cons {carg : RedisRvs × RedisRvs} : collectFrom ((addr, reply) :: replies) carg =
    collectFrom replies (redisrpRedisrvs reply carg.1 carg.2 addr) := rfl

/-- An address without a reply keeps what it had. -/
theorem collectFrom_of_not_mem {carg : RedisRvs × RedisRvs} (h : a ∉ replies.map Prod.fst) :
    (collectFrom replies carg).1[a]? = carg.1[a]? ∧ (collectFrom replies carg).2[a]? = carg.2[a]? := by
  induction replies generalizing carg with
  | nil => exact ⟨rfl, rfl⟩
  | cons first replies ih =>
    obtain ⟨addr, reply⟩ := first
    rw [List.map_cons, List.mem_cons, not_or] at h
    have hfirst := @redisrpRedisrvs_of_ne carg.1 carg.2 addr a reply h.1
    have hrest := @ih (redisrpRedisrvs reply carg.1 carg.2 addr) h.2
    rw [collectFrom_cons]
    exact ⟨hrest.1.trans hfirst.1, hrest.2.trans hfirst.2⟩

/-- Every address replies at most once, and its reply meets what was there before. -/
theorem collectFrom_of_mem {carg : RedisRvs × RedisRvs} (nodup : (replies.map Prod.fst).Nodup)
    (h : (addr, reply) ∈ replies) :
    (collectFrom replies carg).1[addr]? = (redisrpRedisrvs reply carg.1 carg.2 addr).1[addr]? ∧
      (collectFrom replies carg).2[addr]? =
        (redisrpRedisrvs reply carg.1 carg.2 addr).2[addr]? := by
  induction replies generalizing carg with
  | nil => cases h
  | cons first replies ih =>
    obtain ⟨first, firstReply⟩ := first
    rw [List.map_cons, List.nodup_cons] at nodup
    rw [collectFrom_cons]
    rcases List.mem_cons.mp h with heq | htail
    · cases heq
      exact collectFrom_of_not_mem nodup.1
    · have hne : addr ≠ first := by
        rintro rfl
        exact nodup.1 (List.mem_map.mpr ⟨_, htail, rfl⟩)
      obtain ⟨hrv, herr⟩ := @redisrpRedisrvs_of_ne carg.1 carg.2 first addr firstReply hne
      obtain ⟨ihrv, iherr⟩ := @ih (redisrpRedisrvs firstReply carg.1 carg.2 first) nodup.2 htail
      rw [ihrv, iherr, redisrpRedisrvs_self.1, redisrpRedisrvs_self.2, redisrpRedisrvs_self.1,
        redisrpRedisrvs_self.2, hrv, herr]
      exact ⟨rfl, rfl⟩

theorem reply_at (nodup : (replies.map Prod.fst).Nodup) (h : a ∈ replies.map Prod.fst) :
    ∃ reply, (a, reply) ∈ replies ∧ ∀ r, (a, some r) ∈ replies → reply = some r := by
  obtain ⟨⟨addr, reply⟩, hmem, rfl⟩ := List.mem_map.mp h
  refine ⟨reply, hmem, fun r hr => ?_⟩
  exact (Prod.mk.inj (List.inj_on_of_nodup_map nodup hmem hr rfl)).2

/-- Where nothing was there before, the replies that are no errors are collected. -/
theorem collect_rv (nodup : (replies.map Prod.fst).Nodup)
    (fresh : ∀ a ∈ replies.map Prod.fst, rv[a]? = none) {v : RedisRv} :
    (collect replies rv).1[a]? = some v ↔ rv[a]? = some v ∨
      ∃ r, (a, some r) ∈ replies ∧ r.type ≠ .error ∧ v = redisrvsAdd r .fresh := by
  change (collectFrom replies (rv, ∅)).1[a]? = some v ↔ _
  by_cases h : a ∈ replies.map Prod.fst
  · obtain ⟨reply, hmem, honly⟩ := reply_at nodup h
    rw [(collectFrom_of_mem nodup hmem).1, redisrpRedisrvs_self.1, fresh _ h]
    cases reply with
    | none =>
      simp only [reduceCtorEq, false_or, false_iff, not_exists, not_and]
      intro r hr
      cases honly r hr
    | some r =>
      dsimp only
      split
      · next herror =>
        simp only [reduceCtorEq, false_or, false_iff, not_exists, not_and]
        intro r' hr' htype
        cases honly r' hr'
        exact absurd herror htype
      · next herror =>
        rw [Option.some_inj]
        constructor
        · rintro rfl
          exact Or.inr ⟨r, hmem, herror, rfl⟩
        · rintro (hnone | ⟨r', hr', _, rfl⟩)
          · cases hnone
          · cases honly r' hr'
            rfl
  · rw [(collectFrom_of_not_mem h).1]
    constructor
    · exact Or.inl
    · rintro (hv | ⟨r, hr, _⟩)
      · exact hv
      · exact absurd (List.mem_map.mpr ⟨_, hr, rfl⟩) h

/-- The errors of a round are the replies of the type error. -/
theorem collect_err (nodup : (replies.map Prod.fst).Nodup) {v : RedisRv} :
    (collect replies rv).2[a]? = some v ↔
      ∃ r, (a, some r) ∈ replies ∧ r.type = .error ∧ v = redisrvsAdd r .fresh := by
  change (collectFrom replies (rv, ∅)).2[a]? = some v ↔ _
  by_cases h : a ∈ replies.map Prod.fst
  · obtain ⟨reply, hmem, honly⟩ := reply_at nodup h
    rw [(collectFrom_of_mem nodup hmem).2, redisrpRedisrvs_self.2]
    cases reply with
    | none =>
      simp only [Std.ExtTreeMap.getElem?_empty, reduceCtorEq, false_iff, not_exists, not_and]
      intro r hr
      cases honly r hr
    | some r =>
      dsimp only
      split
      · next herror =>
        rw [Option.some_inj]
        constructor
        · rintro rfl
          exact ⟨r, hmem, herror, rfl⟩
        · rintro ⟨r', hr', _, rfl⟩
          cases honly r' hr'
          rfl
      · next herror =>
        simp only [Std.ExtTreeMap.getElem?_empty, reduceCtorEq, false_iff, not_exists, not_and]
        intro r' hr' htype
        cases honly r' hr'
        exact absurd htype herror
  · rw [(collectFrom_of_not_mem h).2]
    simp only [Std.ExtTreeMap.getElem?_empty, reduceCtorEq, false_iff, not_exists, not_and]
    intro r hr
    exact absurd (List.mem_map.mpr ⟨_, hr, rfl⟩) h

end Collect

/-! ## One round -/

theorem filterMap_sublist_map {α β : Type} {f : α → Option β} {g : α → β}
    (h : ∀ a b, f a = some b → b = g a) (l : List α) : (l.filterMap f).Sublist (l.map g) := by
  induction l with
  | nil => exact List.Sublist.slnil
  | cons a l ih =>
    rw [List.map_cons]
    cases hf : f a with
    | none =>
      rw [List.filterMap_cons_none hf]
      exact ih.cons _
    | some b =>
      rw [List.filterMap_cons_some hf, h a b hf]
      exact ih.cons_cons _

section CmdRound
variable {dir : ScriptDir} {plan : Nat → CmdRound} {w : World} {cmds : Commands}

/-- The addresses whose replies are processed in time. -/
def arrived (plan : Nat → CmdRound) (w : World) (cmds : Commands) : List UInt64 :=
  (plan w.rounds).arrivals (cmds.keys.filter fun addr => ((plan w.rounds).fate addr).sent)

/-- What a wait gets: the replies that arrived, in their order. -/
def replies (dir : ScriptDir) (plan : Nat → CmdRound) (w : World) (cmds : Commands) :
    List (UInt64 × Option RedisReply) :=
  ((network dir plan).round w cmds).1

/-- The scripts that are run in the round. -/
def runs (dir : ScriptDir) (plan : Nat → CmdRound) (w : World) (cmds : Commands) : List Execution :=
  cmds.toList.filterMap fun (addr, args) => ((plan w.rounds).fate addr).execution dir
    (w.servers addr) addr args ((arrived plan w cmds).contains addr)

/-- The world after the round. -/
def afterRound (dir : ScriptDir) (plan : Nat → CmdRound) (w : World) (cmds : Commands) : World :=
  ((network dir plan).round w cmds).2

theorem log_afterRound : (afterRound dir plan w cmds).log = w.log ++ runs dir plan w cmds := rfl

/-- A reply is there if it arrived and its redis gave it. -/
theorem mem_replies {addr : UInt64} {reply : Option RedisReply} :
    (addr, reply) ∈ replies dir plan w cmds ↔ addr ∈ arrived plan w cmds ∧ ∃ args,
      cmds[addr]? = some args ∧
        (((plan w.rounds).fate addr).outcome dir (w.servers addr) args).1 = some reply := by
  unfold replies network
  simp only [List.mem_filterMap]
  constructor
  · rintro ⟨a, ha, h⟩
    obtain ⟨args, hargs, h⟩ := Option.bind_eq_some_iff.mp h
    obtain ⟨reply', hreply, h⟩ := Option.bind_eq_some_iff.mp h
    cases h
    exact ⟨ha, args, hargs, hreply⟩
  · rintro ⟨ha, args, hargs, hreply⟩
    refine ⟨addr, ha, Option.bind_eq_some_iff.mpr ⟨args, hargs, ?_⟩⟩
    exact Option.bind_eq_some_iff.mpr ⟨reply, hreply, rfl⟩

theorem nodup_replies : ((replies dir plan w cmds).map Prod.fst).Nodup := by
  have hkeys : (cmds.keys.filter fun addr => ((plan w.rounds).fate addr).sent).Nodup := by
    rw [← Std.ExtTreeMap.map_fst_toList_eq_keys]
    exact (Ordered.nodup_keys cmds).filter _
  unfold replies network
  dsimp only
  rw [List.map_filterMap]
  have harrived := (plan w.rounds).nodup _ hkeys
  rw [← List.map_id ((plan w.rounds).arrivals _)] at harrived
  refine harrived.sublist ?_
  apply filterMap_sublist_map
  intro a b h
  obtain ⟨_, hpair, rfl⟩ := Option.map_eq_some_iff.mp h
  obtain ⟨_, _, hpair⟩ := Option.bind_eq_some_iff.mp hpair
  obtain ⟨_, _, hpair⟩ := Option.bind_eq_some_iff.mp hpair
  cases hpair
  rfl

/-- A command is run if it was sent, the redis came to it and it names a script that is known there.
-/
theorem execution_eq {fate : Fate} {r : Redis} {addr : UInt64} {args : List Str} {arrives : Bool}
    {e : Execution} : fate.execution dir r addr args arrives = some e ↔
      fate.sent = true ∧ fate.runs = true ∧ ∃ file keys argv,
        redisOrder dir (fate.before r).cached args = .run file keys argv ∧
          e = ⟨addr, file, keys, argv, (fate.before r).keys, fate.answers && arrives⟩ := by
  unfold Fate.execution
  by_cases hsent : fate.sent = true <;> by_cases hruns : fate.runs = true <;>
    simp only [hsent, hruns, Bool.and_true, Bool.and_false, if_true, if_false,
      true_and, false_and, and_false, reduceCtorEq, Bool.false_eq_true]
  cases horder : redisOrder dir (fate.before r).cached args with
  | run file keys argv => simp [eq_comm]
  | load file => simp
  | refuse error => simp

theorem mem_runs {e : Execution} : e ∈ runs dir plan w cmds ↔ ∃ args, cmds[e.addr]? = some args ∧
    ((plan w.rounds).fate e.addr).execution dir (w.servers e.addr) e.addr args
      ((arrived plan w cmds).contains e.addr) = some e := by
  unfold runs
  rw [List.mem_filterMap]
  constructor
  · rintro ⟨⟨addr, args⟩, hmem, h⟩
    obtain ⟨_, _, file, keys, argv, _, he⟩ := execution_eq.mp h
    obtain rfl : e.addr = addr := by rw [he]
    exact ⟨args, Std.ExtTreeMap.mem_toList_iff_getElem?_eq_some.mp hmem, h⟩
  · rintro ⟨args, hargs, h⟩
    exact ⟨(e.addr, args), Std.ExtTreeMap.mem_toList_iff_getElem?_eq_some.mpr hargs, h⟩

/-- In one round every redis runs a script at most once. -/
theorem nodup_runs : ((runs dir plan w cmds).map Execution.addr).Nodup := by
  unfold runs
  rw [List.map_filterMap]
  refine (Ordered.nodup_keys cmds).sublist ?_
  apply filterMap_sublist_map
  intro entry addr h
  obtain ⟨e, hexecution, rfl⟩ := Option.map_eq_some_iff.mp h
  obtain ⟨_, _, _, _, _, _, he⟩ := execution_eq.mp hexecution
  rw [he]

/-- Every command of the round runs this script, or is refused as its script is not known. -/
def Sends (dir : ScriptDir) (file : LuaFile) (keys : List Str) (cmds : Commands) : Prop :=
  ∀ (addr : UInt64) (args : List Str), cmds[addr]? = some args → ∀ r : Redis,
    (∃ (found : LuaFile) (argv : List Str), redisOrder dir r.cached args = .run found keys argv ∧
      found.script = file.script) ∨ redisOrder dir r.cached args = .refuse noScript

/-- Every command of the round runs this script. -/
def RunsScript (dir : ScriptDir) (file : LuaFile) (keys : List Str) (cmds : Commands) : Prop :=
  ∀ (addr : UInt64) (args : List Str), cmds[addr]? = some args → ∀ r : Redis,
    ∃ (found : LuaFile) (argv : List Str), redisOrder dir r.cached args = .run found keys argv ∧
      found.script = file.script

theorem RunsScript.sends {file : LuaFile} {keys : List Str} (h : RunsScript dir file keys cmds) :
    Sends dir file keys cmds :=
  fun addr args hargs r => Or.inl (h addr args hargs r)

theorem exec_of_run {r : Redis} {args keys argv : List Str} {file : LuaFile}
    (h : redisOrder dir r.cached args = .run file keys argv) :
    (r.exec dir args).1 = (runScript (file.script keys argv) r.keys).1 := by
  unfold Redis.exec
  rw [h]

theorem exec_of_refuse {r : Redis} {args : List Str} {error : Str}
    (h : redisOrder dir r.cached args = .refuse error) : r.exec dir args = (.error error, r) := by
  unfold Redis.exec
  rw [h]

theorem outcome_some {fate : Fate} {r : Redis} {args : List Str} {reply : RedisReply} :
    (fate.outcome dir r args).1 = some (some reply) ↔ fate.sent = true ∧ fate.runs = true ∧
      fate.answers = true ∧ ((fate.before r).exec dir args).1 = reply := by
  unfold Fate.outcome
  by_cases hsent : fate.sent = true <;> by_cases hruns : fate.runs = true <;>
    by_cases hanswers : fate.answers = true <;> simp [hsent, hruns, hanswers]

variable {file : LuaFile} {keys : List Str}

/-- The scripts that are run are those that the commands name, with their keys. -/
theorem runs_script (sends : Sends dir file keys cmds) {e : Execution} (h : e ∈ runs dir plan w cmds) :
    e.file.script = file.script ∧ e.keys = keys := by
  obtain ⟨args, hargs, hexecution⟩ := mem_runs.mp h
  obtain ⟨_, _, found, keys', argv, horder, he⟩ := execution_eq.mp hexecution
  rcases sends e.addr args hargs (((plan w.rounds).fate e.addr).before (w.servers e.addr)) with
    ⟨found', argv', horder', hscript⟩ | hrefused
  · rw [horder] at horder'
    cases horder'
    rw [he]
    exact ⟨hscript, rfl⟩
  · rw [horder] at hrefused
    cases hrefused

/-- A reply in time is that of a run, or the script was not known and nothing ran. -/
theorem reply_cases (sends : Sends dir file keys cmds) {addr : UInt64} {reply : RedisReply}
    (h : (addr, some reply) ∈ replies dir plan w cmds) :
    (∃ e ∈ runs dir plan w cmds, e.addr = addr ∧ e.inTime = true ∧ e.reply = reply) ∨
      (reply = .error noScript ∧ ¬ RunsScript dir file keys cmds ∧
        ∀ e ∈ runs dir plan w cmds, e.addr ≠ addr) := by
  obtain ⟨harrived, args, hargs, houtcome⟩ := mem_replies.mp h
  obtain ⟨hsent, hruns, hanswers, hreply⟩ := outcome_some.mp houtcome
  rcases sends addr args hargs (((plan w.rounds).fate addr).before (w.servers addr)) with
    ⟨found, argv, horder, hscript⟩ | hrefused
  · left
    refine ⟨⟨addr, found, keys, argv, (((plan w.rounds).fate addr).before (w.servers addr)).keys,
      true⟩, ?_, rfl, rfl, ?_⟩
    · refine mem_runs.mpr ⟨args, hargs, execution_eq.mpr ⟨hsent, hruns, found, keys, argv, horder, ?_⟩⟩
      rw [hanswers, List.contains_iff_mem.mpr harrived]
      rfl
    · rw [← hreply, exec_of_run horder]
      rfl
  · right
    rw [exec_of_refuse hrefused] at hreply
    refine ⟨hreply.symm, ?_, ?_⟩
    · intro hall
      obtain ⟨_, _, horder, _⟩ := hall addr args hargs
        (((plan w.rounds).fate addr).before (w.servers addr))
      rw [hrefused] at horder
      cases horder
    · rintro e he rfl
      obtain ⟨args', hargs', hexecution⟩ := mem_runs.mp he
      obtain ⟨_, _, _, _, _, horder, _⟩ := execution_eq.mp hexecution
      rw [hargs] at hargs'
      cases hargs'
      rw [hrefused] at horder
      cases horder

/-- The reply of a run that counts as in time is processed. -/
theorem run_replies {e : Execution} (h : e ∈ runs dir plan w cmds) (hin : e.inTime = true) :
    (e.addr, some e.reply) ∈ replies dir plan w cmds := by
  obtain ⟨args, hargs, hexecution⟩ := mem_runs.mp h
  obtain ⟨hsent, hruns, found, keys', argv, horder, he⟩ := execution_eq.mp hexecution
  have htime : (((plan w.rounds).fate e.addr).answers && (arrived plan w cmds).contains e.addr) = true := by
    rw [← hin, he]
  rw [Bool.and_eq_true] at htime
  refine mem_replies.mpr ⟨List.contains_iff_mem.mp htime.2, args, hargs, ?_⟩
  refine outcome_some.mpr ⟨hsent, hruns, htime.1, ?_⟩
  rw [exec_of_run horder, he]
  rfl

end CmdRound

/-! ## The whole call -/

/-- The script never answers as redis answers for a script that it does not know. -/
def Quiet (file : LuaFile) (keys : List Str) : Prop :=
  ∀ (argv : List Str) (s : Keyspace), (runScript (file.script keys argv) s).1.type = .error →
    "NOSCRIPT".toList.isPrefixOf ((runScript (file.script keys argv) s).1.str.getD []) = false

/-- The commands name the script by its SHA-1. -/
def NamesScript (dir : ScriptDir) (file : LuaFile) (keys : List Str) (addrCmd : Commands) : Prop :=
  ∀ (addr : UInt64) (args : List Str), addrCmd[addr]? = some args → ∃ argv : List Str,
    args = "EVALSHA".toList :: dir.sha1 file :: Text.decimal keys.length :: (keys ++ argv)

/-- What a call brings back, and the scripts that it had run. -/
structure Brought (file : LuaFile) (keys : List Str) (addrCmd : Commands) (w w' : World)
    (new : List Execution) (rv : RedisRvs) : Prop where
  log : w'.log = w.log ++ new
  sent : ∀ e ∈ new, e.addr ∈ addrCmd
  once : (new.map Execution.addr).Nodup
  script : ∀ e ∈ new, e.file.script = file.script ∧ e.keys = keys
  replies : ∀ (addr : UInt64) (v : RedisRv), rv[addr]? = some v ↔ ∃ e ∈ new, e.addr = addr ∧
    e.inTime = true ∧ e.reply.type ≠ .error ∧ v = redisrvsAdd e.reply .fresh

/-- The commands of a round of `cmd`. -/
def sentCmds (luaCode : Str) (iseval : Bool) (addrCmd : Commands) : Commands :=
  (sendable addrCmd).map fun _ args => if iseval then evalArgs luaCode args else args

/-- What is sent to an address: its own arguments, with the text of the script in the second round.
Long ones are left out. -/
theorem sentCmds_get {luaCode : Str} {iseval : Bool} {addrCmd : Commands} {addr : UInt64}
    {args : List Str} : (sentCmds luaCode iseval addrCmd)[addr]? = some args ↔
      ∃ args', addrCmd[addr]? = some args' ∧ args'.length < argvMaxLen ∧
        args = if iseval then evalArgs luaCode args' else args' := by
  unfold sentCmds sendable
  rw [Std.ExtTreeMap.getElem?_map, Option.map_eq_some_iff]
  simp only [Std.ExtTreeMap.getElem?_filter', Option.filter_eq_some_iff, decide_eq_true_eq]
  constructor
  · rintro ⟨args', ⟨hargs, hlen⟩, rfl⟩
    exact ⟨args', hargs, hlen, rfl⟩
  · rintro ⟨args', hargs, hlen, rfl⟩
    exact ⟨args', ⟨hargs, hlen⟩, rfl⟩

section Call
variable {σ : Type} {net : RedisNetwork σ} {luaCode : Str} {rounds : Nat} {iseval : Bool}
  {addrCmd : Commands} {rv : RedisRvs} {s : σ}

theorem cmd_empty (h : addrCmd.isEmpty = true) :
    cmd net luaCode (rounds + 1) iseval addrCmd rv s = some (rv, s) := by
  rw [cmd, if_pos h]

/-- A round with errors is followed by another one, for the addresses that lack the script. -/
theorem cmd_again (h : addrCmd.isEmpty = false) (hlua : luaCode ≠ [])
    (herr : (collect (net.round s (sentCmds luaCode iseval addrCmd)).1 rv).2.isEmpty = false) :
    cmd net luaCode (rounds + 1) iseval addrCmd rv s = cmd net luaCode rounds true
      (errAddrs addrCmd (collect (net.round s (sentCmds luaCode iseval addrCmd)).1 rv).2)
      (collect (net.round s (sentCmds luaCode iseval addrCmd)).1 rv).1
      (net.round s (sentCmds luaCode iseval addrCmd)).2 := by
  rw [cmd, if_neg (Bool.eq_false_iff.mp h)]
  exact if_pos ⟨hlua, herr⟩

/-- A round without errors is the last. -/
theorem cmd_done (h : addrCmd.isEmpty = false)
    (herr : luaCode = [] ∨
      (collect (net.round s (sentCmds luaCode iseval addrCmd)).1 rv).2.isEmpty = true) :
    cmd net luaCode (rounds + 1) iseval addrCmd rv s =
      some ((collect (net.round s (sentCmds luaCode iseval addrCmd)).1 rv).1,
        (net.round s (sentCmds luaCode iseval addrCmd)).2) := by
  rw [cmd, if_neg (Bool.eq_false_iff.mp h)]
  refine if_neg ?_
  rintro ⟨hlua, hsome⟩
  rcases herr with rfl | herr
  · exact hlua rfl
  · have hsome' : (collect (net.round s (sentCmds luaCode iseval addrCmd)).1 rv).2.isEmpty = false :=
      hsome
    rw [herr] at hsome'
    cases hsome'

theorem runs_sent {dir : ScriptDir} {plan : Nat → CmdRound} {w : World} {e : Execution}
    (h : e ∈ runs dir plan w (sentCmds luaCode iseval addrCmd)) : e.addr ∈ addrCmd := by
  obtain ⟨args, hargs, _⟩ := mem_runs.mp h
  obtain ⟨args', hargs', _⟩ := sentCmds_get.mp hargs
  exact Ordered.mem_iff_getElem?.mpr ⟨args', hargs'⟩

/-- The second round is for those that answered `NOSCRIPT`. -/
theorem errAddrs_get {err : RedisRvs} {addr : UInt64} {args : List Str} :
    (errAddrs addrCmd err)[addr]? = some args ↔
      addrCmd[addr]? = some args ∧ ∃ v, err[addr]? = some v ∧ lacksScript args v = true := by
  unfold errAddrs
  simp only [Std.ExtTreeMap.getElem?_filter', Option.filter_eq_some_iff, Option.any_eq_true]

end Call

section Brings
variable {dir : ScriptDir} {plan : Nat → CmdRound} {w : World} {file : LuaFile} {keys : List Str}
  {addrCmd : Commands}

/-- `EVALSHA` runs the script with these keys, or is refused where the script is not known. -/
theorem redisOrder_evalsha (r : Redis) (argv : List Str) :
    (∃ found, redisOrder dir r.cached
        ("EVALSHA".toList :: dir.sha1 file :: Text.decimal keys.length :: (keys ++ argv)) =
          .run found keys argv ∧ found.script = file.script) ∨
      redisOrder dir r.cached
        ("EVALSHA".toList :: dir.sha1 file :: Text.decimal keys.length :: (keys ++ argv)) =
          .refuse noScript := by
  obtain ⟨found, hfind, _, hscript⟩ := find_sha1 dir file
  simp only [redisOrder, splitKeys_decimal, hfind, if_true]
  split
  · exact Or.inl ⟨found, rfl, hscript⟩
  · exact Or.inr rfl

/-- `EVAL` runs the script whatever is known. -/
theorem redisOrder_eval (r : Redis) (argv : List Str) : ∃ found, redisOrder dir r.cached
    ("EVAL".toList :: dir.data file :: Text.decimal keys.length :: (keys ++ argv)) =
      .run found keys argv ∧ found.script = file.script := by
  obtain ⟨found, hfind, _, hscript⟩ := find_data dir file
  have hname : "EVAL".toList ≠ "EVALSHA".toList := by decide
  refine ⟨found, ?_, hscript⟩
  simp only [redisOrder, splitKeys_decimal, hfind, if_neg hname, if_true]

theorem evalArgs_evalsha (luaCode sha1 numkeys : Str) (args : List Str) :
    evalArgs luaCode ("EVALSHA".toList :: sha1 :: numkeys :: args) =
      "EVAL".toList :: luaCode :: numkeys :: args := by
  unfold evalArgs
  exact List.take_of_length_le (by simp)

theorem NamesScript.sends (h : NamesScript dir file keys addrCmd) :
    Sends dir file keys (sentCmds (dir.data file) false addrCmd) := by
  intro addr args hargs r
  obtain ⟨args', hargs', _, heq⟩ := sentCmds_get.mp hargs
  obtain ⟨argv, rfl⟩ := h addr args' hargs'
  rw [heq, if_neg Bool.false_ne_true]
  exact (redisOrder_evalsha r argv).imp_left fun ⟨found, hrun⟩ => ⟨found, argv, hrun⟩

theorem NamesScript.runs (h : NamesScript dir file keys addrCmd) :
    RunsScript dir file keys (sentCmds (dir.data file) true addrCmd) := by
  intro addr args hargs r
  obtain ⟨args', hargs', _, heq⟩ := sentCmds_get.mp hargs
  obtain ⟨argv, rfl⟩ := h addr args' hargs'
  rw [heq, if_pos rfl, evalArgs_evalsha]
  obtain ⟨found, hrun⟩ := @redisOrder_eval dir file keys r argv
  exact ⟨found, argv, hrun⟩

/-- A round adds the replies of its runs to what was there for other redis. -/
theorem round_rv {cmds : Commands} (sends : Sends dir file keys cmds) {rv : RedisRvs}
    (fresh : ∀ addr ∈ cmds, rv[addr]? = none) {addr : UInt64} {v : RedisRv} :
    (collect (replies dir plan w cmds) rv).1[addr]? = some v ↔ rv[addr]? = some v ∨
      ∃ e ∈ runs dir plan w cmds, e.addr = addr ∧ e.inTime = true ∧ e.reply.type ≠ .error ∧
        v = redisrvsAdd e.reply .fresh := by
  rw [collect_rv nodup_replies]
  · apply or_congr_right
    constructor
    · rintro ⟨r, hr, htype, hv⟩
      rcases reply_cases sends hr with ⟨e, he, haddr, hin, rfl⟩ | ⟨rfl, _⟩
      · exact ⟨e, he, haddr, hin, htype, hv⟩
      · exact absurd rfl htype
    · rintro ⟨e, he, rfl, hin, htype, hv⟩
      exact ⟨e.reply, run_replies he hin, htype, hv⟩
  · intro a ha
    obtain ⟨⟨_, reply⟩, hmem, rfl⟩ := List.mem_map.mp ha
    obtain ⟨_, args, hargs, _⟩ := mem_replies.mp hmem
    exact fresh _ (Ordered.mem_iff_getElem?.mpr ⟨args, hargs⟩)

/-- A command is sent again only where the script was not known, and there it did not run. -/
theorem errAddrs_unknown {cmds : Commands} (sends : Sends dir file keys cmds)
    (quiet : Quiet file keys) {rv : RedisRvs} {addr : UInt64} {args : List Str}
    (h : (errAddrs addrCmd (collect (replies dir plan w cmds) rv).2)[addr]? = some args) :
    addrCmd[addr]? = some args ∧ ¬ RunsScript dir file keys cmds ∧
      ∀ e ∈ runs dir plan w cmds, e.addr ≠ addr := by
  obtain ⟨hargs, v, herr, hlacks⟩ := errAddrs_get.mp h
  obtain ⟨r, hr, htype, rfl⟩ := (collect_err nodup_replies).mp herr
  rcases reply_cases sends hr with ⟨e, he, _, _, rfl⟩ | ⟨_, hnot, hnone⟩
  · obtain ⟨hscript, hkeys⟩ := runs_script sends he
    have hquiet := quiet e.argv e.found
    rw [← hscript, ← hkeys] at hquiet
    have hprefix := hquiet htype
    have hstr : (redisrvsAdd e.reply .fresh).str = e.reply.str.getD [] := by
      cases hreply : e.reply with
      | mk type integer str element => rfl
    unfold lacksScript at hlacks
    rw [hstr, Bool.and_eq_true] at hlacks
    rw [show e.reply = (runScript (e.file.script e.keys e.argv) e.found).1 from rfl,
      hprefix] at hlacks
    cases hlacks.2
  · exact ⟨hargs, hnot, hnone⟩

theorem not_mem_of_isEmpty {cmds : Commands} (h : cmds.isEmpty = true) (addr : UInt64) :
    cmds[addr]? = none := by
  rw [Std.ExtTreeMap.isEmpty_iff.mp h, Std.ExtTreeMap.getElem?_empty]

/-- The second round, with the text of the script, needs no third. -/
theorem cmd_eval (names : NamesScript dir file keys addrCmd) (quiet : Quiet file keys)
    (rounds : Nat) (rv : RedisRvs) :
    ∃ rv' w', cmd (network dir plan) (dir.data file) (rounds + 2) true addrCmd rv w = some (rv', w') ∧
      (addrCmd.isEmpty = true ∧ rv' = rv ∧ w' = w ∨
        addrCmd.isEmpty = false ∧
          rv' = (collect (replies dir plan w (sentCmds (dir.data file) true addrCmd)) rv).1 ∧
          w' = afterRound dir plan w (sentCmds (dir.data file) true addrCmd)) := by
  cases hempty : addrCmd.isEmpty with
  | true => exact ⟨rv, w, cmd_empty hempty, Or.inl ⟨rfl, rfl, rfl⟩⟩
  | false =>
    refine ⟨_, _, ?_, Or.inr ⟨rfl, rfl, rfl⟩⟩
    by_cases herr : (collect (replies dir plan w (sentCmds (dir.data file) true addrCmd)) rv).2.isEmpty
    · exact cmd_done hempty (Or.inr herr)
    · refine (cmd_again hempty (dir.nonempty file) (Bool.eq_false_iff.mpr herr)).trans ?_
      apply cmd_empty
      rw [Std.ExtTreeMap.isEmpty_iff]
      apply Std.ExtTreeMap.ext_getElem?
      intro addr
      rw [Std.ExtTreeMap.getElem?_empty, Option.eq_none_iff_forall_ne_some]
      intro args hargs
      exact (errAddrs_unknown names.runs.sends quiet hargs).2.1 names.runs

variable (plan) in
/-- Three rounds suffice, and what they bring back is what was run and answered in time. -/
theorem cmd_brings (names : NamesScript dir file keys addrCmd) (quiet : Quiet file keys)
    (rounds : Nat) (w : World) :
    ∃ rv w' new, cmd (network dir plan) (dir.data file) (rounds + 3) false addrCmd ∅ w =
      some (rv, w') ∧ Brought file keys addrCmd w w' new rv := by
  cases hempty : addrCmd.isEmpty with
  | true =>
    refine ⟨∅, w, [], cmd_empty hempty, ?_, by simp, List.nodup_nil, by simp, by simp⟩
    rw [List.append_nil]
  | false =>
    have sends := names.sends
    have sent : ∀ e ∈ runs dir plan w (sentCmds (dir.data file) false addrCmd), e.addr ∈ addrCmd :=
      fun e he => runs_sent he
    generalize hcmds : sentCmds (dir.data file) false addrCmd = cmds at sends sent
    have first : ∀ (addr : UInt64) (v : RedisRv),
        (collect (replies dir plan w cmds) ∅).1[addr]? = some v ↔
          ∃ e ∈ runs dir plan w cmds, e.addr = addr ∧ e.inTime = true ∧ e.reply.type ≠ .error ∧
            v = redisrvsAdd e.reply .fresh := by
      intro addr v
      rw [round_rv sends (by simp)]
      simp
    by_cases herr : (collect (replies dir plan w cmds) ∅).2.isEmpty
    · refine ⟨_, _, runs dir plan w cmds, cmd_done hempty (Or.inr (hcmds ▸ herr)), ?_⟩
      rw [hcmds]
      exact ⟨log_afterRound, sent, nodup_runs, fun e he => runs_script sends he, first⟩
    · have herr' : (collect ((network dir plan).round w
          (sentCmds (dir.data file) false addrCmd)).1 ∅).2.isEmpty = false :=
        hcmds ▸ Bool.eq_false_iff.mpr herr
      have hagain := @cmd_again _ _ _ (rounds + 2) _ _ _ _ hempty (dir.nonempty file) herr'
      rw [hcmds] at hagain
      change cmd _ _ _ _ _ _ _ = cmd _ _ _ true (errAddrs addrCmd (collect (replies dir plan w cmds) ∅).2)
        (collect (replies dir plan w cmds) ∅).1 (afterRound dir plan w cmds) at hagain
      have unheard := fun addr args =>
        @errAddrs_unknown dir plan w file keys addrCmd cmds sends quiet ∅ addr args
      generalize errAddrs addrCmd (collect (replies dir plan w cmds) ∅).2 = left at hagain unheard
      have names' : NamesScript dir file keys left :=
        fun addr args hargs => names addr args (unheard addr args hargs).1
      obtain ⟨rv', w', hcmd, hcase⟩ := @cmd_eval dir plan (afterRound dir plan w cmds) file keys left
        names' quiet rounds (collect (replies dir plan w cmds) ∅).1
      rcases hcase with ⟨_, rfl, rfl⟩ | ⟨_, rfl, rfl⟩
      · exact ⟨_, _, runs dir plan w cmds, hagain.trans hcmd, log_afterRound, sent, nodup_runs,
          fun e he => runs_script sends he, first⟩
      · have sends' := names'.runs.sends
        generalize hcmds' : sentCmds (dir.data file) true left = cmds' at sends' hcmd
        have apart : ∀ addr ∈ cmds', ∀ e ∈ runs dir plan w cmds, e.addr ≠ addr := by
          intro addr haddr
          obtain ⟨args, hargs⟩ := Ordered.mem_iff_getElem?.mp haddr
          rw [← hcmds'] at hargs
          obtain ⟨args', hargs', _⟩ := sentCmds_get.mp hargs
          exact (unheard addr args' hargs').2.2
        refine ⟨_, _, runs dir plan w cmds ++ runs dir plan (afterRound dir plan w cmds) cmds',
          hagain.trans hcmd, ?_, ?_, ?_, ?_, ?_⟩
        · rw [log_afterRound, log_afterRound, List.append_assoc]
        · intro e he
          rcases List.mem_append.mp he with he | he
          · exact sent e he
          · obtain ⟨args, hargs⟩ := Ordered.mem_iff_getElem?.mp (runs_sent (hcmds' ▸ he))
            exact Ordered.mem_iff_getElem?.mpr ⟨args, (unheard _ _ hargs).1⟩
        · rw [List.map_append]
          refine List.nodup_append.mpr ⟨nodup_runs, nodup_runs, ?_⟩
          rintro a ha _ hb rfl
          obtain ⟨e, he, rfl⟩ := List.mem_map.mp ha
          obtain ⟨e', he', haddr⟩ := List.mem_map.mp hb
          obtain ⟨args, hargs, _⟩ := mem_runs.mp he'
          exact apart e'.addr (Ordered.mem_iff_getElem?.mpr ⟨args, hargs⟩) e he haddr.symm
        · intro e he
          rcases List.mem_append.mp he with he | he
          · exact runs_script sends he
          · exact runs_script sends' he
        · intro addr v
          rw [round_rv sends', first]
          · simp only [List.mem_append, or_and_right, exists_or]
          · intro a ha
            rw [Option.eq_none_iff_forall_ne_some]
            intro v' hv'
            obtain ⟨e, he, haddr, _⟩ := (first a v').mp hv'
            exact apart a ha e he haddr

/-! ## What all keyspaces keep -/

/-- The keyspaces have a property, which nothing takes from them that happens before a
command. -/
structure Throughout (plan : Nat → CmdRound) (w : World) (P : Keyspace → Prop) : Prop where
  here : ∀ addr, P (w.servers addr).keys
  before : ∀ n addr r, P r.keys → P (((plan n).fate addr).before r).keys

variable {P : Keyspace → Prop}

/-- What the script keeps, a redis keeps, whether it runs the command or refuses it. -/
theorem exec_keeps {r : Redis} {args : List Str} (h : P r.keys)
    (order : (∃ found argv, redisOrder dir r.cached args = .run found keys argv ∧
      found.script = file.script) ∨ redisOrder dir r.cached args = .refuse noScript)
    (script : ∀ argv s, P s → P (runScript (file.script keys argv) s).2) :
    P (r.exec dir args).2.keys := by
  unfold Redis.exec
  rcases order with ⟨found, argv, horder, hscript⟩ | hrefused
  · rw [horder]
    dsimp only
    rw [hscript]
    exact script argv _ h
  · rw [hrefused]
    exact h

/-- What the script and the rest of the world keep holds after a round, and was true of every store
that the script found. -/
theorem round_keeps {cmds : Commands} (keeps : Throughout plan w P) (sends : Sends dir file keys cmds)
    (script : ∀ argv s, P s → P (runScript (file.script keys argv) s).2) :
    Throughout plan (afterRound dir plan w cmds) P ∧ ∀ e ∈ runs dir plan w cmds, P e.found := by
  have hbefore : ∀ addr, P (((plan w.rounds).fate addr).before (w.servers addr)).keys :=
    fun addr => keeps.before _ addr _ (keeps.here addr)
  refine ⟨⟨?_, keeps.before⟩, ?_⟩
  · intro addr
    unfold afterRound network
    dsimp only
    cases hargs : cmds[addr]? with
    | none => exact keeps.here addr
    | some args =>
      dsimp only
      unfold Fate.outcome
      split
      · split
        · exact exec_keeps (hbefore addr) (sends addr args hargs _) script
        · exact hbefore addr
      · exact keeps.here addr
  · intro e he
    obtain ⟨args, _, hexecution⟩ := mem_runs.mp he
    obtain ⟨_, _, _, _, _, _, heq⟩ := execution_eq.mp hexecution
    rw [heq]
    exact hbefore e.addr

/-- Every script of a call finds a keyspace with the property. -/
theorem cmd_keeps (names : NamesScript dir file keys addrCmd) (keeps : Throughout plan w P)
    (script : ∀ argv s, P s → P (runScript (file.script keys argv) s).2)
    {rounds : Nat} {iseval : Bool} {rv rv' : RedisRvs} {w' : World}
    (h : cmd (network dir plan) (dir.data file) rounds iseval addrCmd rv w = some (rv', w')) :
    Throughout plan w' P ∧ ∃ new, w'.log = w.log ++ new ∧ ∀ e ∈ new, P e.found := by
  induction rounds generalizing iseval addrCmd rv w with
  | zero => cases h
  | succ rounds ih =>
    cases hempty : addrCmd.isEmpty with
    | true =>
      rw [cmd_empty hempty] at h
      cases h
      exact ⟨keeps, [], (List.append_nil _).symm, nofun⟩
    | false =>
      have sends : Sends dir file keys (sentCmds (dir.data file) iseval addrCmd) := by
        cases iseval with
        | true => exact names.runs.sends
        | false => exact names.sends
      obtain ⟨hround, hfound⟩ := round_keeps keeps sends script
      by_cases herr : (collect (replies dir plan w (sentCmds (dir.data file) iseval addrCmd)) rv).2.isEmpty
      · rw [cmd_done hempty (Or.inr herr)] at h
        cases h
        exact ⟨hround, _, log_afterRound, hfound⟩
      · rw [cmd_again hempty (dir.nonempty file) (Bool.eq_false_iff.mpr herr)] at h
        have names' : NamesScript dir file keys (errAddrs addrCmd
            (collect (replies dir plan w (sentCmds (dir.data file) iseval addrCmd)) rv).2) :=
          fun addr args hargs => names addr args (errAddrs_get.mp hargs).1
        obtain ⟨hafter, new, hlog, hnew⟩ := ih names' hround h
        refine ⟨hafter, runs dir plan w (sentCmds (dir.data file) iseval addrCmd) ++ new, ?_, ?_⟩
        · rw [hlog, ← List.append_assoc]
          rfl
        · intro e he
          rcases List.mem_append.mp he with he | he
          · exact hfound e he
          · exact hnew e he

end Brings
end RedisCluster.Guarantees
