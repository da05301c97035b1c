import RedisCluster.Guarantees.OfflineReports
import RedisCluster.Guarantees.SyncAsync
import RedisCluster.Source.LogicCore

/-!
# Swept sessions are notified

The loop that removes sessions hands on what the masters say in time, once, and forgets
what they say later.
-/

set_option autoImplicit false

namespace RedisCluster.Guarantees
open Library Source

/-! ## Pairs of a reply -/

/-- The integers of a reply that are followed by a text, with it. -/
def pairsIn : List RedisReply → List (Int × Str)
  | .mk .integer uid _ _ :: .mk .string _ (some info) _ :: rest => (uid, info) :: pairsIn rest
  | _ :: rest => pairsIn rest
  | [] => []

/-- What the script says about the sessions that it has removed. -/
def sweptPairs (e : Execution) : List (Int × Str) :=
  match e.reply with
  | .mk _ _ _ element => pairsIn element

/-- The reply of `timeout_rm.lua` for these pairs. -/
def pairsReply (pairs : List (Int × Str)) : List RedisReply :=
  pairs.flatMap fun pair => [.mk .integer pair.1 none [], .bulk pair.2]

theorem pairsIn_pairsReply (pairs : List (Int × Str)) : pairsIn (pairsReply pairs) = pairs := by
  induction pairs with
  | nil => rfl
  | cons pair pairs ih =>
    change pair :: pairsIn (pairsReply pairs) = _
    rw [ih]

/-- The client reads from a reply what the script put there. -/
theorem replyPairs_pairsReply (pairs : List (Int × Str)) :
    (redisrvsAddAll (pairsReply pairs)).length % 2 = 0 ∧
      replyPairs (redisrvsAddAll (pairsReply pairs)) = pairs := by
  induction pairs with
  | nil => exact ⟨rfl, rfl⟩
  | cons pair pairs ih =>
    have hcons : redisrvsAddAll (pairsReply (pair :: pairs)) =
        .mk .integer pair.1 [] [] :: .mk .string 0 pair.2 [] :: redisrvsAddAll (pairsReply pairs) := by
      simp [pairsReply, redisrvsAddAll, redisrvsAdd, RedisReply.bulk, RedisRv.fresh, RedisRv.str,
        RedisRv.element]
    rw [hcons]
    constructor
    · simp only [List.length_cons]
      omega
    · rw [replyPairs, if_pos ⟨rfl, rfl⟩, ih.2]
      rfl

/-! ## What a sweep answers -/

/-- The pending removals are of sessions. -/
def SessionNames (s : Keyspace) : Prop :=
  ∀ m stamp, s.zscore dlyCk m = some stamp → ∃ uid lc, m = sessionKey uid lc

/-- The requests put no other names there. -/
theorem sessionNames_runSessions (es : List SessionEvent) : SessionNames (runSessions es) := by
  intro m stamp h
  obtain ⟨uid, lc, heq, _⟩ := pending_asked es m stamp h
  exact ⟨uid, lc, heq⟩

section Answer
variable {s : Keyspace} (names : SessionNames s)

include names in
theorem SessionNames.named (m : Str) (stamp : Int) (h : s.zscore dlyCk m = some stamp) : Named m := by
  obtain ⟨uid, lc, rfl⟩ := names m stamp h
  exact ⟨_, _, decimal_no_dot uid, rfl⟩

include names in
theorem SessionNames.swept (st : Int) : SessionNames (swept s st) := by
  intro m stamp h
  rw [(swept_effect names.named st).pending, Option.filter_eq_some_iff] at h
  exact names m stamp h.1

include names in
/-- A sweep answers with pairs, and its store is as it needs to be for the next. -/
theorem sweep_answers (st cn : Int) : ∃ pairs,
    (runScript (timeoutRm [Text.decimal st, Text.decimal cn]) s).1 = .array (pairsReply pairs) ∧
      SessionNames (runScript (timeoutRm [Text.decimal st, Text.decimal cn]) s).2 := by
  have named := dueNames_named names.named st
  rw [sweep_reply named]
  refine ⟨(reportsOf s (.timeoutRm st cn)).map fun report =>
    (double ((toNumber report.1).getD 0), report.2.2), ?_, names.swept st⟩
  dsimp only
  congr 1
  rw [pairsReply, List.flatMap_map]
  apply List.flatMap_congr
  intro report hreport
  obtain ⟨hdot, hname, _⟩ := mem_sweepReports named hreport
  obtain ⟨stamp, hstamp, _⟩ := mem_dueNames.mp hname
  obtain ⟨uid, lc, heq⟩ := names _ stamp hstamp
  rw [(klc_injective hdot (decimal_no_dot uid) heq).1, toNumber_decimal]
  rfl

end Answer

theorem dropSessions_error {names : List Str} {ofl : List RedisReply} {s s' : Keyspace} {error : Str}
    (h : dropSessions names ofl s = (.error error, s')) :
    error = "attempt to perform arithmetic on a nil value".toList := by
  induction names generalizing ofl s with
  | nil => cases h
  | cons name names ih =>
    rw [dropSessions] at h
    cases hcut : Text.cutAt '.' (name.drop 2) with
    | none =>
      rw [hcut] at h
      cases h
      rfl
    | some pair =>
      rw [hcut] at h
      dsimp only at h
      rw [Script.bind_ok (Script.ask_apply _), Script.bind_ok (Script.call_apply _)] at h
      cases hget : s.hget (kuid pair.1) pair.2 with
      | none =>
        rw [hget] at h
        exact ih h
      | some tv =>
        rw [hget] at h
        exact ih h

/-- In any keyspace the script answers with an array, or fails at a name. -/
theorem timeoutRm_cases (stamp : Int) (count : Str) (s : Keyspace) :
    (∃ ofl, (runScript (timeoutRm [Text.decimal stamp, count]) s).1 = .array ofl) ∨
      (runScript (timeoutRm [Text.decimal stamp, count]) s).1 =
        .error "attempt to perform arithmetic on a nil value".toList := by
  unfold runScript timeoutRm
  simp only [toNumber_decimal]
  rw [Script.bind_ok (Script.ask_apply _), Script.bind_ok (Script.call_apply _)]
  cases hdrop : dropSessions ((s.zrangebyscore dlyCk stamp).map Prod.fst) []
      (((s.zrangebyscore dlyCk stamp).map Prod.fst).foldl Keyspace.del s) with
  | mk result s' =>
    cases result with
    | ok ofl =>
      rw [Script.bind_ok hdrop, Script.bind_ok (Script.call_apply _)]
      exact Or.inl ⟨ofl, rfl⟩
    | error error =>
      rw [Script.bind_error hdrop, dropSessions_error hdrop]
      exact Or.inr rfl

theorem timeoutRm_quiet (stamp count : Int) :
    Quiet .timeoutRm [Text.decimal stamp, Text.decimal count] := by
  intro argv s herror
  rcases timeoutRm_cases stamp (Text.decimal count) s with ⟨ofl, hofl⟩ | hfails
  · rw [LuaFile.script, hofl] at herror
    cases herror
  · rw [LuaFile.script, hfails]
    decide

/-! ## One call -/

theorem timeoutCommands_names (oc : OnlineCtrl) (stamp count : Int) :
    NamesScript oc.dir .timeoutRm [Text.decimal stamp, Text.decimal count]
      (timeoutCommands oc stamp count) := by
  unfold timeoutCommands
  apply List.foldlRecOn
  · intro addr args h
    simp at h
  · intro cmds ih entry _ addr args h
    rw [Ordered.getElem?_insert] at h
    split at h
    · cases h
      cases hold : cmds[entry.2]? with
      | none => exact ⟨[], rfl⟩
      | some old =>
        obtain ⟨argv, rfl⟩ := ih _ _ hold
        exact ⟨argv ++ ["EVALSHA".toList, oc.dir.sha1 .timeoutRm, Text.decimal 2, Text.decimal stamp,
          Text.decimal count], rfl⟩
    · exact ih addr args h

/-- What the client makes of the answer of a sweep. -/
theorem answer_pairs {e : Execution} {pairs : List (Int × Str)}
    (h : e.reply = .array (pairsReply pairs)) : sweptPairs e = pairs ∧
      (redisrvsAdd e.reply .fresh).type = .array ∧
      (redisrvsAdd e.reply .fresh).element.length % 2 = 0 ∧
      replyPairs (redisrvsAdd e.reply .fresh).element = pairs := by
  unfold sweptPairs
  rw [h]
  obtain ⟨heven, hpairs⟩ := replyPairs_pairsReply pairs
  exact ⟨pairsIn_pairsReply pairs, rfl, heven, hpairs⟩

/-- `rvs` gets the pairs of the answers that come in time, in some order. -/
theorem timeoutRm_brings (oc : OnlineCtrl) {plan : Nat → CmdRound} {w : World}
    (served : Throughout plan w SessionNames) (stamp count : Int) (rounds : Nat) :
    ∃ rvs w' new, oc.timeoutRm (network oc.dir plan) (rounds + 3) stamp count w = some (0, rvs, w') ∧
      w'.log = w.log ++ new ∧ Throughout plan w' SessionNames ∧
      (∀ e ∈ new, e.file.script = LuaFile.timeoutRm.script ∧
        e.keys = [Text.decimal stamp, Text.decimal count]) ∧
      rvs.Perm ((new.filter Execution.inTime).flatMap sweptPairs) := by
  have names := timeoutCommands_names oc stamp count
  obtain ⟨rv, w', new, hcmd, brought⟩ := cmd_brings plan names
    (timeoutRm_quiet stamp count) rounds w
  obtain ⟨served', new', hlog, hfound⟩ := cmd_keeps names served (fun argv s hs =>
    (sweep_answers hs stamp count).choose_spec.2) hcmd
  obtain rfl : new = new' := List.append_cancel_left (brought.log.symm.trans hlog)
  have hanswer : ∀ e ∈ new, ∃ pairs, e.reply = .array (pairsReply pairs) := by
    intro e he
    obtain ⟨hscript, hkeys⟩ := brought.script e he
    obtain ⟨pairs, hpairs, _⟩ := sweep_answers (hfound e he) stamp count
    refine ⟨pairs, ?_⟩
    rw [Execution.reply, hscript, hkeys]
    exact hpairs
  refine ⟨timeoutRvs rv, w', new, ?_, hlog, served', brought.script, ?_⟩
  · rw [OnlineCtrl.timeoutRm, hcmd]
    rfl
  · have hperm : rv.toList.Perm ((new.filter Execution.inTime).map fun e =>
        (e.addr, redisrvsAdd e.reply .fresh)) := by
      have hone : ((new.filter Execution.inTime).map Execution.addr).Nodup :=
        brought.once.sublist (List.filter_sublist.map _)
      rw [List.perm_ext_iff_of_nodup (Ordered.nodup_keys rv).of_map]
      · rintro ⟨addr, v⟩
        rw [Std.ExtTreeMap.mem_toList_iff_getElem?_eq_some, brought.replies, List.mem_map]
        constructor
        · rintro ⟨e, he, rfl, hin, _, rfl⟩
          exact ⟨e, List.mem_filter.mpr ⟨he, hin⟩, rfl⟩
        · rintro ⟨e, he, heq⟩
          cases heq
          obtain ⟨hmem, hin⟩ := List.mem_filter.mp he
          obtain ⟨pairs, hpairs⟩ := hanswer e hmem
          have htype : e.reply.type ≠ .error := by
            rw [hpairs]
            exact ReplyType.noConfusion
          exact ⟨e, hmem, rfl, hin, htype, rfl⟩
      · apply List.Nodup.of_map Prod.fst
        rwa [List.map_map]
    unfold timeoutRvs
    apply (hperm.flatMap_right _).trans
    rw [List.flatMap_map]
    apply List.Perm.of_eq
    apply List.flatMap_congr
    intro e he
    obtain ⟨pairs, hpairs⟩ := hanswer e (List.mem_filter.mp he).1
    obtain ⟨hswept, htype, heven, hread⟩ := answer_pairs hpairs
    dsimp only
    rw [if_pos ⟨htype, heven⟩, hread, hswept]

/-! ## The loop -/

/-- The logic layer with `OnlineCtrl::timeout_rm` as its hook, and one to notify. What that
does to a redis happens before the next command. -/
def sweeper (lc : LogicCore World) (oc : OnlineCtrl) (plan : Nat → CmdRound) (rounds : Nat)
    (notify : List (Int × Str) → Int) : LogicCore World :=
  { lc with
    timeoutRmHook := some fun _ stamp count w => oc.timeoutRm (network oc.dir plan) rounds stamp count w
    offlineNotifyMultiHook := some fun rvs w => (notify rvs, w) }

/-- What is handed to `offline_notify_multi_fn`, call by call. -/
def handed (calls : List HookCall) : List (List (Int × Str)) :=
  calls.filterMap fun
    | .offlineNotifyMulti rvs => some rvs
    | _ => none

section Loop
variable (lc : LogicCore World) (oc : OnlineCtrl) {plan : Nat → CmdRound} (rounds : Nat)
  (notify : List (Int × Str) → Int)

theorem sweeper_turn {now : Int} {rvs : List (Int × Str)} {w w' : World}
    (h : oc.timeoutRm (network oc.dir plan) rounds now (-1) w = some (0, rvs, w')) :
    (sweeper lc oc plan rounds notify).checkTimeoutTurn now w =
      some ([.timeoutRm 300 now (-1), .offlineNotifyMulti rvs], w') := by
  unfold LogicCore.checkTimeoutTurn LogicCore.timeoutRmFn sweeper
  simp only [Option.bind_eq_bind, h, Option.bind_some, Option.pure_def]
  rfl

/-- Every turn hands on the pairs of the answers that it gets in time, each once. What a late answer
would have brought is dropped with its slot: `late_sweep_lost` has such a turn, whose sessions are
removed and reported to nobody. -/
theorem swept_in_time_handed {w : World} (served : Throughout plan w SessionNames) (nows : List Int) :
    ∃ calls w' turns, (sweeper lc oc plan (rounds + 3) notify).checkTimeout nows w = some (calls, w') ∧
      w'.log = w.log ++ turns.flatten ∧
      List.Forall₂ (fun now new => ∀ e ∈ new, e.file.script = LuaFile.timeoutRm.script ∧
        e.keys = [Text.decimal now, Text.decimal (-1)]) nows turns ∧
      List.Forall₂ (fun (new : List Execution) rvs =>
        rvs.Perm ((new.filter Execution.inTime).flatMap sweptPairs)) turns (handed calls) := by
  induction nows generalizing w with
  | nil => exact ⟨[], w, [], rfl, (List.append_nil _).symm, .nil, .nil⟩
  | cons now nows ih =>
    obtain ⟨rvs, w₁, new, hcall, hlog, served', hscript, hperm⟩ :=
      timeoutRm_brings oc served now (-1) rounds
    obtain ⟨calls, w', turns, hrest, hlog', hturns, hhanded⟩ := ih served'
    refine ⟨.timeoutRm 300 now (-1) :: .offlineNotifyMulti rvs :: calls, w', new :: turns, ?_, ?_,
      .cons hscript hturns, .cons hperm hhanded⟩
    · rw [LogicCore.checkTimeout, sweeper_turn lc oc (rounds + 3) notify hcall]
      simp only [Option.bind_eq_bind, Option.bind_some, hrest]
      rfl
    · rw [hlog', hlog, List.flatten_cons, List.append_assoc]

end Loop

/-! ## Answers that are late -/

/-- Every command is run and answered, after the wait has ended. -/
def latePlan : Nat → CmdRound := fun _ =>
  ⟨fun _ => ⟨true, id, true, true⟩, fun _ => [], nofun, fun _ _ => List.nodup_nil⟩

/-- A session of user 7 whose time has come at 41. -/
def dueWorld : World :=
  ⟨fun _ => ⟨runSessions (exampleSession 7 2 40), fun _ => true⟩, 0, []⟩

theorem dueWorld_served (plan : Nat → CmdRound) (idle : ∀ n addr, ((plan n).fate addr).before = id) :
    Throughout plan dueWorld SessionNames := by
  refine ⟨fun _ => sessionNames_runSessions _, ?_⟩
  intro n addr r h
  rw [idle]
  exact h

theorem timeoutRm_late (oc : OnlineCtrl) (stamp count : Int) (rounds : Nat) (w : World) :
    ∃ w', oc.timeoutRm (network oc.dir latePlan) (rounds + 1) stamp count w = some (0, [], w') := by
  have hcmd : ∃ w', cmd (network oc.dir latePlan) (oc.dir.data .timeoutRm) (rounds + 1) false
      (timeoutCommands oc stamp count) ∅ w = some (∅, w') := by
    cases hempty : (timeoutCommands oc stamp count).isEmpty with
    | true => exact ⟨w, cmd_empty hempty⟩
    | false => exact ⟨_, cmd_done hempty (Or.inr rfl)⟩
  obtain ⟨w', hcmd⟩ := hcmd
  refine ⟨w', ?_⟩
  rw [OnlineCtrl.timeoutRm, hcmd]
  rfl

/-- Nothing is ever handed on. -/
theorem handed_late (lc : LogicCore World) (oc : OnlineCtrl) (rounds : Nat)
    (notify : List (Int × Str) → Int) (nows : List Int) (w : World) :
    ∃ calls w', (sweeper lc oc latePlan (rounds + 1) notify).checkTimeout nows w = some (calls, w') ∧
      (handed calls).flatten = [] := by
  induction nows generalizing w with
  | nil => exact ⟨[], w, rfl, rfl⟩
  | cons now nows ih =>
    obtain ⟨w₁, hcall⟩ := timeoutRm_late oc now (-1) rounds w
    obtain ⟨calls, w', hrest, hnone⟩ := ih w₁
    refine ⟨.timeoutRm 300 now (-1) :: .offlineNotifyMulti [] :: calls, w', ?_, hnone⟩
    rw [LogicCore.checkTimeout, sweeper_turn lc oc (rounds + 1) notify hcall]
    simp only [Option.bind_eq_bind, Option.bind_some, hrest]
    rfl

def silentParse : ParseFromString :=
  ⟨fun _ => (false, ⟨0, 0, 0, 0, 0, []⟩), fun _ => false, fun _ => (false, ⟨0, [], []⟩),
    fun _ => (false, ⟨0, []⟩), fun _ => false, fun _ => (false, ⟨0⟩)⟩

def exampleSweeper (plan : Nat → CmdRound) : LogicCore World :=
  sweeper ⟨silentParse, none, none, none, none, none, none, none⟩ exampleCtrl plan 3 fun _ => 0

theorem swept_in_time_handed_example :
    ∃ calls w' turns, (exampleSweeper examplePlan).checkTimeout [41, 42] dueWorld = some (calls, w') ∧
      w'.log = [] ++ turns.flatten ∧
      List.Forall₂ (fun now new => ∀ e ∈ new, e.file.script = LuaFile.timeoutRm.script ∧
        e.keys = [Text.decimal now, Text.decimal (-1)]) [41, 42] turns ∧
      List.Forall₂ (fun (new : List Execution) rvs =>
        rvs.Perm ((new.filter Execution.inTime).flatMap sweptPairs)) turns (handed calls) :=
  swept_in_time_handed _ exampleCtrl 0 _ (dueWorld_served examplePlan fun _ _ => rfl) [41, 42]

/-- The session of user 7 is removed, and nobody ever hears of it. -/
theorem late_sweep_lost :
    ¬ ∀ (lc : LogicCore World) (oc : OnlineCtrl) (plan : Nat → CmdRound) (notify : List (Int × Str) → Int)
      (w : World), Throughout plan w SessionNames → ∀ nows calls w' new,
        (sweeper lc oc plan 3 notify).checkTimeout nows w = some (calls, w') → w'.log = w.log ++ new →
          ∀ e ∈ new, ∀ pair ∈ sweptPairs e, ∃ later calls' w'',
            (sweeper lc oc plan 3 notify).checkTimeout (nows ++ later) w = some (calls', w'') ∧
              pair ∈ (handed calls').flatten := by
  intro claim
  have hrun : ((exampleSweeper latePlan).checkTimeout [41] dueWorld).map
      (fun (_, w') => w'.log.map sweptPairs) = some [[(7, "100;v".toList)]] := by
    decide +kernel
  obtain ⟨⟨calls, w'⟩, hcheck, hpairs⟩ := Option.map_eq_some_iff.mp hrun
  obtain ⟨e, he, hpair⟩ := List.mem_map.mp (hpairs ▸ List.mem_singleton_self _)
  obtain ⟨later, calls', w'', hlater, hmem⟩ := claim _ exampleCtrl latePlan _ dueWorld
    (dueWorld_served latePlan fun _ _ => rfl) [41] calls w' w'.log hcheck rfl e he
    (7, "100;v".toList) (by rw [hpair]; exact List.mem_singleton_self _)
  obtain ⟨calls₂, w₂, hrun₂, hnone⟩ := handed_late _ exampleCtrl 2 _ ([41] ++ later) dueWorld
  rw [hrun₂] at hlater
  cases hlater
  rw [hnone] at hmem
  cases hmem

end RedisCluster.Guarantees
