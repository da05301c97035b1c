import RedisCluster.Guarantees.OnlineRuns

/-!
# When a delayed close is due

`PHandleFinDelay::process` adds the delay that a client asks for to the time, in an `int`. Where
the sum does not fit, the session is due at a time long past, and the next sweep removes it.
-/

set_option autoImplicit false

namespace RedisCluster.Guarantees
open Library Source

/-! ## Sweeps of any keyspace -/

section Sweep
variable {s : Keyspace}

/-- The second loop leaves sessions and pending removals alone, even if it fails. -/
theorem dropSessions_frame (names : List Str) (ofl : List RedisReply) (s : Keyspace) :
    (dropSessions names ofl s).2.zsets = s.zsets ∧
      ∀ uid lc, (dropSessions names ofl s).2.hashes (klc uid lc) = s.hashes (klc uid lc) := by
  induction names generalizing ofl s with
  | nil => exact ⟨rfl, fun _ _ => rfl⟩
  | cons name names ih =>
    rw [dropSessions]
    cases Text.cutAt '.' (name.drop 2) with
    | none => exact ⟨rfl, fun _ _ => rfl⟩
    | some pair =>
      dsimp only
      rw [Script.bind_ok (Script.ask_apply _), Script.bind_ok (Script.call_apply _)]
      have hrest : ∀ ofl, (dropSessions names ofl (s.hdel (kuid pair.1) pair.2)).2.zsets = s.zsets ∧
          ∀ uid lc, (dropSessions names ofl (s.hdel (kuid pair.1) pair.2)).2.hashes (klc uid lc) =
            s.hashes (klc uid lc) := by
        intro ofl
        obtain ⟨hzsets, hhashes⟩ := ih ofl (s.hdel (kuid pair.1) pair.2)
        refine ⟨hzsets, fun uid lc => (hhashes uid lc).trans ?_⟩
        exact Keyspace.hashes_hdel_of_ne (kuid_ne_klc _ _ _).symm
      cases s.hget (kuid pair.1) pair.2 with
      | none => exact hrest _
      | some tv => exact hrest _

/-- A session that is not due stays, and stays pending. -/
theorem sweep_keeps {st : Int} {uid lc : Str} (early : ¬ Due s st (klc uid lc)) (cn : Int) :
    (sessionStep s (.timeoutRm st cn)).hashes (klc uid lc) = s.hashes (klc uid lc) ∧
      (sessionStep s (.timeoutRm st cn)).zscore dlyCk (klc uid lc) = s.zscore dlyCk (klc uid lc) := by
  obtain ⟨hzsets, hhashes⟩ := dropSessions_frame (dueNames s st) []
    ((dueNames s st).foldl Keyspace.del s)
  have hsession : ((dueNames s st).foldl Keyspace.del s).hashes (klc uid lc) = s.hashes (klc uid lc) := by
    rw [Keyspace.hashes_dels, if_neg (mem_dueNames.not.mpr early)]
  have hscore : (dropSessions (dueNames s st) [] ((dueNames s st).foldl Keyspace.del s)).2.zscore dlyCk
      (klc uid lc) = s.zscore dlyCk (klc uid lc) :=
    Keyspace.zscore_congr ((congrFun hzsets dlyCk).trans (congrFun Keyspace.zsets_dels dlyCk))
  rw [sessionStep, runScript, timeoutRm]
  simp only [toNumber_decimal]
  rw [Script.bind_ok (Script.ask_apply _), Script.bind_ok (Script.call_apply _)]
  unfold dueNames at hhashes hsession hscore
  cases hdrop : dropSessions ((s.zrangebyscore dlyCk st).map Prod.fst) []
      (((s.zrangebyscore dlyCk st).map Prod.fst).foldl Keyspace.del s) with
  | mk result s' =>
    rw [hdrop] at hhashes hscore
    cases result with
    | error error =>
      rw [Script.bind_error hdrop]
      exact ⟨(hhashes uid lc).trans hsession, hscore⟩
    | ok ofl =>
      rw [Script.bind_ok hdrop, Script.bind_ok (Script.call_apply _)]
      refine ⟨(hhashes uid lc).trans hsession, ?_⟩
      refine Keyspace.zscore_zremrangebyscore.trans ?_
      rw [hscore]
      cases hstamp : s.zscore dlyCk (klc uid lc) with
      | none => rfl
      | some stamp =>
        have hlate : st < stamp := by
          by_contra hle
          exact early ⟨stamp, hstamp, Int.not_lt.mp hle⟩
        exact Option.filter_some_pos (decide_eq_true hlate)

end Sweep

/-! ## The stamp of a delayed close -/

/-- The session is to be removed from this stamp on, and no sweep before it removes it. -/
structure DelayKept (s : Keyspace) (uid lc stamp : Int) : Prop where
  score : s.zscore dlyCk (sessionKey uid lc) = some stamp
  stays : ∀ sweeps : List (Int × Int), (∀ sweep ∈ sweeps, sweep.1 < stamp) →
    (sweeps.foldl (fun s sweep => sessionStep s (.timeoutRm sweep.1 sweep.2)) s).has (sessionKey uid lc)

/-- A session stays until its stamp. -/
theorem delayKept_of_score {s : Keyspace} {uid lc stamp : Int}
    (score : s.zscore dlyCk (sessionKey uid lc) = some stamp) (there : s.has (sessionKey uid lc)) :
    DelayKept s uid lc stamp := by
  refine ⟨score, fun sweeps early => ?_⟩
  induction sweeps generalizing s with
  | nil => exact there
  | cons sweep sweeps ih =>
    have hearly : ¬ Due s sweep.1 (sessionKey uid lc) := by
      rintro ⟨stamp', hstamp', hle⟩
      rw [score, Option.some_inj] at hstamp'
      have := early sweep (by simp)
      omega
    obtain ⟨hsession, hscore⟩ := sweep_keeps hearly sweep.2
    apply ih
    · exact hscore.trans score
    · rw [Keyspace.has, sessionKey, hsession]
      exact there
    · exact fun sweep' h => early sweep' (List.mem_cons_of_mem _ h)

/-- A sum of two times fits, or comes out as a time long past. -/
theorem toInt32_add {now e : Int} (hnow : 0 ≤ now ∧ now < 2 ^ 31) (he : 0 ≤ e ∧ e < 2 ^ 31) :
    toInt32 (now + e) = if now + e < 2 ^ 31 then now + e else now + e - 2 ^ 32 := by
  unfold toInt32
  split
  · exact Int.bmod_eq_of_le (by omega) (by omega)
  · rw [← Int.sub_bmod_right]
    exact Int.bmod_eq_of_le (by omega) (by omega)

section Message
variable {parse : ParseFromString} {sublayerIndex pro : Str} {ph : ProHead} {now e : Int}

theorem messageRequest_finDelay (parsed : parse.proHead pro = (true, ph))
    (type : pHandle ph.type = some .finDelay) (user : 0 < ph.uid) :
    messageRequest parse now sublayerIndex pro = some (ph.uid, .finDelay
      ⟨⟨ph.conn, ⟨ph.sid, ph.rid⟩, sublayerIndex⟩, toInt32 (now + (parse.proFinDelay ph.subPro).2.expire)⟩) := by
  unfold messageRequest
  rw [parsed]
  dsimp only
  rw [if_pos ⟨rfl, user⟩, type]
  rfl

/-- What a `fin_delay` that has the gate of its session does. -/
theorem finDelay_score {s : Keyspace} {uid : Int} {proto : ProtoFinDelay}
    (gate : GateIs s (Text.decimal uid) (Text.decimal proto.head.logicConn) proto.head.sublayerIndex) :
    (sessionStep s (.request uid (.finDelay proto))).zscore dlyCk (sessionKey uid proto.head.logicConn) =
        some proto.expire ∧
      (sessionStep s (.request uid (.finDelay proto))).has (sessionKey uid proto.head.logicConn) := by
  have hrun := runScript_ok (@finDelay_apply_match _ _ (Text.decimal proto.head.idx.sendIdx)
    (Text.decimal proto.head.idx.recvIdx) _ _ _ (toNumber_decimal proto.expire) _ gate)
  have hstep : sessionStep s (.request uid (.finDelay proto)) =
      delayed (written s (Text.decimal uid)) _ _ _ := congrArg Prod.snd hrun
  have effect := delayed_effect gate proto.expire
  rw [hstep]
  exact ⟨(effect.pending _).trans (if_pos rfl), effect.session.1⟩

/-- A delayed close is done when it was asked for exactly if the sum of the time and the delay is an
`int`. Time and delay are each an `int` that is not negative, the session has the gate of the
message, and its command is answered in time. -/
theorem delay_kept_iff {plan : Nat → CmdRound} (prompt : Prompt plan) (rounds : Nat) (oc : OnlineCtrl)
    (w : World) (parsed : parse.proHead pro = (true, ph)) (type : pHandle ph.type = some .finDelay)
    (user : 0 < ph.uid) (expire : (parse.proFinDelay ph.subPro).2.expire = e)
    (delay : 0 ≤ e ∧ e < 2 ^ 31) (time : 0 ≤ now ∧ now < 2 ^ 31) (routed : masterOf oc ph.uid ≠ 0)
    (gate : GateIs (w.servers (masterOf oc ph.uid)).keys (Text.decimal ph.uid) (Text.decimal ph.conn)
      sublayerIndex) :
    DelayKept (((onlineCore (network oc.dir plan) (rounds + 3) parse).fromSublayer now sublayerIndex pro
        (oc, w)).2.2.servers (masterOf oc ph.uid)).keys ph.uid ph.conn (now + e) ↔ now + e < 2 ^ 31 := by
  have hstamp := toInt32_add time delay
  rw [fromSublayer_perform, messageRequest_finDelay parsed type user, expire]
  dsimp only
  generalize toInt32 (now + e) = stamp at hstamp ⊢
  obtain ⟨_, hkeys⟩ := perform_keys prompt rounds (oc, w) rfl ph.uid
    (.finDelay ⟨⟨ph.conn, ⟨ph.sid, ph.rid⟩, sublayerIndex⟩, stamp⟩)
  have hreaches : Reaches oc ph.uid
      (.finDelay ⟨⟨ph.conn, ⟨ph.sid, ph.rid⟩, sublayerIndex⟩, stamp⟩) (masterOf oc ph.uid) := by
    refine ⟨rfl, routed, ?_⟩
    change 9 < 2048
    decide
  rw [hkeys, if_pos hreaches]
  obtain ⟨hscore, hthere⟩ := @finDelay_score _ ph.uid
    ⟨⟨ph.conn, ⟨ph.sid, ph.rid⟩, sublayerIndex⟩, stamp⟩ gate
  constructor
  · intro kept
    by_contra hlarge
    rw [if_neg hlarge] at hstamp
    have hsame := Option.some.inj (hscore.symm.trans kept.score)
    dsimp only at hsame
    omega
  · intro fits
    rw [if_pos fits] at hstamp
    rw [← hstamp]
    exact delayKept_of_score hscore hthere

end Message

/-! ## A delay that does not fit -/

/-- Every message is a `fin_delay` of user 7 on connection 1. -/
def delayParse (expire : Int) : ParseFromString :=
  ⟨fun _ => (true, ⟨4, 1, 1, 0, 7, []⟩), fun _ => true, fun _ => (true, ⟨0, [], []⟩),
    fun _ => (true, ⟨0, []⟩), fun _ => true, fun _ => (true, ⟨expire⟩)⟩

/-- User 7 has a session with the gate `g`. -/
def gatedWorld : World :=
  ⟨fun _ => ⟨runSessions [.request 7 exampleSyn], fun _ => true⟩, 0, []⟩

theorem gatedWorld_gate : GateIs (gatedWorld.servers (masterOf exampleCtrl 7)).keys (Text.decimal 7)
    (Text.decimal 1) ['g'] := by
  change (runSessions [.request 7 exampleSyn]).hget (klc (Text.decimal 7) (Text.decimal 1)) _ = _
  decide +kernel

theorem delay_kept_iff_example :
    DelayKept (((onlineCore (network exampleCtrl.dir examplePlan) 3 (delayParse 30)).fromSublayer 1000
      ['g'] [] (exampleCtrl, gatedWorld)).2.2.servers (masterOf exampleCtrl 7)).keys 7 1 (1000 + 30) := by
  have kept := (@delay_kept_iff (delayParse 30) ['g'] [] ⟨4, 1, 1, 0, 7, []⟩ 1000 30 examplePlan
    examplePlan_prompt 0 exampleCtrl gatedWorld rfl rfl (by decide) rfl (by decide) (by decide)
    exampleCtrl_routed gatedWorld_gate).mpr (by decide)
  simp only [Nat.zero_add] at kept
  exact kept

/-- The session of user 7 is gone at the next sweep, 68 years before it was to be. -/
theorem large_delay_early :
    ¬ ∀ (plan : Nat → CmdRound) (oc : OnlineCtrl) (w : World) (parse : ParseFromString)
      (sublayerIndex pro : Str) (ph : ProHead) (now e : Int), Prompt plan →
      parse.proHead pro = (true, ph) → pHandle ph.type = some .finDelay → 0 < ph.uid →
      (parse.proFinDelay ph.subPro).2.expire = e → 0 ≤ e ∧ e < 2 ^ 31 → 0 ≤ now ∧ now < 2 ^ 31 →
      masterOf oc ph.uid ≠ 0 →
      GateIs (w.servers (masterOf oc ph.uid)).keys (Text.decimal ph.uid) (Text.decimal ph.conn)
        sublayerIndex →
      ∀ st < now + e, (sessionStep (((onlineCore (network oc.dir plan) 3 parse).fromSublayer now
        sublayerIndex pro (oc, w)).2.2.servers (masterOf oc ph.uid)).keys (.timeoutRm st (-1))).has
          (sessionKey ph.uid ph.conn) := by
  intro claim
  have hstays := claim examplePlan exampleCtrl gatedWorld (delayParse 2147483647) ['g'] []
    ⟨4, 1, 1, 0, 7, []⟩ 1000 2147483647 examplePlan_prompt rfl rfl (by decide) rfl (by decide)
    (by decide) exampleCtrl_routed gatedWorld_gate 1001 (by decide)
  dsimp only at hstays
  have hgone : (sessionStep (((onlineCore (network exampleCtrl.dir examplePlan) 3
      (delayParse 2147483647)).fromSublayer 1000 ['g'] []
      (exampleCtrl, gatedWorld)).2.2.servers (masterOf exampleCtrl 7)).keys (.timeoutRm 1001 (-1))).has
        (sessionKey 7 1) = false := by
    decide +kernel
  rw [hgone] at hstays
  cases hstays

end RedisCluster.Guarantees
