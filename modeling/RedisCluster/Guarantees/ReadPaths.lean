import RedisCluster.Guarantees.ExactSweep
import RedisCluster.Guarantees.MultiReads

/-!
# The two ways to read a session

The requests keep sessions in `L.uid.lc`, which `get_multi` reads; `get_session_info` reads
`S.uid.lc`.
-/

set_option autoImplicit false

namespace RedisCluster.Guarantees
open Library Source

/-! ## Keys that no script writes -/

/-- Neither an index nor a session is kept under this key. -/
def Unused (k : Str) : Prop := ∀ uid lc, k ≠ kuid uid ∧ k ≠ klc uid lc

theorem unused_info (uid sn : Str) : Unused ("S.".toList ++ uid ++ '.' :: sn) := by
  intro uid' lc
  constructor
  · intro heq
    cases (List.cons.inj heq).1
  · intro heq
    cases (List.cons.inj heq).1

section Steps
variable {s s' : Keyspace} {k : Str}

/-- An effect keeps such a key absent. -/
theorem Effect.unused {e : SessionEvent} (effect : Effect s (sessionStep s e) e)
    (names : SessionNames s) (unused : Unused k) (absent : s.hashes k = none) :
    (sessionStep s e).hashes k = none := by
  have hframe : (∀ k, Unused k → (sessionStep s e).hashes k = s.hashes k) →
      (sessionStep s e).hashes k = none := fun frame => (frame k unused).trans absent
  cases effect with
  | synced _ effect => exact hframe fun k h => effect.frame k (h _ []).1 (h _ _).2
  | closed effect => exact hframe fun k h => effect.frame k (h _ []).1 (h _ _).2
  | delayed _ effect => exact hframe fun k h => effect.frame k (h _ _).2
  | passed _ effect => exact hframe fun k _ => effect.frame k
  | refused _ _ effect => exact hframe fun k _ => effect.frame k
  | @swept st cn _ =>
    refine hframe fun k h => ?_
    obtain ⟨ofl, hrun⟩ := timeoutRm_apply names.named (toNumber_decimal st) (Text.decimal cn)
    rw [sessionStep, runScript_ok hrun]
    exact (swept_exactly names st).frame k fun uid lc _ => ⟨(h _ _).2, (h _ []).1⟩
  | elapsed effect =>
    rw [effect, Keyspace.hashes_elapse, absent]
    rfl

end Steps

theorem runSessions_unused (es : List SessionEvent) {k : Str} (unused : Unused k) :
    (runSessions es).hashes k = none := by
  induction es using List.reverseRecOn with
  | nil => rfl
  | append_singleton es e ih =>
    rw [runSessions_snoc]
    have names := sessionNames_runSessions es
    exact (sessionStep_effect names.named e).unused names unused ih

/-! ## `get_session_info` -/

section Info
variable {oc : OnlineCtrl} {plan : Nat → CmdRound} {w : World}

theorem answerOf_getSessionInfo (suid session : Str) (argv : UInt64 → List Str) (addr : UInt64) :
    answerOf .getSessionInfo (fun _ => [suid, session]) argv w addr =
      .array (((w.servers addr).keys.hgetall ("S.".toList ++ suid ++ '.' :: session)).flatMap fun fv =>
        [.bulk fv.1, .bulk fv.2]) := rfl

/-- Nothing is found where nothing is written. -/
theorem sessionInfo_empty {rv : RedisRvs}
    (empty : ∀ (addr : UInt64) (v : RedisRv), rv[addr]? = some v →
      v = redisrvsAdd (.array []) .fresh) : sessionInfo rv = ∅ := by
  have hloop : ∀ entries : List (UInt64 × RedisRv),
      (∀ entry ∈ entries, entry.2 = redisrvsAdd (.array []) .fresh) →
      entries.foldl (fun kvs entry =>
        if entry.2.type = .array then addPairs entry.2.element kvs else kvs) (∅ : FieldMap) = ∅ := by
    intro entries
    induction entries with
    | nil => exact fun _ => rfl
    | cons entry entries ih =>
      intro hentries
      rw [List.foldl_cons, hentries entry List.mem_cons_self, if_pos type_array, element_array]
      exact ih fun entry' hentry => hentries entry' (List.mem_cons_of_mem _ hentry)
  refine hloop rv.toList fun entry hentry => ?_
  exact empty _ _ (Std.ExtTreeMap.mem_toList_iff_getElem?_eq_some.mp hentry)

/-- The one command of `get_session_info`. -/
def infoCmd (oc : OnlineCtrl) (uid : Int) (session : Str) (ks : List Str) : Commands :=
  (∅ : Commands).insert (masterOf oc uid) ("EVALSHA".toList :: oc.dir.sha1 .getSessionInfo ::
    "2".toList :: Text.decimal uid :: session :: ks)

theorem getSessionInfo_eq (net : RedisNetwork World) (rounds : Nat) (uid : Int) (session : Str)
    (ks : List Str) : oc.getSessionInfo net rounds uid session ks w =
      (if masterOf oc uid = 0 then some (∅, w)
        else cmd net (oc.dir.data .getSessionInfo) rounds false (infoCmd oc uid session ks) ∅ w).map
          fun x => (sessionInfo x.1, x.2) := by
  have hcall : oc.getSessionInfo net rounds uid session ks w = (if masterOf oc uid = 0 then some (∅, w)
      else cmd net (oc.dir.data .getSessionInfo) rounds false (infoCmd oc uid session ks) ∅ w).bind
        fun x => some (sessionInfo x.1, x.2) := rfl
  rw [hcall]
  exact Option.map_eq_bind.symm

theorem infoCmd_evals (uid : Int) (session : Str) (ks : List Str) : Evals oc.dir .getSessionInfo
    (fun _ => [Text.decimal uid, session]) (fun _ => ks) (infoCmd oc uid session ks) := by
  intro addr args hargs
  have htwo : Text.decimal (([Text.decimal uid, session].length : Nat) : Int) = "2".toList := by
    rw [List.length_cons, List.length_cons, List.length_nil]
    decide
  rw [(insert_get.mp hargs).2, htwo]
  rfl

/-- It finds no field of any session. -/
theorem getSessionInfo_apply (prompt : Prompt plan) (uid : Int) (session : Str) (ks : List Str)
    (es : List SessionEvent) (reached : (w.servers (masterOf oc uid)).keys = runSessions es)
    (rounds : Nat) : ∃ w',
      oc.getSessionInfo (network oc.dir plan) (rounds + 2) uid session ks w = some (∅, w') := by
  have hkeys : (w.servers (masterOf oc uid)).keys.hgetall
      ("S.".toList ++ Text.decimal uid ++ '.' :: session) = [] := by
    rw [reached, Keyspace.hgetall, Keyspace.fields, runSessions_unused es (unused_info _ _)]
    rfl
  rw [getSessionInfo_eq]
  by_cases routed : masterOf oc uid = 0
  · have hempty : sessionInfo ∅ = ∅ := sessionInfo_empty fun addr v hv => by
      rw [Std.ExtTreeMap.getElem?_empty] at hv
      cases hv
    rw [if_pos routed, Option.map_some, hempty]
    exact ⟨w, rfl⟩
  · have fine : ∀ addr, Asks (infoCmd oc uid session ks) addr → (answerOf .getSessionInfo
        (fun _ => [Text.decimal uid, session]) (fun _ => ks) w addr).type ≠ .error := by
      intro addr _ herror
      cases herror
    obtain ⟨rv, w', hcmd, hran⟩ := prompt.cmd_evals (infoCmd_evals uid session ks) fine rounds
    have hempty : sessionInfo rv = ∅ := by
      refine sessionInfo_empty fun addr v hv => ?_
      rcases (hran.answers addr v).mp hv with hold | ⟨asks, rfl⟩
      · rw [Std.ExtTreeMap.getElem?_empty] at hold
        cases hold
      · rw [answerOf_getSessionInfo, (asks_insert.mp asks).1, hkeys]
        rfl
    rw [if_neg routed, hcmd, Option.map_some, hempty]
    exact ⟨w', rfl⟩

end Info

/-! ## Both -/

/-- No field is under a key whose sessions all have none. -/
theorem gathered_eq_empty {hs : List Held} :
    gathered hs = some ∅ ↔ hs ≠ [] ∧ ∀ h ∈ hs, h.fields = [] := by
  have hgrows : ∀ (fields : List (Str × Str)) (kvs : FieldMap),
      fieldMap fields kvs = ∅ ↔ fields = [] ∧ kvs = ∅ := by
    intro fields
    induction fields with
    | nil => simp [fieldMap]
    | cons fv fields ih =>
      intro kvs
      rw [fieldMap, List.foldl_cons, ← fieldMap, ih]
      simp
  have hloop : ∀ (hs : List Held) (kvs : FieldMap),
      hs.foldl (fun kvs h => some (fieldMap h.fields (kvs.getD ∅))) (some kvs) = some ∅ ↔
        kvs = ∅ ∧ ∀ h ∈ hs, h.fields = [] := by
    intro hs
    induction hs with
    | nil => simp
    | cons h hs ih =>
      intro kvs
      rw [List.foldl_cons, ih, Option.getD_some, hgrows, List.forall_mem_cons]
      exact ⟨fun x => ⟨x.1.2, x.1.1, x.2⟩, fun x => ⟨⟨x.2.1, x.1⟩, x.2.2⟩⟩
  cases hs with
  | nil => simp [gathered]
  | cons h hs =>
    rw [gathered, List.foldl_cons, hloop, Option.getD_none, hgrows, List.forall_mem_cons]
    simp

/-- Some user of these groups whose uid Lua reads as this one lists the connection, and none of
those that do has the session. -/
structure OnlyGone (w : World) (disp : DispUids) (uid lc : Int) : Prop where
  listed : ∃ addr u, InGroup disp addr (Text.decimal u) ∧ double u = uid ∧
    Text.decimal lc ∈ (w.servers addr).keys.fields (indexKey u)
  gone : ∀ addr u, InGroup disp addr (Text.decimal u) → double u = uid →
    Text.decimal lc ∈ (w.servers addr).keys.fields (indexKey u) →
      (w.servers addr).keys.has (sessionKey u lc) = false

theorem hgetall_eq_nil {s : Keyspace} {k : Str} : s.hgetall k = [] ↔ s.has k = false := by
  rw [← Bool.not_eq_true, Keyspace.has_iff, Bool.not_eq_false, Keyspace.hgetall,
    ← List.isEmpty_iff, Std.ExtTreeMap.isEmpty_toList]

section Paths
variable {oc : OnlineCtrl} {rand : Nat → Nat} {uids : List Int} {w : World} {uid lc : Int}

theorem inGroup_sent {addr : UInt64} {suid : Str}
    (group : InGroup (sentGroups (dispUids oc rand uids)) addr suid) :
    InGroup (dispUids oc rand uids) addr suid := by
  obtain ⟨suids, hsuids, hmem⟩ := group
  exact ⟨suids, (sentGroups_get.mp hsuids).1, hmem⟩

/-- The sessions that come under these two keys. -/
theorem mem_placed {h : Held} :
    h ∈ (held w (sentGroups (dispUids oc rand uids))).filter
        (fun h => h.place = some (uid, Text.decimal lc)) ↔
      ∃ addr u, InGroup (sentGroups (dispUids oc rand uids)) addr (Text.decimal u) ∧ double u = uid ∧
        Text.decimal lc ∈ (w.servers addr).keys.fields (indexKey u) ∧
        h = ⟨Text.decimal u, Text.decimal lc, (w.servers addr).keys.hgetall (sessionKey u lc)⟩ := by
  rw [List.mem_filter, decide_eq_true_eq, mem_held]
  constructor
  · rintro ⟨⟨addr, hgroup, hlc, hfields⟩, hplace⟩
    obtain ⟨suid, lc', fields⟩ := h
    dsimp only at hgroup hlc hfields
    obtain ⟨⟨u, _⟩, _, _, _, rfl⟩ := inGroup_dispUids.mp (inGroup_sent hgroup)
    rw [place_decimal rfl, Option.some.injEq, Prod.mk.injEq] at hplace
    obtain ⟨hu, rfl⟩ := hplace
    rw [hfields]
    exact ⟨addr, u, hgroup, hu, hlc, rfl⟩
  · rintro ⟨addr, u, hgroup, hu, hlc, rfl⟩
    exact ⟨⟨addr, hgroup, hlc, rfl⟩, by rw [place_decimal rfl, hu]⟩

theorem ReturnsSent.empty_iff {uidsSessions : UidsSessions}
    (returns : ReturnsSent oc rand uids w uidsSessions) :
    Ordered.lookup₂ uidsSessions uid (Text.decimal lc) = some ∅ ↔
      OnlyGone w (sentGroups (dispUids oc rand uids)) uid lc := by
  rw [returns, gathered_eq_empty]
  constructor
  · rintro ⟨hne, hempty⟩
    obtain ⟨h, hmem⟩ := List.exists_mem_of_ne_nil _ hne
    obtain ⟨addr, u, hgroup, hu, hlc, _⟩ := mem_placed.mp hmem
    refine ⟨⟨addr, u, hgroup, hu, hlc⟩, fun addr u hgroup hu hlc => ?_⟩
    exact hgetall_eq_nil.mp (hempty _ (mem_placed.mpr ⟨addr, u, hgroup, hu, hlc, rfl⟩))
  · rintro ⟨⟨addr, u, hgroup, hu, hlc⟩, hgone⟩
    refine ⟨List.ne_nil_of_mem (mem_placed.mpr ⟨addr, u, hgroup, hu, hlc, rfl⟩), fun h hmem => ?_⟩
    obtain ⟨addr, u, hgroup, hu, hlc, rfl⟩ := mem_placed.mp hmem
    exact hgetall_eq_nil.mpr (hgone addr u hgroup hu hlc)

end Paths

/-- `get_session_info` never finds a field, so the two agree only where `get_multi` lists a
connection whose session is gone. Both calls return whatever the table is. The redis of the user has
what some run of the session scripts leaves. -/
theorem read_paths_agree_iff {plan : Nat → CmdRound} (prompt : Prompt plan) (oc : OnlineCtrl)
    (uid lc : Int) (ks : List Str) (rand : Nat → Nat) (uids : List Int) (w : World)
    (es : List SessionEvent) (reached : (w.servers (masterOf oc uid)).keys = runSessions es)
    (rounds : Nat) :
    ∃ info w₁ uidsSessions w₂,
      oc.getSessionInfo (network oc.dir plan) (rounds + 2) uid (Text.decimal lc) ks w =
        some (info, w₁) ∧
      oc.getMulti (network oc.dir plan) (rounds + 2) rand uids w = some (uidsSessions, w₂) ∧
      (Ordered.lookup₂ uidsSessions uid (Text.decimal lc) = some info ↔
        OnlyGone w (sentGroups (dispUids oc rand uids)) uid lc) := by
  obtain ⟨w₁, hinfo⟩ := getSessionInfo_apply prompt uid (Text.decimal lc) ks es reached rounds
  obtain ⟨uidsSessions, w₂, hmulti, returns⟩ := getMulti_apply oc prompt rand uids w rounds
  exact ⟨∅, w₁, uidsSessions, w₂, hinfo, hmulti, returns.empty_iff⟩

/-- The redis of user 7 after these events; nothing was asked of it yet. -/
def worldAfter (es : List SessionEvent) : World :=
  ⟨fun _ => ⟨runSessions es, fun _ => false⟩, 0, []⟩

/-- `SYN` of user 7 on this connection. -/
def synOn (conn : Int) : SessionEvent :=
  .request 7 (.syn ⟨⟨conn, ⟨1, 0⟩, ['g']⟩, 0, 100, ['v'], []⟩)

theorem inGroup_seven {addr : UInt64} {u : Int} : InGroup (sentGroups (dispUids exampleCtrl (fun _ => 0)
    [7])) addr (Text.decimal u) ↔ addr = exampleMaster ∧ u = 7 := by
  have hchosen : chosenRedis exampleCtrl (fun _ => 0) 7 0 = exampleMaster := by decide +kernel
  have hne : exampleMaster ≠ 0 := by decide +kernel
  constructor
  · intro group
    obtain ⟨entry, hentry, haddr, _, hu⟩ := inGroup_dispUids.mp (inGroup_sent group)
    obtain rfl := List.mem_singleton.mp hentry
    exact ⟨haddr.symm.trans hchosen, Text.decimal_injective hu⟩
  · rintro ⟨rfl, rfl⟩
    have hgroup : InGroup (dispUids exampleCtrl (fun _ => 0) [7]) exampleMaster (Text.decimal 7) :=
      inGroup_dispUids.mpr ⟨(7, 0), List.mem_singleton.mpr rfl, hchosen, hne, rfl⟩
    obtain ⟨suids, hsuids, hmem⟩ := hgroup
    have hsize := group_size_le hsuids
    refine ⟨suids, sentGroups_get.mpr ⟨hsuids, ?_⟩, hmem⟩
    rw [List.length_singleton] at hsize
    rw [argvMaxLen]
    omega

/-- The session of connection 1 has expired; the one of connection 2 keeps its entry. -/
def staleEvents : List SessionEvent := [synOn 1, .elapse 500000, synOn 2, .elapse 200000]

theorem read_paths_agree_example :
    ∃ info w₁ uidsSessions w₂,
      exampleCtrl.getSessionInfo (network exampleDir examplePlan) 2 7 (Text.decimal 1) []
        (worldAfter staleEvents) = some (info, w₁) ∧
      exampleCtrl.getMulti (network exampleDir examplePlan) 2 (fun _ => 0) [7]
        (worldAfter staleEvents) = some (uidsSessions, w₂) ∧
      Ordered.lookup₂ uidsSessions 7 (Text.decimal 1) = some info := by
  obtain ⟨info, w₁, uidsSessions, w₂, hinfo, hmulti, hagree⟩ := read_paths_agree_iff
    examplePlan_prompt exampleCtrl 7 1 [] (fun _ => 0) [7] (worldAfter staleEvents) staleEvents rfl 0
  refine ⟨info, w₁, uidsSessions, w₂, hinfo, hmulti, hagree.mpr ⟨?_, ?_⟩⟩
  · exact ⟨exampleMaster, 7, inGroup_seven.mpr ⟨rfl, rfl⟩, by decide, by decide +kernel⟩
  · intro addr u hgroup _ _
    obtain ⟨rfl, rfl⟩ := inGroup_seven.mp hgroup
    decide +kernel

/-- `get_multi` finds the fields of a fresh session, `get_session_info` none. -/
theorem session_info_missed :
    (runSessions [synOn 1]).has (sessionKey 7 1) ∧ ∃ info w₁ uidsSessions w₂,
      exampleCtrl.getSessionInfo (network exampleDir examplePlan) 2 7 (Text.decimal 1) []
        (worldAfter [synOn 1]) = some (info, w₁) ∧
      exampleCtrl.getMulti (network exampleDir examplePlan) 2 (fun _ => 0) [7]
        (worldAfter [synOn 1]) = some (uidsSessions, w₂) ∧
      Ordered.lookup₂ uidsSessions 7 (Text.decimal 1) ≠ some info := by
  have hthere : (runSessions [synOn 1]).has (sessionKey 7 1) = true := by decide +kernel
  have hlisted : Text.decimal 1 ∈ (runSessions [synOn 1]).fields (indexKey 7) := by decide +kernel
  obtain ⟨w₁, hinfo⟩ := @getSessionInfo_apply exampleCtrl _ (worldAfter [synOn 1]) examplePlan_prompt 7
    (Text.decimal 1) [] [synOn 1] rfl 0
  obtain ⟨uidsSessions, w₂, hmulti, returns⟩ := getMulti_apply exampleCtrl examplePlan_prompt
    (fun _ => 0) [7] (worldAfter [synOn 1]) 0
  refine ⟨hthere, ∅, w₁, uidsSessions, w₂, hinfo, hmulti, ?_⟩
  rw [Ne, returns.empty_iff]
  intro onlyGone
  have hgone := onlyGone.gone exampleMaster 7 (inGroup_seven.mpr ⟨rfl, rfl⟩) (by decide) hlisted
  exact absurd (hthere.symm.trans hgone) (by decide)

end RedisCluster.Guarantees
