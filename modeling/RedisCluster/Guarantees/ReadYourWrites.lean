import RedisCluster.Guarantees.MultiComplete
import RedisCluster.Guarantees.ReadPaths
import RedisCluster.Guarantees.ServiceRuns
import RedisCluster.Guarantees.SessionIndex
import RedisCluster.Guarantees.StoredFields

/-!
# What messages write and `get_multi` reads

The fields that the messages of a session have written come back, and what is gone has none.
The redis that a read picks is in step with the master.
-/

set_option autoImplicit false

namespace RedisCluster.Guarantees
open Library Source

section Gather
variable {hs : List Held} {fields : List (Str × Str)}

/-- Replies with the same fields give these fields. -/
theorem gathered_same (nonempty : hs ≠ []) (same : ∀ h ∈ hs, h.fields = fields) :
    ∃ kvs, gathered hs = some kvs ∧ ∀ f, kvs[f]? = lastNamed fields f := by
  have hloop : ∀ (hs : List Held) (kvs : FieldMap), (∀ h ∈ hs, h.fields = fields) →
      (∀ f, kvs[f]? = lastNamed fields f) → ∃ kvs' : FieldMap,
        hs.foldl (fun kvs h => some (fieldMap h.fields (kvs.getD ∅))) (some kvs) = some kvs' ∧
          ∀ f, kvs'[f]? = lastNamed fields f := by
    intro hs
    induction hs with
    | nil => exact fun kvs _ hkvs => ⟨kvs, rfl, hkvs⟩
    | cons h hs ih =>
      intro kvs hsame hkvs
      refine ih _ (fun h' hh' => hsame h' (List.mem_cons_of_mem _ hh')) fun f => ?_
      rw [getElem?_fieldMap, hsame h List.mem_cons_self, Option.getD_some, hkvs, Option.or_self]
  cases hs with
  | nil => exact absurd rfl nonempty
  | cons h hs =>
    refine hloop hs _ (fun h' hh' => same h' (List.mem_cons_of_mem _ hh')) fun f => ?_
    rw [getElem?_fieldMap, same h List.mem_cons_self, Option.getD_none, Std.ExtTreeMap.getElem?_empty,
      Option.or_none]

theorem lastNamed_hgetall {s : Keyspace} {k : Str} (plain : ∀ f ∈ s.fields k, Char.ofNat 0 ∉ f) (f : Str) :
    lastNamed (s.hgetall k) f = s.hget k f := by
  have hperm : (s.hgetall k).Perm (s.fields k).toList := .refl _
  have hmap : fieldMap (s.hgetall k) ∅ = s.fields k := by
    rw [fieldMap_eq_iff hperm, comesThrough_empty]
    intro fv hfv
    have hfield := (mem_fields_of_perm hperm).mp hfv
    exact plain fv.1 (Ordered.mem_iff_getElem?.mpr ⟨fv.2, hfield⟩)
  have hget := @getElem?_fieldMap (s.hgetall k) ∅ f
  rw [hmap, Std.ExtTreeMap.getElem?_empty, Option.or_none] at hget
  exact hget.symm

end Gather

section Read
variable {oc : OnlineCtrl} {rand : Nat → Nat} {uids : List Int} {w : World} {uid lc : Int} {k : Keyspace}

/-- The redis that are read for these users have what the masters have. -/
def InStep (oc : OnlineCtrl) (rand : Nat → Nat) (uids : List Int) (w : World) : Prop :=
  ∀ (i : Nat) (uid : Int), uids[i]? = some uid →
    (w.servers (chosenRedis oc rand uid i)).keys = (w.servers (masterOf oc uid)).keys

theorem held_master (step : InStep oc rand uids w) {h : Held} (mem : h ∈ held w (dispUids oc rand uids))
    (suid : h.suid = Text.decimal uid) : uid ∈ uids ∧
      h.lc ∈ (w.servers (masterOf oc uid)).keys.fields (indexKey uid) ∧
      h.fields = (w.servers (masterOf oc uid)).keys.hgetall (klc (Text.decimal uid) h.lc) := by
  obtain ⟨addr, hgroup, hlc, hfields⟩ := mem_held.mp mem
  obtain ⟨⟨uid', i⟩, hentry, rfl, _, hsuid⟩ := inGroup_dispUids.mp hgroup
  rw [suid] at hsuid hlc hfields
  obtain rfl := Text.decimal_injective hsuid
  have hget := List.mk_mem_zipIdx_iff_getElem?.mp hentry
  rw [step i uid hget] at hlc hfields
  exact ⟨List.mem_of_getElem? hget, hlc, hfields⟩

theorem master_held (step : InStep oc rand uids w) (table : RoutingState oc.rh)
    (nonempty : oc.rh.addrs.isEmpty = false) (huid : uid ∈ uids) {lc : Str}
    (listed : lc ∈ (w.servers (masterOf oc uid)).keys.fields (indexKey uid)) :
    ∃ h ∈ held w (dispUids oc rand uids), h.suid = Text.decimal uid ∧ h.lc = lc := by
  obtain ⟨i, hi⟩ := List.getElem?_of_mem huid
  have hentry : (uid, i) ∈ uids.zipIdx := List.mk_mem_zipIdx_iff_getElem?.mpr hi
  have hchosen := (@chosenRedis_cluster oc rand table nonempty uid i).1
  refine ⟨⟨Text.decimal uid, lc, (w.servers (chosenRedis oc rand uid i)).keys.hgetall
    (klc (Text.decimal uid) lc)⟩, mem_held.mpr ⟨chosenRedis oc rand uid i, ?_, ?_, rfl⟩, rfl, rfl⟩
  · exact inGroup_dispUids.mpr ⟨(uid, i), hentry, rfl, hchosen, rfl⟩
  · dsimp only
    rw [step i uid hi]
    exact listed

/-- What the master has of a listed session is read. -/
theorem sessionsOf_listed (step : InStep oc rand uids w) (table : RoutingState oc.rh)
    (nonempty : oc.rh.addrs.isEmpty = false) (huid : uid ∈ uids)
    (hmaster : (w.servers (masterOf oc uid)).keys = k)
    (listed : Text.decimal lc ∈ k.fields (indexKey uid))
    (plain : ∀ f ∈ k.fields (sessionKey uid lc), Char.ofNat 0 ∉ f) :
    ∃ kvs, sessionsOf w (dispUids oc rand uids) uid (Text.decimal lc) = some kvs ∧
      ∀ f, kvs[f]? = k.hget (sessionKey uid lc) f := by
  subst hmaster
  obtain ⟨h, hmem, hsuid, hlc⟩ := master_held step table nonempty huid listed
  have hne : (held w (dispUids oc rand uids)).filter
      (fun h => h.suid = Text.decimal uid ∧ h.lc = Text.decimal lc) ≠ [] :=
    List.ne_nil_of_mem (List.mem_filter.mpr ⟨hmem, decide_eq_true ⟨hsuid, hlc⟩⟩)
  have hsame : ∀ h ∈ (held w (dispUids oc rand uids)).filter
      (fun h => h.suid = Text.decimal uid ∧ h.lc = Text.decimal lc),
      h.fields = (w.servers (masterOf oc uid)).keys.hgetall (sessionKey uid lc) := by
    intro h' hh'
    obtain ⟨hmem', hplace⟩ := List.mem_filter.mp hh'
    obtain ⟨hsuid', hlc'⟩ := of_decide_eq_true hplace
    rw [(held_master step hmem' hsuid').2.2, hlc']
    rfl
  obtain ⟨kvs, hkvs, hget⟩ := gathered_same hne hsame
  exact ⟨kvs, hkvs, fun f => (hget f).trans (lastNamed_hgetall plain f)⟩

/-- A session that is gone has no fields. -/
theorem sessionsOf_gone (step : InStep oc rand uids w)
    (gone : (w.servers (masterOf oc uid)).keys.has (sessionKey uid lc) = false) {kvs : FieldMap}
    (found : sessionsOf w (dispUids oc rand uids) uid (Text.decimal lc) = some kvs) : kvs = ∅ := by
  have hsome : gathered ((held w (dispUids oc rand uids)).filter
      fun h => h.suid = Text.decimal uid ∧ h.lc = Text.decimal lc) ≠ none := fun hnone =>
    absurd (hnone.symm.trans found) (by simp)
  have hempty : sessionsOf w (dispUids oc rand uids) uid (Text.decimal lc) = some ∅ := by
    refine gathered_eq_empty.mpr ⟨fun hnil => hsome (gathered_eq_none.mpr hnil), fun h hh => ?_⟩
    obtain ⟨hmem, hplace⟩ := List.mem_filter.mp hh
    obtain ⟨hsuid, hlc⟩ := of_decide_eq_true hplace
    rw [(held_master step hmem hsuid).2.2, hlc]
    exact hgetall_eq_nil.mpr gone
  exact Option.some_inj.mp (found.symm.trans hempty)

end Read

/-! ## Messages and reads -/

/-- What a read says of the sessions of these users, whose events are known. -/
structure ReadsBack (uids : List Int) (events : Int → List SessionEvent) (uidsSessions : UidsSessions) :
    Prop where
  /-- A session that is still there for more than half a second has its fields. -/
  there : ∀ uid ∈ uids, ∀ lc session, (sessionAfter uid lc (events uid)).session = some session →
    (sessionAfter uid lc (events uid)).now + 500 < session.expireAt →
    (∀ f, session.fields f ≠ none → Char.ofNat 0 ∉ f) →
    ∃ kvs, Ordered.lookup₂ uidsSessions uid (Text.decimal lc) = some kvs ∧
      ∀ f, kvs[f]? = session.fields f
  /-- A session that is gone may be listed, without fields. -/
  gone : ∀ uid lc kvs, (sessionAfter uid lc (events uid)).session = none →
    Ordered.lookup₂ uidsSessions uid (Text.decimal lc) = some kvs → kvs = ∅
  /-- Nobody else is. -/
  asked : ∀ uid lc kvs, Ordered.lookup₂ uidsSessions uid lc = some kvs → uid ∈ uids

/-- Where every user's master has what these events have made of it, `get_multi` reads that. -/
theorem getMulti_readsBack {plan : Nat → CmdRound} (prompt : Prompt plan) {oc oc' : OnlineCtrl}
    (hstate : RoutingState oc.rh) (nonempty : oc.rh.addrs.isEmpty = false) (htable : SameTable oc oc')
    {w' : World} {events : Int → List SessionEvent}
    (hmaster : ∀ uid, (w'.servers (masterOf oc uid)).keys = runSessions (events uid)) (rounds : Nat)
    (rand : Nat → Nat) (uids : List Int) (short : uids.length ≤ 2044)
    (numbers : ∀ uid ∈ uids, IsDouble uid) (step : InStep oc rand uids w') :
    ∃ uidsSessions w'', oc'.getMulti (network oc.dir plan) (rounds + 2) rand uids w' =
        some (uidsSessions, w'') ∧ ReadsBack uids events uidsSessions := by
  obtain ⟨hdir, hrh, hhash⟩ := htable
  have hdisp : dispUids oc' rand uids = dispUids oc rand uids := by
    unfold dispUids
    rw [hrh, hhash]
  have hfits := @fits_of_short oc rand uids w' hstate nonempty short numbers
  obtain ⟨uidsSessions, w'', hcall, returns⟩ := getMulti_apply oc' prompt rand uids w' rounds
  have hreturns : ReturnsSent oc rand uids w' uidsSessions := by
    intro uid lc
    rw [returns, hdisp]
  have hlookup : ∀ uid lc, Ordered.lookup₂ uidsSessions uid lc =
      sessionsOf w' (dispUids oc rand uids) uid lc := fun uid lc => by
    rw [hreturns.lookup_eq hfits.numbers, hfits.same]
  refine ⟨uidsSessions, w'', by rw [← hdir]; exact hcall, ?_, ?_, ?_⟩
  · intro uid huid lc session hsession hlong hplain
    have hstores := stores_after uid lc (events uid)
    have hstored := hstores.there session hsession
    obtain ⟨stamp, hstamp, hindexed⟩ := runSessions_indexed (events uid) uid lc hstored.has
    have hexpire : session.expireAt = stamp := Option.some_inj.mp (hstored.expireAt.symm.trans hstamp)
    have hlisted : Text.decimal lc ∈ (runSessions (events uid)).fields (indexKey uid) := by
      rcases hindexed with hshort | ⟨_, hlisted, _⟩
      · rw [hstores.now] at hshort
        omega
      · exact hlisted
    have hnames : ∀ f ∈ (runSessions (events uid)).fields (sessionKey uid lc), Char.ofNat 0 ∉ f := by
      intro f hf
      obtain ⟨v, hv⟩ := Keyspace.mem_fields_iff.mp hf
      refine hplain f ?_
      rw [← hstored.fields, hv]
      simp
    obtain ⟨kvs, hkvs, hget⟩ := sessionsOf_listed step hstate nonempty huid (hmaster uid) hlisted hnames
    refine ⟨kvs, (hlookup _ _).trans hkvs, fun f => ?_⟩
    rw [hget, hstored.fields]
  · intro uid lc kvs hsession hfound
    rw [hlookup] at hfound
    refine sessionsOf_gone step ?_ hfound
    rw [hmaster]
    exact (stores_after uid lc _).gone hsession
  · intro uid lc kvs hfound
    rw [hlookup] at hfound
    obtain ⟨h, hh⟩ := List.exists_mem_of_ne_nil _ fun hnil =>
      absurd ((gathered_eq_none.mpr hnil).symm.trans hfound) (by simp)
    obtain ⟨hmem, hplace⟩ := List.mem_filter.mp hh
    exact (held_master step hmem (of_decide_eq_true hplace).1).1

/-- `get_multi` after any messages, sweeps and times brings what the messages of each session have
made of it. The hooks make the synchronous calls; at most 2044 users are asked for, and their
numbers are doubles, as those that `get_multi.lua` sends back are Lua numbers. The redis that is
read has what the master has: replication itself is not modelled. -/
theorem messages_read_back {plan : Nat → CmdRound} (prompt : Prompt plan) (oc : OnlineCtrl)
    (routine : Sorting sortClusterFun) (ds : List (Except ZkError (List Str)))
    (table : oc.rh = runDeliveries routine ds) (nonempty : oc.rh.addrs.isEmpty = false)
    (parse : ParseFromString) (w : World) (fresh : ∀ addr, (w.servers addr).keys = .empty)
    (es : List ServiceEvent) (rounds : Nat) (oc' : OnlineCtrl) (w' : World)
    (run : serviceRun (network oc.dir plan) (rounds + 3) parse (oc, w) es = (oc', w'))
    (rand : Nat → Nat) (uids : List Int) (short : uids.length ≤ 2044)
    (numbers : ∀ uid ∈ uids, IsDouble uid) (step : InStep oc rand uids w') :
    ∃ uidsSessions w'', oc'.getMulti (network oc.dir plan) (rounds + 2) rand uids w' =
        some (uidsSessions, w'') ∧
      ReadsBack uids (fun uid => eventsOf oc parse uid es) uidsSessions := by
  obtain ⟨htable, hkeys⟩ := serviceRun_keys prompt rounds parse (oc, w) rfl (fun _ => []) fresh es
  rw [run] at htable hkeys
  exact getMulti_readsBack prompt (table ▸ routingState_runDeliveries ds) nonempty htable
    (fun uid => hkeys (masterOf oc uid)) rounds rand uids short numbers step

theorem oneRedis_chosen (uid : Int) (i : Nat) :
    chosenRedis oneRedis (fun _ => 0) uid i = masterOf oneRedis uid := by
  have hcluster : clusterOf oneRedis.rh (fun _ => 0) [] = some (1, [exampleMaster]) := by
    decide +kernel
  change redisAddrSlaveFirst oneRedis.rh (fun _ => 0) 0 [] = redisAddrMaster oneRedis.rh (fun _ => 0) []
  rw [redisAddrSlaveFirst, redisAddrMaster, hcluster]
  rfl

/-- A session is opened, a minute passes, and a turn finds nothing to remove. -/
theorem messages_read_back_example : ∃ uidsSessions w'',
    (serviceRun (network oneRedis.dir examplePlan) 3 versionParse (oneRedis, freshWorld)
      [.message 5 ['g'] ['s'], .elapse 60000, .sweep 65]).1.getMulti (network oneRedis.dir examplePlan) 2
        (fun _ => 0) [7]
        (serviceRun (network oneRedis.dir examplePlan) 3 versionParse (oneRedis, freshWorld)
          [.message 5 ['g'] ['s'], .elapse 60000, .sweep 65]).2 = some (uidsSessions, w'') ∧
    ReadsBack [7] (fun uid => eventsOf oneRedis versionParse uid
      [.message 5 ['g'] ['s'], .elapse 60000, .sweep 65]) uidsSessions := by
  refine messages_read_back examplePlan_prompt oneRedis (Sorting.prefers 0)
    [.ok ["1;10.0.0.7:6379".toList]] rfl oneRedis_nonempty versionParse freshWorld (fun _ => rfl)
    [.message 5 ['g'] ['s'], .elapse 60000, .sweep 65] 0 _ _ Prod.mk.eta.symm (fun _ => 0) [7]
    (by decide) ?_ ?_
  · intro uid huid
    rw [List.mem_singleton.mp huid]
    exact ⟨7, 0, by decide, rfl⟩
  · intro i uid _
    rw [oneRedis_chosen]

end RedisCluster.Guarantees
