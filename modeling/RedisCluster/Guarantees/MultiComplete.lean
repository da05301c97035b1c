import RedisCluster.Guarantees.MultiReads
import RedisCluster.Guarantees.RoutingTable

/-!
# Whether `get_multi` asks for every user

`get_multi` sends one command to each redis, however many users it picks that redis for, and
`cmd` leaves out a command of 2048 arguments or more.
-/

set_option autoImplicit false

namespace RedisCluster.Guarantees
open Library Source

/-- The fields that the redis of these groups have for a session, if one of them lists it. -/
def sessionsOf (w : World) (disp : DispUids) (uid : Int) (lc : Str) : Option FieldMap :=
  gathered ((held w disp).filter fun h => h.suid = Text.decimal uid ∧ h.lc = lc)

section Complete
variable (oc : OnlineCtrl) (rand : Nat → Nat) (uids : List Int) (w : World)

/-- The commands that go out. -/
def multiSent : Commands := sendable (multiCommands oc (dispUids oc rand uids))

/-- A command goes out for every uid to a redis of its cluster and says how many keys it has, and
the caller gets the sessions that the picked redis hold for the uids. -/
structure AnswersAll (uidsSessions : UidsSessions) : Prop where
  asked : ∀ uid ∈ uids, ∃ addr cls rds args,
    clusterOf oc.rh oc.cityHash64 (Text.decimal uid) = some (cls, rds) ∧
      rds[0]? = some (redisAddrMaster oc.rh oc.cityHash64 (Text.decimal uid)) ∧ addr ∈ rds ∧
      (multiSent oc rand uids)[addr]? = some args ∧ Text.decimal uid ∈ args.drop 3
  counted : ∀ (addr : UInt64) (args : List Str), (multiSent oc rand uids)[addr]? = some args →
    args[2]? = some (Text.decimal (args.drop 3).length)
  sessions : ∀ uid lc, Ordered.lookup₂ uidsSessions uid lc =
    sessionsOf w (dispUids oc rand uids) uid lc

/-- Every uid is in a group whose command is sent, these groups hold what all groups do, and a Lua
number keeps every uid that has a session. -/
structure Fits : Prop where
  small : ∀ uid ∈ uids, ∃ (addr : UInt64) (suids : Std.ExtTreeSet Str),
    (dispUids oc rand uids)[addr]? = some suids ∧ Text.decimal uid ∈ suids ∧ suids.size ≤ 2044
  same : ∀ uid lc, sessionsOf w (sentGroups (dispUids oc rand uids)) uid lc =
    sessionsOf w (dispUids oc rand uids) uid lc
  numbers : ∀ uid ∈ uids, (∃ h ∈ held w (dispUids oc rand uids), h.suid = Text.decimal uid) →
    double uid = uid

variable {oc rand uids w}

theorem multiSent_counted (addr : UInt64) (args : List Str)
    (h : (multiSent oc rand uids)[addr]? = some args) :
    args[2]? = some (Text.decimal (args.drop 3).length) := by
  obtain ⟨suids, _, rfl⟩ := sendable_multiCommands.mp h
  change some (Text.decimal (suids.size : Int)) = some (Text.decimal (suids.toList.length : Int))
  rw [Std.ExtTreeSet.length_toList]

/-- The groups that are sent are some of all groups. -/
theorem held_sent {h : Held} (sent : h ∈ held w (sentGroups (dispUids oc rand uids))) :
    h ∈ held w (dispUids oc rand uids) := by
  obtain ⟨addr, ⟨suids, hsuids, hmem⟩, hlc, hfields⟩ := mem_held.mp sent
  exact mem_held.mpr ⟨addr, ⟨suids, (sentGroups_get.mp hsuids).1, hmem⟩, hlc, hfields⟩

/-- Sessions are held for uids of the list. -/
theorem held_uid {h : Held} (mem : h ∈ held w (dispUids oc rand uids)) :
    ∃ uid ∈ uids, h.suid = Text.decimal uid := by
  obtain ⟨addr, hgroup, _, _⟩ := mem_held.mp mem
  obtain ⟨entry, hentry, _, _, hsuid⟩ := inGroup_dispUids.mp hgroup
  exact ⟨entry.1, List.fst_mem_of_mem_zipIdx hentry, hsuid⟩

theorem sessionsOf_ne_none {disp : DispUids} {uid : Int} {h : Held} (mem : h ∈ held w disp)
    (suid : h.suid = Text.decimal uid) : sessionsOf w disp uid h.lc ≠ none := by
  intro hnone
  have hnil := gathered_eq_none.mp hnone
  have hmem : h ∈ (held w disp).filter fun h' => h'.suid = Text.decimal uid ∧ h'.lc = h.lc :=
    List.mem_filter.mpr ⟨mem, decide_eq_true ⟨suid, rfl⟩⟩
  rw [hnil] at hmem
  cases hmem

/-- Where Lua keeps the uids, the sessions come under their own. -/
theorem ReturnsSent.lookup_eq {uidsSessions : UidsSessions}
    (returns : ReturnsSent oc rand uids w uidsSessions)
    (numbers : ∀ uid ∈ uids, (∃ h ∈ held w (dispUids oc rand uids), h.suid = Text.decimal uid) →
      double uid = uid) (uid : Int) (lc : Str) : Ordered.lookup₂ uidsSessions uid lc =
        sessionsOf w (sentGroups (dispUids oc rand uids)) uid lc := by
  rw [returns, sessionsOf]
  congr 1
  refine List.filter_congr fun h hmem => ?_
  obtain ⟨uid', huid', hsuid⟩ := held_uid (held_sent hmem)
  rw [place_decimal hsuid, numbers uid' huid' ⟨h, held_sent hmem, hsuid⟩, hsuid, decide_eq_decide,
    Option.some.injEq, Prod.mk.injEq]
  exact and_congr_left' ⟨congrArg _, fun heq => Text.decimal_injective heq⟩

/-- A uid that Lua rounds is found under no key. -/
theorem ReturnsSent.numbers_of_sessions {uidsSessions : UidsSessions}
    (returns : ReturnsSent oc rand uids w uidsSessions)
    (sessions : ∀ uid lc, Ordered.lookup₂ uidsSessions uid lc =
      sessionsOf w (dispUids oc rand uids) uid lc) {uid : Int}
    (there : ∃ h ∈ held w (dispUids oc rand uids), h.suid = Text.decimal uid) : double uid = uid := by
  obtain ⟨h, hmem, hsuid⟩ := there
  have hsome := sessionsOf_ne_none hmem hsuid
  rw [← sessions, returns] at hsome
  obtain ⟨h', hh'⟩ := List.exists_mem_of_ne_nil _ fun hnil => hsome (gathered_eq_none.mpr hnil)
  obtain ⟨hmem', hplace⟩ := List.mem_filter.mp hh'
  obtain ⟨uid', _, hsuid'⟩ := held_uid (held_sent hmem')
  rw [place_decimal hsuid', decide_eq_true_eq, Option.some.injEq, Prod.mk.injEq] at hplace
  rw [← hplace.1]
  exact double_double uid'

/-- A redis is picked from the cluster of its user. -/
theorem chosenRedis_cluster (table : RoutingState oc.rh) (nonempty : oc.rh.addrs.isEmpty = false)
    (uid : Int) (i : Nat) : chosenRedis oc rand uid i ≠ 0 ∧ ∃ cls rds,
      clusterOf oc.rh oc.cityHash64 (Text.decimal uid) = some (cls, rds) ∧
        rds[0]? = some (redisAddrMaster oc.rh oc.cityHash64 (Text.decimal uid)) ∧
        chosenRedis oc rand uid i ∈ rds := by
  obtain ⟨cls, rds, picks⟩ := table.picks nonempty oc.cityHash64 (rand i) (Text.decimal uid)
  have hmem : chosenRedis oc rand uid i ∈ rds := List.mem_of_getElem? picks.slave
  have hcluster : clusterOf oc.rh oc.cityHash64 (Text.decimal uid) = some (cls, rds) := by
    rw [clusterOf, if_neg, picks.cluster]
    rintro (hempty | hnil)
    · rw [nonempty] at hempty
      cases hempty
    · rw [table.addrsV_nil_iff, nonempty] at hnil
      cases hnil
  exact ⟨picks.nonzero _ hmem, cls, rds, hcluster, picks.master, hmem⟩

/-- A group of up to 2044 uids is asked. -/
theorem asked_of_small (table : RoutingState oc.rh) (nonempty : oc.rh.addrs.isEmpty = false) {uid : Int}
    {addr : UInt64} {suids : Std.ExtTreeSet Str} (group : (dispUids oc rand uids)[addr]? = some suids)
    (mem : Text.decimal uid ∈ suids) (size : suids.size ≤ 2044) : ∃ addr cls rds args,
      clusterOf oc.rh oc.cityHash64 (Text.decimal uid) = some (cls, rds) ∧
        rds[0]? = some (redisAddrMaster oc.rh oc.cityHash64 (Text.decimal uid)) ∧ addr ∈ rds ∧
        (multiSent oc rand uids)[addr]? = some args ∧ Text.decimal uid ∈ args.drop 3 := by
  obtain ⟨⟨uid', i⟩, _, rfl, _, hsuid⟩ := inGroup_dispUids.mp ⟨suids, group, mem⟩
  obtain rfl := Text.decimal_injective hsuid
  obtain ⟨_, cls, rds, hcluster, hmaster, hchosen⟩ := @chosenRedis_cluster oc rand table nonempty uid i
  have hsent : (sentGroups (dispUids oc rand uids))[chosenRedis oc rand uid i]? = some suids := by
    refine sentGroups_get.mpr ⟨group, ?_⟩
    rw [argvMaxLen]
    omega
  exact ⟨_, cls, rds, _, hcluster, hmaster, hchosen, sendable_multiCommands.mpr ⟨suids, hsent, rfl⟩,
    Std.ExtTreeSet.mem_toList.mpr mem⟩

theorem small_of_asked {uid : Int} {addr : UInt64} {args : List Str}
    (sent : (multiSent oc rand uids)[addr]? = some args) (mem : Text.decimal uid ∈ args.drop 3) :
    ∃ suids, (dispUids oc rand uids)[addr]? = some suids ∧ Text.decimal uid ∈ suids ∧
      suids.size ≤ 2044 := by
  obtain ⟨suids, hsuids, rfl⟩ := sendable_multiCommands.mp sent
  obtain ⟨hgroup, hsize⟩ := sentGroups_get.mp hsuids
  rw [argvMaxLen] at hsize
  exact ⟨suids, hgroup, Std.ExtTreeSet.mem_toList.mp mem, by omega⟩

/-- Up to 2044 uids of up to 53 bits always fit. -/
theorem fits_of_short (table : RoutingState oc.rh) (nonempty : oc.rh.addrs.isEmpty = false)
    (short : uids.length ≤ 2044) (numbers : ∀ uid ∈ uids, IsDouble uid) : Fits oc rand uids w := by
  have hsent : sentGroups (dispUids oc rand uids) = dispUids oc rand uids := by
    apply Std.ExtTreeMap.ext_getElem?
    intro addr
    apply Option.ext
    intro suids
    rw [sentGroups_get, argvMaxLen]
    refine ⟨And.left, fun h => ⟨h, ?_⟩⟩
    have hsize := group_size_le h
    omega
  constructor
  · intro uid huid
    obtain ⟨i, hi⟩ := List.getElem?_of_mem huid
    have hentry : (uid, i) ∈ uids.zipIdx := List.mk_mem_zipIdx_iff_getElem?.mpr hi
    have hchosen := (@chosenRedis_cluster oc rand table nonempty uid i).1
    obtain ⟨suids, hgroup, hmem⟩ := inGroup_dispUids.mpr ⟨(uid, i), hentry, rfl, hchosen, rfl⟩
    exact ⟨_, suids, hgroup, hmem, (group_size_le hgroup).trans short⟩
  · intro uid lc
    rw [hsent]
  · exact fun uid huid _ => (numbers uid huid).double_eq

/-- Where one redis has all users, it is not asked for any of more than 2044. -/
theorem unasked_of_large {addr : UInt64} (single : ∀ uid i, chosenRedis oc rand uid i = addr)
    (ne : addr ≠ 0) (nodup : uids.Nodup) (large : 2044 < uids.length) : ∀ (a : UInt64) (args : List Str)
      (uid : Int), (multiSent oc rand uids)[a]? = some args → Text.decimal uid ∉ args.drop 3 := by
  intro a args uid hsent hmem
  obtain ⟨suids, hgroup, hmem, hsize⟩ := small_of_asked hsent hmem
  obtain ⟨entry, _, rfl, _, _⟩ := inGroup_dispUids.mp ⟨suids, hgroup, hmem⟩
  rw [single] at hgroup
  have hall : ∀ suid ∈ uids.map Text.decimal, suid ∈ suids.toList := by
    intro suid hsuid
    obtain ⟨uid', huid', rfl⟩ := List.mem_map.mp hsuid
    obtain ⟨i, hi⟩ := List.getElem?_of_mem huid'
    have hentry : (uid', i) ∈ uids.zipIdx := List.mk_mem_zipIdx_iff_getElem?.mpr hi
    obtain ⟨suids', hgroup', hmem'⟩ :=
      inGroup_dispUids.mpr ⟨(uid', i), hentry, single uid' i, ne, rfl⟩
    rw [hgroup] at hgroup'
    cases hgroup'
    exact Std.ExtTreeSet.mem_toList.mpr hmem'
  have hlength := (nodup.map Text.decimal_injective).length_le_of_subset hall
  rw [List.length_map, Std.ExtTreeSet.length_toList] at hlength
  omega

end Complete

/-- `get_multi` asks for all uids and answers for all exactly if the groups fit a command, or what
does not fit is answered by other redis, and no uid with a session is rounded. Commands are answered
in time, and the table is not empty. -/
theorem get_multi_complete_iff {plan : Nat → CmdRound} (prompt : Prompt plan) (oc : OnlineCtrl)
    (routine : Sorting sortClusterFun) (ds : List (Except ZkError (List Str)))
    (table : oc.rh = runDeliveries routine ds) (nonempty : oc.rh.addrs.isEmpty = false)
    (rand : Nat → Nat) (uids : List Int) (w : World) (rounds : Nat) :
    ∃ uidsSessions w', oc.getMulti (network oc.dir plan) (rounds + 2) rand uids w =
        some (uidsSessions, w') ∧
      (AnswersAll oc rand uids w uidsSessions ↔ Fits oc rand uids w) := by
  have hstate : RoutingState oc.rh := table ▸ routingState_runDeliveries ds
  obtain ⟨uidsSessions, w', hcall, returns⟩ := getMulti_apply oc prompt rand uids w rounds
  refine ⟨uidsSessions, w', hcall, ?_⟩
  constructor
  · intro answers
    have hnumbers : ∀ uid ∈ uids, (∃ h ∈ held w (dispUids oc rand uids), h.suid = Text.decimal uid) →
        double uid = uid := fun uid _ there => returns.numbers_of_sessions answers.sessions there
    constructor
    · intro uid huid
      obtain ⟨addr, _, _, args, _, _, _, hsent, hmem⟩ := answers.asked uid huid
      exact ⟨addr, small_of_asked hsent hmem⟩
    · intro uid lc
      rw [← answers.sessions, returns.lookup_eq hnumbers]
    · exact hnumbers
  · intro fits
    constructor
    · intro uid huid
      obtain ⟨addr, suids, hgroup, hmem, hsize⟩ := fits.small uid huid
      exact asked_of_small hstate nonempty hgroup hmem hsize
    · exact multiSent_counted
    · intro uid lc
      rw [returns.lookup_eq fits.numbers, fits.same]

/-! A routing table of one redis. -/

def oneRedis : OnlineCtrl :=
  { exampleCtrl with rh := runDeliveries (Sorting.prefers 0) [.ok ["1;10.0.0.7:6379".toList]] }

theorem oneRedis_nonempty : oneRedis.rh.addrs.isEmpty = false := by decide +kernel

theorem get_multi_complete_example : ∃ uidsSessions w',
    oneRedis.getMulti (network oneRedis.dir examplePlan) 2 (fun _ => 0) [7, 8, 7]
      (exampleWorld fun _ => false) = some (uidsSessions, w') ∧
    AnswersAll oneRedis (fun _ => 0) [7, 8, 7] (exampleWorld fun _ => false) uidsSessions := by
  obtain ⟨uidsSessions, w', hcall, hiff⟩ := get_multi_complete_iff examplePlan_prompt oneRedis
    (Sorting.prefers 0) [.ok ["1;10.0.0.7:6379".toList]] rfl oneRedis_nonempty (fun _ => 0) [7, 8, 7]
    (exampleWorld fun _ => false) 0
  refine ⟨uidsSessions, w', hcall, hiff.mpr ?_⟩
  refine fits_of_short (routingState_runDeliveries _) oneRedis_nonempty (by decide) ?_
  intro uid huid
  exact ⟨uid.natAbs, 0, by revert uid; decide, (Nat.mul_one _).symm⟩

/-- The uids 0 to 2044. -/
def manyUids : List Int := (List.range 2045).map Int.ofNat

/-- The one command for 2045 users is not sent. -/
theorem many_users_unasked : ∃ uidsSessions w',
    oneRedis.getMulti (network oneRedis.dir examplePlan) 2 (fun _ => 0) manyUids
      (exampleWorld fun _ => false) = some (uidsSessions, w') ∧
    ¬ AnswersAll oneRedis (fun _ => 0) manyUids (exampleWorld fun _ => false) uidsSessions := by
  obtain ⟨uidsSessions, w', hcall, _⟩ := getMulti_apply oneRedis examplePlan_prompt (fun _ => 0) manyUids
    (exampleWorld fun _ => false) 0
  refine ⟨uidsSessions, w', hcall, fun answers => ?_⟩
  have hsingle : ∀ uid i, chosenRedis oneRedis (fun _ => 0) uid i = exampleMaster := by
    intro uid i
    have hcluster : clusterOf oneRedis.rh (fun _ => 0) [] = some (1, [exampleMaster]) := by
      decide +kernel
    change redisAddrSlaveFirst oneRedis.rh (fun _ => 0) 0 [] = exampleMaster
    rw [redisAddrSlaveFirst, hcluster]
    rfl
  have hnodup : manyUids.Nodup := List.nodup_range.map fun _ _ => Int.ofNat.inj
  have hzero : (0 : Int) ∈ manyUids := List.mem_map.mpr ⟨0, List.mem_range.mpr (by decide), rfl⟩
  have hlength : 2044 < manyUids.length := by
    rw [manyUids, List.length_map, List.length_range]
    decide
  obtain ⟨addr, _, _, args, _, _, _, hsent, hmem⟩ := answers.asked 0 hzero
  exact unasked_of_large hsingle (by decide +kernel) hnodup hlength addr args 0 hsent hmem

end RedisCluster.Guarantees
