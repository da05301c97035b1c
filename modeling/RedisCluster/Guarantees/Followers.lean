import RedisCluster.Guarantees.Routing
import RedisCluster.Guarantees.SecondCheck
import RedisCluster.Guarantees.Watch

/-!
# Clients and replication

A check computes the lists that clients decode and the commands that make the redis replicate. Both
name one master for a cluster: a client writes where the replication comes from.

Between the two stand the children of `legal_nodes` and the answers to `SLAVEOF`. That a redis which
replicates another one has its data is not part of the model.
-/

set_option autoImplicit false

namespace RedisCluster.Guarantees
open Library Routine Source

/-- The redis of one cluster that a client writes to and the one that it reads from. -/
structure Mirrors (addrs : Addrs) (answers : StrMap) (upstreams : Upstreams) (master slave : UInt64) :
    Prop where
  writes : ∃ a ∈ addrs, strIpv4Int64 a = some master
  reads : ∃ a ∈ addrs, strIpv4Int64 a = some slave
  /-- Where any redis answers, the master does and has no upstream. -/
  top : (∃ a ∈ addrs, a ∈ answers) → int64StrIpv4 master ∈ answers ∧ upstreams master = []
  /-- Where another redis answers, the client reads from one that replicates the master. -/
  replica : (∃ a ∈ addrs, a ∈ answers ∧ strIpv4Int64 a ≠ some master) →
    slave ≠ master ∧ int64StrIpv4 slave ∈ answers ∧ ipPort (upstreams slave) = int64StrIpv4 master

section Decoded
variable {cfgs : Clusters} {lists : Std.ExtTreeMap Str (List Str)} {ends : Ends}
  {routine : Sorting sortClusterFun}

/-- The cluster that a client picks from has the addresses of a list, in order. -/
theorem picks_list (decodes : DecodesTo cfgs lists ends) {hash : Str → UInt64} {rand : Nat} {key : Str}
    {cls : Int} {rds : List UInt64} (state : RoutingState (updateEnds routine ends))
    (picks : Picks (updateEnds routine ends) hash rand key cls rds) :
    ∃ (c : Str) (addrs : Addrs) (list : List Str), cfgs[c]? = some addrs ∧ lists[c]? = some list ∧
      list.map strIpv4Int64 = rds.map some := by
  have hmem : (cls, rds) ∈ (packEnds ends).toList :=
    state.perm.mem_iff.mp (List.mem_of_getElem? picks.cluster)
  have hget : (packEnds ends)[cls]? = some rds := Std.ExtTreeMap.mem_toList_iff_getElem?_eq_some.mp hmem
  have hends : cls ∈ ends := mem_packEnds.mp (Ordered.mem_iff_getElem?.mpr ⟨rds, hget⟩)
  obtain ⟨c, ⟨hc, rfl⟩, _⟩ := decodes.entries cls hends
  obtain ⟨list, sp, hlist, hsp, hread⟩ := decodes.lists c hc
  obtain ⟨addrs, haddrs⟩ := Ordered.mem_iff_getElem?.mp hc
  refine ⟨c, addrs, list, haddrs, hlist, ?_⟩
  unfold packEnds at hget
  rw [Std.ExtTreeMap.getElem?_map, hsp, Option.map_some, Option.some_inj] at hget
  rw [← hget]
  have hpack : list.map strIpv4Int64 = (list.map strIpv4).map (Option.map fun e => ipv4Int64 e.1 e.2) := by
    rw [List.map_map]
    rfl
  rw [hpack, hread, List.map_map, List.map_map]
  rfl

end Decoded

section Star
variable {cfgs : Clusters} {answers : StrMap} {legal : Legal} {t' : Tree} {chks : Checks} {errs : Clusters}
  {before upstreams : Upstreams} {c : Str} {rds : StrMap} {addrs : Addrs} {list : List Str}
  {picked : List UInt64} {master slave : UInt64} {pos : Nat}

/-- The first of a list is the master, and another position is a replica. -/
theorem follows_ranked (rest : AtRest cfgs answers legal t') (names : NamesChecks cfgs t' chks)
    (instructed : Instructed answers chks before legal.cmds) (haddrs : cfgs[c]? = some addrs)
    (hrds : chks[c]? = some rds) (ranked : (sortRedis rds).map Prod.fst = list)
    (stars : ∀ master, Leader rds master → Star rds upstreams master)
    (read : list.map strIpv4Int64 = picked.map some) (first : picked[0]? = some master)
    (other : picked[pos]? = some slave) (apart : 2 ≤ picked.length → pos ≠ 0) :
    Mirrors addrs answers upstreams master slave := by
  obtain ⟨addrs', haddrs', hmem⟩ := rest.checked names hrds
  rw [haddrs] at haddrs'
  cases haddrs'
  have named : ∀ {k : Nat} {a : UInt64}, picked[k]? = some a → ∃ name, list[k]? = some name ∧
      strIpv4Int64 name = some a := by
    intro k a ha
    have hread : (list.map strIpv4Int64)[k]? = some (some a) := by
      rw [read, List.getElem?_map, ha, Option.map_some]
    rw [List.getElem?_map] at hread
    obtain ⟨name, hname, hparse⟩ := Option.map_eq_some_iff.mp hread
    exact ⟨name, hname, hparse⟩
  have listed : ∀ name ∈ list, name ∈ rds := by
    intro name hname
    rw [← ranked] at hname
    exact mem_sorted.mp hname
  obtain ⟨m, hm, hmaster⟩ := named first
  obtain ⟨b, hb, hslave⟩ := named other
  have hmrds := listed m (List.mem_of_getElem? hm)
  have hbrds := listed b (List.mem_of_getElem? hb)
  have leader : Leader rds m := by
    rw [← ranked] at hm
    cases hsort : sortRedis rds with
    | nil =>
      rw [hsort] at hm
      cases hm
    | cons entry seqs =>
      rw [hsort] at hm
      cases hm
      exact leader_of_sort (names.apart c rds hrds) hsort
  have star := stars m leader
  have canonical : ∀ {name : Str} {a : UInt64}, name ∈ rds → strIpv4Int64 name = some a →
      name = int64StrIpv4 a := by
    intro name a hname hparse
    obtain ⟨a', hparse', heq, _⟩ := instructed.redis hrds hname
    rw [hparse] at hparse'
    cases hparse'
    exact heq
  have hmname := canonical hmrds hmaster
  have hbname := canonical hbrds hslave
  refine ⟨⟨m, ((hmem m).mp hmrds).1, hmaster⟩, ⟨b, ((hmem b).mp hbrds).1, hslave⟩, fun _ => ?_, ?_⟩
  · obtain ⟨a, hparse, htop⟩ := star.top
    rw [hmaster] at hparse
    cases hparse
    rw [← hmname]
    exact ⟨((hmem m).mp hmrds).2, htop⟩
  · rintro ⟨a, ha, hanswers, hother⟩
    have hards : a ∈ rds := (hmem a).mpr ⟨ha, hanswers⟩
    have hlong : 2 ≤ picked.length := by
      have hlength : list.length = picked.length := by simpa using congrArg List.length read
      obtain ⟨k, hk⟩ := List.mem_iff_getElem?.mp (ranked ▸ mem_sorted.mpr hards : a ∈ list)
      have hkless := (List.getElem?_eq_some_iff.mp hk).1
      have hkpos : k ≠ 0 := by
        rintro rfl
        rw [hm] at hk
        cases hk
        exact hother hmaster
      omega
    have hne : b ≠ m := by
      rintro rfl
      have hnodup : list.Nodup := by
        rw [← ranked]
        exact ((sortRedis_perm rds).map Prod.fst).nodup_iff.mpr (Ordered.nodup_keys rds)
      have hless := (List.getElem?_eq_some_iff.mp hb).1
      exact apart hlong ((List.getElem?_inj hless hnodup).mp (hb.trans hm.symm))
    obtain ⟨a', hparse, hup⟩ := star.slaves b hbrds hne
    rw [hslave] at hparse
    cases hparse
    refine ⟨fun heq => hne ?_, hbname ▸ ((hmem b).mp hbrds).2, hmname ▸ hup⟩
    rw [hbname, hmname, heq]

end Star

/-- After a check whose commands are obeyed, an up to date client writes every key to a redis that
replicates no other, and reads it from one that replicates that redis as long as there is one.
Assumed are a cluster at all, lists that can be decoded (`Decodable`), check nodes as ZooKeeper
numbers them (`Filed`), and redis that report the upstream they have (`Reports`). Of a cluster where
no redis answers it is only said that clients stay inside of it. -/
theorem clients_follow_replication (zkh : Option Nat) (tries : Nat) (net sent : Network) (before : Upstreams)
    (t t' : Tree) (legal : Legal) (filed : Filed (configured t) t) (reports : Reports net before)
    (success : Ok ZkCall.serve (check zkh net) t legal t')
    (decodable : Decodable (configured t) (answers net (configured t)))
    (routine : Sorting sortClusterFun) (w : Watcher) (upToDate : UpToDate routine t' w)
    (some : ∃ c, c ∈ configured t) (cityHash64 : Str → UInt64) (rand : Nat) (key : Str) :
    ∃ (c : Str) (addrs : Addrs), (configured t)[c]? = .some addrs ∧
      Mirrors addrs (answers net (configured t))
        ((doSlaveofCmd sent tries legal.cmds).foldl obeyed before)
        (redisAddrMaster w.table cityHash64 key) (redisAddrSlaveFirst w.table cityHash64 rand key) := by
  obtain ⟨rest, _⟩ := atRest_of_check filed success
  obtain ⟨chks, errs, names, entries, fold⟩ := rest.computed
  have instructed := rest.instructed reports (fun _ => Iff.rfl) names fold
  have published := check_published filed success
  obtain ⟨strings, hshown, htable⟩ := upToDate.table
  obtain ⟨ends, hends, decodes⟩ := decodes_of_decodable published hshown.perm
    (fun c addr h => by
      obtain ⟨addrs, hc, haddr, _⟩ := h
      exact (config_mem (configOf_configured t) hc haddr).2) decodable
  have hread : readable (.ok strings) = true := readable_iff.mpr ⟨ends, hends⟩
  have hupdate : w.table = updateEnds routine ends := by
    rw [htable hread, redisNodeCb, hends]
  have state : RoutingState (updateEnds routine ends) := routingState_updateEnds hends
  have hne : (updateEnds routine ends).addrs.isEmpty = false := by
    obtain ⟨c, hc⟩ := some
    obtain ⟨_, sp, _, hsp, _⟩ := decodes.lists c hc
    have hmem := mem_packEnds.mpr (Ordered.mem_iff_getElem?.mpr ⟨sp, hsp⟩)
    refine Std.ExtTreeMap.isEmpty_eq_false_iff.mpr fun (h : packEnds ends = ∅) => ?_
    rw [h] at hmem
    exact Std.ExtTreeMap.not_mem_empty hmem
  rw [hupdate]
  obtain ⟨cls, picked, picks⟩ := state.picks hne cityHash64 rand key
  obtain ⟨c, addrs, list, haddrs, hlist, hparse⟩ := picks_list decodes state picks
  obtain ⟨rds, hrds, hlegal⟩ := (genClusters_ok fold).list c list hlist
  refine ⟨c, addrs, haddrs, ?_⟩
  rw [foldl_obeyed tries instructed.canonical]
  generalize hcomputed : list = computed at hlegal
  cases hlegal with
  | ranked some answered =>
    exact follows_ranked rest names instructed haddrs hrds hcomputed.symm
      (fun master leader => instructed.star hrds leader) hparse picks.master picks.slave picks.other
  | @standby addr _ _ none known least =>
    obtain ⟨addrs', haddrs', hmem⟩ := rest.checked names hrds
    rw [haddrs] at haddrs'
    cases haddrs'
    have silent : ∀ a ∈ addrs, a ∉ answers net (configured t) := by
      intro a ha hanswers
      have hsorted := mem_sorted.mpr ((hmem a).mpr ⟨ha, hanswers⟩)
      rw [none] at hsorted
      cases hsorted
    subst hcomputed
    obtain ⟨addrs', haddrs', hin, _⟩ := (published.addrs c _ hlist addr).mp List.mem_cons_self
    rw [haddrs] at haddrs'
    cases haddrs'
    have alone : ∀ {pos : Nat} {a : UInt64}, picked[pos]? = .some a → strIpv4Int64 addr = .some a := by
      intro pos a ha
      have hread : ([addr].map strIpv4Int64)[pos]? = .some (.some a) := by
        rw [hparse, List.getElem?_map, ha, Option.map_some]
      rw [List.getElem?_map] at hread
      obtain ⟨name, hname, hparse'⟩ := Option.map_eq_some_iff.mp hread
      rw [List.mem_singleton.mp (List.mem_of_getElem? hname)] at hparse'
      exact hparse'
    refine ⟨⟨addr, hin, alone picks.master⟩, ⟨addr, hin, alone picks.slave⟩, ?_, ?_⟩
    · rintro ⟨a, ha, hanswers⟩
      exact absurd hanswers (silent a ha)
    · rintro ⟨a, ha, hanswers, _⟩
      exact absurd hanswers (silent a ha)

/-! Two redis, of which each is a slave of another one before the check. -/

/-- The table of a client that has read the children of the tree. -/
def readTable (t : Tree) : RedisHash :=
  redisNodeCb (Sorting.prefers 1) (.ok (t.children nodePath)) .empty

theorem clients_follow_replication_example : ∃ legal t',
    Ok ZkCall.serve (check (some 1) (reporting crossedUpstreams)) exampleTree legal t' ∧
      ∃ (c : Str) (addrs : Addrs), (configured exampleTree)[c]? = some addrs ∧
        Mirrors addrs (answers (reporting crossedUpstreams) (configured exampleTree))
          ((doSlaveofCmd (reporting crossedUpstreams) 2 legal.cmds).foldl obeyed crossedUpstreams)
          (redisAddrMaster (readTable t') (fun _ => 0) [])
          (redisAddrSlaveFirst (readTable t') (fun _ => 0) 0 []) := by
  have hends : endsWith ZkCall.serve (check (some 1) (reporting crossedUpstreams)) exampleTree
      (fun _ _ => true) = true := by
    decide +kernel
  have hcheck : checkPath ∉ exampleTree := by decide +kernel
  obtain ⟨legal, t', hrun, _⟩ := endsWith_iff.mp hends
  have hthere : nodePath ∈ t' :=
    (atRest_of_check (filed_of_check (freshWithoutChecks hcheck) hrun) hrun).1.base nodePath (by simp [basePaths])
  have upToDate : UpToDate (Sorting.prefers 1) t' ⟨readTable t', 0, [], true⟩ :=
    ⟨rfl, t'.children nodePath, ⟨hthere, .refl _⟩, fun _ => rfl⟩
  refine ⟨legal, t', hrun, ?_⟩
  exact clients_follow_replication (some 1) 2 (reporting crossedUpstreams) (reporting crossedUpstreams)
    crossedUpstreams exampleTree t' legal (filed_of_check (freshWithoutChecks hcheck) hrun) (reports_reporting _) hrun
    (decodable_cluster1 (by decide +kernel) (by decide +kernel) _) (Sorting.prefers 1) ⟨readTable t', 0, [], true⟩ upToDate
    ⟨"cluster1".toList, by decide +kernel⟩ (fun _ => 0) 0 []

end RedisCluster.Guarantees
