import RedisCluster.Guarantees.RoutingTable

/-!
# The order of the children

Children with indices of their own make the same table in any order. Only the order of equal address
lists is left to the sorting routine, and no answer depends on it, as equal lists have the same
master and the same slaves.
-/

set_option autoImplicit false

namespace RedisCluster.Guarantees
open Library Source

/-- No two children that can be read have one index. -/
def DistinctIndices (strings : List Str) : Prop :=
  strings.Pairwise fun chd other => ∀ idx sp sp', pathSplit chd = .ok (idx, sp) →
    pathSplit other ≠ .ok (idx, sp')

/-- The tables answer every question alike. -/
structure RoutesAlike (rh rh' : RedisHash) : Prop where
  master : ∀ (cityHash64 : Str → UInt64) (key : Str),
    redisAddrMaster rh cityHash64 key = redisAddrMaster rh' cityHash64 key
  all : redisAll rh = redisAll rh'

/-! ## Reading the children -/

section Children
variable {strings strings' : List Str} {ends ends' : Ends}

theorem DistinctIndices.sp_eq (distinct : DistinctIndices strings) {chd other : Str}
    (hchd : chd ∈ strings) (hother : other ∈ strings) {idx : Int} {sp sp' : List (Str × Int)}
    (hsplit : pathSplit chd = .ok (idx, sp)) (hsplit' : pathSplit other = .ok (idx, sp')) :
    sp = sp' := by
  by_cases heq : chd = other
  · rw [heq, hsplit'] at hsplit
    cases hsplit
    rfl
  · rcases Sorting.rel_or_of_pairwise distinct hchd hother heq with h | h
    · exact absurd hsplit' (h idx sp sp' hsplit)
    · exact absurd hsplit (h idx sp' sp hsplit')

/-- With distinct indices the table has what every child says. -/
theorem getElem?_nodeEnds (distinct : DistinctIndices strings) (h : nodeEnds strings = .ok ends)
    {idx : Int} {sp : List (Str × Int)} :
    ends[idx]? = some sp ↔ ∃ chd ∈ strings, pathSplit chd = .ok (idx, sp) := by
  have decoded := nodeEnds_ok h
  constructor
  · exact decoded.values idx sp
  · rintro ⟨chd, hchd, hsplit⟩
    obtain ⟨sp', hsp'⟩ := Ordered.mem_iff_getElem?.mp (decoded.keys chd hchd idx sp hsplit)
    obtain ⟨other, hother, hsplit'⟩ := decoded.values idx sp' hsp'
    rw [hsp', distinct.sp_eq hchd hother hsplit hsplit']

theorem nodeEnds_perm (perm : strings.Perm strings') (distinct : DistinctIndices strings)
    (distinct' : DistinctIndices strings') (h : nodeEnds strings = .ok ends)
    (h' : nodeEnds strings' = .ok ends') : ends = ends' := by
  apply Std.ExtTreeMap.ext_getElem?
  intro idx
  apply Option.ext
  intro sp
  rw [getElem?_nodeEnds distinct h, getElem?_nodeEnds distinct' h']
  simp only [perm.mem_iff]

theorem readable_perm (perm : strings.Perm strings') :
    readable (.ok strings) = readable (.ok strings') := by
  rw [Bool.eq_iff_iff, readable, readable, List.all_eq_true, List.all_eq_true]
  simp only [perm.mem_iff]

theorem DistinctIndices.perm (distinct : DistinctIndices strings) (perm : strings.Perm strings') :
    DistinctIndices strings' := by
  refine perm.pairwise distinct ?_
  intro chd other h idx sp sp' hother hchd
  exact h idx sp' sp hchd hother

end Children

/-! ## Answers -/

section Answers
variable {routine routine' : Sorting sortClusterFun} {rh rh' : RedisHash}

theorem redisAddrMaster_eq (cityHash64 : Str → UInt64) (key : Str) : redisAddrMaster rh cityHash64 key =
    (((clusterOf rh cityHash64 key).map Prod.snd).bind List.head?).getD 0 := by
  unfold redisAddrMaster
  cases clusterOf rh cityHash64 key with
  | none => rfl
  | some cluster =>
    obtain ⟨cls, rds⟩ := cluster
    cases rds <;> rfl

theorem clusterOf_values (addrs : rh.addrs = rh'.addrs)
    (values : rh.addrsV.map Prod.snd = rh'.addrsV.map Prod.snd) (cityHash64 : Str → UInt64) (key : Str) :
    (clusterOf rh cityHash64 key).map Prod.snd = (clusterOf rh' cityHash64 key).map Prod.snd := by
  have hlen : rh.addrsV.length = rh'.addrsV.length := by
    rw [← List.length_map Prod.snd, values, List.length_map]
  have hnil : rh.addrsV = [] ↔ rh'.addrsV = [] := by
    rw [← List.length_eq_zero_iff, hlen, List.length_eq_zero_iff]
  unfold clusterOf
  rw [addrs]
  by_cases hempty : rh'.addrs.isEmpty = true ∨ rh'.addrsV = []
  · rw [if_pos hempty, if_pos (hempty.imp_right hnil.mpr)]
  · rw [if_neg hempty, if_neg fun h => hempty (h.imp_right hnil.mp), ← List.getElem?_map, values,
      List.getElem?_map, hlen]

/-- `redis_all` has the first address of every cluster. -/
theorem RoutingState.getElem?_redisAll (h : RoutingState rh) (cls : Int) :
    (redisAll rh)[cls]? = rh.addrs[cls]?.bind List.head? := by
  have nodup := (h.perm.map Prod.fst).nodup_iff.mpr (Ordered.nodup_keys _)
  cases haddrs : rh.addrs[cls]? with
  | some addrs =>
    cases addrs with
    | nil => exact absurd rfl (h.listed cls [] haddrs).1
    | cons master rest =>
      exact h.redisAll_get (h.perm.mem_iff.mpr (Std.ExtTreeMap.mem_toList_iff_getElem?_eq_some.mpr haddrs))
  | none =>
    have hnot : cls ∉ rh.addrsV.map Prod.fst := by
      intro hcls
      obtain ⟨e, he, rfl⟩ := List.mem_map.mp hcls
      have hget := Std.ExtTreeMap.mem_toList_iff_getElem?_eq_some.mp (h.perm.mem_iff.mp he)
      rw [haddrs] at hget
      cases hget
    refine (foldl_masters_other hnot).trans ?_
    rw [Std.ExtTreeMap.getElem?_empty]
    rfl

theorem routesAlike_updateEnds {strings : List Str} {ends : Ends} (read : nodeEnds strings = .ok ends) :
    RoutesAlike (updateEnds routine ends) (updateEnds routine' ends) := by
  constructor
  · intro cityHash64 key
    have hcluster := @clusterOf_values (updateEnds routine ends) (updateEnds routine' ends) rfl
      (Sorting.sort_values routine routine' _) cityHash64 key
    rw [redisAddrMaster_eq, redisAddrMaster_eq, hcluster]
  · apply Std.ExtTreeMap.ext_getElem?
    intro cls
    rw [(routingState_updateEnds read).getElem?_redisAll, (routingState_updateEnds read).getElem?_redisAll]
    rfl

end Answers

/-- Children with distinct indices that come in another order are refused alike or route alike,
whatever routine sorts the clusters each time. Of two children with one index the last one counts,
so for these nothing is said. -/
theorem child_order_irrelevant (routine routine' : Sorting sortClusterFun) (strings strings' : List Str)
    (perm : strings.Perm strings') (distinct : DistinctIndices strings) (rh : RedisHash) :
    (redisNodeCb routine (.ok strings) rh = rh ∧ redisNodeCb routine' (.ok strings') rh = rh) ∨
      RoutesAlike (redisNodeCb routine (.ok strings) rh) (redisNodeCb routine' (.ok strings') rh) := by
  cases hread : readable (.ok strings) with
  | false =>
    have hread' := (readable_perm perm).symm.trans hread
    exact Or.inl ⟨redisNodeCb_unreadable hread rh, redisNodeCb_unreadable hread' rh⟩
  | true =>
    have hread' := (readable_perm perm).symm.trans hread
    obtain ⟨ends, hends⟩ := readable_iff.mp hread
    obtain ⟨ends', hends'⟩ := readable_iff.mp hread'
    obtain rfl := nodeEnds_perm perm distinct (distinct.perm perm) hends hends'
    right
    simp only [redisNodeCb, hends, hends']
    exact routesAlike_updateEnds hends

/-- Two clusters with one address list, in both orders, and sorted both ways. -/
theorem equal_clusters_route_alike :
    (redisNodeCb (Sorting.prefers 1) (.ok ["1;10.0.0.2:1".toList, "2;10.0.0.2:1".toList]) .empty = .empty ∧
      redisNodeCb (Sorting.prefers 2) (.ok ["2;10.0.0.2:1".toList, "1;10.0.0.2:1".toList]) .empty = .empty) ∨
    RoutesAlike
      (redisNodeCb (Sorting.prefers 1) (.ok ["1;10.0.0.2:1".toList, "2;10.0.0.2:1".toList]) .empty)
      (redisNodeCb (Sorting.prefers 2) (.ok ["2;10.0.0.2:1".toList, "1;10.0.0.2:1".toList]) .empty) := by
  apply child_order_irrelevant
  · exact List.Perm.swap ..
  · refine List.pairwise_pair.mpr ?_
    intro idx sp sp' hsplit hsplit'
    have hfirst : pathSplit "1;10.0.0.2:1".toList = .ok (1, [("10.0.0.2".toList, 1)]) := by rfl
    have hsecond : pathSplit "2;10.0.0.2:1".toList = .ok (2, [("10.0.0.2".toList, 1)]) := by rfl
    rw [hfirst] at hsplit
    rw [hsecond] at hsplit'
    cases hsplit
    cases hsplit'

end RedisCluster.Guarantees
