import Mathlib.Data.Int.Interval
import RedisCluster.Source.RedisHash

/-!
# Failover and the cluster of a key

The vector that a key's hash indexes is sorted by the address lists, so the place of
a cluster depends on its current master and slaves. Two tables over the same clusters
send every key to the same cluster exactly if they hold the same lists, or all lists
differ and compare alike in both.
-/

set_option autoImplicit false

namespace RedisCluster.Guarantees
open Library Source

/-- The index of the cluster that `redis_addr_master` and `redis_addr_slave_first` pick from. -/
def clusterIdx (rh : RedisHash) (cityHash64 : Str → UInt64) (key : Str) : Option Int :=
  (clusterOf rh cityHash64 key).map Prod.fst

variable {routine : Sorting sortClusterFun} {ends ends₁ ends₂ : Ends} {children : List Str}

theorem mem_packEnds {idx : Int} : idx ∈ packEnds ends ↔ idx ∈ ends := by
  unfold packEnds
  exact Std.ExtTreeMap.mem_map

/-- The hash indexes the clusters in the order of their sorted address lists. -/
theorem clusterIdx_updateEnds (hash : Str → UInt64) (key : Str) :
    clusterIdx (updateEnds routine ends) hash key =
      (routine.order (packEnds ends))[(hash key).toNat % (routine.order (packEnds ends)).length]? := by
  have hempty : (packEnds ends).isEmpty ∨ routine.sort (packEnds ends).toList = [] →
      routine.sort (packEnds ends).toList = [] := by
    rintro (h | h)
    · have hperm := routine.perm (packEnds ends).toList
      rw [Std.ExtTreeMap.isEmpty_iff.mp h] at hperm ⊢
      exact hperm.eq_nil
    · exact h
  unfold clusterIdx clusterOf updateEnds Sorting.order
  dsimp only
  split
  · next h => simp [hempty h]
  · rw [List.length_map, List.getElem?_map]

/-- An index is an `int`, so there are fewer clusters than hash values. -/
theorem order_length (read : nodeEnds children = .ok ends) :
    (routine.order (packEnds ends)).length < 2 ^ 64 := by
  have hrange : (routine.order (packEnds ends)).toFinset ⊆ Finset.Icc (-2 ^ 31 : Int) (2 ^ 31 - 1) := by
    intro idx hidx
    rw [List.mem_toFinset, Sorting.mem_order, mem_packEnds] at hidx
    obtain ⟨sp, hsp⟩ := Ordered.mem_iff_getElem?.mp hidx
    obtain ⟨chd, _, hsplit⟩ := (nodeEnds_ok read).values idx sp hsp
    obtain ⟨cls, _, _, _, hcast, _⟩ := pathSplit_ok.mp hsplit
    obtain ⟨_, hbounds⟩ := Option.filter_eq_some_iff.mp hcast
    exact Finset.mem_Icc.mpr (of_decide_eq_true hbounds)
  have hcard := Finset.card_le_card hrange
  rw [List.toFinset_card_of_nodup (Sorting.order_nodup _ _), Int.card_Icc] at hcard
  omega

/-- Every key stays with its cluster exactly if the order of the clusters is the same. -/
theorem clusterIdx_eq_iff (read₁ : nodeEnds children = .ok ends₁)
    (same : ∀ idx, idx ∈ ends₁ ↔ idx ∈ ends₂) :
    (∀ hash key, clusterIdx (updateEnds routine ends₁) hash key =
      clusterIdx (updateEnds routine ends₂) hash key) ↔
      routine.order (packEnds ends₁) = routine.order (packEnds ends₂) := by
  constructor
  · intro h
    have hlength : (routine.order (packEnds ends₁)).length = (routine.order (packEnds ends₂)).length :=
      (Sorting.order_perm routine fun idx => by rw [mem_packEnds, mem_packEnds, same]).length_eq
    apply List.ext_getElem hlength
    intro p hp₁ hp₂
    have hpick := h (fun _ => UInt64.ofNat p) []
    have hvalue : (UInt64.ofNat p).toNat = p :=
      UInt64.toNat_ofNat_of_lt' (Nat.lt_trans hp₁ (order_length read₁))
    rw [clusterIdx_updateEnds, clusterIdx_updateEnds, hvalue, ← hlength, Nat.mod_eq_of_lt hp₁,
      List.getElem?_eq_getElem hp₁, List.getElem?_eq_getElem hp₂] at hpick
    exact Option.some.inj hpick
  · intro h hash key
    rw [clusterIdx_updateEnds, clusterIdx_updateEnds, h]

/-- What the watcher's callback leaves for two child lists that can be read. -/
theorem redisNodeCb_read {rh : RedisHash} (read : nodeEnds children = .ok ends) :
    redisNodeCb routine (.ok children) rh = updateEnds routine ends := by
  simp only [redisNodeCb, read]

/-- A new table leaves every key with its cluster, whatever the hash and the routine, exactly if the
lists are the old ones, or no two lists are equal and they compare as before. Both tables have the
same clusters; where one comes or goes, nothing is said. -/
theorem failover_keeps_clusters_iff (children₁ children₂ : List Str) (ends₁ ends₂ : Ends)
    (read₁ : nodeEnds children₁ = .ok ends₁) (read₂ : nodeEnds children₂ = .ok ends₂)
    (same : ∀ idx, idx ∈ ends₁ ↔ idx ∈ ends₂) :
    (∀ (routine : Sorting sortClusterFun) (rh : RedisHash) (hash : Str → UInt64) (key : Str),
      clusterIdx (redisNodeCb routine (.ok children₁) rh) hash key =
        clusterIdx (redisNodeCb routine (.ok children₂) (redisNodeCb routine (.ok children₁) rh))
          hash key) ↔
      packEnds ends₁ = packEnds ends₂ ∨ ∀ (i j : Int) (addrs₁ others₁ addrs₂ others₂ : List UInt64),
        i ≠ j → (packEnds ends₁)[i]? = some addrs₁ → (packEnds ends₁)[j]? = some others₁ →
          (packEnds ends₂)[i]? = some addrs₂ → (packEnds ends₂)[j]? = some others₂ →
            compare addrs₁ others₁ ≠ .eq ∧ compare addrs₁ others₁ = compare addrs₂ others₂ := by
  have keys : ∀ idx, idx ∈ packEnds ends₁ ↔ idx ∈ packEnds ends₂ := by
    intro idx
    rw [mem_packEnds, mem_packEnds, same]
  rw [← Sorting.same_order_iff keys]
  simp only [redisNodeCb_read read₁, redisNodeCb_read read₂]
  constructor
  · intro h routine
    exact (clusterIdx_eq_iff read₁ same).mp (h routine ⟨∅, []⟩)
  · intro h routine _
    exact (clusterIdx_eq_iff read₁ same).mpr (h routine)

/-! One cluster changes its master; its list then sorts behind the list of the other cluster. -/

def beforeFailover : List Str := ["1;10.0.0.2:1;10.0.0.4:1".toList, "2;10.0.0.3:1".toList]

def afterFailover : List Str := ["1;10.0.0.4:1;10.0.0.2:1".toList, "2;10.0.0.3:1".toList]

/-- The children can be read, and the table passes the test; this can be computed. -/
def reads (children : List Str) (test : Ends → Bool) : Bool :=
  match nodeEnds children with
  | .ok ends => test ends
  | .error _ => false

theorem reads_iff {test : Ends → Bool} :
    reads children test = true ↔ ∃ ends, nodeEnds children = .ok ends ∧ test ends = true := by
  unfold reads
  cases nodeEnds children <;> simp

theorem failover_moves_keys :
    ¬ ∀ (children₁ children₂ : List Str) (ends₁ ends₂ : Ends), nodeEnds children₁ = .ok ends₁ →
      nodeEnds children₂ = .ok ends₂ → (∀ idx, idx ∈ ends₁ ↔ idx ∈ ends₂) →
      ∀ (routine : Sorting sortClusterFun) (rh : RedisHash) (hash : Str → UInt64) (key : Str),
        clusterIdx (redisNodeCb routine (.ok children₁) rh) hash key =
          clusterIdx (redisNodeCb routine (.ok children₂) (redisNodeCb routine (.ok children₁) rh))
            hash key := by
  intro h
  have hbefore : reads beforeFailover (fun ends => ends.keys = [1, 2]) = true := by decide +kernel
  have hafter : reads afterFailover (fun ends => ends.keys = [1, 2]) = true := by decide +kernel
  obtain ⟨ends₁, read₁, keys₁⟩ := reads_iff.mp hbefore
  obtain ⟨ends₂, read₂, keys₂⟩ := reads_iff.mp hafter
  have same : ∀ idx, idx ∈ ends₁ ↔ idx ∈ ends₂ := by
    intro idx
    rw [← Std.ExtTreeMap.mem_keys, ← Std.ExtTreeMap.mem_keys, of_decide_eq_true keys₁,
      of_decide_eq_true keys₂]
  have moved := h _ _ _ _ read₁ read₂ same (Sorting.prefers 0) ⟨∅, []⟩ (fun _ => 0) []
  exact absurd moved (by decide +kernel)

/-- With one cluster a failover moves nothing. -/
theorem failover_keeps_clusters_example :
    clusterIdx (redisNodeCb (Sorting.prefers 0) (.ok ["1;10.0.0.2:1;10.0.0.4:1".toList]) ⟨∅, []⟩)
      (fun _ => 7) "uid".toList =
    clusterIdx (redisNodeCb (Sorting.prefers 0) (.ok ["1;10.0.0.4:1;10.0.0.2:1".toList])
      (redisNodeCb (Sorting.prefers 0) (.ok ["1;10.0.0.2:1;10.0.0.4:1".toList]) ⟨∅, []⟩))
      (fun _ => 7) "uid".toList := by
  have hbefore : reads ["1;10.0.0.2:1;10.0.0.4:1".toList] (fun ends => ends.keys = [1]) = true := by
    decide +kernel
  have hafter : reads ["1;10.0.0.4:1;10.0.0.2:1".toList] (fun ends => ends.keys = [1]) = true := by
    decide +kernel
  obtain ⟨ends₁, read₁, keys₁⟩ := reads_iff.mp hbefore
  obtain ⟨ends₂, read₂, keys₂⟩ := reads_iff.mp hafter
  have only : ∀ idx, idx ∈ ends₁ ↔ idx = 1 := by
    intro idx
    rw [← Std.ExtTreeMap.mem_keys, of_decide_eq_true keys₁, List.mem_singleton]
  have same : ∀ idx, idx ∈ ends₁ ↔ idx ∈ ends₂ := by
    intro idx
    rw [← Std.ExtTreeMap.mem_keys, ← Std.ExtTreeMap.mem_keys, of_decide_eq_true keys₁,
      of_decide_eq_true keys₂]
  refine (failover_keeps_clusters_iff _ _ ends₁ ends₂ read₁ read₂ same).mpr (Or.inr ?_) _ _ _ _
  intro i j addrs₁ others₁ _ _ hne hi hj
  have hi' := mem_packEnds.mp (Ordered.mem_iff_getElem?.mpr ⟨addrs₁, hi⟩)
  have hj' := mem_packEnds.mp (Ordered.mem_iff_getElem?.mpr ⟨others₁, hj⟩)
  exact absurd ((only i |>.mp hi').trans (only j |>.mp hj').symm) hne

end RedisCluster.Guarantees
