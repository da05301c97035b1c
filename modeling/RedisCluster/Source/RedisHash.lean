import RedisCluster.Library.Sorting
import RedisCluster.Library.Znode
import RedisCluster.Source.Util

/-!
# The clients' routing table

`RedisHash.cpp`: decoding the children of `legal_nodes` and picking a cluster for a
key. The watcher gets the children in any order. `std::sort` is a routine that the
standard leaves open among equal lists, and `CityHash64` is a parameter, as is
`rand`. The lock and the logging are left out.
-/

set_option autoImplicit false

namespace RedisCluster.Source
open Library

/-- `map<int, vector<pair<string, int>>>` -/
abbrev Ends := Std.ExtTreeMap Int (List (Str × Int))

/-- `map<int, vector<uint64_t>>` -/
abbrev ClusterAddrs := Std.ExtTreeMap Int (List UInt64)

/-- The error texts are only logged; the code is the source's return value. -/
def pathSplit (path : Str) : Except Nat (Int × List (Str × Int)) :=
  match path.splitOn ';' with
  | cls :: addr :: addrs =>
    match Text.lexicalCast (-2 ^ 31) (2 ^ 31 - 1) cls with
    | none => .error 2
    | some cls =>
      match (addr :: addrs).mapM strIpv4 with
      | none => .error 3
      | some sp => .ok (cls, sp)
  | _ => .error 1

/-- The body of the loop over the children: `ends[cls] = vrds`. -/
def addEnd (ends : Ends) (chd : Str) : Except Nat Ends :=
  (pathSplit chd).map fun (cls, vrds) => ends.insert cls vrds

/-- The loop over the children, which gives up at the first bad one. -/
def nodeEnds (strings : List Str) : Except Nat Ends := strings.foldlM addEnd ∅

/-- `sort_cluster_fun` compares the address lists. -/
abbrev sortClusterFun : Int × List UInt64 → Int × List UInt64 → Prop := Sorting.ByValue

/-- The routing table: the clusters by their numbers, and in the order in which keys are looked up.
-/
structure RedisHash where
  addrs : ClusterAddrs
  addrsV : List (Int × List UInt64)

/-- Every pair of ip and port as one number. -/
def packEnds (ends : Ends) : ClusterAddrs :=
  ends.map fun _ vrds => vrds.map fun (ip, port) => ipv4Int64 ip port

/-- The old table is dropped. -/
def updateEnds (routine : Sorting sortClusterFun) (ends : Ends) : RedisHash :=
  let maddrs := packEnds ends
  ⟨maddrs, routine.sort maddrs.toList⟩

/-- What `zoo_awget_children` answers; after an error or a bad child the table stays. -/
def redisNodeCb (routine : Sorting sortClusterFun) (rc : Except ZkError (List Str))
    (rh : RedisHash) : RedisHash :=
  match rc with
  | .error _ => rh
  | .ok strings =>
    match nodeEnds strings with
    | .error _ => rh
    | .ok ends => updateEnds routine ends

/-- Before the first delivery. -/
def RedisHash.empty : RedisHash := ⟨∅, []⟩

/-- The table after these deliveries. -/
def runDeliveries (routine : Sorting sortClusterFun) (ds : List (Except ZkError (List Str))) :
    RedisHash :=
  ds.foldl (fun rh rc => redisNodeCb routine rc rh) .empty

/-- The master of every cluster. -/
def redisAll (rh : RedisHash) : Std.ExtTreeMap Int UInt64 :=
  rh.addrsV.foldl (fun addrs e =>
    match e.2 with
    | master :: _ => addrs.insert e.1 master
    | [] => addrs) ∅

/-- `addrs_v_.at(hash % addrs_v_.size())`, the cluster that a key is looked up in. -/
def clusterOf (rh : RedisHash) (cityHash64 : Str → UInt64) (key : Str) :
    Option (Int × List UInt64) :=
  if rh.addrs.isEmpty ∨ rh.addrsV = [] then none
  else rh.addrsV[(cityHash64 key).toNat % rh.addrsV.length]?

/-- 0 stands for no address. -/
def redisAddrMaster (rh : RedisHash) (cityHash64 : Str → UInt64) (key : Str) : UInt64 :=
  match clusterOf rh cityHash64 key with
  | some (_, master :: _) => master
  | _ => 0

/-- `rand` is what `rand()` returns. A cluster without slaves is read from its master. -/
def redisAddrSlaveFirst (rh : RedisHash) (cityHash64 : Str → UInt64) (rand : Nat) (key : Str) :
    UInt64 :=
  match clusterOf rh cityHash64 key with
  | some (_, rds) =>
    let cnSv := rds.length - 1
    let idx := if 0 < cnSv then rand % cnSv + 1 else 0
    rds[idx]?.getD 0
  | none => 0

/-- The position that `redis_addr_slave_first` picks. -/
def slavePos (rds : List UInt64) (rand : Nat) : Nat :=
  let cnSv := rds.length - 1
  if 0 < cnSv then rand % cnSv + 1 else 0

/-! ## Decoding -/

theorem mapM_strIpv4 {addrs : List Str} {sp : List (Str × Int)} :
    addrs.mapM strIpv4 = some sp ↔ addrs.map strIpv4 = sp.map some := by
  induction addrs generalizing sp with
  | nil => cases sp <;> simp
  | cons addr addrs ih =>
    rw [List.mapM_cons]
    cases haddr : strIpv4 addr with
    | none => cases sp <;> simp [haddr]
    | some pair =>
      cases hrest : addrs.mapM strIpv4 with
      | none =>
        have hnone : ∀ sp : List (Str × Int), addrs.map strIpv4 ≠ sp.map some := by
          intro sp h
          rw [← ih, hrest] at h
          cases h
        cases sp <;> simp_all
      | some rest =>
        have hsome := ih.mp hrest
        cases sp <;> simp_all

/-- A child is read as its index and the addresses between its semicolons. -/
theorem pathSplit_ok {path : Str} {idx : Int} {sp : List (Str × Int)} :
    pathSplit path = .ok (idx, sp) ↔ ∃ cls addrs, path.splitOn ';' = cls :: addrs ∧ addrs ≠ [] ∧
      Text.lexicalCast (-2 ^ 31) (2 ^ 31 - 1) cls = some idx ∧
      addrs.map strIpv4 = sp.map some := by
  unfold pathSplit
  constructor
  · intro h
    split at h
    · next cls addr addrs hsplit =>
      split at h
      · cases h
      · next idx' hidx =>
        split at h
        · cases h
        · next sp' hsp =>
          cases h
          exact ⟨cls, addr :: addrs, hsplit, by simp, hidx, mapM_strIpv4.mp hsp⟩
    · cases h
  · rintro ⟨cls, addrs, hsplit, hne, hidx, hsp⟩
    cases addrs with
    | nil => exact absurd rfl hne
    | cons addr addrs =>
      rw [← mapM_strIpv4] at hsp
      simp only [hsplit, hidx, hsp]

theorem addEnd_ok {ends ends' : Ends} {chd : Str} :
    addEnd ends chd = .ok ends' ↔
      ∃ idx sp, pathSplit chd = .ok (idx, sp) ∧ ends' = ends.insert idx sp := by
  unfold addEnd
  cases hsplit : pathSplit chd with
  | error e => simp [Except.map]
  | ok pair =>
    obtain ⟨idx, sp⟩ := pair
    simp [Except.map, eq_comm]

/-- Every child was read, and the table has what they say. -/
structure Decoded (strings : List Str) (ends : Ends) : Prop where
  good : ∀ chd ∈ strings, ∃ idx sp, pathSplit chd = .ok (idx, sp)
  keys : ∀ chd ∈ strings, ∀ idx sp, pathSplit chd = .ok (idx, sp) → idx ∈ ends
  values : ∀ idx sp, ends[idx]? = some sp → ∃ chd ∈ strings, pathSplit chd = .ok (idx, sp)

/-- What children that can be read come to. -/
theorem nodeEnds_ok {strings : List Str} {ends : Ends} (h : nodeEnds strings = .ok ends) :
    Decoded strings ends := by
  refine foldlM_except_ok Decoded h ⟨by simp, by simp, by simp⟩ ?_
  intro visited chd rest _ ends ends' hstep hread
  obtain ⟨idx, sp, hsplit, rfl⟩ := addEnd_ok.mp hstep
  constructor
  · intro c hc
    rcases List.mem_append.mp hc with hc | hc
    · exact hread.good c hc
    · obtain rfl := List.mem_singleton.mp hc
      exact ⟨idx, sp, hsplit⟩
  · intro c hc i v hsplit'
    rw [Ordered.mem_insert_map]
    rcases List.mem_append.mp hc with hc | hc
    · exact Or.inr (hread.keys c hc i v hsplit')
    · obtain rfl := List.mem_singleton.mp hc
      rw [hsplit] at hsplit'
      cases hsplit'
      exact Or.inl rfl
  · intro i v hget
    rw [Ordered.getElem?_insert] at hget
    split at hget
    · next hi =>
      cases hget
      exact ⟨chd, by simp, hi ▸ hsplit⟩
    · obtain ⟨c, hc, hsplit'⟩ := hread.values i v hget
      exact ⟨c, by simp [hc], hsplit'⟩

/-- Children each of which can be read can be read together. -/
theorem nodeEnds_total {strings : List Str}
    (good : ∀ chd ∈ strings, ∃ idx sp, pathSplit chd = .ok (idx, sp)) :
    ∃ ends, nodeEnds strings = .ok ends := by
  refine foldlM_except_total (fun _ _ => True) trivial ?_
  intro visited chd rest hsplit ends _
  obtain ⟨idx, sp, hchd⟩ := good chd (by simp [hsplit])
  exact ⟨ends.insert idx sp, addEnd_ok.mpr ⟨idx, sp, hchd, rfl⟩, trivial⟩

end RedisCluster.Source
