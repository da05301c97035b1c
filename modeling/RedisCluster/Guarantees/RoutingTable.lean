import Mathlib.Data.List.Induction
import RedisCluster.Guarantees.Addresses
import RedisCluster.Source.RedisHash

/-!
# The clients' table after any deliveries

The table is the one of the last delivery that could be read. It always has an address
to pick, whatever the hash of a key and the random number.
-/

set_option autoImplicit false

namespace RedisCluster.Guarantees
open Library Source

/-! ## Which delivery the table is of -/

/-- Every child of the delivery can be read. -/
def readable : Except ZkError (List Str) → Bool
  | .error _ => false
  | .ok strings => strings.all fun chd => (pathSplit chd).toBool

/-- The addresses in the last child of this index. -/
def lastListed (strings : List Str) (idx : Int) : Option (List UInt64) :=
  strings.reverse.findSome? fun chd =>
    match pathSplit chd with
    | .ok (cls, sp) => if cls = idx then some (sp.map fun (ip, port) => ipv4Int64 ip port) else none
    | .error _ => none

/-- The table lists the addresses of these children. -/
def Built (strings : List Str) (rh : RedisHash) : Prop :=
  ∀ idx, rh.addrs[idx]? = lastListed strings idx

variable {routine : Sorting sortClusterFun}

theorem toBool_iff {ε α : Type} {x : Except ε α} : x.toBool = true ↔ ∃ a, x = .ok a := by
  cases x <;> simp [Except.toBool]

theorem readable_iff {strings : List Str} :
    readable (.ok strings) = true ↔ ∃ ends, nodeEnds strings = .ok ends := by
  rw [readable, List.all_eq_true]
  constructor
  · intro h
    apply nodeEnds_total
    intro chd hchd
    obtain ⟨⟨idx, sp⟩, hsplit⟩ := toBool_iff.mp (h chd hchd)
    exact ⟨idx, sp, hsplit⟩
  · rintro ⟨ends, h⟩ chd hchd
    obtain ⟨idx, sp, hsplit⟩ := (nodeEnds_ok h).good chd hchd
    exact toBool_iff.mpr ⟨_, hsplit⟩

/-- What cannot be read leaves the table. -/
theorem redisNodeCb_unreadable {rc : Except ZkError (List Str)} (h : readable rc = false)
    (rh : RedisHash) : redisNodeCb routine rc rh = rh := by
  cases rc with
  | error e => rfl
  | ok strings =>
    cases hread : nodeEnds strings with
    | error e => simp only [redisNodeCb, hread]
    | ok ends =>
      rw [readable_iff.mpr ⟨ends, hread⟩] at h
      cases h

/-- The old table does not matter. -/
theorem redisNodeCb_readable {rc : Except ZkError (List Str)} (h : readable rc = true)
    (rh rh' : RedisHash) : redisNodeCb routine rc rh = redisNodeCb routine rc rh' := by
  cases rc with
  | error e => cases h
  | ok strings =>
    obtain ⟨ends, hread⟩ := readable_iff.mp h
    simp only [redisNodeCb, hread]

theorem runDeliveries_snoc (ds : List (Except ZkError (List Str))) (d : Except ZkError (List Str)) :
    runDeliveries routine (ds ++ [d]) = redisNodeCb routine d (runDeliveries routine ds) :=
  List.foldl_concat ..

/-- Only the last delivery that could be read counts. -/
theorem runDeliveries_eq (ds : List (Except ZkError (List Str))) :
    runDeliveries routine ds =
      match (ds.filter readable).getLast? with
      | none => .empty
      | some d => redisNodeCb routine d .empty := by
  induction ds using List.reverseRecOn with
  | nil => rfl
  | append_singleton ds d ih =>
    rw [runDeliveries_snoc, List.filter_append]
    by_cases h : readable d
    · rw [List.filter_singleton, h, cond_true, List.getLast?_concat]
      exact redisNodeCb_readable h _ _
    · rw [List.filter_singleton, Bool.eq_false_iff.mpr h, cond_false, List.append_nil, ← ih]
      exact redisNodeCb_unreadable (Bool.eq_false_iff.mpr h) _

theorem nodeEnds_snoc {strings : List Str} {chd : Str} {ends' : Ends} :
    nodeEnds (strings ++ [chd]) = .ok ends' ↔
      ∃ ends, nodeEnds strings = .ok ends ∧ addEnd ends chd = .ok ends' := by
  unfold nodeEnds
  rw [List.foldlM_append]
  cases strings.foldlM addEnd ∅ with
  | error e => simp [bind, Except.bind]
  | ok ends =>
    simp only [bind, Except.bind, List.foldlM_cons, List.foldlM_nil, pure, Except.pure,
      Except.ok.injEq, exists_eq_left']
    cases addEnd ends chd <;> simp

/-- An index has what is listed for it last. -/
theorem nodeEnds_built {strings : List Str} {ends : Ends} (h : nodeEnds strings = .ok ends)
    (idx : Int) : (packEnds ends)[idx]? = lastListed strings idx := by
  induction strings using List.reverseRecOn generalizing ends with
  | nil =>
    cases h
    simp [packEnds, lastListed]
  | append_singleton strings chd ih =>
    obtain ⟨before, hbefore, hadd⟩ := nodeEnds_snoc.mp h
    obtain ⟨cls, sp, hsplit, rfl⟩ := addEnd_ok.mp hadd
    have hrest := ih hbefore
    unfold lastListed at hrest ⊢
    rw [List.reverse_append, List.reverse_singleton, List.singleton_append, List.findSome?_cons,
      hsplit]
    simp only [packEnds, Std.ExtTreeMap.getElem?_map] at hrest ⊢
    rw [Ordered.getElem?_insert]
    by_cases hcls : idx = cls
    · rw [if_pos hcls, if_pos hcls.symm]
      rfl
    · rw [if_neg hcls, if_neg (Ne.symm hcls)]
      exact hrest

/-- A delivery that can be read replaces the whole table. -/
theorem redisNodeCb_built {strings : List Str} (h : readable (.ok strings) = true)
    (rh : RedisHash) : Built strings (redisNodeCb routine (.ok strings) rh) := by
  obtain ⟨ends, hread⟩ := readable_iff.mp h
  simp only [redisNodeCb, hread]
  exact nodeEnds_built hread

/-! ## What it holds -/

/-- What holds of every table. -/
structure RoutingState (rh : RedisHash) : Prop where
  perm : rh.addrsV.Perm rh.addrs.toList
  sorted : rh.addrsV.Pairwise fun a b => ¬ sortClusterFun b a
  listed : ∀ (idx : Int) (addrs : List UInt64), rh.addrs[idx]? = some addrs →
    addrs ≠ [] ∧ ∀ addr ∈ addrs, addr ≠ 0

/-- The port keeps an address from being zero. -/
theorem ipv4Int64_ne_zero {ip : Str} {port : Int} (lo : -2 ^ 31 ≤ port) (hi : port < 2 ^ 31)
    (hport : port ≠ 0) : ipv4Int64 ip port ≠ 0 := by
  intro h
  have hlow := (UInt64.or_eq_zero_iff.mp h).2
  have hzero : UInt32.ofInt port = 0 := UInt32.toUInt64_inj.mp hlow
  have hvalue := congrArg UInt32.toNat hzero
  simp [UInt32.ofInt] at hvalue
  omega

/-- A child has an address at least, and none that is 0. -/
theorem pathSplit_addrs {path : Str} {idx : Int} {sp : List (Str × Int)}
    (h : pathSplit path = .ok (idx, sp)) :
    (sp.map fun (ip, port) => ipv4Int64 ip port) ≠ [] ∧
      ∀ addr ∈ sp.map fun (ip, port) => ipv4Int64 ip port, addr ≠ 0 := by
  obtain ⟨_, addrs, _, hne, _, hsp⟩ := pathSplit_ok.mp h
  constructor
  · intro hnil
    rw [List.map_eq_nil_iff] at hnil
    rw [hnil, List.map_nil, List.map_eq_nil_iff] at hsp
    exact hne hsp
  · intro addr haddr
    obtain ⟨⟨ip, port⟩, hmem, rfl⟩ := List.mem_map.mp haddr
    have hread : some (ip, port) ∈ addrs.map strIpv4 := by
      rw [hsp]
      exact List.mem_map.mpr ⟨_, hmem, rfl⟩
    obtain ⟨text, _, htext⟩ := List.mem_map.mp hread
    obtain ⟨hport, lo, hi⟩ := strIpv4_port htext
    exact ipv4Int64_ne_zero lo hi hport

theorem routingState_empty : RoutingState .empty where
  perm := by simp [RedisHash.empty]
  sorted := List.Pairwise.nil
  listed := by simp [RedisHash.empty]

theorem routingState_updateEnds {strings : List Str} {ends : Ends}
    (h : nodeEnds strings = .ok ends) : RoutingState (updateEnds routine ends) where
  perm := routine.perm _
  sorted := routine.sorted _
  listed := by
    intro idx addrs hget
    unfold updateEnds packEnds at hget
    rw [Std.ExtTreeMap.getElem?_map, Option.map_eq_some_iff] at hget
    obtain ⟨sp, hsp, rfl⟩ := hget
    obtain ⟨chd, _, hsplit⟩ := (nodeEnds_ok h).values idx sp hsp
    exact pathSplit_addrs hsplit

theorem routingState_redisNodeCb {rc : Except ZkError (List Str)} {rh : RedisHash}
    (h : RoutingState rh) : RoutingState (redisNodeCb routine rc rh) := by
  by_cases hread : readable rc
  · cases rc with
    | error e => exact h
    | ok strings =>
      obtain ⟨ends, hends⟩ := readable_iff.mp hread
      simp only [redisNodeCb, hends]
      exact routingState_updateEnds hends
  · rw [redisNodeCb_unreadable (Bool.eq_false_iff.mpr hread)]
    exact h

/-- By induction on the deliveries. -/
theorem routingState_runDeliveries (ds : List (Except ZkError (List Str))) :
    RoutingState (runDeliveries routine ds) := by
  induction ds using List.reverseRecOn with
  | nil => exact routingState_empty
  | append_singleton ds d ih =>
    rw [runDeliveries_snoc]
    exact routingState_redisNodeCb ih

/-! ## Picking an address -/

/-- The addresses that are picked for a key, and the cluster they are picked from. -/
structure Picks (rh : RedisHash) (cityHash64 : Str → UInt64) (rand : Nat) (key : Str)
    (cls : Int) (rds : List UInt64) : Prop where
  cluster : rh.addrsV[(cityHash64 key).toNat % rh.addrsV.length]? = some (cls, rds)
  master : rds[0]? = some (redisAddrMaster rh cityHash64 key)
  slave : rds[slavePos rds rand]? = some (redisAddrSlaveFirst rh cityHash64 rand key)
  other : 2 ≤ rds.length → slavePos rds rand ≠ 0
  nonzero : ∀ addr ∈ rds, addr ≠ 0
  all : (redisAll rh)[cls]? = some (redisAddrMaster rh cityHash64 key)

/-- The place that is picked is in the list. -/
theorem slavePos_lt {rds : List UInt64} (h : rds ≠ []) (rand : Nat) :
    slavePos rds rand < rds.length := by
  have hpos := List.length_pos_iff.mpr h
  unfold slavePos
  dsimp only
  split
  · next hcn =>
    have hmod := Nat.mod_lt rand hcn
    omega
  · exact hpos

/-- It is not the master's where there is another one. -/
theorem slavePos_ne_zero {rds : List UInt64} (h : 2 ≤ rds.length) (rand : Nat) :
    slavePos rds rand ≠ 0 := by
  unfold slavePos
  dsimp only
  rw [if_pos (by omega)]
  exact Nat.succ_ne_zero _

/-- What the loop does not come to stays. -/
theorem foldl_masters_other {entries : List (Int × List UInt64)} {masters : Std.ExtTreeMap Int UInt64}
    {cls : Int} (hnot : cls ∉ entries.map Prod.fst) :
    (entries.foldl (fun addrs e =>
      match e.2 with
      | master :: _ => addrs.insert e.1 master
      | [] => addrs) masters)[cls]? = masters[cls]? := by
  induction entries generalizing masters with
  | nil => rfl
  | cons e entries ih =>
    rw [List.map_cons, List.mem_cons, not_or] at hnot
    rw [List.foldl_cons, ih hnot.2]
    split
    · rw [Ordered.getElem?_insert, if_neg hnot.1]
    · rfl

/-- A later entry of the loop has another index. -/
theorem foldl_masters {entries : List (Int × List UInt64)} {masters : Std.ExtTreeMap Int UInt64}
    (nodup : (entries.map Prod.fst).Nodup) {cls : Int} {master : UInt64} {rest : List UInt64}
    (h : (cls, master :: rest) ∈ entries) :
    (entries.foldl (fun addrs e =>
      match e.2 with
      | master :: _ => addrs.insert e.1 master
      | [] => addrs) masters)[cls]? = some master := by
  induction entries generalizing masters with
  | nil => cases h
  | cons e entries ih =>
    rw [List.map_cons, List.nodup_cons] at nodup
    rw [List.foldl_cons]
    rcases List.mem_cons.mp h with rfl | h
    · rw [foldl_masters_other nodup.1]
      dsimp only
      rw [Ordered.getElem?_insert, if_pos rfl]
    · exact ih nodup.2 h

variable {rh : RedisHash}

theorem RoutingState.redisAll_get (h : RoutingState rh) {cls : Int} {master : UInt64}
    {rest : List UInt64} (hmem : (cls, master :: rest) ∈ rh.addrsV) :
    (redisAll rh)[cls]? = some master := by
  apply foldl_masters _ hmem
  exact (h.perm.map Prod.fst).nodup_iff.mpr (Ordered.nodup_keys _)

theorem RoutingState.addrsV_nil_iff (h : RoutingState rh) :
    rh.addrsV = [] ↔ rh.addrs.isEmpty = true := by
  rw [← List.isEmpty_iff, ← Std.ExtTreeMap.isEmpty_toList, List.isEmpty_iff, List.isEmpty_iff]
  exact ⟨fun hnil => (hnil ▸ h.perm).symm.eq_nil, fun hnil => (hnil ▸ h.perm).eq_nil⟩

/-- With any cluster there is one for every key, and both functions pick from it. -/
theorem RoutingState.picks (h : RoutingState rh) (hne : rh.addrs.isEmpty = false)
    (cityHash64 : Str → UInt64) (rand : Nat) (key : Str) :
    ∃ cls rds, Picks rh cityHash64 rand key cls rds := by
  have hvne : rh.addrsV ≠ [] := by
    rw [Ne, h.addrsV_nil_iff, hne]
    exact Bool.false_ne_true
  have hlt : (cityHash64 key).toNat % rh.addrsV.length < rh.addrsV.length :=
    Nat.mod_lt _ (List.length_pos_iff.mpr hvne)
  obtain ⟨⟨cls, rds⟩, hget⟩ : ∃ e, rh.addrsV[(cityHash64 key).toNat % rh.addrsV.length]? = some e :=
    ⟨_, List.getElem?_eq_getElem hlt⟩
  have hcluster : clusterOf rh cityHash64 key = some (cls, rds) := by
    unfold clusterOf
    rw [if_neg (by simp [hne, hvne]), hget]
  have hmem : (cls, rds) ∈ rh.addrsV := List.mem_of_getElem? hget
  obtain ⟨hrds, hnonzero⟩ := h.listed cls rds
    (Std.ExtTreeMap.mem_toList_iff_getElem?_eq_some.mp (h.perm.mem_iff.mp hmem))
  have hmaster : rds[0]? = some (redisAddrMaster rh cityHash64 key) := by
    unfold redisAddrMaster
    rw [hcluster]
    cases rds with
    | nil => exact absurd rfl hrds
    | cons master rest => rfl
  refine ⟨cls, rds, hget, hmaster, ?_, fun hlen => slavePos_ne_zero hlen rand, hnonzero, ?_⟩
  · unfold redisAddrSlaveFirst
    rw [hcluster]
    have hpos := List.getElem?_eq_getElem (slavePos_lt hrds rand)
    rw [hpos]
    unfold slavePos at hpos
    simp only [hpos]
    rfl
  · cases rds with
    | nil => exact absurd rfl hrds
    | cons master rest =>
      rw [List.getElem?_cons_zero, Option.some_inj] at hmaster
      rw [← hmaster]
      exact h.redisAll_get hmem

/-- An empty table is answered with 0. -/
theorem RoutingState.picks_nothing (hempty : rh.addrs.isEmpty = true) (cityHash64 : Str → UInt64)
    (rand : Nat) (key : Str) :
    redisAddrMaster rh cityHash64 key = 0 ∧ redisAddrSlaveFirst rh cityHash64 rand key = 0 := by
  have hnone : clusterOf rh cityHash64 key = none := if_pos (Or.inl hempty)
  unfold redisAddrMaster redisAddrSlaveFirst
  rw [hnone]
  exact ⟨rfl, rfl⟩

/-- After any deliveries the table is the one of the last that could be read, and any other changes
nothing. Without a cluster both functions answer 0; with one they pick from it. Readers are taken to
see the table before or after a delivery, which the lock of the source is for. -/
theorem routing_table (routine : Sorting sortClusterFun)
    (ds : List (Except ZkError (List Str))) :
    (runDeliveries routine ds = match (ds.filter readable).getLast? with
      | none => .empty
      | some d => redisNodeCb routine d .empty) ∧
    (∀ strings, readable (.ok strings) = true →
      Built strings (runDeliveries routine (ds ++ [.ok strings]))) ∧
    (∀ d, readable d = false → runDeliveries routine (ds ++ [d]) = runDeliveries routine ds) ∧
    RoutingState (runDeliveries routine ds) ∧
    ∀ (cityHash64 : Str → UInt64) (rand : Nat) (key : Str),
      ((runDeliveries routine ds).addrs.isEmpty = true ∧
        redisAddrMaster (runDeliveries routine ds) cityHash64 key = 0 ∧
        redisAddrSlaveFirst (runDeliveries routine ds) cityHash64 rand key = 0) ∨
      ((runDeliveries routine ds).addrs.isEmpty = false ∧
        ∃ cls rds, Picks (runDeliveries routine ds) cityHash64 rand key cls rds) := by
  refine ⟨runDeliveries_eq ds, ?_, ?_, routingState_runDeliveries ds, ?_⟩
  · intro strings hread
    rw [runDeliveries_snoc]
    exact redisNodeCb_built hread _
  · intro d hread
    rw [runDeliveries_snoc]
    exact redisNodeCb_unreadable hread _
  · intro cityHash64 rand key
    cases hempty : (runDeliveries routine ds).addrs.isEmpty with
    | true => exact Or.inl ⟨rfl, RoutingState.picks_nothing hempty cityHash64 rand key⟩
    | false => exact Or.inr ⟨rfl, (routingState_runDeliveries ds).picks hempty cityHash64 rand key⟩

end RedisCluster.Guarantees
