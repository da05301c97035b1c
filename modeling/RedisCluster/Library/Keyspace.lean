import Mathlib.Data.List.Sort
import RedisCluster.Library.Ordered
import RedisCluster.Library.Text

/-!
# Redis keyspaces

Hashes that may expire, sorted sets, and the commands on them, under their names. Times
are in milliseconds. A hash goes with its last field, and it goes when its time has come:
redis removes it on the next access, which no command can tell apart. Scores are
integers, as far as a double has them exactly. A key is used as a hash or as a sorted set,
never as both.
-/

set_option autoImplicit false

namespace RedisCluster.Library

/-- The fields of a hash. -/
abbrev Fields := Std.ExtTreeMap Str Str

/-- The members of a sorted set with their scores; an absent set is empty. -/
abbrev ZSet := Std.ExtTreeMap Str Int

/-- A hash, with the stamp at which it expires. -/
structure HashKey where
  fields : Fields
  expireAt : Option Nat
  nonempty : fields.isEmpty = false

/-- Hashes and sorted sets of one redis, with its clock in milliseconds. -/
structure Keyspace where
  now : Nat
  hashes : Str → Option HashKey
  zsets : Str → ZSet

/-- A hash of these fields, if there are any. -/
def HashKey.ofFields (fields : Fields) (expireAt : Option Nat) : Option HashKey :=
  if h : fields.isEmpty = false then some ⟨fields, expireAt, h⟩ else none

namespace Keyspace

def empty : Keyspace := ⟨0, fun _ => none, fun _ => ∅⟩

variable (s : Keyspace)

/-! ## Hashes -/

/-- A hash that is not there has no fields. -/
def fields (k : Str) : Fields := ((s.hashes k).map HashKey.fields).getD ∅

def expiry (k : Str) : Option Nat := (s.hashes k).bind HashKey.expireAt

/-- The fields of a hash are replaced. -/
def put (k : Str) (fields : Fields) : Keyspace :=
  { s with hashes := Function.update s.hashes k (HashKey.ofFields fields (s.expiry k)) }

/-- `EXISTS`. -/
def has (k : Str) : Bool := (s.hashes k).isSome

/-- `HGET` -/
def hget (k f : Str) : Option Str := (s.fields k)[f]?

/-- In no particular order. -/
def hkeys (k : Str) : List Str := (s.fields k).keys

/-- `HGETALL` -/
def hgetall (k : Str) : List (Str × Str) := (s.fields k).toList

/-- `HSET` -/
def hset (k f v : Str) : Keyspace := s.put k ((s.fields k).insert f v)

/-- `HMSET` -/
def hmset (k : Str) (fvs : List (Str × Str)) : Keyspace :=
  fvs.foldl (fun s fv => s.hset k fv.1 fv.2) s

/-- `HSETNX` -/
def hsetnx (k f v : Str) : Keyspace := if f ∈ s.fields k then s else s.hset k f v

/-- `HDEL` -/
def hdel (k f : Str) : Keyspace := s.put k ((s.fields k).erase f)

/-- `DEL` -/
def del (k : Str) : Keyspace := { s with hashes := Function.update s.hashes k none }

/-! ## Expiry -/

/-- `EXPIRE` -/
def expire (k : Str) (seconds : Nat) : Keyspace :=
  { s with
    hashes := Function.update s.hashes k
      ((s.hashes k).map fun h => { h with expireAt := some (s.now + 1000 * seconds) }) }

/-- In seconds, to the nearest. -/
def ttl (k : Str) : Int :=
  match s.hashes k with
  | none => -2
  | some h =>
    match h.expireAt with
    | none => -1
    | some stamp => ((stamp - s.now + 500) / 1000 : Nat)

/-- Time passes; a key is gone once its stamp is past. -/
def elapse (d : Nat) : Keyspace :=
  { s with
    now := s.now + d
    hashes := fun k => (s.hashes k).filter fun h => h.expireAt.all fun stamp => s.now + d ≤ stamp }

/-! ## Sorted sets -/

def setZset (z : Str) (members : ZSet) : Keyspace :=
  { s with zsets := Function.update s.zsets z members }

/-- `ZSCORE` -/
def zscore (z m : Str) : Option Int := (s.zsets z)[m]?

/-- `ZADD` -/
def zadd (z : Str) (score : Int) (m : Str) : Keyspace :=
  s.setZset z ((s.zsets z).insert m score)

/-- `ZINCRBY` -/
def zincrby (z : Str) (by' : Int) (m : Str) : Keyspace :=
  s.zadd z ((s.zscore z m).getD 0 + by') m

/-- `ZREM` -/
def zrem (z m : Str) : Keyspace := s.setZset z ((s.zsets z).erase m)

/-- `ZCARD` -/
def zcard (z : Str) : Nat := (s.zsets z).size

/-- By score; members of one score keep the order in which the map lists them. -/
def ranked (z : Str) : List (Str × Int) :=
  (s.zsets z).toList.insertionSort fun a b => a.2 ≤ b.2

/-- `ZRANGEBYSCORE z -inf max WITHSCORES`. -/
def zrangebyscore (z : Str) (max : Int) : List (Str × Int) :=
  (s.ranked z).filter fun e => e.2 ≤ max

/-- `ZREMRANGEBYSCORE z -inf max`. -/
def zremrangebyscore (z : Str) (max : Int) : Keyspace :=
  s.setZset z ((s.zsets z).filter fun _ score => max < score)

/-- The ranks from 0 to `stop`. -/
def zremrangebyrank (z : Str) (stop : Nat) : Keyspace :=
  let removed := ((s.ranked z).take (stop + 1)).map Prod.fst
  s.setZset z ((s.zsets z).filter fun m _ => m ∉ removed)

end Keyspace

/-! ## What the commands change -/

namespace Keyspace
variable {s : Keyspace} {k other f g v z : Str}

section Put
variable {fields : Fields}

@[simp] theorem now_put : (s.put k fields).now = s.now := rfl

@[simp] theorem zsets_put : (s.put k fields).zsets = s.zsets := rfl

@[simp] theorem fields_put : (s.put k fields).fields k = fields := by
  by_cases h : fields.isEmpty = false
  · simp [put, Keyspace.fields, HashKey.ofFields, h]
  · have hnone : fields = ∅ := Std.ExtTreeMap.isEmpty_iff.mp (Bool.not_eq_false _ ▸ h)
    simp [put, Keyspace.fields, HashKey.ofFields, hnone]

theorem hashes_put_of_ne (h : other ≠ k) : (s.put k fields).hashes other = s.hashes other :=
  Function.update_of_ne h _ _

/-- Writing a hash does not move its end. -/
theorem expiry_put (h : fields.isEmpty = false) : (s.put k fields).expiry k = s.expiry k := by
  simp [put, expiry, HashKey.ofFields, h]

end Put

theorem fields_congr {s s' : Keyspace} (h : s'.hashes k = s.hashes k) :
    s'.fields k = s.fields k := by
  rw [fields, h, fields]

theorem expiry_congr {s s' : Keyspace} (h : s'.hashes k = s.hashes k) :
    s'.expiry k = s.expiry k := by
  rw [expiry, h, expiry]

theorem hget_congr {s s' : Keyspace} (h : s'.hashes k = s.hashes k) :
    s'.hget k f = s.hget k f := by
  rw [hget, fields_congr h, hget]

theorem mem_fields_iff : f ∈ s.fields k ↔ ∃ v, s.hget k f = some v := Ordered.mem_iff_getElem?

theorem not_mem_fields_iff : f ∉ s.fields k ↔ s.hget k f = none := Ordered.not_mem_iff_getElem?

/-- A hash is there as long as it has a field. -/
theorem has_iff : s.has k ↔ (s.fields k).isEmpty = false := by
  unfold has fields
  cases h : s.hashes k with
  | none => simp
  | some hash => simp [hash.nonempty]

theorem mem_hkeys : f ∈ s.hkeys k ↔ f ∈ s.fields k := Std.ExtTreeMap.mem_keys

theorem has_of_mem (h : f ∈ s.fields k) : s.has k := by
  rw [has_iff, Std.ExtTreeMap.isEmpty_eq_false_iff]
  rintro hnone
  rw [hnone] at h
  simp at h

theorem exists_mem_of_has (h : s.has k) : ∃ f, f ∈ s.fields k := by
  rw [has_iff, ← Std.ExtTreeMap.isEmpty_keys, List.isEmpty_eq_false_iff_exists_mem] at h
  obtain ⟨f, hf⟩ := h
  exact ⟨f, mem_hkeys.mp hf⟩

theorem not_has_iff : s.has k = false ↔ s.hashes k = none := by
  rw [has, Option.isSome_eq_false_iff, Option.isNone_iff_eq_none]

theorem expiry_of_not_has (h : s.has k = false) : s.expiry k = none := by
  rw [expiry, not_has_iff.mp h, Option.bind_none]

/-! ### Single commands -/

section Hash

@[simp] theorem zsets_hset : (s.hset k f v).zsets = s.zsets := rfl

@[simp] theorem now_hset : (s.hset k f v).now = s.now := rfl

theorem hashes_hset_of_ne (h : other ≠ k) : (s.hset k f v).hashes other = s.hashes other :=
  hashes_put_of_ne h

theorem fields_hset : (s.hset k f v).fields k = (s.fields k).insert f v := fields_put

theorem hget_hset : (s.hset k f v).hget k g = if g = f then some v else s.hget k g := by
  rw [hget, fields_hset, Ordered.getElem?_insert, hget]

theorem mem_hset : g ∈ (s.hset k f v).fields k ↔ g = f ∨ g ∈ s.fields k := by
  rw [fields_hset, Ordered.mem_insert_map]

@[simp] theorem expiry_hset : (s.hset k f v).expiry k = s.expiry k := by
  apply expiry_put
  rw [Std.ExtTreeMap.isEmpty_eq_false_iff]
  intro hnone
  have hmem : f ∈ (s.fields k).insert f v := Ordered.mem_insert_map.mpr (Or.inl rfl)
  rw [hnone] at hmem
  simp at hmem

@[simp] theorem zsets_hsetnx : (s.hsetnx k f v).zsets = s.zsets := by
  unfold hsetnx
  split <;> rfl

@[simp] theorem now_hsetnx : (s.hsetnx k f v).now = s.now := by
  unfold hsetnx
  split <;> rfl

theorem hashes_hsetnx_of_ne (h : other ≠ k) :
    (s.hsetnx k f v).hashes other = s.hashes other := by
  unfold hsetnx
  split
  · rfl
  · exact hashes_hset_of_ne h

/-- The first value stays. -/
theorem hget_hsetnx : (s.hsetnx k f v).hget k g =
    if g ∈ s.fields k then s.hget k g else if g = f then some v else none := by
  by_cases hg : g ∈ s.fields k
  · rw [if_pos hg]
    unfold hsetnx
    split
    · rfl
    · next hf =>
      rw [hget, fields_hset, Ordered.getElem?_insert, if_neg, hget]
      rintro rfl
      exact hf hg
  · rw [if_neg hg]
    unfold hsetnx
    split
    · next hf =>
      rw [not_mem_fields_iff.mp hg, if_neg]
      rintro rfl
      exact hg hf
    · rw [hget, fields_hset, Ordered.getElem?_insert]
      split
      · rfl
      · exact not_mem_fields_iff.mp hg

theorem hget_hsetnx_getD : (s.hsetnx k f v).hget k g =
    if g = f then some ((s.hget k f).getD v) else s.hget k g := by
  rw [hget_hsetnx]
  by_cases hg : g ∈ s.fields k
  · rw [if_pos hg]
    obtain ⟨old, hold⟩ := mem_fields_iff.mp hg
    split
    · next heq => rw [← heq, hold, Option.getD_some]
    · rfl
  · rw [if_neg hg]
    have hnone := not_mem_fields_iff.mp hg
    split
    · next heq => rw [← heq, hnone, Option.getD_none]
    · exact hnone.symm

theorem mem_hsetnx : g ∈ (s.hsetnx k f v).fields k ↔ g = f ∨ g ∈ s.fields k := by
  unfold hsetnx
  split
  · next h =>
    constructor
    · exact Or.inr
    · rintro (rfl | hg)
      · exact h
      · exact hg
  · exact mem_hset

@[simp] theorem expiry_hsetnx : (s.hsetnx k f v).expiry k = s.expiry k := by
  unfold hsetnx
  split
  · rfl
  · exact expiry_hset

@[simp] theorem zsets_hdel : (s.hdel k f).zsets = s.zsets := rfl

@[simp] theorem now_hdel : (s.hdel k f).now = s.now := rfl

theorem hashes_hdel_of_ne (h : other ≠ k) : (s.hdel k f).hashes other = s.hashes other :=
  hashes_put_of_ne h

theorem mem_hdel : g ∈ (s.hdel k f).fields k ↔ g ≠ f ∧ g ∈ s.fields k := by
  rw [hdel, fields_put, Std.ExtTreeMap.mem_erase, Std.LawfulEqCmp.compare_eq_iff_eq.ne, ne_comm]

theorem hget_hdel : (s.hdel k f).hget k g = if g = f then none else s.hget k g := by
  rw [hget, hdel, fields_put, Std.ExtTreeMap.getElem?_erase, hget]
  simp only [Std.LawfulEqCmp.compare_eq_iff_eq, eq_comm (a := f)]

/-- A hash that is left keeps its stamp. -/
theorem expiry_hdel (h : g ∈ (s.hdel k f).fields k) : (s.hdel k f).expiry k = s.expiry k := by
  have hhas := has_of_mem h
  rw [has_iff, hdel, fields_put] at hhas
  exact expiry_put hhas

@[simp] theorem zsets_del : (s.del k).zsets = s.zsets := rfl

@[simp] theorem now_del : (s.del k).now = s.now := rfl

theorem hashes_del : (s.del k).hashes other = if other = k then none else s.hashes other :=
  Function.update_apply ..

@[simp] theorem zsets_expire {n : Nat} : (s.expire k n).zsets = s.zsets := rfl

@[simp] theorem now_expire {n : Nat} : (s.expire k n).now = s.now := rfl

theorem hashes_expire_of_ne {n : Nat} (h : other ≠ k) :
    (s.expire k n).hashes other = s.hashes other :=
  Function.update_of_ne h _ _

theorem hashes_expire {n : Nat} : (s.expire k n).hashes k =
    (s.hashes k).map fun h => { h with expireAt := some (s.now + 1000 * n) } :=
  Function.update_self ..

@[simp] theorem fields_expire {n : Nat} : (s.expire k n).fields k = s.fields k := by
  rw [fields, hashes_expire, Option.map_map, fields]
  rfl

theorem expiry_expire {n : Nat} (h : s.has k) :
    (s.expire k n).expiry k = some (s.now + 1000 * n) := by
  obtain ⟨hash, hhash⟩ := Option.isSome_iff_exists.mp h
  rw [expiry, hashes_expire, hhash]
  rfl

/-- `TTL` rounds to the nearest second. -/
theorem ttl_eq {stamp : Nat} (h : s.expiry k = some stamp) :
    s.ttl k = ((stamp - s.now + 500) / 1000 : Nat) := by
  obtain ⟨hash, hhash, hstamp⟩ := Option.bind_eq_some_iff.mp h
  simp only [ttl, hhash, hstamp]

/-- `TTL` is negative where nothing expires. -/
theorem ttl_neg (h : s.expiry k = none) : s.ttl k < 0 := by
  unfold ttl
  unfold expiry at h
  cases hhash : s.hashes k with
  | none => simp
  | some hash =>
    rw [hhash, Option.bind_some] at h
    simp [h]

/-- What is past its stamp goes. -/
theorem hashes_elapse {d : Nat} : (s.elapse d).hashes k =
    (s.hashes k).filter fun h => h.expireAt.all fun stamp => s.now + d ≤ stamp := rfl

/-- A hash that is still there is as it was, and its stamp is not past. -/
theorem elapse_some {d : Nat} {hash : HashKey} : (s.elapse d).hashes k = some hash ↔
    s.hashes k = some hash ∧ ∀ stamp, hash.expireAt = some stamp → s.now + d ≤ stamp := by
  rw [hashes_elapse, Option.filter_eq_some_iff]
  apply and_congr_right
  intro _
  cases hash.expireAt <;> simp

end Hash

/-! ### Sequences of commands -/

section Several

@[simp] theorem hmset_nil : s.hmset k [] = s := rfl

theorem hmset_cons {fv : Str × Str} {fvs : List (Str × Str)} :
    s.hmset k (fv :: fvs) = (s.hset k fv.1 fv.2).hmset k fvs := rfl

variable {fvs : List (Str × Str)}

@[simp] theorem zsets_hmset : (s.hmset k fvs).zsets = s.zsets := by
  induction fvs generalizing s with
  | nil => rfl
  | cons fv fvs ih => rw [hmset_cons, ih, zsets_hset]

@[simp] theorem now_hmset : (s.hmset k fvs).now = s.now := by
  induction fvs generalizing s with
  | nil => rfl
  | cons fv fvs ih => rw [hmset_cons, ih, now_hset]

theorem hashes_hmset_of_ne (h : other ≠ k) : (s.hmset k fvs).hashes other = s.hashes other := by
  induction fvs generalizing s with
  | nil => rfl
  | cons fv fvs ih => rw [hmset_cons, ih, hashes_hset_of_ne h]

theorem mem_hmset : g ∈ (s.hmset k fvs).fields k ↔ g ∈ fvs.map Prod.fst ∨ g ∈ s.fields k := by
  induction fvs generalizing s with
  | nil => simp
  | cons fv fvs ih =>
    rw [hmset_cons, ih, mem_hset, List.map_cons, List.mem_cons]
    tauto

/-- The last value of a name is the one that stays. -/
theorem hget_hmset : (s.hmset k fvs).hget k g = (fvs.reverse.lookup g).or (s.hget k g) := by
  induction fvs generalizing s with
  | nil => rfl
  | cons fv fvs ih =>
    obtain ⟨f, v⟩ := fv
    rw [hmset_cons, ih, hget_hset, List.reverse_cons, List.lookup_append, Option.or_assoc,
      List.lookup_cons]
    by_cases hg : g = f
    · simp [hg]
    · simp [hg, beq_eq_false_iff_ne.mpr hg]

@[simp] theorem expiry_hmset : (s.hmset k fvs).expiry k = s.expiry k := by
  induction fvs generalizing s with
  | nil => rfl
  | cons fv fvs ih => rw [hmset_cons, ih, expiry_hset]

/-- `DEL` of every key. -/
theorem hashes_dels {ks : List Str} :
    (ks.foldl del s).hashes k = if k ∈ ks then none else s.hashes k := by
  induction ks generalizing s with
  | nil => simp
  | cons first ks ih =>
    rw [List.foldl_cons, ih, hashes_del]
    by_cases hfirst : k = first <;> by_cases hks : k ∈ ks <;> simp [hfirst, hks]

theorem zsets_dels {ks : List Str} : (ks.foldl del s).zsets = s.zsets := by
  induction ks generalizing s with
  | nil => rfl
  | cons first ks ih => rw [List.foldl_cons, ih, zsets_del]

theorem now_dels {ks : List Str} : (ks.foldl del s).now = s.now := by
  induction ks generalizing s with
  | nil => rfl
  | cons first ks ih => rw [List.foldl_cons, ih, now_del]

end Several

/-! ### Sorted sets -/

section Sorted
variable {m m' : Str} {score : Int}

@[simp] theorem hashes_setZset {members : ZSet} : (s.setZset z members).hashes = s.hashes := rfl

@[simp] theorem zsets_setZset {members : ZSet} : (s.setZset z members).zsets z = members :=
  Function.update_self ..

theorem zsets_setZset_of_ne {members : ZSet} (h : other ≠ z) :
    (s.setZset z members).zsets other = s.zsets other :=
  Function.update_of_ne h _ _

theorem zscore_congr {s s' : Keyspace} (h : s'.zsets z = s.zsets z) :
    s'.zscore z m = s.zscore z m := by
  rw [zscore, h, zscore]

theorem zscore_zadd : (s.zadd z score m).zscore z m' = if m' = m then some score else s.zscore z m' := by
  rw [zscore, zadd, zsets_setZset, Ordered.getElem?_insert, zscore]

theorem zscore_zrem : (s.zrem z m).zscore z m' = if m' = m then none else s.zscore z m' := by
  rw [zscore, zrem, zsets_setZset, Std.ExtTreeMap.getElem?_erase, zscore]
  simp only [Std.LawfulEqCmp.compare_eq_iff_eq, eq_comm (a := m)]

theorem zscore_zremrangebyscore {max : Int} :
    (s.zremrangebyscore z max).zscore z m = (s.zscore z m).filter fun score => max < score := by
  rw [zscore, zremrangebyscore, zsets_setZset, Std.ExtTreeMap.getElem?_filter', zscore]

theorem zscore_zremrangebyrank {stop : Nat} : (s.zremrangebyrank z stop).zscore z m =
    if m ∈ ((s.ranked z).take (stop + 1)).map Prod.fst then none else s.zscore z m := by
  rw [zscore, zremrangebyrank, zsets_setZset, Std.ExtTreeMap.getElem?_filter', zscore]
  split
  · next h =>
    simp only [h, not_true_eq_false, decide_false]
    cases (s.zsets z)[m]? <;> rfl
  · next h =>
    simp only [h, not_false_eq_true, decide_true]
    cases (s.zsets z)[m]? <;> rfl

theorem mem_ranked : (m, score) ∈ s.ranked z ↔ s.zscore z m = some score := by
  rw [ranked, List.mem_insertionSort, Std.ExtTreeMap.mem_toList_iff_getElem?_eq_some, zscore]

theorem length_ranked : (s.ranked z).length = s.zcard z := by
  rw [ranked, List.length_insertionSort, Std.ExtTreeMap.length_toList, zcard]

theorem nodup_ranked : ((s.ranked z).map Prod.fst).Nodup := by
  have hperm : (s.ranked z).Perm (s.zsets z).toList := List.perm_insertionSort ..
  exact (hperm.map Prod.fst).nodup_iff.mpr (Ordered.nodup_keys _)

theorem mem_zadd : m' ∈ (s.zadd z score m).zsets z ↔ m' = m ∨ m' ∈ s.zsets z := by
  rw [zadd, zsets_setZset, Ordered.mem_insert_map]

theorem mem_zremrangebyrank {stop : Nat} : m ∈ (s.zremrangebyrank z stop).zsets z ↔
    m ∉ ((s.ranked z).take (stop + 1)).map Prod.fst ∧ m ∈ s.zsets z := by
  rw [Ordered.mem_iff_getElem?, Ordered.mem_iff_getElem?]
  have hscore := @zscore_zremrangebyrank s z m stop
  rw [zscore, zscore] at hscore
  rw [hscore]
  split
  · next hremoved =>
    refine iff_of_false ?_ fun h => h.1 hremoved
    rintro ⟨v, hv⟩
    cases hv
  · next hkept => exact (and_iff_right hkept).symm

/-- As many members go as there are ranks. -/
theorem zcard_zremrangebyrank {stop : Nat} :
    (s.zremrangebyrank z stop).zcard z = s.zcard z - (stop + 1) := by
  have hremoved : (((s.ranked z).take (stop + 1)).map Prod.fst).Nodup :=
    nodup_ranked.sublist ((List.take_sublist _ _).map _)
  have hall : ((((s.zremrangebyrank z stop).zsets z).toList.map Prod.fst) ++
      ((s.ranked z).take (stop + 1)).map Prod.fst).Perm ((s.ranked z).map Prod.fst) := by
    rw [List.perm_ext_iff_of_nodup ?_ nodup_ranked]
    · intro a
      have hmem : ∀ (zs : ZSet), a ∈ zs.toList.map Prod.fst ↔ a ∈ zs := by
        intro zs
        rw [Std.ExtTreeMap.map_fst_toList_eq_keys, Std.ExtTreeMap.mem_keys]
      have hranked : a ∈ (s.ranked z).map Prod.fst ↔ a ∈ s.zsets z := by
        rw [← hmem]
        exact ((List.perm_insertionSort _ _).map Prod.fst).mem_iff
      have htake : a ∈ ((s.ranked z).take (stop + 1)).map Prod.fst → a ∈ (s.ranked z).map Prod.fst :=
        fun ha => ((List.take_sublist _ _).map Prod.fst).subset ha
      rw [List.mem_append, hmem, mem_zremrangebyrank, hranked]
      rw [hranked] at htake
      tauto
    · rw [List.nodup_append]
      refine ⟨Ordered.nodup_keys _, hremoved, ?_⟩
      rintro a ha b hb rfl
      rw [Std.ExtTreeMap.map_fst_toList_eq_keys, Std.ExtTreeMap.mem_keys, mem_zremrangebyrank] at ha
      exact ha.1 hb
  have hlen := hall.length_eq
  rw [List.length_append, List.length_map, List.length_map, List.length_map, List.length_take,
    Std.ExtTreeMap.length_toList, length_ranked] at hlen
  rw [zcard]
  omega

theorem mem_zrangebyscore {max : Int} :
    (m, score) ∈ s.zrangebyscore z max ↔ s.zscore z m = some score ∧ score ≤ max := by
  rw [zrangebyscore, List.mem_filter, mem_ranked, decide_eq_true_eq]

end Sorted
end Keyspace
end RedisCluster.Library
