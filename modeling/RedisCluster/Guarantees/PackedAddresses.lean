import RedisCluster.Guarantees.HealthNames

/-!
# Numbers of addresses as keys

A number is printed as the ip in its upper half and the `int` in its lower half. The text is read
back unless the `int` is 0, and no two numbers are printed alike, so what is noted under the text
of a redis that was asked comes from this redis.
-/

set_option autoImplicit false

namespace RedisCluster.Guarantees
open Library Source

/-! ## Printing and reading -/

section Printed
variable {a b : UInt64}

theorem port_eq_zero_iff : (int64Ipv4 a).2 = 0 ↔ a &&& 0x00000000FFFFFFFF = 0 := by
  have hbound : (a &&& 0x00000000FFFFFFFF).toNat < 2 ^ 32 := by
    rw [low_toNat]
    exact Nat.mod_lt _ (Nat.two_pow_pos _)
  have hlow : (UInt32.ofInt (int64Ipv4 a).2).toNat = (a &&& 0x00000000FFFFFFFF).toNat := by
    unfold int64Ipv4
    dsimp only
    exact ofInt_toInt32 hbound
  constructor
  · intro hport
    rw [hport] at hlow
    exact UInt64.toNat.inj hlow.symm
  · intro hzero
    unfold int64Ipv4
    dsimp only
    rw [hzero]
    decide

/-- The ip and the port are found in the text. -/
theorem int64StrIpv4_injective : Function.Injective int64StrIpv4 := by
  intro a b h
  have hcut := Text.cutAt_append (ip_no_colon a) (Text.decimal (int64Ipv4 a).2)
  rw [← int64StrIpv4, h, int64StrIpv4, Text.cutAt_append (ip_no_colon b), Option.some_inj,
    Prod.mk.injEq] at hcut
  obtain ⟨hip, hport⟩ := hcut
  rw [← ipv4Int64_int64Ipv4 a, ← ipv4Int64_int64Ipv4 b, hip, Text.decimal_injective hport]

end Printed

/-! ## Keys -/

/-- The redis has answered `CONFIG GET slaveof` in one of these attempts. -/
def Answered (rounds : List RedisRvs) (x : UInt64) : Prop :=
  ∃ rvs ∈ rounds, ∃ (rv : RedisRv) (slaveof : Str), rvs[x]? = some rv ∧ slaveofReply rv = some slaveof

section Keys
variable {net : Network} {x : UInt64}

/-- What is noted for a redis is an answer of this redis. -/
theorem noted_iff {rvs : RedisRvs} {cfgs : StrMap} : int64StrIpv4 x ∈ noteAnswers rvs cfgs ↔
    int64StrIpv4 x ∈ cfgs ∨ Answered [rvs] x := by
  rw [mem_noteAnswers]
  apply or_congr_right
  constructor
  · rintro ⟨y, rv, slaveof, hrv, hreply, heq⟩
    obtain rfl := int64StrIpv4_injective heq
    exact ⟨rvs, List.mem_singleton_self _, rv, slaveof, hrv, hreply⟩
  · rintro ⟨_, hrvs, rv, slaveof, hrv, hreply⟩
    obtain rfl := List.mem_singleton.mp hrvs
    exact ⟨x, rv, slaveof, hrv, hreply, rfl⟩

theorem answered_cons {rvs : RedisRvs} {rounds : List RedisRvs} :
    Answered (rvs :: rounds) x ↔ Answered [rvs] x ∨ Answered rounds x := by
  simp [Answered]

/-- Every key of `check_redis` is noted for the redis that it is the text of. -/
theorem checkRedis_noted_iff (tries : Nat) (addrs : Addrs) (cfgs : StrMap) :
    int64StrIpv4 x ∈ checkRedis net tries addrs cfgs ↔
      int64StrIpv4 x ∈ cfgs ∨ Answered (attempts net tries addrs cfgs) x := by
  induction tries generalizing addrs cfgs with
  | zero => rw [checkRedis_zero, noted_iff, attempts]
  | succ tries ih =>
    rw [checkRedis_succ, attempts, answered_cons, ← or_assoc, ← noted_iff]
    split
    · exact (or_iff_left (by simp [Answered])).symm
    · exact ih _ _

/-- Every key of `do_slaveof_cmd` is noted for the redis that it is the text of. -/
theorem mem_okAddrs_iff {rv : RedisRvs} : int64StrIpv4 x ∈ okAddrs rv ↔
    ∃ r, rv[x]? = some r ∧ r.type = .status ∧ r.str = "OK".toList := by
  have hloop : ∀ (entries : List (UInt64 × RedisRv)) (ok : Addrs),
      int64StrIpv4 x ∈ entries.foldl (fun okAddrs entry =>
        if entry.2.type = .status ∧ entry.2.str = "OK".toList then okAddrs.insert (int64StrIpv4 entry.1)
        else okAddrs) ok ↔
      int64StrIpv4 x ∈ ok ∨ ∃ r, (x, r) ∈ entries ∧ r.type = .status ∧ r.str = "OK".toList := by
    intro entries
    induction entries with
    | nil => simp
    | cons entry entries ih =>
      intro ok
      obtain ⟨y, r⟩ := entry
      rw [List.foldl_cons, ih]
      simp only [List.mem_cons, Prod.mk.injEq, or_and_right, exists_or]
      rw [← or_assoc]
      apply or_congr_left
      split
      · next hok =>
        rw [Ordered.mem_insert, int64StrIpv4_injective.eq_iff, or_comm]
        apply or_congr_right
        constructor
        · rintro rfl
          exact ⟨r, ⟨rfl, rfl⟩, hok⟩
        · rintro ⟨_, ⟨rfl, _⟩, _⟩
          rfl
      · next hnot =>
        refine (or_iff_left ?_).symm
        rintro ⟨_, ⟨_, rfl⟩, hok⟩
        exact hnot hok
  rw [okAddrs, hloop]
  simp only [Std.ExtTreeMap.mem_toList_iff_getElem?_eq_some, Std.ExtTreeSet.not_mem_empty, false_or]

end Keys

/-- A number with a port is read back from its text, no two numbers have one text, and what
`check_redis` and `do_slaveof_cmd` note under the text of a redis are the answers of this redis. A
number without a port is printed like any other, but not read back. -/
theorem packed_addresses :
    (∀ a : UInt64, a &&& 0x00000000FFFFFFFF ≠ 0 → strIpv4Int64 (int64StrIpv4 a) = some a) ∧
    Function.Injective int64StrIpv4 ∧
    (∀ (net : Network) (tries : Nat) (addrs : Addrs) (x : UInt64),
      int64StrIpv4 x ∈ checkRedis net tries addrs ∅ ↔ Answered (attempts net tries addrs ∅) x) ∧
    ∀ (rv : RedisRvs) (x : UInt64), int64StrIpv4 x ∈ okAddrs rv ↔
      ∃ r, rv[x]? = some r ∧ r.type = .status ∧ r.str = "OK".toList := by
  refine ⟨?_, int64StrIpv4_injective, ?_, fun rv x => mem_okAddrs_iff⟩
  · intro a hlow
    exact strIpv4Int64_int64StrIpv4 (port_eq_zero_iff.not.mpr hlow)
  · intro net tries addrs x
    rw [checkRedis_noted_iff]
    exact or_iff_right Std.ExtTreeMap.not_mem_empty

/-- A port whose `int` is negative. -/
theorem negative_port_read_back :
    (0x0700000AFFFFFFFF : UInt64) &&& 0x00000000FFFFFFFF ≠ 0 ∧
      strIpv4Int64 (int64StrIpv4 0x0700000AFFFFFFFF) = some 0x0700000AFFFFFFFF :=
  ⟨by decide, packed_addresses.1 0x0700000AFFFFFFFF (by decide)⟩

end RedisCluster.Guarantees
