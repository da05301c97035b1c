import RedisCluster.Guarantees.ReplicationStar

/-!
# Redis under their configured names

`check_redis` sends to the number of an address and notes an answer under the text that it
prints for the number. A configured text that reads as the same number but is spelled
otherwise is never found healthy, and two spellings are one redis.
-/

set_option autoImplicit false

namespace RedisCluster.Guarantees
open Library Source

/-! ## Texts as they are printed -/

/-- Four bytes without leading zeros, and a port. -/
def Dotted (addr : Str) : Prop :=
  ∃ (a b c d : Nat) (port : Int), a < 256 ∧ b < 256 ∧ c < 256 ∧ d < 256 ∧ port ≠ 0 ∧
    -2 ^ 31 ≤ port ∧ port < 2 ^ 31 ∧
    addr = (Text.decimal a ++ '.' :: Text.decimal b ++ '.' :: Text.decimal c ++ '.' :: Text.decimal d) ++
      ':' :: Text.decimal port

theorem dotted_int64StrIpv4 {x : UInt64} (hport : (int64Ipv4 x).2 ≠ 0) :
    Dotted (int64StrIpv4 x) := by
  obtain ⟨lo, hi⟩ := port_bounds x
  have hbyte : ∀ n, n % 256 < 256 := fun n => Nat.mod_lt n (by decide)
  refine ⟨_, _, _, _, _, hbyte _, hbyte _, hbyte _, hbyte _, hport, lo, hi, rfl⟩

/-- Every byte is found where it was put. -/
theorem inetNtop_bytes {a b c d : Nat} (ha : a < 256) (hb : b < 256) (hc : c < 256) (hd : d < 256) :
    inetNtop (UInt32.ofNat (a + 2 ^ 8 * b + 2 ^ 16 * c + 2 ^ 24 * d)) =
      Text.decimal a ++ '.' :: Text.decimal b ++ '.' :: Text.decimal c ++ '.' :: Text.decimal d := by
  have htotal : (UInt32.ofNat (a + 2 ^ 8 * b + 2 ^ 16 * c + 2 ^ 24 * d)).toNat =
      a + 2 ^ 8 * b + 2 ^ 16 * c + 2 ^ 24 * d := by
    rw [UInt32.toNat_ofNat']
    omega
  unfold inetNtop
  simp only [UInt32.toNat_shiftRight, htotal, Nat.shiftRight_eq_div_pow]
  have h0 : (a + 2 ^ 8 * b + 2 ^ 16 * c + 2 ^ 24 * d) / 2 ^ ((8 * 0 : UInt32).toNat % 32) % 256 = a := by
    show _ / 2 ^ 0 % 256 = a
    omega
  have h1 : (a + 2 ^ 8 * b + 2 ^ 16 * c + 2 ^ 24 * d) / 2 ^ ((8 * 1 : UInt32).toNat % 32) % 256 = b := by
    show _ / 2 ^ 8 % 256 = b
    omega
  have h2 : (a + 2 ^ 8 * b + 2 ^ 16 * c + 2 ^ 24 * d) / 2 ^ ((8 * 2 : UInt32).toNat % 32) % 256 = c := by
    show _ / 2 ^ 16 % 256 = c
    omega
  have h3 : (a + 2 ^ 8 * b + 2 ^ 16 * c + 2 ^ 24 * d) / 2 ^ ((8 * 3 : UInt32).toNat % 32) % 256 = d := by
    show _ / 2 ^ 24 % 256 = d
    omega
  have cast : ∀ n v : Nat, n % 256 = v → (n : Int) % 256 = v := by omega
  rw [cast _ a h0, cast _ b h1, cast _ c h2, cast _ d h3]

/-- The upper half of a number is the address. -/
theorem upper_ipv4Int64 (ip : Str) (port : Int) :
    (ipv4Int64 ip port >>> 32).toUInt32 = inetAddr ip := by
  have hip := (inetAddr ip).toNat_lt
  have hport := (UInt32.ofInt port).toNat_lt
  apply UInt32.toNat.inj
  have hhigh : ((inetAddr ip).toUInt64 <<< 32).toNat = 2 ^ 32 * (inetAddr ip).toNat := by
    simp [UInt64.toNat_shiftLeft, Nat.shiftLeft_eq]
    omega
  have hall : (ipv4Int64 ip port).toNat = 2 ^ 32 * (inetAddr ip).toNat + (UInt32.ofInt port).toNat := by
    rw [ipv4Int64, UInt64.toNat_or, hhigh, UInt32.toNat_toUInt64, ← Nat.two_pow_add_eq_or_of_lt hport]
  simp only [UInt64.toNat_toUInt32, UInt64.toNat_shiftRight, hall, Nat.shiftRight_eq_div_pow]
  show _ / 2 ^ 32 % 2 ^ 32 = _
  omega

/-- A dotted text is what is printed for the number that it reads as. -/
theorem Dotted.printed {addr : Str} (h : Dotted addr) :
    ∃ x, strIpv4Int64 addr = some x ∧ int64StrIpv4 x = addr := by
  obtain ⟨a, b, c, d, port, ha, hb, hc, hd, hport, lo, hi, rfl⟩ := h
  rw [← inetNtop_bytes ha hb hc hd]
  generalize UInt32.ofNat (a + 2 ^ 8 * b + 2 ^ 16 * c + 2 ^ 24 * d) = n
  have hcolon : ':' ∉ inetNtop n := not_mem_inetNtop n (by decide) (by decide) (by decide)
  have hread := strIpv4_text hcolon (inetNtop_ne_nil n) hport lo hi
  refine ⟨ipv4Int64 (inetNtop n) port, by rw [strIpv4Int64, hread]; rfl, ?_⟩
  have hip : (int64Ipv4 (ipv4Int64 (inetNtop n) port)).1 = inetNtop n := by
    rw [int64Ipv4, upper_ipv4Int64, inetAddr_inetNtop]
  rw [int64StrIpv4, hip, int64Ipv4_ipv4Int64 lo hi]

/-! ## The attempts -/

section Attempts
variable (net : Network)

/-- What an attempt notes. -/
def noteAnswers (rvs : RedisRvs) (cfgs : StrMap) : StrMap :=
  rvs.toList.foldl (fun cfgs (ipv4, rv) =>
    match slaveofReply rv with
    | some slaveof => cfgs.insert (int64StrIpv4 ipv4) slaveof
    | none => cfgs) cfgs

/-- The replies of the attempts of `check_redis`, one after the other. -/
def attempts : Nat → Addrs → StrMap → List RedisRvs
  | 0, addrs, _ => [net 1 (configCommands addrs)]
  | tries + 1, addrs, cfgs =>
    let rvs := net (tries + 2) (configCommands addrs)
    let left : Addrs := addrs.filter (· ∉ noteAnswers rvs cfgs)
    rvs :: if left.isEmpty then [] else attempts tries left (noteAnswers rvs cfgs)

/-- The redis of the address answers `CONFIG GET slaveof` in one of the attempts. -/
def Answers (tries : Nat) (addrs : Addrs) (addr : Str) : Prop :=
  ∃ rvs ∈ attempts net tries addrs ∅, ∃ (x : UInt64) (rv : RedisRv) (slaveof : Str),
    strIpv4Int64 addr = some x ∧ rvs[x]? = some rv ∧ slaveofReply rv = some slaveof

variable {net}

theorem checkRedis_zero (addrs : Addrs) (cfgs : StrMap) :
    checkRedis net 0 addrs cfgs = noteAnswers (net 1 (configCommands addrs)) cfgs := by
  rw [checkRedis]
  rfl

theorem checkRedis_succ (tries : Nat) (addrs : Addrs) (cfgs : StrMap) :
    checkRedis net (tries + 1) addrs cfgs =
      if (addrs.filter (· ∉ noteAnswers (net (tries + 2) (configCommands addrs)) cfgs)).isEmpty then
        noteAnswers (net (tries + 2) (configCommands addrs)) cfgs
      else checkRedis net tries
        (addrs.filter (· ∉ noteAnswers (net (tries + 2) (configCommands addrs)) cfgs))
        (noteAnswers (net (tries + 2) (configCommands addrs)) cfgs) := by
  rw [checkRedis]
  rfl

theorem mem_noteAnswers {rvs : RedisRvs} {cfgs : StrMap} {addr : Str} :
    addr ∈ noteAnswers rvs cfgs ↔ addr ∈ cfgs ∨ ∃ (x : UInt64) (rv : RedisRv) (slaveof : Str),
      rvs[x]? = some rv ∧ slaveofReply rv = some slaveof ∧ addr = int64StrIpv4 x := by
  have hloop : ∀ (entries : List (UInt64 × RedisRv)) (cfgs : StrMap),
      addr ∈ entries.foldl (fun cfgs (ipv4, rv) =>
        match slaveofReply rv with
        | some slaveof => cfgs.insert (int64StrIpv4 ipv4) slaveof
        | none => cfgs) cfgs ↔
      addr ∈ cfgs ∨ ∃ (x : UInt64) (rv : RedisRv) (slaveof : Str),
        (x, rv) ∈ entries ∧ slaveofReply rv = some slaveof ∧ addr = int64StrIpv4 x := by
    intro entries
    induction entries with
    | nil => simp
    | cons entry entries ih =>
      intro cfgs
      obtain ⟨x, rv⟩ := entry
      rw [List.foldl_cons, ih]
      simp only [List.mem_cons, Prod.mk.injEq, or_and_right, exists_or, and_assoc]
      rw [← or_assoc]
      apply or_congr_left
      cases hreply : slaveofReply rv with
      | none => simp [hreply]
      | some slaveof => simp [hreply, Ordered.mem_insert_map, or_comm, -Std.ExtTreeMap.mem_insert]
  simp only [noteAnswers, hloop, Std.ExtTreeMap.mem_toList_iff_getElem?_eq_some]

/-- What is noted stays. -/
theorem checkRedis_mono {tries : Nat} {addrs : Addrs} {cfgs : StrMap} {addr : Str} (h : addr ∈ cfgs) :
    addr ∈ checkRedis net tries addrs cfgs := by
  induction tries generalizing addrs cfgs with
  | zero =>
    rw [checkRedis_zero, mem_noteAnswers]
    exact Or.inl h
  | succ tries ih =>
    have hnoted : addr ∈ noteAnswers (net (tries + 2) (configCommands addrs)) cfgs :=
      mem_noteAnswers.mpr (Or.inl h)
    rw [checkRedis_succ]
    split
    · exact hnoted
    · exact ih hnoted

/-- An answer in any attempt is noted, under the text that is printed for its number. -/
theorem attempt_noted {tries : Nat} {addrs : Addrs} {cfgs : StrMap} {rvs : RedisRvs} {x : UInt64}
    {rv : RedisRv} {slaveof : Str} (h : rvs ∈ attempts net tries addrs cfgs)
    (hrv : rvs[x]? = some rv) (hreply : slaveofReply rv = some slaveof) :
    int64StrIpv4 x ∈ checkRedis net tries addrs cfgs := by
  induction tries generalizing addrs cfgs with
  | zero =>
    obtain rfl := List.mem_singleton.mp h
    rw [checkRedis_zero, mem_noteAnswers]
    exact Or.inr ⟨x, rv, slaveof, hrv, hreply, rfl⟩
  | succ tries ih =>
    rw [attempts] at h
    rw [checkRedis_succ]
    rcases List.mem_cons.mp h with rfl | hlater
    · have hnoted := (@mem_noteAnswers _ cfgs (int64StrIpv4 x)).mpr
        (Or.inr ⟨x, rv, slaveof, hrv, hreply, rfl⟩)
      split
      · exact hnoted
      · exact checkRedis_mono hnoted
    · split at hlater
      · cases hlater
      · next hleft =>
        rw [if_neg hleft]
        exact ih hlater

end Attempts

/-! ## Recognition -/

/-- Different texts are probed as different endpoints, and a redis that answers is healthy
under its text: `check_check` leaves it alone, and `gen_legal_redis` finds what it said. -/
structure Recognised (addrs : Addrs) : Prop where
  apart : ∀ addr ∈ addrs, ∀ other ∈ addrs, strIpv4Int64 addr = strIpv4Int64 other → addr = other
  healthy : ∀ (net : Network) (tries : Nat), ∀ addr ∈ addrs, Answers net tries addrs addr →
    (∃ slaveof, (checkRedis net tries addrs ∅)[addr]? = some slaveof) ∧
      ∀ cluster node, checkCheckNode (checkRedis net tries addrs ∅) cluster (addr, node) = pure ()

theorem recognised_of_dotted {addrs : Addrs} (h : ∀ addr ∈ addrs, Dotted addr) :
    Recognised addrs where
  apart := by
    intro addr haddr other hother heq
    obtain ⟨x, hread, hprint⟩ := (h addr haddr).printed
    obtain ⟨y, hread', hprint'⟩ := (h other hother).printed
    rw [hread, hread', Option.some_inj] at heq
    rw [← hprint, ← hprint', heq]
  healthy := by
    rintro net tries addr haddr ⟨rvs, hrvs, x, rv, slaveof, hread, hrv, hreply⟩
    obtain ⟨y, hread', hprint⟩ := (h addr haddr).printed
    obtain rfl := Option.some.inj (hread.symm.trans hread')
    have hmem := attempt_noted hrvs hrv hreply
    rw [hprint] at hmem
    exact ⟨Ordered.mem_iff_getElem?.mp hmem, fun cluster node => if_pos hmem⟩

/-- Every address that reads as a number is asked. -/
theorem asked_configCommands {addrs : Addrs} {addr : Str} {x : UInt64} (h : addr ∈ addrs)
    (hread : strIpv4Int64 addr = some x) : x ∈ configCommands addrs := by
  have hget : (configCommands addrs)[x]? = some ["CONFIG".toList, "GET".toList, "slaveof".toList] := by
    unfold configCommands
    refine (Ordered.getElem?_foldl_insert (f := fun addr => (strIpv4Int64 addr).map fun ipv4 =>
      (ipv4, ["CONFIG".toList, "GET".toList, "slaveof".toList])) ?_ ?_ ?_).mpr (Or.inl ⟨addr, ?_, ?_⟩)
    · intro m e k v heq
      obtain ⟨ipv4, hipv4, heq⟩ := Option.map_eq_some_iff.mp heq
      cases heq
      rw [hipv4]
    · intro m e heq
      rw [Option.map_eq_none_iff.mp heq]
    · intro e _ e' _ k v v' heq heq'
      obtain ⟨_, _, heq⟩ := Option.map_eq_some_iff.mp heq
      obtain ⟨_, _, heq'⟩ := Option.map_eq_some_iff.mp heq'
      cases heq
      cases heq'
      rfl
    · exact Std.ExtTreeSet.mem_toList.mpr h
    · rw [hread]
      rfl
  exact Ordered.mem_iff_getElem?.mpr ⟨_, hget⟩

theorem answers_reporting {addrs : Addrs} {addr : Str} {x : UInt64} (h : addr ∈ addrs)
    (hread : strIpv4Int64 addr = some x) : Answers (reporting fun _ => []) 0 addrs addr := by
  obtain ⟨args, hargs⟩ := Ordered.mem_iff_getElem?.mp (asked_configCommands h hread)
  refine ⟨_, List.mem_singleton.mpr rfl, x, .mk .array 0 []
    [.mk .string 0 "slaveof".toList [], .mk .string 0 [] []], [], hread, ?_, rfl⟩
  rw [reporting, Std.ExtTreeMap.getElem?_map, hargs]
  rfl

/-- Where every redis answers, only printed texts are found healthy. -/
theorem dotted_of_recognised {addrs : Addrs} (accepted : ∀ addr ∈ addrs, isvalidAddr addr = true)
    (h : Recognised addrs) : ∀ addr ∈ addrs, Dotted addr := by
  intro addr haddr
  obtain ⟨parsed, hparsed⟩ := Option.isSome_iff_exists.mp (accepted addr haddr)
  have hread : strIpv4Int64 addr = some (ipv4Int64 parsed.1 parsed.2) := by
    rw [strIpv4Int64, hparsed]
    rfl
  obtain ⟨⟨slaveof, hfound⟩, _⟩ := h.healthy _ 0 addr haddr (answers_reporting haddr hread)
  have hmem : addr ∈ checkRedis (reporting fun _ => []) 0 addrs ∅ :=
    Ordered.mem_iff_getElem?.mpr ⟨slaveof, hfound⟩
  rw [checkRedis_zero, mem_noteAnswers] at hmem
  rcases hmem with hnone | ⟨x, rv, _, hrv, _, rfl⟩
  · simp at hnone
  · obtain ⟨text, htext⟩ := mem_configCommands
      ((reports_reporting fun _ => []).asked _ _ x (Ordered.mem_iff_getElem?.mpr ⟨rv, hrv⟩))
    exact dotted_int64StrIpv4 (port_of_strIpv4Int64 htext)

/-- Configured addresses are recognised exactly where all are spelled as they are printed.
`accepted` is what `get_config` lets through; leading zeros are among it. -/
theorem recognised_iff (addrs : Addrs) (accepted : ∀ addr ∈ addrs, isvalidAddr addr = true) :
    Recognised addrs ↔ ∀ addr ∈ addrs, Dotted addr :=
  ⟨dotted_of_recognised accepted, recognised_of_dotted⟩

/-- Two redis on one host, each of which is found under its own text. -/
theorem recognised_iff_example :
    Recognised (.ofList ["10.0.0.7:6379".toList, "10.0.0.7:6380".toList]) := by
  have dotted : ∀ addr ∈ (.ofList ["10.0.0.7:6379".toList, "10.0.0.7:6380".toList] : Addrs), Dotted addr := by
    intro addr h
    have hspelled : addr = "10.0.0.7:6379".toList ∨ addr = "10.0.0.7:6380".toList := by simpa using h
    rcases hspelled with rfl | rfl
    · exact ⟨10, 0, 0, 7, 6379, by decide +kernel⟩
    · exact ⟨10, 0, 0, 7, 6380, by decide +kernel⟩
  refine (recognised_iff _ fun addr h => ?_).mpr dotted
  have hspelled : addr = "10.0.0.7:6379".toList ∨ addr = "10.0.0.7:6380".toList := by simpa using h
  rcases hspelled with rfl | rfl <;> decide +kernel

/-- A leading zero in the port: the redis answers, and is not found. -/
theorem leading_zero_unrecognised :
    isvalidAddr "10.0.0.7:06379".toList = true ∧
      ¬ Recognised (.ofList ["10.0.0.7:06379".toList]) := by
  refine ⟨by decide +kernel, fun h => ?_⟩
  have hmem : "10.0.0.7:06379".toList ∈ (.ofList ["10.0.0.7:06379".toList] : Addrs) := by
    decide +kernel
  have hread : strIpv4Int64 "10.0.0.7:06379".toList = some (ipv4Int64 "10.0.0.7".toList 6379) := by
    decide +kernel
  obtain ⟨⟨slaveof, hfound⟩, _⟩ := h.healthy _ 0 _ hmem (answers_reporting hmem hread)
  have hnot : "10.0.0.7:06379".toList ∉ checkRedis (reporting fun _ => []) 0
      (.ofList ["10.0.0.7:06379".toList]) ∅ := by
    decide +kernel
  exact hnot (Ordered.mem_iff_getElem?.mpr ⟨slaveof, hfound⟩)

end RedisCluster.Guarantees
