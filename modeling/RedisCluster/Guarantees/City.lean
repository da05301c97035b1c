import RedisCluster.Library.Words
import RedisCluster.Source.City

/-!
# The hash of a key

`CityHash64` loads the bytes of the key and no others, and each of them. Users whose numbers
have one length and differ in their first digits only have different hashes; how evenly keys are
spread is not asked.
-/

set_option autoImplicit false

namespace RedisCluster.Guarantees
open Library Source

/-! ## What is loaded -/

/-- A byte that one of these loads has read. -/
def LoadsByte (cs : List Access) (i : Nat) : Prop := ∃ c ∈ cs, c.pos ≤ i ∧ i < c.pos + c.size

section Bytes
variable {cs cs' : List Access} {c : Access} {i : Nat}

@[simp] theorem loadsByte_nil : ¬ LoadsByte [] i := by
  simp [LoadsByte]

@[simp] theorem loadsByte_cons :
    LoadsByte (c :: cs) i ↔ (c.pos ≤ i ∧ i < c.pos + c.size) ∨ LoadsByte cs i := by
  simp [LoadsByte]

@[simp] theorem loadsByte_append :
    LoadsByte (cs ++ cs') i ↔ LoadsByte cs i ∨ LoadsByte cs' i := by
  simp only [LoadsByte, List.mem_append, or_and_right, exists_or]

end Bytes

section Loads
variable {mem : Memory} {s : Nat} {len : UInt64} {i : Nat}

@[simp] theorem calls_fetch64 (p : Nat) (u : Unit) :
    Program.calls (serveLoad mem) (fetch64 p) u = [⟨p, 8⟩] := rfl

@[simp] theorem calls_fetch32 (p : Nat) (u : Unit) :
    Program.calls (serveLoad mem) (fetch32 p) u = [⟨p, 4⟩] := rfl

@[simp] theorem calls_fetch8 (p : Nat) (u : Unit) :
    Program.calls (serveLoad mem) (fetch8 p) u = [⟨p, 1⟩] := rfl

@[simp] theorem calls_weakHashLen32 (p : Nat) (a b : UInt64) (u : Unit) :
    Program.calls (serveLoad mem) (weakHashLen32 p a b) u =
      [⟨p, 8⟩, ⟨p + 8, 8⟩, ⟨p + 16, 8⟩, ⟨p + 24, 8⟩] := rfl

theorem loads_hashLen0to16 (short : len.toNat ≤ 16) :
    LoadsByte (Program.calls (serveLoad mem) (hashLen0to16 s len) ()) i ↔
      s ≤ i ∧ i < s + len.toNat := by
  unfold hashLen0to16
  split
  · next h =>
    have hlen : 8 < len.toNat := h
    simp only [Program.calls_bind, Program.calls_pure, calls_fetch64, loadsByte_append,
      loadsByte_cons, loadsByte_nil, or_false]
    omega
  · split
    · next h8 h =>
      have h8' : len.toNat ≤ 8 := Nat.not_lt.mp h8
      have hlen : 4 ≤ len.toNat := h
      simp only [Program.calls_bind, Program.calls_pure, calls_fetch32, loadsByte_append,
        loadsByte_cons, loadsByte_nil, or_false]
      omega
    · split
      · next h8 h4 h =>
        have h4' : len.toNat < 4 := Nat.not_le.mp h4
        have hlen : 0 < len.toNat := h
        have hhalf : (len >>> 1).toNat = len.toNat / 2 := rfl
        simp only [Program.calls_bind, Program.calls_pure, calls_fetch8, loadsByte_append,
          loadsByte_cons, loadsByte_nil, or_false, hhalf]
        omega
      · next h =>
        have hlen : ¬ 0 < len.toNat := h
        simp only [Program.calls_pure, loadsByte_nil, false_iff]
        omega

theorem loads_hashLen17to32 (long : 16 < len.toNat) (short : len.toNat ≤ 32) :
    LoadsByte (Program.calls (serveLoad mem) (hashLen17to32 s len) ()) i ↔
      s ≤ i ∧ i < s + len.toNat := by
  simp only [hashLen17to32, Program.calls_bind, Program.calls_pure, calls_fetch64, loadsByte_append,
    loadsByte_cons, loadsByte_nil, or_false]
  omega

theorem loads_hashLen33to64 (long : 32 < len.toNat) (short : len.toNat ≤ 64) :
    LoadsByte (Program.calls (serveLoad mem) (hashLen33to64 s len) ()) i ↔
      s ≤ i ∧ i < s + len.toNat := by
  simp only [hashLen33to64, Program.calls_bind, Program.calls_pure, calls_fetch64, loadsByte_append,
    loadsByte_cons, loadsByte_nil, or_false]
  omega

/-- A round loads its 64 bytes. -/
theorem loads_cityChunk (st : CityState) (u : Unit) :
    LoadsByte (Program.calls (serveLoad mem) (cityChunk s st) u) i ↔ s ≤ i ∧ i < s + 64 := by
  simp only [cityChunk, Program.calls_bind, Program.calls_pure, calls_fetch64, calls_weakHashLen32,
    loadsByte_append, loadsByte_cons, loadsByte_nil, or_false]
  omega

theorem loads_cityChunks (rounds s : Nat) (st : CityState) (u : Unit) :
    LoadsByte (Program.calls (serveLoad mem) (cityChunks rounds s st) u) i ↔
      s ≤ i ∧ i < s + 64 * rounds := by
  induction rounds generalizing s st u with
  | zero =>
    simp only [cityChunks, Program.calls_pure, loadsByte_nil, false_iff]
    omega
  | succ rounds ih =>
    rw [cityChunks, Program.calls_bind, loadsByte_append, loads_cityChunk, ih]
    omega

/-- The `len` of the loop has no more than the last round too little. -/
theorem cityRounds (positive : 0 < len.toNat) :
    ((len - 1) &&& ~~~63).toNat / 64 = (len.toNat - 1) / 64 := by
  have hsub : (len - 1).toNat = len.toNat - 1 := UInt64.toNat_sub_of_le _ _ positive
  have hmask : (~~~63 : UInt64).toNat / 2 ^ 6 = 2 ^ 58 - 1 := by decide
  have hlt : (len.toNat - 1) / 2 ^ 6 < 2 ^ 58 := by
    have := len.toNat_lt
    omega
  calc ((len - 1) &&& ~~~63).toNat / 2 ^ 6
      = (len.toNat - 1) / 2 ^ 6 &&& (~~~63 : UInt64).toNat / 2 ^ 6 := by
        rw [UInt64.toNat_and, hsub, Nat.and_div_two_pow]
    _ = (len.toNat - 1) / 2 ^ 6 := by rw [hmask, Nat.and_two_pow_sub_one_of_lt_two_pow hlt]

/-- The rounds reach into the last 64 bytes, which are loaded before. -/
theorem loads_hashLenOver64 (long : 64 < len.toNat) :
    LoadsByte (Program.calls (serveLoad mem) (hashLenOver64 s len) ()) i ↔
      s ≤ i ∧ i < s + len.toNat := by
  have hrounds := @cityRounds len (by omega)
  simp only [hashLenOver64, Program.calls_bind, Program.calls_pure, calls_fetch64,
    calls_weakHashLen32, loadsByte_append, loadsByte_cons, loadsByte_nil, or_false, loads_cityChunks,
    hrounds]
  omega

theorem loads_cityHash64 :
    LoadsByte (cityLoads mem s len) i ↔ s ≤ i ∧ i < s + len.toNat := by
  unfold cityLoads cityHash64
  split
  · next h32 =>
    have h32' : len.toNat ≤ 32 := h32
    split
    · next h16 => exact loads_hashLen0to16 h16
    · next h16 => exact loads_hashLen17to32 (Nat.not_le.mp h16) h32'
  · next h32 =>
    split
    · next h64 => exact loads_hashLen33to64 (Nat.not_le.mp h32) h64
    · next h64 => exact loads_hashLenOver64 (Nat.not_le.mp h64)

end Loads

/-- A text of any length is loaded byte by byte and nothing beside it, and its hash is that of
any memory with the same text there. -/
theorem city_hash_of_key (mem : Memory) (s : Nat) (len : UInt64) :
    (∀ i, LoadsByte (cityLoads mem s len) i ↔ s ≤ i ∧ i < s + len.toNat) ∧
      ∀ mem' : Memory, (∀ i, s ≤ i → i < s + len.toNat → mem i = mem' i) →
        cityHash64Of mem s len = cityHash64Of mem' s len := by
  refine ⟨fun i => loads_cityHash64, fun mem' same => ?_⟩
  refine congrArg Prod.fst (Program.run_alike fun c hc u => ?_)
  have hread : mem.read c.pos c.size = mem'.read c.pos c.size := by
    apply List.map_congr_left
    intro i hi
    obtain ⟨hlo, hhi⟩ := List.mem_range'_1.mp hi
    obtain ⟨hs, hlen⟩ := (@loads_cityHash64 mem s len i).mp ⟨c, hc, hlo, hhi⟩
    exact same i hs hlen
  rw [serveLoad, serveLoad, hread]

/-! ## Keys that end alike -/

theorem shiftMix_injective : Function.Injective shiftMix :=
  (Words.xorShift_involutive (by decide) (by decide)).injective

/-- Nothing of the first word is lost. -/
theorem hashLen16_injective (v : UInt64) : Function.Injective fun u => hashLen16 u v := by
  have hmul : Function.Injective fun w : UInt64 => w * kMul :=
    Words.mul_injective (show kMul * 0xdc56e6f5090b32d9 = 1 by decide)
  intro u u' h
  have hb := shiftMix_injective (hmul h)
  have ha := shiftMix_injective ((UInt64.xor_right_inj v).mp (hmul hb))
  exact (UInt64.xor_left_inj v).mp (hmul ha)

/-- The last bytes of a short text that go into the second word, or into the other factor. -/
def cityTail (len : Nat) : Nat := if 8 < len then 8 else if 4 ≤ len then 4 else 1

section Short
variable {mem mem' : Memory} {s s' : Nat} {len : UInt64}

/-- The number at the end of texts that end alike. -/
theorem last_read_eq {size : Nat} (long : size ≤ len.toNat)
    (tail : ∀ i, len.toNat ≤ i + size → i < len.toNat → mem (s + i) = mem' (s' + i)) :
    Bytes.toNat (mem.read (s + len.toNat - size) size) =
      Bytes.toNat (mem'.read (s' + len.toNat - size) size) := by
  refine Memory.toNat_read_eq_iff.mpr fun i hi => ?_
  have hsame := tail (len.toNat - size + i) (by omega) (by omega)
  rw [← Nat.add_assoc, ← Nat.add_assoc, ← Nat.add_sub_assoc long, ← Nat.add_sub_assoc long] at hsame
  exact hsame

/-- Nine bytes and more: the last eight of them are the second word. -/
theorem hash_over8 (long : 8 < len.toNat) (short : len.toNat ≤ 16)
    (tail : ∀ i, len.toNat ≤ i + 8 → i < len.toNat → mem (s + i) = mem' (s' + i)) :
    cityHash64Of mem s len = cityHash64Of mem' s' len ↔ ∀ i < 8, mem (s + i) = mem' (s' + i) := by
  have hhash : ∀ (mem : Memory) (s : Nat), cityHash64Of mem s len =
      hashLen16 (.ofNat (Bytes.toNat (mem.read s 8)))
        (rotateByAtLeast1 (.ofNat (Bytes.toNat (mem.read (s + len.toNat - 8) 8)) + len) len) ^^^
          .ofNat (Bytes.toNat (mem.read (s + len.toNat - 8) 8)) := by
    intro mem s
    have h32 : len ≤ 32 := Nat.le_trans short (by decide : 16 ≤ 32)
    rw [cityHash64Of, cityHash64, if_pos h32, if_pos (show len ≤ 16 from short), hashLen0to16,
      if_pos (show len > 8 from long)]
    rfl
  rw [hhash, hhash, last_read_eq (Nat.le_of_lt long) tail, UInt64.xor_left_inj,
    (hashLen16_injective _).eq_iff, Words.ofNat_inj Memory.toNat_read_lt Memory.toNat_read_lt,
    Memory.toNat_read_eq_iff]

/-- Four bytes and more: the last four of them are the second word. -/
theorem hash_over4 (long : 4 ≤ len.toNat) (short : len.toNat ≤ 8)
    (tail : ∀ i, len.toNat ≤ i + 4 → i < len.toNat → mem (s + i) = mem' (s' + i)) :
    cityHash64Of mem s len = cityHash64Of mem' s' len ↔ ∀ i < 4, mem (s + i) = mem' (s' + i) := by
  have hhash : ∀ (mem : Memory) (s : Nat), cityHash64Of mem s len =
      hashLen16 (len + ((UInt32.ofNat (Bytes.toNat (mem.read s 4))).toUInt64 <<< 3))
        (UInt32.ofNat (Bytes.toNat (mem.read (s + len.toNat - 4) 4))).toUInt64 := by
    intro mem s
    have h32 : len ≤ 32 := Nat.le_trans short (by decide : 8 ≤ 32)
    have h16 : len ≤ 16 := Nat.le_trans short (by decide : 8 ≤ 16)
    rw [cityHash64Of, cityHash64, if_pos h32, if_pos h16, hashLen0to16,
      if_neg (show ¬ len > 8 from Nat.not_lt.mpr short), if_pos (show len ≥ 4 from long)]
    rfl
  have hshift : ∀ n : Nat, n < 256 ^ 4 → ((UInt32.ofNat n).toUInt64 <<< 3).toNat = 8 * n := by
    intro n hn
    have hthree : (3 : UInt64).toNat % 64 = 3 := rfl
    rw [UInt64.toNat_shiftLeft, UInt32.toNat_toUInt64, UInt32.toNat_ofNat_of_lt' hn, hthree,
      Nat.shiftLeft_eq]
    omega
  rw [hhash, hhash, last_read_eq long tail, (hashLen16_injective _).eq_iff, UInt64.add_right_inj,
    ← UInt64.toNat_inj, hshift _ Memory.toNat_read_lt, hshift _ Memory.toNat_read_lt,
    Nat.mul_right_inj (by decide), Memory.toNat_read_eq_iff]

/-- Fewer bytes: the first and the one in the middle are one factor, the last is the other. -/
theorem hash_under4 (long : 0 < len.toNat) (short : len.toNat < 4)
    (tail : mem (s + len.toNat - 1) = mem' (s' + len.toNat - 1)) :
    cityHash64Of mem s len = cityHash64Of mem' s' len ↔
      mem s = mem' s' ∧ mem (s + len.toNat / 2) = mem' (s' + len.toNat / 2) := by
  have hfetch : ∀ (mem : Memory) (p : Nat), UInt8.ofNat (Bytes.toNat (mem.read p 1)) = mem p := by
    intro mem p
    exact UInt8.ofNat_toNat
  have hhash : ∀ (mem : Memory) (s : Nat), cityHash64Of mem s len =
      shiftMix (((mem s).toUInt32 + ((mem (s + len.toNat / 2)).toUInt32 <<< 8)).toUInt64 * k2 ^^^
        (len + ((mem (s + len.toNat - 1)).toUInt32 <<< 2).toUInt64).toUInt32.toUInt64 * k3) * k2 := by
    intro mem s
    have h32 : len ≤ 32 := Nat.le_trans (Nat.le_of_lt short) (by decide : 4 ≤ 32)
    have h16 : len ≤ 16 := Nat.le_trans (Nat.le_of_lt short) (by decide : 4 ≤ 16)
    have h8 : ¬ len > 8 := Nat.not_lt.mpr (Nat.le_trans (Nat.le_of_lt short) (by decide : 4 ≤ 8))
    rw [cityHash64Of, cityHash64, if_pos h32, if_pos h16, hashLen0to16, if_neg h8,
      if_neg (show ¬ len ≥ 4 from Nat.not_le.mpr short), if_pos (show len > 0 from long)]
    rw [← hfetch mem s, ← hfetch mem (s + len.toNat / 2), ← hfetch mem (s + len.toNat - 1)]
    rfl
  have hmul : Function.Injective fun w : UInt64 => w * k2 :=
    Words.mul_injective (show k2 * 0xb5a360ae14bed6af = 1 by decide)
  rw [hhash, hhash, tail, hmul.eq_iff, shiftMix_injective.eq_iff, UInt64.xor_left_inj, hmul.eq_iff,
    UInt32.toUInt64_inj, Words.twoBytes_inj]

theorem hash_empty : cityHash64Of mem s 0 = k2 := by
  rw [cityHash64Of, cityHash64, if_pos (by decide), if_pos (by decide), hashLen0to16,
    if_neg (by decide), if_neg (by decide), if_neg (by decide)]
  rfl

/-- Half of the text is before the end that is the same. -/
theorem same_of_head {n : Nat} (size : n ≤ len.toNat) (half : len.toNat ≤ 2 * n)
    (tail : ∀ i < len.toNat, len.toNat ≤ i + n → mem (s + i) = mem' (s' + i)) :
    (∀ i < n, mem (s + i) = mem' (s' + i)) ↔ ∀ i < len.toNat, mem (s + i) = mem' (s' + i) := by
  constructor
  · intro hhead i hi
    rcases Nat.lt_or_ge i n with h | h
    · exact hhead i h
    · exact tail i hi (by omega)
  · intro hall i hi
    exact hall i (Nat.lt_of_lt_of_le hi size)

/-- Texts of the same length, at most 16 bytes, that end alike have different hashes unless they
are the same. -/
theorem short_texts_apart (short : len.toNat ≤ 16)
    (tail : ∀ i < len.toNat, len.toNat ≤ i + cityTail len.toNat → mem (s + i) = mem' (s' + i)) :
    cityHash64Of mem s len = cityHash64Of mem' s' len ↔
      ∀ i < len.toNat, mem (s + i) = mem' (s' + i) := by
  unfold cityTail at tail
  by_cases h8 : 8 < len.toNat
  · rw [if_pos h8] at tail
    rw [hash_over8 h8 short fun i hlast hi => tail i hi hlast]
    exact same_of_head (Nat.le_of_lt h8) short tail
  · rw [if_neg h8] at tail
    by_cases h4 : 4 ≤ len.toNat
    · rw [if_pos h4] at tail
      rw [hash_over4 h4 (Nat.not_lt.mp h8) fun i hlast hi => tail i hi hlast]
      exact same_of_head h4 (Nat.not_lt.mp h8) tail
    · rw [if_neg h4] at tail
      by_cases h0 : 0 < len.toNat
      · have hlast := tail (len.toNat - 1) (by omega) (by omega)
        rw [← Nat.add_sub_assoc h0, ← Nat.add_sub_assoc h0] at hlast
        rw [hash_under4 h0 (Nat.not_le.mp h4) hlast]
        constructor
        · rintro ⟨hfirst, hmiddle⟩ i hi
          have hcases : i = 0 ∨ i = len.toNat / 2 ∨ len.toNat ≤ i + 1 := by omega
          rcases hcases with rfl | rfl | h
          · exact hfirst
          · exact hmiddle
          · exact tail i hi h
        · intro hall
          exact ⟨hall 0 h0, hall (len.toNat / 2) (by omega)⟩
      · have hzero : len = 0 := UInt64.toNat_inj.mp (Nat.eq_zero_of_not_pos h0)
        rw [hzero, hash_empty, hash_empty]
        exact iff_of_true rfl fun i hi => absurd hi (Nat.not_lt_zero i)

end Short

/-- The byte of a character that is one. -/
def keyByte (c : Char) : UInt8 := UInt8.ofNat c.toNat

theorem keyByte_injective {c c' : Char} (hc : c.toNat < 256) (hc' : c'.toNat < 256)
    (same : keyByte c = keyByte c') : c = c' := by
  have hnat := congrArg UInt8.toNat same
  rw [keyByte, keyByte, UInt8.toNat_ofNat_of_lt' hc, UInt8.toNat_ofNat_of_lt' hc'] at hnat
  exact Char.toNat_inj.mp hnat

theorem decimal_byte {uid : Int} {c : Char} (h : c ∈ Text.decimal uid) : c.toNat < 256 := by
  rcases Text.mem_decimal h with rfl | h
  · decide
  · have hle : c.toNat ≤ '9'.toNat := (Char.isDigit_iff_toNat.mp h).2
    exact Nat.lt_of_le_of_lt hle (by decide)

/-- The memory with the key at 0. -/
def keyText (key : Str) : Memory := .of (key.map keyByte) fun _ => 0

theorem keyText_get {key : Str} {i : Nat} (h : i < key.length) : keyText key i = keyByte key[i] := by
  rw [keyText, Memory.of, List.getElem?_map, List.getElem?_eq_getElem h]
  rfl

/-- Two users whose numbers have the same length, at most 16, and end alike in as many digits as
make the second word never have the same hash. -/
theorem users_apart (uid uid' : Int)
    (length : (Text.decimal uid').length = (Text.decimal uid).length)
    (short : (Text.decimal uid).length ≤ 16)
    (tail : ∀ i, (Text.decimal uid).length ≤ i + cityTail (Text.decimal uid).length →
      (Text.decimal uid)[i]? = (Text.decimal uid')[i]?) :
    keyHash (Text.decimal uid) = keyHash (Text.decimal uid') ↔ uid = uid' := by
  have hlen : (UInt64.ofNat (Text.decimal uid).length).toNat = (Text.decimal uid).length :=
    UInt64.toNat_ofNat_of_lt' (Nat.lt_of_le_of_lt short (by decide))
  have hbyte : ∀ i < (Text.decimal uid).length,
      (keyText (Text.decimal uid) (0 + i) = keyText (Text.decimal uid') (0 + i) ↔
        (Text.decimal uid)[i]? = (Text.decimal uid')[i]?) := by
    intro i hi
    have hi' : i < (Text.decimal uid').length := length ▸ hi
    rw [Nat.zero_add, keyText_get hi, keyText_get hi', List.getElem?_eq_getElem hi,
      List.getElem?_eq_getElem hi', Option.some_inj]
    exact ⟨keyByte_injective (decimal_byte (List.getElem_mem hi)) (decimal_byte (List.getElem_mem hi')),
      congrArg keyByte⟩
  change cityHash64Of (keyText (Text.decimal uid)) 0 (.ofNat (Text.decimal uid).length) =
    cityHash64Of (keyText (Text.decimal uid')) 0 (.ofNat (Text.decimal uid').length) ↔ _
  rw [length, short_texts_apart (hlen.trans_le short), hlen]
  · rw [← Text.decimal_injective.eq_iff, List.ext_getElem?_iff]
    constructor
    · intro hall i
      rcases Nat.lt_or_ge i (Text.decimal uid).length with h | h
      · exact (hbyte i h).mp (hall i h)
      · rw [List.getElem?_eq_none h, List.getElem?_eq_none (length ▸ h)]
    · intro hall i hi
      exact (hbyte i hi).mpr (hall i)
  · rw [hlen]
    intro i hi hlast
    exact (hbyte i hi).mpr (tail i hlast)

theorem users_apart_example : keyHash (Text.decimal 12345) ≠ keyHash (Text.decimal 92345) := by
  have hfirst : Text.decimal 12345 = "12345".toList := rfl
  have hsecond : Text.decimal 92345 = "92345".toList := rfl
  have htail : ∀ i, (Text.decimal 12345).length ≤ i + cityTail (Text.decimal 12345).length →
      (Text.decimal 12345)[i]? = (Text.decimal 92345)[i]? := by
    intro i hi
    rw [hfirst] at hi
    have hpos : 1 ≤ i := Nat.le_of_add_le_add_right (show 1 + 4 ≤ i + 4 from hi)
    obtain ⟨j, rfl⟩ := Nat.exists_eq_add_of_le' hpos
    rw [hfirst, hsecond]
    rfl
  intro h
  have hsame := (users_apart 12345 92345 (by rw [hfirst, hsecond]; rfl) (by rw [hfirst]; decide)
    htail).mp h
  revert hsame
  decide

end RedisCluster.Guarantees
