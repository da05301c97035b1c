import Mathlib.Data.List.TakeWhile
import RedisCluster.Source.Util

/-!
# Addresses and their numbers

An address is passed as a text and as a 64-bit number. The number of a text made by
`int64_str_ipv4` is the one it was made of, as long as its port is not 0, so such texts
stand for different redis exactly if they differ. The ip goes through `inet_ntop` and
`inet_addr`, which keep the bytes of a number in opposite order.
-/

set_option autoImplicit false

namespace RedisCluster.Guarantees
open Library Source

/-! ## The order of the bytes -/

theorem land_second (x : Nat) : x &&& 0xff00 = 2 ^ 8 * (x / 2 ^ 8 % 2 ^ 8) := by
  apply Nat.eq_of_testBit_eq
  intro i
  rw [show 0xff00 = 2 ^ 8 * (2 ^ 8 - 1) from rfl, Nat.testBit_and, Nat.testBit_two_pow_mul, Nat.testBit_two_pow_mul,
    Nat.testBit_two_pow_sub_one, Nat.testBit_mod_two_pow, Nat.testBit_div_two_pow]
  by_cases h : 8 ≤ i
  · rw [show i - 8 + 8 = i by omega]
    simp [h, Bool.and_comm]
  · simp [h]

/-- The bytes of a swapped word, the last one first. -/
theorem byteSwap_toNat (n : UInt32) : (byteSwap n).toNat =
    2 ^ 24 * (n.toNat % 2 ^ 8) + (2 ^ 16 * (n.toNat / 2 ^ 8 % 2 ^ 8) +
      (2 ^ 8 * (n.toNat / 2 ^ 16 % 2 ^ 8) + n.toNat / 2 ^ 24)) := by
  have hn := n.toNat_lt
  have h0 : (n <<< 24).toNat = 2 ^ 24 * (n.toNat % 2 ^ 8) := by
    simp [UInt32.toNat_shiftLeft, Nat.shiftLeft_eq]
    omega
  have h1 : ((n &&& 0xff00) <<< 8).toNat = 2 ^ 16 * (n.toNat / 2 ^ 8 % 2 ^ 8) := by
    simp [UInt32.toNat_shiftLeft, Nat.shiftLeft_eq, land_second]
    omega
  have h2 : ((n >>> 8) &&& 0xff00).toNat = 2 ^ 8 * (n.toNat / 2 ^ 16 % 2 ^ 8) := by
    simp [UInt32.toNat_shiftRight, Nat.shiftRight_eq_div_pow, land_second]
    omega
  have h3 : (n >>> 24).toNat = n.toNat / 2 ^ 24 := by
    simp [UInt32.toNat_shiftRight, Nat.shiftRight_eq_div_pow]
  unfold byteSwap
  dsimp only
  rw [UInt32.toNat_or, UInt32.toNat_or, UInt32.toNat_or, h0, h1, h2, h3, Nat.or_assoc, Nat.or_assoc]
  rw [← Nat.two_pow_add_eq_or_of_lt (show n.toNat / 2 ^ 24 < 2 ^ 8 by omega)]
  rw [← Nat.two_pow_add_eq_or_of_lt
    (show 2 ^ 8 * (n.toNat / 2 ^ 16 % 2 ^ 8) + n.toNat / 2 ^ 24 < 2 ^ 16 by omega)]
  rw [← Nat.two_pow_add_eq_or_of_lt (by omega)]

theorem bytes_eq {a b c d : Nat} (hb : b < 2 ^ 8) (hc : c < 2 ^ 8) (hd : d < 2 ^ 8) :
    let n := 2 ^ 24 * a + (2 ^ 16 * b + (2 ^ 8 * c + d))
    n % 2 ^ 8 = d ∧ n / 2 ^ 8 % 2 ^ 8 = c ∧ n / 2 ^ 16 % 2 ^ 8 = b ∧ n / 2 ^ 24 = a := by
  omega

theorem byteSwap_byteSwap (n : UInt32) : byteSwap (byteSwap n) = n := by
  apply UInt32.toNat.inj
  have hn := n.toNat_lt
  rw [byteSwap_toNat (byteSwap n), byteSwap_toNat n]
  obtain ⟨h0, h1, h2, h3⟩ := @bytes_eq (n.toNat % 2 ^ 8) (n.toNat / 2 ^ 8 % 2 ^ 8)
    (n.toNat / 2 ^ 16 % 2 ^ 8) (n.toNat / 2 ^ 24) (by omega) (by omega) (by omega)
  have h16 : n.toNat / 2 ^ 16 = n.toNat / 2 ^ 8 / 2 ^ 8 :=
    (Nat.div_div_eq_div_mul _ (2 ^ 8) (2 ^ 8)).symm
  have h24 : n.toNat / 2 ^ 24 = n.toNat / 2 ^ 16 / 2 ^ 8 :=
    (Nat.div_div_eq_div_mul _ (2 ^ 16) (2 ^ 8)).symm
  rw [h0, h1, h2, h3]
  clear h0 h1 h2 h3
  omega

/-! ## Dotted addresses -/

/-- A byte is printed in digits that are read back as this byte, and begins with a zero only if it
is zero, so `strtoul` never takes it for octal. -/
theorem byte_numeral : ∀ k < 256, (Text.decimal (k : Nat)).all (isDigitOf 10) = true ∧
    (Text.decimal (k : Nat)).foldl (fun n c => 10 * n + (digitValue c).getD 0) 0 = k ∧
    (Text.decimal (k : Nat)).all Char.isDigit = true ∧
    ((Text.decimal (k : Nat)).head? = some '0' → k = 0) := by
  decide +kernel

/-- A numeral ends where no digit of its base follows. -/
theorem numeral_append {base : Nat} {s tail : Str} (hs : s.all (isDigitOf base))
    (htail : ∀ c ∈ tail.head?, isDigitOf base c = false) :
    numeral base (s ++ tail) = (s.foldl (fun n c => base * n + (digitValue c).getD 0) 0, tail) := by
  have hstop : tail.takeWhile (isDigitOf base) = [] ∧ tail.dropWhile (isDigitOf base) = tail := by
    cases tail with
    | nil => exact ⟨rfl, rfl⟩
    | cons c tail => simp [htail c rfl]
  rw [List.all_eq_true] at hs
  rw [numeral, List.takeWhile_append_of_pos hs, List.dropWhile_append_of_pos hs, hstop.1, hstop.2,
    List.append_nil]

theorem strtoul_byte {k : Nat} (hk : k < 256) {tail : Str} (htail : tail.head?.all (· = '.')) :
    strtoul (Text.decimal (k : Nat) ++ tail) = (k, tail) := by
  obtain ⟨hall, hvalue, -, hhead⟩ := byte_numeral k hk
  have hstop : ∀ c ∈ tail.head?, isDigitOf 10 c = false ∧ isDigitOf 8 c = false := by
    intro c hc
    rw [hc, Option.all_some, decide_eq_true_eq] at htail
    subst htail
    decide
  by_cases hzero : k = 0
  · subst hzero
    have h8 : numeral 8 (['0'] ++ tail) = (0, tail) := numeral_append (by decide) fun c hc => (hstop c hc).2
    change strtoul ('0' :: tail) = _
    unfold strtoul
    split
    · next x c s heq =>
      cases heq
      have hx : x = '.' := by simpa using htail
      subst hx
      rw [if_neg fun h => absurd h.1 (by decide)]
      exact h8
    · next heq =>
      cases heq
      exact h8
    · next hne => exact (hne _ rfl).elim
  · have hnot : ∀ s, Text.decimal (k : Nat) ++ tail ≠ '0' :: s := by
      intro s heq
      apply hzero
      apply hhead
      cases hd : Text.decimal (k : Nat) with
      | nil => exact absurd hd (Text.decimal_ne_nil _)
      | cons c rest =>
        rw [hd] at heq
        rw [(List.cons.inj heq).1]
        rfl
    have h10 := numeral_append hall fun c hc => (hstop c hc).1
    unfold strtoul
    split
    · next heq => exact absurd heq (hnot _)
    · next heq => exact absurd heq (hnot _)
    · rw [h10, hvalue]

/-- A byte that a dot follows takes its place among the four. -/
theorem inetNumber_byte {k : Nat} (hk : k < 256) (dots : Nat) (rest : Str) :
    inetNumber (dots + 1) (Text.decimal (k : Nat) ++ '.' :: rest) =
      (inetNumber dots rest).map (k * 256 ^ (dots + 1) + ·) := by
  have hread := @strtoul_byte k hk ('.' :: rest) rfl
  obtain ⟨c, s, htext⟩ := List.exists_cons_of_ne_nil (Text.decimal_ne_nil k)
  have hdigit : c.isDigit = true := by
    have hall := (byte_numeral k hk).2.2.1
    rw [htext, List.all_cons, Bool.and_eq_true] at hall
    exact hall.1
  rw [htext, List.cons_append] at hread ⊢
  conv_lhs => unfold inetNumber
  rw [if_pos hdigit, hread]
  exact if_pos hk

theorem inetNumber_last {k : Nat} (hk : k < 256) :
    inetNumber 0 (Text.decimal (k : Nat)) = some k := by
  have hread := @strtoul_byte k hk [] rfl
  rw [List.append_nil] at hread
  obtain ⟨c, s, htext⟩ := List.exists_cons_of_ne_nil (Text.decimal_ne_nil k)
  have hdigit : c.isDigit = true := by
    have hall := (byte_numeral k hk).2.2.1
    rw [htext, List.all_cons, Bool.and_eq_true] at hall
    exact hall.1
  rw [htext] at hread ⊢
  conv_lhs => unfold inetNumber
  rw [if_pos hdigit, hread]
  exact if_pos ⟨rfl, hk⟩

/-- What `inet_ntop` prints `inet_addr` reads. -/
theorem inetAddr_inetNtop (n : UInt32) : inetAddr (inetNtop n) = n := by
  have hn := n.toNat_lt
  have h0 : (n >>> (8 * 0)).toNat % 256 = n.toNat % 2 ^ 8 := by simp
  have h1 : (n >>> (8 * 1)).toNat % 256 = n.toNat / 2 ^ 8 % 2 ^ 8 := by
    simp [UInt32.toNat_shiftRight, Nat.shiftRight_eq_div_pow]
  have h2 : (n >>> (8 * 2)).toNat % 256 = n.toNat / 2 ^ 16 % 2 ^ 8 := by
    simp [UInt32.toNat_shiftRight, Nat.shiftRight_eq_div_pow]
  have h3 : (n >>> (8 * 3)).toNat % 256 = n.toNat / 2 ^ 24 := by
    simp [UInt32.toNat_shiftRight, Nat.shiftRight_eq_div_pow]
    omega
  have hcast : ∀ x : Nat, (x : Int) % 256 = ((x % 256 : Nat) : Int) := fun x => rfl
  have hnumber : inetNumber 3 (inetNtop n) = some (byteSwap n).toNat := by
    unfold inetNtop
    dsimp only
    simp only [List.append_assoc, List.cons_append, hcast]
    rw [h0, h1, h2, h3, inetNumber_byte (by omega), inetNumber_byte (by omega),
      inetNumber_byte (by omega), inetNumber_last (by omega), byteSwap_toNat]
    simp only [Option.map_some, Option.some.injEq]
    omega
  rw [inetAddr, hnumber]
  dsimp only
  rw [UInt32.ofNat_toNat, byteSwap_byteSwap]

theorem digit_cons (n : Nat) : ∃ c s, Nat.toDigits 10 n = c :: s ∧ c.isDigit = true := by
  obtain ⟨c, s, htext⟩ := List.exists_cons_of_ne_nil (Nat.toDigits_ne_nil : Nat.toDigits 10 n ≠ [])
  have hall := Text.toDigits_all_isDigit n
  rw [htext, List.all_cons, Bool.and_eq_true] at hall
  exact ⟨c, s, htext, hall.1⟩

theorem not_isSpace {c : Char} (h : c.isDigit = true) : isSpace c = false := by
  have hbounds := Char.isDigit_iff_toNat.mp h
  have hlo : 48 ≤ c.toNat := hbounds.1
  have hne : ∀ d : Char, d.toNat < 48 → c ≠ d := by
    rintro d hd rfl
    omega
  unfold isSpace
  simp only [decide_eq_false_iff_not.mpr (hne ' ' (by decide)), Bool.or_eq_false_iff,
    decide_eq_false_iff_not.mpr (hne '\t' (by decide)), decide_eq_false_iff_not.mpr (hne '\n' (by decide)),
    decide_eq_false_iff_not.mpr (hne '\r' (by decide)), decide_eq_false_iff_not, true_and]
  omega

theorem takeWhile_toDigits (n : Nat) :
    Nat.ofDigitChars 10 ((Nat.toDigits 10 n).takeWhile Char.isDigit) 0 = n := by
  rw [List.takeWhile_eq_self_iff.mpr (List.all_eq_true.mp (Text.toDigits_all_isDigit n)),
    Nat.ofDigitChars_ten_toDigits]

/-- `atoi` reads what is printed of an `int`. -/
theorem atoi_decimal {p : Int} (lo : -2 ^ 31 ≤ p) (hi : p < 2 ^ 31) : atoi (Text.decimal p) = p := by
  have hint : toInt32 p = p := Int.bmod_eq_of_le (by omega) (by omega)
  cases p with
  | ofNat n =>
    obtain ⟨c, s, htext, hdigit⟩ := digit_cons n
    have hread := takeWhile_toDigits n
    rw [htext] at hread
    have hsign : ∀ d : Char, d.isDigit = false → ∀ rest, c :: s ≠ d :: rest := by
      intro d hd rest heq
      rw [(List.cons.inj heq).1, hd] at hdigit
      cases hdigit
    rw [Text.decimal, htext, atoi, List.dropWhile_cons_of_neg (by rw [not_isSpace hdigit]; decide)]
    dsimp only
    split
    · next heq => exact absurd heq (hsign '-' rfl _)
    · next heq => exact absurd heq (hsign '+' rfl _)
    · dsimp only
      have hn : (n : Int) < 2 ^ 31 := hi
      rw [hread, if_neg Bool.false_ne_true, Int.min_eq_right (by omega)]
      exact hint
  | negSucc n =>
    rw [Text.decimal, atoi, List.dropWhile_cons_of_neg (by decide)]
    change toInt32 (max (-2 ^ 63)
      (-(Nat.ofDigitChars 10 ((Nat.toDigits 10 (n + 1)).takeWhile Char.isDigit) 0 : Int))) = _
    rw [takeWhile_toDigits, Int.max_eq_right (by omega)]
    exact hint

/-! ## The 64 bits -/

theorem toInt32_bounds (n : Int) : -2 ^ 31 ≤ toInt32 n ∧ toInt32 n < 2 ^ 31 := by
  have hlo := Int.le_bmod (x := n) (show 0 < 2 ^ 32 by decide)
  have hhi := Int.bmod_lt (x := n) (show 0 < 2 ^ 32 by decide)
  unfold toInt32
  omega

/-- The lower half of a number is read as an `int`. -/
theorem port_bounds (a : UInt64) : -2 ^ 31 ≤ (int64Ipv4 a).2 ∧ (int64Ipv4 a).2 < 2 ^ 31 := by
  unfold int64Ipv4
  dsimp only
  exact toInt32_bounds _

theorem low_toNat (a : UInt64) : (a &&& 0x00000000FFFFFFFF).toNat = a.toNat % 2 ^ 32 := by
  rw [UInt64.toNat_and]
  exact Nat.and_two_pow_sub_one_eq_mod a.toNat 32

theorem ofInt_toInt32 {n : Nat} (h : n < 2 ^ 32) : (UInt32.ofInt (toInt32 n)).toNat = n := by
  have hcast : ((toInt32 n) % 2 ^ 32 : Int) = n := by
    rw [toInt32, show (2 ^ 32 : Int) = ((2 ^ 32 : Nat) : Int) from rfl, Int.bmod_emod]
    omega
  rw [UInt32.ofInt, hcast]
  simp
  omega

/-- The number of the parts of a number is that number. -/
theorem ipv4Int64_int64Ipv4 (a : UInt64) : ipv4Int64 (int64Ipv4 a).1 (int64Ipv4 a).2 = a := by
  have ha := a.toNat_lt
  apply UInt64.toNat.inj
  have hhigh : ((inetAddr (inetNtop (a >>> 32).toUInt32)).toUInt64 <<< 32).toNat =
      2 ^ 32 * (a.toNat / 2 ^ 32) := by
    rw [inetAddr_inetNtop]
    simp [UInt64.toNat_shiftLeft, UInt64.toNat_shiftRight, Nat.shiftLeft_eq, Nat.shiftRight_eq_div_pow]
    omega
  have hlow : (UInt32.ofInt (toInt32 (a &&& 0x00000000FFFFFFFF).toNat)).toUInt64.toNat =
      a.toNat % 2 ^ 32 := by
    rw [UInt32.toNat_toUInt64, low_toNat, ofInt_toInt32 (by omega)]
  unfold ipv4Int64 int64Ipv4
  dsimp only
  rw [UInt64.toNat_or, hhigh, hlow, ← Nat.two_pow_add_eq_or_of_lt (by omega)]
  omega

theorem not_mem_inetNtop {c : Char} (n : UInt32) (hdash : c ≠ '-') (hdigit : ¬ c.isDigit)
    (hdot : c ≠ '.') : c ∉ inetNtop n := by
  have hbyte : ∀ z : Int, c ∉ Text.decimal z := fun z => Text.not_mem_decimal z hdash hdigit
  unfold inetNtop
  simp [hbyte, hdot]

theorem inetNtop_ne_nil (n : UInt32) : inetNtop n ≠ [] := by
  unfold inetNtop
  simp

theorem ip_no_colon (a : UInt64) : ':' ∉ (int64Ipv4 a).1 := by
  rw [int64Ipv4]
  exact not_mem_inetNtop _ (by decide) (by decide) (by decide)

theorem ip_ne_nil (a : UInt64) : (int64Ipv4 a).1 ≠ [] := by
  rw [int64Ipv4]
  exact inetNtop_ne_nil _

/-- A text of an ip, a colon and a number that is not 0 is taken apart at the colon. -/
theorem strIpv4_text {ip : Str} {port : Int} (colon : ':' ∉ ip) (hip : ip ≠ []) (hport : port ≠ 0)
    (lo : -2 ^ 31 ≤ port) (hi : port < 2 ^ 31) :
    strIpv4 (ip ++ ':' :: Text.decimal port) = some (ip, port) := by
  rw [strIpv4, Text.cutAt_append colon]
  dsimp only
  rw [atoi_decimal lo hi, if_neg]
  rintro (h | h)
  · exact hport h
  · exact hip h

theorem strIpv4_int64StrIpv4 {a : UInt64} (hport : (int64Ipv4 a).2 ≠ 0) :
    strIpv4 (int64StrIpv4 a) = some ((int64Ipv4 a).1, (int64Ipv4 a).2) :=
  strIpv4_text (ip_no_colon a) (ip_ne_nil a) hport (port_bounds a).1 (port_bounds a).2

theorem strIpv4Int64_int64StrIpv4 {a : UInt64} (hport : (int64Ipv4 a).2 ≠ 0) :
    strIpv4Int64 (int64StrIpv4 a) = some a := by
  rw [strIpv4Int64, strIpv4_int64StrIpv4 hport]
  exact congrArg some (ipv4Int64_int64Ipv4 a)

/-- The port that was read is not 0, and an `int`. -/
theorem strIpv4_port {addr ip : Str} {port : Int} (h : strIpv4 addr = some (ip, port)) :
    port ≠ 0 ∧ -2 ^ 31 ≤ port ∧ port < 2 ^ 31 := by
  unfold strIpv4 at h
  split at h
  · cases h
  · next rest _ =>
    dsimp only at h
    split at h
    · cases h
    · next hne =>
      cases h
      rw [not_or] at hne
      exact ⟨hne.1, toInt32_bounds _⟩

theorem int64Ipv4_ipv4Int64 {ip : Str} {port : Int} (lo : -2 ^ 31 ≤ port) (hi : port < 2 ^ 31) :
    (int64Ipv4 (ipv4Int64 ip port)).2 = port := by
  have hlow : (ipv4Int64 ip port).toNat % 2 ^ 32 = (UInt32.ofInt port).toNat := by
    rw [ipv4Int64, UInt64.toNat_or, Nat.or_mod_two_pow]
    have hshift : ((inetAddr ip).toUInt64 <<< 32).toNat % 2 ^ 32 = 0 := by
      simp [UInt64.toNat_shiftLeft, Nat.shiftLeft_eq]
    have hlt := (UInt32.ofInt port).toNat_lt
    rw [hshift, Nat.zero_or, UInt32.toNat_toUInt64, Nat.mod_eq_of_lt hlt]
  have hport : ((UInt32.ofInt port).toNat : Int) = port % 2 ^ 32 := by
    simp [UInt32.ofInt]
    omega
  unfold int64Ipv4
  dsimp only
  rw [low_toNat, hlow, hport, toInt32, show (2 ^ 32 : Int) = ((2 ^ 32 : Nat) : Int) from rfl,
    Int.emod_bmod]
  exact Int.bmod_eq_of_le (by omega) (by omega)

/-- What a text stands for has a port. -/
theorem port_of_strIpv4Int64 {addr : Str} {a : UInt64} (h : strIpv4Int64 addr = some a) :
    (int64Ipv4 a).2 ≠ 0 := by
  obtain ⟨⟨ip, port⟩, hread, rfl⟩ := Option.map_eq_some_iff.mp h
  obtain ⟨hport, lo, hi⟩ := strIpv4_port hread
  dsimp only
  rwa [int64Ipv4_ipv4Int64 lo hi]

end RedisCluster.Guarantees
