import Mathlib.Algebra.Group.Int.Defs
import Mathlib.Algebra.Group.Nat.Defs
import Mathlib.Tactic.Common
import Std.Data.ExtTreeMap
import Std.Data.ExtTreeSet

/-!
# Byte strings and decimal numerals

Strings are lists of characters, ordered by `compare` as `std::string` is. The
numerals are those of `Nat.toDigits`; reading follows `boost::lexical_cast` (the
whole text, an optional sign, a value in range) and C's `atoi` (the longest
prefix). `sequenceDigits` is `%010d`.
-/

set_option autoImplicit false

namespace RedisCluster.Library

/-- Bytes, as characters. -/
abbrev Str := List Char

namespace Text

/-- The text after the first occurrence of `pat`. -/
def afterFirst (pat : Str) : Str → Option Str
  | [] => if pat = [] then some [] else none
  | c :: s => if pat.isPrefixOf (c :: s) then some ((c :: s).drop pat.length) else afterFirst pat s

/-- The texts before and after the first `c`. -/
def cutAt (c : Char) (s : Str) : Option (Str × Str) :=
  if c ∈ s then some (s.takeWhile (· ≠ c), (s.dropWhile (· ≠ c)).tail) else none

/-- The decimal numeral of an integer. -/
def decimal : Int → Str
  | .ofNat n => Nat.toDigits 10 n
  | .negSucc n => '-' :: Nat.toDigits 10 (n + 1)

/-- An unsigned numeral, without sign or blanks. -/
def readDigits (s : Str) : Option Nat :=
  if s ≠ [] ∧ s.all Char.isDigit then some (Nat.ofDigitChars 10 s 0) else none

/-- A number with its sign; nothing else may follow. -/
def readInt : Str → Option Int
  | '-' :: s => (readDigits s).map fun n => -(n : Int)
  | '+' :: s => (readDigits s).map fun n => (n : Int)
  | s => (readDigits s).map fun n => (n : Int)

/-- `boost::lexical_cast` to a signed type with the given range. -/
def lexicalCast (lo hi : Int) (s : Str) : Option Int :=
  (readInt s).filter fun n => lo ≤ n ∧ n ≤ hi

/-- `%010d` for a number that is not negative. -/
def sequenceDigits (n : Nat) : Str := (Nat.toDigits 10 n).leftpad 10 '0'

/-- A text without `c` is cut off at the `c` behind it. -/
theorem cutAt_append {c : Char} {s : Str} (h : c ∉ s) (rest : Str) :
    cutAt c (s ++ c :: rest) = some (s, rest) := by
  have hne : ∀ x ∈ s, decide (x ≠ c) = true := by
    intro x hx
    rw [decide_eq_true_eq]
    rintro rfl
    exact h hx
  rw [cutAt, if_pos (by simp), List.takeWhile_append_of_pos hne, List.dropWhile_append_of_pos hne]
  simp

/-! ## Reading back what was printed -/

theorem toDigits_all_isDigit (n : Nat) : (Nat.toDigits 10 n).all Char.isDigit = true := by
  rw [List.all_eq_true]
  intro c hc
  exact Nat.isDigit_of_mem_toDigits (by decide) (by decide) hc

theorem readDigits_toDigits (n : Nat) : readDigits (Nat.toDigits 10 n) = some n := by
  have hne : Nat.toDigits 10 n ≠ [] := Nat.toDigits_ne_nil
  simp [readDigits, hne, toDigits_all_isDigit, -List.all_eq_true,
    Nat.ofDigitChars_ten_toDigits]

theorem readInt_of_isDigit {c : Char} (hc : c.isDigit) (s : Str) :
    readInt (c :: s) = (readDigits (c :: s)).map fun n => (n : Int) := by
  unfold readInt
  split
  · next h => cases h; exact absurd hc (by decide)
  · next h => cases h; exact absurd hc (by decide)
  · rfl

/-- What is printed is read back. -/
theorem readInt_decimal (z : Int) : readInt (decimal z) = some z := by
  cases z with
  | ofNat n =>
    have hread := readDigits_toDigits n
    have hall := toDigits_all_isDigit n
    cases hd : Nat.toDigits 10 n with
    | nil => exact absurd hd Nat.toDigits_ne_nil
    | cons c s =>
      rw [hd] at hread hall
      have hc : c.isDigit := by
        rw [List.all_cons, Bool.and_eq_true] at hall
        exact hall.1
      rw [decimal, hd, readInt_of_isDigit hc, hread]
      rfl
  | negSucc n =>
    rw [decimal, readInt, readDigits_toDigits]
    rfl

/-- A number is read back by `lexical_cast` if the type holds it. -/
theorem lexicalCast_decimal (lo hi z : Int) :
    lexicalCast lo hi (decimal z) = if lo ≤ z ∧ z ≤ hi then some z else none := by
  simp [lexicalCast, readInt_decimal, Option.filter]

theorem decimal_injective : Function.Injective decimal := by
  intro a b h
  have hread := readInt_decimal a
  rw [h, readInt_decimal] at hread
  exact (Option.some.inj hread).symm

theorem mem_decimal {c : Char} {z : Int} (h : c ∈ decimal z) : c = '-' ∨ c.isDigit := by
  cases z with
  | ofNat n => exact Or.inr (Nat.isDigit_of_mem_toDigits (by decide) (by decide) h)
  | negSucc n =>
    rcases List.mem_cons.mp h with h | h
    · exact Or.inl h
    · exact Or.inr (Nat.isDigit_of_mem_toDigits (by decide) (by decide) h)

theorem not_mem_decimal {c : Char} (z : Int) (hdash : c ≠ '-') (hdigit : ¬ c.isDigit) :
    c ∉ decimal z :=
  fun h => (mem_decimal h).elim hdash hdigit

theorem decimal_ne_nil (z : Int) : decimal z ≠ [] := by
  cases z with
  | ofNat n => exact Nat.toDigits_ne_nil
  | negSucc n => exact List.cons_ne_nil _ _

/-! ## Ten-digit numerals -/

theorem ofDigitChars_replicate_zero (k : Nat) (s : Str) :
    Nat.ofDigitChars 10 (List.replicate k '0' ++ s) 0 = Nat.ofDigitChars 10 s 0 := by
  induction k with
  | zero => rfl
  | succ k ih =>
    rw [List.replicate_succ, List.cons_append, Nat.ofDigitChars_cons]
    exact ih

theorem sequenceDigits_all_isDigit (n : Nat) : (sequenceDigits n).all Char.isDigit = true := by
  rw [sequenceDigits, List.leftpad, List.all_append, toDigits_all_isDigit, Bool.and_true]
  simp

theorem sequenceDigits_ne_nil (n : Nat) : sequenceDigits n ≠ [] := by
  simp [sequenceDigits, List.leftpad, Nat.toDigits_ne_nil]

theorem readDigits_sequenceDigits (n : Nat) : readDigits (sequenceDigits n) = some n := by
  have hvalue : Nat.ofDigitChars 10 (sequenceDigits n) 0 = n := by
    rw [sequenceDigits, List.leftpad, ofDigitChars_replicate_zero,
      Nat.ofDigitChars_ten_toDigits]
  rw [readDigits, if_pos ⟨sequenceDigits_ne_nil n, sequenceDigits_all_isDigit n⟩, hvalue]

theorem readInt_sequenceDigits (n : Nat) : readInt (sequenceDigits n) = some (n : Int) := by
  have hread := readDigits_sequenceDigits n
  have hall := sequenceDigits_all_isDigit n
  cases hd : sequenceDigits n with
  | nil => exact absurd hd (sequenceDigits_ne_nil n)
  | cons c s =>
    rw [hd] at hread hall
    rw [List.all_cons, Bool.and_eq_true] at hall
    rw [readInt_of_isDigit hall.1, hread]
    rfl

theorem sequenceDigits_injective : Function.Injective sequenceDigits := by
  intro m n h
  have hread := readDigits_sequenceDigits m
  rw [h, readDigits_sequenceDigits] at hread
  exact (Option.some.inj hread).symm

theorem sequenceDigits_length {n : Nat} (h : n < 10 ^ 10) : (sequenceDigits n).length = 10 := by
  have hlen : (Nat.toDigits 10 n).length ≤ 10 :=
    (Nat.length_toDigits_le_iff (by decide) (by decide)).mpr h
  rw [sequenceDigits, List.length_leftpad]
  exact Nat.max_eq_left hlen

theorem digit_value_lt {c : Char} (hc : c.isDigit) : c.toNat - '0'.toNat < 10 := by
  simp only [Char.isDigit, Bool.and_eq_true, decide_eq_true_eq, ge_iff_le] at hc
  have hle : c.toNat ≤ 57 := UInt32.le_iff_toNat_le.mp hc.2
  have hzero : '0'.toNat = 48 := rfl
  omega

/-- A numeral is less than the power of ten with its length. -/
theorem ofDigitChars_bounds (s : Str) (hs : s.all Char.isDigit) (init : Nat) :
    init * 10 ^ s.length ≤ Nat.ofDigitChars 10 s init ∧
      Nat.ofDigitChars 10 s init < (init + 1) * 10 ^ s.length := by
  induction s generalizing init with
  | nil => simp
  | cons c s ih =>
    rw [List.all_cons, Bool.and_eq_true] at hs
    have hc := digit_value_lt hs.1
    have hrest := ih hs.2 (10 * init + (c.toNat - '0'.toNat))
    rw [Nat.ofDigitChars_cons, List.length_cons, Nat.pow_succ, Nat.mul_comm (10 ^ s.length),
      ← Nat.mul_assoc, ← Nat.mul_assoc]
    constructor
    · exact Nat.le_trans (Nat.mul_le_mul_right _ (by omega)) hrest.1
    · exact Nat.lt_of_lt_of_le hrest.2 (Nat.mul_le_mul_right _ (by omega))

theorem compare_char (c d : Char) : compare c d = compare c.toNat d.toNat := by
  have hlt : c < d ↔ c.toNat < d.toNat := Iff.rfl
  have heq : c = d ↔ c.toNat = d.toNat := Char.toNat_inj.symm
  change compareOfLessAndEq c d = compareOfLessAndEq c.toNat d.toNat
  simp only [compareOfLessAndEq, hlt, heq]

theorem compare_digit {c d : Char} (hc : c.isDigit) (hd : d.isDigit) :
    compare c d = compare (c.toNat - '0'.toNat) (d.toNat - '0'.toNat) := by
  simp only [Char.isDigit, Bool.and_eq_true, decide_eq_true_eq, ge_iff_le] at hc hd
  have hzero : '0'.toNat = 48 := rfl
  have hcle : 48 ≤ c.toNat := UInt32.le_iff_toNat_le.mp hc.1
  have hdle : 48 ≤ d.toNat := UInt32.le_iff_toNat_le.mp hd.1
  rw [compare_char, hzero]
  rcases Nat.lt_trichotomy c.toNat d.toNat with h | h | h
  · rw [Nat.compare_eq_lt.mpr h, Nat.compare_eq_lt.mpr (by omega)]
  · rw [Nat.compare_eq_eq.mpr h, Nat.compare_eq_eq.mpr (by omega)]
  · rw [Nat.compare_eq_gt.mpr h, Nat.compare_eq_gt.mpr (by omega)]

/-- Numerals of one length are ordered as texts the way they are as numbers. -/
theorem compare_numerals (s t : Str) (hs : s.all Char.isDigit) (ht : t.all Char.isDigit)
    (hlen : s.length = t.length) (init : Nat) :
    compare s t = compare (Nat.ofDigitChars 10 s init) (Nat.ofDigitChars 10 t init) := by
  induction s generalizing t init with
  | nil =>
    cases t with
    | nil => simp
    | cons d t => simp at hlen
  | cons c s ih =>
    cases t with
    | nil => simp at hlen
    | cons d t =>
      rw [List.all_cons, Bool.and_eq_true] at hs ht
      rw [List.compare_cons_cons, compare_digit hs.1 ht.1]
      have hlen' : s.length = t.length := by simpa using hlen
      rw [Nat.ofDigitChars_cons, Nat.ofDigitChars_cons]
      have hcs := ofDigitChars_bounds s hs.2 (10 * init + (c.toNat - '0'.toNat))
      have hdt := ofDigitChars_bounds t ht.2 (10 * init + (d.toNat - '0'.toNat))
      rcases Nat.lt_trichotomy (c.toNat - '0'.toNat) (d.toNat - '0'.toNat) with h | h | h
      · rw [Nat.compare_eq_lt.mpr h, Nat.compare_eq_lt.mpr]
        · rfl
        · refine Nat.lt_of_lt_of_le hcs.2 (Nat.le_trans ?_ hdt.1)
          rw [hlen']
          exact Nat.mul_le_mul_right _ (by omega)
      · rw [h, Nat.compare_eq_eq.mpr rfl, Ordering.eq_then]
        exact ih t hs.2 ht.2 hlen' _
      · rw [Nat.compare_eq_gt.mpr h, Nat.compare_eq_gt.mpr]
        · rfl
        · refine Nat.lt_of_lt_of_le hdt.2 (Nat.le_trans ?_ hcs.1)
          rw [hlen']
          exact Nat.mul_le_mul_right _ (by omega)

/-- Ten-digit numerals keep the order of the numbers. -/
theorem compare_sequenceDigits {m n : Nat} (hm : m < 10 ^ 10) (hn : n < 10 ^ 10) :
    compare (sequenceDigits m) (sequenceDigits n) = compare m n := by
  have value : ∀ k, Nat.ofDigitChars 10 (sequenceDigits k) 0 = k := by
    intro k
    rw [sequenceDigits, List.leftpad, ofDigitChars_replicate_zero,
      Nat.ofDigitChars_ten_toDigits]
  rw [compare_numerals _ _ (sequenceDigits_all_isDigit m) (sequenceDigits_all_isDigit n)
    (by rw [sequenceDigits_length hm, sequenceDigits_length hn]) 0, value, value]

end Text
end RedisCluster.Library
