import Mathlib.Algebra.Group.Nat.Defs
import Mathlib.Data.List.Basic

/-!
# Bytes in memory

A memory has a byte at every place. Numbers lie there with their least significant byte
first.
-/

set_option autoImplicit false

namespace RedisCluster.Library

namespace Bytes

/-- The `size` least significant bytes of `n`. -/
def ofNat : Nat → Nat → List UInt8
  | 0, _ => []
  | size + 1, n => UInt8.ofNat n :: ofNat size (n / 256)

def toNat : List UInt8 → Nat
  | [] => 0
  | b :: bs => b.toNat + 256 * toNat bs

@[simp] theorem length_ofNat (size n : Nat) : (ofNat size n).length = size := by
  induction size generalizing n with
  | zero => rfl
  | succ size ih => rw [ofNat, List.length_cons, ih]

theorem toNat_ofNat (size n : Nat) : toNat (ofNat size n) = n % 256 ^ size := by
  induction size generalizing n with
  | zero => rw [ofNat, toNat, Nat.pow_zero, Nat.mod_one]
  | succ size ih =>
    have hbyte : (UInt8.ofNat n).toNat = n % 256 := UInt8.toNat_ofNat'
    rw [ofNat, toNat, hbyte, ih, Nat.pow_succ', Nat.mod_mul]

theorem toNat_ofNat_of_lt {size n : Nat} (h : n < 256 ^ size) : toNat (ofNat size n) = n := by
  rw [toNat_ofNat, Nat.mod_eq_of_lt h]

theorem toNat_lt (bytes : List UInt8) : toNat bytes < 256 ^ bytes.length := by
  induction bytes with
  | nil => decide
  | cons b bytes ih =>
    have hb : b.toNat < 256 := b.toNat_lt
    rw [toNat, List.length_cons, Nat.pow_succ']
    omega

theorem toNat_injective {bytes bytes' : List UInt8} (length : bytes.length = bytes'.length)
    (same : toNat bytes = toNat bytes') : bytes = bytes' := by
  induction bytes generalizing bytes' with
  | nil => exact (List.length_eq_zero_iff.mp length.symm).symm
  | cons b bytes ih =>
    obtain ⟨b', bytes', rfl⟩ := List.exists_cons_of_length_eq_add_one length.symm
    rw [toNat, toNat] at same
    have hb := b.toNat_lt
    have hb' := b'.toNat_lt
    have hhead : b = b' := UInt8.toNat_inj.mp (by omega)
    have htail := ih (Nat.succ.inj length) (by omega)
    rw [hhead, htail]

end Bytes

abbrev Memory := Nat → UInt8

namespace Memory
variable {mem : Memory} {pos size : Nat} {bytes : List UInt8}

/-- The bytes from this place on. -/
def read (mem : Memory) (pos size : Nat) : List UInt8 := (List.range' pos size).map mem

/-- These bytes lie at this place. -/
def Holds (mem : Memory) (pos : Nat) (bytes : List UInt8) : Prop := mem.read pos bytes.length = bytes

/-- These bytes at the place 0, and what lies behind them. -/
def of (bytes : List UInt8) (beyond : Memory) : Memory := fun i =>
  bytes[i]?.getD (beyond (i - bytes.length))

theorem Holds.read (h : mem.Holds pos bytes) (hsize : bytes.length = size) : mem.read pos size = bytes :=
  hsize ▸ h

theorem read_add (pos first second : Nat) :
    mem.read pos (first + second) = mem.read pos first ++ mem.read (pos + first) second := by
  rw [Memory.read, ← List.range'_append_1, List.map_append]
  rfl

theorem read_eq_iff {mem' : Memory} {pos' : Nat} :
    mem.read pos size = mem'.read pos' size ↔ ∀ i < size, mem (pos + i) = mem' (pos' + i) := by
  unfold read
  rw [List.range'_eq_map_range, List.range'_eq_map_range, List.map_map, List.map_map,
    List.map_inj_left]
  simp only [List.mem_range, Function.comp_apply]

@[simp] theorem length_read : (mem.read pos size).length = size := by
  rw [read, List.length_map, List.length_range']

theorem toNat_read_lt : Bytes.toNat (mem.read pos size) < 256 ^ size := by
  have hlt := Bytes.toNat_lt (mem.read pos size)
  rwa [length_read] at hlt

/-- Two numbers in memory are the same if their bytes are. -/
theorem toNat_read_eq_iff {mem' : Memory} {pos' : Nat} :
    Bytes.toNat (mem.read pos size) = Bytes.toNat (mem'.read pos' size) ↔
      ∀ i < size, mem (pos + i) = mem' (pos' + i) := by
  rw [← read_eq_iff]
  exact ⟨Bytes.toNat_injective (length_read.trans length_read.symm), congrArg Bytes.toNat⟩

theorem holds_append {bytes' : List UInt8} :
    mem.Holds pos (bytes ++ bytes') ↔ mem.Holds pos bytes ∧ mem.Holds (pos + bytes.length) bytes' := by
  unfold Holds
  rw [List.length_append, read_add]
  constructor
  · intro h
    exact List.append_inj h (by simp [Memory.read])
  · rintro ⟨hfirst, hsecond⟩
    rw [hfirst, hsecond]

/-- What is read inside of the bytes does not depend on what lies behind them. -/
theorem read_of (beyond : Memory) (inside : pos + size ≤ bytes.length) :
    (of bytes beyond).read pos size = (bytes.drop pos).take size := by
  apply List.ext_getElem
  · simp [Memory.read]
    omega
  · intro i hi _
    have hlt : i < size := by simpa [Memory.read] using hi
    simp [Memory.read, of, List.getElem?_eq_getElem (show pos + i < bytes.length by omega)]

theorem holds_of (bytes : List UInt8) (beyond : Memory) : (of bytes beyond).Holds 0 bytes := by
  rw [Holds, read_of beyond (by omega), List.drop_zero, List.take_length]

end Memory
end RedisCluster.Library
