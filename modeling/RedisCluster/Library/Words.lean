import Mathlib.Algebra.Group.Nat.Defs
import Mathlib.Tactic.Common

/-!
# Words of 64 bits

Operations that lose nothing of a word.
-/

set_option autoImplicit false

namespace RedisCluster.Library.Words

theorem ofNat_inj {n n' : Nat} (h : n < 2 ^ 64) (h' : n' < 2 ^ 64) :
    UInt64.ofNat n = UInt64.ofNat n' ↔ n = n' := by
  refine ⟨fun heq => ?_, congrArg UInt64.ofNat⟩
  have hnat := congrArg UInt64.toNat heq
  rwa [UInt64.toNat_ofNat_of_lt' h, UInt64.toNat_ofNat_of_lt' h'] at hnat

theorem mul_injective {k k' : UInt64} (unit : k * k' = 1) :
    Function.Injective fun v : UInt64 => v * k := by
  intro v v' h
  have hmul := congrArg (· * k') h
  simpa only [UInt64.mul_assoc, unit, UInt64.mul_one] using hmul

theorem twoBytes_inj {a b a' b' : UInt8} :
    a.toUInt32 + (b.toUInt32 <<< 8) = a'.toUInt32 + (b'.toUInt32 <<< 8) ↔ a = a' ∧ b = b' := by
  have htoNat : ∀ a b : UInt8, (a.toUInt32 + (b.toUInt32 <<< 8)).toNat = a.toNat + 256 * b.toNat := by
    intro a b
    have ha := a.toNat_lt
    have hb := b.toNat_lt
    have height : (8 : UInt32).toNat % 32 = 8 := rfl
    rw [UInt32.toNat_add, UInt32.toNat_shiftLeft, UInt8.toNat_toUInt32, UInt8.toNat_toUInt32, height,
      Nat.shiftLeft_eq]
    omega
  have ha := a.toNat_lt
  have ha' := a'.toNat_lt
  rw [← UInt32.toNat_inj, htoNat, htoNat, ← UInt8.toNat_inj, ← UInt8.toNat_inj]
  omega

theorem shiftRight_twice {n : UInt64} (half : 32 ≤ n.toNat) (small : n.toNat < 64) (v : UInt64) :
    (v >>> n) >>> n = 0 := by
  have hv := v.toNat_lt
  apply UInt64.toNat_inj.mp
  rw [UInt64.toNat_shiftRight, UInt64.toNat_shiftRight, Nat.mod_eq_of_lt small, ← Nat.shiftRight_add,
    Nat.shiftRight_eq_div_pow, UInt64.toNat_zero, Nat.div_eq_zero_iff]
  right
  calc v.toNat < 2 ^ 64 := hv
    _ ≤ 2 ^ (n.toNat + n.toNat) := Nat.pow_le_pow_right (by decide) (by omega)

/-- A word mixed with its upper half is unmixed by mixing it again. -/
theorem xorShift_involutive {n : UInt64} (half : 32 ≤ n.toNat) (small : n.toNat < 64) :
    Function.Involutive fun v : UInt64 => v ^^^ (v >>> n) := by
  intro v
  dsimp only
  rw [UInt64.shiftRight_xor, shiftRight_twice half small, UInt64.xor_zero, UInt64.xor_assoc,
    UInt64.xor_self, UInt64.xor_zero]

end RedisCluster.Library.Words
