import Mathlib

/-!
# Byte strings and fixed-width integers

Big-endian renderings of natural numbers at a given width, with both round trips, and
their instances at the machine widths.
-/
namespace Anymount.Library

abbrev Bytes := List UInt8

/-- The `w` low-order base-256 digits of `n`, most significant first. -/
def beBytes : Nat → Nat → Bytes
  | 0, _ => []
  | w + 1, n => UInt8.ofNat (n / 256 ^ w) :: beBytes w n

/-- The number a byte string denotes, most significant byte first. -/
def beNat : Bytes → Nat
  | [] => 0
  | b :: bs => b.toNat * 256 ^ bs.length + beNat bs

@[simp] theorem length_beBytes (w n : Nat) : (beBytes w n).length = w := by
  induction w with
  | zero => rfl
  | succ w ih => simp [beBytes, ih]

@[simp] theorem beNat_beBytes (w n : Nat) : beNat (beBytes w n) = n % 256 ^ w := by
  induction w with
  | zero => simp [beBytes, beNat, Nat.mod_one]
  | succ w ih =>
    have hdigit : (UInt8.ofNat (n / 256 ^ w)).toNat = n / 256 ^ w % 256 := by simp
    rw [beBytes, beNat, hdigit, length_beBytes, ih, Nat.mod_pow_succ]
    ring

theorem beNat_lt (bs : Bytes) : beNat bs < 256 ^ bs.length := by
  induction bs with
  | nil => simp [beNat]
  | cons b bs ih =>
    have hb : b.toNat < 256 := b.toNat_lt
    calc b.toNat * 256 ^ bs.length + beNat bs
        < b.toNat * 256 ^ bs.length + 256 ^ bs.length := by omega
      _ = (b.toNat + 1) * 256 ^ bs.length := by ring
      _ ≤ 256 * 256 ^ bs.length := Nat.mul_le_mul_right _ hb
      _ = 256 ^ (b :: bs).length := by rw [List.length_cons, pow_succ]; ring

/-- Digits above the width do not show. -/
theorem beBytes_mul_add (w k n : Nat) : beBytes w (k * 256 ^ w + n) = beBytes w n := by
  induction w generalizing k with
  | zero => rfl
  | succ w ih =>
    have hsplit : k * 256 ^ (w + 1) + n = k * 256 * 256 ^ w + n := by rw [pow_succ]; ring
    have hdigit : UInt8.ofNat ((k * 256 * 256 ^ w + n) / 256 ^ w) = UInt8.ofNat (n / 256 ^ w) := by
      rw [Nat.mul_comm (k * 256), Nat.mul_add_div (Nat.pow_pos (by decide))]
      apply UInt8.toNat_inj.mp
      simp
    rw [hsplit, beBytes, beBytes, hdigit, ih]

@[simp] theorem beBytes_beNat (bs : Bytes) : beBytes bs.length (beNat bs) = bs := by
  induction bs with
  | nil => rfl
  | cons b bs ih =>
    have hlow : beNat bs < 256 ^ bs.length := beNat_lt bs
    have hdiv : (b.toNat * 256 ^ bs.length + beNat bs) / 256 ^ bs.length = b.toNat := by
      rw [Nat.mul_comm, Nat.mul_add_div (Nat.pow_pos (by decide)), Nat.div_eq_of_lt hlow, add_zero]
    rw [List.length_cons, beBytes, beNat, hdiv, beBytes_mul_add, ih]
    simp

/-! ## Machine words -/

/-- `u32::to_be_bytes`. -/
def beU32 (v : UInt32) : Bytes := beBytes 4 v.toNat

/-- `u64::to_be_bytes`. -/
def beU64 (v : UInt64) : Bytes := beBytes 8 v.toNat

@[simp] theorem length_beU32 (v : UInt32) : (beU32 v).length = 4 := length_beBytes 4 _
@[simp] theorem length_beU64 (v : UInt64) : (beU64 v).length = 8 := length_beBytes 8 _

@[simp] theorem ofNat_beNat_beU32 (v : UInt32) : UInt32.ofNat (beNat (beU32 v)) = v := by
  have hlt : v.toNat < 256 ^ 4 := v.toNat_lt
  rw [beU32, beNat_beBytes, Nat.mod_eq_of_lt hlt, UInt32.ofNat_toNat]

@[simp] theorem ofNat_beNat_beU64 (v : UInt64) : UInt64.ofNat (beNat (beU64 v)) = v := by
  have hlt : v.toNat < 256 ^ 8 := v.toNat_lt
  rw [beU64, beNat_beBytes, Nat.mod_eq_of_lt hlt, UInt64.ofNat_toNat]

theorem beU32_injective : Function.Injective beU32 := by
  intro v v' h
  rw [← ofNat_beNat_beU32 v, h, ofNat_beNat_beU32]

theorem beU32_ofNat_beNat {bs : Bytes} (h : bs.length = 4) :
    beU32 (UInt32.ofNat (beNat bs)) = bs := by
  have hlt : beNat bs < 2 ^ 32 := by simpa [h] using beNat_lt bs
  rw [beU32, UInt32.toNat_ofNat_of_lt' hlt, ← h, beBytes_beNat]

theorem beU64_ofNat_beNat {bs : Bytes} (h : bs.length = 8) :
    beU64 (UInt64.ofNat (beNat bs)) = bs := by
  have hlt : beNat bs < 2 ^ 64 := by simpa [h] using beNat_lt bs
  rw [beU64, UInt64.toNat_ofNat_of_lt' hlt, ← h, beBytes_beNat]

end Anymount.Library
