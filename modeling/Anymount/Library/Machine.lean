import Anymount.Library.Interaction

/-!
# Machine arithmetic that may overflow

A build either checks integer overflow and panics, or wraps. An operation below is a
program, so both builds are one definition, and a theorem that holds for either value of
`Overflow` covers both. Results in range do not depend on the build.
-/
namespace Anymount.Library

/-- What an arithmetic overflow does: the two settings of `overflow-checks`. -/
inductive Overflow where
  | panics | wraps
  deriving DecidableEq, Repr

variable {S : Signature}

/-- `a + b` on `u64`. -/
def addU64 (o : Overflow) (a b : UInt64) : Prog S UInt64 :=
  if a.toNat + b.toNat < 2 ^ 64 then .ret (a + b)
  else match o with
    | .panics => .halt .panic
    | .wraps => .ret (a + b)

@[simp] theorem addU64_of_lt (o : Overflow) {a b : UInt64} (h : a.toNat + b.toNat < 2 ^ 64) :
    (addU64 o a b : Prog S UInt64) = .ret (a + b) := if_pos h

theorem addU64_wraps (a b : UInt64) : (addU64 .wraps a b : Prog S UInt64) = .ret (a + b) := by
  unfold addU64
  split <;> rfl

@[simp] theorem toNat_ofNat_u64 {n : Nat} (h : n < 2 ^ 64) : (UInt64.ofNat n).toNat = n :=
  UInt64.toNat_ofNat_of_lt' h

theorem toNat_add_of_lt {a b : UInt64} (h : a.toNat + b.toNat < 2 ^ 64) :
    (a + b).toNat = a.toNat + b.toNat := by
  rw [UInt64.toNat_add, Nat.mod_eq_of_lt h]

/-- `a - b` on `u64`. -/
def subU64 (o : Overflow) (a b : UInt64) : Prog S UInt64 :=
  if b.toNat ≤ a.toNat then .ret (a - b)
  else match o with
    | .panics => .halt .panic
    | .wraps => .ret (a - b)

theorem subU64_of_le (o : Overflow) {a b : UInt64} (h : b.toNat ≤ a.toNat) :
    (subU64 o a b : Prog S UInt64) = .ret (a - b) := if_pos h

/-- `xs[start..stop]`, which panics unless the range lies inside. -/
def slice {α : Type} (xs : List α) (start stop : Nat) : Prog S (List α) :=
  if start ≤ stop ∧ stop ≤ xs.length then .ret ((xs.drop start).take (stop - start))
  else .halt .panic

theorem slice_of_le {α : Type} {xs : List α} {start stop : Nat} (h : start ≤ stop)
    (h' : stop ≤ xs.length) :
    (slice xs start stop : Prog S (List α)) = .ret ((xs.drop start).take (stop - start)) :=
  if_pos ⟨h, h'⟩

theorem addU64_within (P : S.Call → Prop) (o : Overflow) (a b : UInt64) :
    (addU64 o a b : Prog S UInt64).Within P := by
  unfold addU64
  split
  · trivial
  · cases o <;> trivial

/-- Whatever the build, an addition that returns has the wrapped sum as its value. -/
theorem wp_addU64 {R : Contract S} {H : Halt → Prop} {Q : UInt64 → Prop} (o : Overflow)
    (a b : UInt64) (hQ : Q (a + b)) (hH : H .panic) : (addU64 o a b : Prog S UInt64).wp R H Q := by
  unfold addU64
  split
  · exact hQ
  · cases o with
    | panics => exact hH
    | wraps => exact hQ

/-! ## Signed words -/

/-- The value is one of `i64`. -/
def InI64 (n : Int) : Prop := -2 ^ 63 ≤ n ∧ n < 2 ^ 63

instance (n : Int) : Decidable (InI64 n) := inferInstanceAs (Decidable (_ ∧ _))

/-- The result of an `i64` operation whose exact value is `exact`. -/
def checkedI64 (o : Overflow) (exact : Int) (wrapped : Int64) : Prog S Int64 :=
  if InI64 exact then .ret wrapped
  else match o with
    | .panics => .halt .panic
    | .wraps => .ret wrapped

/-- `a + b` on `i64`. -/
def addI64 (o : Overflow) (a b : Int64) : Prog S Int64 := checkedI64 o (a.toInt + b.toInt) (a + b)

/-- `a - b` on `i64`. -/
def subI64 (o : Overflow) (a b : Int64) : Prog S Int64 := checkedI64 o (a.toInt - b.toInt) (a - b)

/-- `a * b` on `i64`. -/
def mulI64 (o : Overflow) (a b : Int64) : Prog S Int64 := checkedI64 o (a.toInt * b.toInt) (a * b)

theorem addI64_of_inI64 (o : Overflow) {a b : Int64} (h : InI64 (a.toInt + b.toInt)) :
    (addI64 o a b : Prog S Int64) = .ret (a + b) := if_pos h

/-- A sum is the wrapped one, or the build checks it and it is out of range. -/
theorem addI64_cases (o : Overflow) (a b : Int64) :
    (addI64 o a b : Prog S Int64) = .ret (a + b) ∨
      (addI64 o a b : Prog S Int64) = .halt .panic ∧ ¬ InI64 (a.toInt + b.toInt) := by
  unfold addI64 checkedI64
  split
  · exact .inl rfl
  · next h =>
    cases o with
    | panics => exact .inr ⟨rfl, h⟩
    | wraps => exact .inl rfl

theorem subI64_of_inI64 (o : Overflow) {a b : Int64} (h : InI64 (a.toInt - b.toInt)) :
    (subI64 o a b : Prog S Int64) = .ret (a - b) := if_pos h

theorem mulI64_of_inI64 (o : Overflow) {a b : Int64} (h : InI64 (a.toInt * b.toInt)) :
    (mulI64 o a b : Prog S Int64) = .ret (a * b) := if_pos h

theorem bmod_of_inI64 {n : Int} (h : InI64 n) : n.bmod (2 ^ 64) = n := by
  obtain ⟨hle, hlt⟩ := h
  exact Int.bmod_eq_of_le (by omega) (by omega)

theorem toInt_add_of_inI64 {a b : Int64} (h : InI64 (a.toInt + b.toInt)) :
    (a + b).toInt = a.toInt + b.toInt := by
  rw [Int64.toInt_add, bmod_of_inI64 h]

theorem toInt_sub_of_inI64 {a b : Int64} (h : InI64 (a.toInt - b.toInt)) :
    (a - b).toInt = a.toInt - b.toInt := by
  rw [Int64.toInt_sub, bmod_of_inI64 h]

theorem toInt_mul_of_inI64 {a b : Int64} (h : InI64 (a.toInt * b.toInt)) :
    (a * b).toInt = a.toInt * b.toInt := by
  rw [Int64.toInt_mul, bmod_of_inI64 h]

/-- A sum in range is what its operands denote. -/
theorem addI64_exact (o : Overflow) {a b : Int64} {x y : Int} (ha : a.toInt = x) (hb : b.toInt = y)
    (h : InI64 (x + y)) :
    ∃ c : Int64, (addI64 o a b : Prog S Int64) = .ret c ∧ c.toInt = x + y := by
  subst ha hb
  exact ⟨a + b, addI64_of_inI64 o h, toInt_add_of_inI64 h⟩

theorem mulI64_exact (o : Overflow) {a b : Int64} {x y : Int} (ha : a.toInt = x) (hb : b.toInt = y)
    (h : InI64 (x * y)) :
    ∃ c : Int64, (mulI64 o a b : Prog S Int64) = .ret c ∧ c.toInt = x * y := by
  subst ha hb
  exact ⟨a * b, mulI64_of_inI64 o h, toInt_mul_of_inI64 h⟩

theorem toNat_toUInt64_of_nonneg {a : Int64} (h : 0 ≤ a.toInt) : a.toUInt64.toNat = a.toInt.toNat :=
  Int64.toNat_toUInt64_of_le (Int64.le_iff_toInt_le.mpr h)

/-! ## Pointer-sized words -/

/-- How wide `usize` is. -/
inductive PointerWidth where
  | w32 | w64
  deriving DecidableEq, Repr

/-- `as usize`, from a wider type. -/
def PointerWidth.usize : PointerWidth → Nat → Nat
  | .w32, n => n % 2 ^ 32
  | .w64, n => n % 2 ^ 64

/-! ## Saturating operations -/

/-- `u64::saturating_add`. -/
def saturatingAdd (a b : UInt64) : UInt64 :=
  if a.toNat + b.toNat < 2 ^ 64 then a + b else .ofNat (2 ^ 64 - 1)

/-- `u64::saturating_mul`. -/
def saturatingMul (a b : UInt64) : UInt64 :=
  if a.toNat * b.toNat < 2 ^ 64 then a * b else .ofNat (2 ^ 64 - 1)

/-- `u32::saturating_sub`. -/
def saturatingSub (a b : UInt32) : UInt32 := if b ≤ a then a - b else 0

theorem toNat_saturatingAdd (a b : UInt64) :
    (saturatingAdd a b).toNat = min (a.toNat + b.toNat) (2 ^ 64 - 1) := by
  unfold saturatingAdd
  split
  · next h =>
    rw [toNat_add_of_lt h]
    omega
  · next h =>
    rw [toNat_ofNat_u64 (by norm_num)]
    omega

theorem toNat_saturatingMul (a b : UInt64) :
    (saturatingMul a b).toNat = min (a.toNat * b.toNat) (2 ^ 64 - 1) := by
  unfold saturatingMul
  split
  · next h =>
    rw [UInt64.toNat_mul, Nat.mod_eq_of_lt h]
    omega
  · next h =>
    rw [toNat_ofNat_u64 (by norm_num)]
    omega

theorem toNat_min_u32 (a b : UInt32) : (min a b).toNat = min a.toNat b.toNat := by
  show (if a ≤ b then a else b).toNat = _
  split
  · next h => rw [min_eq_left (UInt32.le_iff_toNat_le.mp h)]
  · next h =>
    rw [UInt32.le_iff_toNat_le] at h
    omega

theorem toNat_saturatingSub (a b : UInt32) : (saturatingSub a b).toNat = a.toNat - b.toNat := by
  unfold saturatingSub
  split
  · next h => exact UInt32.toNat_sub_of_le _ _ h
  · next h =>
    rw [UInt32.le_iff_toNat_le] at h
    simp only [UInt32.toNat_zero]
    omega

end Anymount.Library
