import Mathlib
import Anymount.Library.Bytes

/-!
# A directory tree with mounts

A rooted tree of nodes, some of which are roots of mounts. Each mount has a device number of
its own, and every node reports the device of the nearest mount root above it. Paths are
resolved component by component; what a name leads to is arbitrary, so links are included.
-/
namespace Anymount.Library

structure MountTree (N : Type) where
  root : N
  parent : N → N
  parent_root : parent root = root
  depth : N → Nat
  depth_parent : ∀ n, n ≠ root → depth (parent n) < depth n
  isMount : N → Bool
  isMount_root : isMount root = true
  /-- The device number of the mount with this root. -/
  device : N → UInt64
  device_inj : ∀ m n, isMount m = true → isMount n = true → device m = device n → m = n
  /-- What a name in a directory leads to. -/
  entry : N → Bytes → Option N

namespace MountTree

variable {N : Type} (t : MountTree N)

def climb : Nat → N → N
  | 0, n => n
  | steps + 1, n => if t.isMount n then n else climb steps (t.parent n)

/-- The root of the mount that a node belongs to. -/
def mountOf (n : N) : N := t.climb (t.depth n) n

def dev (n : N) : UInt64 := t.device (t.mountOf n)

/-! ## Mounts -/

theorem eq_root_of_depth {n : N} (h : t.depth n = 0) : n = t.root := by
  by_contra hne
  have := t.depth_parent n hne
  omega

theorem isMount_climb {steps : Nat} {n : N} (h : t.depth n ≤ steps) :
    t.isMount (t.climb steps n) = true := by
  induction steps generalizing n with
  | zero =>
    rw [climb, t.eq_root_of_depth (Nat.le_zero.mp h)]
    exact t.isMount_root
  | succ steps ih =>
    rw [climb]
    split_ifs with hmount
    · exact hmount
    · have hne : n ≠ t.root := by
        rintro rfl
        exact hmount t.isMount_root
      exact ih (by have := t.depth_parent n hne; omega)

theorem depth_climb_le (steps : Nat) (n : N) : t.depth (t.climb steps n) ≤ t.depth n := by
  induction steps generalizing n with
  | zero => exact le_rfl
  | succ steps ih =>
    rw [climb]
    split_ifs with hmount
    · exact le_rfl
    · by_cases hne : n = t.root
      · exact absurd (hne ▸ t.isMount_root) hmount
      · exact (ih _).trans (t.depth_parent n hne).le

theorem isMount_mountOf (n : N) : t.isMount (t.mountOf n) = true := t.isMount_climb le_rfl

theorem mountOf_of_isMount {n : N} (h : t.isMount n = true) : t.mountOf n = n := by
  unfold mountOf
  cases t.depth n with
  | zero => rfl
  | succ d => rw [climb, if_pos h]

/-- Two nodes report one device exactly when they belong to one mount. -/
theorem dev_eq_iff (m n : N) : t.dev m = t.dev n ↔ t.mountOf m = t.mountOf n :=
  ⟨t.device_inj _ _ (t.isMount_mountOf m) (t.isMount_mountOf n), congrArg t.device⟩

/-- The directory above a mount root does not belong to that mount. -/
theorem mountOf_parent_ne {n : N} (h : n ≠ t.root) : t.mountOf (t.parent n) ≠ n := by
  intro heq
  have hle : t.depth (t.mountOf (t.parent n)) ≤ t.depth (t.parent n) := t.depth_climb_le _ _
  have hlt := t.depth_parent n h
  rw [heq] at hle
  omega

/-! ## Paths -/

/-- One component: nothing and `.` stay, `..` goes up. -/
def follow (n : N) (name : Bytes) : Option N :=
  if name = [] ∨ name = [46] then some n
  else if name = [46, 46] then some (t.parent n)
  else t.entry n name

/-- The node of a path, absolute or relative to the working directory. -/
def resolve (cwd : N) (path : Bytes) : Option N :=
  if path = [] then none
  else (path.splitOn 47).foldlM t.follow (if path.head? = some 47 then t.root else cwd)

end MountTree

end Anymount.Library
