import Anymount.Library.MountTree
import Anymount.Nfs.Cleanup

/-!
# Whether an unmount may be reported

`unmount(2)` fails in the same way whether the mount is already gone or could not be taken
down, and `still_mounted` tells the two apart by device numbers. Its answer is wrong in two
situations. A mountpoint that cannot be inspected counts as gone, whatever the reason; and the
textual parent of the path may lie inside the mount, as for `.`, so that the devices agree.
-/
namespace Anymount.Nfs

open Library Library.Prog

/-- The path does not exist: `ENOENT`, or `ENOTDIR` for something on the way. -/
def isAbsent (e : IoError) : Bool := e.kind = .notFound || e.rawOsError = some 20

/-- The directory that `still_mounted` compares with. -/
def comparedWith (parent : Bytes) : Bytes := if parent = [] then Path.dot else parent

/-- A mountpoint in a directory tree, and what the system answers about it. An answer may be
any failure at any time; what it tells about the tree is true. -/
structure Situation (N : Type) where
  tree : MountTree N
  cwd : N
  mountpoint : PathBuf
  outcomes : Outcomes
  stat : ∀ m, outcomes.metadata .stillMounted = .ok m →
    ∃ n, tree.resolve cwd mountpoint.bytes = some n ∧ m.dev = tree.dev n
  statParent : ∀ path m, outcomes.metadata (.stillMountedParent path) = .ok m →
    ∃ n, tree.resolve cwd path = some n ∧ m.dev = tree.dev n
  absent : ∀ e, outcomes.metadata .stillMounted = .error e → isAbsent e = true →
    tree.resolve cwd mountpoint.bytes = none

namespace Situation

variable {N : Type} (s : Situation N)

/-- The mountpoint is the root of a mount. -/
def Mounted : Prop :=
  ∃ n, s.tree.resolve s.cwd s.mountpoint.bytes = some n ∧ s.tree.isMount n = true

/-- The error of a failed unmount. -/
def original (e : IoError) : FsError :=
  let shown := s.mountpoint.display
  (FsError.io e).context s!"unmount failed for {shown}"

/-- Success is reported only when nothing is mounted. A failed unmount is otherwise reported
with its own error, also where the mountpoint cannot be inspected. -/
def ReportsTruly (w : World) : Prop :=
  ∃ r, ((unmountPath s.mountpoint).run (os s.outcomes) w).1 = .ok r ∧
    (r = .ok () → s.outcomes.unmount.isOk ∨ ¬ s.Mounted) ∧
    ∀ e, 0 ∉ s.mountpoint.bytes → s.outcomes.unmount = .error e →
      (r = .ok () ∨ r = .error (s.original e)) ∧
      ∀ e', s.outcomes.metadata .stillMounted = .error e' → isAbsent e' = false →
        r = .error (s.original e)

/-- If the mountpoint cannot be inspected, then because it does not exist. -/
def Inspectable : Prop :=
  ∀ e, s.outcomes.metadata .stillMounted = .error e → isAbsent e = true

/-- Both directories can be inspected, the mountpoint is the root of a mount, and the textual
parent of its path belongs to that mount. -/
def ParentInside : Prop :=
  ∃ n parent k, s.tree.resolve s.cwd s.mountpoint.bytes = some n ∧ s.tree.isMount n = true ∧
    (s.outcomes.metadata .stillMounted).isOk ∧ Path.parent s.mountpoint.bytes = some parent ∧
    (s.outcomes.metadata (.stillMountedParent (comparedWith parent))).isOk ∧
    s.tree.resolve s.cwd (comparedWith parent) = some k ∧ s.tree.mountOf k = n

/-! ## What is answered -/

/-- The answer of `still_mounted`. -/
def StillMounted : Prop :=
  ∃ m, s.outcomes.metadata .stillMounted = .ok m ∧
    ∀ parent, Path.parent s.mountpoint.bytes = some parent →
      ∀ m', s.outcomes.metadata (.stillMountedParent (comparedWith parent)) = .ok m' →
        m'.dev ≠ m.dev

theorem run_stillMounted_eq (w : World) :
    ∃ b, (stillMounted s.mountpoint).run (os s.outcomes) w = (.ok b, w) ∧
      (b = true ↔ s.StillMounted) := by
  unfold StillMounted
  rw [stillMounted, Os.run_metadata]
  rcases s.outcomes.metadata .stillMounted with e | m
  · exact ⟨false, rfl, by simp⟩
  · rcases Path.parent s.mountpoint.bytes with _ | parent
    · exact ⟨true, rfl, by simp⟩
    · simp only [Os.run_metadata]
      rw [show (if parent = [] then Path.dot else parent) = comparedWith parent from rfl]
      rcases hm' : s.outcomes.metadata (.stillMountedParent (comparedWith parent)) with e | m'
      · exact ⟨true, rfl, by simp [hm']⟩
      · exact ⟨decide (m'.dev ≠ m.dev), rfl, by simp [hm']⟩

/-- `unmount_path` fails on a NUL; otherwise it succeeds when `unmount(2)` does or nothing
seems to be mounted. -/
theorem run_unmountPath_eq (w : World) :
    (0 ∈ s.mountpoint.bytes ∧
      ∃ e, ((unmountPath s.mountpoint).run (os s.outcomes) w).1 = .ok (.error e)) ∨
    (0 ∉ s.mountpoint.bytes ∧ s.outcomes.unmount.isOk ∧
      ((unmountPath s.mountpoint).run (os s.outcomes) w).1 = .ok (.ok ())) ∨
    ∃ e, 0 ∉ s.mountpoint.bytes ∧ s.outcomes.unmount = .error e ∧
      ((s.StillMounted ∧
        ((unmountPath s.mountpoint).run (os s.outcomes) w).1 = .ok (.error (s.original e))) ∨
      (¬ s.StillMounted ∧
        ((unmountPath s.mountpoint).run (os s.outcomes) w).1 = .ok (.ok ()))) := by
  unfold unmountPath
  rcases cString_eq s.mountpoint with ⟨hnul, hc⟩ | ⟨hnul, e, hc⟩
  · right
    rw [hc, onOk, Os.run_unmount]
    rcases hunmount : s.outcomes.unmount with e | _
    · right
      refine ⟨e, hnul, rfl, ?_⟩
      obtain ⟨b, hb, hiff⟩ := s.run_stillMounted_eq w
      simp only [run_bind, Except.isOk, Except.toBool, Bool.false_eq_true, if_false, hb]
      cases b with
      | true => exact .inl ⟨hiff.mp rfl, rfl⟩
      | false => exact .inr ⟨fun h => absurd (hiff.mpr h) Bool.false_ne_true, rfl⟩
    · exact .inl ⟨hnul, rfl, rfl⟩
  · rw [hc]
    exact .inl ⟨hnul, e, rfl⟩

/-- When the mountpoint can be inspected and its textual parent is outside, a live mount is
seen. -/
theorem stillMounted_of_mounted (hmounted : s.Mounted) (hinspect : s.Inspectable)
    (hparent : ¬ s.ParentInside) : s.StillMounted := by
  obtain ⟨n, hn, hmount⟩ := hmounted
  rcases hm : s.outcomes.metadata .stillMounted with e | m
  · have habsent := s.absent e hm (hinspect e hm)
    rw [hn] at habsent
    cases habsent
  · refine ⟨m, hm, fun parent hparentPath m' hm' hdev => hparent ?_⟩
    obtain ⟨n', hn', hdevn⟩ := s.stat m hm
    obtain ⟨k, hk, hdevk⟩ := s.statParent _ m' hm'
    rw [hn] at hn'
    cases hn'
    have hsame : s.tree.mountOf k = n := by
      rw [← s.tree.mountOf_of_isMount hmount]
      exact (s.tree.dev_eq_iff k n).mp (by rw [← hdevk, ← hdevn, hdev])
    exact ⟨n, parent, k, hn, hmount, by rw [hm]; rfl, hparentPath, by rw [hm']; rfl, hk, hsame⟩

/-- A mount whose textual parent lies inside it is not seen. -/
theorem not_stillMounted_of_parentInside (h : s.ParentInside) : s.Mounted ∧ ¬ s.StillMounted := by
  obtain ⟨n, parent, k, hn, hmount, -, hparent, hok, hk, hsame⟩ := h
  refine ⟨⟨n, hn, hmount⟩, fun ⟨m, hm, hdiffer⟩ => ?_⟩
  rcases hm' : s.outcomes.metadata (.stillMountedParent (comparedWith parent)) with e | m'
  · rw [hm'] at hok
    cases hok
  · obtain ⟨n', hn', hdevn⟩ := s.stat m hm
    obtain ⟨k', hk', hdevk⟩ := s.statParent _ m' hm'
    rw [hn] at hn'
    rw [hk] at hk'
    cases hn'
    cases hk'
    refine hdiffer parent hparent m' hm' ?_
    rw [hdevk, hdevn, s.tree.dev_eq_iff, hsame, s.tree.mountOf_of_isMount hmount]

theorem not_stillMounted_of_error {e : IoError} (h : s.outcomes.metadata .stillMounted = .error e) :
    ¬ s.StillMounted := by
  rintro ⟨m, hm, -⟩
  rw [h] at hm
  cases hm

/-- Exactly when a report can be relied on. -/
theorem reportsTruly_iff (w : World) :
    s.ReportsTruly w ↔
      0 ∈ s.mountpoint.bytes ∨ s.outcomes.unmount.isOk ∨ (s.Inspectable ∧ ¬ s.ParentInside) := by
  rcases s.run_unmountPath_eq w with ⟨hnul, e, hrun⟩ | ⟨hnul, hok, hrun⟩ |
    ⟨e, hnul, hfail, ⟨hstill, hrun⟩ | ⟨hstill, hrun⟩⟩
  · refine iff_of_true ⟨.error e, hrun, nofun, fun _ h => absurd hnul h⟩ (.inl hnul)
  · refine iff_of_true ⟨.ok (), hrun, fun _ => .inl hok, fun e _ hfail => ?_⟩ (.inr (.inl hok))
    rw [hfail] at hok
    cases hok
  · -- The mount is seen, so the stat succeeded and the parent is outside.
    have hinspect : s.Inspectable := fun e' he' => absurd hstill (s.not_stillMounted_of_error he')
    have hparent : ¬ s.ParentInside := fun h => (s.not_stillMounted_of_parentInside h).2 hstill
    refine iff_of_true ⟨.error (s.original e), hrun, nofun, fun e' _ he' => ?_⟩
      (.inr (.inr ⟨hinspect, hparent⟩))
    rw [hfail] at he'
    cases he'
    exact ⟨.inr rfl, fun _ _ _ => rfl⟩
  · -- Success is reported although `unmount(2)` failed.
    have hnotOk : ¬ s.outcomes.unmount.isOk := by
      rw [hfail]
      exact Bool.false_ne_true
    constructor
    · rintro ⟨r, hr, htrue, hinspect⟩
      rw [hrun] at hr
      cases hr
      refine .inr (.inr ⟨fun e' he' => ?_, fun hinside => ?_⟩)
      · by_contra habsent
        cases (hinspect e hnul hfail).2 e' he' (Bool.eq_false_iff.mpr habsent)
      · rcases htrue rfl with hok | hgone
        · exact hnotOk hok
        · exact hgone (s.not_stillMounted_of_parentInside hinside).1
    · rintro (hmem | hok | ⟨hinspect, hparent⟩)
      · exact absurd hmem hnul
      · exact absurd hok hnotOk
      · refine ⟨.ok (), hrun, fun _ => .inr fun hmounted => ?_, fun e' _ _ => ⟨.inl rfl, ?_⟩⟩
        · exact hstill (s.stillMounted_of_mounted hmounted hinspect hparent)
        · intro e'' he'' habsent
          rw [hinspect e'' he''] at habsent
          cases habsent

/-- Where the path names the mountpoint in its own parent directory, the parent is outside. -/
theorem not_parentInside_of_entry {n : N} {parent : Bytes}
    (hn : s.tree.resolve s.cwd s.mountpoint.bytes = some n) (hroot : n ≠ s.tree.root)
    (hparent : Path.parent s.mountpoint.bytes = some parent)
    (hk : s.tree.resolve s.cwd (comparedWith parent) = some (s.tree.parent n)) :
    ¬ s.ParentInside := by
  rintro ⟨n', parent', k, hn', -, -, hparent', -, hk', hsame⟩
  rw [hn] at hn'
  rw [hparent] at hparent'
  cases hn'
  cases hparent'
  rw [hk] at hk'
  cases hk'
  exact s.tree.mountOf_parent_ne hroot hsame

/-- The textual parent of `.` is the working directory itself, so a mount there is never
seen. -/
theorem parentInside_dot (hdot : s.mountpoint.bytes = Path.dot) (hmounted : s.Mounted)
    (hstat : (s.outcomes.metadata .stillMounted).isOk)
    (hparent : (s.outcomes.metadata (.stillMountedParent Path.dot)).isOk) : s.ParentInside := by
  obtain ⟨n, hn, hmount⟩ := hmounted
  refine ⟨n, [], n, hn, hmount, hstat, by rw [hdot]; rfl, hparent, ?_,
    s.tree.mountOf_of_isMount hmount⟩
  rw [hdot] at hn
  exact hn

end Situation

/-! ## A mount that does not answer -/

/-- `/m` is the root of a mount, and there is nothing else. -/
def oneMount : MountTree Bool where
  root := false
  parent _ := false
  parent_root := rfl
  depth n := n.toNat
  depth_parent := by decide
  isMount _ := true
  isMount_root := rfl
  device n := if n then 2 else 1
  device_inj := by decide
  entry n name := if n = false ∧ name = [109] then some true else none

/-- The server behind `/m` hangs: `unmount(2)` reports that it is busy and `stat` times out. -/
def hungMount : Situation Bool where
  tree := oneMount
  cwd := false
  mountpoint := ⟨[47, 109], "/m"⟩
  outcomes := { refusing with
    unmount := .error { kind := .other, rawOsError := some 16 }
    metadata := fun _ => .error { kind := .timedOut, rawOsError := some 60 } }
  stat := nofun
  statParent := nofun
  absent := by
    rintro e ⟨⟩ habsent
    cases habsent

theorem hung_mount_reported_unmounted : ¬ hungMount.ReportsTruly (.before [0]) := by
  rintro ⟨r, hrun, htrue, -⟩
  have hok : ((unmountPath hungMount.mountpoint).run (os hungMount.outcomes) (.before [0])).1 =
      .ok (.ok ()) := rfl
  rw [hok] at hrun
  cases hrun
  rcases htrue rfl with hunmount | hgone
  · cases hunmount
  · exact hgone ⟨true, by decide, rfl⟩

end Anymount.Nfs
