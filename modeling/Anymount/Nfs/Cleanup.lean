import Anymount.Nfs.ExportPath
import Anymount.Nfs.Mount

/-!
# What a failed mount leaves behind

For every answer of the system: the server threads and the socket directory are always
cleaned up. The stack of mounts is restored except in one case: `mount(2)` refused, and the
cleanup, which also serves a mount that went in and turned out wrong, unmounted something
that was there before.
-/
namespace Anymount.Nfs

open Library Library.Prog

/-- No earlier mount is gone, every server thread that was started has been stopped and
joined, and a socket directory that was created has been removed as far as possible. -/
structure Restored (mounts : List Nat) (w : World) : Prop where
  stack : mounts.map .earlier <:+ w.stack
  server : ∀ t, w.server t = .notStarted ∨ w.server t = .joined
  socketDir : w.dirCreated → w.dirRemoved

/-- The local transport gets as far as `mount(2)`, which refuses. -/
structure MountRefused (builder : MountBuilder) (x : Outcomes) : Prop where
  createDir : x.createDir.isOk
  bindUnix : x.bindUnix.isOk
  setPermissions : x.setPermissions.isOk
  noNul : 0 ∉ builder.mountpoint.bytes
  refused : ¬ x.mount.isOk

/-- The checks before either transport is tried pass. -/
def PassesPreflight (builder : MountBuilder) (x : Outcomes) : Prop :=
  (∃ m, x.metadata .checkMountpoint = .ok m ∧ m.isDir) ∧
    Preflight.checkOptions builder caps = .ok ()

def TcpMounts (x : Outcomes) : Prop :=
  x.bindTcp.isOk ∧ x.localAddr.isOk ∧ ∃ output, x.mountNfs = .ok output ∧ output.success

/-- The effect of `unmount_path`. -/
def afterUnmount (path : PathBuf) (x : Outcomes) (w : World) : World :=
  if 0 ∉ path.bytes ∧ x.unmount.isOk then { w with stack := w.stack.tail } else w

/-- The effect of a successful `mount(2)`. -/
def afterMount (w : World) : World := { w with stack := .ours .localSocket :: w.stack }

section Steps

variable (x : Outcomes) (w : World)

theorem cString_eq (path : PathBuf) :
    (0 ∉ path.bytes ∧ cString path = .ok path.bytes) ∨
      (0 ∈ path.bytes ∧ ∃ e, cString path = .error e) := by
  unfold cString
  split
  · next h =>
    rw [List.findIdx?_eq_none_iff] at h
    exact .inl ⟨fun hmem => by simpa using h 0 hmem, rfl⟩
  · next n h =>
    obtain ⟨hn, hzero, -⟩ := List.findIdx?_eq_some_iff_getElem.mp h
    have hmem := List.getElem_mem hn
    rw [of_decide_eq_true hzero] at hmem
    exact .inr ⟨hmem, _, rfl⟩

theorem run_verify (path : PathBuf) : ∃ r, (verify path).run (os x) w = (.ok r, w) := by
  rw [verify, Os.run_metadata]
  rcases x.metadata .verify with e | m
  · exact ⟨_, rfl⟩
  · simp only [ioContext, onOk]
    split <;> exact ⟨_, rfl⟩

theorem run_stillMounted (path : PathBuf) : ∃ b, (stillMounted path).run (os x) w = (.ok b, w) := by
  rw [stillMounted, Os.run_metadata]
  rcases x.metadata .stillMounted with e | m
  · exact ⟨_, rfl⟩
  · rcases Path.parent path.bytes with _ | p
    · exact ⟨_, rfl⟩
    · simp only [Os.run_metadata]
      rcases x.metadata (.stillMountedParent (if p = [] then Path.dot else p)) with e | m'
      · exact ⟨_, rfl⟩
      · exact ⟨_, rfl⟩

/-- `unmount_path` calls `unmount(2)` unless the path has a NUL. -/
theorem run_unmountPath (path : PathBuf) :
    ∃ r, (unmountPath path).run (os x) w = (.ok r, afterUnmount path x w) := by
  unfold unmountPath afterUnmount
  rcases cString_eq path with ⟨hnul, hc⟩ | ⟨hnul, e, hc⟩
  · rw [hc, onOk]
    simp only [Os.run_unmount]
    rcases hunmount : x.unmount with e | _
    · obtain ⟨b, hb⟩ := run_stillMounted x w path
      simp only [run_bind, Except.isOk, Except.toBool, Bool.false_eq_true, and_false, if_false, hb]
      cases b <;> exact ⟨_, rfl⟩
    · exact ⟨.ok (), by simp [hnul, Except.isOk, Except.toBool]; rfl⟩
  · rw [hc, if_neg fun h => h.1 hnul]
    exact ⟨_, rfl⟩

/-- `call_mount` calls `mount(2)` unless the path has a NUL. -/
theorem run_callMount (builder : MountBuilder) :
    ((∃ e, (callMount builder).run (os x) w = (.ok (.error e), w)) ∧
      (0 ∈ builder.mountpoint.bytes ∨ ¬ x.mount.isOk)) ∨
    ((callMount builder).run (os x) w = (.ok (.ok ()), afterMount w) ∧ x.mount.isOk) := by
  unfold callMount
  rcases cString_eq builder.mountpoint with ⟨hnul, hc⟩ | ⟨hnul, e, hc⟩
  · rw [hc, onOk, Os.run_mount]
    rcases x.mount with e | _
    · exact .inl ⟨⟨_, rfl⟩, .inr (by simp [Except.isOk, Except.toBool])⟩
    · exact .inr ⟨rfl, rfl⟩
  · rw [hc]
    exact .inl ⟨⟨_, rfl⟩, .inl hnul⟩

theorem run_stopServer {α : Type} (t : Transport) (k : Unit → OsProg α) :
    (stopServer t >>= k).run (os x) w =
      (k ()).run (os x) (w.setServer t .joined) := by
  have hjoin : (w.setServer t .stopping).server t = .stopping := Function.update_self _ _ _
  have hset : (w.setServer t .stopping).setServer t .joined = w.setServer t .joined := by
    simp [World.setServer, Function.update_idem]
  show (k ()).run (os x) (if (w.setServer t .stopping).server t = .stopping then
    (w.setServer t .stopping).setServer t .joined else w.setServer t .stopping) = _
  rw [if_pos hjoin, hset]

/-- The cleanup arm: unmount, then stop and join. -/
theorem run_finishLocal_error (builder : MountBuilder) (dir : Bytes) (e : FsError) :
    (finishLocal builder dir (.error e)).run (os x) w =
      (.ok (.error e),
        (afterUnmount builder.mountpoint x w).setServer .localSocket .joined) := by
  obtain ⟨r, hunmount⟩ := run_unmountPath x w builder.mountpoint
  rw [finishLocal, run_bind_of_ok hunmount, run_stopServer]
  rfl

theorem run_attemptMount (builder : MountBuilder) :
    ((∃ e, (attemptMount builder).run (os x) w = (.ok (.error e), w)) ∧
      (0 ∈ builder.mountpoint.bytes ∨ ¬ x.mount.isOk)) ∨
    ((∃ r, (attemptMount builder).run (os x) w = (.ok r, afterMount w)) ∧ x.mount.isOk) := by
  rcases run_callMount x w builder with ⟨⟨e, hmount⟩, hwhy⟩ | ⟨hmount, hok⟩
  · refine .inl ⟨⟨e, ?_⟩, hwhy⟩
    rw [attemptMount, run_bind_of_ok hmount]
    rfl
  · obtain ⟨r, hverify⟩ := run_verify x (afterMount w) builder.mountpoint
    refine .inr ⟨⟨r, ?_⟩, hok⟩
    rw [attemptMount, run_bind_of_ok hmount]
    exact hverify

end Steps

/-! ## The local socket -/

/-- The socket path this crate makes is always short ASCII. -/
theorem checkSocketPath_eq {suffix : Bytes} (hlen : suffix.length = 8) :
    checkSocketPath (socketPath (socketDirPath suffix)) = .ok () := by
  have hvalid : MountProto.validUtf8 (socketPath (socketDirPath suffix)) = true := by
    rw [socketPath, socketDirPath, List.append_assoc, validUtf8_append_ascii (by simp),
      validUtf8_append_ascii fun b hb =>
        ascii_of_isAsciiHexdigit (MountProto.isAsciiHexdigit_of_mem hb)]
    rfl
  have hhex : (hexString suffix).length = 16 := by rw [MountProto.length_hexString, hlen]
  have hshort : ¬ (socketPath (socketDirPath suffix)).length > sunPathMax := by
    simp [socketPath, socketDirPath, hhex, sunPathMax]
  rw [checkSocketPath, if_neg (by rw [hvalid]; decide), if_neg hshort]

/-- The top earlier mount goes when the local transport fails. -/
structure TopLost (builder : MountBuilder) (x : Outcomes) : Prop where
  refused : MountRefused builder x
  unmounted : x.unmount.isOk

/-- What a failed local attempt may leave behind: its server has been joined, and the stack
has lost its top exactly in one case. -/
structure FailedLocal (builder : MountBuilder) (x : Outcomes) (w w' : World) : Prop where
  server : w'.server .localSocket = .notStarted ∨ w'.server .localSocket = .joined
  tcp : w'.server .tcp = w.server .tcp
  kept : ¬ TopLost builder x → w.stack <:+ w'.stack
  popped : TopLost builder x → w'.stack = w.stack.tail

@[simp] theorem World.server_setServer_self (w : World) (t : Transport) (state : ServerState) :
    (w.setServer t state).server t = state := Function.update_self _ _ _

@[simp] theorem World.server_setServer_of_ne (w : World) {t t' : Transport} (h : t' ≠ t)
    (state : ServerState) : (w.setServer t state).server t' = w.server t' :=
  Function.update_of_ne h _ _

@[simp] theorem server_afterUnmount (path : PathBuf) (x : Outcomes) (w : World) :
    (afterUnmount path x w).server = w.server := by
  unfold afterUnmount
  split <;> rfl

theorem stack_afterUnmount (path : PathBuf) (x : Outcomes) (w : World) :
    (afterUnmount path x w).stack =
      if 0 ∉ path.bytes ∧ x.unmount.isOk then w.stack.tail else w.stack := by
  unfold afterUnmount
  split <;> rfl

@[simp] theorem dirs_afterUnmount (path : PathBuf) (x : Outcomes) (w : World) :
    (afterUnmount path x w).dirCreated = w.dirCreated ∧
      (afterUnmount path x w).dirRemoved = w.dirRemoved := by
  unfold afterUnmount
  split <;> exact ⟨rfl, rfl⟩

section Local

variable {x : Outcomes} {builder : MountBuilder} {w : World}

/-- Refused by `mount(2)`, or never asked because of a NUL, which the cleanup meets too. -/
theorem failedLocal_of_refused (hcreate : x.createDir.isOk) (hbind : x.bindUnix.isOk)
    (hperm : x.setPermissions.isOk) (hwhy : 0 ∈ builder.mountpoint.bytes ∨ ¬ x.mount.isOk) :
    FailedLocal builder x w
      ((afterUnmount builder.mountpoint x (w.setServer .localSocket .running)).setServer
        .localSocket .joined) := by
  refine ⟨.inr (by simp), by simp, ?_, ?_⟩
  · intro hkept
    show w.stack <:+ (afterUnmount builder.mountpoint x (w.setServer .localSocket .running)).stack
    rw [stack_afterUnmount]
    split
    · next h =>
      have hrefused := hwhy.resolve_left h.1
      exact absurd ⟨⟨hcreate, hbind, hperm, h.1, hrefused⟩, h.2⟩ hkept
    · exact List.suffix_rfl
  · intro hlost
    show (afterUnmount builder.mountpoint x (w.setServer .localSocket .running)).stack = _
    rw [stack_afterUnmount, if_pos ⟨hlost.refused.noNul, hlost.unmounted⟩]
    rfl

/-- Mounted but wrong: the cleanup takes down what was just mounted, or nothing. -/
theorem failedLocal_of_mounted (hmount : x.mount.isOk) :
    FailedLocal builder x w
      ((afterUnmount builder.mountpoint x
        (afterMount (w.setServer .localSocket .running))).setServer .localSocket .joined) := by
  refine ⟨.inr (by simp), by simp [afterMount], ?_, fun h => absurd hmount h.refused.refused⟩
  intro _
  show w.stack <:+
    (afterUnmount builder.mountpoint x (afterMount (w.setServer .localSocket .running))).stack
  rw [stack_afterUnmount]
  split
  · exact List.suffix_rfl
  · exact List.suffix_cons _ _

variable (x builder)

theorem run_mountIn {dir : Bytes} (hdir : checkSocketPath (socketPath dir) = .ok ())
    (hcreate : x.createDir.isOk) (hw : w.server .localSocket = .notStarted) :
    ∃ r w', (mountIn builder dir).run (os x) w = (.ok r, w') ∧ w'.dirCreated = w.dirCreated ∧
      (∀ e, r = .error e → FailedLocal builder x w w') ∧
      (TopLost builder x → ∃ e, r = .error e) := by
  have huntouched : ¬ TopLost builder x → FailedLocal builder x w w := fun hnot =>
    ⟨.inl hw, rfl, fun _ => List.suffix_rfl, fun h => absurd h hnot⟩
  rw [mountIn, hdir, onOk, Os.run_bindUnix]
  rcases hbind : x.bindUnix with e | _
  · have hnot : ¬ TopLost builder x := fun h => by
      simpa [hbind, Except.isOk, Except.toBool] using h.refused.bindUnix
    exact ⟨_, w, rfl, rfl, fun _ _ => huntouched hnot, fun h => absurd h hnot⟩
  rw [ioContext, onOk, Os.run_setPermissions]
  rcases hperm : x.setPermissions with e | _
  · have hnot : ¬ TopLost builder x := fun h => by
      simpa [hperm, Except.isOk, Except.toBool] using h.refused.setPermissions
    exact ⟨_, w, rfl, rfl, fun _ _ => huntouched hnot, fun h => absurd h hnot⟩
  rw [ioContext, onOk, Os.run_spawnServer]
  rcases run_attemptMount x (w.setServer .localSocket .running) builder with
    ⟨⟨e, hattempt⟩, hwhy⟩ | ⟨⟨r, hattempt⟩, hmount⟩
  · rw [run_bind_of_ok hattempt, run_finishLocal_error]
    exact ⟨_, _, rfl, (dirs_afterUnmount _ _ _).1, fun _ _ => failedLocal_of_refused hcreate
      (by rw [hbind]; rfl) (by rw [hperm]; rfl) hwhy, fun _ => ⟨e, rfl⟩⟩
  · rw [run_bind_of_ok hattempt]
    rcases r with e | _
    · rw [run_finishLocal_error]
      exact ⟨_, _, rfl, (dirs_afterUnmount _ _ _).1, fun _ _ => failedLocal_of_mounted hmount,
        fun _ => ⟨e, rfl⟩⟩
    · exact ⟨_, _, rfl, rfl, nofun, fun h => absurd hmount h.refused.refused⟩

/-- The local transport as a whole, from a system with nothing of ours on it. -/
theorem run_mountLocal (hw : w.server .localSocket = .notStarted) :
    ∃ r w', (mountLocal builder).run (os x) w = (.ok r, w') ∧
      (∀ e, r = .error e → FailedLocal builder x w w' ∧ (w'.dirCreated → w'.dirRemoved)) ∧
      (TopLost builder x → ∃ e, r = .error e) := by
  rw [mountLocal, SocketDir.create]
  simp only [Prog.bind_assoc, Os.run_randomSuffix, Os.run_createDir, pure_eq, ret_bind]
  rcases hcreate : x.createDir with e | _
  · have hnot : ¬ TopLost builder x := fun h => by
      simpa [hcreate, Except.isOk, Except.toBool] using h.refused.createDir
    exact ⟨_, _, rfl, fun _ _ => ⟨⟨.inl hw, rfl, fun _ => List.suffix_rfl, fun h => absurd h hnot⟩,
      nofun⟩, fun h => absurd h hnot⟩
  · obtain ⟨r, w', hrun, hcreated, hfailed, hlost⟩ := run_mountIn x builder
      (w := { w with dirCreated := true }) (checkSocketPath_eq x.randomSuffix.2)
      (by rw [hcreate]; rfl) hw
    have hfinish := run_bind_of_ok hrun (finishMountIn (socketDirPath x.randomSuffix.1))
    rcases r with e | handle
    · have hfailed := hfailed e rfl
      exact ⟨.error e, { w' with dirRemoved := true }, hfinish,
        fun _ _ => ⟨⟨hfailed.server, hfailed.tcp, hfailed.kept, hfailed.popped⟩, fun _ => rfl⟩,
        fun _ => ⟨e, rfl⟩⟩
    · exact ⟨.ok handle, w', hfinish, nofun, hlost⟩

end Local

/-! ## Loopback TCP, and both -/

section Mount

variable (x : Outcomes) (builder : MountBuilder) {w : World}

/-- The fall-back leaves the stack as it found it unless it mounts. -/
theorem run_mountTcp (hw : w.server .tcp = .notStarted) :
    ∃ r w', (mountTcp builder).run (os x) w = (.ok r, w') ∧
      ((∃ handle, r = .ok handle) ↔ TcpMounts x) ∧
      (∀ e, r = .error e → w'.stack = w.stack ∧
        (w'.server .tcp = .notStarted ∨ w'.server .tcp = .joined) ∧
        w'.server .localSocket = w.server .localSocket ∧ w'.dirCreated = w.dirCreated ∧
        w'.dirRemoved = w.dirRemoved) := by
  rw [mountTcp, Os.run_bindTcp]
  rcases hbind : x.bindTcp with e | _
  · refine ⟨_, w, rfl, ?_, fun _ _ => ⟨rfl, .inl hw, rfl, rfl, rfl⟩⟩
    simp [TcpMounts, hbind, Except.isOk, Except.toBool]
  rw [ioContext, onOk, Os.run_localAddr]
  rcases haddr : x.localAddr with e | port
  · refine ⟨_, w, rfl, ?_, fun _ _ => ⟨rfl, .inl hw, rfl, rfl, rfl⟩⟩
    simp [TcpMounts, haddr, Except.isOk, Except.toBool]
  rw [ioContext, onOk, Os.run_spawnServer, Os.run_mountNfs, Os.run_storeServeMount]
  rcases hnfs : x.mountNfs with e | output
  · refine ⟨_, _, run_stopServer _ _ _ _, ?_, fun _ _ => ⟨rfl, .inr (by simp), by simp, rfl, rfl⟩⟩
    simp [TcpMounts, hnfs]
  · by_cases hsuccess : output.success
    · refine ⟨.ok ⟨builder.mountpoint, .tcp, none⟩, _,
        by simp [mountNfsResult, hsuccess, finishTcp]; rfl, ?_, nofun⟩
      simp [TcpMounts, hbind, haddr, hnfs, hsuccess, Except.isOk, Except.toBool]
    · simp only [mountNfsResult, hsuccess, Bool.false_eq_true, if_false]
      refine ⟨_, _, run_stopServer _ _ _ _, ?_, fun _ _ => ⟨rfl, .inr (by simp), by simp, rfl, rfl⟩⟩
      simp [TcpMounts, hnfs, hsuccess]

theorem run_check :
    ∃ r, (Preflight.check builder caps).run (os x) w = (.ok r, w) ∧
      (r = .ok () ↔ PassesPreflight builder x) := by
  rw [Preflight.check, Preflight.checkMountpoint]
  simp only [Prog.bind_assoc, Os.run_metadata]
  unfold PassesPreflight
  rcases hstat : x.metadata .checkMountpoint with e | m
  · exact ⟨_, rfl, by simp⟩
  · by_cases hdir : m.isDir
    · refine ⟨Preflight.checkOptions builder caps, ?_, by simp [hdir]⟩
      simp only [ioContext, onOk, hdir, not_true_eq_false, if_false, pure_eq, ret_bind]
      rfl
    · simp only [ioContext, onOk, hdir, pure_eq, ret_bind]
      exact ⟨_, rfl, by simp [hdir]⟩

/-- `mount` fails after the top earlier mount has gone. -/
structure LosesMount (builder : MountBuilder) (x : Outcomes) (mounts : List Nat) : Prop where
  preflight : PassesPreflight builder x
  lost : TopLost builder x
  occupied : mounts ≠ []
  failed : builder.nfsRequireLocalSocket ∨ ¬ TcpMounts x

theorem not_suffix_tail {mounts : List Nat} (h : mounts ≠ []) :
    ¬ mounts.map MountEntry.earlier <:+ (mounts.map MountEntry.earlier).tail := by
  intro hsuffix
  have hlen := hsuffix.length_le
  rw [List.length_tail, List.length_map] at hlen
  have := List.length_pos_iff.mpr h
  omega

variable {x builder}

/-- With servers and directory in order, it is down to the stack. -/
theorem restored_iff {mounts : List Nat} {w' : World}
    (hfailed : FailedLocal builder x (.before mounts) w)
    (hstack : w'.stack = w.stack)
    (hserver : ∀ t, w'.server t = .notStarted ∨ w'.server t = .joined)
    (hdir : w'.dirCreated → w'.dirRemoved) :
    Restored mounts w' ↔ ¬ (TopLost builder x ∧ mounts ≠ []) := by
  refine ⟨?_, fun h => ⟨?_, hserver, hdir⟩⟩
  · rintro ⟨hsuffix, -, -⟩ ⟨hlost, hoccupied⟩
    rw [hstack, hfailed.popped hlost] at hsuffix
    exact not_suffix_tail hoccupied hsuffix
  · rw [hstack]
    by_cases hlost : TopLost builder x
    · obtain rfl : mounts = [] := by
        by_contra hoccupied
        exact h ⟨hlost, hoccupied⟩
      exact List.nil_suffix
    · exact hfailed.kept hlost

/-- The same for what `fallBack` makes of a failed local attempt. -/
theorem run_fallBack {mounts : List Nat} (hfailed : FailedLocal builder x (.before mounts) w)
    (hdir : w.dirCreated → w.dirRemoved) (e : FsError) :
    ∃ r w', (fallBack builder (.error e)).run (os x) w = (.ok r, w') ∧
      ((∃ e, r = .error e) ↔ builder.nfsRequireLocalSocket ∨ ¬ TcpMounts x) ∧
      (∀ e, r = .error e → (Restored mounts w' ↔ ¬ (TopLost builder x ∧ mounts ≠ []))) := by
  have htcp : w.server .tcp = .notStarted := hfailed.tcp
  have hlocal : ∀ t, w.server t = .notStarted ∨ w.server t = .joined
    | .localSocket => hfailed.server
    | .tcp => .inl htcp
  rw [fallBack]
  by_cases hrequire : builder.nfsRequireLocalSocket
  · rw [if_pos hrequire]
    exact ⟨_, w, rfl, by simp [hrequire], fun _ _ => restored_iff hfailed rfl hlocal hdir⟩
  · rw [if_neg hrequire]
    obtain ⟨r, w', hrun, hmounts, herror⟩ := run_mountTcp x builder htcp
    refine ⟨r, w', hrun, ?_, ?_⟩
    · rw [← hmounts]
      rcases r with e | handle <;> simp [hrequire]
    · intro e he
      obtain ⟨hstack, hserver, hother, hcreated, hremoved⟩ := herror e he
      refine restored_iff hfailed hstack ?_ (by rw [hcreated, hremoved]; exact hdir)
      rintro (_ | _)
      · rw [hother]
        exact hfailed.server
      · exact hserver

end Mount

/-- A failing `mount` restores what it found, the server threads and the socket directory
included, unless `mount(2)` refused on an occupied mountpoint and the cleanup's `unmount(2)`
succeeded. -/
theorem failed_mount_restores_iff (builder : MountBuilder) (x : Outcomes) (mounts : List Nat) :
    let after := (mount builder).run (os x) (.before mounts)
    (∃ r, after.1 = .ok r) ∧
      ((∀ e, after.1 = .ok (.error e) → Restored mounts after.2) ↔
        ¬ LosesMount builder x mounts) := by
  intro after
  obtain ⟨checked, hcheck, hpasses⟩ := run_check x builder (w := .before mounts)
  have hafter : after = (onOk checked fun _ => mountLocal builder >>= fallBack builder).run (os x)
      (.before mounts) := run_bind_of_ok hcheck _
  rcases checked with e | _
  · -- Nothing has been done yet.
    have hnot : ¬ LosesMount builder x mounts := fun h => by
      cases hpasses.mpr h.preflight
    rw [hafter]
    exact ⟨⟨_, rfl⟩, fun _ => hnot, fun _ _ _ =>
      ⟨List.suffix_rfl, fun _ => .inl rfl, nofun⟩⟩
  obtain ⟨r, w, hlocal, hfailed, hlost⟩ := run_mountLocal x builder
    (w := .before mounts) rfl
  have hfinal : after = (fallBack builder r).run (os x) w := hafter.trans (run_bind_of_ok hlocal _)
  rcases r with e | handle
  · obtain ⟨hfailed, hdir⟩ := hfailed e rfl
    obtain ⟨r, w', hrun, hfails, hrestored⟩ := run_fallBack hfailed hdir e
    rw [hfinal, hrun]
    refine ⟨⟨r, rfl⟩, ?_, ?_⟩
    · intro hclean hloses
      obtain ⟨e, rfl⟩ := hfails.mpr hloses.failed
      exact (hrestored e rfl).mp (hclean e rfl) ⟨hloses.lost, hloses.occupied⟩
    · rintro hnot e ⟨⟩
      refine (hrestored e rfl).mpr fun h => hnot ⟨hpasses.mp rfl, h.1, h.2, hfails.mp ⟨e, rfl⟩⟩
  · rw [hfinal]
    refine ⟨⟨_, rfl⟩, fun _ h => ?_, fun _ e he => ?_⟩
    · obtain ⟨e, he⟩ := hlost h.lost
      cases he
    · cases he

/-- A system on which everything works except `mount(2)` and `mount_nfs`. -/
def refusing : Outcomes where
  metadata _ := .ok ⟨true, 2, 1⟩
  readDir := .ok false
  randomSuffix := ⟨List.replicate 8 0, rfl⟩
  createDir := .ok ()
  bindUnix := .ok ()
  setPermissions := .ok ()
  mount := .error ⟨.permissionDenied, some 1, ""⟩
  unmount := .ok ()
  removeFile := .ok ()
  removeDir := .ok ()
  bindTcp := .ok ()
  localAddr := .ok 2049
  mountNfs := .ok ⟨false, "exit status: 1", ""⟩

/-- An earlier mount at `/m` is gone after a failed attempt to mount there again. -/
theorem failed_mount_drops_earlier_mount :
    (∃ e, ((mount ⟨⟨[47, 109], "/m"⟩, false, false, none, false⟩).run (os refusing)
        (.before [0])).1 = .ok (.error e)) ∧
      ¬ Restored [0] ((mount ⟨⟨[47, 109], "/m"⟩, false, false, none, false⟩).run (os refusing)
        (.before [0])).2 := by
  refine ⟨⟨_, rfl⟩, ?_⟩
  intro h
  have hstack := h.stack.length_le
  revert hstack
  decide

end Anymount.Nfs
