import Anymount.Library.Interleave
import Anymount.Nfs.Mount

/-!
# Mounting and unmounting

A build has at most one backend: FUSE on Linux, NFS on macOS, Cloud Files on Windows. It
supplies a `mount` function and, for the handle that this returns, the operations of the
`Mounted` trait. `Mount` keeps the handle until teardown takes it out, from `unmount` or
from `drop`.
-/
namespace Anymount

open Library Library.Prog

inductive Backend where
  | auto | fuse | nfs | cfApi
  deriving DecidableEq, Repr

def unavailable : Backend → FsError
  | .fuse => .unsupported "the `fuse` backend requires Linux and the `fuse` feature"
  | .nfs => .unsupported "the `nfs` backend requires macOS and the `nfs` feature"
  | .cfApi => .unsupported "the `cfapi` backend requires Windows and the `cfapi` feature"
  | .auto => .unsupported "no mount backend available for this platform"

def noBackend : FsError :=
  .unsupported "no mount backend compiled in for this platform; enable the `fuse` feature on Linux, `nfs` on macOS, or `cfapi` on Windows"

/-- All options of a mount. -/
structure MountBuilder extends Nfs.MountBuilder where
  backend : Backend
  fsName : String
  deriving DecidableEq, Repr

namespace MountBuilder

def new (mountpoint : Nfs.PathBuf) : MountBuilder where
  mountpoint := mountpoint
  backend := .auto
  fsName := "anymount"

def setThreads (builder : MountBuilder) (n : Nat) : MountBuilder :=
  { builder with threads := some (max n 1) }

end MountBuilder

instance decidableEqExcept {ε α : Type} [DecidableEq ε] [DecidableEq α] :
    DecidableEq (Except ε α)
  | .ok a, .ok b => decidable_of_iff (a = b) ⟨congrArg _, Except.ok.inj⟩
  | .error e, .error e' => decidable_of_iff (e = e') ⟨congrArg _, Except.error.inj⟩
  | .ok _, .error _ => .isFalse nofun
  | .error _, .ok _ => .isFalse nofun

/-- Nothing is asked for that the backend cannot do. -/
structure Honors (caps : Nfs.Caps) (builder : Nfs.MountBuilder) : Prop where
  allowOther : builder.allowOther = true → caps.allowOther = true
  autoUnmount : builder.autoUnmount = true → caps.autoUnmount = true
  threads : builder.threads ≠ none → caps.threads = true
  localSocket : builder.nfsRequireLocalSocket = true → caps.nfsLocalSocket = true

theorem checkOptions_eq_ok (caps : Nfs.Caps) (builder : Nfs.MountBuilder) :
    Nfs.Preflight.checkOptions builder caps = .ok () ↔ Honors caps builder := by
  unfold Nfs.Preflight.checkOptions
  constructor
  · intro hok
    split_ifs at hok
    constructor <;> grind [Option.isSome_iff_ne_none]
  · intro h
    obtain ⟨hother, hauto, hthreads, hsocket⟩ := h
    split_ifs <;> grind [Option.isSome_iff_ne_none]

instance (caps : Nfs.Caps) (builder : Nfs.MountBuilder) : Decidable (Honors caps builder) :=
  decidable_of_iff _ (checkOptions_eq_ok caps builder)

variable {S : Signature} {H α β : Type}

/-- The `?` operator. -/
def whenOk (result : FsResult α) (next : α → Prog S (FsResult β)) : Prog S (FsResult β) :=
  match result with
  | .error e => pure (.error e)
  | .ok a => next a

/-- The trait `Mounted`, of a handle type. `unmount` consumes the handle. -/
structure Mounted (S : Signature) (H : Type) where
  unmount : H → Prog S (FsResult Unit)
  backend : Backend
  usesLocalSocket : H → Bool

/-- The backend that a build has. -/
structure Compiled (S : Signature) (H : Type) extends Mounted S H where
  mount : MountBuilder → Prog S (FsResult H)

/-- A live mount. `inner` is `none` once teardown has run. -/
structure Mount (H : Type) where
  inner : Option H
  mountpoint : Nfs.PathBuf
  backend : Backend
  localSocket : Bool

namespace Mount

def new (M : Mounted S H) (inner : H) (mountpoint : Nfs.PathBuf) : Mount H :=
  ⟨some inner, mountpoint, M.backend, M.usesLocalSocket inner⟩

/-- `Drop`: a failure is only logged. -/
def drop (M : Mounted S H) (m : Mount H) : Prog S Unit :=
  match m.inner with
  | some handle => do
    let _ ← M.unmount handle
    pure ()
  | none => pure ()

/-- Consumes the mount, which is dropped at the end without its handle. -/
def unmount (M : Mounted S H) (m : Mount H) : Prog S (FsResult Unit) := do
  let result ← match m.inner with
    | some handle => M.unmount handle
    | none => pure (.ok ())
  drop M { m with inner := none }
  pure result

end Mount

/-- `backend::mount`: `Auto` stands for the backend that there is. -/
def backendMount (compiled : Option (Compiled S H)) (builder : MountBuilder) :
    Prog S (FsResult (Mount H)) :=
  match compiled with
  | none =>
    pure (.error (if builder.backend = .auto then noBackend else unavailable builder.backend))
  | some b =>
    if builder.backend = .auto ∨ builder.backend = b.backend then do
      let mounted ← b.mount builder
      whenOk mounted fun handle => pure (.ok (.new b.toMounted handle builder.mountpoint))
    else pure (.error (unavailable builder.backend))

/-- How a mount is given up. -/
inductive GivenUp where
  | unmounted | dropped

/-- How it all ended: an unmount has a result, which `drop` swallows. -/
inductive Ended where
  | refused (e : FsError)
  | unmounted (backend : Backend) (localSocket : Bool) (result : FsResult Unit)
  | dropped (backend : Backend) (localSocket : Bool)
  deriving DecidableEq

/-- What `Mount::nfs_uses_local_socket` said. -/
def Ended.localSocket : Ended → Bool
  | refused _ => false
  | unmounted _ localSocket _ | dropped _ localSocket => localSocket

def giveUp (M : Mounted S H) (how : GivenUp) (m : Mount H) : Prog S Ended :=
  match how with
  | .unmounted => do
    let result ← m.unmount M
    pure (.unmounted m.backend m.localSocket result)
  | .dropped => do
    m.drop M
    pure (.dropped m.backend m.localSocket)

def conclude (M : Mounted S H) (how : GivenUp) : FsResult (Mount H) → Prog S Ended
  | .error e => pure (.refused e)
  | .ok m => giveUp M how m

/-- Mounting, and giving the mount up at some time. -/
def lifetime (b : Compiled S H) (builder : MountBuilder) (how : GivenUp) : Prog S Ended := do
  let mounted ← backendMount (some b) builder
  conclude b.toMounted how mounted

/-- Any mounts may be made, each in its own way. -/
def Lifetimes (b : Compiled S H) (p : Prog S (MountBuilder × Ended)) : Prop :=
  ∃ builder how, p = lifetime b builder how >>= fun ended => .ret (builder, ended)

/-! ## Proof rules -/

section Rules

open Interleave
open Nfs (IoResult)

variable {Φ : Type} {M : Monitor S Φ} {N : Halt → Prop} {Q : Φ → Ended → Prop} {φ : Φ}

/-- What `mount` has to leave: the end, or a live handle. -/
def Mounts (Q : Φ → Ended → Prop) (Live : Φ → H → Prop) (φ : Φ) : FsResult H → Prop
  | .error e => Q φ (.refused e)
  | .ok handle => Live φ handle

/-- A handle is torn down once, however the mount is given up. -/
theorem obeys_lifetime {b : Compiled S H} {builder : MountBuilder} {Live : Φ → H → Prop}
    (hrefused : ∀ e, Q φ (.refused e)) (hmount : Obeys M N (Mounts Q Live) φ (b.mount builder))
    (hunmount : ∀ φ handle, Live φ handle →
      Obeys M N (fun φ r => Q φ (.unmounted b.backend (b.usesLocalSocket handle) r) ∧
        Q φ (.dropped b.backend (b.usesLocalSocket handle))) φ (b.unmount handle))
    (how : GivenUp) : Obeys M N Q φ (lifetime b builder how) := by
  unfold lifetime backendMount
  dsimp only
  split
  · rw [bind_assoc, obeys_bind]
    refine obeys_mono hmount fun φ result hresult => ?_
    cases result with
    | error e => exact hresult
    | ok handle =>
      have hdown := hunmount φ handle hresult
      cases how with
      | unmounted =>
        show Obeys M N Q φ ((b.unmount handle >>= fun result => _) >>= _)
        rw [bind_assoc, obeys_bind]
        exact obeys_mono hdown fun φ r hr => hr.1
      | dropped =>
        show Obeys M N Q φ ((b.unmount handle >>= fun result => _) >>= _)
        rw [bind_assoc, obeys_bind]
        exact obeys_mono hdown fun φ r hr => hr.2
  · exact hrefused _

/-- What the shared checks leave. The mountpoint is looked into only where it has to be empty;
`seen` is what a monitor knows once it was. -/
structure Checked (caps : Nfs.Caps) (builder : Nfs.MountBuilder) (φ : Φ)
    (seen : IoResult Bool → Φ) (φ' : Φ) (result : FsResult Unit) : Prop where
  state : φ' = φ ∨ caps.emptyMountpoint = true ∧ ∃ r, φ' = seen r
  passed : result = .ok () → Honors caps builder ∧
    (caps.emptyMountpoint = true → φ' = seen (.ok false))

section Check

variable {W : Monitor Nfs.OsSig Φ} (seen : IoResult Bool → Φ)

theorem obeys_checkMountpoint (hstat : ∀ r, W φ (.metadata .checkMountpoint) r = some φ)
    (path : Nfs.PathBuf) :
    Obeys W N (fun φ' _ => φ' = φ) φ (Nfs.Preflight.checkMountpoint path) := by
  intro found
  refine ⟨φ, hstat found, ?_⟩
  cases found with
  | error e => exact rfl
  | ok m =>
    show Obeys _ _ _ φ (if ¬ m.isDir then _ else _)
    split
    · exact rfl
    · exact rfl

theorem obeys_checkMountpointEmpty (hread : ∀ r, W φ .readDir r = some (seen r))
    (path : Nfs.PathBuf) (name : String) :
    Obeys W N (fun φ' r => (∃ occupied, φ' = seen occupied) ∧ (r = .ok () → φ' = seen (.ok false)))
      φ (Nfs.Preflight.checkMountpointEmpty path name) := by
  intro occupied
  refine ⟨seen occupied, hread occupied, ?_⟩
  cases occupied with
  | error e => exact ⟨⟨_, rfl⟩, nofun⟩
  | ok occupied =>
    cases occupied with
    | true => exact ⟨⟨_, rfl⟩, nofun⟩
    | false => exact ⟨⟨_, rfl⟩, fun _ => rfl⟩

theorem obeys_check {caps : Nfs.Caps} {builder : Nfs.MountBuilder}
    (hstat : ∀ r, W φ (.metadata .checkMountpoint) r = some φ)
    (hread : caps.emptyMountpoint = true → ∀ r, W φ .readDir r = some (seen r)) :
    Obeys W N (Checked caps builder φ seen) φ (Nfs.Preflight.check builder caps) := by
  unfold Nfs.Preflight.check
  rw [obeys_bind]
  refine obeys_mono (obeys_checkMountpoint hstat builder.mountpoint) ?_
  rintro φ' (e | _) rfl
  · exact ⟨.inl rfl, nofun⟩
  have hpassed := checkOptions_eq_ok caps builder
  rcases hempty : caps.emptyMountpoint with _ | _
  · exact ⟨.inl rfl, fun hok => ⟨hpassed.mp hok, by rw [hempty]; nofun⟩⟩
  · show Obeys _ _ _ _ (Nfs.Preflight.checkMountpointEmpty _ _ >>= _)
    rw [obeys_bind]
    refine obeys_mono (obeys_checkMountpointEmpty seen (hread hempty) _ _) ?_
    rintro φ'' (e | _) ⟨hseen, hlast⟩
    · exact ⟨.inr ⟨hempty, hseen⟩, nofun⟩
    · exact ⟨.inr ⟨hempty, hseen⟩, fun hok => ⟨hpassed.mp hok, fun _ => hlast rfl⟩⟩

end Check

/-- A rule for one mount holds of any number of them, in every interleaving. -/
theorem reachable_lifetimes {b : Compiled S H} (watch : MountBuilder → Monitor S Φ)
    (Settled : MountBuilder → Φ → Ended → Prop)
    (hlife : ∀ builder how,
      Obeys (watch builder) (fun _ => False) (Settled builder) φ (lifetime b builder how))
    {allowed : List (Event S) → (c : S.Call) → S.Answer c → Prop}
    {w : World S (MountBuilder × Ended)} (h : Reachable (Lifetimes b) allowed w) (i : Nat)
    (p : Prog S (MountBuilder × Ended)) (hp : w.jobs[i]? = some p) :
    ∃ builder φ', (watch builder).run φ (own i w.log) = some φ' ∧ (∀ why, p ≠ .halt why) ∧
      ∀ builder' ended, p = .ret (builder', ended) →
        builder' = builder ∧ Settled builder φ' ended := by
  have htracked := reachable_own
    (J := fun es p => ∃ builder, Tracked (watch builder) (fun _ => False)
      (fun φ a => a.1 = builder ∧ Settled builder φ a.2) φ es p)
    (by
      rintro _ ⟨builder, how, rfl⟩
      refine ⟨builder, φ, rfl, (obeys_bind _ _).mpr ?_⟩
      exact obeys_mono (hlife builder how) fun _ _ hsettled => ⟨rfl, hsettled⟩)
    (by
      rintro es j c next r ⟨builder, htracked⟩
      exact ⟨builder, htracked.answer j r⟩) h i p hp
  obtain ⟨builder, φ', hrun, hobeys⟩ := htracked
  refine ⟨builder, φ', hrun, ?_, ?_⟩
  · rintro why rfl
    exact hobeys
  · rintro builder' ended rfl
    exact hobeys

end Rules

end Anymount
