import Anymount.Fuse
import Anymount.Mounted
import Anymount.Nfs.Cleanup

/-!
# The FUSE session

`fuse::mount` turns the options of a mount into the configuration of a `fuser` session and
spawns it; the session serves the mount until `umount_and_join`. A monitor watches that each
session is configured as was asked, and joined once.
-/
namespace Anymount.Fuse.Session

open Library Library.Prog Library.Interleave
open Nfs (PathBuf IoResult OsSig)

/-! ## The session -/

inductive MountOption where
  | ro
  | fsName (name : String)
  | autoUnmount
  deriving DecidableEq, Repr

inductive SessionAcl where
  | all | owner
  deriving DecidableEq, Repr

structure Config where
  mountOptions : List MountOption
  acl : SessionAcl
  nThreads : Option Nat
  cloneFd : Bool
  deriving DecidableEq, Repr

/-- `BackgroundSession`. -/
structure Background where
  id : Nat
  deriving DecidableEq, Repr

inductive SessionCall where
  | spawnMount (mountpoint : PathBuf) (config : Config)
  | umountAndJoin (session : Background)
  deriving DecidableEq, Repr

def SessionCall.Answer : SessionCall → Type
  | spawnMount _ _ => IoResult Background
  | umountAndJoin _ => IoResult Unit

abbrev SessionSig : Signature := ⟨SessionCall, SessionCall.Answer⟩

/-- The checks that all backends share make their own calls. -/
abbrev FuserSig : Signature := OsSig.sum SessionSig

abbrev FuserProg := Prog FuserSig

/-- A FUSE mount covers the directory, whatever is in it. -/
def caps : Nfs.Caps where
  name := "fuse"
  allowOther := true
  autoUnmount := true
  threads := true
  emptyMountpoint := false
  nfsLocalSocket := false

def defaultWorkerThreads : Nat := 4

structure FuseHandle where
  session : Background
  deriving DecidableEq, Repr

/-- Both options are there, but not one without the other. -/
def needsAllowOther : FsError :=
  FsError.invalidArgument.context
    "auto_unmount requires allow_other: fusermount3 refuses to arm auto-unmount on an owner-private mount. Either call .allow_other(true) (needs user_allow_other in /etc/fuse.conf) or leave auto_unmount off and clean up with `fusermount3 -u`"

def config (builder : MountBuilder) : Config where
  mountOptions :=
    [.ro, .fsName builder.fsName] ++ if builder.autoUnmount then [.autoUnmount] else []
  acl := if builder.allowOther then .all else .owner
  nThreads := some (builder.threads.getD defaultWorkerThreads)
  cloneFd := true

def spawn (builder : MountBuilder) : Prog SessionSig (FsResult FuseHandle) := do
  if builder.autoUnmount && !builder.allowOther then pure (.error needsAllowOther)
  else do
    let spawned : IoResult Background ←
      perform (S := SessionSig) (.spawnMount builder.mountpoint (config builder))
    pure ((spawned.mapError FsError.io).map FuseHandle.mk)

def mount (builder : MountBuilder) : FuserProg (FsResult FuseHandle) := do
  let checked ← (Nfs.Preflight.check builder.toMountBuilder caps).inl
  whenOk checked fun _ => (spawn builder).inr

def FuseHandle.unmount (handle : FuseHandle) : Prog SessionSig (FsResult Unit) := do
  let joined : IoResult Unit ← perform (S := SessionSig) (.umountAndJoin handle.session)
  pure (joined.mapError FsError.io)

/-- The backend of a build for Linux. -/
def backend : Compiled FuserSig FuseHandle where
  unmount handle := handle.unmount.inr
  backend := .fuse
  usesLocalSocket _ := false
  mount := mount

/-! ## What is watched -/

/-- What of a mount there is. -/
inductive Stage where
  | nothing
  | live (session : Background)
  | joined (result : IoResult Unit)
  deriving DecidableEq

def MountOption.fsName? : MountOption → Option String
  | fsName name => some name
  | _ => none

/-- The session is read-only under the name that was asked for; it goes with the process, is
open to others and has so many threads as was asked, and only then. -/
@[mk_iff]
structure AsAsked (builder : MountBuilder) (config : Config) : Prop where
  readOnly : .ro ∈ config.mountOptions
  name : config.mountOptions.filterMap MountOption.fsName? = [builder.fsName]
  autoUnmount : .autoUnmount ∈ config.mountOptions ↔ builder.autoUnmount = true
  acl : config.acl = .all ↔ builder.allowOther = true
  threads : config.nThreads = some (builder.threads.getD defaultWorkerThreads)
  together : builder.autoUnmount = true → builder.allowOther = true
  honored : Honors caps builder.toMountBuilder

instance (builder : MountBuilder) (config : Config) : Decidable (AsAsked builder config) :=
  decidable_of_iff _ (asAsked_iff builder config).symm

theorem config_asAsked {builder : MountBuilder}
    (htogether : ¬ (builder.autoUnmount && !builder.allowOther) = true)
    (hhonored : Honors caps builder.toMountBuilder) : AsAsked builder (config builder) := by
  refine ⟨?_, ?_, ?_, ?_, rfl, ?_, hhonored⟩
  · simp [config]
  · unfold config
    split <;> rfl
  · simp [config]
  · simp [config]
  · grind

/-- A session is spawned once, as was asked, and joined once. -/
def watch (builder : MountBuilder) : Monitor FuserSig Stage
  | stage, .inl (.metadata .checkMountpoint), _ => some stage
  | .nothing, .inr (.spawnMount mountpoint config), r =>
    if mountpoint = builder.mountpoint ∧ AsAsked builder config then
      match (r : IoResult Background) with
      | .ok session => some (.live session)
      | .error _ => some .nothing
    else none
  | .live session, .inr (.umountAndJoin session'), r =>
    if session' = session then some (.joined r) else none
  | _, _, _ => none

/-- A session that there was is joined, and an unmount reports what came of it. -/
def Settled (stage : Stage) : Ended → Prop
  | .refused _ => stage = .nothing
  | .unmounted _ _ result => ∃ r, stage = .joined r ∧ result = r.mapError FsError.io
  | .dropped _ _ => ∃ r, stage = .joined r

theorem obeys_spawn {builder : MountBuilder} (hhonored : Honors caps builder.toMountBuilder) :
    Obeys (watch builder).right (fun _ => False)
      (Mounts Settled fun stage handle => stage = .live handle.session) .nothing
      (spawn builder) := by
  unfold spawn
  split
  · exact rfl
  · next htogether =>
    intro r
    have hasked := config_asAsked htogether hhonored
    cases r with
    | ok session => exact ⟨.live session, if_pos ⟨rfl, hasked⟩, rfl⟩
    | error e => exact ⟨.nothing, if_pos ⟨rfl, hasked⟩, rfl⟩

theorem obeys_mount (builder : MountBuilder) :
    Obeys (watch builder) (fun _ => False)
      (Mounts Settled fun stage handle => stage = .live handle.session) .nothing
      (mount builder) := by
  unfold mount
  rw [obeys_bind, obeys_inl]
  refine obeys_mono (obeys_check (fun _ => .nothing) (fun _ => rfl) nofun) ?_
  rintro stage (e | _) ⟨rfl | ⟨hempty, -⟩, hpassed⟩
  · exact rfl
  · cases hempty
  · exact (obeys_inr _).mpr (obeys_spawn (hpassed rfl).1)
  · cases hempty

theorem obeys_unmount (builder : MountBuilder) (handle : FuseHandle) :
    Obeys (watch builder).right (fun _ => False)
      (fun stage r => Settled stage (.unmounted .fuse false r) ∧
        Settled stage (.dropped .fuse false)) (.live handle.session) handle.unmount := by
  intro r
  exact ⟨.joined r, if_pos rfl, ⟨r, rfl, rfl⟩, ⟨r, rfl⟩⟩

theorem obeys_lifetime_backend (builder : MountBuilder) (how : GivenUp) :
    Obeys (watch builder) (fun _ => False) Settled .nothing (lifetime backend builder how) := by
  apply obeys_lifetime (fun _ => rfl) (obeys_mount builder)
  rintro _ handle rfl
  exact (obeys_inr (S := OsSig) (M := watch builder) handle.unmount).mpr
    (obeys_unmount builder handle)

/-- Sessions side by side. Any number of mounts are made and given up in one process, in any
interleaving and whatever `fuser` answers. Each session is read-only and configured as was
asked, and none is spawned where an option would be passed over; each is unmounted and joined
once, whichever way its mount is given up, and an unmount reports what came of that. -/
theorem sessions_are_as_asked_and_joined
    {allowed : List (Event FuserSig) → (c : FuserSig.Call) → FuserSig.Answer c → Prop}
    {w : World FuserSig (MountBuilder × Ended)} (h : Reachable (Lifetimes backend) allowed w)
    (i : Nat) (p : FuserProg (MountBuilder × Ended)) (hp : w.jobs[i]? = some p) :
    ∃ builder stage, (watch builder).run .nothing (own i w.log) = some stage ∧
      (∀ why, p ≠ .halt why) ∧
      ∀ builder' ended, p = .ret (builder', ended) → builder' = builder ∧ Settled stage ended :=
  reachable_lifetimes watch (fun _ => Settled) obeys_lifetime_backend h i p hp

def shared : MountBuilder :=
  MountBuilder.setThreads
    { toMountBuilder := ⟨⟨[47, 109], "/m"⟩, true, true, none, false⟩
      backend := .fuse
      fsName := "files" } 0

def owned : MountBuilder :=
  { toMountBuilder := ⟨⟨[47, 110], "/n"⟩, false, true, none, false⟩
    backend := .auto
    fsName := "files" }

/-- A `fuser` that spawns, and finds a mount busy. -/
def busy : Handler SessionSig Nat
  | .spawnMount _ _, n => (Except.ok ⟨n⟩, n + 1)
  | .umountAndJoin _, n => (Except.error ⟨.other, some 16, "busy"⟩, n)

def system : Handler FuserSig (Nfs.World × Nat) := (Nfs.os Nfs.refusing).sum busy

/-- The second mount wants to go with the process without being open to others. -/
def twoSessions : World FuserSig (MountBuilder × Ended) :=
  [0, 1, 0, 0].foldl (World.turn system (.before [], 0))
    ⟨[lifetime backend shared .unmounted >>= fun ended => .ret (shared, ended),
      lifetime backend owned .dropped >>= fun ended => .ret (owned, ended)], []⟩

theorem reachable_twoSessions :
    Reachable (Lifetimes backend) (Played system (.before [], 0)) twoSessions := by
  apply (RunOf.turns _ _ _ _).reachable fun p hp => ?_
  simp only [List.mem_cons, List.not_mem_nil, or_false] at hp
  obtain rfl | rfl := hp
  · exact ⟨_, _, rfl⟩
  · exact ⟨_, _, rfl⟩

theorem sessions_are_as_asked_and_joined_two :
    ∃ stage, (watch shared).run .nothing (own 0 twoSessions.log) = some stage ∧
      Settled stage (.unmounted .fuse false (.error (.io ⟨.other, some 16, "busy"⟩))) := by
  have hreturned : twoSessions.jobs[0]?.bind returned =
      some (shared, .unmounted .fuse false (.error (.io ⟨.other, some 16, "busy"⟩))) := by
    decide +kernel
  obtain ⟨builder, stage, hrun, -, hended⟩ := sessions_are_as_asked_and_joined
    reachable_twoSessions 0 _ (getElem?_of_returned hreturned)
  obtain ⟨rfl, hsettled⟩ := hended shared _ rfl
  exact ⟨stage, hrun, hsettled⟩

end Anymount.Fuse.Session
