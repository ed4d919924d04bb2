import Anymount.Cfapi.Placeholders
import Anymount.Mounted
import Anymount.Nfs.Cleanup

/-!
# The sync root

`cfapi::mount` registers the mountpoint as a sync root, moves the filesystem into a heap
allocation that every callback gets a pointer to, and connects. `unmount` takes all of that
back, even where a step of it fails, and clears what the callbacks have put into the
directory. A monitor watches the calls: it knows what is held, and that the directory was
empty before.
-/
namespace Anymount.Cfapi.SyncRoot

open Library Library.Prog Library.Interleave
open Nfs (PathBuf IoResult OsSig)

/-! ## The platform -/

/-- `windows::core::Error`. -/
structure WinError where
  code : Int32
  message : String
  deriving DecidableEq, Repr

/-- `E_ACCESSDENIED`. -/
def eAccessdenied : Int32 := -2147024891

def WinError.toFsError (e : WinError) : FsError :=
  if e.code = eAccessdenied then .permissionDenied else .other e.message

abbrev WinResult (α : Type) := Except WinError α

/-- The address of the allocation that the filesystem was moved into. -/
structure Context where
  address : UInt64
  deriving DecidableEq, Repr

structure ConnectionKey where
  value : Int64
  deriving DecidableEq, Repr

structure PlatformInfo where
  build : UInt32
  revision : UInt32
  integration : UInt32
  deriving DecidableEq, Repr

structure Registration where
  providerName : List UInt16
  providerVersion : List UInt16
  providerId : Nat
  deriving DecidableEq, Repr

/-- An entry of `read_dir`, and what `file_type` says of it: whether it is a directory. -/
structure Leftover where
  path : PathBuf
  fileType : IoResult Bool
  deriving DecidableEq

inductive RootCall where
  | getPlatformInfo
  | registerSyncRoot (path : List UInt16) (registration : Registration)
  | allocate
  | connectSyncRoot (path : List UInt16) (context : Context)
  | disconnectSyncRoot (connection : ConnectionKey)
  | unregisterSyncRoot (path : List UInt16)
  | readDir (path : PathBuf)
  | readonly (path : PathBuf)
  | setReadonly (path : PathBuf) (readonly : Bool)
  | removeDirAll (path : PathBuf)
  | removeFile (path : PathBuf)
  | deallocate (context : Context)
  deriving DecidableEq, Repr

def RootCall.Answer : RootCall → Type
  | getPlatformInfo => WinResult PlatformInfo
  | registerSyncRoot _ _ | disconnectSyncRoot _ | unregisterSyncRoot _ => WinResult Unit
  | allocate => Context
  | connectSyncRoot _ _ => WinResult ConnectionKey
  | readDir _ => IoResult (List (IoResult Leftover))
  | readonly _ => IoResult Bool
  | setReadonly _ _ | removeDirAll _ | removeFile _ => IoResult Unit
  | deallocate _ => Unit

abbrev RootSig : Signature := ⟨RootCall, RootCall.Answer⟩

abbrev RootProg := Prog RootSig

/-- The checks that all backends share make their own calls. -/
abbrev SyncSig : Signature := OsSig.sum RootSig

abbrev SyncProg := Prog SyncSig

/-! ## Mounting -/

/-- A sync root does not cover the directory, it projects into it. -/
def caps : Nfs.Caps where
  name := "cfapi"
  allowOther := false
  autoUnmount := false
  threads := false
  emptyMountpoint := true
  nfsLocalSocket := false

def providerId : Nat := 0x38f69b725e8a4f5388e96b09e09b88c6

def providerVersion : String := "1.0.0"

structure CfApiHandle where
  mountpoint : PathBuf
  connection : ConnectionKey
  context : Context
  deriving DecidableEq, Repr

def probe : RootProg (Option PlatformInfo) := do
  let info : WinResult PlatformInfo ← perform (S := RootSig) .getPlatformInfo
  pure info.toOption

def registerSyncRoot (pathWide : List UInt16) (fsName : String) : RootProg (FsResult Unit) := do
  let registered : WinResult Unit ← perform (S := RootSig) (.registerSyncRoot pathWide
    ⟨toWide (Utf8.encode fsName), toWide (Utf8.encode providerVersion), providerId⟩)
  pure (registered.mapError WinError.toFsError)

def connectSyncRoot (pathWide : List UInt16) (context : Context) :
    RootProg (FsResult ConnectionKey) := do
  let connected : WinResult ConnectionKey ←
    perform (S := RootSig) (.connectSyncRoot pathWide context)
  pure (connected.mapError fun e => e.toFsError.context "connecting the cfapi sync root")

/-- A failed connection is cleaned up after; a failure of that is only logged. -/
def connect (builder : MountBuilder) (pathWide : List UInt16) :
    RootProg (FsResult CfApiHandle) := do
  let context : Context ← perform (S := RootSig) .allocate
  match ← connectSyncRoot pathWide context with
  | .ok connection => pure (.ok ⟨builder.mountpoint, connection, context⟩)
  | .error e => do
    let _ : WinResult Unit ← perform (S := RootSig) (.unregisterSyncRoot pathWide)
    let _ : Unit ← perform (S := RootSig) (.deallocate context)
    pure (.error e)

/-- What follows the shared checks. -/
def mountRoot (builder : MountBuilder) : RootProg (FsResult CfApiHandle) := do
  match ← probe with
  | none => pure (.error (.unsupported
      "Cloud Files API unavailable: requires Windows 10 1709 or later"))
  | some _ => do
    let pathWide := toWide builder.mountpoint.bytes
    let registered ← registerSyncRoot pathWide builder.fsName
    whenOk (registered.mapError fun e => e.context "registering the cfapi sync root") fun _ =>
      connect builder pathWide

def mount (builder : MountBuilder) : SyncProg (FsResult CfApiHandle) := do
  let checked ← (Nfs.Preflight.check builder.toMountBuilder caps).inl
  whenOk checked fun _ => (mountRoot builder).inr

/-! ## Unmounting -/

/-- A read-only file could not be removed. Failures are ignored. -/
def clearReadonly (path : PathBuf) : RootProg Unit := do
  let found : IoResult Bool ← perform (S := RootSig) (.readonly path)
  match found with
  | .ok true => do
    let _ : IoResult Unit ← perform (S := RootSig) (.setReadonly path false)
    pure ()
  | _ => pure ()

def removeLeftover (entry : Leftover) : RootProg Unit := do
  let isDir := entry.fileType.toOption.getD false
  if isDir then do
    let _ : IoResult Unit ← perform (S := RootSig) (.removeDirAll entry.path)
    pure ()
  else do
    clearReadonly entry.path
    let _ : IoResult Unit ← perform (S := RootSig) (.removeFile entry.path)
    pure ()

def removeLeftovers : List Leftover → RootProg Unit
  | [] => pure ()
  | entry :: entries => do
    removeLeftover entry
    removeLeftovers entries

/-- Entries that `read_dir` cannot give are passed over. -/
def removeLeftoverPlaceholders (mountpoint : PathBuf) : RootProg Unit := do
  let entries : IoResult (List (IoResult Leftover)) ← perform (S := RootSig) (.readDir mountpoint)
  match entries with
  | .error _ => pure ()
  | .ok entries => removeLeftovers (entries.filterMap Except.toOption)

/-- The first failure is reported, the second only logged. -/
def teardownResult : FsResult Unit → FsResult Unit → FsResult Unit
  | .error e, _ => .error e
  | .ok (), unregistered => unregistered

def disconnecting (r : WinResult Unit) : FsResult Unit :=
  r.mapError fun e => e.toFsError.context "disconnecting the cfapi sync root"

def unregistering (r : WinResult Unit) : FsResult Unit :=
  r.mapError fun e => e.toFsError.context "unregistering the cfapi sync root"

/-- Every step runs, and only then is the handle dropped, and with it the context. -/
def CfApiHandle.unmount (handle : CfApiHandle) : RootProg (FsResult Unit) := do
  let disconnected : WinResult Unit ←
    perform (S := RootSig) (.disconnectSyncRoot handle.connection)
  let unregistered : WinResult Unit ←
    perform (S := RootSig) (.unregisterSyncRoot (toWide handle.mountpoint.bytes))
  removeLeftoverPlaceholders handle.mountpoint
  let _ : Unit ← perform (S := RootSig) (.deallocate handle.context)
  pure (teardownResult (disconnecting disconnected) (unregistering unregistered))

/-- The backend of a build for Windows. -/
def backend : Compiled SyncSig CfApiHandle where
  unmount handle := handle.unmount.inr
  backend := .cfApi
  usesLocalSocket _ := false
  mount := mount

/-! ## What is held -/

/-- What a mount has of the platform, and what it has asked for in giving that up. A connection
that could not be taken down stays; `left` is what a listing found that is still to be
removed. -/
structure Held where
  empty : Bool
  registered : Bool
  context : Option Context
  connection : Option (ConnectionKey × Context)
  disconnected : Option (WinResult Unit)
  unregistered : Option (WinResult Unit)
  listed : Bool
  left : List PathBuf

namespace Held

def start : Held := ⟨false, false, none, none, none, none, false, []⟩

/-- The directory was listed, and `left` is in it. -/
def list (h : Held) (left : List PathBuf) : Held := { h with listed := true, left := left }

def setLeft (h : Held) (left : List PathBuf) : Held := { h with left := left }

theorem setLeft_of_eq {h : Held} {left : List PathBuf} (hleft : h.left = left) :
    h.setLeft left = h := by
  rw [setLeft, ← hleft]

end Held

/-- The paths that a directory listing gave. -/
def paths (entries : IoResult (List (IoResult Leftover))) : List PathBuf :=
  match entries with
  | .error _ => []
  | .ok entries => (entries.filterMap Except.toOption).map Leftover.path

/-- What is asked of the platform, in view of what is held. Only a directory that was found to
be empty is registered, and only where no option would be passed over. The context is there
before it is connected, and is given back after the connection was asked to go and the
registration too, each once. After that the directory is listed, and what is removed is what it
held then, each entry once. -/
def watchRoot (builder : MountBuilder) : Monitor RootSig Held
  | h, .getPlatformInfo, _ => some h
  | h, .registerSyncRoot path _, r =>
    allow (h.empty = true ∧ h.registered = false ∧ path = toWide builder.mountpoint.bytes ∧
        Honors caps builder.toMountBuilder)
      (match (r : WinResult Unit) with
      | .ok () => { h with registered := true }
      | .error _ => h)
  | h, .allocate, r =>
    allow (h.registered = true ∧ h.unregistered = none ∧ h.context = none)
      { h with context := some r }
  | h, .connectSyncRoot path context, r =>
    allow (h.registered = true ∧ h.unregistered = none ∧ path = toWide builder.mountpoint.bytes ∧
        h.context = some context ∧ h.connection = none ∧ h.disconnected = none)
      (match (r : WinResult ConnectionKey) with
      | .ok key => { h with connection := some (key, context) }
      | .error _ => h)
  | h, .disconnectSyncRoot key, r =>
    allow (h.connection.map Prod.fst = some key ∧ h.disconnected = none ∧ h.unregistered = none)
      (match (r : WinResult Unit) with
      | .ok () => { h with connection := none, disconnected := some (.ok ()) }
      | .error e => { h with disconnected := some (.error e) })
  | h, .unregisterSyncRoot path, r =>
    allow (h.registered = true ∧ path = toWide builder.mountpoint.bytes ∧
        (h.connection ≠ none → h.disconnected ≠ none) ∧ h.unregistered = none)
      { h with unregistered := some r }
  | h, .readDir path, r =>
    allow (path = builder.mountpoint ∧ h.unregistered ≠ none ∧ h.listed = false)
      (h.list (paths r))
  | h, .readonly path, _ => allow (path ∈ h.left) h
  | h, .setReadonly path readonly, _ => allow (path ∈ h.left ∧ readonly = false) h
  | h, .removeDirAll path, _ | h, .removeFile path, _ =>
    allow (path ∈ h.left) (h.setLeft (h.left.erase path))
  | h, .deallocate context, _ =>
    allow (h.context = some context ∧ h.unregistered ≠ none) { h with context := none }

/-- Whether a listing says that there is nothing. -/
def saysEmpty (occupied : IoResult Bool) : Bool :=
  match occupied with
  | .ok false => true
  | _ => false

/-- The shared checks look at the mountpoint and make no other calls. -/
def watch (builder : MountBuilder) : Monitor SyncSig Held
  | h, .inl (.metadata .checkMountpoint), _ => some h
  | h, .inl .readDir, r => some { h with empty := saysEmpty r }
  | _, .inl _, _ => none
  | h, .inr c, r => watchRoot builder h c r

/-- The program asks for nothing the monitor objects to, does not halt, and returns where `Q`
holds. -/
abbrev Keeps {α : Type} (builder : MountBuilder) (Q : Held → α → Prop) (h : Held)
    (p : RootProg α) : Prop :=
  Interleave.Obeys (watchRoot builder) (fun _ => False) Q h p

/-- At the end all has been asked to go, in spite of earlier failures, and the context is freed;
if it was ever connected, the directory was listed after it was unregistered, and nothing that
was found is still to be removed; an unmount reports the first failure. -/
structure Settled (h : Held) (ended : Ended) : Prop where
  context : h.context = none
  root : h.registered = true → h.unregistered ≠ none
  connection : h.connection ≠ none → ∃ e, h.disconnected = some (.error e)
  listed : h.disconnected ≠ none → h.listed = true
  left : h.left = []
  reported : ∀ backend localSocket result, ended = .unmounted backend localSocket result →
    ∃ disconnected unregistered, h.disconnected = some disconnected ∧
      h.unregistered = some unregistered ∧
      result = teardownResult (disconnecting disconnected) (unregistering unregistered)

/-- What a live mount holds. -/
structure Live (builder : MountBuilder) (h : Held) (handle : CfApiHandle) : Prop where
  mountpoint : handle.mountpoint = builder.mountpoint
  registered : h.registered = true
  context : h.context = some handle.context
  connection : h.connection = some (handle.connection, handle.context)
  disconnected : h.disconnected = none
  unregistered : h.unregistered = none
  listed : h.listed = false

section Rules

variable {α : Type} {builder : MountBuilder} {Q : Held → α → Prop} {h : Held}

theorem keeps_clearReadonly {path : PathBuf} (hpath : path ∈ h.left) {q : Unit → RootProg α}
    (hq : Keeps builder Q h (q ())) : Keeps builder Q h (clearReadonly path >>= q) := by
  intro r
  refine ⟨h, allow_eq hpath h, ?_⟩
  rcases r with e | readonly
  · exact hq
  cases readonly with
  | false => exact hq
  | true =>
    intro _
    exact ⟨h, allow_eq ⟨hpath, rfl⟩ h, hq⟩

theorem keeps_removeLeftover {entry : Leftover} {left : List PathBuf}
    (hleft : h.left = entry.path :: left) {q : Unit → RootProg α}
    (hq : Keeps builder Q (h.setLeft left) (q ())) :
    Keeps builder Q h (removeLeftover entry >>= q) := by
  have hpath : entry.path ∈ h.left := by rw [hleft]; exact List.mem_cons_self
  have herase : h.left.erase entry.path = left := by rw [hleft, List.erase_cons_head]
  have hremoved : ∀ r : IoResult Unit, Keeps builder Q (h.setLeft (h.left.erase entry.path))
      (q ()) := fun _ => by rwa [herase]
  unfold removeLeftover
  dsimp only
  split
  · exact fun r => ⟨_, allow_eq hpath _, hremoved r⟩
  · rw [Prog.bind_assoc]
    apply keeps_clearReadonly hpath
    exact fun r => ⟨_, allow_eq hpath _, hremoved r⟩

theorem keeps_removeLeftovers {entries : List Leftover} (hleft : h.left = entries.map Leftover.path)
    {q : Unit → RootProg α} (hq : Keeps builder Q (h.setLeft []) (q ())) :
    Keeps builder Q h (removeLeftovers entries >>= q) := by
  induction entries generalizing h with
  | nil =>
    rw [← Held.setLeft_of_eq hleft]
    exact hq
  | cons entry entries ih =>
    rw [removeLeftovers, Prog.bind_assoc]
    apply keeps_removeLeftover hleft
    exact ih rfl hq

theorem keeps_removeLeftoverPlaceholders (hunregistered : h.unregistered ≠ none)
    (hlisted : h.listed = false) {q : Unit → RootProg α} (hq : Keeps builder Q (h.list []) (q ())) :
    Keeps builder Q h (removeLeftoverPlaceholders builder.mountpoint >>= q) := by
  intro r
  refine ⟨h.list (paths r), allow_eq ⟨rfl, hunregistered, hlisted⟩ _, ?_⟩
  cases r with
  | error e => exact hq
  | ok entries =>
    apply keeps_removeLeftovers (h := h.list (paths (.ok entries))) rfl
    exact hq

/-- Whatever is answered, every step of the teardown runs. -/
theorem keeps_unmount {handle : CfApiHandle} (hlive : Live builder h handle) :
    Keeps builder (fun h' r => Settled h' (.unmounted .cfApi false r) ∧
      Settled h' (.dropped .cfApi false)) h handle.unmount := by
  have hkey : h.connection.map Prod.fst = some handle.connection := by
    rw [hlive.connection]
    rfl
  have hgo : ∀ (h' : Held) (d u : WinResult Unit), h'.registered = true →
      h'.context = some handle.context → (h'.connection ≠ none → ∃ e, d = .error e) →
      h'.disconnected = some d → h'.unregistered = none → h'.listed = false →
      Keeps builder (fun h' r => Settled h' (.unmounted .cfApi false r) ∧
        Settled h' (.dropped .cfApi false)) { h' with unregistered := some u } (do
          removeLeftoverPlaceholders handle.mountpoint
          let _ : Unit ← perform (S := RootSig) (.deallocate handle.context)
          pure (teardownResult (disconnecting d) (unregistering u))) := by
    intro h' d u hregistered hcontext hconnection hdisconnected hunregistered hlisted
    rw [hlive.mountpoint]
    apply keeps_removeLeftoverPlaceholders (h := { h' with unregistered := some u }) nofun hlisted
    intro _
    have hdropped : Settled
        { h' with unregistered := some u, listed := true, left := [], context := none }
        (.dropped .cfApi false) := by
      refine ⟨rfl, fun _ => nofun, fun hne => ?_, fun _ => rfl, rfl, nofun⟩
      obtain ⟨e, rfl⟩ := hconnection hne
      exact ⟨e, hdisconnected⟩
    refine ⟨_, allow_eq ⟨hcontext, nofun⟩ _, ⟨?_, hdropped⟩⟩
    refine ⟨rfl, hdropped.root, hdropped.connection, fun _ => rfl, rfl, ?_⟩
    rintro backend localSocket result ⟨⟩
    exact ⟨d, u, hdisconnected, rfl, rfl⟩
  have hpath : toWide handle.mountpoint.bytes = toWide builder.mountpoint.bytes := by
    rw [hlive.mountpoint]
  intro d
  cases d with
  | ok _ =>
    refine ⟨_, allow_eq ⟨hkey, hlive.disconnected, hlive.unregistered⟩ _, fun u => ?_⟩
    refine ⟨_, allow_eq ⟨hlive.registered, hpath, fun hne => (hne rfl).elim, hlive.unregistered⟩ _,
      ?_⟩
    exact hgo { h with connection := none, disconnected := some (.ok ()) } (.ok ()) u
      hlive.registered hlive.context (fun hne => (hne rfl).elim) rfl hlive.unregistered hlive.listed
  | error e =>
    refine ⟨_, allow_eq ⟨hkey, hlive.disconnected, hlive.unregistered⟩ _, fun u => ?_⟩
    refine ⟨_, allow_eq ⟨hlive.registered, hpath, fun _ => nofun, hlive.unregistered⟩ _, ?_⟩
    exact hgo { h with disconnected := some (.error e) } (.error e) u hlive.registered
      hlive.context (fun _ => ⟨e, rfl⟩) rfl hlive.unregistered hlive.listed

/-- The mountpoint has been looked at, and nothing else was asked. -/
def Looked (empty : Bool) : Held := { Held.start with empty := empty }

theorem settled_looked (empty : Bool) (e : FsError) : Settled (Looked empty) (.refused e) :=
  ⟨rfl, nofun, fun hne => (hne rfl).elim, fun hne => (hne rfl).elim, rfl, nofun⟩

theorem keeps_connect :
    Keeps builder (Mounts Settled (Live builder)) { Looked true with registered := true }
      (connect builder (toWide builder.mountpoint.bytes)) := by
  intro context
  refine ⟨_, allow_eq ⟨rfl, rfl, rfl⟩ _, fun connected => ?_⟩
  refine ⟨_, allow_eq ⟨rfl, rfl, rfl, rfl, rfl, rfl⟩ _, ?_⟩
  cases connected with
  | ok connection => exact ⟨rfl, rfl, rfl, rfl, rfl, rfl, rfl⟩
  | error e =>
    intro u
    refine ⟨_, allow_eq ⟨rfl, rfl, fun hne => (hne rfl).elim, rfl⟩ _, fun _ => ?_⟩
    refine ⟨_, allow_eq ⟨rfl, nofun⟩ _, ?_⟩
    exact ⟨rfl, fun _ => nofun, fun hne => (hne rfl).elim, fun hne => (hne rfl).elim, rfl, nofun⟩

theorem keeps_mountRoot (hhonors : Honors caps builder.toMountBuilder) :
    Keeps builder (Mounts Settled (Live builder)) (Looked true) (mountRoot builder) := by
  intro info
  refine ⟨_, rfl, ?_⟩
  cases info with
  | error e => exact settled_looked true _
  | ok info =>
    intro registered
    refine ⟨_, allow_eq ⟨rfl, rfl, rfl, hhonors⟩ _, ?_⟩
    cases registered with
    | error e => exact settled_looked true _
    | ok _ => exact keeps_connect

theorem obeys_mount :
    Obeys (watch builder) (fun _ => False) (Mounts Settled (Live builder)) .start
      (mount builder) := by
  unfold mount
  rw [obeys_bind, obeys_inl]
  refine obeys_mono (obeys_check (fun r => Looked (saysEmpty r)) (fun _ => rfl)
    fun _ _ => rfl) ?_
  rintro h (e | _) ⟨hstate, hpassed⟩
  · obtain rfl | ⟨-, r, rfl⟩ := hstate
    · exact settled_looked false e
    · exact settled_looked (saysEmpty r) e
  · obtain ⟨hhonors, hempty⟩ := hpassed rfl
    obtain rfl := hempty rfl
    exact (obeys_inr _).mpr (keeps_mountRoot hhonors)

theorem obeys_lifetime_backend (builder : MountBuilder) (how : GivenUp) :
    Obeys (watch builder) (fun _ => False) Settled .start (lifetime backend builder how) := by
  apply obeys_lifetime (settled_looked false) obeys_mount
  intro h handle hlive
  exact (obeys_inr (S := OsSig) (M := watch builder) handle.unmount).mpr (keeps_unmount hlive)

end Rules

/-! ## Any number of mounts -/

def folder : MountBuilder :=
  { toMountBuilder := ⟨⟨[67, 58, 47, 109], "C:/m"⟩, false, false, none, false⟩
    backend := .auto
    fsName := "files" }

def busy : WinError := ⟨-2147023436, "busy"⟩

/-- What the callbacks left: a read-only file, and a directory. -/
def leftovers : List (IoResult Leftover) :=
  [.ok ⟨⟨[97], "a"⟩, .ok false⟩, .error ⟨.other, none, "gone"⟩, .ok ⟨⟨[98], "b"⟩, .ok true⟩]

/-- A platform that connects only the first context and cannot disconnect it. -/
def stubborn : Handler RootSig UInt64
  | .getPlatformInfo, n => (Except.ok ⟨22631, 0, 0x310⟩, n)
  | .registerSyncRoot _ _, n | .unregisterSyncRoot _, n => (Except.ok (), n)
  | .disconnectSyncRoot _, n => (Except.error busy, n)
  | .allocate, n => (⟨n⟩, n + 1)
  | .connectSyncRoot _ context, n =>
    (if context.address = 0 then Except.ok ⟨7⟩ else Except.error busy, n)
  | .readDir _, n => (Except.ok leftovers, n)
  | .readonly _, n => (Except.ok true, n)
  | .setReadonly _ _, n | .removeDirAll _, n | .removeFile _, n => (Except.ok (), n)
  | .deallocate _, n => ((), n)

def platform : Handler SyncSig (Nfs.World × UInt64) := (Nfs.os Nfs.refusing).sum stubborn

def twoRoots : World SyncSig (MountBuilder × Ended) :=
  (List.replicate 16 [0, 1]).flatten.foldl (World.turn platform (.before [], 0))
    ⟨[lifetime backend folder .unmounted >>= fun ended => .ret (folder, ended),
      lifetime backend folder .dropped >>= fun ended => .ret (folder, ended)], []⟩

theorem reachable_twoRoots :
    Reachable (Lifetimes backend) (Played platform (.before [], 0)) twoRoots := by
  refine (RunOf.turns _ _ _ _).reachable fun p hp => ?_
  simp only [List.mem_cons, List.not_mem_nil, or_false] at hp
  obtain rfl | rfl := hp
  · exact ⟨_, _, rfl⟩
  · exact ⟨_, _, rfl⟩

/-- What unmounting says where the connection stays. -/
def stillConnected : FsError := .context (.other "busy") "disconnecting the cfapi sync root"

end Anymount.Cfapi.SyncRoot
