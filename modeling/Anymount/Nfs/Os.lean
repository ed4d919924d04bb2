import Anymount.Nfs.Server

/-!
# The system under a mount

The operating-system calls that mounting makes, and what they do to the state that outlives
the call: the stack of mounts on the mountpoint, the server threads, the socket directory.
Each call is made at most once at each place in the code, so one record of outcomes stands
for everything the system may answer.
-/
namespace Anymount.Nfs

open Library

/-- A path, and what `display` prints for it. -/
structure PathBuf where
  bytes : Bytes
  display : String
  deriving DecidableEq, Repr

structure Metadata where
  isDir : Bool
  ino : UInt64
  dev : UInt64
  deriving DecidableEq, Repr

/-- Where `std::fs::metadata` is called. -/
inductive StatSite where
  | checkMountpoint | verify | stillMounted | stillMountedParent (path : Bytes)
  deriving DecidableEq, Repr

/-- What a finished `mount_nfs` reports. -/
structure Output where
  success : Bool
  status : String
  stderr : String
  deriving DecidableEq, Repr

inductive OsCall where
  | metadata (site : StatSite)
  | readDir
  | randomSuffix
  | createDir (path : Bytes)
  | bindUnix (path : Bytes)
  | setPermissions (path : Bytes)
  | mount
  | unmount
  | removeFile (path : Bytes)
  | removeDir (path : Bytes)
  | bindTcp
  | localAddr
  | mountNfs (port : UInt16)
  | spawnServer (transport : Transport)
  | storeServeMount
  | storeStop (transport : Transport)
  | joinServer (transport : Transport)
  deriving DecidableEq, Repr

abbrev IoResult (α : Type) := Except IoError α

/-- `readDir` reports whether there is an entry. Removals report nothing that is looked at,
and neither does a join. -/
def OsCall.Answer : OsCall → Type
  | metadata _ => IoResult Metadata
  | readDir => IoResult Bool
  | randomSuffix => { suffix : Bytes // suffix.length = 8 }
  | createDir _ | bindUnix _ | setPermissions _ | mount | unmount | bindTcp => IoResult Unit
  | localAddr => IoResult UInt16
  | mountNfs _ => IoResult Output
  | removeFile _ | removeDir _ => IoResult Unit
  | spawnServer _ | storeServeMount | storeStop _ | joinServer _ => Unit

abbrev OsSig : Signature := ⟨OsCall, OsCall.Answer⟩

abbrev OsProg := Prog OsSig

namespace Os

def metadata (site : StatSite) : OsProg (IoResult Metadata) :=
  .perform (S := OsSig) (.metadata site)
def readDir : OsProg (IoResult Bool) := .perform (S := OsSig) .readDir
def randomSuffix : OsProg { suffix : Bytes // suffix.length = 8 } :=
  .perform (S := OsSig) .randomSuffix
def createDir (path : Bytes) : OsProg (IoResult Unit) := .perform (S := OsSig) (.createDir path)
def bindUnix (path : Bytes) : OsProg (IoResult Unit) := .perform (S := OsSig) (.bindUnix path)
def setPermissions (path : Bytes) : OsProg (IoResult Unit) :=
  .perform (S := OsSig) (.setPermissions path)
def mount : OsProg (IoResult Unit) := .perform (S := OsSig) .mount
def unmount : OsProg (IoResult Unit) := .perform (S := OsSig) .unmount
def removeFile (path : Bytes) : OsProg (IoResult Unit) := .perform (S := OsSig) (.removeFile path)
def removeDir (path : Bytes) : OsProg (IoResult Unit) := .perform (S := OsSig) (.removeDir path)
def bindTcp : OsProg (IoResult Unit) := .perform (S := OsSig) .bindTcp
def localAddr : OsProg (IoResult UInt16) := .perform (S := OsSig) .localAddr
def mountNfs (port : UInt16) : OsProg (IoResult Output) := .perform (S := OsSig) (.mountNfs port)
def spawnServer (t : Transport) : OsProg Unit := .perform (S := OsSig) (.spawnServer t)
def storeServeMount : OsProg Unit := .perform (S := OsSig) .storeServeMount
def storeStop (t : Transport) : OsProg Unit := .perform (S := OsSig) (.storeStop t)
def joinServer (t : Transport) : OsProg Unit := .perform (S := OsSig) (.joinServer t)

end Os

/-! ## What the calls do -/

/-- Something mounted: by someone earlier, or by this call. -/
inductive MountEntry where
  | earlier (id : Nat)
  | ours (transport : Transport)
  deriving DecidableEq, Repr

inductive ServerState where
  | notStarted | running | stopping | joined
  deriving DecidableEq, Repr

structure World where
  /-- The mounts on the mountpoint, the top one first. -/
  stack : List MountEntry
  server : Transport → ServerState
  dirCreated : Bool
  /-- Removal of the socket directory has been attempted. -/
  dirRemoved : Bool

/-- Before the call: some earlier mounts and nothing of ours. -/
def World.before (mounts : List Nat) : World where
  stack := mounts.map .earlier
  server _ := .notStarted
  dirCreated := false
  dirRemoved := false

def World.setServer (w : World) (t : Transport) (state : ServerState) : World :=
  { w with server := Function.update w.server t state }

/-- How the system answers each call. -/
structure Outcomes where
  metadata : StatSite → IoResult Metadata
  readDir : IoResult Bool
  randomSuffix : { suffix : Bytes // suffix.length = 8 }
  createDir : IoResult Unit
  bindUnix : IoResult Unit
  setPermissions : IoResult Unit
  mount : IoResult Unit
  unmount : IoResult Unit
  removeFile : IoResult Unit
  removeDir : IoResult Unit
  bindTcp : IoResult Unit
  localAddr : IoResult UInt16
  mountNfs : IoResult Output

/-- A successful `mount(2)` pushes and a successful `unmount(2)` pops; so does a successful
`mount_nfs`, while a failing one leaves the stack alone. A thread that has been told to stop
can be joined. -/
def os (x : Outcomes) : Handler OsSig World
  | .metadata site, w => (x.metadata site, w)
  | .readDir, w => (x.readDir, w)
  | .randomSuffix, w => (x.randomSuffix, w)
  | .createDir _, w => (x.createDir, { w with dirCreated := x.createDir.isOk })
  | .bindUnix _, w => (x.bindUnix, w)
  | .setPermissions _, w => (x.setPermissions, w)
  | .mount, w =>
    (x.mount, if x.mount.isOk then { w with stack := .ours .localSocket :: w.stack } else w)
  | .unmount, w => (x.unmount, if x.unmount.isOk then { w with stack := w.stack.tail } else w)
  | .removeFile _, w => (x.removeFile, w)
  | .removeDir _, w => (x.removeDir, { w with dirRemoved := true })
  | .bindTcp, w => (x.bindTcp, w)
  | .localAddr, w => (x.localAddr, w)
  | .mountNfs _, w =>
    (x.mountNfs, match x.mountNfs with
      | .ok output => if output.success then { w with stack := .ours .tcp :: w.stack } else w
      | .error _ => w)
  | .spawnServer t, w => ((), w.setServer t .running)
  | .storeServeMount, w => ((), w)
  | .storeStop t, w => ((), w.setServer t .stopping)
  | .joinServer t, w => ((), if w.server t = .stopping then w.setServer t .joined else w)

namespace Os

section

variable {α : Type} (x : Outcomes) (w : World)

@[simp] theorem run_metadata (site : StatSite) (k : IoResult Metadata → OsProg α) :
    (metadata site >>= k).run (os x) w = (k (x.metadata site)).run (os x) w := rfl
@[simp] theorem run_readDir (k : IoResult Bool → OsProg α) :
    (readDir >>= k).run (os x) w = (k x.readDir).run (os x) w := rfl
@[simp] theorem run_randomSuffix (k : { suffix : Bytes // suffix.length = 8 } → OsProg α) :
    (randomSuffix >>= k).run (os x) w = (k x.randomSuffix).run (os x) w := rfl
@[simp] theorem run_createDir (path : Bytes) (k : IoResult Unit → OsProg α) :
    (createDir path >>= k).run (os x) w =
      (k x.createDir).run (os x) { w with dirCreated := x.createDir.isOk } := rfl
@[simp] theorem run_bindUnix (path : Bytes) (k : IoResult Unit → OsProg α) :
    (bindUnix path >>= k).run (os x) w = (k x.bindUnix).run (os x) w := rfl
@[simp] theorem run_setPermissions (path : Bytes) (k : IoResult Unit → OsProg α) :
    (setPermissions path >>= k).run (os x) w = (k x.setPermissions).run (os x) w := rfl
@[simp] theorem run_mount (k : IoResult Unit → OsProg α) :
    (mount >>= k).run (os x) w = (k x.mount).run (os x)
      (if x.mount.isOk then { w with stack := .ours .localSocket :: w.stack } else w) := rfl
@[simp] theorem run_unmount (k : IoResult Unit → OsProg α) :
    (unmount >>= k).run (os x) w = (k x.unmount).run (os x)
      (if x.unmount.isOk then { w with stack := w.stack.tail } else w) := rfl
@[simp] theorem run_removeFile (path : Bytes) (k : IoResult Unit → OsProg α) :
    (removeFile path >>= k).run (os x) w = (k x.removeFile).run (os x) w := rfl
@[simp] theorem run_removeDir (path : Bytes) (k : IoResult Unit → OsProg α) :
    (removeDir path >>= k).run (os x) w =
      (k x.removeDir).run (os x) { w with dirRemoved := true } := rfl
@[simp] theorem run_bindTcp (k : IoResult Unit → OsProg α) :
    (bindTcp >>= k).run (os x) w = (k x.bindTcp).run (os x) w := rfl
@[simp] theorem run_localAddr (k : IoResult UInt16 → OsProg α) :
    (localAddr >>= k).run (os x) w = (k x.localAddr).run (os x) w := rfl
@[simp] theorem run_mountNfs (port : UInt16) (k : IoResult Output → OsProg α) :
    (mountNfs port >>= k).run (os x) w = (k x.mountNfs).run (os x) (match x.mountNfs with
      | .ok output => if output.success then { w with stack := .ours .tcp :: w.stack } else w
      | .error _ => w) := rfl
@[simp] theorem run_spawnServer (t : Transport) (k : Unit → OsProg α) :
    (spawnServer t >>= k).run (os x) w = (k ()).run (os x) (w.setServer t .running) := rfl
@[simp] theorem run_storeServeMount (k : Unit → OsProg α) :
    (storeServeMount >>= k).run (os x) w = (k ()).run (os x) w := rfl
@[simp] theorem run_storeStop (t : Transport) (k : Unit → OsProg α) :
    (storeStop t >>= k).run (os x) w = (k ()).run (os x) (w.setServer t .stopping) := rfl
@[simp] theorem run_joinServer (t : Transport) (k : Unit → OsProg α) :
    (joinServer t >>= k).run (os x) w = (k ()).run (os x)
      (if w.server t = .stopping then w.setServer t .joined else w) := rfl

end

end Os

end Anymount.Nfs
