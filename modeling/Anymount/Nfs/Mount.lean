import Anymount.Nfs.Os

/-!
# Mounting

`nfs::mount`: the checks, the local socket with `mount(2)`, and the fall-back to loopback TCP
with `mount_nfs`, each with its cleanup. The arguments built for `mount(2)` and `mount_nfs`
are left out; whatever they are, the system may accept or refuse them.
-/
namespace Anymount.Nfs

open Library Library.Prog

/-- The options of a mount that this backend looks at. -/
structure MountBuilder where
  mountpoint : PathBuf
  allowOther : Bool := false
  autoUnmount : Bool := false
  threads : Option Nat := none
  nfsRequireLocalSocket : Bool := false
  deriving DecidableEq, Repr

/-- A step that may fail, and what follows it. -/
def onOk {α β : Type} (result : FsResult α) (next : α → OsProg (FsResult β)) :
    OsProg (FsResult β) :=
  match result with
  | .error e => pure (.error e)
  | .ok a => next a

/-- `map_err(|e| FsError::Io(e).context(msg))`. -/
def ioContext {α : Type} (msg : String) : IoResult α → FsResult α
  | .error e => .error ((FsError.io e).context msg)
  | .ok a => .ok a

/-! ## Preflight -/

structure Caps where
  name : String
  allowOther : Bool
  autoUnmount : Bool
  threads : Bool
  emptyMountpoint : Bool
  nfsLocalSocket : Bool
  deriving DecidableEq, Repr

/-- What the NFS backend can honor, with both transports compiled in. -/
def caps : Caps := ⟨"nfs", false, false, false, false, true⟩

namespace Preflight

def checkMountpoint (path : PathBuf) : OsProg (FsResult Unit) := do
  let found ← Os.metadata .checkMountpoint
  let shown := path.display
  onOk (ioContext s!"mountpoint {shown} is not usable; it must exist and be a directory" found)
    fun m =>
      if ¬ m.isDir then
        pure (.error (FsError.notADirectory.context s!"mountpoint {shown} is not a directory"))
      else pure (.ok ())

def checkMountpointEmpty (path : PathBuf) (backend : String) : OsProg (FsResult Unit) := do
  let entries ← Os.readDir
  let shown := path.display
  onOk (ioContext s!"reading mountpoint {shown} to check that it is empty" entries) fun occupied =>
    if occupied then
      pure (.error (FsError.invalidArgument.context
        s!"mountpoint {shown} is not empty; the {backend} backend projects its entries into the directory rather than covering it, and clears them again on unmount, so mounting here would destroy the existing contents. Use an empty directory"))
    else pure (.ok ())

/-- The options that `caps` cannot honor, in the order they are checked. -/
def checkOptions (builder : MountBuilder) (caps : Caps) : FsResult Unit :=
  let name := caps.name
  if builder.allowOther && !caps.allowOther then
    .error (FsError.invalidArgument.context
      s!"the {name} backend cannot honor allow_other; it is a FUSE mount option with no equivalent here. Leave it off, or mount with Backend::Fuse on Linux")
  else if builder.threads.isSome && !caps.threads then
    .error (FsError.invalidArgument.context
      s!"the {name} backend cannot honor threads; it does not own its own worker pool. Leave it unset, or mount with Backend::Fuse on Linux")
  else if builder.nfsRequireLocalSocket && !caps.nfsLocalSocket then
    .error (FsError.invalidArgument.context
      s!"the {name} backend cannot honor nfs_require_local_socket; it has no local-socket transport to require. It is a macOS NFS option, and needs the `nfs-local-socket` feature")
  else if builder.autoUnmount && !caps.autoUnmount then
    .error (FsError.invalidArgument.context
      s!"the {name} backend cannot honor auto_unmount; it is a FUSE mount option with no equivalent here. The mount is torn down when the Mount is dropped, which covers an orderly exit")
  else .ok ()

def check (builder : MountBuilder) (caps : Caps) : OsProg (FsResult Unit) := do
  let usable ← checkMountpoint builder.mountpoint
  onOk usable fun _ => do
    let empty ←
      if caps.emptyMountpoint then checkMountpointEmpty builder.mountpoint caps.name
      else pure (.ok ())
    onOk empty fun _ => pure (checkOptions builder caps)

end Preflight

/-! ## Unmounting a path -/

/-- `CString::new`: fails on an interior NUL. -/
def cString (path : PathBuf) : FsResult Bytes :=
  match path.bytes.findIdx? (· = 0) with
  | none => .ok path.bytes
  | some n => .error (.other
      s!"mountpoint has an interior NUL: nul byte found in provided data at position: {n}")

namespace Path

def dot : Bytes := [46]
def slash : UInt8 := 47

/-- Drop what `components` skips at the end of a path: empty segments, and `.` unless it is
the first. The segments come last one first. -/
def trim : List Bytes → List Bytes
  | [] => []
  | [s] => if s = [] then [] else [s]
  | s :: t => if s = [] ∨ s = dot then trim t else s :: t

/-- `Path::parent` on Unix. -/
def parent (path : Bytes) : Option Bytes :=
  match trim (path.splitOn slash).reverse with
  | [] => none
  | _ :: rest =>
    match trim rest with
    | [] => some (if path.head? = some slash then [slash] else [])
    | kept => some ([slash].intercalate kept.reverse)

end Path

/-- Whether the path is still the root of a mount. Errs toward `true`. -/
def stillMounted (path : PathBuf) : OsProg Bool := do
  match ← Os.metadata .stillMounted with
  | .error _ => pure false
  | .ok m =>
    match Path.parent path.bytes with
    | none => pure true
    | some p => do
      match ← Os.metadata (.stillMountedParent (if p = [] then Path.dot else p)) with
      | .ok parentMeta => pure (parentMeta.dev ≠ m.dev)
      | .error _ => pure true

def unmountPath (mountpoint : PathBuf) : OsProg (FsResult Unit) :=
  onOk (cString mountpoint) fun _ => do
    match ← Os.unmount with
    | .ok () => pure (.ok ())
    | .error e => do
      let shown := mountpoint.display
      if ¬ (← stillMounted mountpoint) then pure (.ok ())
      else pure (.error ((FsError.io e).context s!"unmount failed for {shown}"))

/-! ## The local socket -/

/-- The socket directory: `/tmp/.anymount-` and the suffix in hex. -/
def socketDirPath (suffix : Bytes) : Bytes :=
  [47, 116, 109, 112, 47, 46, 97, 110, 121, 109, 111, 117, 110, 116, 45] ++ hexString suffix

/-- The socket in its directory, `s`. -/
def socketPath (dir : Bytes) : Bytes := dir ++ [47, 115]

def sunPathMax : Nat := 104

/-- The text of an ASCII path. -/
def asciiText (path : Bytes) : String := .ofList (path.map fun b => Char.ofNat b.toNat)

namespace SocketDir

def create : OsProg (FsResult Bytes) := do
  let suffix ← Os.randomSuffix
  let dir := socketDirPath suffix.1
  let shown := asciiText dir
  let created ← Os.createDir dir
  pure ((ioContext s!"creating the socket directory {shown} for the local NFS transport" created).map
    fun _ => dir)

/-- Best effort. -/
def remove (dir : Bytes) : OsProg Unit := do
  let _ ← Os.removeFile (socketPath dir)
  let _ ← Os.removeDir dir

end SocketDir

/-- A live mount. -/
structure NfsHandle where
  mountpoint : PathBuf
  transport : Transport
  socketDir : Option Bytes
  deriving DecidableEq, Repr

/-- The two ways the socket path itself can be unusable. -/
def checkSocketPath (path : Bytes) : FsResult Unit :=
  let shown := asciiText path
  let len := path.length
  if ¬ MountProto.validUtf8 path then .error (.other s!"socket path {shown} is not valid UTF-8")
  else if len > sunPathMax then
    .error (.other s!"socket path {shown} is {len} bytes, over the {sunPathMax}-byte sun_path limit")
  else .ok ()

def callMount (builder : MountBuilder) : OsProg (FsResult Unit) :=
  onOk (cString builder.mountpoint) fun _ => do
    let result ← Os.mount
    let shown := builder.mountpoint.display
    pure (ioContext s!"mount(2) refused the local-socket NFS arguments for {shown}" result)

/-- Read the root back through the mountpoint. -/
def verify (mountpoint : PathBuf) : OsProg (FsResult Unit) := do
  let found ← Os.metadata .verify
  let shown := mountpoint.display
  onOk (ioContext s!"reading {shown} back after mounting; mount(2) reported success" found) fun m =>
    let ino := m.ino
    let root := rootIno.number
    if ino ≠ root then
      pure (.error (.other
        s!"{shown} mounted but its root has inode {ino} rather than {root}; the mount is not this filesystem"))
    else pure (.ok ())

/-- Stop and join a server thread. -/
def stopServer (transport : Transport) : OsProg Unit := do
  Os.storeStop transport
  Os.joinServer transport

/-- `mount(2)`, then `verify`. -/
def attemptMount (builder : MountBuilder) : OsProg (FsResult Unit) := do
  let mounted ← callMount builder
  onOk mounted fun _ => verify builder.mountpoint

/-- One cleanup for both failures: refused by `mount(2)`, and mounted but wrong. -/
def finishLocal (builder : MountBuilder) (dir : Bytes) :
    FsResult Unit → OsProg (FsResult NfsHandle)
  | .error e => do
    let _ ← unmountPath builder.mountpoint
    stopServer .localSocket
    pure (.error e)
  | .ok () => pure (.ok ⟨builder.mountpoint, .localSocket, some dir⟩)

def mountIn (builder : MountBuilder) (dir : Bytes) : OsProg (FsResult NfsHandle) :=
  onOk (checkSocketPath (socketPath dir)) fun _ => do
    let shown := asciiText (socketPath dir)
    let bound ← Os.bindUnix (socketPath dir)
    onOk (ioContext s!"binding the NFS socket at {shown}" bound) fun _ => do
      let restricted ← Os.setPermissions (socketPath dir)
      onOk (ioContext s!"restricting permissions on the NFS socket {shown}" restricted) fun _ => do
        Os.spawnServer .localSocket
        let outcome ← attemptMount builder
        finishLocal builder dir outcome

/-- A failure takes the socket directory with it. -/
def finishMountIn (dir : Bytes) : FsResult NfsHandle → OsProg (FsResult NfsHandle)
  | .error e => do
    SocketDir.remove dir
    pure (.error e)
  | .ok handle => pure (.ok handle)

def mountLocal (builder : MountBuilder) : OsProg (FsResult NfsHandle) := do
  let created ← SocketDir.create
  onOk created fun dir => do
    let result ← mountIn builder dir
    finishMountIn dir result

/-! ## Loopback TCP -/

/-- What `mount_nfs` reported, as a result. -/
def mountNfsResult : IoResult Output → FsResult Unit
  | .error e => .error ((FsError.io e).context "spawning mount_nfs")
  | .ok output =>
    let status := output.status
    let stderr := output.stderr
    if output.success then .ok ()
    else .error (.other s!"mount_nfs exited with {status}: {stderr}")

def finishTcp (builder : MountBuilder) : FsResult Unit → OsProg (FsResult NfsHandle)
  | .error e => do
    stopServer .tcp
    pure (.error e)
  | .ok () => pure (.ok ⟨builder.mountpoint, .tcp, none⟩)

def mountTcp (builder : MountBuilder) : OsProg (FsResult NfsHandle) := do
  let bound ← Os.bindTcp
  onOk (ioContext "binding NFS server socket" bound) fun _ => do
    let addr ← Os.localAddr
    onOk (ioContext "reading NFS server socket's assigned port" addr) fun port => do
      Os.spawnServer .tcp
      let output ← Os.mountNfs port
      Os.storeServeMount
      finishTcp builder (mountNfsResult output)

/-- What to do about the result of the local transport. -/
def fallBack (builder : MountBuilder) : FsResult NfsHandle → OsProg (FsResult NfsHandle)
  | .ok handle => pure (.ok handle)
  | .error e =>
    if builder.nfsRequireLocalSocket then
      pure (.error (e.context
        "the local-socket transport failed and nfs_require_local_socket forbids falling back to loopback TCP"))
    else mountTcp builder

/-- Prefer the local socket, fall back to loopback TCP. -/
def mount (builder : MountBuilder) : OsProg (FsResult NfsHandle) := do
  let checked ← Preflight.check builder caps
  onOk checked fun _ => do
    let result ← mountLocal builder
    fallBack builder result

end Anymount.Nfs
