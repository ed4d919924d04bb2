import Anymount.Mounted
import Anymount.Nfs.Cleanup

/-!
# The life of a mount

`Mount` holds the handle of its backend until teardown takes it out, from `unmount` or from
`drop`. What the system is asked for in between is watched by a monitor that knows what is
held: a server thread is stopped before it is joined, the client-side mount is asked to go
while its server still answers, the socket directory goes last, and nothing is given back
twice or forgotten, whatever the system answers.
-/
namespace Anymount.Nfs

open Library Library.Prog Library.Interleave

/-! ## The handle -/

namespace NfsHandle

/-- The server is stopped and joined even if the client-side unmount failed. -/
def unmount (handle : NfsHandle) : OsProg (FsResult Unit) := do
  let unmounted ← unmountPath handle.mountpoint
  stopServer handle.transport
  match handle.socketDir with
  | some dir => do
    SocketDir.remove dir
    pure unmounted
  | none => pure unmounted

def usesLocalSocket (handle : NfsHandle) : Bool :=
  match handle.transport with
  | .localSocket => true
  | .tcp => false

end NfsHandle

/-- The backend of a build for macOS. -/
def backend : Compiled OsSig NfsHandle where
  unmount := NfsHandle.unmount
  backend := .nfs
  usesLocalSocket := NfsHandle.usesLocalSocket
  mount builder := mount builder.toMountBuilder

/-! ## What is held -/

namespace Lifecycle

/-- What a mount has of the system: its server threads, its socket directory, whether a socket
was bound in it and whether the socket has been taken out of it, a client-side mount that has not
been asked to go, whether one was asked to since a server was last started, and whether a TCP port
was ever bound. -/
structure Held where
  server : Transport → ServerState
  dir : Option Bytes
  bound : Bool
  emptied : Bool
  client : Option Transport
  asked : Bool
  listened : Bool

namespace Held

def start : Held := ⟨fun _ => .notStarted, none, false, false, none, false, false⟩

def setServer (h : Held) (t : Transport) (state : ServerState) : Held :=
  { h with server := Function.update h.server t state }

/-- A server is started, for a client-side mount of its own. -/
def spawn (h : Held) (t : Transport) : Held := { h.setServer t .running with asked := false }

def makeDir (h : Held) (path : Bytes) : Held :=
  { h with dir := some path, bound := false, emptied := false }

def bind (h : Held) : Held := { h with bound := true }

def empty (h : Held) : Held := { h with bound := false, emptied := true }

def dropDir (h : Held) : Held := { h with dir := none }

def setClient (h : Held) (client : Option Transport) : Held := { h with client := client }

/-- No client-side mount is left that was not asked to go. -/
def gone (h : Held) (asked : Bool) : Held := { h with client := none, asked := asked }

def listen (h : Held) : Held := { h with listened := true }

/-- No thread of this server is left. -/
def Idle (h : Held) (t : Transport) : Prop := h.server t = .notStarted ∨ h.server t = .joined

instance (h : Held) (t : Transport) : Decidable (h.Idle t) := inferInstanceAs (Decidable (_ ∨ _))

/-- There is something for a server of this transport to listen on. -/
def Listens (h : Held) : Transport → Bool
  | .localSocket => h.bound
  | .tcp => h.listened

/-- Nothing is held. -/
structure Clear (h : Held) : Prop where
  idle : ∀ t, h.Idle t
  dir : h.dir = none
  client : h.client = none

@[simp] theorem server_setServer_self (h : Held) (t : Transport) (state : ServerState) :
    (h.setServer t state).server t = state := Function.update_self ..

@[simp] theorem server_setServer_of_ne (h : Held) {t t' : Transport} (hne : t' ≠ t)
    (state : ServerState) : (h.setServer t state).server t' = h.server t' :=
  Function.update_of_ne hne ..

@[simp] theorem setServer_setServer (h : Held) (t : Transport) (state state' : ServerState) :
    (h.setServer t state).setServer t state' = h.setServer t state' := by
  simp only [setServer, Function.update_idem]

theorem server_spawn_self (h : Held) (t : Transport) : (h.spawn t).server t = .running :=
  server_setServer_self ..

theorem server_spawn_of_ne (h : Held) {t t' : Transport} (hne : t' ≠ t) :
    (h.spawn t).server t' = h.server t' := server_setServer_of_ne h hne _

theorem setClient_of_eq {h : Held} {client : Option Transport} (hclient : h.client = client) :
    h.setClient client = h := by
  rw [setClient, ← hclient]

theorem gone_of_eq {h : Held} (hclient : h.client = none) : h.gone h.asked = h := by
  rw [gone, ← hclient]

/-- With its server joined, a transport is idle, and the others are as before. -/
theorem idle_setServer_joined {h : Held} {t : Transport} (hothers : ∀ t' ≠ t, h.Idle t')
    (t' : Transport) : (h.setServer t .joined).Idle t' := by
  by_cases ht : t' = t
  · subst ht
    exact .inr (server_setServer_self ..)
  · rw [Idle, server_setServer_of_ne h ht]
    exact hothers t' ht

end Held

/-- What is asked of the system, in view of what is held. The socket is made in its own
directory and a server started once it has something to listen on; a client-side mount is asked
for only where there is none, and asked to go once; a server is stopped once, not before its
client-side mount has been asked to go, and joined only after that; the socket and then the
directory are removed, each once, when the server is gone, and with them gone TCP may be tried.
No program can be passed a path with a NUL to mount at. -/
def step (builder : MountBuilder) : Monitor OsSig Held
  | h, .createDir path, r =>
    allow (h.dir = none ∧ h.server .localSocket = .notStarted) (match (r : IoResult Unit) with
      | .ok () => h.makeDir path
      | .error _ => h)
  | h, .bindUnix path, r =>
    allow (h.dir.map socketPath = some path ∧ h.bound = false ∧ h.emptied = false)
      (match (r : IoResult Unit) with
      | .ok () => h.bind
      | .error _ => h)
  | h, .setPermissions path, _ =>
    allow (h.dir.map socketPath = some path ∧ h.bound = true ∧
      h.server .localSocket = .notStarted) h
  | h, .mount, r =>
    allow (h.server .localSocket = .running ∧ h.client = none ∧ h.asked = false)
      (match (r : IoResult Unit) with
      | .ok () => h.setClient (some .localSocket)
      | .error _ => h)
  | h, .unmount, _ =>
    allow ((h.server .localSocket = .running ∨ h.server .tcp = .running) ∧ h.asked = false)
      (h.gone true)
  | h, .removeFile path, _ =>
    allow (h.dir.map socketPath = some path ∧ h.emptied = false ∧ h.Idle .localSocket) h.empty
  | h, .removeDir path, _ =>
    allow (h.dir = some path ∧ h.emptied = true ∧ h.Idle .localSocket) h.dropDir
  | h, .bindTcp, r =>
    allow (builder.nfsRequireLocalSocket = false ∧ h.dir = none ∧ h.Idle .localSocket ∧
        h.server .tcp = .notStarted ∧ h.listened = false)
      (match (r : IoResult Unit) with
      | .ok () => h.listen
      | .error _ => h)
  | h, .localAddr, _ => allow (h.listened = true) h
  | h, .mountNfs _, r =>
    allow (h.server .tcp = .running ∧ h.client = none ∧ h.asked = false)
      (match (r : IoResult Output) with
      | .ok output =>
        if output.success ∧ 0 ∉ builder.mountpoint.bytes then h.setClient (some .tcp) else h
      | .error _ => h)
  | h, .spawnServer t, _ => allow (h.server t = .notStarted ∧ h.Listens t = true) (h.spawn t)
  | h, .storeServeMount, _ => allow (h.server .tcp = .running) h
  | h, .storeStop t, _ =>
    allow (h.server t = .running ∧ h.client = none) (h.setServer t .stopping)
  | h, .joinServer t, _ => allow (h.server t = .stopping) (h.setServer t .joined)
  | h, .metadata _, _ | h, .readDir, _ | h, .randomSuffix, _ => some h

/-- Where an option cannot be honoured, nothing is asked but what is at the mountpoint. -/
def watch (builder : MountBuilder) : Monitor OsSig Held := fun h c r =>
  if c = OsCall.metadata .checkMountpoint ∨ Honors caps builder then step builder h c r else none

theorem watch_of_honors {builder : MountBuilder} (hhonors : Honors caps builder) :
    watch builder = step builder := by
  funext h c r
  exact if_pos (.inr hhonors)

/-- Where all options can be honoured, the program asks for nothing the monitor objects to, does
not halt, and returns where `Q` holds. -/
abbrev Keeps {α : Type} (builder : MountBuilder) (Q : Held → α → Prop) (h : Held)
    (p : OsProg α) : Prop :=
  Interleave.Obeys (step builder) (fun _ => False) Q h p

section Rules

variable {α β : Type} {builder : MountBuilder} {Q : Held → α → Prop} {h : Held}

theorem keeps_metadata (site : StatSite) {k : IoResult Metadata → OsProg α}
    (hk : ∀ r, Keeps builder Q h (k r)) : Keeps builder Q h (Os.metadata site >>= k) :=
  fun r => ⟨h, rfl, hk r⟩

theorem keeps_stillMounted (path : PathBuf) {q : Bool → OsProg α}
    (hq : ∀ b, Keeps builder Q h (q b)) : Keeps builder Q h (stillMounted path >>= q) := by
  unfold stillMounted
  rw [Prog.bind_assoc]
  refine keeps_metadata _ ?_
  rintro (e | m)
  · exact hq false
  dsimp only
  rcases Path.parent path.bytes with _ | parent
  · exact hq true
  · dsimp only
    rw [Prog.bind_assoc]
    refine keeps_metadata _ ?_
    rintro (e | parentMeta)
    · exact hq true
    · exact hq _

theorem keeps_verify (path : PathBuf) {q : FsResult Unit → OsProg α}
    (hq : ∀ r, Keeps builder Q h (q r)) : Keeps builder Q h (verify path >>= q) := by
  unfold verify
  rw [Prog.bind_assoc]
  refine keeps_metadata _ ?_
  rintro (e | m)
  · exact hq _
  · dsimp only [ioContext, onOk]
    split
    · exact hq _
    · exact hq _

/-- Whatever comes of it, the mount has been asked to go, unless there can be none. -/
theorem keeps_unmountPath {path : PathBuf}
    (hserver : h.server .localSocket = .running ∨ h.server .tcp = .running)
    (hasked : h.asked = false) (hclient : 0 ∈ path.bytes → h.client = none)
    {q : FsResult Unit → OsProg α} (hq : ∀ r asked, Keeps builder Q (h.gone asked) (q r)) :
    Keeps builder Q h (unmountPath path >>= q) := by
  unfold unmountPath
  rcases cString_eq path with ⟨-, hc⟩ | ⟨hnul, e, hc⟩
  · rw [hc, onOk, Prog.bind_assoc]
    intro r
    refine ⟨h.gone true, allow_eq ⟨hserver, hasked⟩ _, ?_⟩
    rcases r with e | _
    · dsimp only
      show Keeps builder Q _ ((stillMounted path >>= _) >>= q)
      rw [Prog.bind_assoc]
      refine keeps_stillMounted path fun b => ?_
      cases b
      · exact hq _ true
      · exact hq _ true
    · exact hq _ true
  · rw [hc, ← Held.gone_of_eq (hclient hnul)]
    exact hq _ h.asked

theorem keeps_stopServer {t : Transport} (hserver : h.server t = .running)
    (hclient : h.client = none) {q : Unit → OsProg α}
    (hq : Keeps builder Q (h.setServer t .joined) (q ())) :
    Keeps builder Q h (stopServer t >>= q) := by
  intro _
  refine ⟨h.setServer t .stopping, allow_eq ⟨hserver, hclient⟩ _, ?_⟩
  intro _
  refine ⟨h.setServer t .joined, ?_, hq⟩
  rw [← h.setServer_setServer t .stopping .joined]
  exact allow_eq (Held.server_setServer_self ..) _

theorem keeps_remove {dir : Bytes} (hdir : h.dir = some dir) (hfull : h.emptied = false)
    (hidle : h.Idle .localSocket) {q : Unit → OsProg α}
    (hq : Keeps builder Q h.empty.dropDir (q ())) :
    Keeps builder Q h (SocketDir.remove dir >>= q) := by
  intro _
  refine ⟨h.empty, allow_eq ⟨by rw [hdir]; rfl, hfull, hidle⟩ _, ?_⟩
  intro _
  exact ⟨_, allow_eq ⟨hdir, rfl, hidle⟩ _, hq⟩

end Rules

/-! ## Mounting -/

/-- What a live mount holds. -/
structure Live (builder : MountBuilder) (handle : NfsHandle) (h : Held) : Prop where
  honors : Honors caps builder
  running : h.server handle.transport = .running
  others : ∀ t ≠ handle.transport, h.Idle t
  dir : h.dir = handle.socketDir
  full : handle.socketDir ≠ none → h.emptied = false
  client : 0 ∈ handle.mountpoint.bytes → h.client = none
  unasked : h.asked = false
  silent : handle.transport = .localSocket → h.listened = false
  required : builder.nfsRequireLocalSocket = true → handle.transport = .localSocket

/-- Nothing is held but the socket directory, and TCP has not been tried. -/
structure Untried (socketDir : Option Bytes) (h : Held) : Prop where
  idle : h.Idle .localSocket
  tcp : h.server .tcp = .notStarted
  dir : h.dir = socketDir
  full : socketDir ≠ none → h.emptied = false
  client : h.client = none
  silent : h.listened = false

theorem Untried.clear {h : Held} (hh : Untried none h) : h.Clear := by
  refine ⟨?_, hh.dir, hh.client⟩
  rintro (_ | _)
  · exact hh.idle
  · exact .inl hh.tcp

section Mounting

variable {α : Type} {builder : MountBuilder} {Q : Held → α → Prop} {h : Held}

/-- Only `mount(2)` at a path without a NUL can have made a mount. -/
theorem keeps_attemptMount (hserver : h.server .localSocket = .running) (hclient : h.client = none)
    (hasked : h.asked = false) {q : FsResult Unit → OsProg α}
    (hq : ∀ client r, (0 ∈ builder.mountpoint.bytes → client = none) →
      Keeps builder Q (h.setClient client) (q r)) :
    Keeps builder Q h (attemptMount builder >>= q) := by
  have hrefused : ∀ r, Keeps builder Q h (q r) := by
    intro r
    rw [← Held.setClient_of_eq hclient]
    exact hq none r fun _ => rfl
  unfold attemptMount callMount
  rcases cString_eq builder.mountpoint with ⟨hnul, hc⟩ | ⟨-, e, hc⟩
  · rw [hc, onOk, Prog.bind_assoc, Prog.bind_assoc]
    intro r
    rcases r with e | _
    · exact ⟨h, allow_eq ⟨hserver, hclient, hasked⟩ h, hrefused _⟩
    · refine ⟨h.setClient (some .localSocket), allow_eq ⟨hserver, hclient, hasked⟩ _, ?_⟩
      exact keeps_verify _ fun r => hq _ r fun h => absurd h hnul
  · rw [hc]
    exact hrefused _

/-- The cleanup of a failed attempt gives everything back, the directory apart. -/
theorem keeps_finishLocal {dir : Bytes}
    (hlive : Live builder ⟨builder.mountpoint, .localSocket, some dir⟩ h)
    (htcp : h.server .tcp = .notStarted) (r : FsResult Unit) {q : FsResult NfsHandle → OsProg α}
    (hfailed : ∀ e h', Untried (some dir) h' → Keeps builder Q h' (q (.error e)))
    (hok : ∀ h', Live builder ⟨builder.mountpoint, .localSocket, some dir⟩ h' →
      Keeps builder Q h' (q (.ok ⟨builder.mountpoint, .localSocket, some dir⟩))) :
    Keeps builder Q h (finishLocal builder dir r >>= q) := by
  rcases r with e | _
  · unfold finishLocal
    rw [Prog.bind_assoc]
    refine keeps_unmountPath (.inl hlive.running) hlive.unasked hlive.client fun _ asked => ?_
    rw [Prog.bind_assoc]
    refine keeps_stopServer (h := h.gone asked) hlive.running rfl (hfailed e _ ?_)
    refine ⟨.inr (Held.server_setServer_self ..), ?_, hlive.dir, hlive.full, rfl,
      hlive.silent rfl⟩
    have hne : Transport.tcp ≠ .localSocket := by decide
    exact (Held.server_setServer_of_ne _ hne _).trans htcp
  · exact hok h hlive

theorem keeps_mountIn (hhonors : Honors caps builder) {dir : Bytes} (hh : Untried (some dir) h)
    (hserver : h.server .localSocket = .notStarted) (hunbound : h.bound = false)
    {q : FsResult NfsHandle → OsProg α}
    (hfailed : ∀ e h', Untried (some dir) h' → Keeps builder Q h' (q (.error e)))
    (hok : ∀ h', Live builder ⟨builder.mountpoint, .localSocket, some dir⟩ h' →
      Keeps builder Q h' (q (.ok ⟨builder.mountpoint, .localSocket, some dir⟩))) :
    Keeps builder Q h (mountIn builder dir >>= q) := by
  have hsocket : h.dir.map socketPath = some (socketPath dir) := by rw [hh.dir]; rfl
  have hfull : h.emptied = false := hh.full (Option.some_ne_none dir)
  have hrunning : (h.bind.spawn .localSocket).server .localSocket = .running :=
    h.bind.server_spawn_self _
  have htcp : (h.bind.spawn .localSocket).server .tcp = .notStarted := by
    rw [Held.server_spawn_of_ne _ (by decide)]
    exact hh.tcp
  unfold mountIn
  rcases checkSocketPath (socketPath dir) with e | _
  · exact hfailed e h hh
  dsimp only [onOk]
  rw [Prog.bind_assoc]
  intro r
  rcases r with e | _
  · exact ⟨h, allow_eq ⟨hsocket, hunbound, hfull⟩ h, hfailed _ h hh⟩
  refine ⟨h.bind, allow_eq ⟨hsocket, hunbound, hfull⟩ _, ?_⟩
  intro r
  refine ⟨h.bind, allow_eq ⟨hsocket, rfl, hserver⟩ _, ?_⟩
  rcases r with e | _
  · exact hfailed _ h.bind ⟨hh.idle, hh.tcp, hh.dir, hh.full, hh.client, hh.silent⟩
  intro _
  refine ⟨h.bind.spawn .localSocket, allow_eq ⟨hserver, rfl⟩ _, ?_⟩
  show Keeps builder Q _ ((attemptMount builder >>= finishLocal builder dir) >>= q)
  rw [Prog.bind_assoc]
  refine keeps_attemptMount hrunning hh.client rfl fun client r hclient => ?_
  have hlive : Live builder ⟨builder.mountpoint, .localSocket, some dir⟩
      ((h.bind.spawn .localSocket).setClient client) := by
    refine ⟨hhonors, hrunning, ?_, hh.dir, fun _ => hfull, hclient, rfl, fun _ => hh.silent,
      fun _ => rfl⟩
    rintro (_ | _) hne
    · exact absurd rfl hne
    · exact .inl htcp
  exact keeps_finishLocal hlive htcp r hfailed hok

theorem keeps_mountLocal (hhonors : Honors caps builder) (hh : Untried none h)
    (hserver : h.server .localSocket = .notStarted) {q : FsResult NfsHandle → OsProg α}
    (hfailed : ∀ e h', Untried none h' → Keeps builder Q h' (q (.error e)))
    (hok : ∀ handle h', Live builder handle h' → Keeps builder Q h' (q (.ok handle))) :
    Keeps builder Q h (mountLocal builder >>= q) := by
  unfold mountLocal SocketDir.create
  rw [Prog.bind_assoc, Prog.bind_assoc]
  intro suffix
  refine ⟨h, rfl, ?_⟩
  intro r
  rcases r with e | _
  · exact ⟨h, allow_eq ⟨hh.dir, hserver⟩ h, hfailed _ h hh⟩
  refine ⟨h.makeDir (socketDirPath suffix.1), allow_eq ⟨hh.dir, hserver⟩ _, ?_⟩
  generalize socketDirPath suffix.1 = dir
  show Keeps builder Q _ ((mountIn builder dir >>= finishMountIn dir) >>= q)
  rw [Prog.bind_assoc]
  have hmade : Untried (some dir) (h.makeDir dir) :=
    ⟨hh.idle, hh.tcp, rfl, fun _ => rfl, hh.client, hh.silent⟩
  refine keeps_mountIn hhonors hmade hserver rfl (fun e h' hh' => ?_) fun h' => hok _ h'
  unfold finishMountIn
  rw [Prog.bind_assoc]
  refine keeps_remove hh'.dir (hh'.full (Option.some_ne_none dir)) hh'.idle (hfailed e _ ?_)
  exact ⟨hh'.idle, hh'.tcp, rfl, fun hne => absurd rfl hne, hh'.client, hh'.silent⟩

/-- Without a client-side mount, stopping and joining the server gives everything back. -/
theorem keeps_finishTcp (hlive : Live builder ⟨builder.mountpoint, .tcp, none⟩ h)
    {r : FsResult Unit} (hclient : r ≠ .ok () → h.client = none)
    {q : FsResult NfsHandle → OsProg α}
    (hfailed : ∀ e h', h'.Clear → Keeps builder Q h' (q (.error e)))
    (hok : ∀ handle h', Live builder handle h' → Keeps builder Q h' (q (.ok handle))) :
    Keeps builder Q h (finishTcp builder r >>= q) := by
  rcases r with e | _
  · unfold finishTcp
    rw [Prog.bind_assoc]
    refine keeps_stopServer hlive.running (hclient nofun) (hfailed e _ ?_)
    exact ⟨Held.idle_setServer_joined hlive.others, hlive.dir, hclient nofun⟩
  · exact hok _ h hlive

/-- Only a successful `mount_nfs` at a path without a NUL can have made a mount. -/
theorem keeps_mountNfs {port : UInt16} (hserver : h.server .tcp = .running)
    (hclient : h.client = none) (hasked : h.asked = false) {k : IoResult Output → OsProg α}
    (hk : ∀ client output, (0 ∈ builder.mountpoint.bytes → client = none) →
      (mountNfsResult output ≠ .ok () → client = none) →
        Keeps builder Q (h.setClient client) (k output)) :
    Keeps builder Q h (Os.mountNfs port >>= k) := by
  have hguard : h.server .tcp = .running ∧ h.client = none ∧ h.asked = false :=
    ⟨hserver, hclient, hasked⟩
  have hsame : h.setClient none = h := Held.setClient_of_eq hclient
  intro output
  rcases output with e | output
  · refine ⟨h, allow_eq hguard h, ?_⟩
    rw [← hsame]
    exact hk none (.error e) (fun _ => rfl) fun _ => rfl
  by_cases hmounted : output.success ∧ 0 ∉ builder.mountpoint.bytes
  · refine ⟨h.setClient (some .tcp), (allow_eq hguard _).trans ?_,
      hk (some .tcp) (.ok output) ?_ ?_⟩
    · exact congrArg some (if_pos hmounted)
    · exact fun hnul => absurd hnul hmounted.2
    · exact fun hfailed => absurd (if_pos hmounted.1) hfailed
  · refine ⟨h.setClient none, (allow_eq hguard _).trans ?_, hk none (.ok output) ?_ ?_⟩
    · exact congrArg some ((if_neg hmounted).trans hsame.symm)
    · exact fun _ => rfl
    · exact fun _ => rfl

theorem keeps_mountTcp (hhonors : Honors caps builder)
    (hrequire : builder.nfsRequireLocalSocket = false) (hh : Untried none h)
    {q : FsResult NfsHandle → OsProg α}
    (hfailed : ∀ e h', h'.Clear → Keeps builder Q h' (q (.error e)))
    (hok : ∀ handle h', Live builder handle h' → Keeps builder Q h' (q (.ok handle))) :
    Keeps builder Q h (mountTcp builder >>= q) := by
  have hguard : builder.nfsRequireLocalSocket = false ∧ h.dir = none ∧ h.Idle .localSocket ∧
      h.server .tcp = .notStarted ∧ h.listened = false :=
    ⟨hrequire, hh.dir, hh.idle, hh.tcp, hh.silent⟩
  unfold mountTcp
  rw [Prog.bind_assoc]
  intro r
  rcases r with e | _
  · exact ⟨h, allow_eq hguard h, hfailed _ h hh.clear⟩
  refine ⟨h.listen, allow_eq hguard _, ?_⟩
  intro r
  refine ⟨h.listen, allow_eq rfl _, ?_⟩
  rcases r with e | port
  · exact hfailed _ h.listen ⟨hh.clear.idle, hh.dir, hh.client⟩
  intro _
  have htcp : h.listen.server .tcp = .notStarted := hh.tcp
  refine ⟨h.listen.spawn .tcp, allow_eq ⟨htcp, rfl⟩ _, ?_⟩
  have hrunning : (h.listen.spawn .tcp).server .tcp = .running := h.listen.server_spawn_self _
  have hlocal : (h.listen.spawn .tcp).Idle .localSocket := by
    rw [Held.Idle, Held.server_spawn_of_ne _ (by decide)]
    exact hh.idle
  have hlive : ∀ client, (0 ∈ builder.mountpoint.bytes → client = none) →
      Live builder ⟨builder.mountpoint, .tcp, none⟩ ((h.listen.spawn .tcp).setClient client) := by
    intro client hnul
    refine ⟨hhonors, hrunning, ?_, hh.dir, fun hne => absurd rfl hne, hnul, rfl, nofun,
      fun h => ?_⟩
    · rintro (_ | _) hne
      · exact hlocal
      · exact absurd rfl hne
    · rw [hrequire] at h
      cases h
  show Keeps builder Q _ ((Os.mountNfs port >>= _) >>= q)
  rw [Prog.bind_assoc]
  refine keeps_mountNfs hrunning hh.client rfl fun client output hnul hunmounted => ?_
  intro _
  refine ⟨_, allow_eq hrunning _, ?_⟩
  exact keeps_finishTcp (hlive client hnul) hunmounted hfailed hok

/-! ## The whole life -/

/-- What follows the shared checks. -/
theorem keeps_transports (hhonors : Honors caps builder) {q : FsResult NfsHandle → OsProg α}
    (hfailed : ∀ e h', h'.Clear → (builder.nfsRequireLocalSocket = true → h'.listened = false) →
      Keeps builder Q h' (q (.error e)))
    (hok : ∀ handle h', Live builder handle h' → Keeps builder Q h' (q (.ok handle))) :
    Keeps builder Q .start ((mountLocal builder >>= fallBack builder) >>= q) := by
  have hstart : Untried none .start := ⟨.inl rfl, rfl, rfl, fun _ => rfl, rfl, rfl⟩
  rw [Prog.bind_assoc]
  refine keeps_mountLocal hhonors hstart rfl (fun e h' hh' => ?_) hok
  unfold fallBack
  dsimp only
  by_cases hrequire : builder.nfsRequireLocalSocket = true
  · rw [if_pos hrequire]
    exact hfailed _ h' hh'.clear fun _ => hh'.silent
  · rw [if_neg hrequire]
    have hrequire := Bool.eq_false_of_not_eq_true hrequire
    refine keeps_mountTcp hhonors hrequire hh' (fun e h' hclear => ?_) hok
    exact hfailed e h' hclear fun h => by rw [hrequire] at h; cases h

theorem keeps_unmount {handle : NfsHandle} (hlive : Live builder handle h)
    {q : FsResult Unit → OsProg α}
    (hq : ∀ r h', h'.Clear → h'.listened = h.listened → Keeps builder Q h' (q r)) :
    Keeps builder Q h (handle.unmount >>= q) := by
  have hserver : h.server .localSocket = .running ∨ h.server .tcp = .running := by
    have hrunning := hlive.running
    rcases htransport : handle.transport with _ | _
    · rw [htransport] at hrunning
      exact .inl hrunning
    · rw [htransport] at hrunning
      exact .inr hrunning
  unfold NfsHandle.unmount
  rw [Prog.bind_assoc]
  refine keeps_unmountPath hserver hlive.unasked hlive.client fun r asked => ?_
  rw [Prog.bind_assoc]
  refine keeps_stopServer (h := h.gone asked) hlive.running rfl ?_
  have hidle : ∀ t, ((h.gone asked).setServer handle.transport .joined).Idle t :=
    Held.idle_setServer_joined hlive.others
  rcases hdir : handle.socketDir with _ | dir
  · exact hq r _ ⟨hidle, hlive.dir.trans hdir, rfl⟩ rfl
  · dsimp only
    rw [Prog.bind_assoc]
    have hfull : h.emptied = false := hlive.full (by rw [hdir]; exact Option.some_ne_none dir)
    exact keeps_remove (h := (h.gone asked).setServer handle.transport .joined)
      (hlive.dir.trans hdir) hfull (hidle .localSocket) (hq r _ ⟨hidle, rfl, rfl⟩ rfl)

end Mounting

/-- At the end nothing is held. TCP was not tried where it was ruled out, and not where the
mount said it was served over the local socket. -/
structure Settled (builder : MountBuilder) (h : Held) (ended : Ended) : Prop where
  clear : h.Clear
  required : builder.nfsRequireLocalSocket = true → h.listened = false
  silent : ended.localSocket = true → h.listened = false

theorem settled_start (builder : MountBuilder) (e : FsError) :
    Settled builder .start (.refused e) :=
  ⟨⟨fun _ => .inl rfl, rfl, rfl⟩, fun _ => rfl, nofun⟩

theorem obeys_backend_mount (builder : MountBuilder) :
    Interleave.Obeys (watch builder) (fun _ => False)
      (Mounts (Settled builder) fun h handle => Live builder handle h) .start (mount builder) := by
  unfold mount
  rw [Interleave.obeys_bind]
  have hstat : ∀ r, watch builder .start (.metadata .checkMountpoint) r = some .start :=
    fun _ => if_pos (.inl rfl)
  have hread : caps.emptyMountpoint = true → ∀ r, watch builder .start .readDir r = some .start :=
    nofun
  refine Interleave.obeys_mono (obeys_check (fun _ => .start) hstat hread) ?_
  rintro h (e | _) ⟨hstate, hpassed⟩
  · obtain rfl | ⟨hempty, -⟩ := hstate
    · exact settled_start builder e
    · cases hempty
  · obtain ⟨hhonors, -⟩ := hpassed rfl
    obtain rfl | ⟨hempty, -⟩ := hstate
    · rw [watch_of_honors hhonors]
      show Keeps builder _ _ (mountLocal builder >>= fallBack builder)
      rw [← Prog.bind_ret (mountLocal builder >>= fallBack builder)]
      refine keeps_transports hhonors (fun e h hclear hrequired => ⟨hclear, hrequired, nofun⟩) ?_
      exact fun handle h hlive => hlive
    · cases hempty

theorem obeys_backend_unmount {builder : MountBuilder} {handle : NfsHandle} {h : Held}
    (hlive : Live builder handle h) :
    Interleave.Obeys (watch builder) (fun _ => False) (fun h' r =>
      Settled builder h' (.unmounted .nfs handle.usesLocalSocket r) ∧
        Settled builder h' (.dropped .nfs handle.usesLocalSocket)) h handle.unmount := by
  rw [watch_of_honors hlive.honors, ← Prog.bind_ret handle.unmount]
  refine keeps_unmount hlive fun r h' hclear hsame => ?_
  have hrequired : builder.nfsRequireLocalSocket = true → h'.listened = false := by
    intro hrequire
    exact hsame.trans (hlive.silent (hlive.required hrequire))
  have hsilent : handle.usesLocalSocket = true → h'.listened = false := by
    intro hlocal
    refine hsame.trans (hlive.silent ?_)
    unfold NfsHandle.usesLocalSocket at hlocal
    split at hlocal
    · assumption
    · cases hlocal
  exact ⟨⟨hclear, hrequired, hsilent⟩, ⟨hclear, hrequired, hsilent⟩⟩

theorem obeys_backend_lifetime (builder : Anymount.MountBuilder) (how : GivenUp) :
    Interleave.Obeys (watch builder.toMountBuilder) (fun _ => False)
      (Settled builder.toMountBuilder) .start (lifetime backend builder how) := by
  refine obeys_lifetime (settled_start builder.toMountBuilder)
    (obeys_backend_mount builder.toMountBuilder) ?_ how
  exact fun h handle hlive => obeys_backend_unmount hlive

/-! ## Any number of mounts -/

def anywhere : Anymount.MountBuilder :=
  { toMountBuilder := ⟨⟨[47, 109], "/m"⟩, false, false, none, false⟩
    backend := .auto
    fsName := "a" }

def localOnly : Anymount.MountBuilder :=
  { toMountBuilder := ⟨⟨[47, 110], "/n"⟩, false, false, none, true⟩
    backend := .nfs
    fsName := "b" }

/-- Only `mount(2)` does not work. -/
def tcpOnly : Outcomes := { refusing with mountNfs := .ok ⟨true, "exit status: 0", ""⟩ }

/-- One falls back to TCP and is dropped, the other may not and is refused. -/
def twoMounts : Interleave.World OsSig (Anymount.MountBuilder × Ended) :=
  (List.replicate 20 [0, 1]).flatten.foldl (Interleave.World.turn (os tcpOnly) (.before []))
    ⟨[lifetime backend anywhere .dropped >>= fun ended => .ret (anywhere, ended),
      lifetime backend localOnly .unmounted >>= fun ended => .ret (localOnly, ended)], []⟩

theorem reachable_twoMounts :
    Reachable (Lifetimes backend) (Played (os tcpOnly) (.before [])) twoMounts := by
  refine (RunOf.turns _ _ _ _).reachable fun p hp => ?_
  simp only [List.mem_cons, List.not_mem_nil, or_false] at hp
  obtain rfl | rfl := hp
  · exact ⟨_, _, rfl⟩
  · exact ⟨_, _, rfl⟩

end Lifecycle

end Anymount.Nfs
