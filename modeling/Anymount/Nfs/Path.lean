import Anymount.Nfs.Envelope

/-!
# Walking a path over the wire

A client that follows a path sends one `LOOKUP3` call for each name and passes the handle of
each reply on to the next call. The trait's own walk folds `lookup` over the names. The two
agree: the opaque handles on the wire stand for the inodes of the trait.
-/
namespace Anymount.Nfs

open Library Library.Xdr Library.Prog Rfc1813 NfsProto

/-! ## Messages -/

/-- What a client puts around the arguments of a call. -/
structure Envelope where
  xid : UInt32
  cred : OpaqueAuth
  verf : OpaqueAuth

/-- A call of the NFS program, version 3. -/
def Envelope.call (e : Envelope) (proc : UInt32) (args : Bytes) : Bytes :=
  callBytes ⟨e.xid, nfsProg, 3, proc⟩ e.cred e.verf args

def lookupMessage (e : Envelope) (dirfh : Bytes) (name : OsString) : Bytes :=
  e.call 3 (encodeOpaque dirfh ++ (encodeOpaque name ++ []))

def getattrMessage (e : Envelope) (fh : Bytes) : Bytes := e.call 1 (encodeOpaque fh ++ [])

theorem asks_lookupMessage (e : Envelope) {dirfh : Bytes} {name : OsString}
    (hfh : dirfh.length ≤ (64 : UInt32).toNat) (hname : name.length ≤ (1024 : UInt32).toNat) :
    Asks (lookupMessage e dirfh name) e.xid (.lookup dirfh name) := by
  obtain ⟨r, hcall, hr⟩ := readCallHeader_callBytes ⟨e.xid, nfsProg, 3, 3⟩ e.cred e.verf
    (encodeOpaque dirfh ++ (encodeOpaque name ++ []))
  obtain ⟨r₁, h₁, hr₁⟩ := Reader.readOpaqueVar_of_rest hfh hr
  obtain ⟨r₂, h₂, -⟩ := Reader.readOpaqueVar_of_rest hname hr₁
  refine ⟨3, r, hcall, ?_⟩
  simp [decodeRequest, withHandle, Request.map, Reader.readString, h₁, h₂]

theorem asks_getattrMessage (e : Envelope) {fh : Bytes} (hfh : fh.length ≤ (64 : UInt32).toNat) :
    Asks (getattrMessage e fh) e.xid (.getattr fh) := by
  obtain ⟨r, hcall, hr⟩ := readCallHeader_callBytes ⟨e.xid, nfsProg, 3, 1⟩ e.cred e.verf
    (encodeOpaque fh ++ [])
  obtain ⟨r₁, h₁, -⟩ := Reader.readOpaqueVar_of_rest hfh hr
  exact ⟨1, r, hcall, by simp [decodeRequest, withHandle, Request.map, h₁]⟩

/-! ## The walk of the trait -/

/-- What `lookup` and `getattr` answer depends on their arguments only. -/
structure Functional {σ : Type} (fs : ReadOnlyFs σ) (lookup : Ino → OsString → FsResult FileAttr)
    (getattr : Ino → FsResult FileAttr) : Prop where
  lookup : ∀ parent name s, (fs (.lookup parent name) s).1 = lookup parent name
  getattr : ∀ ino s, (fs (.getattr ino) s).1 = getattr ino

/-- Fold `lookup` over the names, passing on the inode. A failure is reported with the names
that were left, the failing one first. -/
def traitWalk (lookup : Ino → OsString → FsResult FileAttr) :
    Ino → List OsString → Except (List OsString × FsError) Ino
  | ino, [] => .ok ino
  | ino, name :: names =>
    match lookup ino name with
    | .ok attr => traitWalk lookup attr.ino names
    | .error e => .error (name :: names, e)

/-! ## The walk of a client -/

/-- How a walk over the wire can fail: a status for the first of the names left, or no reply
that the client understands. -/
inductive WalkFailure where
  | refused (names : List OsString) (status : UInt32)
  | noReply

/-- What a client decodes from the reply to a `LOOKUP3` call: a handle, or a status. -/
def lookupReply (xid : UInt32) (reply : Option Bytes) : Option (Except UInt32 Bytes) :=
  match clientResult lookup3res xid reply with
  | none => none
  | some (.inl (fh, _)) => some (.ok fh)
  | some (.inr (status, _)) => some (.error status.val)

/-- The outcome of a walk over the wire is that of a walk of the trait: the same component
fails, with the status of the same error, or the handle is one for the same inode. -/
def Mirrors (handle : FileHandle3) :
    Except WalkFailure Bytes → Except (List OsString × FsError) Ino → Prop
  | wire, .ok ino => ∃ fh, wire = .ok fh ∧ handle.resolve fh = some ino
  | wire, .error (names, err) => wire = .error (.refused names err.toNfsstat3)

section Wire

variable {σ : Type} (o : Overflow) (fuel : Nat) (handle : FileHandle3) (config : Config)

/-- Send one call and decode the reply to a `LOOKUP3`. -/
def askLookup (env : Handler ServerSig σ) (xid : UInt32) (body : Bytes) (s : σ) :
    Option (Except UInt32 Bytes) × σ :=
  match (handleMessage o fuel handle config body).run env s with
  | (.error _, s) => (none, s)
  | (.ok reply, s) => (lookupReply xid reply, s)

/-- One call for each name, each in an envelope of its own and in the words of `message`. The
next call presents the handle bytes of the last reply. -/
def wireWalk (env : Handler ServerSig σ) (message : Envelope → Bytes → OsString → Bytes) :
    Bytes → List (Envelope × OsString) → σ → Except WalkFailure Bytes × σ
  | fh, [], s => (.ok fh, s)
  | fh, (e, name) :: path, s =>
    match askLookup o fuel handle config env e.xid (message e fh name) s with
    | (none, s) => (.error .noReply, s)
    | (some (.ok fh), s) => wireWalk env message fh path s
    | (some (.error status), s) => (.error (.refused (name :: path.map Prod.snd) status), s)

variable {fs : ReadOnlyFs σ} {lookup : Ino → OsString → FsResult FileAttr}
  {getattr : Ino → FsResult FileAttr} {φ : Type} (flag : Handler FlagSig φ)

theorem resolve_length_le {fh : Bytes} {ino : Ino} (h : handle.resolve fh = some ino) :
    fh.length ≤ (64 : UInt32).toNat := by
  have hlen : fh.length = encodedLen := by
    by_contra hne
    simp [FileHandle3.resolve, hne] at h
  rw [hlen]
  decide

/-- The attributes that go with a reply always come back. -/
theorem run_bestEffort (fs : ReadOnlyFs σ) (fsid : UInt64) (ino : Ino) (s : σ) :
    ∃ attr s', (bestEffort fsid ino : FsProg (postOpAttr.Value Ino)).run fs s = (.ok attr, s') := by
  rw [bestEffort, FsProg.run_getattr_bind]
  cases (fs (.getattr ino) s).1 with
  | ok attr => exact ⟨_, _, rfl⟩
  | error e => exact ⟨_, _, rfl⟩

/-- One `LOOKUP3` call and what the client decodes from its reply. -/
theorem askLookup_eq (hfs : Functional fs lookup getattr) {body dirfh : Bytes} {xid : UInt32}
    {dir : Ino} {name : OsString} (hdir : handle.resolve dirfh = some dir)
    (hasks : Asks body xid (.lookup dirfh name)) (s : σ × φ) :
    ∃ s', askLookup o fuel handle config (fs.sum flag) xid body s =
      (some (match lookup dir name with
        | .ok attr => .ok (handle.encode attr.ino)
        | .error err => .error err.toNfsstat3), s') := by
  have hino : (Request.lookup dirfh name).handle?.bind handle.resolve = some dir := hdir
  rw [askLookup, handleMessage_of_asks o fuel handle config hasks hino, run_bind_ret,
    show s = (s.1, s.2) from rfl, run_inl]
  simp only [serveAt, FsProg.run_lookup_bind, hfs.lookup]
  cases lookup dir name with
  | ok attr =>
    obtain ⟨dirAttr, s', hbest⟩ := run_bestEffort fs 1 dir (fs (.lookup dir name) s.1).2
    have hclient := clientResult_render handle xid (.lookup dirfh name)
      (.inl (attr.ino, some (attrValue 1 attr), dirAttr))
    refine ⟨(s', s.2), ?_⟩
    simp only [run_bind_of_ok hbest, pure_eq, run, Except.map, lookupReply, hclient]
    rfl
  | error err =>
    obtain ⟨dirAttr, s', hbest⟩ := run_bestEffort fs 1 dir (fs (.lookup dir name) s.1).2
    have hclient := clientResult_render handle xid (.lookup dirfh name)
      (.inr (FailStatus.of err, dirAttr))
    refine ⟨(s', s.2), ?_⟩
    simp only [failValue, run_bind_of_ok hbest, pure_eq, run, Except.map, lookupReply, hclient]
    rfl

/-- From a handle for `ino` the wire walk takes the course of the trait's walk from `ino`. -/
theorem wireWalk_mirrors (hfs : Functional fs lookup getattr)
    {message : Envelope → Bytes → OsString → Bytes} {path : List (Envelope × OsString)}
    (hasks : ∀ step ∈ path, ∀ fh, (handle.resolve fh).isSome →
      Asks (message step.1 fh step.2) step.1.xid (.lookup fh step.2))
    {fh : Bytes} {ino : Ino} (hino : handle.resolve fh = some ino) (s : σ × φ) :
    Mirrors handle (wireWalk o fuel handle config (fs.sum flag) message fh path s).1
      (traitWalk lookup ino (path.map Prod.snd)) := by
  induction path generalizing fh ino s with
  | nil => exact ⟨fh, rfl, hino⟩
  | cons step path ih =>
    obtain ⟨e, name⟩ := step
    obtain ⟨hask, hasks⟩ := List.forall_mem_cons.mp hasks
    obtain ⟨s', hstep⟩ := askLookup_eq o fuel handle config flag hfs hino
      (hask fh (by rw [hino]; rfl)) s
    simp only [List.map_cons, traitWalk, wireWalk, hstep]
    cases lookup ino name with
    | ok attr => exact ih hasks (handle.resolve_encode attr.ino) s'
    | error err => rfl

/-- The result of `GETATTR3`: the rendered attributes, or the status of the error. -/
def getattrPayload : FsResult FileAttr → Bytes
  | .ok attr => (writeFattr3 (Writer.new.writeU32 nfs3Ok) attr 1).buf
  | .error err => (Writer.new.writeU32 err.toNfsstat3).buf

/-- One `GETATTR3` call on a handle that resolves. -/
theorem run_getattrMessage (hfs : Functional fs lookup getattr) {body fh : Bytes} {xid : UInt32}
    {ino : Ino} (hino : handle.resolve fh = some ino) (hasks : Asks body xid (.getattr fh))
    (s : σ × φ) :
    ∃ reply, ((handleMessage o fuel handle config body).run (fs.sum flag) s).1 =
        .ok (some reply) ∧
      acceptedPayload xid reply = some (getattrPayload (getattr ino)) := by
  have hbind : (Request.getattr fh).handle?.bind handle.resolve = some ino := hino
  rw [handleMessage_of_asks o fuel handle config hasks hbind, run_bind_ret,
    show s = (s.1, s.2) from rfl, run_inl]
  simp only [serveAt, FsProg.run_getattr_bind, hfs.getattr]
  cases getattr ino with
  | ok attr =>
    refine ⟨_, rfl, ?_⟩
    rw [acceptedPayload_buildReply]
    exact congrArg some (buf_writeFattr3 handle.encode _ 1 attr).symm
  | error err =>
    refine ⟨_, rfl, ?_⟩
    rw [acceptedPayload_buildReply]
    rfl

/-- A walk over the wire from the root refines the trait's walk. For every filesystem whose
`lookup` and `getattr` are functions and every path of names that fit the protocol: it fails
at the component at which the trait's walk fails, with the status of that error; or it ends
with a handle for the inode the trait's walk ends at, and `GETATTR3` on that handle answers
with what `getattr` says of this inode. -/
theorem wire_walk_refines_trait (hfs : Functional fs lookup getattr)
    (path : List (Envelope × OsString)) (hnames : ∀ step ∈ path, step.2.length ≤ 1024)
    (last : Envelope) (s : σ × φ) :
    Mirrors handle
        (wireWalk o fuel handle config (fs.sum flag) lookupMessage (handle.encode rootIno) path s).1
        (traitWalk lookup rootIno (path.map Prod.snd)) ∧
      ∀ ino fh s', traitWalk lookup rootIno (path.map Prod.snd) = .ok ino →
        wireWalk o fuel handle config (fs.sum flag) lookupMessage (handle.encode rootIno) path s =
          (.ok fh, s') →
        ∃ reply, ((handleMessage o fuel handle config (getattrMessage last fh)).run (fs.sum flag)
            s').1 = .ok (some reply) ∧
          acceptedPayload last.xid reply = some (getattrPayload (getattr ino)) := by
  have hasks : ∀ step ∈ path, ∀ fh, (handle.resolve fh).isSome →
      Asks (lookupMessage step.1 fh step.2) step.1.xid (.lookup fh step.2) := by
    intro step hstep fh hfh
    obtain ⟨ino, hino⟩ := Option.isSome_iff_exists.mp hfh
    exact asks_lookupMessage step.1 (resolve_length_le handle hino) (hnames step hstep)
  have hwalk := wireWalk_mirrors o fuel handle config flag hfs hasks
    (handle.resolve_encode rootIno) s
  refine ⟨hwalk, fun ino fh s' htrait hwire => ?_⟩
  rw [htrait, hwire] at hwalk
  obtain ⟨_, ⟨⟩, hino⟩ := hwalk
  exact run_getattrMessage o fuel handle config flag hfs hino
    (asks_getattrMessage last (resolve_length_le handle hino)) s'

end Wire

theorem functional_memFs (m : MemFs) : Functional m.handler m.lookup m.attr :=
  ⟨fun _ _ _ => rfl, fun _ _ => rfl⟩

/-- Down into the example's subdirectory, up again and to a file: the handle is one for the
file's inode. -/
theorem wire_walk_refines_trait_hello :
    ∃ fh, (wireWalk .wraps 0 ⟨List.replicate 16 0, rfl⟩ localConfig memServer lookupMessage
        (FileHandle3.encode ⟨List.replicate 16 0, rfl⟩ rootIno)
        ([MemFs.text "subdir", Readdir.dotdotName, MemFs.text "hello.txt"].map
          fun name => (⟨7, .none, .none⟩, name)) (.new, false)).1 = .ok fh ∧
      FileHandle3.resolve ⟨List.replicate 16 0, rfl⟩ fh = some ⟨2⟩ :=
  (wire_walk_refines_trait .wraps 0 ⟨List.replicate 16 0, rfl⟩ localConfig
    (fun _ (f : Bool) => (f, f)) (functional_memFs (.new 0 0))
    ([MemFs.text "subdir", Readdir.dotdotName, MemFs.text "hello.txt"].map
      fun name => (⟨7, .none, .none⟩, name)) (by decide) ⟨8, .none, .none⟩ (.new, false)).1

end Anymount.Nfs
