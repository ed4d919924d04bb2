import Anymount.Nfs.NfsProto
import Anymount.Nfs.Rfc1813

/-!
# What the NFS program serves

The program without its wire format and without its secret. A `Request` is a call with
its arguments decoded; `serve` answers it with a value of the procedure's RFC 1813 result
type in which an inode stands for each file handle. Nothing in `serve` can mention the
handle secret. `dispatch_eq` shows that the modelled code does exactly this: decode, serve,
render with the mount's handle encoding.
-/
namespace Anymount.Nfs

open Library Library.Xdr Rfc1813 NfsProto

/-! ## Requests -/

/-- The procedures that are refused without looking at their arguments. -/
inductive Refused where
  | setattr | readlink | write | create | mkdir | symlink | mknod | remove | rmdir | rename | link
  | commit
  deriving DecidableEq, Repr

/-- A decoded call, with file handles in `H`. `READDIR3` and `READDIRPLUS3` differ only in
`plus`. -/
inductive Request (H : Type) where
  | null
  | getattr (obj : H)
  | lookup (dir : H) (name : OsString)
  | access (obj : H) (requested : UInt32)
  | read (obj : H) (offset : UInt64) (count : UInt32)
  | readdir (plus : Bool) (dir : H) (cookie : UInt64) (budget : UInt32)
  | fsstat (obj : H)
  | fsinfo (obj : H)
  | pathconf (obj : H)
  | refused (proc : Refused)

namespace Refused

@[reducible] def resok : Refused → Ty
  | setattr | remove | rmdir => wccData
  | readlink => .struct [postOpAttr, nfspath3]
  | write => .struct [wccData, .word, .enum [0, 1, 2], writeverf3]
  | create | mkdir | symlink | mknod => .struct [postOpFh3, postOpAttr, wccData]
  | rename => .struct [wccData, wccData]
  | link => .struct [postOpAttr, wccData]
  | commit => .struct [wccData, writeverf3]

@[reducible] def resfail : Refused → Ty
  | readlink => postOpAttr
  | rename => .struct [wccData, wccData]
  | link => .struct [postOpAttr, wccData]
  | _ => wccData

end Refused

/-- The result type of a request. -/
@[reducible] def Request.ty {H : Type} : Request H → Ty
  | null => .void
  | getattr _ => getattr3res
  | lookup _ _ => lookup3res
  | access _ _ => access3res
  | read _ _ _ => read3res
  | readdir plus _ _ _ => readdir3res plus
  | fsstat _ => fsstat3res
  | fsinfo _ => fsinfo3res
  | pathconf _ => pathconf3res
  | refused proc => result proc.resok proc.resfail

/-- The procedure number of a request. -/
def Request.proc {H : Type} : Request H → Nat
  | null => 0
  | getattr _ => 1
  | lookup _ _ => 3
  | access _ _ => 4
  | read _ _ _ => 6
  | readdir false _ _ _ => 16
  | readdir true _ _ _ => 17
  | fsstat _ => 18
  | fsinfo _ => 19
  | pathconf _ => 20
  | refused .setattr => 2
  | refused .readlink => 5
  | refused .write => 7
  | refused .create => 8
  | refused .mkdir => 9
  | refused .symlink => 10
  | refused .mknod => 11
  | refused .remove => 12
  | refused .rmdir => 13
  | refused .rename => 14
  | refused .link => 15
  | refused .commit => 21

theorem Request.resultOf_proc {H : Type} (req : Request H) : resultOf req.proc = some req.ty := by
  cases req with
  | readdir plus => cases plus <;> rfl
  | refused proc => cases proc <;> rfl
  | _ => rfl

/-- The file handle a request presents. -/
def Request.handle? {H : Type} : Request H → Option H
  | getattr obj | access obj _ | read obj _ _ | fsstat obj | fsinfo obj | pathconf obj => some obj
  | lookup dir _ | readdir _ dir _ _ => some dir
  | null | refused _ => none

/-- The same request with another handle. -/
def Request.map {H K : Type} (f : H → K) : Request H → Request K
  | null => null
  | getattr obj => getattr (f obj)
  | lookup dir name => lookup (f dir) name
  | access obj requested => access (f obj) requested
  | read obj offset count => read (f obj) offset count
  | readdir plus dir cookie budget => readdir plus (f dir) cookie budget
  | fsstat obj => fsstat (f obj)
  | fsinfo obj => fsinfo (f obj)
  | pathconf obj => pathconf (f obj)
  | refused proc => refused proc

/-- What becomes of the argument bytes of a call. -/
inductive Decoded (H : Type) where
  | procUnavail
  | garbageArgs
  | call (req : Request H)

def Decoded.map {H K : Type} (f : H → K) : Decoded H → Decoded K
  | procUnavail => procUnavail
  | garbageArgs => garbageArgs
  | call req => call (req.map f)

/-- The arguments after the handle of `READDIR3` or `READDIRPLUS3`. -/
def readdirArgs (plus : Bool) (r : Reader) : Option (Request Unit) := do
  let (cookie, r) ← r.readU64
  let (_, r) ← r.readOpaqueFixed 8
  let budget ← readBudget r plus
  pure (.readdir plus () cookie budget)

/-- The arguments after the handle of `READ3`. -/
def readArgs (r : Reader) : Option (Request Unit) := do
  let (offset, r) ← r.readU64
  let (count, _) ← r.readU32
  pure (.read () offset count)

/-- A handle, then the arguments that make up the rest of the request. -/
def withHandle (r : Reader) (args : Reader → Option (Request Unit)) : Decoded Bytes :=
  match r.readOpaqueVar 64 with
  | none => .garbageArgs
  | some (fh, r) =>
    match args r with
    | none => .garbageArgs
    | some req => .call (req.map fun _ => fh)

def decodeRequest (proc : UInt32) (r : Reader) : Decoded Bytes :=
  match proc.toNat with
  | 0 => .call .null
  | 1 => withHandle r fun _ => some (.getattr ())
  | 2 => .call (.refused .setattr)
  | 3 => withHandle r fun r => (r.readString 1024).map fun a => .lookup () a.1
  | 4 => withHandle r fun r => r.readU32.map fun a => .access () a.1
  | 5 => .call (.refused .readlink)
  | 6 => withHandle r readArgs
  | 7 => .call (.refused .write)
  | 8 => .call (.refused .create)
  | 9 => .call (.refused .mkdir)
  | 10 => .call (.refused .symlink)
  | 11 => .call (.refused .mknod)
  | 12 => .call (.refused .remove)
  | 13 => .call (.refused .rmdir)
  | 14 => .call (.refused .rename)
  | 15 => .call (.refused .link)
  | 16 => withHandle r (readdirArgs false)
  | 17 => withHandle r (readdirArgs true)
  | 18 => withHandle r fun _ => some (.fsstat ())
  | 19 => withHandle r fun _ => some (.fsinfo ())
  | 20 => withHandle r fun _ => some (.pathconf ())
  | 21 => .call (.refused .commit)
  | _ => .procUnavail

theorem withHandle_eq_call {r : Reader} {args : Reader → Option (Request Unit)}
    {req : Request Bytes} (h : withHandle r args = .call req) :
    ∃ fh r' req', r.readOpaqueVar 64 = some (fh, r') ∧ args r' = some req' ∧
      req = req'.map fun _ => fh := by
  unfold withHandle at h
  split at h
  · cases h
  · next fh r' hread =>
    split at h
    · cases h
    · next req' hargs =>
      cases h
      exact ⟨fh, r', req', hread, hargs, rfl⟩

theorem readArgs_eq_some {r : Reader} {req : Request Unit} (h : readArgs r = some req) :
    ∃ offset count, req = .read () offset count := by
  obtain ⟨a, -, h⟩ := Option.bind_eq_some_iff.mp h
  obtain ⟨b, -, h⟩ := Option.bind_eq_some_iff.mp h
  cases h
  exact ⟨_, _, rfl⟩

theorem readdirArgs_eq_some {plus : Bool} {r : Reader} {req : Request Unit}
    (h : readdirArgs plus r = some req) :
    ∃ cookie budget, req = .readdir plus () cookie budget := by
  obtain ⟨a, -, h⟩ := Option.bind_eq_some_iff.mp h
  obtain ⟨b, -, h⟩ := Option.bind_eq_some_iff.mp h
  obtain ⟨c, -, h⟩ := Option.bind_eq_some_iff.mp h
  cases h
  exact ⟨_, _, rfl⟩

/-- A decoded request belongs to the procedure that was called, and its handle is the
first argument. -/
theorem decodeRequest_eq_call {proc : UInt32} {r : Reader} {req : Request Bytes}
    (h : decodeRequest proc r = .call req) :
    proc.toNat = req.proc ∧
      ∀ fh, req.handle? = some fh → ∃ r', r.readOpaqueVar 64 = some (fh, r') := by
  unfold decodeRequest at h
  generalize proc.toNat = n at h ⊢
  match n with
  | 0 | 2 | 5 | 7 | 8 | 9 | 10 | 11 | 12 | 13 | 14 | 15 | 21 =>
    cases h
    exact ⟨rfl, nofun⟩
  | 1 | 18 | 19 | 20 =>
    obtain ⟨fh, r', req', hread, hargs, rfl⟩ := withHandle_eq_call h
    cases hargs
    exact ⟨rfl, fun _ hfh => ⟨r', by cases hfh; exact hread⟩⟩
  | 3 | 4 =>
    obtain ⟨fh, r', req', hread, hargs, rfl⟩ := withHandle_eq_call h
    obtain ⟨a, -, rfl⟩ := Option.map_eq_some_iff.mp hargs
    exact ⟨rfl, fun _ hfh => ⟨r', by cases hfh; exact hread⟩⟩
  | 6 =>
    obtain ⟨fh, r', req', hread, hargs, rfl⟩ := withHandle_eq_call h
    obtain ⟨offset, count, rfl⟩ := readArgs_eq_some hargs
    exact ⟨rfl, fun _ hfh => ⟨r', by cases hfh; exact hread⟩⟩
  | 16 | 17 =>
    obtain ⟨fh, r', req', hread, hargs, rfl⟩ := withHandle_eq_call h
    obtain ⟨cookie, budget, rfl⟩ := readdirArgs_eq_some hargs
    exact ⟨rfl, fun _ hfh => ⟨r', by cases hfh; exact hread⟩⟩
  | _ + 22 => cases h

/-! ## Values -/

/-- A failure status of `nfsstat3`. -/
abbrev FailStatus := { v : UInt32 // v ∈ nfsstat3 ∧ v ≠ 0 }

def FailStatus.noent : FailStatus := ⟨nfs3errNoent, by decide⟩
def FailStatus.rofs : FailStatus := ⟨nfs3errRofs, by decide⟩
def FailStatus.toosmall : FailStatus := ⟨nfs3errToosmall, by decide⟩
def FailStatus.notsupp : FailStatus := ⟨nfs3errNotsupp, by decide⟩

theorem toNfsstat3_mem (e : FsError) : e.toNfsstat3 ∈ nfsstat3 := by
  induction e with
  | context errnoAs msg ih => exact ih
  | _ => simp [FsError.toNfsstat3, nfsstat3]

/-- The status an error is reported as. -/
def FailStatus.of (e : FsError) : FailStatus :=
  ⟨e.toNfsstat3, toNfsstat3_mem e, e.toNfsstat3_ne_ok⟩

variable {H : Type}

def timeValue (t : SystemTime) : nfstime3.Value H :=
  (UInt32.ofNat (durationSinceEpoch t).1, UInt32.ofNat (durationSinceEpoch t).2)

theorem ftype_mem (kind : FileKind) : ftype kind ∈ ([1, 2, 3, 4, 5, 6, 7] : List UInt32) := by
  cases kind <;> decide

def attrValue (fsid : UInt64) (attr : FileAttr) : fattr3.Value H :=
  (⟨ftype attr.kind, ftype_mem attr.kind⟩, attr.perm.toUInt32, attr.nlink, attr.uid, attr.gid,
    attr.size, attr.size, (0, 0), fsid, attr.ino.number, timeValue attr.atime,
    timeValue attr.mtime, timeValue attr.ctime)

/-- The file id inside rendered attributes. -/
def fileid (attr : fattr3.Value H) : UInt64 := attr.2.2.2.2.2.2.2.2.2.1

/-- Attributes if they can be had. -/
def bestEffort (fsid : UInt64) (ino : Ino) : FsProg (postOpAttr.Value H) := do
  match ← FsProg.getattr ino with
  | .ok attr => pure (some (attrValue fsid attr))
  | .error _ => pure none

/-- A failure with whatever attributes can be had. -/
def failValue {resok : Ty} (fsid : UInt64) (ino : Ino) (status : FailStatus) :
    FsProg ((result resok postOpAttr).Value H) := do
  pure (.inr (status, ← bestEffort fsid ino))

def Refused.answer : (proc : Refused) → (result proc.resok proc.resfail).Value H
  | setattr => .inr (FailStatus.rofs, none, none)
  | readlink => .inr (FailStatus.notsupp, none)
  | write => .inr (FailStatus.rofs, none, none)
  | create => .inr (FailStatus.rofs, none, none)
  | mkdir => .inr (FailStatus.rofs, none, none)
  | symlink => .inr (FailStatus.notsupp, none, none)
  | mknod => .inr (FailStatus.rofs, none, none)
  | remove => .inr (FailStatus.rofs, none, none)
  | rmdir => .inr (FailStatus.rofs, none, none)
  | rename => .inr (FailStatus.rofs, (none, none), none, none)
  | link => .inr (FailStatus.rofs, none, none, none)
  | commit => .inr (FailStatus.rofs, none, none)

/-! ## The secret-free server -/

section Serve

variable (fsid : UInt64)

/-- Attributes and handle of an entry of `READDIRPLUS3`; nothing for `READDIR3`. -/
def extraValue (plus : Bool) (ino : Ino) : FsProg ((direntExtra plus).Value Ino) :=
  match plus with
  | false => pure ()
  | true => do
    match ← FsProg.getattr ino with
    | .ok attr => pure (some (attrValue fsid attr), some ino)
    | .error _ => pure (none, none)

/-- What an entry takes up in a reply: its flag and its fields. A handle takes 24 bytes. -/
def direntSize {plus : Bool} (v : (dirent plus).Value Ino) : Nat :=
  4 + ((dirent plus).encode (fun _ => List.replicate 24 0) v).length

/-- Entries packed so far, and the budget left. -/
structure Packed (plus : Bool) where
  entries : List ((dirent plus).Value Ino)
  remaining : Int

/-- Take an entry if it fits the budget. A name too long for XDR never does. -/
def packValue (plus : Bool) : Readdir.SinkFn (Packed plus) := fun e st => do
  let extra ← extraValue fsid plus e.ino
  if h : e.name.length ≤ (0xFFFFFFFF : UInt32).toNat then
    let v : (dirent plus).Value Ino := (e.ino.number, ⟨e.name, h⟩, e.cookie, extra)
    if (direntSize v : Int) > st.remaining then pure (.full, st)
    else pure (.accepted, ⟨st.entries ++ [v], st.remaining - direntSize v⟩)
  else pure (.full, st)

def cookieverfValue : cookieverf3.Value H := ⟨cookieverfBytes, rfl⟩

def serveReaddir (o : Overflow) (fuel : Nat) (plus : Bool) (dir : Ino) (cookie : UInt64)
    (budget : UInt32) : FsProg ((readdir3res plus).Value Ino) := do
  let (result, st) ← Readdir.emit o fuel dir cookie .synthesize (packValue fsid plus)
    ⟨[], (saturatingSub budget dirlistOverhead).toNat⟩
  match result with
  | .ok eof =>
    if st.entries = [] ∧ ¬ eof then failValue fsid dir .toosmall
    else pure (.inl (← bestEffort fsid dir, cookieverfValue, st.entries, eof))
  | .error e => failValue fsid dir (.of e)

/-- The bytes a read returns: what the buffer holds up to the reported count. -/
def readData {count : Nat} (answer : ReadAnswer count) (n : Nat) : Bytes :=
  answer.buf.take (min n answer.buf.length)

theorem length_readData {count : Nat} (answer : ReadAnswer count) (n : Nat) :
    (readData answer n).length = min n count := by
  simp [readData, answer.length_buf]

theorem length_readData_le {count : UInt32}
    (answer : ReadAnswer (List.replicate count.toNat (0 : UInt8)).length) (n : Nat) :
    (readData answer n).length ≤ (0xFFFFFFFF : UInt32).toNat := by
  have := count.toNat_lt
  rw [length_readData, List.length_replicate]
  simp
  omega

def serveRead (ino : Ino) (offset : UInt64) (count : UInt32) : FsProg (read3res.Value Ino) := do
  match ← FsProg.openFile ino with
  | .error e => failValue fsid ino (.of e)
  | .ok fh =>
    let answer ← FsProg.readAt fh offset (List.replicate (min count rtmax).toNat 0)
    releaseLogging fh
    match answer.result with
    | .error e => failValue fsid ino (.of e)
    | .ok n =>
      let attr := (← FsProg.getattr ino).toOption
      let data := readData answer n
      pure (.inl (attr.map (attrValue fsid), UInt32.ofNat data.length,
        readEof offset data.length attr, ⟨data, length_readData_le answer n⟩))

def serveStatfs (ino : Ino) : FsProg (fsstat3res.Value Ino) := do
  match ← FsProg.statfs with
  | .error e => failValue fsid ino (.of e)
  | .ok s =>
    let frsize := s.frsize.toUInt64
    pure (.inl (← bestEffort fsid ino, saturatingMul s.blocks frsize, saturatingMul s.bfree frsize,
      saturatingMul s.bavail frsize, s.files, s.ffree, s.ffree, 0xFFFFFFFF))

/-- The answer to a request whose handle resolved. -/
def serveAt (o : Overflow) (fuel : Nat) (ino : Ino) : (req : Request H) → FsProg (req.ty.Value Ino)
  | .null => pure ()
  | .getattr _ => do
    match ← FsProg.getattr ino with
    | .ok attr => pure (.inl (attrValue fsid attr))
    | .error e => pure (.inr (FailStatus.of e, ()))
  | .lookup _ name => do
    match ← FsProg.lookup ino name with
    | .ok attr => pure (.inl (attr.ino, some (attrValue fsid attr), ← bestEffort fsid ino))
    | .error e => failValue fsid ino (.of e)
  | .access _ requested => do
    match ← FsProg.getattr ino with
    | .ok attr => pure (.inl (some (attrValue fsid attr), requested &&& accessMask))
    | .error e => pure (.inr (FailStatus.of e, none))
  | .read _ offset count => serveRead fsid ino offset count
  | .readdir plus _ cookie budget => serveReaddir fsid o fuel plus ino cookie budget
  | .fsstat _ => serveStatfs fsid ino
  | .fsinfo _ => do
    pure (.inl (← bestEffort fsid ino, rtmax, rtmax, 4096, rtmax, rtmax, 4096, 32768,
      0xFFFFFFFFFFFFFFFF, (1, 0), fsf3Homogeneous))
  | .pathconf _ => do
    pure (.inl (← bestEffort fsid ino, 1, 255, true, true, false, true))
  | .refused proc => pure proc.answer

/-- The answer to a request that presents a handle which does not resolve, or none. -/
def serveUnresolved : (req : Request H) → req.ty.Value Ino
  | .null => ()
  | .getattr _ => .inr (FailStatus.noent, ())
  | .lookup _ _ => .inr (FailStatus.noent, none)
  | .access _ _ => .inr (FailStatus.noent, none)
  | .read _ _ _ => .inr (FailStatus.noent, none)
  | .readdir _ _ _ _ => .inr (FailStatus.noent, none)
  | .fsstat _ => .inr (FailStatus.noent, none)
  | .fsinfo _ => .inr (FailStatus.noent, none)
  | .pathconf _ => .inr (FailStatus.noent, none)
  | .refused proc => proc.answer

/-- Resolve the handle, then answer. -/
def serve (o : Overflow) (fuel : Nat) (resolve : H → Option Ino) (req : Request H) :
    FsProg (req.ty.Value Ino) :=
  match req.handle?.bind resolve with
  | some ino => serveAt fsid o fuel ino req
  | none => pure (serveUnresolved req)

/-! ## Parts that always return -/

section Returns

open Library.Prog

variable {R : Contract FsSig} {H : Halt → Prop}

theorem wp_bestEffort {K : Type} (ino : Ino) :
    (bestEffort fsid ino : FsProg (postOpAttr.Value K)).wp R H fun _ => True := by
  rw [bestEffort, wp_bind, FsProg.wp_getattr]
  intro r _
  cases r <;> trivial

theorem wp_failValue {K : Type} {resok : Ty} (ino : Ino) (status : FailStatus)
    {Q : (result resok postOpAttr).Value K → Prop} (hQ : ∀ attr, Q (.inr (status, attr))) :
    (failValue fsid ino status : FsProg ((result resok postOpAttr).Value K)).wp R H Q := by
  rw [failValue, wp_bind]
  exact wp_mono (wp_bestEffort fsid ino) fun attr _ => hQ attr

theorem wp_extraValue (plus : Bool) (ino : Ino) :
    (extraValue fsid plus ino).wp R H fun _ => True := by
  cases plus with
  | false => trivial
  | true =>
    rw [extraValue, wp_bind, FsProg.wp_getattr]
    intro r _
    cases r <;> trivial

end Returns

end Serve

end Anymount.Nfs
