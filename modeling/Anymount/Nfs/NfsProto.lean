import Anymount.Nfs.Handle
import Anymount.Nfs.Rpc
import Anymount.Readdir.Emit

/-!
# The NFS program, version 3

Every procedure reads its arguments, resolves the file handle and only then talks to the
filesystem. Mutating procedures answer with a syntactically valid rejection. `o` says
what the unchecked additions of the directory walk do on overflow and `fuel` bounds the
pages one walk may request.
-/
namespace Anymount.Nfs.NfsProto

open Library

def nfs3Ok : UInt32 := 0
def nfs3errNoent : UInt32 := 2
def nfs3errRofs : UInt32 := 30
def nfs3errToosmall : UInt32 := 10005
def nfs3errNotsupp : UInt32 := 10004

def ftypeReg : UInt32 := 1
def ftypeDir : UInt32 := 2

/-- The transfer sizes `FSINFO3` announces, and the cap on a `READ3` count. -/
def rtmax : UInt32 := 1048576

def fsf3Homogeneous : UInt32 := 0x0008

/-- Subtracted from a client's directory budget for everything but the entries. -/
def dirlistOverhead : UInt32 := 128

/-- The handle codec and the filesystem id of a mount. The filesystem itself is the
environment of the programs below. -/
structure Ctx where
  handle : FileHandle3
  fsid : UInt64

/-! ## Attributes -/

/-- Seconds and nanoseconds since the epoch; zero for an earlier time. -/
def durationSinceEpoch (t : SystemTime) : Nat × Nat :=
  if t.secs < 0 then (0, 0) else (t.secs.toNat, t.nanos)

def writeNfstime3 (w : Writer) (t : SystemTime) : Writer :=
  let dur := durationSinceEpoch t
  w |>.writeU32 (UInt32.ofNat dur.1) |>.writeU32 (UInt32.ofNat dur.2)

def ftype : FileKind → UInt32
  | .file => ftypeReg
  | .directory => ftypeDir

def writeFattr3 (w : Writer) (attr : FileAttr) (fsid : UInt64) : Writer :=
  let w := w |>.writeU32 (ftype attr.kind)
    |>.writeU32 attr.perm.toUInt32
    |>.writeU32 attr.nlink
    |>.writeU32 attr.uid
    |>.writeU32 attr.gid
    |>.writeU64 attr.size
    |>.writeU64 attr.size
    |>.writeU32 0
    |>.writeU32 0
    |>.writeU64 fsid
    |>.writeU64 attr.ino.number
  writeNfstime3 (writeNfstime3 (writeNfstime3 w attr.atime) attr.mtime) attr.ctime

def writePostOpAttrOk (w : Writer) (attr : FileAttr) (fsid : UInt64) : Writer :=
  writeFattr3 (w.writeBool true) attr fsid

def writePostOpAttrAbsent (w : Writer) : Writer := w.writeBool false

def writePostOpAttrBestEffort (w : Writer) (ctx : Ctx) (ino : Ino) : FsProg Writer := do
  match ← FsProg.getattr ino with
  | .ok attr => pure (writePostOpAttrOk w attr ctx.fsid)
  | .error _ => pure (writePostOpAttrAbsent w)

/-! ## Rejected procedures -/

/-- Neither the attributes before nor those after the operation. -/
def writeWccDataZero (w : Writer) : Writer := w |>.writeBool false |>.writeBool false

def rejectRofsWcc (_ : Reader) : ProcOutcome :=
  .success (writeWccDataZero (Writer.new.writeU32 nfs3errRofs))

def rejectNotsuppWcc (_ : Reader) : ProcOutcome :=
  .success (writeWccDataZero (Writer.new.writeU32 nfs3errNotsupp))

def rejectRofsRename (_ : Reader) : ProcOutcome :=
  .success (writeWccDataZero (writeWccDataZero (Writer.new.writeU32 nfs3errRofs)))

def rejectRofsLink (_ : Reader) : ProcOutcome :=
  .success (writeWccDataZero (writePostOpAttrAbsent (Writer.new.writeU32 nfs3errRofs)))

def rejectNotsuppReadlink (_ : Reader) : ProcOutcome :=
  .success (writePostOpAttrAbsent (Writer.new.writeU32 nfs3errNotsupp))

/-- What most procedures answer to a handle that does not resolve. -/
def noentReply : ProcOutcome :=
  .success (writePostOpAttrAbsent (Writer.new.writeU32 nfs3errNoent))

/-- A failure status followed by whatever attributes can be had. -/
def failReply (ctx : Ctx) (ino : Ino) (status : UInt32) : FsProg ProcOutcome := do
  pure (.success (← writePostOpAttrBestEffort (Writer.new.writeU32 status) ctx ino))

/-! ## Procedures -/

def getattr (r : Reader) (ctx : Ctx) : FsProg ProcOutcome := do
  let some (fh, _) := r.readOpaqueVar 64 | pure .garbageArgs
  match ctx.handle.resolve fh with
  | some ino =>
    match ← FsProg.getattr ino with
    | .ok attr => pure (.success (writeFattr3 (Writer.new.writeU32 nfs3Ok) attr ctx.fsid))
    | .error e => pure (.success (Writer.new.writeU32 e.toNfsstat3))
  | none => pure (.success (Writer.new.writeU32 nfs3errNoent))

def lookup (r : Reader) (ctx : Ctx) : FsProg ProcOutcome := do
  let some (dirfh, r) := r.readOpaqueVar 64 | pure .garbageArgs
  let some (name, _) := r.readString 1024 | pure .garbageArgs
  let some dirIno := ctx.handle.resolve dirfh | pure noentReply
  match ← FsProg.lookup dirIno name with
  | .ok attr =>
    let w := Writer.new |>.writeU32 nfs3Ok |>.writeOpaqueVar (ctx.handle.encode attr.ino)
    pure (.success (← writePostOpAttrBestEffort (writePostOpAttrOk w attr ctx.fsid) ctx dirIno))
  | .error e => failReply ctx dirIno e.toNfsstat3

/-- `READ | LOOKUP | EXECUTE`. -/
def accessMask : UInt32 := 1 ||| 2 ||| 32

def access (r : Reader) (ctx : Ctx) : FsProg ProcOutcome := do
  let some (fh, r) := r.readOpaqueVar 64 | pure .garbageArgs
  let some (requested, _) := r.readU32 | pure .garbageArgs
  let some ino := ctx.handle.resolve fh | pure noentReply
  match ← FsProg.getattr ino with
  | .ok attr =>
    let w := writePostOpAttrOk (Writer.new.writeU32 nfs3Ok) attr ctx.fsid
    pure (.success (w.writeU32 (requested &&& accessMask)))
  | .error e => pure (.success (writePostOpAttrAbsent (Writer.new.writeU32 e.toNfsstat3)))

/-- A failed release is logged and otherwise ignored. -/
def releaseLogging (fh : FileHandle) : FsProg Unit := do
  let _ ← FsProg.release fh
  pure ()

/-- Whether a read of `n` bytes at `offset` reached the end, going by the size that
`getattr` reports afterwards. -/
def readEof (offset : UInt64) (n : Nat) : Option FileAttr → Bool
  | some attr => saturatingAdd offset (UInt64.ofNat n) ≥ attr.size
  | none => false

def writePostOpAttr (w : Writer) (ctx : Ctx) : Option FileAttr → Writer
  | some attr => writePostOpAttrOk w attr ctx.fsid
  | none => writePostOpAttrAbsent w

/-- The part of `read` between a successful `open` and the reply. -/
def readOpened (ctx : Ctx) (ino : Ino) (fh : FileHandle) (offset : UInt64) (count : UInt32) :
    FsProg ProcOutcome := do
  let answer ← FsProg.readAt fh offset (List.replicate count.toNat 0)
  match answer.result with
  | .ok n =>
    let n := min n answer.buf.length
    let buf := answer.buf.take n
    releaseLogging fh
    let attr := (← FsProg.getattr ino).toOption
    let w := writePostOpAttr (Writer.new.writeU32 nfs3Ok) ctx attr
    pure (.success (w |>.writeU32 (UInt32.ofNat n) |>.writeBool (readEof offset n attr)
      |>.writeOpaqueVar buf))
  | .error e =>
    releaseLogging fh
    failReply ctx ino e.toNfsstat3

def read (r : Reader) (ctx : Ctx) : FsProg ProcOutcome := do
  let some (fh, r) := r.readOpaqueVar 64 | pure .garbageArgs
  let some (offset, r) := r.readU64 | pure .garbageArgs
  let some (count, _) := r.readU32 | pure .garbageArgs
  let count := min count rtmax
  let some ino := ctx.handle.resolve fh | pure noentReply
  match ← FsProg.openFile ino with
  | .ok fh => readOpened ctx ino fh offset count
  | .error e => failReply ctx ino e.toNfsstat3

/-! ## Directories -/

def encodeDirent (ctx : Ctx) (ino : Ino) (name : OsString) (cookie : UInt64) (plus : Bool) :
    FsProg Writer := do
  let w := Writer.new |>.writeBool true |>.writeU64 ino.number |>.writeString name
    |>.writeU64 cookie
  if plus then
    match ← FsProg.getattr ino with
    | .ok attr =>
      let w := (writeFattr3 (w.writeBool true) attr ctx.fsid).writeBool true
      pure (w.writeOpaqueVar (ctx.handle.encode ino))
    | .error _ => pure (w |>.writeBool false |>.writeBool false)
  else pure w

/-- The captured state of the closure in `build_dirlist`; `usize` has 64 bits. -/
structure Packing where
  entries : Writer
  remaining : Int64
  packed : UInt64

/-- The length of a buffer is within `i64`, so the comparison is with the exact length. -/
def packEntry (o : Overflow) (ctx : Ctx) (plus : Bool) : Readdir.SinkFn Packing := fun e st => do
  let candidate ← encodeDirent ctx e.ino e.name e.cookie plus
  if (candidate.len : Int) > st.remaining.toInt then pure (.full, st)
  else
    let remaining ← subI64 o st.remaining (Int64.ofNat candidate.len)
    let packed ← addU64 o st.packed 1
    pure (.accepted, ⟨st.entries.extendFrom candidate, remaining, packed⟩)

/-- As many directory entries as fit into a budget. -/
structure DirList where
  entries : Writer
  eof : Bool
  packed : UInt64

def buildDirlist (o : Overflow) (fuel : Nat) (ctx : Ctx) (dir : Ino) (startCookie : UInt64)
    (budget : UInt32) (plus : Bool) : FsProg (FsResult DirList) := do
  let (result, st) ← Readdir.emit o fuel dir startCookie .synthesize (packEntry o ctx plus)
    ⟨.new, Int64.ofNat budget.toNat, 0⟩
  pure (result.map fun eof => ⟨st.entries, eof, st.packed⟩)

/-- The budget of a call: `count`, or `maxcount` after an unused `dircount`. -/
def readBudget (r : Reader) (plus : Bool) : Option UInt32 :=
  if plus then do
    let (_, r) ← r.readU32
    let (maxcount, _) ← r.readU32
    pure maxcount
  else do
    let (count, _) ← r.readU32
    pure count

def readdirCommon (o : Overflow) (fuel : Nat) (r : Reader) (ctx : Ctx) (plus : Bool) :
    FsProg ProcOutcome := do
  let some (dirfh, r) := r.readOpaqueVar 64 | pure .garbageArgs
  let some (startCookie, r) := r.readU64 | pure .garbageArgs
  let some (_, r) := r.readOpaqueFixed 8 | pure .garbageArgs
  let some budget := readBudget r plus | pure .garbageArgs
  let some dir := ctx.handle.resolve dirfh | pure noentReply
  match ← buildDirlist o fuel ctx dir startCookie (saturatingSub budget dirlistOverhead) plus with
  | .ok list =>
    if list.packed = 0 ∧ ¬ list.eof then failReply ctx dir nfs3errToosmall
    else
      let w ← writePostOpAttrBestEffort (Writer.new.writeU32 nfs3Ok) ctx dir
      pure (.success (w |>.writeOpaqueFixed ctx.handle.cookieverf |>.extendFrom list.entries
        |>.writeBool false |>.writeBool list.eof))
  | .error e => failReply ctx dir e.toNfsstat3

/-! ## Filesystem information -/

def fsstat (r : Reader) (ctx : Ctx) : FsProg ProcOutcome := do
  let some (fh, _) := r.readOpaqueVar 64 | pure .garbageArgs
  let some ino := ctx.handle.resolve fh | pure noentReply
  match ← FsProg.statfs with
  | .ok s =>
    let frsize := s.frsize.toUInt64
    let w ← writePostOpAttrBestEffort (Writer.new.writeU32 nfs3Ok) ctx ino
    pure (.success (w |>.writeU64 (saturatingMul s.blocks frsize)
      |>.writeU64 (saturatingMul s.bfree frsize)
      |>.writeU64 (saturatingMul s.bavail frsize)
      |>.writeU64 s.files
      |>.writeU64 s.ffree
      |>.writeU64 s.ffree
      |>.writeU32 0xFFFFFFFF))
  | .error e => failReply ctx ino e.toNfsstat3

def fsinfo (r : Reader) (ctx : Ctx) : FsProg ProcOutcome := do
  let some (fh, _) := r.readOpaqueVar 64 | pure .garbageArgs
  let some ino := ctx.handle.resolve fh | pure noentReply
  let w ← writePostOpAttrBestEffort (Writer.new.writeU32 nfs3Ok) ctx ino
  pure (.success (w |>.writeU32 rtmax
    |>.writeU32 rtmax
    |>.writeU32 4096
    |>.writeU32 rtmax
    |>.writeU32 rtmax
    |>.writeU32 4096
    |>.writeU32 32768
    |>.writeU64 0xFFFFFFFFFFFFFFFF
    |>.writeU32 1
    |>.writeU32 0
    |>.writeU32 fsf3Homogeneous))

def pathconf (r : Reader) (ctx : Ctx) : FsProg ProcOutcome := do
  let some (fh, _) := r.readOpaqueVar 64 | pure .garbageArgs
  let some ino := ctx.handle.resolve fh | pure noentReply
  let w ← writePostOpAttrBestEffort (Writer.new.writeU32 nfs3Ok) ctx ino
  pure (.success (w |>.writeU32 1
    |>.writeU32 255
    |>.writeBool true
    |>.writeBool true
    |>.writeBool false
    |>.writeBool true))

/-- Route one NFS-program call to its procedure. -/
def dispatch (o : Overflow) (fuel : Nat) (proc : UInt32) (r : Reader) (ctx : Ctx) :
    FsProg ProcOutcome :=
  match proc.toNat with
  | 0 => pure (.success .new)
  | 1 => getattr r ctx
  | 2 => pure (rejectRofsWcc r)
  | 3 => lookup r ctx
  | 4 => access r ctx
  | 5 => pure (rejectNotsuppReadlink r)
  | 6 => read r ctx
  | 7 => pure (rejectRofsWcc r)
  | 8 => pure (rejectRofsWcc r)
  | 9 => pure (rejectRofsWcc r)
  | 10 => pure (rejectNotsuppWcc r)
  | 11 => pure (rejectRofsWcc r)
  | 12 => pure (rejectRofsWcc r)
  | 13 => pure (rejectRofsWcc r)
  | 14 => pure (rejectRofsRename r)
  | 15 => pure (rejectRofsLink r)
  | 16 => readdirCommon o fuel r ctx false
  | 17 => readdirCommon o fuel r ctx true
  | 18 => fsstat r ctx
  | 19 => fsinfo r ctx
  | 20 => pathconf r ctx
  | 21 => pure (rejectRofsWcc r)
  | _ => pure .procUnavail

end Anymount.Nfs.NfsProto
