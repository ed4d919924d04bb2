import Anymount.Readdir.Emit

/-!
# The FUSE backend

`fuser` calls the adapter once for each request of the kernel. The adapter makes its trait
calls and answers through a reply object; here the answer is what its program returns.
`ReplyDirectory` buffers records up to a size that the kernel chose, so whether a record
still fits is a parameter of the request.
-/
namespace Anymount.Fuse

open Library

/-- Seconds for which the kernel may cache attributes and lookups. -/
def ttl : Nat := 60

/-- Inodes are stable for the life of a mount. -/
def generation : UInt64 := 0

/-- Upper bound on a single `read` allocation. -/
def maxRead : UInt32 := 16 * 1024 * 1024

/-! ## The trait calls that only this backend makes -/

inductive XattrCall where
  | forget (ino : Ino) (nlookup : UInt64)
  | listxattr (ino : Ino)
  | getxattr (ino : Ino) (name : OsString)
  deriving DecidableEq, Repr

def XattrCall.Answer : XattrCall → Type
  | forget _ _ => Unit
  | listxattr _ => FsResult (List OsString)
  | getxattr _ _ => FsResult Bytes

abbrev XattrSig : Signature := ⟨XattrCall, XattrCall.Answer⟩

/-- All of the trait. -/
abbrev FuseSig : Signature := FsSig.sum XattrSig

abbrev XattrProg := Prog XattrSig

/-! ## Replies -/

/-- The file types of `fuser` that the adapter reports. -/
inductive FileType where
  | regularFile | directory
  deriving DecidableEq, Repr

def toFuserKind : FileKind → FileType
  | .file => .regularFile
  | .directory => .directory

/-- `fuser::FileAttr`. -/
structure FuserAttr where
  ino : UInt64
  size : UInt64
  blocks : UInt64
  atime : SystemTime
  mtime : SystemTime
  ctime : SystemTime
  crtime : SystemTime
  kind : FileType
  perm : UInt16
  nlink : UInt32
  uid : UInt32
  gid : UInt32
  rdev : UInt32
  blksize : UInt32
  flags : UInt32
  deriving DecidableEq, Repr

/-- `u64::div_ceil`. -/
def divCeil (n d : UInt64) : UInt64 := if n % d = 0 then n / d else n / d + 1

def toFuserAttr (attr : FileAttr) : FuserAttr where
  ino := attr.ino.number
  size := attr.size
  blocks := divCeil attr.size 512
  atime := attr.atime
  mtime := attr.mtime
  ctime := attr.ctime
  crtime := .unixEpoch
  kind := toFuserKind attr.kind
  perm := attr.perm
  nlink := attr.nlink
  uid := attr.uid
  gid := attr.gid
  rdev := 0
  blksize := 512
  flags := 0

/-- One record of a directory reply. -/
structure Dirent where
  ino : UInt64
  cookie : UInt64
  kind : FileType
  name : OsString
  deriving DecidableEq, Repr

/-- Whether the reply buffer of a request takes one more record behind the ones it holds. -/
abbrev Room := List Dirent → Dirent → Bool

/-- What the kernel is told. `forget` has no reply. -/
inductive Reply where
  | entry (ttl : Nat) (attr : FuserAttr) (generation : UInt64)
  | attr (ttl : Nat) (attr : FuserAttr)
  | opened (fh : FileHandle) (flags : UInt32)
  | data (bytes : Bytes)
  | directory (records : List Dirent)
  | statfs (blocks bfree bavail files ffree : UInt64) (bsize namelen frsize : UInt32)
  | size (length : UInt32)
  | ok
  | none
  | error (errno : Int)
  deriving DecidableEq, Repr

/-- `errno`. -/
def Reply.failed (e : FsError) : Reply := .error e.toErrno

/-! ## The callbacks -/

def lookup (parent : Ino) (name : OsString) : FsProg Reply := do
  match ← FsProg.lookup parent name with
  | .ok attr => pure (.entry ttl (toFuserAttr attr) generation)
  | .error e => pure (.failed e)

def getattr (ino : Ino) : FsProg Reply := do
  match ← FsProg.getattr ino with
  | .ok attr => pure (.attr ttl (toFuserAttr attr))
  | .error e => pure (.failed e)

def openFile (ino : Ino) : FsProg Reply := do
  match ← FsProg.openFile ino with
  | .ok fh => pure (.opened fh 0)
  | .error e => pure (.failed e)

/-- Bytes to allocate for a `read` of `size`. -/
def readBufferLen (size : UInt32) : Nat := (min size maxRead).toNat

def read (fh : FileHandle) (offset : UInt64) (size : UInt32) : FsProg Reply := do
  let answer ← FsProg.readAt fh offset (List.replicate (readBufferLen size) 0)
  match answer.result with
  -- The count is not trusted: one past the buffer's end would leave `truncate` a no-op.
  | .ok n => pure (.data (answer.buf.take (min n answer.buf.length)))
  | .error e => pure (.failed e)

/-- A failed release is logged, not reported. -/
def release (fh : FileHandle) : FsProg Reply := do
  let _ ← FsProg.release fh
  pure .ok

/-- An offered entry as a record. -/
def record (e : Readdir.Entry) : Dirent := ⟨e.ino.number, e.cookie, toFuserKind e.kind, e.name⟩

/-- The closure around `ReplyDirectory::add`, which says whether the record did not fit. -/
def addRecord (room : Room) : Readdir.SinkFn (List Dirent) := fun e records =>
  if room records (record e) then pure (.accepted, records ++ [record e])
  else pure (.full, records)

/-- A failed listing is answered with the error; the records added so far are dropped. -/
def readdir (o : Overflow) (fuel : Nat) (ino : Ino) (offset : UInt64) (room : Room) :
    FsProg Reply := do
  match ← Readdir.emit o fuel ino offset .synthesize (addRecord room) [] with
  | (.ok _, records) => pure (.directory records)
  | (.error e, _) => pure (.failed e)

def statfs : FsProg Reply := do
  match ← FsProg.statfs with
  | .ok s =>
    pure (.statfs s.blocks s.bfree s.bavail s.files s.ffree s.bsize s.namelen s.frsize)
  | .error e => pure (.failed e)

def forget (ino : Ino) (nlookup : UInt64) : XattrProg Reply := do
  let _ : Unit ← Prog.perform (S := XattrSig) (.forget ino nlookup)
  pure .none

/-- How a `getxattr` or `listxattr` call is answered. -/
inductive XattrReply where
  | size (length : UInt32)
  | data
  | tooLarge
  deriving DecidableEq, Repr

/-- The size-query convention: size 0 asks for the length only, and a value that does not
fit is refused. The length is reported as a `u32`. -/
def xattrReply (len : Nat) (size : UInt32) : XattrReply :=
  if size = 0 then .size (UInt32.ofNat len)
  else if len > size.toNat then .tooLarge
  else .data

/-- `ERANGE` on Linux. -/
def erange : Int := 34

def replyXattr (data : Bytes) (size : UInt32) : Reply :=
  match xattrReply data.length size with
  | .size length => .size length
  | .tooLarge => .error erange
  | .data => .data data

/-- The names, each ended by a NUL byte. -/
def xattrNames (names : List OsString) : Bytes := names.flatMap fun name => name ++ [0]

def listxattr (ino : Ino) (size : UInt32) : XattrProg Reply := do
  let answer : FsResult (List OsString) ← Prog.perform (S := XattrSig) (.listxattr ino)
  match answer with
  | .ok names => pure (replyXattr (xattrNames names) size)
  | .error e => pure (.failed e)

def getxattr (ino : Ino) (name : OsString) (size : UInt32) : XattrProg Reply := do
  let answer : FsResult Bytes ← Prog.perform (S := XattrSig) (.getxattr ino name)
  match answer with
  | .ok value => pure (replyXattr value size)
  | .error e => pure (.failed e)

/-! ## One request -/

/-- A request of the kernel, as `fuser` hands it to the adapter. -/
inductive Request where
  | lookup (parent : Ino) (name : OsString)
  | getattr (ino : Ino)
  | openFile (ino : Ino)
  | read (fh : FileHandle) (offset : UInt64) (size : UInt32)
  | release (fh : FileHandle)
  | forget (ino : Ino) (nlookup : UInt64)
  | readdir (ino : Ino) (offset : UInt64) (room : Room)
  | statfs
  | listxattr (ino : Ino) (size : UInt32)
  | getxattr (ino : Ino) (name : OsString) (size : UInt32)

/-- The adapter. -/
def serve (o : Overflow) (fuel : Nat) : Request → Prog FuseSig Reply
  | .lookup parent name => (lookup parent name).inl
  | .getattr ino => (getattr ino).inl
  | .openFile ino => (openFile ino).inl
  | .read fh offset size => (read fh offset size).inl
  | .release fh => (release fh).inl
  | .readdir ino offset room => (readdir o fuel ino offset room).inl
  | .statfs => statfs.inl
  | .forget ino nlookup => (forget ino nlookup).inr
  | .listxattr ino size => (listxattr ino size).inr
  | .getxattr ino name size => (getxattr ino name size).inr

end Anymount.Fuse
