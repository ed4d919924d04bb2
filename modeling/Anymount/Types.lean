import Anymount.Library.Bytes

/-!
# Core value types

Inodes, handles, attributes and directory entries, as the filesystem trait exchanges
them. Only the fields that the modelled backends read are kept.
-/
namespace Anymount

open Library

/-- Inode number. -/
structure Ino where
  number : UInt64
  deriving DecidableEq, Repr

/-- The root of every mount. -/
def rootIno : Ino := ⟨1⟩

/-- An open-file token. -/
structure FileHandle where
  number : UInt64
  deriving DecidableEq, Repr

inductive FileKind where
  | file | directory
  deriving DecidableEq, Repr

/-- A point in time: whole seconds relative to the Unix epoch, and nanoseconds after
that second. A time before the epoch has a negative second count. -/
structure SystemTime where
  secs : Int
  nanos : Nat
  nanos_lt : nanos < 1000000000
  deriving DecidableEq, Repr

def SystemTime.unixEpoch : SystemTime := ⟨0, 0, by decide⟩

/-- Metadata for one inode. -/
structure FileAttr where
  ino : Ino
  kind : FileKind
  size : UInt64
  perm : UInt16
  nlink : UInt32
  uid : UInt32
  gid : UInt32
  atime : SystemTime
  mtime : SystemTime
  ctime : SystemTime
  deriving DecidableEq, Repr

/-- An `OsString`: arbitrary bytes on Unix, and on Windows the generalized UTF-8 of its units. -/
abbrev OsString := Bytes

/-- One entry returned by `readdir`. -/
structure DirEntry where
  ino : Ino
  name : OsString
  kind : FileKind
  deriving DecidableEq, Repr

/-- Filesystem-wide statistics. -/
structure StatFs where
  blocks : UInt64
  bfree : UInt64
  bavail : UInt64
  files : UInt64
  ffree : UInt64
  bsize : UInt32
  namelen : UInt32
  frsize : UInt32
  deriving DecidableEq, Repr

/-- `StatFs::default`. -/
def StatFs.default : StatFs := ⟨0, 0, 0, 0, 0, 512, 255, 512⟩

end Anymount
