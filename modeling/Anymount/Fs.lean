import Anymount.Error
import Anymount.Library.Interaction
import Anymount.Types

/-!
# The filesystem trait

`FsSig` lists the trait calls the backends make. A filesystem is any handler for that
signature: it may keep state, answer the same call differently each time, and contradict
itself. What a particular result needs of it is a contract on single answers.
-/
namespace Anymount

open Library

/-- A `Result` of the crate. -/
abbrev FsResult (α : Type) := Except FsError α

/-- One call of the `ReadOnlyFs` trait. `readAt` carries the buffer as the caller passes
it in. -/
inductive FsCall where
  | lookup (parent : Ino) (name : OsString)
  | getattr (ino : Ino)
  | readdir (ino : Ino) (offset : UInt64)
  | openFile (ino : Ino)
  | readAt (fh : FileHandle) (offset : UInt64) (buf : Bytes)
  | release (fh : FileHandle)
  | statfs
  deriving DecidableEq, Repr

/-- The reported byte count, which nothing obliges to be honest, and the buffer after the
call. A slice keeps its length whatever the callee writes to it. -/
structure ReadAnswer (n : Nat) where
  result : FsResult Nat
  buf : Bytes
  length_buf : buf.length = n

/-- A failed read leaves the buffer as it was. -/
def ReadAnswer.failed (e : FsError) (buf : Bytes) : ReadAnswer buf.length := ⟨.error e, buf, rfl⟩

def FsCall.Answer : FsCall → Type
  | lookup _ _ => FsResult FileAttr
  | getattr _ => FsResult FileAttr
  | readdir _ _ => FsResult (List DirEntry)
  | openFile _ => FsResult FileHandle
  | readAt _ _ buf => ReadAnswer buf.length
  | release _ => FsResult Unit
  | statfs => FsResult StatFs

abbrev FsSig : Signature := ⟨FsCall, FsCall.Answer⟩

/-- A program whose only effects are trait calls. -/
abbrev FsProg := Prog FsSig

/-- A filesystem with private state `σ`. -/
abbrev ReadOnlyFs (σ : Type) := Handler FsSig σ

namespace FsProg

def lookup (parent : Ino) (name : OsString) : FsProg (FsResult FileAttr) :=
  .perform (S := FsSig) (.lookup parent name)
def getattr (ino : Ino) : FsProg (FsResult FileAttr) := .perform (S := FsSig) (.getattr ino)
def readdir (ino : Ino) (offset : UInt64) : FsProg (FsResult (List DirEntry)) :=
  .perform (S := FsSig) (.readdir ino offset)
def openFile (ino : Ino) : FsProg (FsResult FileHandle) := .perform (S := FsSig) (.openFile ino)
def readAt (fh : FileHandle) (offset : UInt64) (buf : Bytes) : FsProg (ReadAnswer buf.length) :=
  .perform (S := FsSig) (.readAt fh offset buf)
def release (fh : FileHandle) : FsProg (FsResult Unit) := .perform (S := FsSig) (.release fh)
def statfs : FsProg (FsResult StatFs) := .perform (S := FsSig) .statfs

variable {R : Contract FsSig} {H : Halt → Prop}

@[simp] theorem wp_lookup (parent : Ino) (name : OsString) (Q : FsResult FileAttr → Prop) :
    (lookup parent name).wp R H Q ↔ ∀ r, R (.lookup parent name) r → Q r := Iff.rfl
@[simp] theorem wp_getattr (ino : Ino) (Q : FsResult FileAttr → Prop) :
    (getattr ino).wp R H Q ↔ ∀ r, R (.getattr ino) r → Q r := Iff.rfl
@[simp] theorem wp_readdir (ino : Ino) (offset : UInt64) (Q : FsResult (List DirEntry) → Prop) :
    (readdir ino offset).wp R H Q ↔ ∀ r, R (.readdir ino offset) r → Q r := Iff.rfl
@[simp] theorem wp_openFile (ino : Ino) (Q : FsResult FileHandle → Prop) :
    (openFile ino).wp R H Q ↔ ∀ r, R (.openFile ino) r → Q r := Iff.rfl
@[simp] theorem wp_readAt (fh : FileHandle) (offset : UInt64) (buf : Bytes)
    (Q : ReadAnswer buf.length → Prop) :
    (readAt fh offset buf).wp R H Q ↔ ∀ r, R (.readAt fh offset buf) r → Q r := Iff.rfl
@[simp] theorem wp_release (fh : FileHandle) (Q : FsResult Unit → Prop) :
    (release fh).wp R H Q ↔ ∀ r, R (.release fh) r → Q r := Iff.rfl
@[simp] theorem wp_statfs (Q : FsResult StatFs → Prop) :
    statfs.wp R H Q ↔ ∀ r, R .statfs r → Q r := Iff.rfl

section Run

variable {σ α : Type} (fs : ReadOnlyFs σ) (s : σ)

@[simp] theorem run_lookup_bind (parent : Ino) (name : OsString)
    (k : FsResult FileAttr → FsProg α) :
    (lookup parent name >>= k).run fs s =
      (k (fs (.lookup parent name) s).1).run fs (fs (.lookup parent name) s).2 := rfl
@[simp] theorem run_getattr_bind (ino : Ino) (k : FsResult FileAttr → FsProg α) :
    (getattr ino >>= k).run fs s =
      (k (fs (.getattr ino) s).1).run fs (fs (.getattr ino) s).2 := rfl
@[simp] theorem run_readdir_bind (ino : Ino) (offset : UInt64)
    (k : FsResult (List DirEntry) → FsProg α) :
    (readdir ino offset >>= k).run fs s =
      (k (fs (.readdir ino offset) s).1).run fs (fs (.readdir ino offset) s).2 := rfl
@[simp] theorem run_openFile_bind (ino : Ino) (k : FsResult FileHandle → FsProg α) :
    (openFile ino >>= k).run fs s =
      (k (fs (.openFile ino) s).1).run fs (fs (.openFile ino) s).2 := rfl
@[simp] theorem run_readAt_bind (fh : FileHandle) (offset : UInt64) (buf : Bytes)
    (k : ReadAnswer buf.length → FsProg α) :
    (readAt fh offset buf >>= k).run fs s =
      (k (fs (.readAt fh offset buf) s).1).run fs (fs (.readAt fh offset buf) s).2 := rfl
@[simp] theorem run_release_bind (fh : FileHandle) (k : FsResult Unit → FsProg α) :
    (release fh >>= k).run fs s =
      (k (fs (.release fh) s).1).run fs (fs (.release fh) s).2 := rfl

end Run

end FsProg

/-! ## The `readdir` contract -/

/-- An answer to `readdir(dir, offset)` for a directory that holds `L`: a prefix of what
remains, of any length, and empty only when nothing remains. -/
def PageOf (L : List DirEntry) (offset : UInt64) (answer : FsResult (List DirEntry)) : Prop :=
  ∃ page, answer = .ok page ∧ page <+: L.drop offset.toNat ∧
    (offset.toNat < L.length → page ≠ [])

end Anymount
