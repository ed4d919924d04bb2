import Anymount.Nfs.Handle
import Anymount.Nfs.Rpc

/-!
# The MOUNT program

A single-export server: a valid `dirpath` is `/export/<hex>`, optionally followed by
`/<label>`. Only the segment before the first `/` is checked; the label authorizes
nothing.
-/
namespace Anymount.Nfs.MountProto

open Library

def mnt3Ok : UInt32 := 0
def mnt3errNoent : UInt32 := 2
def mnt3errAcces : UInt32 := 13
def mntPathLen : UInt32 := 1024

/-- The bytes of `"/export/"`. -/
def exportPrefix : Bytes := [47, 101, 120, 112, 111, 114, 116, 47]

def slash : UInt8 := 47

def isContinuation (b : UInt8) : Bool := 0x80 ≤ b && b ≤ 0xBF

/-- The second byte of a three-byte sequence: no overlong form, no surrogate. -/
def validSecondOfThree (b0 b1 : UInt8) : Bool :=
  isContinuation b1 && !(b0 == 0xE0 && b1 < 0xA0) && !(b0 == 0xED && 0xA0 ≤ b1)

/-- The second byte of a four-byte sequence: no overlong form, nothing above U+10FFFF. -/
def validSecondOfFour (b0 b1 : UInt8) : Bool :=
  isContinuation b1 && !(b0 == 0xF0 && b1 < 0x90) && !(b0 == 0xF4 && 0x90 ≤ b1)

/-- Well-formed UTF-8, which is what `OsStr::to_str` accepts. -/
def validUtf8 : Bytes → Bool
  | [] => true
  | b0 :: rest =>
    if b0 < 0x80 then validUtf8 rest
    else match rest with
      | [] => false
      | b1 :: rest =>
        if 0xC2 ≤ b0 && b0 ≤ 0xDF then isContinuation b1 && validUtf8 rest
        else match rest with
          | [] => false
          | b2 :: rest =>
            if 0xE0 ≤ b0 && b0 ≤ 0xEF then
              validSecondOfThree b0 b1 && isContinuation b2 && validUtf8 rest
            else match rest with
              | [] => false
              | b3 :: rest =>
                0xF0 ≤ b0 && b0 ≤ 0xF4 && validSecondOfFour b0 b1 && isContinuation b2 &&
                  isContinuation b3 && validUtf8 rest

def stripPrefix (pre s : Bytes) : Option Bytes :=
  if pre.isPrefixOf s then some (s.drop pre.length) else none

/-- The text before the first `/`, or all of it. -/
def firstSegment (s : Bytes) : Bytes := s.takeWhile (· ≠ slash)

def isAsciiHexdigit (b : UInt8) : Bool :=
  (48 ≤ b && b ≤ 57) || (65 ≤ b && b ≤ 70) || (97 ≤ b && b ≤ 102)

/-- A reply that is only a status. -/
def status (s : UInt32) : ProcOutcome := .success (Writer.new.writeU32 s)

/-- The successful result: the root handle and one authentication flavor, `AUTH_SYS`. -/
def mntOk (handle : FileHandle3) : Writer :=
  ((((Writer.new.writeU32 mnt3Ok).writeOpaqueVar (handle.encode rootIno)).writeU32 1).writeU32 1)

theorem length_mntOk (handle : FileHandle3) : (mntOk handle).buf.length = 40 := by
  simp [mntOk, Xdr.encodeOpaque, Xdr.encodeFixed, Xdr.padding]

theorem success_ne_mntOk {w : Writer} (hw : w.buf.length < 40) (handle : FileHandle3) :
    ProcOutcome.success w ≠ .success (mntOk handle) := by
  intro h
  rw [ProcOutcome.success.inj h, length_mntOk] at hw
  omega

def mnt (r : Reader) (exportValue : ExportSecret) (handle : FileHandle3) : ProcOutcome :=
  match r.readString mntPathLen with
  | none => .garbageArgs
  | some (dirpath, _) =>
    if ¬ validUtf8 dirpath then status mnt3errNoent
    else match stripPrefix exportPrefix dirpath with
      | none => status mnt3errNoent
      | some rest =>
        let hex := firstSegment rest
        if hex.length ≠ 32 || !hex.all isAsciiHexdigit then status mnt3errNoent
        else if ¬ exportValue.matchesValue hex then status mnt3errAcces
        else .success (mntOk handle)

def umnt (r : Reader) : ProcOutcome :=
  match r.readString mntPathLen with
  | none => .garbageArgs
  | some _ => .success .new

def exportList : ProcOutcome := .success (Writer.new.writeBool false)

/-- Route one MOUNT-program call to its procedure. -/
def dispatch (proc : UInt32) (r : Reader) (exportValue : ExportSecret) (handle : FileHandle3) :
    ProcOutcome :=
  if proc = 0 then .success .new
  else if proc = 1 then mnt r exportValue handle
  else if proc = 3 then umnt r
  else if proc = 5 then exportList
  else .procUnavail

end Anymount.Nfs.MountProto
