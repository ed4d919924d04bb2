import Anymount.Nfs.Refinement

/-!
# Attributes on the wire

What a client decodes from `write_fattr3`. Every field is exact except a time from 2^32 seconds
on: `write_nfstime3` clamps a time before the epoch to it but lets a late one wrap around, so
the order of times is lost across the end of a period of 2^32 seconds.
-/
namespace Anymount.Nfs

open Library Library.Xdr Rfc1813 NfsProto

/-- The order of points in time. -/
instance : LE SystemTime where
  le t u := toLex (t.secs, t.nanos) ≤ toLex (u.secs, u.nanos)

theorem SystemTime.le_iff {t u : SystemTime} :
    t ≤ u ↔ t.secs < u.secs ∨ t.secs = u.secs ∧ t.nanos ≤ u.nanos :=
  Prod.Lex.toLex_le_toLex

/-! ## What a client decodes -/

structure Nfstime3 where
  seconds : UInt32
  nseconds : UInt32
  deriving DecidableEq, Repr

instance : LE Nfstime3 where
  le t u := toLex (t.seconds.toNat, t.nseconds.toNat) ≤ toLex (u.seconds.toNat, u.nseconds.toNat)

theorem Nfstime3.le_iff {t u : Nfstime3} :
    t ≤ u ↔ t.seconds.toNat < u.seconds.toNat ∨
      t.seconds.toNat = u.seconds.toNat ∧ t.nseconds.toNat ≤ u.nseconds.toNat :=
  Prod.Lex.toLex_le_toLex

/-- The attributes of RFC 1813, without `rdev`. -/
structure Fattr3 where
  type : UInt32
  mode : UInt32
  nlink : UInt32
  uid : UInt32
  gid : UInt32
  size : UInt64
  used : UInt64
  fsid : UInt64
  fileid : UInt64
  atime : Nfstime3
  mtime : Nfstime3
  ctime : Nfstime3
  deriving DecidableEq, Repr

def Nfstime3.ofValue (v : nfstime3.Value Bytes) : Nfstime3 := ⟨v.1, v.2⟩

def Fattr3.ofValue : fattr3.Value Bytes → Fattr3
  | (type, mode, nlink, uid, gid, size, used, _, fsid, fileid, atime, mtime, ctime) =>
    { type := type.val, mode, nlink, uid, gid, size, used, fsid, fileid,
      atime := .ofValue atime, mtime := .ofValue mtime, ctime := .ofValue ctime }

def decodeFattr3 (bytes : Bytes) : Option Fattr3 :=
  ((fattr3.decode fhsize).run bytes).map fun result => .ofValue result.1

def Nfstime3.of (t : SystemTime) : Nfstime3 :=
  ⟨UInt32.ofNat (durationSinceEpoch t).1, UInt32.ofNat (durationSinceEpoch t).2⟩

/-- What `write_fattr3` puts on the wire, field by field. -/
def Fattr3.of (attr : FileAttr) (fsid : UInt64) : Fattr3 where
  type := ftype attr.kind
  mode := attr.perm.toUInt32
  nlink := attr.nlink
  uid := attr.uid
  gid := attr.gid
  size := attr.size
  used := attr.size
  fsid := fsid
  fileid := attr.ino.number
  atime := .of attr.atime
  mtime := .of attr.mtime
  ctime := .of attr.ctime

theorem decodeFattr3_writeFattr3 (attr : FileAttr) (fsid : UInt64) :
    decodeFattr3 (writeFattr3 .new attr fsid).buf = some (.of attr fsid) := by
  have henc : ∀ ino : Ino, ((fun _ => []) ino : Bytes).length ≤ fhsize.toNat :=
    fun _ => Nat.zero_le _
  have hrun := (yields_decode henc fattr3 (attrValue fsid attr)).run_eq
  rw [decodeFattr3, buf_writeFattr3 (fun _ => []), Writer.buf_new, List.nil_append, hrun]
  rfl

/-! ## Order -/

/-- The times of an inode. -/
inductive TimeField where
  | atime | mtime | ctime
  deriving DecidableEq, Repr

def TimeField.of (attr : FileAttr) : TimeField → SystemTime
  | atime => attr.atime
  | mtime => attr.mtime
  | ctime => attr.ctime

def TimeField.decoded (v : Fattr3) : TimeField → Nfstime3
  | atime => v.atime
  | mtime => v.mtime
  | ctime => v.ctime

/-- Every field that a word can hold is what the attribute is. -/
structure Exact (attr : FileAttr) (v : Fattr3) : Prop where
  type : v.type = match attr.kind with
    | .file => 1
    | .directory => 2
  mode : v.mode.toNat = attr.perm.toNat
  nlink : v.nlink = attr.nlink
  uid : v.uid = attr.uid
  gid : v.gid = attr.gid
  size : v.size = attr.size
  fileid : v.fileid = attr.ino.number
  time : ∀ field : TimeField, 0 ≤ (field.of attr).secs → (field.of attr).secs ≤ 2 ^ 32 - 1 →
    ((field.decoded v).seconds.toNat : Int) = (field.of attr).secs ∧
      (field.decoded v).nseconds.toNat = (field.of attr).nanos

/-- What a client sees of `a` and `b` is exact, and times that are in order are decoded in
order. -/
def KeepsTimes (a b : FileAttr) (fsid : UInt64) : Prop :=
  ∃ va vb, decodeFattr3 (writeFattr3 .new a fsid).buf = some va ∧
    decodeFattr3 (writeFattr3 .new b fsid).buf = some vb ∧ Exact a va ∧ Exact b vb ∧
      ∀ field : TimeField, field.of a ≤ field.of b → field.decoded va ≤ field.decoded vb

/-- The later time lies in a later period of 2^32 seconds, but less far into it. -/
def WrapsAround (t u : SystemTime) : Prop :=
  0 ≤ t.secs ∧ t.secs / 2 ^ 32 < u.secs / 2 ^ 32 ∧
    (u.secs % 2 ^ 32 < t.secs % 2 ^ 32 ∨ u.secs % 2 ^ 32 = t.secs % 2 ^ 32 ∧ u.nanos < t.nanos)

section Order

variable {t u : SystemTime}

theorem decoded_of (attr : FileAttr) (fsid : UInt64) (field : TimeField) :
    field.decoded (.of attr fsid) = .of (field.of attr) := by
  cases field <;> rfl

theorem seconds_of_neg (h : t.secs < 0) : Nfstime3.of t = ⟨0, 0⟩ := by
  rw [Nfstime3.of, durationSinceEpoch, if_pos h]
  rfl

theorem toNat_seconds_of (h : 0 ≤ t.secs) :
    ((Nfstime3.of t).seconds.toNat : Int) = t.secs % 2 ^ 32 := by
  rw [Nfstime3.of, durationSinceEpoch, if_neg (by omega), UInt32.toNat_ofNat']
  dsimp only
  omega

theorem toNat_nseconds_of (h : 0 ≤ t.secs) : (Nfstime3.of t).nseconds.toNat = t.nanos := by
  have := t.nanos_lt
  rw [Nfstime3.of, durationSinceEpoch, if_neg (by omega), UInt32.toNat_ofNat']
  dsimp only
  omega

theorem exact_of (attr : FileAttr) (fsid : UInt64) : Exact attr (.of attr fsid) where
  type := by
    rw [Fattr3.of]
    cases attr.kind <;> rfl
  mode := by simp [Fattr3.of]
  nlink := rfl
  uid := rfl
  gid := rfl
  size := rfl
  fileid := rfl
  time := by
    intro field hepoch hlast
    rw [decoded_of, toNat_seconds_of hepoch, toNat_nseconds_of hepoch]
    exact ⟨by omega, rfl⟩

/-- The order of two times is kept unless the clock of the wire wraps around between them. -/
theorem nfstime3_le_iff (h : t ≤ u) : Nfstime3.of t ≤ Nfstime3.of u ↔ ¬ WrapsAround t u := by
  rw [SystemTime.le_iff] at h
  by_cases hneg : t.secs < 0
  · refine iff_of_true ?_ fun hwrap => by
      have := hwrap.1
      omega
    rw [seconds_of_neg hneg, Nfstime3.le_iff]
    simp only [UInt32.toNat_zero]
    omega
  · have ht := toNat_seconds_of (t := t) (by omega)
    have hu := toNat_seconds_of (t := u) (by omega)
    rw [Nfstime3.le_iff, toNat_nseconds_of (by omega), toNat_nseconds_of (by omega), WrapsAround]
    omega

theorem WrapsAround.le (h : WrapsAround t u) : t ≤ u :=
  SystemTime.le_iff.mpr (.inl (by have := h.2.1; omega))

end Order

theorem KeepsTimes.order {a b : FileAttr} {fsid : UInt64} (h : KeepsTimes a b fsid)
    (field : TimeField) (hle : field.of a ≤ field.of b) :
    Nfstime3.of (field.of a) ≤ .of (field.of b) := by
  obtain ⟨va, vb, hva, hvb, -, -, horder⟩ := h
  rw [decodeFattr3_writeFattr3] at hva hvb
  cases hva
  cases hvb
  have hkept := horder field hle
  rwa [decoded_of, decoded_of] at hkept

/-- Exactly which pairs of attributes a client sees in order. -/
theorem keepsTimes_iff (a b : FileAttr) (fsid : UInt64) :
    KeepsTimes a b fsid ↔ ∀ field : TimeField, ¬ WrapsAround (field.of a) (field.of b) := by
  constructor
  · intro h field hwrap
    exact (nfstime3_le_iff hwrap.le).mp (h.order field hwrap.le) hwrap
  · intro h
    refine ⟨.of a fsid, .of b fsid, decodeFattr3_writeFattr3 a fsid,
      decodeFattr3_writeFattr3 b fsid, exact_of a fsid, exact_of b fsid, fun field hle => ?_⟩
    rw [decoded_of, decoded_of]
    exact (nfstime3_le_iff hle).mpr (h field)

/-- A file with one time in all three fields. -/
def stamped (t : SystemTime) : FileAttr where
  ino := ⟨2⟩
  kind := .file
  size := 0
  perm := 0o644
  nlink := 1
  uid := 0
  gid := 0
  atime := t
  mtime := t
  ctime := t

/-- The last second that fits. -/
def lastSecond : SystemTime := { SystemTime.unixEpoch with secs := 2 ^ 32 - 1 }

def firstWrapped : SystemTime := { SystemTime.unixEpoch with secs := 2 ^ 32 }

/-- The file that is one second younger is seen as one of 1970. -/
theorem wrapped_second_out_of_order :
    ¬ KeepsTimes (stamped lastSecond) (stamped firstWrapped) 1 := by
  intro h
  have hwrap : WrapsAround lastSecond firstWrapped := ⟨by decide, by decide, .inl (by decide)⟩
  exact (nfstime3_le_iff hwrap.le).mp (h.order .mtime hwrap.le) hwrap

end Anymount.Nfs
