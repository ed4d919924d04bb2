import Anymount.Library.Bytes
import Anymount.Types

/-!
# File handles and the export value

Two independent per-mount values. The handle secret prefixes every file handle. The
export value is what a `MNT` call has to present; it is public once the mount succeeds.
Both are compared without an early exit.
-/
namespace Anymount.Nfs

open Library

def encodedLen : Nat := 24

/-- A constant: the verifier needs neither secrecy nor unpredictability. -/
def cookieverfBytes : Bytes := List.replicate 8 0

/-- Compare two byte strings without an early exit: differences are accumulated. -/
def ctEq (a b : Bytes) : Bool :=
  if a.length ≠ b.length then false
  else (a.zip b).foldl (fun diff xy => diff ||| (xy.1 ^^^ xy.2)) 0 == 0

theorem length_zeroSecret : (List.replicate 16 (0 : UInt8)).length = 16 := rfl

/-- The private per-mount value that prefixes every file handle. -/
structure FileHandle3 where
  secret : Bytes
  length_secret : secret.length = 16
  deriving DecidableEq, Repr

namespace FileHandle3

def encode (h : FileHandle3) (ino : Ino) : Bytes := h.secret ++ beU64 ino.number

/-- `none` on a wrong length or a secret mismatch. -/
def resolve (h : FileHandle3) (bytes : Bytes) : Option Ino :=
  if bytes.length ≠ encodedLen || !ctEq (bytes.take 16) h.secret then none
  else some ⟨UInt64.ofNat (beNat ((bytes.drop 16).take 8))⟩

def cookieverf (_ : FileHandle3) : Bytes := cookieverfBytes

end FileHandle3

/-- A hexadecimal digit in lower case, as ASCII. -/
def hexDigit (n : Nat) : UInt8 := if n < 10 then UInt8.ofNat (48 + n) else UInt8.ofNat (87 + n)

/-- Each byte as two lowercase hex digits. -/
def hexString (secret : Bytes) : Bytes :=
  secret.flatMap fun b => [hexDigit (b.toNat / 16), hexDigit (b.toNat % 16)]

/-- The public per-mount value of the `MNT` export path: the rendering of 16 bytes. -/
structure ExportSecret where
  hex : Bytes
  rendered : ∃ secret : Bytes, secret.length = 16 ∧ hex = hexString secret

namespace ExportSecret

def fromSecret (secret : Bytes) (h : secret.length = 16) : ExportSecret :=
  ⟨hexString secret, secret, h, rfl⟩

/-- Whether a path segment is this value. -/
def matchesValue (e : ExportSecret) (candidate : Bytes) : Bool := ctEq candidate e.hex

end ExportSecret

/-! ## The comparison is equality -/

private theorem foldl_diff_eq_zero (xys : List (UInt8 × UInt8)) (diff : UInt8) :
    xys.foldl (fun diff xy => diff ||| (xy.1 ^^^ xy.2)) diff = 0 ↔
      diff = 0 ∧ ∀ xy ∈ xys, xy.1 = xy.2 := by
  induction xys generalizing diff with
  | nil => simp
  | cons xy xys ih =>
    rw [List.foldl_cons, ih, UInt8.or_eq_zero_iff, UInt8.xor_eq_zero_iff]
    simp only [List.forall_mem_cons, and_assoc]

private theorem zip_all_eq {a b : Bytes} (hlen : a.length = b.length) :
    (∀ xy ∈ a.zip b, xy.1 = xy.2) ↔ a = b := by
  induction a generalizing b with
  | nil => cases b <;> simp_all
  | cons x a ih =>
    cases b with
    | nil => simp at hlen
    | cons y b =>
      simp only [List.zip_cons_cons, List.forall_mem_cons, List.cons.injEq]
      rw [ih (by simpa using hlen)]

/-- The accumulating loop agrees with plain equality. -/
theorem ctEq_iff (a b : Bytes) : ctEq a b = true ↔ a = b := by
  unfold ctEq
  by_cases hlen : a.length = b.length
  · rw [if_neg (by simpa using hlen), beq_iff_eq, foldl_diff_eq_zero, zip_all_eq hlen]
    simp
  · simp only [ne_eq, hlen, not_false_eq_true, if_true, Bool.false_eq_true, false_iff]
    exact fun h => hlen (congrArg List.length h)

namespace FileHandle3

@[simp] theorem length_encode (h : FileHandle3) (ino : Ino) : (h.encode ino).length = 24 := by
  simp [encode, h.length_secret]

/-- A handle resolves exactly to the inode it was made for. -/
@[simp] theorem resolve_encode (h : FileHandle3) (ino : Ino) :
    h.resolve (h.encode ino) = some ino := by
  have htake : (h.encode ino).take 16 = h.secret := by
    rw [encode, ← h.length_secret, List.take_left]
  have hdrop : ((h.encode ino).drop 16).take 8 = beU64 ino.number := by
    rw [encode, ← h.length_secret, List.drop_left, List.take_of_length_le (by simp)]
  have hct : ctEq h.secret h.secret = true := (ctEq_iff _ _).mpr rfl
  simp [resolve, encodedLen, htake, hdrop, hct]

/-- Nothing but the handle of an inode resolves to it. -/
theorem resolve_eq_some_iff (h : FileHandle3) (bytes : Bytes) (ino : Ino) :
    h.resolve bytes = some ino ↔ bytes = h.encode ino := by
  refine ⟨fun hresolve => ?_, fun heq => heq ▸ h.resolve_encode ino⟩
  unfold resolve at hresolve
  split at hresolve
  · cases hresolve
  · next haccepted =>
    simp only [Bool.or_eq_true, decide_eq_true_eq, Bool.not_eq_true', not_or, not_not,
      Bool.not_eq_false, ctEq_iff] at haccepted
    obtain ⟨hlen, hsecret⟩ := haccepted
    obtain rfl := Option.some.inj hresolve
    have htail : (bytes.drop 16).length = 8 := by
      rw [List.length_drop, hlen]
      rfl
    rw [encode, List.take_of_length_le htail.le, beU64_ofNat_beNat htail, ← hsecret,
      List.take_append_drop]

theorem encode_inj (h : FileHandle3) {ino ino' : Ino} :
    h.encode ino = h.encode ino' ↔ ino = ino' := by
  refine ⟨fun heq => ?_, congrArg _⟩
  have := h.resolve_encode ino
  rw [heq, h.resolve_encode] at this
  exact (Option.some.inj this).symm

/-- A handle made under another secret does not resolve. -/
theorem resolve_foreign (h h' : FileHandle3) (ino : Ino) :
    h.resolve (h'.encode ino) = none ↔ h.secret ≠ h'.secret := by
  rw [Option.eq_none_iff_forall_ne_some]
  refine ⟨fun hnone hsecret => ?_, fun hsecret ino' hsome => hsecret ?_⟩
  · refine hnone ino ((h.resolve_eq_some_iff _ _).mpr ?_)
    rw [encode, encode, hsecret]
  · have heq := (h.resolve_eq_some_iff _ _).mp hsome
    have hlen : h'.secret.length = h.secret.length := h'.length_secret.trans h.length_secret.symm
    exact (List.append_inj_left heq hlen).symm

end FileHandle3

/-- The codec is exact, for handles and for the export value. -/
theorem handle_codec_exact :
    (∀ x y : Bytes, ctEq x y = true ↔ x = y) ∧
      (∀ (h : FileHandle3) (b : Bytes) (ino : Ino), h.resolve b = some ino ↔ b = h.encode ino) ∧
      (∀ (h h' : FileHandle3) (ino : Ino),
        h.resolve (h'.encode ino) = none ↔ h.secret ≠ h'.secret) ∧
      (∀ (h : FileHandle3) (ino ino' : Ino), h.encode ino = h.encode ino' ↔ ino = ino') ∧
      ∀ (e : ExportSecret) (candidate : Bytes),
        e.matchesValue candidate = true ↔ candidate = e.hex :=
  ⟨ctEq_iff, FileHandle3.resolve_eq_some_iff, FileHandle3.resolve_foreign,
    fun h _ _ => h.encode_inj, fun e candidate => ctEq_iff candidate e.hex⟩

end Anymount.Nfs
