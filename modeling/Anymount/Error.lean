import Mathlib

/-!
# The error type shared by every backend

`FsError` with its status mappings: `nfsstat3` for the NFS backend and `NTSTATUS` for
the Cloud Files backend. Both look through any number of `context` wrappers. For callers
that speak `std::io`, an `FsError` also converts into an `io::Error`.
-/
namespace Anymount

/-- `std::io::ErrorKind`: the kinds the crate names, and the remaining ones, which it only
passes on. -/
inductive ErrorKind where
  | notFound | permissionDenied | wouldBlock | timedOut | interrupted | unexpectedEof
  | invalidInput | unsupported | other
  | another (code : Nat)
  deriving DecidableEq, Repr

/-- `std::io::Error`: a kind, the raw OS error when there is one, and the text it prints. -/
structure IoError where
  kind : ErrorKind
  rawOsError : Option Int := none
  message : String := ""
  deriving DecidableEq, Repr

/-- Failure of a filesystem operation. -/
inductive FsError where
  | notFound
  | permissionDenied
  | notADirectory
  | isADirectory
  | invalidArgument
  | noXattr
  | readOnly
  | unsupported (what : String)
  | io (e : IoError)
  | other (message : String)
  | context (errnoAs : FsError) (msg : String)
  deriving DecidableEq, Repr

/-- The `NTSTATUS` values the Cloud Files backend completes an operation with. The numbers
behind the names belong to the platform; `success` is the literal `0` of the source. -/
inductive NtStatus where
  | success
  | objectNameNotFound
  | accessDenied
  | invalidParameter
  | notSupported
  | cloudFileUnsuccessful
  deriving DecidableEq, Repr

namespace FsError

/-- `nfsstat3` for this error. -/
def toNfsstat3 : FsError → UInt32
  | notFound => 2
  | permissionDenied => 13
  | notADirectory => 20
  | isADirectory => 21
  | invalidArgument => 22
  | noXattr => 10004
  | readOnly => 30
  | unsupported _ => 10004
  | io _ => 5
  | other _ => 10006
  | context errnoAs _ => errnoAs.toNfsstat3

/-- `NTSTATUS` for this error. -/
def toNtstatus : FsError → NtStatus
  | notFound => .objectNameNotFound
  | permissionDenied => .accessDenied
  | invalidArgument => .invalidParameter
  | unsupported _ | noXattr => .notSupported
  | notADirectory | isADirectory | readOnly | io _ | other _ => .cloudFileUnsuccessful
  | context errnoAs _ => errnoAs.toNtstatus

/-- POSIX `errno` for this error, with the numbers of Linux, where the FUSE backend runs. -/
def toErrno : FsError → Int
  | notFound => 2
  | permissionDenied => 13
  | notADirectory => 20
  | isADirectory => 21
  | invalidArgument => 22
  | noXattr => 61
  | readOnly => 30
  | unsupported _ => 38
  | io e => e.rawOsError.getD 5
  | other _ => 5
  | context errnoAs _ => errnoAs.toErrno

/-- No error completes an operation as a success. -/
theorem toNtstatus_ne_success (e : FsError) : e.toNtstatus ≠ .success := by
  induction e with
  | context errnoAs msg ih => exact ih
  | _ => nofun

/-- No error is reported to an NFS client as `NFS3_OK`. -/
theorem toNfsstat3_ne_ok (e : FsError) : e.toNfsstat3 ≠ 0 := by
  induction e with
  | context errnoAs msg ih => exact ih
  | _ => simp [toNfsstat3]

/-! ## Conversion into `io::Error` -/

/-- What `Display` prints. -/
def display : FsError → String
  | notFound => "no such file or directory"
  | permissionDenied => "permission denied"
  | notADirectory => "not a directory"
  | isADirectory => "is a directory"
  | invalidArgument => "invalid argument"
  | noXattr => "no such extended attribute"
  | readOnly => "read-only filesystem"
  | unsupported what => "operation not supported: " ++ what
  | io e => "i/o error: " ++ e.message
  | other message => message
  | context _ msg => msg

/-- The error a `context` chain ultimately reports as. -/
def innermost : FsError → FsError
  | context errnoAs _ => errnoAs.innermost
  | e => e

/-- Take the `io::Error` out of a chain known to end in one. -/
def unwrapIo : FsError → IoError
  | io inner => inner
  | context errnoAs _ => errnoAs.unwrapIo
  | e => ⟨.other, none, e.display⟩

/-- `io::Error::from`. -/
def toIoError (e : FsError) : IoError :=
  let msg := e.display
  match e.innermost with
  | notFound => ⟨.notFound, none, msg⟩
  | permissionDenied => ⟨.permissionDenied, none, msg⟩
  | notADirectory | isADirectory | invalidArgument => ⟨.invalidInput, none, msg⟩
  | readOnly => ⟨.permissionDenied, none, msg⟩
  | unsupported _ | noXattr => ⟨.unsupported, none, msg⟩
  | io _ => e.unwrapIo
  | _ => ⟨.other, none, msg⟩

/-- `unwrap_io` ends in its last arm, which is marked unreachable. -/
def FallsBack : FsError → Prop
  | io _ => False
  | context errnoAs _ => errnoAs.FallsBack
  | _ => True

/-- The kind assigned to an error, through any number of contexts. -/
def assignedKind : FsError → ErrorKind
  | notFound => .notFound
  | permissionDenied | readOnly => .permissionDenied
  | notADirectory | isADirectory | invalidArgument => .invalidInput
  | unsupported _ | noXattr => .unsupported
  | io e => e.kind
  | other _ => .other
  | context errnoAs _ => errnoAs.assignedKind

theorem innermost_ne_context (e errnoAs : FsError) (msg : String) :
    e.innermost ≠ context errnoAs msg := by
  induction e with
  | context inner text ih => exact ih
  | _ => nofun

theorem assignedKind_innermost (e : FsError) : e.innermost.assignedKind = e.assignedKind := by
  induction e with
  | context errnoAs msg ih => exact ih
  | _ => rfl

theorem unwrapIo_of_io {e : FsError} {inner : IoError} (h : e.innermost = io inner) :
    e.unwrapIo = inner ∧ ¬ e.FallsBack := by
  induction e with
  | context errnoAs msg ih => exact ih h
  | io err => exact ⟨FsError.io.inj h, id⟩
  | _ => cases h

/-- A chain that ends in an `io::Error` converts into that error. -/
theorem toIoError_of_io {e : FsError} {inner : IoError} (h : e.innermost = io inner) :
    e.toIoError = inner := by
  rw [toIoError, h]
  exact (unwrapIo_of_io h).1

/-- Every other chain keeps its text. -/
theorem toIoError_of_not_io {e : FsError} (h : ∀ inner, e.innermost ≠ io inner) :
    e.toIoError = ⟨e.assignedKind, none, e.display⟩ := by
  have hkind := e.assignedKind_innermost
  have hcontext := e.innermost_ne_context
  unfold toIoError
  cases hin : e.innermost with
  | io inner => exact absurd hin (h inner)
  | context errnoAs msg => exact absurd hin (hcontext errnoAs msg)
  | _ =>
    rw [hin] at hkind
    rw [← hkind]
    rfl

/-- The conversion loses neither the code nor the explanation.

* The kind is the one assigned to the innermost error.
* An innermost `io::Error` keeps its kind and its raw OS error.
* The text of the outermost context is part of the message.
* The last arm of `unwrap_io` is not reached when the conversion calls it. -/
structure Converts (e : FsError) : Prop where
  kind : e.toIoError.kind = e.innermost.assignedKind
  whole : ∀ inner, e.innermost = io inner →
    e.toIoError.kind = inner.kind ∧ e.toIoError.rawOsError = inner.rawOsError
  explained : ∀ errnoAs msg, e = context errnoAs msg → msg.toList <:+: e.toIoError.message.toList
  noFallback : ∀ inner, e.innermost = io inner → ¬ e.FallsBack

/-- The conversion is faithful exactly if there is no context, or the innermost error is not
an `io::Error`, or that one prints the context's text of its own accord. -/
theorem converts_iff (e : FsError) :
    e.Converts ↔ ∀ errnoAs msg inner, e = context errnoAs msg → e.innermost = io inner →
      msg.toList <:+: inner.message.toList := by
  refine ⟨fun h errnoAs msg inner he hio => ?_, fun h => ?_⟩
  · have hmsg := h.explained errnoAs msg he
    rwa [toIoError_of_io hio] at hmsg
  · by_cases hio : ∃ inner, e.innermost = io inner
    · obtain ⟨inner, hio⟩ := hio
      have hconverted := toIoError_of_io hio
      refine ⟨by rw [hconverted, hio]; rfl, ?_, ?_, fun inner' hio' => (unwrapIo_of_io hio').2⟩
      · intro inner' hio'
        obtain rfl : inner = inner' := FsError.io.inj (hio.symm.trans hio')
        rw [hconverted]
        exact ⟨rfl, rfl⟩
      · intro errnoAs msg he
        rw [hconverted]
        exact h errnoAs msg inner he hio
    · have hconverted := toIoError_of_not_io (not_exists.mp hio)
      refine ⟨?_, fun inner hio' => absurd ⟨inner, hio'⟩ hio, ?_,
        fun inner hio' => absurd ⟨inner, hio'⟩ hio⟩
      · rw [hconverted, assignedKind_innermost]
      · rintro errnoAs msg rfl
        rw [hconverted]
        exact List.infix_refl _

/-- A failed mount: the explanation around an OS error is dropped. -/
theorem context_lost_around_io :
    ¬ (context (io ⟨.permissionDenied, some 13, "Permission denied (os error 13)"⟩)
      "while mounting").Converts := by
  intro h
  have hmsg := h.explained _ _ rfl
  rw [toIoError_of_io rfl] at hmsg
  revert hmsg
  decide

end FsError

end Anymount
