import Anymount.Error
import Anymount.Library.Stream
import Anymount.Nfs.Xdr

/-!
# ONC RPC record marking and envelopes

Framing reads one length-prefixed message off a stream, single-fragment only. Above it
are the call header, whose credentials are skipped, and the reply headers.
-/
namespace Anymount.Nfs

open Library

/-- The receiving side of a socket. -/
abbrev Incoming := ChunkStream UInt8 IoError

def maxFragmentLen : UInt32 := 256 * 1024
def lastFragmentBit : UInt32 := 0x80000000

/-! ## Record marking -/

/-- The loop of `read_exact_or_eof`. Every pass reads at least one byte or leaves, so the
number of missing bytes bounds the passes. -/
def fillOrEof (len : Nat) : Nat → Bytes → Incoming → Except IoError (Option Bytes) × Incoming
  | 0, filled, s => (.ok (some filled), s)
  | fuel + 1, filled, s =>
    if filled.length < len then
      match s.read (len - filled.length) with
      | (.error e, s) => (.error e, s)
      | (.ok [], s) =>
        if filled = [] then (.ok none, s) else (.error ⟨.unexpectedEof, none, ""⟩, s)
      | (.ok chunk, s) => fillOrEof len fuel (filled ++ chunk) s
    else (.ok (some filled), s)

/-- Fill a buffer of `len` bytes: the bytes, or `none` if the stream was already at its end,
or an error on a short read. -/
def readExactOrEof (len : Nat) (s : Incoming) : Except IoError (Option Bytes) × Incoming :=
  fillOrEof len len [] s

/-- The loop of `std::io::Read::read_exact`, which retries an interrupted read and drops
what it has already received when it fails. -/
def fillExact (len : Nat) : Nat → Bytes → Incoming → Except IoError Bytes × Incoming
  | 0, filled, s => (.ok filled, s)
  | fuel + 1, filled, s =>
    if filled.length < len then
      match s.read (len - filled.length) with
      | (.error e, s) =>
        if e.kind = .interrupted then fillExact len fuel filled s else (.error e, s)
      | (.ok [], s) => (.error ⟨.unexpectedEof, none, "failed to fill whole buffer"⟩, s)
      | (.ok chunk, s) => fillExact len fuel (filled ++ chunk) s
    else (.ok filled, s)

def readExact (len : Nat) (s : Incoming) : Except IoError Bytes × Incoming :=
  fillExact len (len + s.length) [] s

/-- Read one length-prefixed message body; `none` on a clean end before any header byte. -/
def readMessage (s : Incoming) : Except IoError (Option Bytes) × Incoming :=
  match readExactOrEof 4 s with
  | (.error e, s) => (.error e, s)
  | (.ok none, s) => (.ok none, s)
  | (.ok (some hdr), s) =>
    let hdr := UInt32.ofNat (beNat hdr)
    let last := hdr &&& lastFragmentBit ≠ 0
    let len := hdr &&& ~~~lastFragmentBit
    if ¬ last then (.error ⟨.other, none, "multi-fragment RPC message not supported"⟩, s)
    else if len > maxFragmentLen then (.error ⟨.other, none, "RPC fragment exceeds size limit"⟩, s)
    else match readExact len.toNat s with
      | (.error e, s) => (.error e, s)
      | (.ok body, s) => (.ok (some body), s)

/-- The record mark written before a body. -/
def recordMark (body : Bytes) : Bytes := beU32 (lastFragmentBit ||| UInt32.ofNat body.length)

/-- One message as it goes over the wire: what the two `write_all` calls of
`write_message` send. -/
def frame (body : Bytes) : Bytes := recordMark body ++ body

/-! ## Call headers -/

structure CallHeader where
  xid : UInt32
  prog : UInt32
  vers : UInt32
  proc : UInt32
  deriving DecidableEq, Repr

/-- Outcome of parsing a call header. A successful one leaves the reader at the
procedure's arguments. -/
inductive HeaderOutcome where
  | call (header : CallHeader) (args : Reader)
  | badRpcvers (xid : UInt32)
  | malformed

/-- The part of the header after `rpcvers`. -/
def readCallBody (xid : UInt32) (r : Reader) : Option (CallHeader × Reader) := do
  let (prog, r) ← r.readU32
  let (vers, r) ← r.readU32
  let (proc, r) ← r.readU32
  let r ← r.skipOpaqueAuth
  let r ← r.skipOpaqueAuth
  pure (⟨xid, prog, vers, proc⟩, r)

def readCallHeader (r : Reader) : HeaderOutcome :=
  match r.readU32 with
  | none => .malformed
  | some (xid, r) =>
    match r.readU32 with
    | none => .malformed
    | some (mtype, r) =>
      if mtype ≠ 0 then .malformed
      else match r.readU32 with
        | none => .malformed
        | some (rpcvers, r) =>
          if rpcvers ≠ 2 then .badRpcvers xid
          else match readCallBody xid r with
            | none => .malformed
            | some (header, args) => .call header args

theorem readCallBody_extend {xid : UInt32} {r r' args : Reader} {x : Bytes} {header : CallHeader}
    (hrest : r'.rest = r.rest ++ x) (h : readCallBody xid r = some (header, args)) :
    ∃ args', readCallBody xid r' = some (header, args') ∧ args'.rest = args.rest ++ x := by
  obtain ⟨⟨prog, ra⟩, hprog, h⟩ := Option.bind_eq_some_iff.mp h
  obtain ⟨⟨vers, rb⟩, hvers, h⟩ := Option.bind_eq_some_iff.mp h
  obtain ⟨⟨proc, rc⟩, hproc, h⟩ := Option.bind_eq_some_iff.mp h
  obtain ⟨rd, hcred, h⟩ := Option.bind_eq_some_iff.mp h
  obtain ⟨re, hverf, h⟩ := Option.bind_eq_some_iff.mp h
  cases h
  obtain ⟨ra', hprog', hra⟩ := Reader.local_readU32 hrest hprog
  obtain ⟨rb', hvers', hrb⟩ := Reader.local_readU32 hra hvers
  obtain ⟨rc', hproc', hrc⟩ := Reader.local_readU32 hrb hproc
  obtain ⟨rd', hcred', hrd⟩ := Reader.skipOpaqueAuth_extend hrc hcred
  obtain ⟨re', hverf', hre⟩ := Reader.skipOpaqueAuth_extend hrd hverf
  exact ⟨re', by simp [readCallBody, hprog', hvers', hproc', hcred', hverf'], hre⟩

/-- Arguments that follow a call header do not disturb its parsing. -/
theorem readCallHeader_extend {r r' args : Reader} {x : Bytes} {header : CallHeader}
    (hrest : r'.rest = r.rest ++ x) (h : readCallHeader r = .call header args) :
    ∃ args', readCallHeader r' = .call header args' ∧ args'.rest = args.rest ++ x := by
  unfold readCallHeader at h
  rcases hxid : r.readU32 with _ | ⟨xid, ra⟩ <;> simp only [hxid] at h
  · cases h
  rcases hmtype : ra.readU32 with _ | ⟨mtype, rb⟩ <;> simp only [hmtype] at h
  · cases h
  by_cases hcall : mtype ≠ 0
  · simp [hcall] at h
  rcases hrpcvers : rb.readU32 with _ | ⟨rpcvers, rc⟩ <;>
    simp only [if_neg hcall, hrpcvers] at h
  · cases h
  by_cases htwo : rpcvers ≠ 2
  · simp [htwo] at h
  rcases hbody : readCallBody xid rc with _ | ⟨header', args₁⟩ <;>
    simp only [if_neg htwo, hbody] at h
  · cases h
  cases h
  obtain ⟨ra', hxid', hra⟩ := Reader.local_readU32 hrest hxid
  obtain ⟨rb', hmtype', hrb⟩ := Reader.local_readU32 hra hmtype
  obtain ⟨rc', hrpcvers', hrc⟩ := Reader.local_readU32 hrb hrpcvers
  obtain ⟨args', hbody', hargs⟩ := readCallBody_extend hrc hbody
  refine ⟨args', ?_, hargs⟩
  simp only [readCallHeader, hxid', hmtype', hrpcvers', hbody', if_neg hcall, if_neg htwo]

/-! ## Replies -/

namespace AcceptStat
def success : UInt32 := 0
def progUnavail : UInt32 := 1
def progMismatch : UInt32 := 2
def procUnavail : UInt32 := 3
def garbageArgs : UInt32 := 4
end AcceptStat

def rpcMismatchReply (xid : UInt32) : Bytes :=
  (((((Writer.new.writeU32 xid).writeU32 1).writeU32 1).writeU32 0).writeU32 2).writeU32 2
    |>.intoBytes

/-- An accepted reply header with an `AUTH_NONE` verifier. -/
def writeReplyHeader (w : Writer) (xid stat : UInt32) : Writer :=
  (((((w.writeU32 xid).writeU32 1).writeU32 0).writeU32 0).writeU32 0).writeU32 stat

def writeProgMismatchBody (w : Writer) (low high : UInt32) : Writer :=
  (w.writeU32 low).writeU32 high

/-- Result of routing one call to a program's procedure table. -/
inductive ProcOutcome where
  | success (body : Writer)
  | procUnavail
  | garbageArgs
  deriving DecidableEq, Repr

def buildReply (xid : UInt32) : ProcOutcome → Bytes
  | .success body =>
    ((writeReplyHeader .new xid AcceptStat.success).extendFrom body).intoBytes
  | .procUnavail => (writeReplyHeader .new xid AcceptStat.procUnavail).intoBytes
  | .garbageArgs => (writeReplyHeader .new xid AcceptStat.garbageArgs).intoBytes

/-- The accepted-reply header with nothing after it. -/
def replyHeader (xid stat : UInt32) : Bytes := (writeReplyHeader .new xid stat).intoBytes

def ProcOutcome.stat : ProcOutcome → UInt32
  | .success _ => AcceptStat.success
  | .procUnavail => AcceptStat.procUnavail
  | .garbageArgs => AcceptStat.garbageArgs

def ProcOutcome.payload : ProcOutcome → Bytes
  | .success body => body.buf
  | _ => []

theorem buildReply_eq (xid : UInt32) (outcome : ProcOutcome) :
    buildReply xid outcome = replyHeader xid outcome.stat ++ outcome.payload := by
  cases outcome with
  | success body => rfl
  | procUnavail => exact (List.append_nil _).symm
  | garbageArgs => exact (List.append_nil _).symm

@[simp] theorem length_replyHeader (xid stat : UInt32) : (replyHeader xid stat).length = 24 := by
  simp [replyHeader, writeReplyHeader, Writer.intoBytes]

/-- A reply header determines its fields. -/
theorem replyHeader_inj {xid xid' stat stat' : UInt32}
    (h : replyHeader xid stat = replyHeader xid' stat') : xid = xid' ∧ stat = stat' := by
  simp only [replyHeader, writeReplyHeader, Writer.intoBytes, Writer.buf_writeU32, Writer.buf_new,
    List.nil_append, List.append_assoc] at h
  obtain ⟨hxid, h⟩ := List.append_inj h (by simp)
  obtain ⟨-, h⟩ := List.append_inj h (by simp)
  obtain ⟨-, h⟩ := List.append_inj h (by simp)
  obtain ⟨-, h⟩ := List.append_inj h (by simp)
  obtain ⟨-, hstat⟩ := List.append_inj h (by simp)
  exact ⟨beU32_injective hxid, beU32_injective hstat⟩

def progUnavailReply (xid : UInt32) : Bytes :=
  (writeReplyHeader .new xid AcceptStat.progUnavail).intoBytes

/-- For a program that only speaks version 3. -/
def progMismatchReply (xid : UInt32) : Bytes :=
  (writeProgMismatchBody (writeReplyHeader .new xid AcceptStat.progMismatch) 3 3).intoBytes

end Anymount.Nfs
