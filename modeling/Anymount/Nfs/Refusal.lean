import Anymount.Nfs.Connection
import Anymount.Nfs.Envelope

/-!
# Refusing to mutate

The server refuses every procedure that would change something, in that procedure's failure
layout and without a trait call. A call gets its refusal only if it gets past the framing:
a fragment over the cap ends the connection instead, although `FSINFO3` announces larger
writes.
-/
namespace Anymount.Nfs

open Library Library.ChunkStream Library.Xdr Library.Prog Rfc1813 NfsProto

/-- The procedure number of a refused procedure. -/
def Refused.number (proc : Refused) : UInt32 :=
  UInt32.ofNat (Request.refused (H := Bytes) proc).proc

/-- A call of a refused procedure. -/
def refusedCall (proc : Refused) (xid : UInt32) (cred verf : OpaqueAuth) (args : Bytes) : Bytes :=
  callBytes ⟨xid, nfsProg, 3, proc.number⟩ cred verf args

/-- The arguments of `WRITE3`. -/
def writeArgs (fh : Bytes) (offset : UInt64) (stable : UInt32) (data : Bytes) : Bytes :=
  encodeOpaque fh ++ (beU64 offset ++ (beU32 (UInt32.ofNat data.length) ++ (beU32 stable ++
    encodeOpaque data)))

/-! ## Frames over the cap -/

/-- A frame over the cap is an error once its mark has been read. -/
theorem readMessage_oversize {s : Incoming} (hs : s.Proper) {body rest : Bytes}
    (hbody : maxFragmentLen.toNat < body.length) (hlt : body.length < 2 ^ 31)
    (hcontents : s.contents = frame body ++ rest)
    (hquiet : ∀ k ∈ s.failOffsets, (frame body).length ≤ k) :
    ∃ e s', readMessage s = (.error e, s') ∧ isTimeout e = false := by
  have hlen : (UInt32.ofNat body.length).toNat = body.length :=
    UInt32.toNat_ofNat_of_lt' (show _ < 2 ^ 32 by omega)
  have hsmall : UInt32.ofNat body.length < lastFragmentBit := by
    rw [UInt32.lt_iff_toNat_lt, hlen]
    exact hlt
  have hmax : UInt32.ofNat body.length > maxFragmentLen := by
    rw [gt_iff_lt, UInt32.lt_iff_toNat_lt, hlen]
    exact hbody
  rw [frame, List.append_assoc] at hcontents
  rw [length_frame] at hquiet
  obtain ⟨hdr, stop, s₁, hfills, hmark⟩ := readExactOrEof_eq 4 hs
  obtain ⟨rfl, rfl, -⟩ := hfills.full_of_quiet (by rw [hcontents]; simp [recordMark])
    (fun k hk => by have := hquiet k hk; omega)
  have hdr_eq : s.contents.take 4 = recordMark body := by
    rw [hcontents, List.take_left' (by simp [recordMark])]
  rw [hdr_eq] at hmark
  simp only [readMessage, hmark, orEofResult, recordMark, ofNat_beNat_beU32,
    mark_and_not_lastFragmentBit hsmall, if_pos hmax]
  rw [if_neg (not_not.mpr (mark_and_lastFragmentBit _))]
  exact ⟨_, _, rfl, rfl⟩

/-! ## One pass of the loop -/

section Serve

variable {σ : Type} (o : Overflow) (fuel : Nat) (handle : FileHandle3) (config : Config)

theorem decodeRequest_refused (proc : Refused) (r : Reader) :
    decodeRequest proc.number r = .call (.refused proc) := by
  cases proc <;> rfl

/-- A refused call is answered at once. -/
theorem handleMessage_refusedCall (proc : Refused) (xid : UInt32) (cred verf : OpaqueAuth)
    (args : Bytes) :
    handleMessage o fuel handle config (refusedCall proc xid cred verf args) =
      ret (some (buildReply xid (render ⟨handle, 1⟩ (.refused proc) proc.answer))) := by
  obtain ⟨r, hcall, -⟩ :=
    readCallHeader_callBytes ⟨xid, nfsProg, 3, proc.number⟩ cred verf args
  rw [refusedCall, handleMessage_of_nfsCall o fuel handle config
    (show NfsCall _ xid proc.number r from hcall), decodeRequest_refused, answer_call]
  rfl

/-- The client reads a failure in the layout of the procedure. -/
theorem refused_answer (proc : Refused) :
    ∃ status rest, (proc.answer : (result proc.resok proc.resfail).Value Ino) =
        .inr (status, rest) ∧ (status = FailStatus.rofs ∨ status = FailStatus.notsupp) := by
  cases proc with
  | readlink | symlink => exact ⟨_, _, rfl, .inr rfl⟩
  | _ => exact ⟨_, _, rfl, .inl rfl⟩

variable (env : Handler ServerSig σ) (stop writeFails : Nat → Bool)

/-- The pass answered the call `body` with a refusal: a framed, accepted reply to its
transaction whose result is `NFS3ERR_ROFS` or `NFS3ERR_NOTSUPP` in the failure layout of the
procedure. No trait call was made, and the loop goes on with what follows the frame. -/
structure AnswersRefusal (proc : Refused) (xid : UInt32) (body rest : Bytes) (w : Worker σ)
    (after : Worker σ × Bool) : Prop where
  reply : ∃ reply status attrs, after.1.output = w.output ++ frame reply ∧
    clientResult (result proc.resok proc.resfail) xid (some reply) = some (.inr (status, attrs)) ∧
    (status.val = nfs3errRofs ∨ status.val = nfs3errNotsupp)
  silent : (handleMessage o fuel handle config body).calls env w.env = []
  same : after.1.env = w.env
  open_ : after.2 = true
  next : after.1.input.contents = rest

/-- A read that fails otherwise than by a timeout ends the loop. -/
theorem servePass_error {n : Nat} {w : Worker σ} (hstop : stop n = false) {e : IoError}
    {s' : Incoming} (hread : readMessage w.input = (.error e, s')) (he : isTimeout e = false) :
    servePass o fuel handle config env stop writeFails n w = ({ w with input := s' }, false) := by
  simp only [servePass, hstop, hread, he, Bool.false_eq_true, if_false]

/-- What becomes of a message that is answered at once with a refusal. -/
theorem answersRefusal_iff {proc : Refused} {xid : UInt32} {body rest : Bytes}
    (hmessage : handleMessage o fuel handle config body =
      ret (some (buildReply xid (render ⟨handle, 1⟩ (.refused proc) proc.answer))))
    {n : Nat} {w : Worker σ} (hstop : stop n = false) (hwrite : writeFails n = false)
    (hfragment : body.length < 2 ^ 31) (hproper : w.input.Proper) (htimeouts : OnlyTimeouts w.input)
    (hcontents : w.input.contents = frame body ++ rest)
    (hquiet : ∀ k ∈ w.input.failOffsets, (frame body).length ≤ k) :
    AnswersRefusal o fuel handle config env proc xid body rest w
        (servePass o fuel handle config env stop writeFails n w) ↔
      body.length ≤ maxFragmentLen.toNat := by
  refine ⟨fun h => ?_, fun hle => ?_⟩
  · -- Over the cap, the pass would have left the loop.
    by_contra hover
    obtain ⟨e, s', hread, he⟩ :=
      readMessage_oversize hproper (not_le.mp hover) hfragment hcontents hquiet
    have hopen := h.open_
    rw [servePass_error o fuel handle config env stop writeFails hstop hread he] at hopen
    cases hopen
  · obtain ⟨s', hread, htakes⟩ := readMessage_frame hproper htimeouts hle hcontents hquiet
    have hpass : servePass o fuel handle config env stop writeFails n w =
        (⟨s', w.env, w.handled ++ [body], w.output ++ frame
          (buildReply xid (render ⟨handle, 1⟩ (.refused proc) proc.answer))⟩, true) := by
      simp only [servePass, hstop, hread, hmessage, run, hwrite, Bool.false_eq_true, if_false]
    have hclient := clientResult_render handle xid (.refused proc) proc.answer
    obtain ⟨status, attrs, hanswer, hstatus⟩ := refused_answer proc
    rw [hanswer] at hclient
    rw [hpass]
    refine ⟨⟨_, status, proc.resfail.map handle.encode attrs, rfl, ?_, ?_⟩, ?_, rfl, rfl, ?_⟩
    · rw [hanswer]
      exact hclient
    · rcases hstatus with rfl | rfl
      · exact .inl rfl
      · exact .inr rfl
    · rw [hmessage, calls]
    · exact List.append_cancel_left (htakes.contents.symm.trans hcontents)

/-- A mutating call whose frame arrives undisturbed is refused and the connection stays open
if and only if its body is within the fragment cap. -/
theorem mutating_call_refused_iff (proc : Refused) (xid : UInt32) (cred verf : OpaqueAuth)
    (args rest : Bytes) {n : Nat} {w : Worker σ} (hstop : stop n = false)
    (hwrite : writeFails n = false)
    (hfragment : (refusedCall proc xid cred verf args).length < 2 ^ 31) (hproper : w.input.Proper)
    (htimeouts : OnlyTimeouts w.input)
    (hcontents : w.input.contents = frame (refusedCall proc xid cred verf args) ++ rest)
    (hquiet : ∀ k ∈ w.input.failOffsets, (frame (refusedCall proc xid cred verf args)).length ≤ k) :
    AnswersRefusal o fuel handle config env proc xid (refusedCall proc xid cred verf args) rest w
        (servePass o fuel handle config env stop writeFails n w) ↔
      (refusedCall proc xid cred verf args).length ≤ maxFragmentLen.toNat :=
  answersRefusal_iff o fuel handle config env stop writeFails
    (handleMessage_refusedCall o fuel handle config proc xid cred verf args) hstop hwrite hfragment
    hproper htimeouts hcontents hquiet

end Serve

/-! ### A write of each size -/

/-- A worker whose peer has sent one frame and nothing else. -/
def awaiting (body : Bytes) : Worker (MemFs.State × Bool) :=
  ⟨[.data (frame body)], (.new, false), [], []⟩

theorem awaiting_proper (body : Bytes) : (awaiting body).input.Proper := by
  intro chunk hchunk
  obtain rfl : chunk = frame body := by simpa [awaiting] using hchunk
  rw [← List.length_pos_iff, length_frame]
  omega

theorem awaiting_contents (body : Bytes) : (awaiting body).input.contents = frame body ++ [] := rfl

theorem awaiting_timeouts (body : Bytes) : OnlyTimeouts (awaiting body).input := by
  simp [awaiting, OnlyTimeouts]

theorem awaiting_quiet (body : Bytes) :
    ∀ k ∈ (awaiting body).input.failOffsets, (frame body).length ≤ k := by
  simp [awaiting, failOffsets]

/-- `WRITE3` of `data` to the root. -/
def writeCall (data : Bytes) : Bytes :=
  refusedCall .write 7 .none .none
    (writeArgs (FileHandle3.encode ⟨List.replicate 16 0, length_zeroSecret⟩ rootIno) 0 0 data)

theorem length_writeCall (data : Bytes) :
    (writeCall data).length = 84 + (encodeOpaque data).length := by
  have hfh : ∀ handle : FileHandle3, (encodeOpaque (handle.encode rootIno)).length = 28 := by
    simp [encodeOpaque, encodeFixed, padding]
  simp only [writeCall, refusedCall, callBytes, writeArgs, OpaqueAuth.bytes, OpaqueAuth.none,
    List.length_append, List.length_nil, length_beU32, length_beU64, hfh]
  omega

/-- One pass over a write that is there in full. -/
def writePass (data : Bytes) : Worker (MemFs.State × Bool) × Bool :=
  servePass .wraps 0 ⟨List.replicate 16 0, length_zeroSecret⟩ localConfig memServer
    (fun _ => false) (fun _ => false) 0 (awaiting (writeCall data))

/-- The write is refused as it should be. -/
def WriteRefused (data : Bytes) : Prop :=
  AnswersRefusal .wraps 0 ⟨List.replicate 16 0, length_zeroSecret⟩ localConfig memServer .write 7
    (writeCall data) [] (awaiting (writeCall data)) (writePass data)

theorem mutating_call_refused_iff_five_bytes : WriteRefused [1, 2, 3, 4, 5] := by
  have hlen : (writeCall [1, 2, 3, 4, 5]).length = 96 := by
    rw [length_writeCall]
    rfl
  refine (mutating_call_refused_iff .wraps 0 ⟨List.replicate 16 0, rfl⟩ localConfig memServer
    (fun _ => false) (fun _ => false) .write 7 .none .none
    (writeArgs (FileHandle3.encode ⟨List.replicate 16 0, rfl⟩ rootIno) 0 0 [1, 2, 3, 4, 5]) []
    rfl rfl ?_ (awaiting_proper _) (awaiting_timeouts _) (awaiting_contents _)
    (awaiting_quiet _)).mpr ?_
  · exact hlen.trans_lt (by norm_num)
  · exact hlen.trans_le (by decide)

/-- A write over the fragment cap ends the connection without a reply. -/
theorem writePass_of_large {data : Bytes}
    (hover : maxFragmentLen.toNat < (writeCall data).length)
    (hfragment : (writeCall data).length < 2 ^ 31) :
    (writePass data).2 = false ∧ (writePass data).1.output = [] := by
  obtain ⟨e, s', hread, he⟩ := readMessage_oversize (awaiting_proper _) hover hfragment
    (awaiting_contents _) (awaiting_quiet _)
  have hpass : writePass data = ({ awaiting (writeCall data) with input := s' }, false) :=
    servePass_error _ _ _ _ _ _ _ rfl hread he
  rw [hpass]
  exact ⟨rfl, rfl⟩

/-- A write within the announced `wtmax` but over the fragment cap is not refused: the
connection is closed. -/
theorem large_write_drops_connection :
    (List.replicate 262144 (0 : UInt8)).length ≤ rtmax.toNat ∧
      (writePass (List.replicate 262144 0)).2 = false ∧
      (writePass (List.replicate 262144 0)).1.output = [] ∧
      ¬ WriteRefused (List.replicate 262144 0) := by
  have hlen : (writeCall (List.replicate 262144 0)).length = 262232 := by
    rw [length_writeCall, encodeOpaque, encodeFixed, padding, List.length_append,
      List.length_append, List.length_replicate, List.length_replicate, length_beU32]
  have hover : maxFragmentLen.toNat < (writeCall (List.replicate 262144 0)).length :=
    hlen ▸ by decide
  have hfragment : (writeCall (List.replicate 262144 0)).length < 2 ^ 31 := hlen ▸ by norm_num
  obtain ⟨hclosed, hsilent⟩ := writePass_of_large hover hfragment
  refine ⟨by rw [List.length_replicate]; decide, hclosed, hsilent, fun h => ?_⟩
  exact Bool.false_ne_true (hclosed.symm.trans h.open_)

end Anymount.Nfs
