import Anymount.MemFs
import Anymount.Nfs.Refinement
import Anymount.Nfs.Server

/-!
# One call and its reply

How a client of the NFS program sees the server: a message that parses as a call, and the
result inside an accepted reply.
-/
namespace Anymount.Nfs

open Library Library.Xdr Library.Prog Rfc1813 NfsProto

/-- The message calls a procedure of the NFS program, version 3. -/
def NfsCall (body : Bytes) (xid proc : UInt32) (args : Reader) : Prop :=
  readCallHeader (.new body) = .call ⟨xid, nfsProg, 3, proc⟩ args

/-- The message asks for `req`. -/
def Asks (body : Bytes) (xid : UInt32) (req : Request Bytes) : Prop :=
  ∃ proc args, NfsCall body xid proc args ∧ decodeRequest proc args = .call req

/-! ## Writing calls -/

/-- A call with empty credentials. -/
def callTo (header : CallHeader) (args : Bytes) : Bytes :=
  beU32 header.xid ++ (beU32 0 ++ (beU32 2 ++ (beU32 header.prog ++ (beU32 header.vers ++
    (beU32 header.proc ++ (beU32 0 ++ (beU32 0 ++ (beU32 0 ++ (beU32 0 ++ args)))))))))

/-- A call of the NFS program. -/
def callMessage (xid proc : UInt32) (args : Bytes) : Bytes :=
  callTo ⟨xid, nfsProg, 3, proc⟩ args

theorem skipOpaqueAuth_of_rest {r : Reader} {b : Bytes} (h : r.rest = beU32 0 ++ (beU32 0 ++ b)) :
    ∃ r', r.skipOpaqueAuth = some r' ∧ r'.rest = b := by
  obtain ⟨r₁, hflavor, h₁⟩ := Reader.readU32_of_rest h
  obtain ⟨r₂, hlen, h₂⟩ := Reader.readU32_of_rest h₁
  obtain ⟨r₃, hskip, h₃⟩ := Reader.take_of_rest (a := []) h₂
  obtain ⟨r₄, hpad, h₄⟩ := Reader.take_of_rest (a := []) h₃
  simp only [List.length_nil] at hskip hpad
  have hzero : Reader.padLen 0 = 0 := rfl
  exact ⟨r₄, by simp [Reader.skipOpaqueAuth, Reader.skip, hflavor, hlen, hskip, hzero, hpad], h₄⟩

/-- The message is parsed as the call it was written for. -/
theorem readCallHeader_callTo (header : CallHeader) (args : Bytes) :
    ∃ r, readCallHeader (.new (callTo header args)) = .call header r ∧ r.rest = args := by
  obtain ⟨r₁, h₁, hr₁⟩ := Reader.readU32_of_rest (Reader.rest_new (callTo header args))
  obtain ⟨r₂, h₂, hr₂⟩ := Reader.readU32_of_rest hr₁
  obtain ⟨r₃, h₃, hr₃⟩ := Reader.readU32_of_rest hr₂
  obtain ⟨r₄, h₄, hr₄⟩ := Reader.readU32_of_rest hr₃
  obtain ⟨r₅, h₅, hr₅⟩ := Reader.readU32_of_rest hr₄
  obtain ⟨r₆, h₆, hr₆⟩ := Reader.readU32_of_rest hr₅
  obtain ⟨r₇, h₇, hr₇⟩ := skipOpaqueAuth_of_rest hr₆
  obtain ⟨r₈, h₈, hr₈⟩ := skipOpaqueAuth_of_rest hr₇
  exact ⟨r₈, by simp [readCallHeader, readCallBody, h₁, h₂, h₃, h₄, h₅, h₆, h₇, h₈], hr₈⟩

theorem nfsCall_callMessage (xid proc : UInt32) (args : Bytes) :
    ∃ r, NfsCall (callMessage xid proc args) xid proc r ∧ r.rest = args :=
  readCallHeader_callTo ⟨xid, nfsProg, 3, proc⟩ args

/-- A `READ3` call. -/
def readMessage3 (xid : UInt32) (fh : Bytes) (offset : UInt64) (count : UInt32) : Bytes :=
  callMessage xid 6 (encodeOpaque fh ++ (beU64 offset ++ (beU32 count ++ [])))

theorem asks_readMessage3 (xid : UInt32) {fh : Bytes} (hfh : fh.length ≤ (64 : UInt32).toNat)
    (offset : UInt64) (count : UInt32) :
    Asks (readMessage3 xid fh offset count) xid (.read fh offset count) := by
  obtain ⟨r, hcall, hr⟩ := nfsCall_callMessage xid 6
    (encodeOpaque fh ++ (beU64 offset ++ (beU32 count ++ [])))
  obtain ⟨r₁, h₁, hr₁⟩ := Reader.readOpaqueVar_of_rest hfh hr
  obtain ⟨r₂, h₂, hr₂⟩ := Reader.readU64_of_rest hr₁
  obtain ⟨r₃, h₃, -⟩ := Reader.readU32_of_rest hr₂
  exact ⟨6, r, hcall, by simp [decodeRequest, withHandle, readArgs, Request.map, h₁, h₂, h₃]⟩

/-- A `READDIR3` or `READDIRPLUS3` call; `dircount` repeats the budget. -/
def readdirMessage (xid : UInt32) (plus : Bool) (fh : Bytes) (cookie : UInt64) (budget : UInt32) :
    Bytes :=
  callMessage xid (if plus then 17 else 16) (encodeOpaque fh ++ (beU64 cookie ++ (cookieverfBytes ++
    (if plus then beU32 budget ++ (beU32 budget ++ []) else beU32 budget ++ []))))

theorem asks_readdirMessage (xid : UInt32) (plus : Bool) {fh : Bytes}
    (hfh : fh.length ≤ (64 : UInt32).toNat) (cookie : UInt64) (budget : UInt32) :
    Asks (readdirMessage xid plus fh cookie budget) xid (.readdir plus fh cookie budget) := by
  obtain ⟨r, hcall, hr⟩ := nfsCall_callMessage xid (if plus then 17 else 16)
    (encodeOpaque fh ++ (beU64 cookie ++ (cookieverfBytes ++
      (if plus then beU32 budget ++ (beU32 budget ++ []) else beU32 budget ++ []))))
  obtain ⟨r₁, h₁, hr₁⟩ := Reader.readOpaqueVar_of_rest hfh hr
  obtain ⟨r₂, h₂, hr₂⟩ := Reader.readU64_of_rest hr₁
  obtain ⟨r₃, h₃, hr₃⟩ := Reader.take_of_rest hr₂
  have h₃ : r₂.readOpaqueFixed 8 = some (cookieverfBytes, r₃) := h₃
  cases plus with
  | false =>
    obtain ⟨r₄, h₄, -⟩ := Reader.readU32_of_rest hr₃
    refine ⟨16, r, hcall, ?_⟩
    simp [decodeRequest, withHandle, readdirArgs, readBudget, Request.map, h₁, h₂, h₃, h₄]
  | true =>
    obtain ⟨r₄, h₄, hr₄⟩ := Reader.readU32_of_rest hr₃
    obtain ⟨r₅, h₅, -⟩ := Reader.readU32_of_rest hr₄
    refine ⟨17, r, hcall, ?_⟩
    simp [decodeRequest, withHandle, readdirArgs, readBudget, Request.map, h₁, h₂, h₃, h₄, h₅]

/-! ## Reading replies -/

/-- What follows the header of an accepted reply with status `SUCCESS`. -/
def acceptedPayload (xid : UInt32) (reply : Bytes) : Option Bytes :=
  if (replyHeader xid AcceptStat.success).isPrefixOf reply then some (reply.drop 24) else none

theorem acceptedPayload_buildReply (xid : UInt32) (outcome : ProcOutcome) :
    acceptedPayload xid (buildReply xid outcome) =
      match outcome with
      | .success body => some body.buf
      | _ => none := by
  have hdrop : ∀ stat payload, (replyHeader xid stat ++ payload).drop 24 = payload := by
    intro stat payload
    rw [← length_replyHeader xid stat, List.drop_left]
  have hother : ∀ stat, stat ≠ AcceptStat.success →
      ¬ (replyHeader xid AcceptStat.success).isPrefixOf (replyHeader xid stat ++ []) := by
    intro stat hstat h
    rw [List.append_nil, List.isPrefixOf_iff_prefix] at h
    exact hstat (replyHeader_inj (h.eq_of_length (by simp))).2.symm
  rw [buildReply_eq, acceptedPayload, hdrop]
  cases outcome with
  | success body => simp [ProcOutcome.stat, ProcOutcome.payload]
  | procUnavail => exact if_neg (hother _ (by decide))
  | garbageArgs => exact if_neg (hother _ (by decide))

/-- The result a client decodes from a reply. -/
def clientResult (t : Ty) (xid : UInt32) (reply : Option Bytes) : Option (t.Value Bytes) :=
  match reply.bind (acceptedPayload xid) with
  | none => none
  | some payload =>
    match (t.decode fhsize).run payload with
    | some (v, []) => some v
    | _ => none

section Handle

variable (o : Overflow) (fuel : Nat) (handle : FileHandle3) (config : Config)

theorem handleMessage_of_nfsCall {body : Bytes} {xid proc : UInt32} {args : Reader}
    (h : NfsCall body xid proc args) :
    handleMessage o fuel handle config body =
      (answer o fuel ⟨handle, 1⟩ (decodeRequest proc args)).inl >>= fun outcome =>
        ret (some (buildReply xid outcome)) := by
  have hprog : nfsProg ≠ mountProg := by decide
  rw [handleMessage, h]
  simp only [replyTo, replyNfs, if_neg hprog, if_true, Prog.bind_assoc, ← dispatch_eq]
  rfl

theorem length_encode_le_fhsize (ino : Ino) : (handle.encode ino).length ≤ fhsize.toNat := by
  rw [FileHandle3.length_encode]
  decide

/-- A client decodes exactly the value that was served, its inodes as handles. -/
theorem clientResult_render (xid : UInt32) (req : Request Bytes) (v : req.ty.Value Ino) :
    clientResult req.ty xid (some (buildReply xid (render ⟨handle, 1⟩ req v))) =
      some (req.ty.map handle.encode v) := by
  have hdecode := (yields_decode (length_encode_le_fhsize handle) req.ty v).run_eq
  simp only [clientResult, Option.bind_some, acceptedPayload_buildReply, render, hdecode]

/-- Handling a request whose handle resolves: serve it, render the value, send the reply. -/
theorem handleMessage_of_asks {body : Bytes} {xid : UInt32} {req : Request Bytes} {ino : Ino}
    (h : Asks body xid req) (hino : req.handle?.bind handle.resolve = some ino) :
    handleMessage o fuel handle config body = (serveAt 1 o fuel ino req).inl >>= fun v =>
      ret (some (buildReply xid (render ⟨handle, 1⟩ req v))) := by
  obtain ⟨proc, args, hcall, hreq⟩ := h
  rw [handleMessage_of_nfsCall o fuel handle config hcall, hreq, answer_call, hino]
  simp only [inl_bind, Prog.bind_assoc]
  rfl

/-- Handling a listing call, in the source's own steps. -/
theorem handleMessage_of_readdir {body fh : Bytes} {xid : UInt32} {plus : Bool} {cookie : UInt64}
    {budget : UInt32} {dir : Ino} (h : Asks body xid (.readdir plus fh cookie budget))
    (hfh : handle.resolve fh = some dir) :
    handleMessage o fuel handle config body =
      (readdirAt o fuel ⟨handle, 1⟩ plus dir cookie budget).inl >>= fun outcome =>
        ret (some (buildReply xid outcome)) := by
  rw [handleMessage_of_asks o fuel handle config h hfh, readdirAt_eq o fuel ⟨handle, 1⟩ plus dir fh]
  simp only [inl_bind, Prog.bind_assoc]
  rfl

end Handle

/-- The example filesystem behind a server whose flag is constant. -/
def memServer : Handler ServerSig (MemFs.State × Bool) :=
  (MemFs.new 0 0).handler.sum fun _ f => (f, f)

end Anymount.Nfs
