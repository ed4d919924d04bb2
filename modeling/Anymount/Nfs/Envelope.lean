import Anymount.Nfs.Exchange

/-!
# Call headers and credentials

Exactly which byte strings `read_call_header` accepts, and that nothing after it depends on
the credentials: what a message is answered with is determined by its four header fields and
the bytes after the verifier.
-/
namespace Anymount.Nfs

open Library Library.Xdr Library.Prog Rfc1813 NfsProto

/-! ## Headers as bytes -/

/-- An `opaque_auth` on the wire: a flavor, a body of at most 400 bytes with its length, and
whatever fills up the last word. -/
structure OpaqueAuth where
  flavor : UInt32
  body : Bytes
  fill : Bytes
  length_body : body.length ≤ 400
  length_fill : fill.length = (4 - body.length % 4) % 4

def OpaqueAuth.bytes (a : OpaqueAuth) : Bytes :=
  beU32 a.flavor ++ (beU32 (.ofNat a.body.length) ++ (a.body ++ a.fill))

/-- `AUTH_NONE`. -/
def OpaqueAuth.none : OpaqueAuth := ⟨0, [], [], by decide, rfl⟩

/-- A call with its credential, its verifier and the procedure's arguments. -/
def callBytes (header : CallHeader) (cred verf : OpaqueAuth) (args : Bytes) : Bytes :=
  beU32 header.xid ++ (beU32 0 ++ (beU32 2 ++ (beU32 header.prog ++ (beU32 header.vers ++
    (beU32 header.proc ++ (cred.bytes ++ (verf.bytes ++ args)))))))

/-- The first three words of a call in another version of RPC. -/
def otherRpcvers (xid vers : UInt32) (rest : Bytes) : Bytes :=
  beU32 xid ++ (beU32 0 ++ (beU32 vers ++ rest))

namespace Reader

theorem rest_of_take {r r' : Reader} {n : Nat} {v : Bytes} (h : r.take n = some (v, r')) :
    v.length = n ∧ r.rest = v ++ r'.rest := by
  rcases r.take_eq n with ⟨hle, r₁, htake, hrest⟩ | ⟨-, hnone⟩
  · cases htake.symm.trans h
    exact ⟨List.length_take_of_le hle, by rw [hrest, List.take_append_drop]⟩
  · cases hnone.symm.trans h

theorem rest_of_readU32 {r r' : Reader} {v : UInt32} (h : r.readU32 = some (v, r')) :
    r.rest = beU32 v ++ r'.rest := by
  obtain ⟨⟨b, _⟩, htake, hv⟩ := Option.bind_eq_some_iff.mp h
  cases hv
  obtain ⟨hlen, hrest⟩ := rest_of_take htake
  rw [beU32_ofNat_beNat hlen, hrest]

theorem rest_of_skip {r r' : Reader} {n : Nat} (h : r.skip n = some r') :
    ∃ v : Bytes, v.length = n ∧ r.rest = v ++ r'.rest := by
  obtain ⟨⟨v, _⟩, htake, rfl⟩ := Option.map_eq_some_iff.mp h
  exact ⟨v, rest_of_take htake⟩

/-- What `skip_opaque_auth` skips is an `opaque_auth`. -/
theorem rest_of_skipOpaqueAuth {r r' : Reader} (h : r.skipOpaqueAuth = some r') :
    ∃ a : OpaqueAuth, r.rest = a.bytes ++ r'.rest := by
  obtain ⟨⟨flavor, r₁⟩, hflavor, h⟩ := Option.bind_eq_some_iff.mp h
  obtain ⟨⟨len, r₂⟩, hlen, h⟩ := Option.bind_eq_some_iff.mp h
  by_cases hmax : len > 400
  · simp [hmax] at h
  simp only [hmax, if_false] at h
  obtain ⟨r₃, hbody, h⟩ := Option.bind_eq_some_iff.mp h
  obtain ⟨body, hbody_len, hrest₂⟩ := rest_of_skip hbody
  obtain ⟨fill, hfill_len, hrest₃⟩ := rest_of_skip h
  have hle : len.toNat ≤ 400 := UInt32.le_iff_toNat_le.mp (UInt32.not_lt.mp hmax)
  refine ⟨⟨flavor, body, fill, by omega, by rw [hfill_len, toNat_padLen, hbody_len]⟩, ?_⟩
  have hword : UInt32.ofNat body.length = len := by rw [hbody_len, UInt32.ofNat_toNat]
  rw [rest_of_readU32 hflavor, rest_of_readU32 hlen, hrest₂, hrest₃]
  simp only [OpaqueAuth.bytes, hword, List.append_assoc]

/-- And every `opaque_auth` is skipped. -/
theorem skipOpaqueAuth_of_bytes {r : Reader} {a : OpaqueAuth} {b : Bytes}
    (h : r.rest = a.bytes ++ b) : ∃ r', r.skipOpaqueAuth = some r' ∧ r'.rest = b := by
  have hlen := a.length_body
  have hnat : (UInt32.ofNat a.body.length).toNat = a.body.length :=
    UInt32.toNat_ofNat_of_lt' (lt_of_le_of_lt hlen (by decide))
  have hmax : ¬ UInt32.ofNat a.body.length > 400 := by
    rw [gt_iff_lt, UInt32.lt_iff_toNat_lt, hnat]
    exact not_lt.mpr hlen
  have hpad : padLen (UInt32.ofNat a.body.length) = a.fill.length := by
    rw [toNat_padLen, hnat, a.length_fill]
  simp only [OpaqueAuth.bytes, List.append_assoc] at h
  obtain ⟨r₁, hflavor, h₁⟩ := readU32_of_rest h
  obtain ⟨r₂, hword, h₂⟩ := readU32_of_rest h₁
  obtain ⟨r₃, hbody, h₃⟩ := take_of_rest h₂
  obtain ⟨r₄, hfill, h₄⟩ := take_of_rest h₃
  exact ⟨r₄, by simp [skipOpaqueAuth, skip, hflavor, hword, hmax, hnat, hbody, hpad, hfill], h₄⟩

end Reader

/-! ## What is accepted -/

theorem readCallHeader_callBytes (header : CallHeader) (cred verf : OpaqueAuth) (args : Bytes) :
    ∃ r, readCallHeader (.new (callBytes header cred verf args)) = .call header r ∧
      r.rest = args := by
  obtain ⟨r₁, h₁, hr₁⟩ := Reader.readU32_of_rest
    (Reader.rest_new (callBytes header cred verf args))
  obtain ⟨r₂, h₂, hr₂⟩ := Reader.readU32_of_rest hr₁
  obtain ⟨r₃, h₃, hr₃⟩ := Reader.readU32_of_rest hr₂
  obtain ⟨r₄, h₄, hr₄⟩ := Reader.readU32_of_rest hr₃
  obtain ⟨r₅, h₅, hr₅⟩ := Reader.readU32_of_rest hr₄
  obtain ⟨r₆, h₆, hr₆⟩ := Reader.readU32_of_rest hr₅
  obtain ⟨r₇, h₇, hr₇⟩ := Reader.skipOpaqueAuth_of_bytes hr₆
  obtain ⟨r₈, h₈, hr₈⟩ := Reader.skipOpaqueAuth_of_bytes hr₇
  exact ⟨r₈, by simp [readCallHeader, readCallBody, h₁, h₂, h₃, h₄, h₅, h₆, h₇, h₈], hr₈⟩

theorem readCallHeader_otherRpcvers {vers : UInt32} (hvers : vers ≠ 2) (xid : UInt32)
    (rest : Bytes) : readCallHeader (.new (otherRpcvers xid vers rest)) = .badRpcvers xid := by
  obtain ⟨r₁, h₁, hr₁⟩ := Reader.readU32_of_rest (Reader.rest_new (otherRpcvers xid vers rest))
  obtain ⟨r₂, h₂, hr₂⟩ := Reader.readU32_of_rest hr₁
  obtain ⟨r₃, h₃, -⟩ := Reader.readU32_of_rest hr₂
  simp [readCallHeader, h₁, h₂, h₃, hvers]

theorem rest_of_readCallBody {xid : UInt32} {r args : Reader} {header : CallHeader}
    (h : readCallBody xid r = some (header, args)) :
    header.xid = xid ∧ ∃ cred verf : OpaqueAuth, r.rest = beU32 header.prog ++
      (beU32 header.vers ++ (beU32 header.proc ++ (cred.bytes ++ (verf.bytes ++ args.rest)))) := by
  obtain ⟨⟨prog, r₁⟩, hprog, h⟩ := Option.bind_eq_some_iff.mp h
  obtain ⟨⟨vers, r₂⟩, hvers, h⟩ := Option.bind_eq_some_iff.mp h
  obtain ⟨⟨proc, r₃⟩, hproc, h⟩ := Option.bind_eq_some_iff.mp h
  obtain ⟨r₄, hcred, h⟩ := Option.bind_eq_some_iff.mp h
  obtain ⟨r₅, hverf, h⟩ := Option.bind_eq_some_iff.mp h
  cases h
  obtain ⟨cred, hrest₃⟩ := Reader.rest_of_skipOpaqueAuth hcred
  obtain ⟨verf, hrest₄⟩ := Reader.rest_of_skipOpaqueAuth hverf
  refine ⟨rfl, cred, verf, ?_⟩
  rw [Reader.rest_of_readU32 hprog, Reader.rest_of_readU32 hvers, Reader.rest_of_readU32 hproc,
    hrest₃, hrest₄]

/-- Every message is a call, a call in another version, or malformed. -/
theorem readCallHeader_cases (body : Bytes) :
    (∃ header cred verf args, readCallHeader (.new body) = .call header args ∧
      body = callBytes header cred verf args.rest) ∨
    (∃ xid vers rest, vers ≠ 2 ∧ readCallHeader (.new body) = .badRpcvers xid ∧
      body = otherRpcvers xid vers rest) ∨
    readCallHeader (.new body) = .malformed := by
  unfold readCallHeader
  rcases hxid : (Reader.new body).readU32 with _ | ⟨xid, r₁⟩
  · exact .inr (.inr rfl)
  rcases hmtype : r₁.readU32 with _ | ⟨mtype, r₂⟩
  · exact .inr (.inr (by simp only [hmtype]))
  by_cases hcall : mtype = 0
  swap
  · exact .inr (.inr (by simp only [hmtype, if_pos hcall]))
  subst hcall
  rcases hrpcvers : r₂.readU32 with _ | ⟨rpcvers, r₃⟩
  · exact .inr (.inr (by simp [hmtype, hrpcvers]))
  have hbody : body = beU32 xid ++ (beU32 0 ++ (beU32 rpcvers ++ r₃.rest)) := by
    rw [← Reader.rest_of_readU32 hrpcvers, ← Reader.rest_of_readU32 hmtype,
      ← Reader.rest_of_readU32 hxid, Reader.rest_new]
  by_cases htwo : rpcvers = 2
  swap
  · exact .inr (.inl ⟨xid, rpcvers, r₃.rest, htwo, by simp [hmtype, hrpcvers, htwo], hbody⟩)
  subst htwo
  rcases hrest : readCallBody xid r₃ with _ | ⟨header, args⟩
  · exact .inr (.inr (by simp [hmtype, hrpcvers, hrest]))
  · obtain ⟨rfl, cred, verf, hr₃⟩ := rest_of_readCallBody hrest
    exact .inl ⟨header, cred, verf, args, by simp [hmtype, hrpcvers, hrest],
      by rw [hbody, hr₃]; rfl⟩

/-- No proper prefix of a header is one. -/
theorem readCallHeader_prefix (header : CallHeader) (cred verf : OpaqueAuth) {k : Nat}
    (hk : k < (callBytes header cred verf []).length) :
    readCallHeader (.new ((callBytes header cred verf []).take k)) = .malformed := by
  have hsplit := List.take_append_drop k (callBytes header cred verf [])
  have hlost : (callBytes header cred verf []).drop k ≠ [] := by
    rw [← List.length_pos_iff, List.length_drop]
    omega
  generalize (callBytes header cred verf []).take k = front at hsplit ⊢
  generalize (callBytes header cred verf []).drop k = back at hsplit hlost
  obtain ⟨args, hwhole, hend⟩ := readCallHeader_callBytes header cred verf []
  rcases readCallHeader_cases front with
    ⟨header', cred', verf', args', hcall, -⟩ | ⟨xid, vers, rest, hvers, -, rfl⟩ | hmalformed
  · -- The whole would leave what was cut off unread.
    obtain ⟨args₁, hcall₁, hrest⟩ := readCallHeader_extend
      (show (Reader.new (front ++ back)).rest = (Reader.new front).rest ++ back from rfl) hcall
    rw [hsplit, hwhole] at hcall₁
    cases hcall₁
    rw [hend] at hrest
    exact absurd (List.append_eq_nil_iff.mp hrest.symm).2 hlost
  · rw [otherRpcvers, List.append_assoc, List.append_assoc, List.append_assoc] at hsplit
    have hother := readCallHeader_otherRpcvers hvers xid (rest ++ back)
    rw [otherRpcvers, hsplit, hwhole] at hother
    cases hother
  · exact hmalformed

/-! ## What an answer depends on -/

/-- The arguments are read from the bytes ahead and from nothing else. -/
def RestOnly (args : Reader → Option (Request Unit)) : Prop :=
  ∀ r r', r.rest = r'.rest → args r = args r'

theorem restOnly_map {α : Type} {f : Reader → Option (α × Reader)} (hf : Reader.Local f)
    (g : α → Request Unit) : RestOnly fun r => (f r).map fun a => g a.1 := by
  intro r r' h
  rcases hf.congr h with ⟨hr, hr'⟩ | ⟨v, r₁, r₁', hr, hr', -⟩ <;> simp [hr, hr']

theorem restOnly_readArgs : RestOnly readArgs := by
  intro r r' h
  rcases Reader.local_readU64.congr h with ⟨hr, hr'⟩ | ⟨offset, r₁, r₁', hr, hr', h₁⟩
  · simp [readArgs, hr, hr']
  rcases Reader.local_readU32.congr h₁ with ⟨hr₁, hr₁'⟩ | ⟨count, r₂, r₂', hr₁, hr₁', -⟩ <;>
    simp [readArgs, hr, hr', hr₁, hr₁']

theorem readBudget_congr {r r' : Reader} (h : r.rest = r'.rest) (plus : Bool) :
    readBudget r plus = readBudget r' plus := by
  rcases Reader.local_readU32.congr h with ⟨hr, hr'⟩ | ⟨count, r₁, r₁', hr, hr', h₁⟩
  · cases plus <;> simp [readBudget, hr, hr']
  rcases Reader.local_readU32.congr h₁ with ⟨hr₁, hr₁'⟩ | ⟨maxcount, r₂, r₂', hr₁, hr₁', -⟩ <;>
    cases plus <;> simp [readBudget, hr, hr', hr₁, hr₁']

theorem restOnly_readdirArgs (plus : Bool) : RestOnly (readdirArgs plus) := by
  intro r r' h
  rcases Reader.local_readU64.congr h with ⟨hr, hr'⟩ | ⟨cookie, r₁, r₁', hr, hr', h₁⟩
  · simp [readdirArgs, hr, hr']
  rcases (Reader.local_take 8).congr h₁ with ⟨hr₁, hr₁'⟩ | ⟨verf, r₂, r₂', hr₁, hr₁', h₂⟩
  · simp [readdirArgs, Reader.readOpaqueFixed, hr, hr', hr₁, hr₁']
  · simp [readdirArgs, Reader.readOpaqueFixed, hr, hr', hr₁, hr₁', readBudget_congr h₂]

theorem withHandle_congr {r r' : Reader} (h : r.rest = r'.rest)
    {args : Reader → Option (Request Unit)} (hargs : RestOnly args) :
    withHandle r args = withHandle r' args := by
  rcases (Reader.local_readOpaqueVar 64).congr h with ⟨hr, hr'⟩ | ⟨fh, r₁, r₁', hr, hr', h₁⟩
  · simp [withHandle, hr, hr']
  · simp [withHandle, hr, hr', hargs r₁ r₁' h₁]

theorem decodeRequest_congr {r r' : Reader} (h : r.rest = r'.rest) (proc : UInt32) :
    decodeRequest proc r = decodeRequest proc r' := by
  unfold decodeRequest
  generalize proc.toNat = n
  match n with
  | 0 | 2 | 5 | 7 | 8 | 9 | 10 | 11 | 12 | 13 | 14 | 15 | 21 | _ + 22 => rfl
  | 1 | 18 | 19 | 20 => exact withHandle_congr h fun _ _ _ => rfl
  | 3 =>
    exact withHandle_congr h (restOnly_map (Reader.local_readOpaqueVar 1024) fun a => .lookup () a)
  | 4 => exact withHandle_congr h (restOnly_map Reader.local_readU32 fun a => .access () a)
  | 6 => exact withHandle_congr h restOnly_readArgs
  | 16 => exact withHandle_congr h (restOnly_readdirArgs false)
  | 17 => exact withHandle_congr h (restOnly_readdirArgs true)

theorem mountDispatch_congr {r r' : Reader} (h : r.rest = r'.rest) (proc : UInt32)
    (e : ExportSecret) (handle : FileHandle3) :
    MountProto.dispatch proc r e handle = MountProto.dispatch proc r' e handle := by
  rcases (Reader.local_readOpaqueVar MountProto.mntPathLen).congr h with
    ⟨hr, hr'⟩ | ⟨path, r₁, r₁', hr, hr', -⟩ <;>
    simp [MountProto.dispatch, MountProto.mnt, MountProto.umnt, Reader.readString, hr, hr']

section Answer

variable (o : Overflow) (fuel : Nat) (handle : FileHandle3) (config : Config)

/-- A call is answered by its header and the bytes of its arguments. -/
theorem replyTo_congr (header : CallHeader) {r r' : Reader} (h : r.rest = r'.rest) :
    replyTo o fuel handle config header r = replyTo o fuel handle config header r' := by
  simp only [replyTo, replyMount, replyNfs, dispatch_eq, decodeRequest_congr h,
    mountDispatch_congr h]

/-- The credential and the verifier do not matter. -/
theorem handleMessage_credentials (header : CallHeader) (cred verf cred' verf' : OpaqueAuth)
    (args : Bytes) :
    handleMessage o fuel handle config (callBytes header cred verf args) =
      handleMessage o fuel handle config (callBytes header cred' verf' args) := by
  obtain ⟨r, hr, hrest⟩ := readCallHeader_callBytes header cred verf args
  obtain ⟨r', hr', hrest'⟩ := readCallHeader_callBytes header cred' verf' args
  rw [handleMessage, handleMessage, hr, hr']
  simp only [replyTo_congr o fuel handle config header (hrest.trans hrest'.symm)]

/-- The first two words of a reply: the transaction and `REPLY`. -/
def RepliesTo (xid : UInt32) (reply : Bytes) : Prop :=
  ∃ tail, reply = beU32 xid ++ (beU32 1 ++ tail)

theorem repliesTo_replyHeader (xid stat : UInt32) (payload : Bytes) :
    RepliesTo xid (replyHeader xid stat ++ payload) := by
  refine ⟨beU32 0 ++ (beU32 0 ++ (beU32 0 ++ (beU32 stat ++ payload))), ?_⟩
  simp [replyHeader, writeReplyHeader, Writer.intoBytes]

theorem repliesTo_progUnavail (xid : UInt32) : RepliesTo xid (progUnavailReply xid) := by
  simpa [progUnavailReply, replyHeader] using
    repliesTo_replyHeader xid AcceptStat.progUnavail []

theorem repliesTo_progMismatch (xid : UInt32) : RepliesTo xid (progMismatchReply xid) := by
  simpa [progMismatchReply, writeProgMismatchBody, replyHeader, Writer.intoBytes] using
    repliesTo_replyHeader xid AcceptStat.progMismatch (beU32 3 ++ beU32 3)

theorem repliesTo_buildReply (xid : UInt32) (outcome : ProcOutcome) :
    RepliesTo xid (buildReply xid outcome) := by
  rw [buildReply_eq]
  exact repliesTo_replyHeader xid _ _

theorem replyTo_replies (header : CallHeader) (args : Reader) {R : Contract ServerSig} :
    (replyTo o fuel handle config header args).Safe R (RepliesTo header.xid) :=
  wp_replyTo (repliesTo_progUnavail _) (repliesTo_progMismatch _) (repliesTo_buildReply _ _)
    fun _ _ => wp_mono (wp_true _) fun outcome _ => repliesTo_buildReply _ outcome

/-- Handling a message gives no reply exactly if its header is malformed, and otherwise a
reply to its transaction. -/
theorem handleMessage_replies (body : Bytes) {σ : Type} (env : Handler ServerSig σ) (s : σ) :
    (((handleMessage o fuel handle config body).run env s).1 = .ok none ↔
      readCallHeader (.new body) = .malformed) ∧
    ∀ reply, ((handleMessage o fuel handle config body).run env s).1 = .ok (some reply) →
      ∃ xid rest, body = beU32 xid ++ rest ∧ RepliesTo xid reply := by
  rcases readCallHeader_cases body with
    ⟨header, cred, verf, args, hcall, hbody⟩ | ⟨xid, vers, rest, -, hbad, hbody⟩ | hmalformed
  · have hmessage : handleMessage o fuel handle config body =
        replyTo o fuel handle config header args >>= fun reply => ret (some reply) := by
      rw [handleMessage, hcall]
      rfl
    rw [hmessage, run_bind_ret, hcall]
    rcases hrun : ((replyTo o fuel handle config header args).run env s).1 with why | reply
    · exact ⟨⟨by rintro ⟨⟩, by rintro ⟨⟩⟩, by rintro _ ⟨⟩⟩
    · refine ⟨⟨by rintro ⟨⟩, by rintro ⟨⟩⟩, ?_⟩
      rintro _ ⟨⟩
      exact ⟨header.xid, _, hbody, Safe.run (replyTo_replies o fuel handle config header args)
        env.meets_anyAnswer hrun⟩
  · rw [handleMessage, hbad]
    refine ⟨⟨by rintro ⟨⟩, by rintro ⟨⟩⟩, ?_⟩
    rintro _ ⟨⟩
    refine ⟨xid, _, hbody, beU32 1 ++ (beU32 0 ++ (beU32 2 ++ beU32 2)), ?_⟩
    simp [rpcMismatchReply, Writer.intoBytes]
  · rw [handleMessage, hmalformed]
    exact ⟨⟨fun _ => rfl, fun _ => rfl⟩, by rintro _ ⟨⟩⟩

/-- Headers are parsed exactly and credentials never matter.

* `read_call_header` finds a call, and its arguments, in exactly the byte strings that are
  one; another version of RPC in those whose third word is not 2; and anything else,
  proper prefixes of headers included, is malformed.
* `handle_message` returns nothing exactly for a malformed header, and every reply starts
  with the transaction and `REPLY`.
* Messages that differ in credential and verifier only are handled by the same program, so
  they are answered alike by every filesystem. -/
theorem callHeader_exact (body : Bytes) :
    (∀ header suffix, (∃ args, readCallHeader (.new body) = .call header args ∧
      args.rest = suffix) ↔ ∃ cred verf, body = callBytes header cred verf suffix) ∧
    (∀ xid, readCallHeader (.new body) = .badRpcvers xid ↔
      ∃ vers rest, vers ≠ 2 ∧ body = otherRpcvers xid vers rest) ∧
    (readCallHeader (.new body) = .malformed ↔
      (∀ header cred verf suffix, body ≠ callBytes header cred verf suffix) ∧
        ∀ xid vers rest, vers ≠ 2 → body ≠ otherRpcvers xid vers rest) ∧
    (∀ header cred verf k, k < (callBytes header cred verf []).length →
      body = (callBytes header cred verf []).take k →
        readCallHeader (.new body) = .malformed) ∧
    (∀ {σ : Type} (env : Handler ServerSig σ) (s : σ),
      (((handleMessage o fuel handle config body).run env s).1 = .ok none ↔
        readCallHeader (.new body) = .malformed) ∧
      ∀ reply, ((handleMessage o fuel handle config body).run env s).1 = .ok (some reply) →
        ∃ xid rest, body = beU32 xid ++ rest ∧ RepliesTo xid reply) ∧
    ∀ header cred verf cred' verf' suffix, body = callBytes header cred verf suffix →
      handleMessage o fuel handle config (callBytes header cred' verf' suffix) =
        handleMessage o fuel handle config body := by
  have hcallBytes := @readCallHeader_callBytes
  have hother := @readCallHeader_otherRpcvers
  refine ⟨fun header suffix => ⟨?_, ?_⟩, fun xid => ⟨?_, ?_⟩, ⟨?_, ?_⟩, ?_,
    fun env s => handleMessage_replies o fuel handle config body env s, ?_⟩
  · rintro ⟨args, hcall, rfl⟩
    rcases readCallHeader_cases body with
      ⟨header', cred, verf, args', hcall', hbody⟩ | ⟨_, _, _, _, h, _⟩ | h
    · cases hcall'.symm.trans hcall
      exact ⟨cred, verf, hbody⟩
    · cases h.symm.trans hcall
    · cases h.symm.trans hcall
  · rintro ⟨cred, verf, rfl⟩
    exact hcallBytes header cred verf suffix
  · intro hbad
    rcases readCallHeader_cases body with ⟨_, _, _, _, h, _⟩ | ⟨_, vers, rest, hvers, h, hbody⟩ | h
    · cases h.symm.trans hbad
    · cases h.symm.trans hbad
      exact ⟨vers, rest, hvers, hbody⟩
    · cases h.symm.trans hbad
  · rintro ⟨vers, rest, hvers, rfl⟩
    exact hother hvers xid rest
  · intro hmalformed
    refine ⟨?_, ?_⟩
    · rintro header cred verf suffix rfl
      obtain ⟨_, h, -⟩ := hcallBytes header cred verf suffix
      cases h.symm.trans hmalformed
    · rintro xid vers rest hvers rfl
      cases (hother hvers xid rest).symm.trans hmalformed
  · rintro ⟨hnot, hnot'⟩
    rcases readCallHeader_cases body with
      ⟨header, cred, verf, args, -, h⟩ | ⟨xid, vers, rest, hvers, -, h⟩ | h
    · exact absurd h (hnot header cred verf _)
    · exact absurd h (hnot' xid vers rest hvers)
    · exact h
  · rintro header cred verf k hk rfl
    exact readCallHeader_prefix header cred verf hk
  · rintro header cred verf cred' verf' suffix rfl
    exact handleMessage_credentials o fuel handle config header cred' verf' cred verf suffix

end Answer

end Anymount.Nfs
