import Anymount.Library.Record
import Anymount.Nfs.Budget
import Anymount.Nfs.Framing

/-!
# Replies and their record marks

A reply is sent as one final fragment, whose mark has 31 bits for its length. Every reply is
short enough for that except a directory listing, which may be as long as the client asks.
-/
namespace Anymount.Nfs

open Library Library.Xdr Library.Prog Library.Record Rfc1813 NfsProto Readdir

/-! ## Marks -/

/-- Setting a bit above all others, or one that is set already. -/
theorem two_pow_or {n i : Nat} (hn : n < 2 ^ (i + 1)) : 2 ^ i ||| n = 2 ^ i + n % 2 ^ i := by
  rcases lt_or_ge n (2 ^ i) with hlt | hge
  · rw [Nat.or_comm, Nat.or_two_pow_eq_add_of_lt hlt, Nat.mod_eq_of_lt hlt, Nat.add_comm]
  · obtain ⟨m, rfl⟩ := Nat.exists_eq_add_of_le' hge
    have hm : m < 2 ^ i := by
      rw [Nat.pow_succ] at hn
      omega
    rw [← Nat.or_two_pow_eq_add_of_lt hm, Nat.or_comm, Nat.or_assoc, Nat.or_self,
      Nat.or_two_pow_eq_add_of_lt hm, Nat.add_mod_right, Nat.mod_eq_of_lt hm, Nat.add_comm]

/-- Whatever the length of the body, the mark carries its low 31 bits. -/
theorem beNat_recordMark (body : Bytes) :
    beNat (recordMark body) = 2 ^ 31 + body.length % 2 ^ 31 := by
  have hlen : (UInt32.ofNat body.length).toNat = body.length % 2 ^ 32 := UInt32.toNat_ofNat'
  have hmark : (lastFragmentBit ||| UInt32.ofNat body.length).toNat < 256 ^ 4 :=
    (lastFragmentBit ||| UInt32.ofNat body.length).toNat_lt
  rw [recordMark, beU32, beNat_beBytes, Nat.mod_eq_of_lt hmark, UInt32.toNat_or, hlen]
  show 2 ^ 31 ||| body.length % 2 ^ 32 = _
  rw [two_pow_or (Nat.mod_lt _ (by decide)), Nat.mod_mod_of_dvd _ (by decide)]

/-- The reply can be framed: the mark carries its length, and a reader of the stream gets
exactly the reply and is left at what comes next. -/
structure Framed (reply : Bytes) : Prop where
  fits : reply.length < 2 ^ 31
  recovered : ∀ rest, recordAt (frame reply ++ rest) = some (reply, rest)

theorem framed_of_length_lt {reply : Bytes} (h : reply.length < 2 ^ 31) : Framed reply := by
  refine ⟨h, fun rest => ?_⟩
  have hmark : beNat (recordMark reply) = 2 ^ 31 + reply.length := by
    rw [beNat_recordMark, Nat.mod_eq_of_lt h]
  rw [frame, List.append_assoc, recordAt_final (by simp [recordMark]) hmark h (by simp),
    List.take_left, List.drop_left]

/-! ## Every reply but a listing is short -/

section Short

variable (handle : FileHandle3)

theorem length_buildReply (xid : UInt32) (outcome : ProcOutcome) :
    (buildReply xid outcome).length = 24 + outcome.payload.length := by
  rw [buildReply_eq, List.length_append, length_replyHeader]

theorem length_refused_answer (proc : Refused) :
    ((result proc.resok proc.resfail).encode handle.encode proc.answer).length ≤ 20 := by
  cases proc <;> simp [Refused.answer, Ty.encode, encodeBool]

theorem length_serveUnresolved (req : Request Bytes) :
    (req.ty.encode handle.encode (serveUnresolved req)).length ≤ 20 := by
  cases req with
  | refused proc => exact length_refused_answer handle proc
  | _ => simp [serveUnresolved, Ty.encode, encodeBool]

theorem length_encode_read {count : UInt32} {v : read3res.Value Ino} (h : ReadBounded count v) :
    (read3res.encode handle.encode v).length ≤ 2 ^ 21 := by
  rcases v with ⟨attr, n, eof, data⟩ | ⟨status, attr⟩
  · obtain ⟨hn, hle⟩ := h
    have hmax : rtmax.toNat = 2 ^ 20 := rfl
    have hattr := length_postOpAttr handle attr
    have hdata := length_encodeOpaque_le data.val
    show (beU32 0 ++ (postOpAttr.encode handle.encode attr ++ (beU32 n ++ (encodeBool eof ++
      encodeOpaque data.val)))).length ≤ _
    simp only [List.length_append, length_beU32, encodeBool]
    rw [hattr]
    split <;> omega
  · have hattr := length_postOpAttr handle attr
    show (beU32 status.val ++ postOpAttr.encode handle.encode attr).length ≤ _
    rw [List.length_append, length_beU32, hattr]
    split <;> omega

/-- A value that was served, other than a listing. -/
theorem length_served {req : Request Bytes} {v : req.ty.Value Ino} (hv : req.Bounded v)
    (hrefused : ∀ proc, req ≠ .refused proc)
    (hreaddir : ∀ plus fh cookie budget, req ≠ .readdir plus fh cookie budget) :
    (req.ty.encode handle.encode v).length ≤ 2 ^ 21 := by
  have hmost : ∀ {n}, req.ty.most 24 = some n → n ≤ 2 ^ 21 →
      (req.ty.encode handle.encode v).length ≤ 2 ^ 21 := fun h hn =>
    (Ty.length_encode_le (fun ino => (handle.length_encode ino).le) req.ty h v).trans hn
  cases req with
  | read obj offset count => exact length_encode_read handle hv
  | readdir plus fh cookie budget => exact absurd rfl (hreaddir plus fh cookie budget)
  | refused proc => exact absurd rfl (hrefused proc)
  | _ => exact hmost rfl (by decide)

/-- A listing whose handle resolves asks for less than the mark can express. -/
def Decoded.ListsWithin : Decoded Bytes → Prop
  | .call (.readdir _ fh _ budget) => handle.resolve fh = none ∨ budget.toNat < 2 ^ 31 - 4
  | _ => True

theorem safe_answer (o : Overflow) (fuel : Nat) {d : Decoded Bytes} (h : d.ListsWithin handle) :
    (answer o fuel ⟨handle, 1⟩ d).Safe (anyAnswer FsSig) fun outcome =>
      outcome.payload.length < 2 ^ 31 - 24 := by
  cases d with
  | procUnavail => exact show 0 < _ by decide
  | garbageArgs => exact show 0 < _ by decide
  | call req =>
    rw [answer_call]
    cases hino : req.handle?.bind handle.resolve with
    | none => exact (length_serveUnresolved handle req).trans_lt (by decide)
    | some ino =>
      by_cases hreaddir : ∃ plus fh cookie budget, req = .readdir plus fh cookie budget
      · obtain ⟨plus, fh, cookie, budget, rfl⟩ := hreaddir
        have hfh : handle.resolve fh = some ino := hino
        have hbudget : budget.toNat < 2 ^ 31 - 4 := by
          rcases h with h | h
          · rw [hfh] at h
            cases h
          · exact h
        refine wp_mono ((readdirAt_eq o fuel ⟨handle, 1⟩ plus ino fh cookie budget) ▸
          safe_readdirAt o fuel handle plus ino cookie budget) fun outcome hlen => ?_
        omega
      · have hother : ∀ plus fh cookie budget, req ≠ .readdir plus fh cookie budget :=
          fun plus fh cookie budget heq => hreaddir ⟨plus, fh, cookie, budget, heq⟩
        rw [Safe, wp_bind]
        by_cases hrefused : ∃ proc, req = .refused proc
        · obtain ⟨proc, rfl⟩ := hrefused
          exact (length_refused_answer handle proc).trans_lt (by decide)
        · refine wp_mono (wp_serveAt 1 o fuel ino req fun plus fh cookie budget heq =>
            absurd heq (hother plus fh cookie budget)) fun v hv => ?_
          exact (length_served handle hv (fun proc heq => hrefused ⟨proc, heq⟩) hother).trans_lt
            (by decide)

theorem length_mount_dispatch (proc : UInt32) (args : Reader) (exportValue : ExportSecret) :
    (MountProto.dispatch proc args exportValue handle).payload.length ≤ 40 := by
  have hstatus : ∀ v, (MountProto.status v).payload.length ≤ 40 := fun v => by
    simp [MountProto.status, ProcOutcome.payload]
  have hmnt : (ProcOutcome.success (MountProto.mntOk handle)).payload.length ≤ 40 := by
    simp [MountProto.mntOk, ProcOutcome.payload, encodeOpaque, encodeFixed, Xdr.padding]
  unfold MountProto.dispatch
  split
  · exact Nat.zero_le _
  split
  · unfold MountProto.mnt
    split
    · exact Nat.zero_le _
    split
    · exact hstatus _
    split
    · exact hstatus _
    dsimp only
    split
    · exact hstatus _
    split
    · exact hstatus _
    · exact hmnt
  split
  · unfold MountProto.umnt
    split <;> exact Nat.zero_le _
  split
  · simp [MountProto.exportList, ProcOutcome.payload, encodeBool]
  · exact Nat.zero_le _

/-- Whatever the environment does, a reply fits its mark unless it answers a listing that asks
for more. -/
theorem safe_handleMessage (o : Overflow) (fuel : Nat) (config : Config) {body : Bytes}
    (h : ∀ xid proc args, NfsCall body xid proc args →
      (decodeRequest proc args).ListsWithin handle) :
    (handleMessage o fuel handle config body).Safe (anyAnswer ServerSig) fun reply =>
      ∀ bytes, reply = some bytes → bytes.length < 2 ^ 31 := by
  have hshort : ∀ {bytes : Bytes}, bytes.length ≤ 64 →
      ∀ b, some bytes = some b → b.length < 2 ^ 31 := by
    rintro bytes hlen _ ⟨⟩
    omega
  refine wp_handleMessage (fun _ => nofun)
    (fun xid _ => hshort (by simp [rpcMismatchReply, Writer.intoBytes])) ?_
  rintro ⟨xid, prog, vers, proc⟩ args hheader
  refine wp_replyTo (hshort ?_) (hshort ?_) (hshort ?_) ?_
  · simp [progUnavailReply, writeReplyHeader, Writer.intoBytes]
  · simp [progMismatchReply, writeReplyHeader, writeProgMismatchBody, Writer.intoBytes]
  · have := length_mount_dispatch handle proc args config.exportValue
    rw [length_buildReply]
    dsimp only
    omega
  · rintro rfl rfl
    rw [dispatch_eq]
    refine wp_mono (safe_answer handle o fuel (h xid proc args hheader)) fun outcome hlen => ?_
    rintro _ ⟨⟩
    rw [length_buildReply]
    omega

end Short

/-! ## A listing as long as the client asks -/

/-- The attributes of everything in `longDir`. -/
def longAttr : FileAttr :=
  ⟨rootIno, .directory, 0, 0o755, 2, 0, 0, .unixEpoch, .unixEpoch, .unixEpoch⟩

/-- A filesystem whose directories hold one entry, at one offset. -/
def longDir (offset : UInt64) (name : OsString) : ReadOnlyFs Unit
  | .lookup _ _, s => (.ok longAttr, s)
  | .getattr _, s => (.ok longAttr, s)
  | .readdir _ o, s => (.ok (if o = offset then [⟨rootIno, name, .directory⟩] else []), s)
  | .openFile _, s => (.error .notFound, s)
  | .readAt _ _ buf, s => (.failed .notFound buf, s)
  | .release _, s => (.error .notFound, s)
  | .statfs, s => (.error .notFound, s)

/-- What an entry takes up when its attributes can be had. -/
def direntLen (plus : Bool) (name : OsString) : Nat :=
  24 + (name.length + (padding name.length).length) + if plus then 120 else 0

section Long

variable {ctx : Ctx} {plus : Bool} {R : Contract FsSig} {H : Halt → Prop} {budget : Nat}

theorem wp_encodeDirent_len (hR : ∀ ino r, R (.getattr ino) r → ∃ attr, r = .ok attr) (ino : Ino)
    (name : OsString) (cookie : UInt64) :
    (encodeDirent ctx ino name cookie plus).wp R H fun w => w.len = direntLen plus name := by
  cases plus with
  | false =>
    simp only [encodeDirent, direntLen, Bool.false_eq_true, if_false, pure_eq, wp_ret, Writer.len]
    simp [encodeBool, encodeOpaque, encodeFixed]
    omega
  | true =>
    simp only [encodeDirent, direntLen, if_true, wp_bind, FsProg.wp_getattr]
    intro r hr
    obtain ⟨attr, rfl⟩ := hR ino r hr
    have hattr := length_encode_fattr3 ctx.handle.encode (attrValue ctx.fsid attr)
    simp only [pure_eq, wp_ret, Writer.len]
    simp [buf_writeFattr3 ctx.handle.encode, encodeBool, encodeOpaque, encodeFixed, padding]
    omega

/-- An entry that fits is packed. -/
theorem wp_packEntry_fits (hR : ∀ ino r, R (.getattr ino) r → ∃ attr, r = .ok attr)
    (hbudget : budget < 2 ^ 32) (e : Entry) {st : Packing} (h : st.Holds budget)
    (hfits : st.entries.len + direntLen plus e.name ≤ budget) :
    (packEntry .wraps ctx plus e st).wp R H fun r => ∃ st', r = (.accepted, st') ∧
      st'.Holds budget ∧ st'.entries.len = st.entries.len + direntLen plus e.name := by
  obtain ⟨hwhole, hnonneg, hcounted⟩ := h
  refine wp_packEntry .wraps ctx plus e (by omega) (by omega) ?_
  refine wp_mono (wp_encodeDirent_len hR e.ino e.name e.cookie) fun w hw => ?_
  rw [hw]
  refine ⟨fun hfull => absurd hfull (by omega), ?_⟩
  intro _ st' hentries hremaining hpacked
  have hlen : st'.entries.len = st.entries.len + direntLen plus e.name := by
    rw [← hw, Writer.len, hentries, List.length_append]
    rfl
  have hlarge : 24 ≤ direntLen plus e.name := by
    rw [direntLen]
    omega
  exact ⟨st', rfl, ⟨by omega, by omega, by omega⟩, hlen⟩

/-- What `.` and `..` take up when they are still to be listed. -/
def dotsLen (plus : Bool) (cookie : UInt64) : Nat :=
  (2 - cookie.toNat) * (28 + if plus then 120 else 0)

theorem wp_offerOne_fits (hR : ∀ ino r, R (.getattr ino) r → ∃ attr, r = .ok attr)
    (hbudget : budget < 2 ^ 32) (ino : Ino) {name : OsString} (cookie : UInt64) {st : Packing}
    (hname : (padding name.length).length + name.length = 4) (h : st.Holds budget)
    (hfits : st.entries.len + (28 + if plus then 120 else 0) ≤ budget) :
    (offerOne (packEntry .wraps ctx plus) ino name cookie st).wp R H fun r =>
      ∃ st', r = .more cookie st' ∧ st'.Holds budget ∧
        st'.entries.len = st.entries.len + (28 + if plus then 120 else 0) := by
  have hsize : direntLen plus name = 28 + if plus then 120 else 0 := by
    rw [direntLen]
    omega
  rw [offerOne, wp_bind]
  refine wp_mono (wp_packEntry_fits hR hbudget _ h (hsize ▸ hfits)) ?_
  rintro _ ⟨st', rfl, hst', hlen⟩
  exact ⟨st', rfl, hst', hsize ▸ hlen⟩

theorem wp_offerDotdot_fits (hR : ∀ ino r, R (.getattr ino) r → ∃ attr, r = .ok attr)
    (hbudget : budget < 2 ^ 32) (dir : Ino) {st : Packing} (h : st.Holds budget)
    (hfits : st.entries.len + (28 + if plus then 120 else 0) ≤ budget) :
    (offerDotdot (packEntry .wraps ctx plus) dir dot st).wp R H fun r =>
      ∃ st', r = .more dotdot st' ∧ st'.Holds budget ∧
        st'.entries.len = st.entries.len + (28 + if plus then 120 else 0) := by
  rw [offerDotdot, if_pos rfl, wp_bind, FsProg.wp_lookup]
  exact fun _ _ => wp_offerOne_fits hR hbudget _ _ (by decide) h hfits

theorem wp_offerDots_fits (hR : ∀ ino r, R (.getattr ino) r → ∃ attr, r = .ok attr)
    (hbudget : budget < 2 ^ 32) (dir : Ino) (cookie : UInt64) {st : Packing} (h : st.Holds budget)
    (hempty : st.entries.len = 0) (hfits : dotsLen plus cookie ≤ budget) :
    (offerDots .synthesize (packEntry .wraps ctx plus) dir cookie st).wp R H fun r =>
      ∃ position st', r = .more position st' ∧ traitOffset position = traitOffset cookie ∧
        st'.Holds budget ∧ st'.entries.len = dotsLen plus cookie := by
  obtain rfl | rfl | ⟨n, hn⟩ := cookie_cases cookie
  · have htwo : dotsLen plus 0 = 2 * (28 + if plus then 120 else 0) := rfl
    rw [offerDots_zero, wp_bind]
    refine wp_mono (wp_offerOne_fits hR hbudget dir dot (by decide) h (by omega)) ?_
    rintro _ ⟨st₁, rfl, hst₁, hlen₁⟩
    refine wp_mono (wp_offerDotdot_fits hR hbudget dir hst₁ (by omega)) ?_
    rintro _ ⟨st₂, rfl, hst₂, hlen₂⟩
    exact ⟨dotdot, st₂, rfl, rfl, hst₂, by omega⟩
  · have hone : dotsLen plus dot = 28 + if plus then 120 else 0 := Nat.one_mul _
    rw [offerDots_dot]
    refine wp_mono (wp_offerDotdot_fits hR hbudget dir h (by omega)) ?_
    rintro _ ⟨st₁, rfl, hst₁, hlen₁⟩
    exact ⟨dotdot, st₁, rfl, rfl, hst₁, by omega⟩
  · have hnone : dotsLen plus cookie = 0 := by
      rw [dotsLen, show 2 - cookie.toNat = 0 by omega, Nat.zero_mul]
    rw [offerDots_of_two_le (by omega)]
    exact ⟨cookie, st, rfl, rfl, h, by omega⟩

/-- The answers of `longDir`. -/
def LongDir (offset : UInt64) (name : OsString) : Contract FsSig :=
  fun c r => r = (longDir offset name c ()).1

theorem longDir_meets (offset : UInt64) (name : OsString) :
    (longDir offset name).Meets (LongDir offset name) := fun _ _ => rfl

/-- A listing of `longDir` holds everything there is. -/
theorem wp_emit_longDir (hbudget : budget < 2 ^ 32) (dir : Ino) (cookie : UInt64) (name : OsString)
    {st : Packing} (h : st.Holds budget) (hempty : st.entries.len = 0)
    (hfits : dotsLen plus cookie + direntLen plus name ≤ budget) :
    (emit .wraps 2 dir cookie .synthesize (packEntry .wraps ctx plus) st).Ensures
      (LongDir (traitOffset cookie) name) fun r => ∃ st', r = (.ok true, st') ∧
        st'.entries.len = dotsLen plus cookie + direntLen plus name := by
  have hR : ∀ ino r, LongDir (traitOffset cookie) name (.getattr ino) r → ∃ attr, r = .ok attr :=
    fun _ _ hr => ⟨longAttr, hr⟩
  rw [emit, Ensures, wp_bind]
  refine wp_mono (wp_offerDots_fits hR hbudget dir cookie h hempty (by omega)) ?_
  rintro _ ⟨position, st₁, rfl, hposition, hst₁, hlen₁⟩
  dsimp only
  rw [hposition, emitPages, wp_bind, FsProg.wp_readdir]
  rintro _ rfl
  simp only [longDir, if_true, emitPage, forEntry, addU64_wraps, ret_bind, wp_bind]
  refine wp_mono (wp_packEntry_fits hR hbudget _ hst₁ (by rw [hlen₁]; exact hfits)) ?_
  rintro _ ⟨st₂, rfl, -, hlen₂⟩
  have hnext : traitOffset cookie + 1 ≠ traitOffset cookie := by simp
  simp only [pure_eq, wp_ret, emitPages, wp_bind, FsProg.wp_readdir]
  rintro _ rfl
  simp only [longDir, if_neg hnext]
  exact ⟨st₂, rfl, by rw [hlen₂, hlen₁]⟩

end Long

/-- A name with which a listing is exactly too long for its mark. -/
def longName (plus : Bool) (cookie : UInt64) : OsString :=
  List.replicate (2 ^ 31 - 156 - dotsLen plus cookie - if plus then 120 else 0) 97

theorem longName_size (plus : Bool) (cookie : UInt64) :
    dotsLen plus cookie + direntLen plus (longName plus cookie) = 2 ^ 31 - 132 := by
  have hdots : dotsLen plus cookie % 4 = 0 ∧ dotsLen plus cookie ≤ 296 := by
    have hle : 2 - cookie.toNat ≤ 2 := Nat.sub_le _ _
    cases plus <;> simp only [dotsLen, if_true, Bool.false_eq_true, if_false] <;> omega
  rw [direntLen, longName, List.length_replicate, padding, List.length_replicate]
  cases plus <;> simp only [if_true, Bool.false_eq_true, if_false] <;> omega

section Framing

variable (handle : FileHandle3) (config : Config)

/-- A listing that asks for enough gets a reply of `2 ^ 31` bytes from a directory with a long
name. -/
theorem run_longDir {body fh : Bytes} {xid : UInt32} {plus : Bool} {cookie : UInt64}
    {budget : UInt32} {dir : Ino} (hasks : Asks body xid (.readdir plus fh cookie budget))
    (hfh : handle.resolve fh = some dir) (hbudget : 2 ^ 31 - 4 ≤ budget.toNat)
    (flag : Handler FlagSig Bool) (f : Bool) :
    ∃ reply, ((handleMessage .wraps 2 handle config body).run
        ((longDir (traitOffset cookie) (longName plus cookie)).sum flag) ((), f)).1 =
          .ok (some reply) ∧ reply.length = 2 ^ 31 := by
  have hsub : (saturatingSub budget dirlistOverhead).toNat = budget.toNat - 128 :=
    toNat_saturatingSub budget dirlistOverhead
  have hsize := longName_size plus cookie
  have hwp : (readdirAt .wraps 2 ⟨handle, 1⟩ plus dir cookie budget).Ensures
      (LongDir (traitOffset cookie) (longName plus cookie)) fun outcome =>
        outcome.payload.length = 2 ^ 31 - 24 := by
    rw [readdirAt, buildDirlist, Prog.bind_assoc, Ensures, wp_bind]
    refine wp_mono (wp_emit_longDir (saturatingSub budget dirlistOverhead).toNat_lt dir cookie
      (longName plus cookie) (holds_start _) rfl (by omega)) ?_
    rintro _ ⟨st, rfl, hlen⟩
    have hbytes : st.entries.buf.length = 2 ^ 31 - 132 := hlen.trans hsize
    refine wp_listingReply _ ?_ (fun h => absurd rfl h.2)
    rintro - _ rfl
    have hattr : (sentAttr 1 (longDir (traitOffset cookie) (longName plus cookie) (.getattr dir)
      ()).1).isSome = true := rfl
    rw [ProcOutcome.payload, List.length_append, length_beU32, length_readdirResok, if_pos hattr]
    dsimp only
    omega
  rw [handleMessage_of_readdir .wraps 2 handle config hasks hfh, run_bind_ret, run_inl]
  obtain ⟨outcome, hrun, hlen⟩ := hwp.run (longDir_meets _ _) ()
  refine ⟨buildReply xid outcome, ?_, ?_⟩
  · rw [hrun]
    rfl
  · rw [length_buildReply, hlen]
    norm_num

/-- Every reply to the message can be framed, whatever the build does on overflow and whatever
the filesystem answers. -/
def RepliesFramed (body : Bytes) : Prop :=
  ∀ (o : Overflow) (fuel : Nat) (σ : Type) (env : Handler ServerSig σ) (s : σ) (reply : Bytes),
    ((handleMessage o fuel handle config body).run env s).1 = .ok (some reply) → Framed reply

/-- Every reply to a message can be framed if, and only if, the message is not a `READDIR3` or
`READDIRPLUS3` call on a directory of the mount that asks for `2 ^ 31 - 4` bytes or more. -/
theorem replies_framed_iff (body : Bytes) :
    RepliesFramed handle config body ↔
      ∀ xid plus fh cookie budget, Asks body xid (.readdir plus fh cookie budget) →
        handle.resolve fh ≠ none → budget.toNat < 2 ^ 31 - 4 := by
  refine ⟨fun h xid plus fh cookie budget hasks hfh => ?_, fun h o fuel σ env s reply hrun => ?_⟩
  · obtain ⟨dir, hdir⟩ := Option.ne_none_iff_exists'.mp hfh
    by_contra hbudget
    obtain ⟨reply, hrun, hlen⟩ := run_longDir handle config hasks hdir (not_lt.mp hbudget)
      (fun _ f => (f, f)) false
    have := (h _ _ _ _ _ reply hrun).fits
    omega
  · refine framed_of_length_lt ?_
    refine (safe_handleMessage handle o fuel config fun xid proc args hcall => ?_).run
      env.meets_anyAnswer hrun reply rfl
    cases hreq : decodeRequest proc args with
    | procUnavail => trivial
    | garbageArgs => trivial
    | call req =>
      cases req with
      | readdir plus fh cookie budget =>
        by_cases hfh : handle.resolve fh = none
        · exact .inl hfh
        · exact .inr (h xid plus fh cookie budget ⟨proc, args, hcall, hreq⟩ hfh)
      | _ => trivial

end Framing

/-- A client asks for everything it can, and the directory has a long name in it. The reply has
`2 ^ 31` bytes, and a reader of the stream gets an empty record and takes the reply for the
next one. -/
theorem long_listing_corrupts_stream :
    ∃ reply, ((handleMessage .wraps 2 ⟨List.replicate 16 0, rfl⟩ localConfig
        (readdirMessage 7 false (FileHandle3.encode ⟨List.replicate 16 0, rfl⟩ rootIno) 0
          0xFFFFFFFF)).run ((longDir 0 (longName false 0)).sum fun _ f => (f, f)) ((), false)).1 =
        .ok (some reply) ∧
      ¬ Framed reply ∧ recordAt (frame reply) = some ([], reply) := by
  obtain ⟨reply, hrun, hlen⟩ := run_longDir ⟨List.replicate 16 0, rfl⟩ localConfig
    (asks_readdirMessage 7 false (by decide) 0 0xFFFFFFFF) (FileHandle3.resolve_encode _ rootIno)
    (by decide) (fun _ f => (f, f)) false
  refine ⟨reply, hrun, fun h => ?_, ?_⟩
  · have := h.fits
    omega
  · have hmark : beNat (recordMark reply) = 2 ^ 31 + 0 := by
      rw [beNat_recordMark, hlen, Nat.mod_self]
    exact recordAt_final (by simp [recordMark]) hmark (by decide) (Nat.zero_le _)

end Anymount.Nfs
