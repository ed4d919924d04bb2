import Anymount.Nfs.Ranges

/-!
# How long a directory reply is

Entries are packed into what the client asked for less 128 bytes, which leaves room for the
104 bytes that surround them. A request for less than that gets no entries, and yet a reply
if there are none to give.
-/
namespace Anymount.Nfs

open Library Library.Xdr Library.Prog Rfc1813 NfsProto Readdir

/-! ## The parts of a reply -/

section Parts

variable (handle : FileHandle3) (attr : postOpAttr.Value Ino)

/-- `READDIR3resok` or `READDIRPLUS3resok` around encoded entries. -/
def readdirResok (entries : Bytes) (eof : Bool) : Bytes :=
  postOpAttr.encode handle.encode attr ++ (encodeFixed cookieverfBytes ++
    (entries ++ (encodeBool false ++ encodeBool eof)))

/-- A status other than `NFS3_OK` with the attributes that follow it. -/
def readdirResfail (status : UInt32) : Bytes := beU32 status ++ postOpAttr.encode handle.encode attr

theorem length_postOpAttr :
    (postOpAttr.encode handle.encode attr).length = if attr.isSome then 88 else 4 := by
  cases attr with
  | none => simp [Ty.encode, encodeBool]
  | some a =>
    rw [Ty.encode, List.length_append, length_encode_fattr3]
    simp [encodeBool]

theorem length_readdirResok (entries : Bytes) (eof : Bool) :
    (readdirResok handle attr entries eof).length =
      (if attr.isSome then 104 else 20) + entries.length := by
  have hverf : (encodeFixed cookieverfBytes).length = 8 := by decide
  have hattr := length_postOpAttr handle attr
  simp only [readdirResok, List.length_append, hverf, encodeBool, length_beU32]
  rw [hattr]
  split <;> omega

/-- How `readdir_common` writes it. -/
theorem writer_resok (entries : Writer) (eof : Bool) :
    ((((⟨beU32 nfs3Ok ++ postOpAttr.encode handle.encode attr⟩ : Writer).writeOpaqueFixed
      handle.cookieverf).extendFrom entries).writeBool false).writeBool eof =
        ⟨beU32 nfs3Ok ++ readdirResok handle attr entries.buf eof⟩ :=
  Writer.ext (by simp [readdirResok, FileHandle3.cookieverf])

theorem resfail_ne_ok {status : UInt32} (hstatus : status ≠ nfs3Ok) (resok : Bytes) :
    readdirResfail handle attr status ≠ beU32 nfs3Ok ++ resok := by
  intro h
  have htake := congrArg (List.take 4) h
  rw [readdirResfail, List.take_left' (length_beU32 _), List.take_left' (length_beU32 _)] at htake
  exact hstatus (beU32_injective htake)

end Parts

section Reply

variable {ctx : Ctx} {dir : Ino} {R : Contract FsSig} {H : Halt → Prop} {Q : ProcOutcome → Prop}

/-- The attributes that go into a reply when `getattr` gives that answer. -/
def sentAttr (fsid : UInt64) (a : FsResult FileAttr) : postOpAttr.Value Ino :=
  a.toOption.map (attrValue fsid)

theorem wp_bestEffort_writer {w : Writer} {Q : Writer → Prop} (ino : Ino)
    (hQ : ∀ a, R (.getattr ino) a →
      Q ⟨w.buf ++ postOpAttr.encode ctx.handle.encode (sentAttr ctx.fsid a)⟩) :
    (writePostOpAttrBestEffort w ctx ino).wp R H Q := by
  rw [writePostOpAttrBestEffort_eq ctx.handle.encode, bestEffort, Prog.bind_assoc, wp_bind,
    FsProg.wp_getattr]
  intro a ha
  have := hQ a ha
  cases a with
  | ok attr => exact this
  | error e => exact this

theorem wp_failReply {status : UInt32}
    (hQ : ∀ attr, Q (.success ⟨readdirResfail ctx.handle attr status⟩)) :
    (failReply ctx dir status).wp R H Q := by
  rw [failReply, wp_bind]
  exact wp_bestEffort_writer dir fun a _ => by simpa [readdirResfail] using hQ (sentAttr ctx.fsid a)

/-- The two replies to a list that could be built. -/
theorem wp_listingReply (l : DirList)
    (hlisted : ¬ (l.packed = 0 ∧ ¬ l.eof) → ∀ a, R (.getattr dir) a →
      Q (.success
        ⟨beU32 nfs3Ok ++ readdirResok ctx.handle (sentAttr ctx.fsid a) l.entries.buf l.eof⟩))
    (htoosmall : l.packed = 0 ∧ ¬ l.eof → ∀ attr,
      Q (.success ⟨readdirResfail ctx.handle attr nfs3errToosmall⟩)) :
    (listingReply ctx dir (.ok l)).wp R H Q := by
  rw [listingReply]
  split
  · next hnone => exact wp_failReply (htoosmall hnone)
  · next hsome =>
    rw [wp_bind]
    refine wp_bestEffort_writer dir fun a ha => ?_
    have hbytes := hlisted hsome a ha
    rw [← writer_resok] at hbytes
    exact hbytes

end Reply

/-! ## The entries -/

/-- The packed entries and what is left of the budget make up the whole of it. -/
structure NfsProto.Packing.Holds (budget : Nat) (st : Packing) : Prop where
  whole : (st.entries.len : Int) + st.remaining.toInt = budget
  nonneg : 0 ≤ st.remaining.toInt
  counted : 24 * st.packed.toNat ≤ st.entries.len

section Entries

variable {o : Overflow} {ctx : Ctx} {plus : Bool} {R : Contract FsSig} {H : Halt → Prop}

theorem holds_start (budget : UInt32) :
    Packing.Holds budget.toNat ⟨.new, Int64.ofNat budget.toNat, 0⟩ := by
  have hlt := budget.toNat_lt
  have hbudget : (Int64.ofNat budget.toNat).toInt = budget.toNat :=
    Int64.toInt_ofNat_of_lt (by omega)
  refine ⟨?_, ?_, ?_⟩
  · rw [hbudget]
    exact zero_add _
  · rw [hbudget]
    exact Int.natCast_nonneg _
  · exact Nat.zero_le _

theorem wp_packEntry_holds {budget : Nat} (hbudget : budget < 2 ^ 32) (e : Entry) {st : Packing}
    (h : st.Holds budget) : (packEntry o ctx plus e st).wp R H fun r => r.2.Holds budget := by
  obtain ⟨hwhole, hnonneg, hcounted⟩ := h
  refine wp_packEntry o ctx plus e (by omega) (by omega) ?_
  refine wp_mono (length_encodeDirent ctx _ _ _ _) fun w hlen =>
    ⟨fun _ => ⟨hwhole, hnonneg, hcounted⟩, ?_⟩
  intro hfits st' hentries hremaining hpacked
  have hlen' : st'.entries.len = st.entries.len + w.len := by
    rw [Writer.len, hentries, List.length_append]
    rfl
  show Packing.Holds budget st'
  exact ⟨by omega, by omega, by omega⟩

/-- Without a budget nothing is packed. -/
theorem wp_packEntry_full (e : Entry) {st : Packing} (h : st.remaining.toInt = 0)
    (hcount : st.packed = 0) : (packEntry o ctx plus e st).wp R H fun r => r = (.full, st) := by
  refine wp_packEntry o ctx plus e (by omega) (by rw [hcount]; decide) ?_
  refine wp_mono (length_encodeDirent ctx _ _ _ _) fun w hlen => ⟨fun _ => rfl, fun hfits => ?_⟩
  omega

end Entries

/-! ## A reply within the budget -/

section Within

variable (o : Overflow) (fuel : Nat) (handle : FileHandle3) (plus : Bool) (dir : Ino)
  (cookie : UInt64) (budget : UInt32)

/-- A result that is `NFS3_OK` is no longer than `n`. -/
def OkWithin (n : Nat) (outcome : ProcOutcome) : Prop :=
  ∀ resok, outcome = .success ⟨beU32 nfs3Ok ++ resok⟩ → resok.length ≤ n

variable {handle budget}

theorem okWithin_resfail {n : Nat} {status : UInt32} (hstatus : status ≠ nfs3Ok)
    (attr : postOpAttr.Value Ino) :
    OkWithin n (.success ⟨readdirResfail handle attr status⟩) := by
  intro resok h
  injection h with h
  injection h with h
  exact absurd h (resfail_ne_ok handle attr hstatus resok)

theorem okWithin_of_payload {n : Nat} {outcome : ProcOutcome}
    (h : outcome.payload.length ≤ 4 + n) : OkWithin n outcome := by
  rintro resok rfl
  rw [ProcOutcome.payload, List.length_append, length_beU32] at h
  omega

variable (handle budget)

/-- Whatever the filesystem does, a reply takes up at most 108 bytes besides its entries. -/
theorem safe_readdirAt :
    (readdirAt o fuel ⟨handle, 1⟩ plus dir cookie budget).Safe (anyAnswer FsSig) fun outcome =>
      outcome.payload.length ≤ 108 + (budget.toNat - 128) := by
  have hsub : (saturatingSub budget dirlistOverhead).toNat = budget.toNat - 128 :=
    toNat_saturatingSub budget dirlistOverhead
  rw [readdirAt, buildDirlist, Prog.bind_assoc, Safe, wp_bind]
  refine wp_mono (wp_emit_keeps o (fun _ => trivial) (fun e st hst =>
    wp_packEntry_holds (saturatingSub budget dirlistOverhead).toNat_lt e hst) fuel dir cookie
      .synthesize (holds_start _)) ?_
  have hfail : ∀ attr status, (readdirResfail handle attr status).length ≤
      108 + (budget.toNat - 128) := by
    intro attr status
    rw [readdirResfail, List.length_append, length_beU32, length_postOpAttr]
    split <;> omega
  rintro ⟨e | eof, st⟩ hst
  · exact wp_failReply fun attr => hfail attr e.toNfsstat3
  · refine wp_listingReply _ (fun _ a _ => ?_) fun _ attr => hfail attr nfs3errToosmall
    have hwhole : (st.entries.buf.length : Int) + st.remaining.toInt =
      (saturatingSub budget dirlistOverhead).toNat := hst.whole
    have hnonneg : 0 ≤ st.remaining.toInt := hst.nonneg
    rw [hsub] at hwhole
    rw [ProcOutcome.payload, List.length_append, length_beU32, length_readdirResok]
    dsimp only
    split <;> omega

variable {budget}

/-- A list that is too small to hold anything, and not at its end. -/
theorem wp_listingReply_full {R : Contract FsSig} {H : Halt → Prop} {n : Nat} (entries : Writer) :
    (listingReply ⟨handle, 1⟩ dir (.ok ⟨entries, false, 0⟩)).wp R H (OkWithin n) :=
  wp_listingReply _ (fun h => absurd ⟨rfl, by simp⟩ h)
    fun _ attr => okWithin_resfail (by decide) attr

variable (hbudget : budget.toNat ≤ 128)
include hbudget

theorem toInt_remaining_eq_zero :
    (Int64.ofNat (saturatingSub budget dirlistOverhead).toNat).toInt = 0 := by
  have hsub : (saturatingSub budget dirlistOverhead).toNat = budget.toNat - 128 :=
    toNat_saturatingSub budget dirlistOverhead
  have hzero : (saturatingSub budget dirlistOverhead).toNat = 0 := by omega
  rw [hzero]
  rfl

/-- With no room for entries, a listing that starts with `.` or `..` is refused. -/
theorem safe_readdirAt_dots {cookie : UInt64} (hcookie : cookie.toNat < 2) :
    (readdirAt o fuel ⟨handle, 1⟩ plus dir cookie budget).Safe (anyAnswer FsSig) (OkWithin 0) := by
  have hzero := toInt_remaining_eq_zero hbudget
  rw [readdirAt, buildDirlist, Prog.bind_assoc, Safe, emit, Prog.bind_assoc, wp_bind]
  refine wp_mono (wp_offerDots_full (fun e => wp_packEntry_full e hzero rfl) dir hcookie) ?_
  rintro _ rfl
  exact wp_listingReply_full handle dir .new

/-- With no room for entries, what follows the first page depends on whether it is empty. -/
theorem readdirAt_of_two_le {cookie : UInt64} (hcookie : 2 ≤ cookie.toNat) :
    ∃ next, readdirAt o (fuel + 1) ⟨handle, 1⟩ plus dir cookie budget =
        FsProg.readdir dir (traitOffset cookie) >>= next ∧
      next (.ok []) = listingReply ⟨handle, 1⟩ dir (.ok ⟨.new, true, 0⟩) ∧
      ∀ page, page ≠ .ok [] → (next page).Safe (anyAnswer FsSig) (OkWithin 0) := by
  have hzero := toInt_remaining_eq_zero hbudget
  rw [readdirAt, buildDirlist, Prog.bind_assoc, emit_of_two_le o _ dir hcookie, emitPages,
    Prog.bind_assoc]
  refine ⟨_, rfl, rfl, fun page hpage => ?_⟩
  rcases page with e | _ | ⟨entry, page⟩
  · exact wp_failReply fun attr => okWithin_resfail e.toNfsstat3_ne_ok attr
  · exact absurd rfl hpage
  · simp only [Prog.bind_assoc, Safe, wp_bind]
    refine wp_mono
      (wp_emitPage_full o trivial (fun e => wp_packEntry_full e hzero rfl) entry page _) ?_
    rintro _ rfl
    exact wp_listingReply_full handle dir .new

end Within

/-- An empty listing is 104 bytes long, or 20 without the attributes of the directory. -/
theorem run_listingReply_empty {σ : Type} (fs : ReadOnlyFs σ) (handle : FileHandle3) (dir : Ino)
    (s : σ) :
    ∃ resok, ((listingReply ⟨handle, 1⟩ dir (.ok ⟨.new, true, 0⟩)).run fs s).1 =
        .ok (.success ⟨beU32 nfs3Ok ++ resok⟩) ∧
      ((∃ attr, (fs (.getattr dir) s).1 = .ok attr) ∧ resok.length = 104 ∨
        (∃ e, (fs (.getattr dir) s).1 = .error e) ∧ resok.length = 20) := by
  have hresok := fun attr => writer_resok handle attr .new true
  rw [listingReply, if_neg (by simp), writePostOpAttrBestEffort_eq handle.encode, bestEffort]
  simp only [Prog.bind_assoc, FsProg.run_getattr_bind]
  rcases hattr : (fs (.getattr dir) s).1 with e | attr
  · refine ⟨_, congrArg (fun w => Except.ok (ProcOutcome.success w)) (hresok none),
      .inr ⟨⟨e, rfl⟩, ?_⟩⟩
    rw [length_readdirResok]
    rfl
  · refine ⟨_, congrArg (fun w => Except.ok (ProcOutcome.success w)) (hresok (some _)),
      .inl ⟨⟨attr, rfl⟩, ?_⟩⟩
    rw [length_readdirResok]
    rfl

theorem run_readdirAt_empty {σ : Type} (fs : ReadOnlyFs σ) (o : Overflow) {fuel : Nat}
    (handle : FileHandle3) (plus : Bool) {dir : Ino} {cookie : UInt64} {budget : UInt32} {s : σ}
    (hbudget : budget.toNat ≤ 128) (hcookie : 2 ≤ cookie.toNat) (hfuel : 0 < fuel)
    (hpage : (fs (.readdir dir (traitOffset cookie)) s).1 = .ok []) :
    ∃ resok, ((readdirAt o fuel ⟨handle, 1⟩ plus dir cookie budget).run fs s).1 =
        .ok (.success ⟨beU32 nfs3Ok ++ resok⟩) ∧
      ((∃ attr, (fs (.getattr dir) (fs (.readdir dir (traitOffset cookie)) s).2).1 = .ok attr) ∧
          resok.length = 104 ∨
        (∃ e, (fs (.getattr dir) (fs (.readdir dir (traitOffset cookie)) s).2).1 = .error e) ∧
          resok.length = 20) := by
  obtain ⟨fuel, rfl⟩ := Nat.exists_eq_succ_of_ne_zero hfuel.ne'
  obtain ⟨next, hnext, hempty, -⟩ := readdirAt_of_two_le o fuel handle plus dir hbudget hcookie
  rw [Nat.succ_eq_add_one, hnext, FsProg.run_readdir_bind, hpage, hempty]
  exact run_listingReply_empty fs handle dir _

section Handle

variable {σ : Type} (o : Overflow) (handle : FileHandle3) (config : Config)
  (env : Handler ServerSig σ) (s : σ)

/-- If the reply is an `NFS3_OK` listing, its `resok` part is within what was asked for. -/
def RepliesWithin (budget xid : UInt32) (result : Except Halt (Option Bytes)) : Prop :=
  ∀ reply resok, result = .ok (some reply) →
    acceptedPayload xid reply = some (beU32 nfs3Ok ++ resok) → resok.length ≤ budget.toNat

variable {fuel : Nat} {body fh : Bytes} {xid budget : UInt32} {plus : Bool} {cookie : UInt64}
  {dir : Ino}

theorem repliesWithin_iff (hasks : Asks body xid (.readdir plus fh cookie budget))
    (hfh : handle.resolve fh = some dir) :
    RepliesWithin budget xid ((handleMessage o fuel handle config body).run env s).1 ↔
      ∀ outcome, ((readdirAt o fuel ⟨handle, 1⟩ plus dir cookie budget).run env.left s).1 =
        .ok outcome → OkWithin budget.toNat outcome := by
  rw [handleMessage_of_readdir o fuel handle config hasks hfh, run_bind_ret, run_inl_left]
  rcases ((readdirAt o fuel ⟨handle, 1⟩ plus dir cookie budget).run env.left s).1 with why | outcome
  · refine ⟨fun _ => nofun, fun _ => ?_⟩
    rintro reply resok ⟨⟩
  · refine ⟨?_, ?_⟩
    · rintro h _ ⟨⟩ resok rfl
      exact h _ resok rfl (by rw [acceptedPayload_buildReply])
    · rintro h _ resok ⟨⟩ hpayload
      rw [acceptedPayload_buildReply] at hpayload
      cases outcome with
      | success w =>
        obtain ⟨buf⟩ := w
        obtain rfl := Option.some.inj hpayload
        exact h _ rfl resok rfl
      | procUnavail => cases hpayload
      | garbageArgs => cases hpayload

/-- A directory reply is within what the client asked for if, and only if, that was at least
104 bytes, or `.` or `..` is still to come, or the directory has a page to offer or fails, or
20 bytes were asked for and the directory has no attributes to send along. -/
theorem readdir_reply_within_budget_iff (hasks : Asks body xid (.readdir plus fh cookie budget))
    (hfh : handle.resolve fh = some dir) (hfuel : 0 < fuel) :
    RepliesWithin budget xid ((handleMessage o fuel handle config body).run env s).1 ↔
      104 ≤ budget.toNat ∨ cookie.toNat < 2 ∨
      (env.left (.readdir dir (traitOffset cookie)) s).1 ≠ .ok [] ∨
      (20 ≤ budget.toNat ∧
        ∃ e, (env.left (.getattr dir) (env.left (.readdir dir (traitOffset cookie)) s).2).1 =
          .error e) := by
  rw [repliesWithin_iff o handle config env s hasks hfh]
  by_cases hroom : 104 ≤ budget.toNat
  · refine ⟨fun _ => .inl hroom, fun _ outcome hrun resok hresok => ?_⟩
    have hlen := (safe_readdirAt o fuel handle plus dir cookie budget).run env.left.meets_anyAnswer
      hrun
    exact okWithin_of_payload (by omega) resok hresok
  have hbudget : budget.toNat ≤ 128 := by omega
  by_cases hcookie : cookie.toNat < 2
  · refine ⟨fun _ => .inr (.inl hcookie), fun _ outcome hrun resok hresok => ?_⟩
    have := (safe_readdirAt_dots o fuel handle plus dir hbudget hcookie).run
      env.left.meets_anyAnswer hrun resok hresok
    omega
  by_cases hpage : (env.left (.readdir dir (traitOffset cookie)) s).1 = .ok []
  · obtain ⟨resok, hrun, hlen⟩ := run_readdirAt_empty env.left o handle plus hbudget
      (not_lt.mp hcookie) hfuel hpage
    rw [hrun]
    refine ⟨fun h => ?_, ?_⟩
    · have hle := h _ rfl resok rfl
      rcases hlen with ⟨-, hlen⟩ | ⟨hattr, hlen⟩
      · omega
      · exact .inr (.inr (.inr ⟨by omega, hattr⟩))
    · rintro (h | h | h | ⟨hle, e, he⟩)
      · omega
      · exact absurd h hcookie
      · exact absurd hpage h
      · rintro _ ⟨⟩ resok' hresok
        injection hresok with hresok
        injection hresok with hresok
        obtain rfl := List.append_cancel_left hresok
        rcases hlen with ⟨⟨attr, hattr⟩, -⟩ | ⟨-, hlen⟩
        · rw [he] at hattr
          cases hattr
        · omega
  · refine ⟨fun _ => .inr (.inr (.inl hpage)), fun _ outcome hrun resok hresok => ?_⟩
    obtain ⟨fuel, rfl⟩ := Nat.exists_eq_succ_of_ne_zero hfuel.ne'
    obtain ⟨next, hnext, -, hsafe⟩ := readdirAt_of_two_le o fuel handle plus dir hbudget
      (not_lt.mp hcookie)
    rw [Nat.succ_eq_add_one, hnext, FsProg.run_readdir_bind] at hrun
    have := (hsafe _ hpage).run env.left.meets_anyAnswer hrun resok hresok
    omega

end Handle

/-- An empty listing is sent to a client that asked for no bytes at all: the example root is
listed from behind its last entry. -/
theorem empty_listing_exceeds_count :
    ¬ RepliesWithin 0 7 ((handleMessage .wraps 1 ⟨List.replicate 16 0, rfl⟩ localConfig
      (readdirMessage 7 false (FileHandle3.encode ⟨List.replicate 16 0, rfl⟩ rootIno) 5 0)).run
        memServer (.new, false)).1 := by
  rw [repliesWithin_iff .wraps _ localConfig memServer _
    (asks_readdirMessage 7 false (by decide) 5 0) (FileHandle3.resolve_encode _ rootIno)]
  intro h
  obtain ⟨resok, hrun, hlen⟩ := run_readdirAt_empty memServer.left .wraps
    ⟨List.replicate 16 0, rfl⟩ false (show (0 : UInt32).toNat ≤ 128 by decide)
    (show 2 ≤ (5 : UInt64).toNat by decide)
    Nat.one_pos (show (memServer.left (.readdir rootIno (traitOffset 5)) (.new, false)).1 = .ok []
      from rfl)
  have hle : resok.length ≤ 0 := h _ hrun resok rfl
  omega

/-- A client that asked for 104 bytes gets an empty listing within them. -/
theorem readdir_reply_within_budget_iff_root :
    RepliesWithin 104 7 ((handleMessage .wraps 1 ⟨List.replicate 16 0, rfl⟩ localConfig
      (readdirMessage 7 false (FileHandle3.encode ⟨List.replicate 16 0, rfl⟩ rootIno) 5 104)).run
        memServer (.new, false)).1 :=
  (readdir_reply_within_budget_iff .wraps _ localConfig memServer _
    (asks_readdirMessage 7 false (by decide) 5 104) (FileHandle3.resolve_encode _ rootIno)
    Nat.one_pos).mpr (.inl (by decide))

end Anymount.Nfs
