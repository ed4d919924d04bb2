import Anymount.Nfs.Reading
import Anymount.Nfs.WellFormed

/-!
# Arithmetic stays in range

The client chooses every cookie, offset and count, and the filesystem every size. In a build
that panics on overflow, handling a message never does: the directory walk stays below the
end of the listing, the budget never goes below zero, and everything else saturates or is
guarded.
-/
namespace Anymount.Nfs

open Library Library.Xdr Library.Prog Rfc1813 NfsProto Readdir

/-- Every page of a directory is a prefix of what it holds from the offset on, or an error.
Nothing else is restricted. -/
def Pages (L : Ino → List DirEntry) : Contract FsSig
  | .readdir dir offset, answer =>
    ∀ page, answer = .ok page → page <+: (L dir).drop offset.toNat
  | _, _ => True

/-- A server over such a filesystem. -/
def ServesPages (L : Ino → List DirEntry) : Contract ServerSig
  | .inl c, r => Pages L c r
  | .inr _, _ => True

theorem ends_of_pages {L : Ino → List DirEntry} {N : Nat} (hN : ∀ dir, (L dir).length ≤ N) (c)
    (r : FsSig.Answer c) (h : Pages L c r) : Ends N c r := by
  cases c with
  | readdir dir offset =>
    intro page hpage hne
    obtain ⟨rest, hsplit⟩ := h page hpage
    have hlen := congrArg List.length hsplit
    have hpos := List.length_pos_iff.mpr hne
    have hdir := hN dir
    rw [List.length_append, List.length_drop] at hlen
    omega
  | _ => trivial

/-- The filesystem reports the counters `s`. -/
def Reports (s : StatFs) : Contract FsSig
  | .statfs, answer => answer = .ok s
  | _, _ => True

/-! ## The budget of a listing -/

/-- The counters of a listing: what is left of the budget is not negative, and every packed
entry has taken up at least 24 bytes of it. -/
def NfsProto.Packing.InRange (budget : UInt32) (st : Packing) : Prop :=
  0 ≤ st.remaining.toInt ∧ st.remaining.toInt + 24 * st.packed.toNat ≤ budget.toNat

instance (budget : UInt32) (st : Packing) : Decidable (Packing.InRange budget st) :=
  inferInstanceAs (Decidable (_ ∧ _))

theorem inRange_start (budget : UInt32) :
    Packing.InRange budget ⟨.new, Int64.ofNat budget.toNat, 0⟩ := by
  have hlt := budget.toNat_lt
  have hbudget : (Int64.ofNat budget.toNat).toInt = budget.toNat :=
    Int64.toInt_ofNat_of_lt (by omega)
  refine ⟨?_, ?_⟩ <;> simp only [hbudget, UInt64.toNat_zero] <;> omega

theorem length_encodeDirent (ctx : Ctx) (ino : Ino) (name : OsString) (cookie : UInt64)
    (plus : Bool) {R : Contract FsSig} {H : Halt → Prop} :
    (encodeDirent ctx ino name cookie plus).wp R H fun w => 24 ≤ w.len := by
  rw [encodeDirent_eq, wp_bind]
  refine wp_mono (wp_extraValue _ _ _) fun extra _ => ?_
  simp only [pure_eq, wp_ret, Writer.len, encodeBool, encodeOpaque, List.length_append,
    length_beU32, length_beU64]
  omega

/-- What one call of the closure does, given how the entry is encoded: it is refused if it
does not fit, and otherwise taken off the budget exactly, whatever the build does on overflow. -/
theorem wp_packEntry (o : Overflow) (ctx : Ctx) (plus : Bool) (e : Entry) {st : Packing}
    (hbudget : st.remaining.toInt < 2 ^ 32) (hcount : st.packed.toNat < 2 ^ 32) {R : Contract FsSig}
    {H : Halt → Prop} {Q : Sink × Packing → Prop}
    (h : (encodeDirent ctx e.ino e.name e.cookie plus).wp R H fun w =>
      (st.remaining.toInt < w.len → Q (.full, st)) ∧
      (w.len ≤ st.remaining.toInt → ∀ st' : Packing, st'.entries.buf = st.entries.buf ++ w.buf →
        st'.remaining.toInt = st.remaining.toInt - w.len →
        st'.packed.toNat = st.packed.toNat + 1 → Q (.accepted, st'))) :
    (packEntry o ctx plus e st).wp R H Q := by
  rw [packEntry, wp_bind]
  refine wp_mono h ?_
  rintro candidate ⟨hfull, htaken⟩
  split
  · next hover => exact hfull (by omega)
  · next hfits =>
    obtain ⟨hsub, hremaining⟩ := subI64_remaining o st.remaining (n := candidate.len)
      (by omega) hbudget
    obtain ⟨hadd, hpacked⟩ := addU64_packed o st.packed hcount
    rw [hsub, ret_bind, hadd, ret_bind]
    exact htaken (by omega) _ (Writer.buf_extendFrom _ _) hremaining hpacked

/-- One entry keeps the counters in range. -/
theorem wp_packEntry_inRange (o : Overflow) (ctx : Ctx) (plus : Bool) {budget : UInt32} (e : Entry)
    {st : Packing} (h : st.InRange budget) {R : Contract FsSig} {H : Halt → Prop} :
    (packEntry o ctx plus e st).wp R H fun r => r.2.InRange budget := by
  have hbudget := budget.toNat_lt
  obtain ⟨hnonneg, hspent⟩ := h
  refine wp_packEntry o ctx plus e (by omega) (by omega) ?_
  refine wp_mono (length_encodeDirent ctx _ _ _ _) fun w hlen => ⟨fun _ => ⟨hnonneg, hspent⟩, ?_⟩
  intro hfits st' _ hremaining hpacked
  show Packing.InRange budget st'
  exact ⟨by omega, by omega⟩

/-- The closure with an assertion in front: it panics when it is called in a state that
violates `J`. -/
def asserting {τ : Type} (J : τ → Prop) [DecidablePred J] (sink : SinkFn τ) : SinkFn τ :=
  fun e st => if J st then sink e st else .halt .panic

/-! ## Slices and padding -/

/-- `resolve` as the machine computes it, with slices that may be out of range. -/
def FileHandle3.resolveSlicing (h : FileHandle3) (bytes : Bytes) : FsProg (Option Ino) :=
  if bytes.length ≠ encodedLen then pure none
  else do
    let front ← slice bytes 0 16
    if !ctEq front h.secret then pure none
    else do
      let ino ← slice bytes 16 24
      pure (some ⟨UInt64.ofNat (beNat ino)⟩)

theorem resolveSlicing_eq (h : FileHandle3) (bytes : Bytes) :
    h.resolveSlicing bytes = ret (h.resolve bytes) := by
  unfold FileHandle3.resolveSlicing FileHandle3.resolve
  by_cases hlen : bytes.length = encodedLen
  · have hlen' : bytes.length = 24 := hlen
    rw [if_neg (not_not.mpr hlen), slice_of_le (by omega) (by omega), ret_bind,
      slice_of_le (by omega) (by omega), ret_bind]
    simp only [hlen, ne_eq, not_true_eq_false, decide_false, Bool.false_or, List.drop_zero,
      Nat.sub_zero]
    split <;> rfl
  · simp [hlen]

/-- The padding of a field of `len` bytes as the machine computes it. -/
def padding64 (o : Overflow) (len : UInt64) : FsProg UInt64 := do
  let missing ← subU64 o 4 (len % 4)
  pure (missing % 4)

theorem padding64_eq (o : Overflow) (len : UInt64) :
    padding64 o len = ret (UInt64.ofNat (Writer.padding len.toNat).length) := by
  have hmod : (len % 4).toNat = len.toNat % 4 := by simp
  have hle : (len % 4).toNat ≤ (4 : UInt64).toNat := by
    rw [hmod]
    exact (Nat.mod_lt _ (by decide)).le
  rw [padding64, subU64_of_le o hle, ret_bind, pure_eq]
  congr 1
  apply UInt64.toNat_inj.mp
  rw [Writer.padding, List.length_replicate, UInt64.toNat_mod,
    UInt64.toNat_sub_of_le _ _ (UInt64.le_iff_toNat_le.mpr hle), hmod,
    toNat_ofNat_u64 (by omega)]
  rfl

/-! ## Handling a message -/

section Handle

variable {o : Overflow} {fuel : Nat} {L : Ino → List DirEntry}

/-- Listings of such a filesystem end within the fuel. -/
theorem exists_bound (hL : ∀ dir, (L dir).length < 2 ^ 64 - 3)
    (hfuel : ∀ dir, (L dir).length < fuel) :
    ∃ N, N + 3 < 2 ^ 64 ∧ N < fuel ∧ ∀ dir, (L dir).length ≤ N := by
  have := hfuel rootIno
  refine ⟨min (fuel - 1) (2 ^ 64 - 4), by omega, by omega, fun dir => ?_⟩
  have := hL dir
  have := hfuel dir
  omega

/-- Handling any message returns. -/
theorem wp_handleMessage_pages (hL : ∀ dir, (L dir).length < 2 ^ 64 - 3)
    (hfuel : ∀ dir, (L dir).length < fuel) (handle : FileHandle3) (config : Config)
    (body : Bytes) :
    (handleMessage o fuel handle config body).Ensures (ServesPages L) fun _ => True := by
  obtain ⟨N, hN, hNfuel, hbound⟩ := exists_bound hL hfuel
  have hlist : ∀ plus dir cookie budget, (serveReaddir 1 o fuel plus dir cookie budget).wp
      (fun c r => ServesPages L (.inl c) r) (fun _ => False) fun _ => True := by
    intro plus dir cookie budget
    refine wp_serveReaddir 1 o fuel plus dir cookie budget fun sink hsink st => ?_
    exact wp_emit_ends (J := fun _ => True) o (fun c r hr => ends_of_pages hbound c r hr) hN
      (fun e st _ => hsink e st) hNfuel dir cookie .synthesize trivial
  refine wp_handleMessage (fun _ => trivial) (fun _ _ => trivial) ?_
  rintro ⟨xid, prog, vers, proc⟩ args hheader
  refine wp_replyTo trivial trivial trivial ?_
  rintro rfl rfl
  have hreply := wp_handleMessage_wellFormed o fuel handle config hheader fun _ => hlist
  rw [handleMessage_of_nfsCall o fuel handle config hheader, wp_bind, wp_inl] at hreply
  rw [dispatch_eq]
  exact wp_mono hreply fun _ _ => trivial

end Handle

theorem memServer_servesPages : memServer.Meets (ServesPages (MemFs.new 0 0).listing) := by
  rintro (c | c) s
  · cases c with
    | readdir dir offset =>
      intro page hpage
      rw [(MemFs.new 0 0).readdir_eq_listing (MemFs.closed_new 0 0) hpage]
    | _ => trivial
  · trivial

end Anymount.Nfs
