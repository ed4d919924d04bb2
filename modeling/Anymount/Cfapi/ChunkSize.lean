import Anymount.Cfapi

/-!
# The size of a chunk

Which slices of the chunk buffer `stream_chunks` offers to `read_at`. The length of a request
is cast to `usize` before the minimum with `TRANSFER_CHUNK` is taken, so where `usize` has 32
bits the buffer of a long request can be too short, or empty.
-/
namespace Anymount.Cfapi

open Library Library.Prog

/-- A `read_at` call: the size of the slice, and what was answered. -/
structure Read where
  len : Nat
  result : FsResult Nat

/-- The count covers the slice; what it claims beyond is clamped. -/
def Read.Filled (r : Read) : Prop := ∃ n, r.result = .ok n ∧ r.len ≤ n

/-- The bytes sent by reads that filled their slices. -/
def sentBy (rs : List Read) : Nat := (rs.map Read.len).sum

/-- As long as the reads fill their slices, each is offered a full chunk or all that is left,
and never nothing. -/
def WellSliced (length : Nat) (rs : List Read) : Prop :=
  ∀ earlier r later, rs = earlier ++ r :: later → (∀ q ∈ earlier, q.Filled) →
    r.len = min transferChunk (length - sentBy earlier) ∧ 0 < r.len

theorem wellSliced_nil (left : Nat) : WellSliced left [] := by
  intro earlier r later h
  simp at h

theorem wellSliced_cons {left : Nat} {r : Read} {rs : List Read}
    (hlen : r.len = min transferChunk left) (hpos : 0 < r.len)
    (hrest : r.Filled → WellSliced (left - r.len) rs) : WellSliced left (r :: rs) := by
  intro earlier q later h hfilled
  cases earlier with
  | nil =>
    cases h
    exact ⟨hlen, hpos⟩
  | cons p earlier =>
    cases h
    obtain ⟨hp, hearlier⟩ := List.forall_mem_cons.mp hfilled
    have hq := hrest hp earlier q later rfl hearlier
    rwa [Nat.sub_sub] at hq

def asRead : (Σ c, FetchSig.Answer c) → Option Read
  | ⟨.inl (.readAt _ _ buf), answer⟩ => some ⟨buf.length, answer.result⟩
  | _ => none

/-- The reads among the calls of a run. -/
def reads {σ α : Type} (env : Handler FetchSig σ) (p : FetchProg α) (s : σ) : List Read :=
  (p.events env s).filterMap asRead

/-! ## The loop -/

section Loop

variable {σ : Type} {env : Handler FetchSig σ} {s : σ} {left : Nat}
  {Ends : Except Halt (FsResult Unit) → Prop}

/-- With `left` bytes to send, the slices are right; and if all of them get filled, everything
is transferred with success and the run ends well. -/
structure Chunking (env : Handler FetchSig σ) (p : FetchProg (FsResult Unit)) (left : Nat)
    (Ends : Except Halt (FsResult Unit) → Prop) (s : σ) : Prop where
  slices : WellSliced left (reads env p s)
  filled : (∀ r ∈ reads env p s, r.Filled) →
    (∀ t ∈ issued env p s, t.status = .success) ∧ Ends (p.run env s).1

theorem chunking_ret {a : FsResult Unit} (h : Ends (.ok a)) : Chunking env (.ret a) left Ends s :=
  ⟨wellSliced_nil left, fun _ => ⟨nofun, h⟩⟩

theorem chunking_halt {why : Halt} (h : Ends (.error why)) :
    Chunking env (.halt why) left Ends s :=
  ⟨wellSliced_nil left, fun _ => ⟨nofun, h⟩⟩

/-- A slice that is not filled ends the loop or leaves the rest unsaid; one that is filled moves
the loop on by its size. -/
theorem chunking_useAnswer {here rest : Int64} {want len : Nat} {answer : ReadAnswer len}
    {next : Nat → FetchProg (FsResult Unit)} (hlen : len = want)
    (hwant : want = min transferChunk left) (hpos : 0 < want)
    (hnext : ∀ s, Chunking env (next want) (left - want) Ends s) (s : σ) :
    WellSliced left (⟨len, answer.result⟩ :: reads env (useAnswer here rest want answer next) s) ∧
      ((∀ r ∈ ⟨len, answer.result⟩ :: reads env (useAnswer here rest want answer next) s,
          r.Filled) →
        (∀ t ∈ issued env (useAnswer here rest want answer next) s, t.status = .success) ∧
          Ends ((useAnswer here rest want answer next).run env s).1) := by
  obtain ⟨result, buf, hbuf⟩ := answer
  subst hlen
  match result with
  | .error e =>
    refine ⟨wellSliced_cons hwant hpos fun _ => wellSliced_nil _, fun hall => ?_⟩
    obtain ⟨n, hn, -⟩ := hall _ List.mem_cons_self
    cases hn
  | .ok 0 =>
    refine ⟨wellSliced_cons hwant hpos fun _ => wellSliced_nil _, fun hall => ?_⟩
    obtain ⟨n, hn, hle⟩ := hall _ List.mem_cons_self
    cases hn
    exact absurd hpos (not_lt.mpr hle)
  | .ok (n + 1) =>
    by_cases hle : len ≤ n + 1
    · simp only [useAnswer, min_eq_right hle]
      obtain ⟨hslices, hfilled⟩ :=
        hnext (env (.inr ⟨buf.take len, here, .ofNat len, .success⟩) s).2
      refine ⟨wellSliced_cons hwant hpos fun _ => hslices, fun hall => ?_⟩
      obtain ⟨hsuccess, hends⟩ := hfilled (List.forall_mem_cons.mp hall).2
      exact ⟨List.forall_mem_cons.mpr ⟨rfl, hsuccess⟩, hends⟩
    · have hshort : ¬ Read.Filled ⟨len, .ok (n + 1)⟩ := by
        rintro ⟨m, hm, hcovers⟩
        cases hm
        exact hle hcovers
      exact ⟨wellSliced_cons hwant hpos fun hfilled => (hshort hfilled).elim,
        fun hall => (hshort (hall _ List.mem_cons_self)).elim⟩

theorem reads_readAt {α : Type} (fh : FileHandle) (position : UInt64) {front : Bytes} {n : Nat}
    (hlen : front.length = n) (k : ReadAnswer front.length → FetchProg α) :
    ∃ result later, reads env ((FsProg.readAt fh position front).inl >>= k) s =
      ⟨n, result⟩ :: later := by
  subst hlen
  exact ⟨_, _, rfl⟩

/-- A read of a slice of the right size. -/
theorem chunking_readAt {fh : FileHandle} {here rest : Int64} {position : UInt64} {front : Bytes}
    {want : Nat} {next : ReadAnswer front.length → Nat → FetchProg (FsResult Unit)}
    (hlen : front.length = want) (hwant : want = min transferChunk left) (hpos : 0 < want)
    (hnext : ∀ answer s, Chunking env (next answer want) (left - want) Ends s) (s : σ) :
    Chunking env ((FsProg.readAt fh position front).inl >>= fun answer =>
      useAnswer here rest want answer (next answer)) left Ends s := by
  obtain ⟨hslices, hfilled⟩ := chunking_useAnswer hlen hwant hpos (hnext _)
    (env (.inl (.readAt fh position front)) s).2
  exact ⟨hslices, hfilled⟩

variable (o : Overflow) {offset length : Int64} {fh : FileHandle}

/-- How a run of the loop ends that never meets a short read: in success, unless the position
overflows or the passes do not suffice. -/
def EndsWell (offset length sent : Int64) (fuel : Nat) : Except Halt (FsResult Unit) → Prop
  | .ok result => result = .ok ()
  | .error .panic => ¬ InI64 (offset.toInt + length.toInt)
  | .error .fuel => fuel ≤ (length.toInt - sent.toInt).toNat

theorem EndsWell.later {sent sent' : Int64} {fuel : Nat}
    {result : Except Halt (FsResult Unit)} (hsent : sent.toInt < sent'.toInt)
    (hle : sent'.toInt ≤ length.toInt) (h : EndsWell offset length sent' fuel result) :
    EndsWell offset length sent (fuel + 1) result := by
  match result with
  | .ok _ => exact h
  | .error .panic => exact h
  | .error .fuel =>
    unfold EndsWell at *
    omega

theorem Chunking.mono {p : FetchProg (FsResult Unit)} {Ends' : Except Halt (FsResult Unit) → Prop}
    (h : Chunking env p left Ends s) (imp : ∀ r, Ends r → Ends' r) : Chunking env p left Ends' s :=
  ⟨h.slices, fun hall => ⟨(h.filled hall).1, imp _ (h.filled hall).2⟩⟩

/-- From any point of the loop on, if the buffer has the size it should have. -/
theorem streamLoop_chunking (fuel : Nat) {sent : Int64} {buf : Bytes} (hsent : 0 ≤ sent.toInt)
    (hle : sent.toInt ≤ length.toInt)
    (hbuf : buf.length = min transferChunk length.toInt.toNat) (s : σ) :
    Chunking env (streamLoop o fh offset length fuel sent buf)
      (length.toInt - sent.toInt).toNat (EndsWell offset length sent fuel) s := by
  induction fuel generalizing sent buf s with
  | zero => exact chunking_halt (Nat.zero_le _)
  | succ fuel ih =>
    have hchunk : transferChunk = 1048576 := rfl
    have hmax := length.toInt_lt
    by_cases hlt : sent.toInt < length.toInt
    · generalize hw : min (length.toInt - sent.toInt).toNat buf.length = want
      rw [streamLoop_iteration o fh fuel hsent hlt buf hw.symm]
      rcases addI64_cases (S := FetchSig) o offset sent with hhere | ⟨hhere, hout⟩
      · have htake : (buf.take want).length = want := by
          rw [List.length_take]
          omega
        rw [hhere, ret_bind]
        refine chunking_readAt htake (by omega) (by omega) (fun answer s' => ?_) s
        obtain ⟨hadd, hsum⟩ := addI64_sent o (n := want) hsent (by omega)
        rw [hadd, ret_bind, show (length.toInt - sent.toInt).toNat - want =
          (length.toInt - (sent + .ofNat want).toInt).toNat by omega]
        have hkeep := length_refill buf (show want ≤ buf.length by omega) answer
        exact (ih (by omega) (by omega) (hkeep.trans hbuf) s').mono fun _ h =>
          h.later (by omega) (by omega)
      · rw [hhere, halt_bind]
        refine chunking_halt fun hin => hout ?_
        have hmin := offset.le_toInt
        obtain ⟨-, hend⟩ := hin
        exact ⟨by omega, by omega⟩
    · rw [streamLoop, if_neg (by rwa [Int64.lt_iff_toInt_lt])]
      exact chunking_ret rfl

end Loop

/-! ## The buffer -/

/-- The cast to a narrow `usize` does no harm if it changes nothing, or if a full chunk is
left. -/
def FullBuffer (w : PointerWidth) (length : Int64) : Prop :=
  w = .w64 ∨ length.toInt < 2 ^ 32 ∨ (transferChunk : Int) ≤ length.toInt % 2 ^ 32

instance (w : PointerWidth) (length : Int64) : Decidable (FullBuffer w length) :=
  inferInstanceAs (Decidable (_ ∨ _ ∨ _))

theorem bufferLen_eq_iff (w : PointerWidth) {length : Int64} (hlength : 0 < length.toInt) :
    bufferLen w length = min transferChunk length.toInt.toNat ↔ FullBuffer w length := by
  have hchunk : transferChunk = 1048576 := rfl
  have hmax := length.toInt_lt
  rw [bufferLen, toNat_toUInt64_of_nonneg hlength.le]
  cases w with
  | w32 =>
    simp only [PointerWidth.usize, FullBuffer, reduceCtorEq, false_or]
    omega
  | w64 =>
    simp only [PointerWidth.usize, FullBuffer, true_or, iff_true]
    omega

theorem bufferLen_le (w : PointerWidth) {length : Int64} (hlength : 0 < length.toInt) :
    bufferLen w length ≤ length.toInt.toNat := by
  rw [bufferLen, toNat_toUInt64_of_nonneg hlength.le]
  cases w with
  | w32 => exact (min_le_right _ _).trans (Nat.mod_le _ _)
  | w64 => exact (min_le_right _ _).trans (Nat.mod_le _ _)

section Chunks

variable {σ : Type} (o : Overflow) (w : PointerWidth) (fuel : Nat) (env : Handler FetchSig σ)
  (fh : FileHandle) (offset length : Int64) (s : σ)

/-- What is promised of a run of `stream_chunks`: the slices are right, and a filesystem that
fills them is not reported as having failed to. -/
structure ChunksRight : Prop where
  slices : WellSliced length.toInt.toNat (reads env (streamChunks o w fuel fh offset length) s)
  success : (∀ r ∈ reads env (streamChunks o w fuel fh offset length) s, r.Filled) →
    ∀ t ∈ issued env (streamChunks o w fuel fh offset length) s, t.status = .success
  noError : (∀ r ∈ reads env (streamChunks o w fuel fh offset length) s, r.Filled) →
    ∀ e, ((streamChunks o w fuel fh offset length).run env s).1 ≠ .ok (.error e)
  returns : (∀ r ∈ reads env (streamChunks o w fuel fh offset length) s, r.Filled) →
    InI64 (offset.toInt + length.toInt) → length.toInt.toNat < fuel →
      ((streamChunks o w fuel fh offset length).run env s).1 = .ok (.ok ())

variable {length}

/-- The first slice is the whole buffer. -/
theorem reads_streamChunks (hlength : 0 < length.toInt) :
    ∃ result later, reads env (streamChunks o w (fuel + 1) fh offset length) s =
      ⟨bufferLen w length, result⟩ :: later := by
  have hzero : (0 : Int64).toInt = 0 := rfl
  have hle := bufferLen_le w hlength
  have hoffset : InI64 (offset.toInt + (0 : Int64).toInt) :=
    ⟨by have := offset.le_toInt; omega, by have := offset.toInt_lt; omega⟩
  have hwant : bufferLen w length = min (length.toInt - (0 : Int64).toInt).toNat
      (List.replicate (bufferLen w length) (0 : UInt8)).length := by
    rw [List.length_replicate, hzero, sub_zero, min_eq_right hle]
  have hfront : ((List.replicate (bufferLen w length) (0 : UInt8)).take
      (bufferLen w length)).length = bufferLen w length := by simp
  rw [streamChunks_of_pos o w (fuel + 1) fh offset hlength,
    streamLoop_iteration o fh fuel hzero.ge hlength _ hwant, addI64_of_inI64 o hoffset, ret_bind]
  exact reads_readAt fh _ hfront _

theorem chunksRight_of_fullBuffer (hlength : 0 < length.toInt) (hfull : FullBuffer w length) :
    ChunksRight o w fuel env fh offset length s := by
  have hzero : (0 : Int64).toInt = 0 := rfl
  have hchunking : Chunking env (streamChunks o w fuel fh offset length) length.toInt.toNat
      (EndsWell offset length 0 fuel) s := by
    rw [streamChunks_of_pos o w fuel fh offset hlength]
    have hbuf : (List.replicate (bufferLen w length) (0 : UInt8)).length =
        min transferChunk length.toInt.toNat := by
      rw [List.length_replicate]
      exact (bufferLen_eq_iff w hlength).mpr hfull
    have h : Chunking env (streamLoop o fh offset length fuel 0 _)
        (length.toInt - (0 : Int64).toInt).toNat (EndsWell offset length 0 fuel) s :=
      streamLoop_chunking o fuel hzero.ge (by omega) hbuf s
    rwa [hzero, sub_zero] at h
  obtain ⟨hslices, hfilled⟩ := hchunking
  refine ⟨hslices, fun hall => (hfilled hall).1, fun hall e herror => ?_,
    fun hall hin hfuel => ?_⟩
  · have hends := (hfilled hall).2
    rw [herror] at hends
    cases hends
  · have hends := (hfilled hall).2
    rcases hrun : ((streamChunks o w fuel fh offset length).run env s).1 with (_ | _) | result
    · rw [hrun] at hends
      exact (hends hin).elim
    · rw [hrun] at hends
      unfold EndsWell at hends
      omega
    · rw [hrun] at hends
      rw [hends]

end Chunks

/-- The slices are right, and a filesystem that fills them is never reported as having ended
early, exactly if the cast leaves a full buffer. The first slice already decides. -/
theorem chunksRight_iff (o : Overflow) (w : PointerWidth) {σ : Type} (env : Handler FetchSig σ)
    (fh : FileHandle) (offset : Int64) {length : Int64} (hlength : 0 < length.toInt) {fuel : Nat}
    (hfuel : 0 < fuel) (s : σ) :
    ChunksRight o w fuel env fh offset length s ↔ FullBuffer w length := by
  refine ⟨fun h => ?_, chunksRight_of_fullBuffer o w fuel env fh offset s hlength⟩
  obtain ⟨fuel, rfl⟩ : ∃ n, fuel = n + 1 := ⟨fuel - 1, by omega⟩
  obtain ⟨result, later, hreads⟩ := reads_streamChunks o w fuel env fh offset s hlength
  have hfirst := h.slices [] _ later hreads nofun
  exact (bufferLen_eq_iff w hlength).mp hfirst.1

/-- A file without an end: every read is filled, with zeros. -/
def endless : ReadOnlyFs Unit
  | .readAt _ _ buf, u => (⟨.ok buf.length, List.replicate buf.length 0, List.length_replicate⟩, u)
  | .openFile _, u => (.ok ⟨1⟩, u)
  | .release _, u => (.ok (), u)
  | .statfs, u => (.ok .default, u)
  | .lookup _ _, u => (.error .notFound, u)
  | .getattr _, u => (.error .notFound, u)
  | .readdir _ _, u => (.error .notADirectory, u)

theorem chunksRight_narrow :
    ChunksRight .panics .w32 1 (endless.sum fun _ u => (true, u)) ⟨1⟩ 0 4296015872 ((), ()) :=
  (chunksRight_iff .panics .w32 (endless.sum fun _ u => (true, u)) ⟨1⟩ 0
    (show 0 < (4296015872 : Int64).toInt by decide) Nat.one_pos ((), ())).mpr (by decide)

/-- Exactly 4 GiB with a 32-bit `usize`: the buffer is empty, and the filesystem, which fills
whatever it is given, is reported as having hit the end of the file. -/
theorem four_gib_reported_as_eof :
    0 < (4294967296 : Int64).toInt ∧
    (∀ position buf, (endless (.readAt ⟨1⟩ position buf) ()).1.result = .ok buf.length) ∧
    ((streamChunks .panics .w32 1 ⟨1⟩ 0 4294967296).run (endless.sum fun _ u => (true, u))
      ((), ())).1 = .ok (.error (.io ⟨.unexpectedEof, none, ""⟩)) ∧
    ¬ ChunksRight .panics .w32 1 (endless.sum fun _ u => (true, u)) ⟨1⟩ 0 4294967296 ((), ()) := by
  refine ⟨by decide, fun _ _ => rfl, rfl, fun h => ?_⟩
  have hreads : reads (endless.sum fun _ u => (true, u))
      (streamChunks .panics .w32 1 ⟨1⟩ 0 4294967296) ((), ()) = [⟨0, .ok 0⟩] := rfl
  exact lt_irrefl 0 (h.slices [] _ [] hreads nofun).2

end Anymount.Cfapi
