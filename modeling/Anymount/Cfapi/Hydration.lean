import Anymount.Cfapi

/-!
# Hydrating a file

What `stream_fetch` transfers when the filesystem reads the file as it is: the requested range,
in order, in chunks that are aligned except for the last. For any other filesystem the loop
still ends, and no slice of the chunk buffer is out of range.
-/
namespace Anymount.Cfapi

open Library Library.Prog

/-- A read fills as much of the buffer as the file has from the offset on, with its content. -/
def ReadsFile (content : Bytes) (offset : UInt64) {len : Nat} (answer : ReadAnswer len) : Prop :=
  answer.result = .ok (min len (content.length - offset.toNat)) ∧
    answer.buf.take (min len (content.length - offset.toNat)) =
      (content.drop offset.toNat).take (min len (content.length - offset.toNat))

/-- As long as the state is one of `I`, which reading does not leave, the handle reads the
file. -/
structure OpenFile {σ : Type} (fs : ReadOnlyFs σ) (content : Bytes) (fh : FileHandle)
    (I : σ → Prop) : Prop where
  read : ∀ s, I s → ∀ position buf,
    ReadsFile content position (fs (.readAt fh position buf) s).1
  keep : ∀ s, I s → ∀ position buf, I (fs (.readAt fh position buf) s).2

/-- What hydrates the `length` bytes from `offset` on. -/
structure Hydrated (content : Bytes) (offset length : Int) (ts : List Transfer) : Prop where
  success : ∀ t ∈ ts, t.status = .success
  whole : (ts.map Transfer.data).flatten = (content.drop offset.toNat).take length.toNat
  /-- One after the other, each with as much data as it says. -/
  covers : Covers offset (offset + length) ts
  /-- The data belongs where the transfer says it does. -/
  declared : ∀ t ∈ ts, t.length.toInt = t.data.length ∧
    t.data = (content.drop t.offset.toInt.toNat).take t.data.length
  aligned : ∀ t ∈ ts.dropLast, t.offset.toInt % 4096 = 0 ∧ t.length.toInt % 4096 = 0

/-! ## Chunks -/

/-- The transfers deliver `[start, stop)` of the file in chunks. -/
inductive Chunks (content : Bytes) : Int → Int → List Transfer → Prop where
  | done (stop : Int) : Chunks content stop stop []
  | sent {start stop : Int} {n : Nat} {t : Transfer} {ts : List Transfer}
      (offset : t.offset.toInt = start) (length : t.length.toInt = n)
      (data : t.data = (content.drop start.toNat).take n) (inside : start + n ≤ content.length)
      (nonneg : 0 ≤ start) (pos : 0 < n) (status : t.status = .success)
      (aligned : ts ≠ [] → start % 4096 = 0 ∧ (n : Int) % 4096 = 0)
      (rest : Chunks content (start + n) stop ts) : Chunks content start stop (t :: ts)

namespace Chunks

variable {content : Bytes} {start stop : Int} {ts : List Transfer}

theorem le (h : Chunks content start stop ts) : start ≤ stop := by
  induction h with
  | done => exact le_refl _
  | sent => omega

theorem eq_nil (h : Chunks content stop stop ts) : ts = [] := by
  generalize hstart : stop = start at h
  cases h with
  | done => rfl
  | sent _ _ _ _ _ hpos _ _ hrest =>
    have := hrest.le
    omega

theorem length_data {n : Nat} (hnonneg : 0 ≤ start) (hinside : start + n ≤ content.length) :
    ((content.drop start.toNat).take n).length = n := by
  rw [List.length_take, List.length_drop]
  omega

theorem flatten_data (h : Chunks content start stop ts) :
    (ts.map Transfer.data).flatten = (content.drop start.toNat).take (stop - start).toNat := by
  induction h with
  | done stop => simp
  | @sent start stop n t ts _ _ hdata _ hnonneg _ _ _ hrest ih =>
    have hle := hrest.le
    rw [List.map_cons, List.flatten_cons, hdata, ih,
      show (start + n).toNat = start.toNat + n by omega,
      show (stop - start).toNat = n + (stop - (start + n)).toNat by omega, List.take_add,
      List.drop_drop]

theorem hydrated {offset length : Int} (h : Chunks content offset (offset + length) ts) :
    Hydrated content offset length ts where
  success := by
    generalize offset + length = stop at h
    induction h with
    | done => nofun
    | sent _ _ _ _ _ _ hstatus _ _ ih => exact List.forall_mem_cons.mpr ⟨hstatus, ih⟩
  whole := by
    rw [h.flatten_data]
    congr 1
    omega
  covers := by
    generalize offset + length = stop at h
    induction h with
    | done stop => exact .done stop
    | sent hoffset hlength hdata hinside hnonneg _ hstatus _ _ ih =>
      refine .sent hoffset ?_ hstatus (by rw [hlength]; exact ih)
      rw [hlength, hdata, length_data hnonneg hinside]
  declared := by
    generalize offset + length = stop at h
    induction h with
    | done => nofun
    | sent hoffset hlength hdata hinside hnonneg _ _ _ _ ih =>
      refine List.forall_mem_cons.mpr ⟨?_, ih⟩
      rw [hlength, hoffset, hdata, length_data hnonneg hinside]
      exact ⟨rfl, rfl⟩
  aligned := by
    generalize offset + length = stop at h
    induction h with
    | done => nofun
    | @sent start stop n t ts hoffset hlength _ _ _ _ _ haligned _ ih =>
      cases ts with
      | nil => nofun
      | cons u us =>
        refine List.forall_mem_cons.mpr ⟨?_, ih⟩
        rw [hoffset, hlength]
        exact haligned (List.cons_ne_nil u us)

end Chunks

/-! ## The loop -/

section Loop

variable {σ τ : Type} {fs : ReadOnlyFs σ} {execute : Handler TransferSig τ} {content : Bytes}
  {I : σ → Prop}

/-- A program that succeeds and whose transfers deliver `[start, stop)` of the file. -/
def Streams (fs : ReadOnlyFs σ) (execute : Handler TransferSig τ) (content : Bytes)
    (p : FetchProg (FsResult Unit)) (start stop : Int) (st : σ × τ) : Prop :=
  (p.run (fs.sum execute) st).1 = .ok (.ok ()) ∧
    Chunks content start stop (issued (fs.sum execute) p st)

/-- A trait call transfers nothing. -/
theorem streams_inl {c : FsCall} {k : c.Answer → FetchProg (FsResult Unit)} {start stop : Int}
    {st : σ × τ}
    (h : Streams fs execute content (k (fs c st.1).1) start stop ((fs c st.1).2, st.2)) :
    Streams fs execute content ((perform (S := FsSig) c).inl >>= k) start stop st := h

/-- A read of the file fills the whole buffer if the file goes that far. -/
theorem ReadsFile.full {offset : UInt64} {len n : Nat} {answer : ReadAnswer len}
    (h : ReadsFile content offset answer) (hn : len = n)
    (hlen : offset.toNat + n ≤ content.length) :
    answer.result = .ok n ∧ answer.buf = (content.drop offset.toNat).take n := by
  subst hn
  obtain ⟨hresult, hbuf⟩ := h
  have hmin : min len (content.length - offset.toNat) = len := by omega
  rw [hmin] at hresult hbuf
  refine ⟨hresult, ?_⟩
  rw [← hbuf, List.take_of_length_le answer.length_buf.le]

/-- A full chunk is transferred, and the loop goes on behind it. -/
theorem streams_useAnswer {here left : Int64} {start stop : Int} {want len : Nat}
    {answer : ReadAnswer len} {next : Nat → FetchProg (FsResult Unit)} {st : σ × τ}
    (hhere : here.toInt = start) (hnonneg : 0 ≤ start) (hwant : 0 < want) (hsize : want < 2 ^ 63)
    (hinside : start + want ≤ content.length)
    (hanswer : answer.result = .ok want ∧ answer.buf = (content.drop start.toNat).take want)
    (hnext : ∀ t, Streams fs execute content (next want) (start + want) stop (st.1, t))
    (haligned : start + want ≠ stop → start % 4096 = 0 ∧ (want : Int) % 4096 = 0) :
    Streams fs execute content (useAnswer here left want answer next) start stop st := by
  obtain ⟨result, buf, hlen⟩ := answer
  obtain ⟨rfl, rfl⟩ : result = .ok want ∧ buf = (content.drop start.toNat).take want := hanswer
  obtain ⟨n, rfl⟩ : ∃ n, want = n + 1 := ⟨want - 1, by omega⟩
  have hword : (Int64.ofNat (n + 1)).toInt = (n + 1 : Nat) := Int64.toInt_ofNat_of_lt hsize
  have hdata : ((content.drop start.toNat).take (n + 1)).take (n + 1) =
      (content.drop start.toNat).take (n + 1) := by rw [List.take_take, min_self]
  simp only [useAnswer, min_self, hdata]
  obtain ⟨hreturns, hchunks⟩ := hnext (execute
    ⟨(content.drop start.toNat).take (n + 1), here, .ofNat (n + 1), .success⟩ st.2).2
  refine ⟨hreturns, .sent hhere hword rfl hinside hnonneg hwant rfl ?_ hchunks⟩
  intro hmore
  refine haligned fun hstop => hmore ?_
  rw [hstop] at hchunks
  exact hchunks.eq_nil

/-- A buffer holds a full chunk or all that was asked for. -/
def FitsChunk (length : Int) (size : Nat) : Prop :=
  0 < size ∧ size ≤ transferChunk ∧ (size = transferChunk ∨ length ≤ size)

theorem fitsChunk_bufferLen {length : Int64} (hlength : 0 < length.toInt) :
    FitsChunk length.toInt (bufferLen .w64 length) := by
  have hlt := length.toInt_lt
  unfold FitsChunk
  rw [bufferLen, PointerWidth.usize, toNat_toUInt64_of_nonneg hlength.le, transferChunk]
  omega

/-- From any point of the loop on, the rest of the range is delivered. A chunk that is not the
last fills the buffer, which is then a full chunk long. -/
theorem streamLoop_streams (o : Overflow) {offset length : Int64} {fh : FileHandle}
    (hfile : OpenFile fs content fh I) (hoffset : 0 ≤ offset.toInt)
    (hsize : offset.toInt + length.toInt ≤ content.length)
    (hbound : content.length < 2 ^ 63) (fuel : Nat) {sent : Int64} {buf : Bytes}
    (hsent : 0 ≤ sent.toInt) (hle : sent.toInt ≤ length.toInt)
    (hfuel : (length.toInt - sent.toInt).toNat < fuel)
    (hbuf : FitsChunk length.toInt buf.length)
    (haligned : sent.toInt < length.toInt → (offset.toInt + sent.toInt) % 4096 = 0) {st : σ × τ}
    (hst : I st.1) :
    Streams fs execute content (streamLoop o fh offset length fuel sent buf)
      (offset.toInt + sent.toInt) (offset.toInt + length.toInt) st := by
  induction fuel generalizing sent buf st with
  | zero => omega
  | succ fuel ih =>
    by_cases hlt : sent.toInt < length.toInt
    · have hhere := toInt_add_of_inI64 (a := offset) (b := sent) ⟨by omega, by omega⟩
      have hposition : (offset + sent).toUInt64.toNat = (offset.toInt + sent.toInt).toNat := by
        rw [toNat_toUInt64_of_nonneg (by omega), hhere]
      generalize hw : min (length.toInt - sent.toInt).toNat buf.length = want
      rw [streamLoop_pass o hoffset (by omega) fh fuel hsent hlt buf hw.symm]
      obtain ⟨hpos, hshort, hfits⟩ := id hbuf
      rw [transferChunk] at hshort hfits
      have htake : (buf.take want).length = want := by
        rw [List.length_take]
        omega
      have hfull := (hfile.read st.1 hst (offset + sent).toUInt64 (buf.take want)).full htake
        (by omega)
      rw [hposition] at hfull
      refine streams_inl (streams_useAnswer hhere (by omega) (by omega) (by omega) (by omega) hfull
        (fun t => ?_) fun hmore => ⟨haligned hlt, by omega⟩)
      obtain ⟨hadd, hsum⟩ := addI64_sent o (n := want) hsent (by omega)
      rw [hadd, ret_bind, add_assoc, ← hsum]
      have hkeep := length_refill buf (show want ≤ buf.length by omega)
      exact ih (by omega) (by omega) (by omega)
        ((congrArg (FitsChunk length.toInt) (hkeep _)).mpr hbuf) (fun hlt' => by omega)
        (hfile.keep st.1 hst _ _)
    · rw [streamLoop, if_neg (by rwa [Int64.lt_iff_toInt_lt]), le_antisymm hle (not_lt.mp hlt)]
      exact ⟨rfl, .done _⟩

theorem streamChunks_streams (o : Overflow) {offset length : Int64} {fh : FileHandle}
    (hfile : OpenFile fs content fh I) (hoffset : 0 ≤ offset.toInt) (hlength : 0 < length.toInt)
    (hsize : offset.toInt + length.toInt ≤ content.length) (hbound : content.length < 2 ^ 63)
    (halign : offset.toInt % 4096 = 0) {fuel : Nat} (hfuel : length.toInt.toNat < fuel)
    {st : σ × τ} (hst : I st.1) :
    Streams fs execute content (streamChunks o .w64 fuel fh offset length) offset.toInt
      (offset.toInt + length.toInt) st := by
  have hzero : (0 : Int64).toInt = 0 := rfl
  rw [streamChunks_of_pos o .w64 fuel fh offset hlength]
  have hstreams : Streams fs execute content
      (streamLoop o fh offset length fuel 0 (List.replicate (bufferLen .w64 length) 0))
      (offset.toInt + (0 : Int64).toInt) (offset.toInt + length.toInt) st :=
    streamLoop_streams o hfile hoffset hsize hbound fuel hzero.ge (by omega) (by omega)
      (by rw [List.length_replicate]; exact fitsChunk_bufferLen hlength) (by omega) hst
  rwa [hzero, add_zero] at hstreams

/-- What follows and transfers nothing does not show. -/
theorem streams_quiet {p : FetchProg (FsResult Unit)}
    {f : FsResult Unit → FetchProg (FsResult Unit)} {start stop : Int} {st : σ × τ}
    (hf : ∀ a st, ((f a).run (fs.sum execute) st).1 = .ok a ∧ issued (fs.sum execute) (f a) st = [])
    (h : Streams fs execute content p start stop st) :
    Streams fs execute content (p >>= f) start stop st := by
  refine ⟨?_, ?_⟩
  · have hrun : p.run (fs.sum execute) st = (.ok (.ok ()), (p.run (fs.sum execute) st).2) :=
      Prod.ext h.1 rfl
    rw [run_bind_of_ok hrun]
    exact (hf _ _).1
  · rw [issued_bind_quiet _ fun a st => (hf a st).2]
    exact h.2

end Loop

/-! ## Slices of the buffer -/

section Slicing

variable (o : Overflow) (w : PointerWidth) (fuel : Nat)

/-- The loop with the slices of the source, which panic when they are out of range. The count
is clamped before it is used. -/
def streamLoopSlicing (fh : FileHandle) (offset length : Int64) :
    Nat → Int64 → Bytes → FetchProg (FsResult Unit)
  | 0, _, _ => .halt .fuel
  | fuel + 1, sent, buf =>
    if sent < length then do
      let left ← subI64 o length sent
      let want := min left.toUInt64.toNat buf.length
      let here ← addI64 o offset sent
      let front ← slice buf 0 want
      let answer ← (FsProg.readAt fh here.toUInt64 front).inl
      let buf := answer.buf ++ buf.drop want
      match answer.result with
      | .ok 0 => do
        let e := FsError.io ⟨.unexpectedEof, none, ""⟩
        transferData [] here left e.toNtstatus
        pure (.error e)
      | .ok (n + 1) => do
        let n := min (n + 1) want
        let chunk ← slice buf 0 n
        transferData chunk here (.ofNat n) .success
        let sent ← addI64 o sent (.ofNat n)
        streamLoopSlicing fh offset length fuel sent buf
      | .error e => do
        transferData [] here left e.toNtstatus
        pure (.error e)
    else pure (.ok ())

def streamChunksSlicing (fh : FileHandle) (offset length : Int64) : FetchProg (FsResult Unit) :=
  if length ≤ 0 then do
    transferData [] offset 0 .success
    pure (.ok ())
  else streamLoopSlicing o fh offset length fuel 0 (List.replicate (bufferLen w length) 0)

theorem slice_front {S : Signature} {xs : Bytes} {n : Nat} (h : n ≤ xs.length) :
    (slice xs 0 n : Prog S Bytes) = .ret (xs.take n) := slice_of_le (Nat.zero_le n) h

theorem slice_front_append {S : Signature} {xs ys : Bytes} {n : Nat} (h : n ≤ xs.length) :
    (slice (xs ++ ys) 0 n : Prog S Bytes) = .ret (xs.take n) := by
  rw [slice_front (by rw [List.length_append]; omega), List.take_append_of_le_length h]

/-- No slice is ever out of range, so the loop is the one without them. -/
theorem streamLoopSlicing_eq (fh : FileHandle) (offset length : Int64) (fuel : Nat) (sent : Int64)
    (buf : Bytes) :
    streamLoopSlicing o fh offset length fuel sent buf =
      streamLoop o fh offset length fuel sent buf := by
  induction fuel generalizing sent buf with
  | zero => rfl
  | succ fuel ih =>
    rw [streamLoopSlicing, streamLoop]
    split_ifs
    swap
    · rfl
    congr 1
    funext left
    dsimp only
    congr 1
    funext here
    rw [slice_front (min_le_right _ _), ret_bind]
    congr 1
    funext answer
    unfold useAnswer
    -- What is sent lies in the part that was read, which is the front of the buffer.
    have hsize : ∀ n, min n (min left.toUInt64.toNat buf.length) ≤ answer.buf.length := by
      intro n
      rw [answer.length_buf, List.length_take]
      omega
    rcases answer.result with e | _ | n
    · rfl
    · rfl
    · dsimp only
      rw [slice_front_append (hsize (n + 1)), ret_bind]
      simp only [ih]

theorem streamChunksSlicing_eq (fh : FileHandle) (offset length : Int64) :
    streamChunksSlicing o w fuel fh offset length = streamChunks o w fuel fh offset length := by
  unfold streamChunksSlicing streamChunks
  rw [streamLoopSlicing_eq]

end Slicing

/-! ## The fetch -/

/-- The file is delivered as it is when the filesystem reads it so; whatever the filesystem
does, the loop ends, and the slices of the buffer are all inside it: with slices that panic
outside it is the same program. -/
theorem streamFetch_hydrates (o : Overflow) {σ τ : Type} (fs : ReadOnlyFs σ)
    (execute : Handler TransferSig τ) (ino : Ino) {offset length : Int64}
    (hoffset : 0 ≤ offset.toInt) (hlength : 0 < length.toInt)
    (hend : offset.toInt + length.toInt < 2 ^ 63) (s : σ) (t : τ) {fuel : Nat}
    (hfuel : length.toInt.toNat < fuel) :
    (∀ (content : Bytes) (fh : FileHandle) (I : σ → Prop), content.length < 2 ^ 63 →
      offset.toInt % 4096 = 0 → offset.toInt + length.toInt ≤ content.length →
      (fs (.openFile ino) s).1 = (.ok fh : FsResult FileHandle) → I (fs (.openFile ino) s).2 →
      OpenFile fs content fh I →
        ((streamFetch o .w64 fuel ino offset length).run (fs.sum execute) (s, t)).1 =
          .ok (.ok ()) ∧
        Hydrated content offset.toInt length.toInt
          (issued (fs.sum execute) (streamFetch o .w64 fuel ino offset length) (s, t))) ∧
    ∀ fh : FileHandle,
      streamChunksSlicing o .w64 fuel fh offset length =
        streamChunks o .w64 fuel fh offset length ∧
      ∃ result, ((streamChunksSlicing o .w64 fuel fh offset length).run (fs.sum execute)
        (s, t)).1 = .ok result := by
  have hzero : (0 : Int64).toInt = 0 := rfl
  constructor
  · intro content fh I hbound halign hsize hopen hst hfile
    have hstreams : Streams fs execute content (streamFetch o .w64 fuel ino offset length)
        offset.toInt (offset.toInt + length.toInt) (s, t) := by
      refine streams_inl ?_
      rw [hopen]
      exact streams_quiet (fun _ _ => ⟨rfl, rfl⟩)
        (streamChunks_streams o hfile hoffset hlength hsize hbound halign hfuel hst)
    exact ⟨hstreams.1, hstreams.2.hydrated⟩
  · intro fh
    refine ⟨streamChunksSlicing_eq o .w64 fuel fh offset length, ?_⟩
    rw [streamChunksSlicing_eq, streamChunks_of_pos o .w64 fuel fh offset hlength]
    exact (streamLoop_delivers o hoffset hend fh fuel hzero.ge (by omega) (by omega)
      (by rw [List.length_replicate]; exact (fitsChunk_bufferLen hlength).1)
      (by rw [List.length_replicate]; exact (fitsChunk_bufferLen hlength).2.1) (s, t)).1

/-- In the example the handle is good while it is in the table of open files. -/
theorem openFile_memFs (m : MemFs) {fh : FileHandle} {ino : Ino} {data : Bytes}
    (hdata : m.nodes ino = some (.file data)) :
    OpenFile m.handler data fh fun s => s.openFiles.lookup fh = some ino where
  read := by
    intro s hs position buf
    have hnode : m.node ino = .ok (.file data) := by rw [MemFs.node, hdata]; rfl
    have hlen : ((data.drop position.toNat).take buf.length).length =
        min buf.length (data.length - position.toNat) := by
      rw [List.length_take, List.length_drop]
    change ReadsFile data position (m.readAt fh position buf s)
    unfold ReadsFile MemFs.readAt
    split
    · next h =>
      rw [hs] at h
      cases h
    · next ino' h =>
      rw [hs] at h
      cases h
      split
      · next h =>
        rw [hnode] at h
        cases h
      · next h =>
        rw [hnode] at h
        cases h
      · next data' h =>
        rw [hnode] at h
        cases h
        dsimp only
        rw [← hlen, List.take_left]
        refine ⟨rfl, ?_⟩
        rw [hlen, ← List.length_drop, ← List.take_eq_take_min]
  keep := fun s hs _ _ => hs

/-- The 21 bytes of `hello.txt`. -/
theorem streamFetch_hydrates_hello :
    Hydrated (MemFs.text "Hello from anymount!\n") 0 21
      (issued ((MemFs.new 0 0).handler.sum fun _ u => (true, u))
        (streamFetch .wraps .w64 22 ⟨2⟩ 0 21) (.new, ())) :=
  ((streamFetch_hydrates .wraps (MemFs.new 0 0).handler (fun _ u => (true, u)) ⟨2⟩
    (show 0 ≤ (0 : Int64).toInt by decide) (show 0 < (21 : Int64).toInt by decide) (by decide)
    .new () (show (21 : Int64).toInt.toNat < 22 by decide)).1
    (MemFs.text "Hello from anymount!\n") ⟨1⟩ (fun s => s.openFiles.lookup ⟨1⟩ = some ⟨2⟩)
    (by decide) (by decide) (by decide) rfl rfl (openFile_memFs _ rfl)).2

end Anymount.Cfapi
