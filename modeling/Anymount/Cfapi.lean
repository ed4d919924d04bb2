import Anymount.Library.Bytes
import Anymount.Library.Machine
import Anymount.MemFs

/-!
# Cloud Files data fetches

The handling of a `FETCH_DATA` callback. The platform names a file by the identity stored
in its placeholder and asks for a range; the answer is a sequence of `TRANSFER_DATA`
operations, each completing a part of the range with data or with a failure.
-/
namespace Anymount.Cfapi

open Library Library.Prog

/-- One `TRANSFER_DATA` operation. The buffer is read only when the status is success. -/
structure Transfer where
  data : Bytes
  offset : Int64
  length : Int64
  status : NtStatus
  deriving DecidableEq, Repr

/-- `CfExecute`; the answer is whether it accepted the operation. -/
abbrev TransferSig : Signature := ⟨Transfer, fun _ => Bool⟩

abbrev FetchSig : Signature := FsSig.sum TransferSig

abbrev FetchProg := Prog FetchSig

def transferChunk : Nat := 1024 * 1024

/-- The number a byte string denotes, least significant byte first. -/
def leNat (bytes : Bytes) : Nat := beNat bytes.reverse

/-- Decode a `FileIdentity`; `none` stands for a null pointer. -/
def decodeIno (identity : Option Bytes) : Option Ino :=
  match identity with
  | none => none
  | some bytes => if bytes.length ≠ 8 then none else some ⟨UInt64.ofNat (leNat bytes)⟩

/-- A refused operation is only logged. -/
def transferData (data : Bytes) (offset length : Int64) (status : NtStatus) : FetchProg Unit :=
  .call (S := FetchSig) (.inr ⟨data, offset, length, status⟩) fun _ => .ret ()

/-- What one pass of the loop does with the answer of `read_at`. The count is clamped, not
trusted; `next` goes on after a chunk of the given size. -/
def useAnswer (here left : Int64) (want : Nat) {len : Nat} (answer : ReadAnswer len)
    (next : Nat → FetchProg (FsResult Unit)) : FetchProg (FsResult Unit) :=
  match answer.result with
  | .ok 0 => do
    let e := FsError.io ⟨.unexpectedEof, none, ""⟩
    transferData [] here left e.toNtstatus
    pure (.error e)
  | .ok (n + 1) => do
    let n := min (n + 1) want
    transferData (answer.buf.take n) here (.ofNat n) .success
    next n
  | .error e => do
    transferData [] here left e.toNtstatus
    pure (.error e)

section Stream

variable (o : Overflow) (w : PointerWidth) (fuel : Nat)

/-- The loop of `stream_chunks`, for at most the given number of passes. -/
def streamLoop (fh : FileHandle) (offset length : Int64) :
    Nat → Int64 → Bytes → FetchProg (FsResult Unit)
  | 0, _, _ => .halt .fuel
  | fuel + 1, sent, buf =>
    if sent < length then do
      let left ← subI64 o length sent
      let want := min left.toUInt64.toNat buf.length
      let here ← addI64 o offset sent
      let answer ← (FsProg.readAt fh here.toUInt64 (buf.take want)).inl
      useAnswer here left want answer fun n => do
        let sent ← addI64 o sent (.ofNat n)
        streamLoop fh offset length fuel sent (answer.buf ++ buf.drop want)
    else pure (.ok ())

/-- The size of the buffer for a fetch. -/
def bufferLen (length : Int64) : Nat := min transferChunk (w.usize length.toUInt64.toNat)

def streamChunks (fh : FileHandle) (offset length : Int64) : FetchProg (FsResult Unit) :=
  if length ≤ 0 then do
    transferData [] offset 0 .success
    pure (.ok ())
  else streamLoop o fh offset length fuel 0 (List.replicate (bufferLen w length) 0)

/-- What `stream_fetch` does with the answer of `open`. -/
def streamOpened (offset length : Int64) : FsResult FileHandle → FetchProg (FsResult Unit)
  | .error e => pure (.error e)
  | .ok fh => do
    let result ← streamChunks o w fuel fh offset length
    let _ ← (FsProg.release fh).inl
    pure result

def streamFetch (ino : Ino) (offset length : Int64) : FetchProg (FsResult Unit) := do
  let opened ← (FsProg.openFile ino).inl
  streamOpened o w fuel offset length opened

def handleFetchData (identity : Option Bytes) (offset length : Int64) : FetchProg Unit :=
  match decodeIno identity with
  | none => transferData [] offset length FsError.invalidArgument.toNtstatus
  | some ino => do
    let _ ← streamFetch o w fuel ino offset length
    pure ()

end Stream

/-! ## Completion -/

/-- The transfers complete `[start, stop)`: successes one after the other, each with as much
data as it says, and at most one failure, for all that is left. -/
inductive Covers : Int → Int → List Transfer → Prop where
  | done (stop : Int) : Covers stop stop []
  | failed {start stop : Int} {t : Transfer} (offset : t.offset.toInt = start)
      (length : t.length.toInt = stop - start) (status : t.status ≠ .success) :
      Covers start stop [t]
  | sent {start stop : Int} {t : Transfer} {ts : List Transfer} (offset : t.offset.toInt = start)
      (length : t.length.toInt = t.data.length) (status : t.status = .success)
      (rest : Covers (start + t.length.toInt) stop ts) : Covers start stop (t :: ts)

/-- A request for `length` bytes at `offset` has been answered in full. -/
structure Completes (offset length : Int64) (ts : List Transfer) : Prop where
  covers : Covers offset.toInt (offset.toInt + length.toInt) ts
  empty : length.toInt = 0 → ∃ t, ts = [t] ∧ t.status = .success ∧ t.length.toInt = 0

def asTransfer : FetchSig.Call → Option Transfer
  | .inl _ => none
  | .inr t => some t

/-- The transfers among the calls of a run. -/
def issued {σ α : Type} (env : Handler FetchSig σ) (p : FetchProg α) (s : σ) : List Transfer :=
  (p.calls env s).filterMap asTransfer

section Trace

variable {σ α β : Type} (env : Handler FetchSig σ)

/-- What follows a program, transferring nothing itself, does not show. -/
theorem issued_bind_quiet {f : α → FetchProg β} (hf : ∀ a s, issued env (f a) s = [])
    (p : FetchProg α) (s : σ) : issued env (p >>= f) s = issued env p s := by
  unfold issued at hf ⊢
  rw [calls_bind, List.filterMap_append]
  rcases p.run env s with ⟨_ | a, s'⟩
  · exact List.append_nil _
  · simp only [hf a s', List.append_nil]

/-- A program that returns and whose transfers complete `[start, stop)`. -/
def Delivers (p : FetchProg α) (start stop : Int) (s : σ) : Prop :=
  (∃ a, (p.run env s).1 = .ok a) ∧ Covers start stop (issued env p s)

variable {env}

theorem delivers_ret (a : α) (stop : Int) (s : σ) : Delivers env (.ret a) stop stop s :=
  ⟨⟨a, rfl⟩, .done stop⟩

/-- A trait call transfers nothing. -/
theorem delivers_inl {c : FsCall} {k : c.Answer → FetchProg α} {start stop : Int} {s : σ}
    (h : Delivers env (k (env (.inl c) s).1) start stop (env (.inl c) s).2) :
    Delivers env ((perform (S := FsSig) c).inl >>= k) start stop s := h

/-- Failing all that is left. -/
theorem delivers_failure {here left : Int64} {start stop : Int} (hhere : here.toInt = start)
    (hleft : left.toInt = stop - start) {e : FsError} (a : α) (s : σ) :
    Delivers env (transferData [] here left e.toNtstatus >>= fun _ => .ret a) start stop s :=
  ⟨⟨a, rfl⟩, .failed hhere hleft e.toNtstatus_ne_success⟩

/-- Transferring a chunk and going on behind it. -/
theorem delivers_chunk {data : Bytes} {n : Nat} {here : Int64} {start stop : Int}
    {k : Unit → FetchProg α} {s : σ} (hhere : here.toInt = start) (hdata : data.length = n)
    (hn : n < 2 ^ 63)
    (h : ∀ s, Delivers env (k ()) (start + n) stop s) :
    Delivers env (transferData data here (.ofNat n) .success >>= k) start stop s := by
  have hlen : (Int64.ofNat n).toInt = n := Int64.toInt_ofNat_of_lt hn
  obtain ⟨hreturns, hcovers⟩ := h (env (.inr ⟨data, here, .ofNat n, .success⟩) s).2
  refine ⟨hreturns, .sent hhere (by rw [hlen, hdata]) rfl ?_⟩
  rw [hlen]
  exact hcovers

theorem delivers_useAnswer_stop {here left : Int64} {start stop : Int} (hhere : here.toInt = start)
    (hleft : left.toInt = stop - start) {want len : Nat} {answer : ReadAnswer len}
    (h : answer.result = .ok 0 ∨ ∃ e, answer.result = .error e)
    (next : Nat → FetchProg (FsResult Unit)) (s : σ) :
    Delivers env (useAnswer here left want answer next) start stop s := by
  unfold useAnswer
  rcases h with h | ⟨e, h⟩
  · rw [h]
    exact delivers_failure hhere hleft _ s
  · rw [h]
    exact delivers_failure hhere hleft _ s

theorem delivers_useAnswer {here left : Int64} {start stop : Int} (hhere : here.toInt = start)
    (hleft : left.toInt = stop - start) {want len : Nat} (hwant : 0 < want) (hlen : want ≤ len)
    (hsize : want < 2 ^ 63) (answer : ReadAnswer len) {next : Nat → FetchProg (FsResult Unit)}
    (hnext : ∀ n s, 0 < n → n ≤ want → Delivers env (next n) (start + n) stop s) (s : σ) :
    Delivers env (useAnswer here left want answer next) start stop s := by
  obtain ⟨result, buf, hbuf⟩ := answer
  match result with
  | .error e => exact delivers_useAnswer_stop hhere hleft (.inr ⟨e, rfl⟩) next s
  | .ok 0 => exact delivers_useAnswer_stop hhere hleft (.inl rfl) next s
  | .ok (n + 1) =>
    have hchunk : (buf.take (min (n + 1) want)).length = min (n + 1) want := by
      rw [List.length_take]
      omega
    exact delivers_chunk hhere hchunk (by omega) fun s => hnext _ s (by omega) (by omega)

end Trace

section Spec

variable (o : Overflow) {σ : Type} {env : Handler FetchSig σ} {offset length : Int64}

theorem streamChunks_of_pos (w : PointerWidth) (fuel : Nat) (fh : FileHandle) (offset : Int64)
    (hlength : 0 < length.toInt) :
    streamChunks o w fuel fh offset length =
      streamLoop o fh offset length fuel 0 (List.replicate (bufferLen w length) 0) := by
  have hpos : ¬ length ≤ 0 := fun hle => not_lt.mpr (Int64.le_iff_toInt_le.mp hle) hlength
  rw [streamChunks, if_neg hpos]

/-- One pass of the loop. Only the position can be out of range. -/
theorem streamLoop_iteration (fh : FileHandle) (fuel : Nat) {sent : Int64} (hsent : 0 ≤ sent.toInt)
    (hlt : sent.toInt < length.toInt) (buf : Bytes) {want : Nat}
    (hwant : want = min (length.toInt - sent.toInt).toNat buf.length) :
    streamLoop o fh offset length (fuel + 1) sent buf =
      addI64 o offset sent >>= fun here =>
        (FsProg.readAt fh here.toUInt64 (buf.take want)).inl >>= fun answer =>
          useAnswer here (length - sent) want answer fun n =>
            addI64 o sent (.ofNat n) >>= fun sent =>
              streamLoop o fh offset length fuel sent (answer.buf ++ buf.drop want) := by
  have hmax := length.toInt_lt
  have hleft : InI64 (length.toInt - sent.toInt) := ⟨by omega, by omega⟩
  have hwant' : min (length - sent).toUInt64.toNat buf.length = want := by
    rw [toNat_toUInt64_of_nonneg (by rw [toInt_sub_of_inI64 hleft]; omega),
      toInt_sub_of_inI64 hleft, hwant]
  subst hwant'
  rw [streamLoop, if_pos (Int64.lt_iff_toInt_lt.mpr hlt)]
  simp only [subI64_of_inI64 o hleft, ret_bind]

/-- One pass of the loop while the arithmetic is in range. -/
theorem streamLoop_pass (hoffset : 0 ≤ offset.toInt) (hend : offset.toInt + length.toInt < 2 ^ 63)
    (fh : FileHandle) (fuel : Nat) {sent : Int64} (hsent : 0 ≤ sent.toInt)
    (hlt : sent.toInt < length.toInt) (buf : Bytes) {want : Nat}
    (hwant : want = min (length.toInt - sent.toInt).toNat buf.length) :
    streamLoop o fh offset length (fuel + 1) sent buf =
      (FsProg.readAt fh (offset + sent).toUInt64 (buf.take want)).inl >>= fun answer =>
        useAnswer (offset + sent) (length - sent) want answer fun n =>
          addI64 o sent (.ofNat n) >>= fun sent =>
            streamLoop o fh offset length fuel sent (answer.buf ++ buf.drop want) := by
  have hhere : InI64 (offset.toInt + sent.toInt) := ⟨by omega, by omega⟩
  rw [streamLoop_iteration o fh fuel hsent hlt buf hwant, addI64_of_inI64 o hhere, ret_bind]

/-- Going on behind a chunk. -/
theorem addI64_sent (o : Overflow) {sent : Int64} {n : Nat} (hsent : 0 ≤ sent.toInt)
    (hn : sent.toInt + n < 2 ^ 63) :
    (addI64 o sent (.ofNat n) : FetchProg Int64) = .ret (sent + .ofNat n) ∧
      (sent + .ofNat n).toInt = sent.toInt + n := by
  have hn' : (Int64.ofNat n).toInt = n := Int64.toInt_ofNat_of_lt (by omega)
  have hsum : InI64 (sent.toInt + (Int64.ofNat n).toInt) := ⟨by omega, by omega⟩
  exact ⟨addI64_of_inI64 o hsum, by rw [toInt_add_of_inI64 hsum, hn']⟩

/-- A read leaves the buffer as long as it is. -/
theorem length_refill (buf : Bytes) {want : Nat} (hwant : want ≤ buf.length)
    (answer : ReadAnswer (buf.take want).length) :
    (answer.buf ++ buf.drop want).length = buf.length := by
  rw [List.length_append, answer.length_buf, List.length_drop, List.length_take]
  omega

/-- From any point of the loop on, the rest of the range gets completed. -/
theorem streamLoop_delivers (hoffset : 0 ≤ offset.toInt)
    (hend : offset.toInt + length.toInt < 2 ^ 63) (fh : FileHandle) (fuel : Nat) {sent : Int64}
    {buf : Bytes} (hsent : 0 ≤ sent.toInt) (hle : sent.toInt ≤ length.toInt)
    (hfuel : (length.toInt - sent.toInt).toNat < fuel) (hbuf : 0 < buf.length)
    (hsize : buf.length ≤ transferChunk) (s : σ) :
    Delivers env (streamLoop o fh offset length fuel sent buf) (offset.toInt + sent.toInt)
      (offset.toInt + length.toInt) s := by
  induction fuel generalizing sent buf s with
  | zero => omega
  | succ fuel ih =>
    by_cases hlt : sent.toInt < length.toInt
    · have hhere := toInt_add_of_inI64 (a := offset) (b := sent) ⟨by omega, by omega⟩
      have hleft := toInt_sub_of_inI64 (a := length) (b := sent) ⟨by omega, by omega⟩
      generalize hw : min (length.toInt - sent.toInt).toNat buf.length = want
      rw [streamLoop_pass o hoffset hend fh fuel hsent hlt buf hw.symm]
      have htake : (buf.take want).length = want := by
        rw [List.length_take]
        omega
      rw [transferChunk] at hsize
      refine delivers_inl
        (delivers_useAnswer hhere (by omega) (by omega) htake.ge (by omega) _ ?_ _)
      intro n s' hpos hn
      obtain ⟨hadd, hsum⟩ := addI64_sent o (n := n) hsent (by omega)
      rw [hadd, ret_bind, add_assoc, ← hsum]
      have hkeep := length_refill buf (show want ≤ buf.length by omega)
      exact ih (by omega) (by omega) (by omega) (hbuf.trans_eq (hkeep _).symm)
        ((hkeep _).trans_le hsize) s'
    · rw [streamLoop, if_neg (by rwa [Int64.lt_iff_toInt_lt]), le_antisymm hle (not_lt.mp hlt)]
      exact delivers_ret _ _ s

/-- The filesystem stops claiming to have read bytes into an empty buffer. -/
inductive Unstuck (fs : ReadOnlyFs σ) (fh : FileHandle) (offset : UInt64) : σ → Prop where
  | zero {s : σ} : (fs (.readAt fh offset []) s).1.result = .ok 0 → Unstuck fs fh offset s
  | error {s : σ} {e : FsError} : (fs (.readAt fh offset []) s).1.result = .error e →
      Unstuck fs fh offset s
  | again {s : σ} {n : Nat} : (fs (.readAt fh offset []) s).1.result = .ok (n + 1) →
      Unstuck fs fh offset (fs (.readAt fh offset []) s).2 → Unstuck fs fh offset s

/-- One pass with an empty buffer. -/
theorem streamLoop_nil (hoffset : 0 ≤ offset.toInt) (hend : offset.toInt + length.toInt < 2 ^ 63)
    (hlength : 0 < length.toInt) (fh : FileHandle) (fuel : Nat) :
    streamLoop o fh offset length (fuel + 1) 0 [] =
      (FsProg.readAt fh offset.toUInt64 []).inl >>= fun answer =>
        useAnswer offset length 0 answer fun n =>
          addI64 o 0 (.ofNat n) >>= fun sent =>
            streamLoop o fh offset length fuel sent (answer.buf ++ []) := by
  have hpass := streamLoop_pass o hoffset hend fh fuel (show 0 ≤ (0 : Int64).toInt from le_refl _)
    hlength [] (Nat.min_zero _).symm
  rw [Int64.add_zero, Int64.sub_zero] at hpass
  exact hpass

/-- A count claimed for the empty buffer is clamped to nothing, and the loop is back where it
was. -/
theorem streamLoop_again (fh : FileHandle) (fuel : Nat) {n : Nat}
    {answer : ReadAnswer ([] : Bytes).length} (hresult : answer.result = .ok (n + 1)) :
    (useAnswer offset length 0 answer fun n =>
        addI64 o 0 (.ofNat n) >>= fun sent =>
          streamLoop o fh offset length fuel sent (answer.buf ++ [])) =
      transferData [] offset 0 .success >>= fun _ => streamLoop o fh offset length fuel 0 [] := by
  obtain ⟨result, buf, hbuf⟩ := answer
  obtain rfl : result = .ok (n + 1) := hresult
  obtain rfl : buf = [] := List.eq_nil_of_length_eq_zero hbuf
  have hsum : InI64 ((0 : Int64).toInt + (Int64.ofNat 0).toInt) := by decide
  simp only [useAnswer, Nat.min_zero, List.take_zero, addI64_of_inI64 o hsum, ret_bind]
  rfl

variable {τ : Type} {fs : ReadOnlyFs σ} {execute : Handler TransferSig τ}

/-- With an empty buffer the loop ends only when the filesystem lets it. -/
theorem unstuck_of_returns (hoffset : 0 ≤ offset.toInt)
    (hend : offset.toInt + length.toInt < 2 ^ 63) (hlength : 0 < length.toInt) (fh : FileHandle)
    (fuel : Nat) {s : σ} {t : τ}
    (h : ∃ a, ((streamLoop o fh offset length fuel 0 []).run (fs.sum execute) (s, t)).1 = .ok a) :
    Unstuck fs fh offset.toUInt64 s := by
  induction fuel generalizing s t with
  | zero =>
    obtain ⟨a, ha⟩ := h
    cases ha
  | succ fuel ih =>
    rcases hresult : (fs (.readAt fh offset.toUInt64 []) s).1.result with e | _ | n
    · exact .error hresult
    · exact .zero hresult
    · refine .again hresult ?_
      have hpass : (streamLoop o fh offset length (fuel + 1) 0 []).run (fs.sum execute) (s, t) =
          (streamLoop o fh offset length fuel 0 []).run (fs.sum execute)
            ((fs (.readAt fh offset.toUInt64 []) s).2,
              (execute ⟨[], offset, 0, .success⟩ t).2) := by
        rw [streamLoop_nil o hoffset hend hlength]
        exact congrArg
          (fun p => Prog.run (fs.sum execute) p ((fs (.readAt fh offset.toUInt64 []) s).2, t))
          (streamLoop_again o fh fuel hresult)
      rw [hpass] at h
      exact ih h

theorem delivers_of_unstuck (hoffset : 0 ≤ offset.toInt)
    (hend : offset.toInt + length.toInt < 2 ^ 63) (hlength : 0 < length.toInt) (fh : FileHandle)
    {s : σ} (h : Unstuck fs fh offset.toUInt64 s) (t : τ) :
    ∃ fuel, Delivers (fs.sum execute) (streamLoop o fh offset length fuel 0 []) offset.toInt
      (offset.toInt + length.toInt) (s, t) := by
  have hleft : length.toInt = offset.toInt + length.toInt - offset.toInt := by omega
  induction h generalizing t with
  | zero hresult =>
    refine ⟨1, ?_⟩
    rw [streamLoop_nil o hoffset hend hlength]
    exact delivers_inl (delivers_useAnswer_stop rfl hleft (.inl hresult) _ _)
  | error hresult =>
    refine ⟨1, ?_⟩
    rw [streamLoop_nil o hoffset hend hlength]
    exact delivers_inl (delivers_useAnswer_stop rfl hleft (.inr ⟨_, hresult⟩) _ _)
  | @again s n hresult _ ih =>
    obtain ⟨fuel, hreturns, hcovers⟩ := ih (execute ⟨[], offset, 0, .success⟩ t).2
    refine ⟨fuel + 1, ?_⟩
    rw [streamLoop_nil o hoffset hend hlength]
    refine delivers_inl ((congrArg (fun p => Delivers (fs.sum execute) p offset.toInt
      (offset.toInt + length.toInt) ((fs (.readAt fh offset.toUInt64 []) s).2, t))
      (streamLoop_again o fh fuel hresult)).mpr ?_)
    have hstart : offset.toInt + (0 : Int64).toInt = offset.toInt := add_zero _
    exact ⟨hreturns, .sent rfl rfl rfl (by rw [hstart]; exact hcovers)⟩

variable (w : PointerWidth)

/-- The fetch goes through: there is nothing to read, or the buffer holds something, or the
filesystem does not go on about an empty one. The buffer is empty when `length as usize`
loses every bit of the length. -/
def Proceeds (fs : ReadOnlyFs σ) (fh : FileHandle) (offset length : Int64) (s : σ) : Prop :=
  length.toInt = 0 ∨ 0 < bufferLen w length ∨ Unstuck fs fh offset.toUInt64 s

theorem streamChunks_completes_iff (hoffset : 0 ≤ offset.toInt) (hlength : 0 ≤ length.toInt)
    (hend : offset.toInt + length.toInt < 2 ^ 63) (fh : FileHandle) (s : σ) (t : τ) :
    (∃ fuel, (∃ result, ((streamChunks o w fuel fh offset length).run (fs.sum execute) (s, t)).1 =
        .ok result) ∧
      Completes offset length
        (issued (fs.sum execute) (streamChunks o w fuel fh offset length) (s, t)))
      ↔ Proceeds w fs fh offset length s := by
  unfold streamChunks
  by_cases hle : length ≤ 0
  · have hzero : length.toInt = 0 := le_antisymm (Int64.le_iff_toInt_le.mp hle) hlength
    simp only [if_pos hle]
    refine ⟨fun _ => .inl hzero, fun _ => ⟨0, ⟨_, rfl⟩, ?_, fun _ => ⟨_, rfl, rfl, rfl⟩⟩⟩
    rw [hzero]
    exact .sent rfl rfl rfl (.done _)
  · have hpos : 0 < length.toInt := lt_of_not_ge fun h => hle (Int64.le_iff_toInt_le.mpr h)
    have hcompletes : ∀ {ts}, Covers offset.toInt (offset.toInt + length.toInt) ts →
        Completes offset length ts := fun h => ⟨h, fun hzero => absurd hzero hpos.ne'⟩
    simp only [if_neg hle]
    by_cases hbuf : 0 < bufferLen w length
    · refine ⟨fun _ => .inr (.inl hbuf), fun _ => ⟨length.toInt.toNat + 1, ?_⟩⟩
      obtain ⟨hreturns, hcovers⟩ : Delivers (fs.sum execute)
          (streamLoop o fh offset length _ 0 (List.replicate (bufferLen w length) 0))
          (offset.toInt + (0 : Int64).toInt) (offset.toInt + length.toInt) (s, t) :=
        streamLoop_delivers o hoffset hend fh (length.toInt.toNat + 1)
          (show 0 ≤ (0 : Int64).toInt from le_refl _) hlength (by simp)
          (by rwa [List.length_replicate])
          (by rw [List.length_replicate]; exact min_le_left _ _) (s, t)
      exact ⟨hreturns, hcompletes (by simpa using hcovers)⟩
    · obtain hempty : bufferLen w length = 0 := by omega
      rw [hempty, List.replicate_zero]
      refine ⟨?_, ?_⟩
      · rintro ⟨fuel, hreturns, -⟩
        exact .inr (.inr (unstuck_of_returns o hoffset hend hpos fh fuel hreturns))
      · rintro (hzero | hbuf' | hunstuck)
        · exact absurd hzero hpos.ne'
        · exact absurd hbuf' hbuf
        · obtain ⟨fuel, hreturns, hcovers⟩ : ∃ fuel, Delivers (fs.sum execute)
              (streamLoop o fh offset length fuel 0 []) _ _ (s, t) :=
            delivers_of_unstuck o hoffset hend hpos fh hunstuck t
          exact ⟨fuel, hreturns, hcompletes hcovers⟩

theorem not_completes_nil : ¬ Completes offset length [] := by
  rintro ⟨hcovers, hempty⟩
  by_cases hzero : length.toInt = 0
  · obtain ⟨t, ht, -⟩ := hempty hzero
    cases ht
  · generalize hstop : offset.toInt + length.toInt = stop at hcovers
    cases hcovers
    omega

/-- The handling returns, and its transfers answer the request in full. -/
def Answers (fs : ReadOnlyFs σ) (execute : Handler TransferSig τ) (identity : Option Bytes)
    (offset length : Int64) (s : σ) (t : τ) : Prop :=
  ∃ fuel, (∃ a, ((handleFetchData o w fuel identity offset length).run (fs.sum execute) (s, t)).1 =
      .ok a) ∧
    Completes offset length
      (issued (fs.sum execute) (handleFetchData o w fuel identity offset length) (s, t))

/-- An unrecognized identity fails the whole range, which is no success if that is empty. -/
theorem answers_iff_of_unrecognized {identity : Option Bytes}
    (hidentity : decodeIno identity = none) (hlength : 0 ≤ length.toInt) (s : σ) (t : τ) :
    Answers o w fs execute identity offset length s t ↔ 0 < length.toInt := by
  have hissued : ∀ fuel, issued (fs.sum execute) (handleFetchData o w fuel identity offset length)
      (s, t) = [⟨[], offset, length, FsError.invalidArgument.toNtstatus⟩] := by
    intro fuel
    simp only [handleFetchData, hidentity]
    rfl
  have hreturns : ∀ fuel, ((handleFetchData o w fuel identity offset length).run (fs.sum execute)
      (s, t)).1 = .ok () := by
    intro fuel
    simp only [handleFetchData, hidentity]
    rfl
  refine ⟨?_, fun hpos => ⟨0, ⟨(), hreturns 0⟩, ?_⟩⟩
  · rintro ⟨fuel, -, hcompletes⟩
    refine lt_of_le_of_ne hlength fun hzero => ?_
    rw [hissued] at hcompletes
    obtain ⟨t, ht, hstatus, -⟩ := hcompletes.empty hzero.symm
    cases ht
    cases hstatus
  · rw [hissued]
    exact ⟨.failed rfl (by simp) (FsError.toNtstatus_ne_success _),
      fun hzero => absurd hzero hpos.ne'⟩

/-- After `open`, the handling goes on with its answer. -/
theorem handleFetchData_of_ino {identity : Option Bytes} {ino : Ino}
    (hidentity : decodeIno identity = some ino) (fuel : Nat) (s : σ) (t : τ) :
    (handleFetchData o w fuel identity offset length).run (fs.sum execute) (s, t) =
        (streamOpened o w fuel offset length (fs (.openFile ino) s).1 >>= fun _ => .ret ()).run
          (fs.sum execute) ((fs (.openFile ino) s).2, t) ∧
      issued (fs.sum execute) (handleFetchData o w fuel identity offset length) (s, t) =
        issued (fs.sum execute)
          (streamOpened o w fuel offset length (fs (.openFile ino) s).1 >>= fun _ => .ret ())
          ((fs (.openFile ino) s).2, t) := by
  have hp : handleFetchData o w fuel identity offset length =
      (FsProg.openFile ino).inl >>= fun opened =>
        streamOpened o w fuel offset length opened >>= fun _ => .ret () := by
    simp only [handleFetchData, hidentity, streamFetch, Prog.bind_assoc]
    rfl
  rw [hp]
  exact ⟨rfl, rfl⟩

/-- `stream_fetch` returns a failed `open` before anything is transferred. -/
theorem not_answers_of_failed_open {identity : Option Bytes} {ino : Ino}
    (hidentity : decodeIno identity = some ino) {s : σ} {e : FsError}
    (hopen : (fs (.openFile ino) s).1 = (.error e : FsResult FileHandle)) (t : τ) :
    ¬ Answers o w fs execute identity offset length s t := by
  rintro ⟨fuel, -, hcompletes⟩
  rw [(handleFetchData_of_ino o w hidentity fuel s t).2, hopen] at hcompletes
  exact not_completes_nil hcompletes

/-- With the file open the request is answered as its chunks are; releasing the file
transfers nothing, whatever `release` says. -/
theorem answers_iff_of_open {identity : Option Bytes} {ino : Ino}
    (hidentity : decodeIno identity = some ino) {s : σ} {fh : FileHandle}
    (hopen : (fs (.openFile ino) s).1 = (.ok fh : FsResult FileHandle)) (hoffset : 0 ≤ offset.toInt)
    (hlength : 0 ≤ length.toInt) (hend : offset.toInt + length.toInt < 2 ^ 63) (t : τ) :
    Answers o w fs execute identity offset length s t ↔
      Proceeds w fs fh offset length (fs (.openFile ino) s).2 := by
  rw [← streamChunks_completes_iff o w hoffset hlength hend fh (fs (.openFile ino) s).2 t]
  unfold Answers
  refine exists_congr fun fuel => ?_
  rw [(handleFetchData_of_ino o w hidentity fuel s t).1,
    (handleFetchData_of_ino o w hidentity fuel s t).2, hopen, streamOpened, Prog.bind_assoc]
  rw [returns_bind_iff fun _ _ => ⟨_, rfl⟩, issued_bind_quiet _ fun _ _ => rfl]

end Spec

/-- A request is answered in full, and the handling returns, exactly if `open` succeeds, or
the identity is unrecognized and the range is not empty. With a 32-bit `usize` a length that
is a multiple of `2 ^ 32` moreover leaves it to the filesystem to end the loop. -/
theorem fetchData_answers_iff (o : Overflow) (w : PointerWidth) {σ τ : Type} (fs : ReadOnlyFs σ)
    (execute : Handler TransferSig τ) (identity : Option Bytes) {offset length : Int64}
    (hoffset : 0 ≤ offset.toInt) (hlength : 0 ≤ length.toInt)
    (hend : offset.toInt + length.toInt < 2 ^ 63) (s : σ) (t : τ) :
    Answers o w fs execute identity offset length s t ↔
      (∃ ino fh, decodeIno identity = some ino ∧
        (fs (.openFile ino) s).1 = (.ok fh : FsResult FileHandle) ∧
        Proceeds w fs fh offset length (fs (.openFile ino) s).2) ∨
      decodeIno identity = none ∧ 0 < length.toInt := by
  rcases hidentity : decodeIno identity with _ | ino
  · rw [answers_iff_of_unrecognized o w hidentity hlength]
    simp
  · rcases hopen : ((fs (.openFile ino) s).1 : FsResult FileHandle) with e | fh
    · refine ⟨fun h => absurd h (not_answers_of_failed_open o w hidentity hopen t), ?_⟩
      rintro (⟨ino', fh, hino, hok, -⟩ | ⟨hnone, -⟩)
      · cases hino
        rw [hopen] at hok
        cases hok
      · cases hnone
    · rw [answers_iff_of_open o w hidentity hopen hoffset hlength hend]
      refine ⟨fun h => .inl ⟨ino, fh, rfl, hopen, h⟩, ?_⟩
      rintro (⟨ino', fh', hino, hok, h⟩ | ⟨hnone, -⟩)
      · cases hino
        rw [hopen] at hok
        cases hok
        exact h
      · cases hnone

/-- With a 64-bit `usize` the buffer is never empty when there is something to read. -/
theorem proceeds_w64 {σ : Type} (fs : ReadOnlyFs σ) (fh : FileHandle) (offset : Int64)
    {length : Int64} (hlength : 0 ≤ length.toInt) (s : σ) :
    Proceeds .w64 fs fh offset length s := by
  by_cases hzero : length.toInt = 0
  · exact .inl hzero
  · refine .inr (.inl ?_)
    have := length.toInt_lt
    rw [bufferLen, transferChunk, PointerWidth.usize, toNat_toUInt64_of_nonneg hlength]
    omega

theorem fetchData_answers_hello :
    Answers .wraps .w64 (MemFs.new 0 0).handler (fun _ u => (true, u))
      (some [2, 0, 0, 0, 0, 0, 0, 0]) 0 21 .new () :=
  (fetchData_answers_iff .wraps .w64 (MemFs.new 0 0).handler (fun _ u => (true, u))
    (some [2, 0, 0, 0, 0, 0, 0, 0]) (by decide) (by decide) (by decide) .new ()).mpr
    (.inl ⟨⟨2⟩, ⟨1⟩, by decide, rfl, proceeds_w64 _ _ _ (by decide) _⟩)

/-- A placeholder whose file is gone: `open` fails and nothing is transferred. -/
theorem fetchData_unanswered_after_failed_open :
    ¬ Answers .wraps .w64 (MemFs.new 0 0).handler (fun _ u => (true, u))
      (some [9, 0, 0, 0, 0, 0, 0, 0]) 0 21 .new () :=
  not_answers_of_failed_open .wraps .w64
    (show decodeIno (some [9, 0, 0, 0, 0, 0, 0, 0]) = some ⟨9⟩ by decide)
    (show _ = (.error .notFound : FsResult FileHandle) from rfl) ()

end Anymount.Cfapi
