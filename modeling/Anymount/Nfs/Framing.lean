import Anymount.Nfs.Rpc

/-!
# Record marking

What `read_message` makes of a byte stream, however the stream is cut into reads. The mark
and the body are filled by two different loops; both are single attempts at taking a fixed
number of bytes, so each either gets them all or says why not.
-/
namespace Anymount.Nfs

open Library Library.ChunkStream

/-- The errors after which a connection starts over with the next record mark. -/
def isTimeout (e : IoError) : Bool := e.kind == .wouldBlock || e.kind == .timedOut

/-! ## Filling a buffer -/

/-- What `read_exact_or_eof` reports for an attempt that stopped as `stop` says. -/
def orEofResult (got : Bytes) : Fill IoError → Except IoError (Option Bytes)
  | .full => .ok (some got)
  | .ended => if got = [] then .ok none else .error ⟨.unexpectedEof, none, ""⟩
  | .failed e => .error e

def exactResult (got : Bytes) : Fill IoError → Except IoError Bytes
  | .full => .ok got
  | .ended => .error ⟨.unexpectedEof, none, "failed to fill whole buffer"⟩
  | .failed e => .error e

theorem fillOrEof_loop (len : Nat) : FillLoop len (fun _ => True) orEofResult (fillOrEof len) where
  full fuel filled s hlen := by
    cases fuel with
    | zero => rfl
    | succ fuel => rw [fillOrEof, if_neg (by omega)]; rfl
  ended fuel filled s s' hlt hread := by
    rw [fillOrEof, if_pos hlt, hread, orEofResult]
    simp only
    split <;> rfl
  failed fuel filled s e s' hlt _ hread := by
    rw [fillOrEof, if_pos hlt, hread]
    rfl
  more fuel filled s chunk s' hlt hne hread := by
    obtain ⟨b, chunk, rfl⟩ := List.exists_cons_of_ne_nil hne
    rw [fillOrEof, if_pos hlt, hread]

theorem fillExact_loop (len : Nat) :
    FillLoop len (fun e => e.kind ≠ .interrupted) exactResult (fillExact len) where
  full fuel filled s hlen := by
    cases fuel with
    | zero => rfl
    | succ fuel => rw [fillExact, if_neg (by omega)]; rfl
  ended fuel filled s s' hlt hread := by
    rw [fillExact, if_pos hlt, hread]
    rfl
  failed fuel filled s e s' hlt he hread := by
    rw [fillExact, if_pos hlt, hread]
    simp only [if_neg he]
    rfl
  more fuel filled s chunk s' hlt hne hread := by
    obtain ⟨b, chunk, rfl⟩ := List.exists_cons_of_ne_nil hne
    rw [fillExact, if_pos hlt, hread]

/-- The only failures on the stream are read timeouts. -/
def OnlyTimeouts (s : Incoming) : Prop := ∀ e, .fail e ∈ s → isTimeout e

theorem OnlyTimeouts.not_interrupted {s : Incoming} (h : OnlyTimeouts s) (e : IoError)
    (he : .fail e ∈ s) : e.kind ≠ .interrupted := by
  have := h e he
  intro hkind
  simp [isTimeout, hkind] at this

theorem readExactOrEof_eq (len : Nat) {s : Incoming} (hs : s.Proper) :
    ∃ taken stop s', Fills len s taken stop s' ∧
      readExactOrEof len s = (orEofResult taken stop, s') :=
  (fillOrEof_loop len).fills len [] hs (fun _ _ => trivial) (Nat.zero_le _) (by simp)

theorem readExact_eq (len : Nat) {s : Incoming} (hs : s.Proper) (hfail : OnlyTimeouts s) :
    ∃ taken stop s', Fills len s taken stop s' ∧ readExact len s = (exactResult taken stop, s') :=
  (fillExact_loop len).fills _ [] hs hfail.not_interrupted (Nat.zero_le _) (by simp)

theorem OnlyTimeouts.of_takes {s s' : Incoming} {taken : Bytes} (h : OnlyTimeouts s)
    (htakes : Takes s taken s') : OnlyTimeouts s' :=
  fun e he => h e (htakes.fails e he)

/-- Everything `read_message` can do: return a message, report the end of the stream, or
fail, by a timeout or otherwise, after having consumed `lost`. -/
theorem readMessage_cases {s : Incoming} (hs : s.Proper) (hfail : OnlyTimeouts s) :
    (∃ hdr body s', hdr.length = 4 ∧ readMessage s = (.ok (some body), s') ∧
      Takes s (hdr ++ body) s') ∨
    (readMessage s = (.ok none, []) ∧ Takes s [] []) ∨
    (∃ e lost s', isTimeout e ∧ readMessage s = (.error e, s') ∧ Takes s lost (.fail e :: s')) ∨
    ∃ e lost s', ¬ isTimeout e ∧ readMessage s = (.error e, s') ∧ Takes s lost s' := by
  have htimeout : ∀ {e lost s'}, Takes s lost (.fail e :: s') → isTimeout e := fun htakes =>
    hfail.of_takes htakes _ List.mem_cons_self
  obtain ⟨hdr, stop, s₁, hfills, hmark⟩ := readExactOrEof_eq 4 hs
  unfold readMessage
  rw [hmark]
  cases hfills with
  | ended htakes hlen =>
    by_cases hempty : hdr = []
    · subst hempty
      exact .inr (.inl ⟨rfl, htakes⟩)
    · refine .inr (.inr (.inr ⟨⟨.unexpectedEof, none, ""⟩, hdr, [], by decide, ?_, htakes⟩))
      simp [orEofResult, hempty]
  | failed htakes hlen =>
    exact .inr (.inr (.inl ⟨_, hdr, s₁, htimeout htakes, rfl, htakes⟩))
  | full htakes hlen =>
    simp only [orEofResult]
    split
    · exact .inr (.inr (.inr ⟨_, hdr, s₁, by decide, rfl, htakes⟩))
    split
    · exact .inr (.inr (.inr ⟨_, hdr, s₁, by decide, rfl, htakes⟩))
    obtain ⟨body, stop, s₂, hfills, hbody⟩ :=
      readExact_eq (UInt32.ofNat (beNat hdr) &&& ~~~lastFragmentBit).toNat (htakes.proper hs)
        (hfail.of_takes htakes)
    rw [hbody]
    cases hfills with
    | full htakes' _ => exact .inl ⟨hdr, body, s₂, hlen, rfl, htakes.trans htakes'⟩
    | ended htakes' _ =>
      exact .inr (.inr (.inr ⟨_, hdr ++ body, [], by decide, rfl, htakes.trans htakes'⟩))
    | failed htakes' _ =>
      exact .inr (.inr (.inl ⟨_, hdr ++ body, s₂, htimeout (htakes.trans htakes'), rfl,
        htakes.trans htakes'⟩))

/-! ### Record marks -/

theorem mark_and_lastFragmentBit (v : UInt32) :
    (lastFragmentBit ||| v) &&& lastFragmentBit ≠ 0 := by
  have habsorb : (lastFragmentBit ||| v) &&& lastFragmentBit = lastFragmentBit := by
    apply UInt32.toBitVec_inj.mp
    ext i hi
    simp only [UInt32.toBitVec_and, UInt32.toBitVec_or, BitVec.getElem_and, BitVec.getElem_or]
    cases lastFragmentBit.toBitVec[i] <;> simp
  rw [habsorb]
  decide

theorem mark_and_not_lastFragmentBit {v : UInt32} (hv : v < lastFragmentBit) :
    (lastFragmentBit ||| v) &&& ~~~lastFragmentBit = v := by
  have hbit : lastFragmentBit.toBitVec = BitVec.twoPow 32 31 := by decide
  have hlow : v.toNat < 2 ^ 31 := UInt32.lt_iff_toNat_lt.mp hv
  apply UInt32.toBitVec_inj.mp
  ext i hi
  simp only [UInt32.toBitVec_and, UInt32.toBitVec_or, UInt32.toBitVec_not, BitVec.getElem_and,
    BitVec.getElem_or, BitVec.getElem_not, hbit, BitVec.getElem_twoPow]
  by_cases h : i = 31
  · subst h
    simp [BitVec.getElem_eq_testBit_toNat, Nat.testBit_lt_two_pow hlow]
  · simp [h]

@[simp] theorem length_frame (body : Bytes) : (frame body).length = 4 + body.length := by
  simp [frame, recordMark]

/-- A frame that no timeout interrupts is read as its body. -/
theorem readMessage_frame {s : Incoming} (hs : s.Proper) (hfail : OnlyTimeouts s)
    {body rest : Bytes} (hbody : body.length ≤ maxFragmentLen.toNat)
    (hcontents : s.contents = frame body ++ rest)
    (hquiet : ∀ k ∈ s.failOffsets, (frame body).length ≤ k) :
    ∃ s', readMessage s = (.ok (some body), s') ∧ Takes s (frame body) s' := by
  have hmax : maxFragmentLen.toNat = 262144 := rfl
  have hlen : (UInt32.ofNat body.length).toNat = body.length :=
    UInt32.toNat_ofNat_of_lt' (by rw [UInt32.size]; omega)
  have hsmall : UInt32.ofNat body.length < lastFragmentBit := by
    rw [UInt32.lt_iff_toNat_lt, hlen]
    exact lt_of_le_of_lt hbody (by decide)
  have hmax' : ¬ UInt32.ofNat body.length > maxFragmentLen := by
    rw [gt_iff_lt, UInt32.lt_iff_toNat_lt, hlen]
    omega
  rw [frame, List.append_assoc] at hcontents
  rw [length_frame] at hquiet
  -- The mark, then the body: neither attempt can end early.
  obtain ⟨hdr, stop, s₁, hfills, hmark⟩ := readExactOrEof_eq 4 hs
  obtain ⟨rfl, rfl, htakes⟩ := hfills.full_of_quiet (by rw [hcontents]; simp [recordMark])
    (fun k hk => by have := hquiet k hk; omega)
  have hdr_eq : s.contents.take 4 = recordMark body := by
    rw [hcontents, List.take_left' (by simp [recordMark])]
  rw [hdr_eq] at htakes hmark
  have hcontents₁ : s₁.contents = body ++ rest := by
    have := htakes.contents
    rw [hcontents] at this
    exact (List.append_cancel_left this).symm
  obtain ⟨got, stop, s₂, hfills, hexact⟩ :=
    readExact_eq body.length (htakes.proper hs) (hfail.of_takes htakes)
  obtain ⟨rfl, rfl, htakes'⟩ := hfills.full_of_quiet (by rw [hcontents₁]; simp) (by
    intro k hk
    have := hquiet (k + 4) (by
      rw [htakes.offsets]
      exact List.mem_map.mpr ⟨k, hk, by simp [recordMark]⟩)
    omega)
  rw [hcontents₁, List.take_left] at hexact htakes'
  refine ⟨s₂, ?_, htakes.trans htakes'⟩
  simp only [readMessage, hmark, orEofResult, recordMark, ofNat_beNat_beU32,
    mark_and_not_lastFragmentBit hsmall, if_neg hmax', hlen, hexact, exactResult]
  rw [if_neg (not_not.mpr (mark_and_lastFragmentBit _))]

/-- The bytes of a list of messages on the wire. -/
def wire (bodies : List Bytes) : Bytes := (bodies.map frame).flatten

@[simp] theorem wire_nil : wire [] = [] := rfl
@[simp] theorem wire_cons (body : Bytes) (bodies : List Bytes) :
    wire (body :: bodies) = frame body ++ wire bodies := rfl
@[simp] theorem wire_append (bodies bodies' : List Bytes) :
    wire (bodies ++ bodies') = wire bodies ++ wire bodies' := by simp [wire]

/-! ## Sequences of frames -/

/-- The results of reading `n` messages one after the other. -/
def readMessages : Nat → Incoming → List (Except IoError (Option Bytes))
  | 0, _ => []
  | n + 1, s => (readMessage s).1 :: readMessages n (readMessage s).2

/-- Reading takes whole frames off the front, whatever comes after them. -/
theorem readMessages_wire {bodies : List Bytes}
    (hsize : ∀ body ∈ bodies, body.length ≤ maxFragmentLen.toNat) {s : Incoming} (hs : s.Proper)
    (hfail : ∀ e, .fail e ∉ s) {rest : Bytes} (hcontents : s.contents = wire bodies ++ rest) :
    ∃ s', Proper s' ∧ (∀ e, .fail e ∉ s') ∧ contents s' = rest ∧ ∀ n,
      readMessages (bodies.length + n) s = bodies.map (.ok ∘ some) ++ readMessages n s' := by
  induction bodies generalizing s with
  | nil => exact ⟨s, hs, hfail, hcontents, fun n => by simp⟩
  | cons body bodies ih =>
    rw [wire_cons, List.append_assoc] at hcontents
    obtain ⟨s₁, hread, htakes⟩ := readMessage_frame hs (fun e he => absurd he (hfail e))
      (hsize body List.mem_cons_self) hcontents (by simp [failOffsets_eq_nil hfail])
    have hcontents₁ : s₁.contents = wire bodies ++ rest :=
      List.append_cancel_left (htakes.contents.symm.trans hcontents)
    obtain ⟨s', hproper, hfail', hrest, hreads⟩ :=
      ih (fun b hb => hsize b (List.mem_cons_of_mem _ hb)) (htakes.proper hs)
        (fun e he => hfail e (htakes.fails e he)) hcontents₁
    refine ⟨s', hproper, hfail', hrest, fun n => ?_⟩
    have hlen : (body :: bodies).length + n = (bodies.length + n) + 1 := by
      rw [List.length_cons]
      omega
    rw [hlen, readMessages, hread, hreads]
    rfl

theorem readMessage_nil {s : Incoming} (hs : s.Proper) (hfail : ∀ e, .fail e ∉ s)
    (hcontents : s.contents = []) : (readMessage s).1 = .ok none := by
  obtain ⟨hdr, stop, s₁, hfills, hmark⟩ := readExactOrEof_eq 4 hs
  obtain ⟨rfl, rfl⟩ := hfills.ended_of_short (by rw [hcontents]; decide) hfail
  rw [readMessage, hmark, hcontents]
  rfl

/-- A frame that stops short is an error, wherever it stops. -/
theorem readMessage_cut {s : Incoming} (hs : s.Proper) (hfail : ∀ e, .fail e ∉ s) {body : Bytes}
    (hbody : body.length ≤ maxFragmentLen.toNat) {k : Nat} (hpos : 0 < k)
    (hlt : k < (frame body).length) (hcontents : s.contents = (frame body).take k) :
    ∃ e, (readMessage s).1 = .error e := by
  have hk : s.contents.length = k := by
    rw [hcontents, List.length_take]
    omega
  obtain ⟨hdr, stop, s₁, hfills, hmark⟩ := readExactOrEof_eq 4 hs
  rw [readMessage, hmark]
  by_cases hshort : k < 4
  · -- Cut inside the record mark.
    obtain ⟨rfl, rfl⟩ := hfills.ended_of_short (by rwa [hk]) hfail
    have hne : s.contents ≠ [] := by
      rw [← List.length_pos_iff, hk]
      exact hpos
    exact ⟨⟨.unexpectedEof, none, ""⟩, by simp [orEofResult, hne]⟩
  · -- Cut inside the body.
    obtain ⟨rfl, rfl, htakes⟩ :=
      hfills.full_of_quiet (by omega) (by simp [failOffsets_eq_nil hfail])
    simp only [orEofResult]
    split
    · exact ⟨_, rfl⟩
    split
    · exact ⟨_, rfl⟩
    have hmark_eq : s.contents.take 4 = recordMark body := by
      rw [hcontents, List.take_take, min_eq_left (by omega), frame,
        List.take_left' (by simp [recordMark])]
    have hlen : (UInt32.ofNat body.length).toNat = body.length :=
      UInt32.toNat_ofNat_of_lt' (lt_of_le_of_lt hbody (by decide))
    have hsmall : UInt32.ofNat body.length < lastFragmentBit := by
      rw [UInt32.lt_iff_toNat_lt, hlen]
      exact lt_of_le_of_lt hbody (by decide)
    have hleft : s₁.contents.length < body.length := by
      have := congrArg List.length htakes.contents
      rw [List.length_append, hmark_eq, recordMark, length_beU32] at this
      rw [length_frame] at hlt
      omega
    have hfail₁ : ∀ e, .fail e ∉ s₁ := fun e he => hfail e (htakes.fails e he)
    obtain ⟨got, stop, s₂, hfills₁, hexact⟩ :=
      readExact_eq body.length (htakes.proper hs) fun e he => absurd he (hfail₁ e)
    obtain ⟨rfl, -⟩ := hfills₁.ended_of_short hleft hfail₁
    rw [hmark_eq, recordMark, ofNat_beNat_beU32, mark_and_not_lastFragmentBit hsmall, hlen, hexact]
    exact ⟨_, rfl⟩

/-! ## What is accepted -/

/-- A body that `read_exact` returns has the length asked for and was taken off the stream,
however often the reads were interrupted. -/
theorem fillExact_ok {len fuel : Nat} {filled body : Bytes} {s s' : Incoming} (hs : s.Proper)
    (hle : filled.length ≤ len) (hfuel : len + s.length ≤ filled.length + fuel)
    (h : fillExact len fuel filled s = (.ok body, s')) :
    body.length = len ∧ ∃ taken, body = filled ++ taken ∧ s.contents = taken ++ s'.contents := by
  induction fuel generalizing filled s with
  | zero =>
    cases h
    exact ⟨by omega, [], (List.append_nil _).symm, rfl⟩
  | succ fuel ih =>
    rw [fillExact] at h
    by_cases hlt : filled.length < len
    · rw [if_pos hlt] at h
      match s with
      | [] => cases h
      | .fail e :: s =>
        have hproper : Proper s := fun c hc => hs c (List.mem_cons_of_mem _ hc)
        simp only [ChunkStream.read] at h
        split at h
        · exact ih (s := s) hproper hle (by simp only [List.length_cons] at hfuel; omega) h
        · cases h
      | .data chunk :: s =>
        rcases read_cases (show 0 < len - filled.length by omega) hs with
          ⟨⟨⟩, -⟩ | ⟨e, s₁, ⟨⟩, -⟩ | ⟨got, s₁, hne, hgot, hread, htakes⟩
        obtain ⟨b, got, rfl⟩ := List.exists_cons_of_ne_nil hne
        have hevents : s₁.length ≤ (Event.data chunk :: s).length := by
          have hs₁ : s₁ = (ChunkStream.read (len - filled.length) (.data chunk :: s)).2 := by
            rw [hread]
          rw [hs₁, ChunkStream.read]
          split <;> simp
        rw [hread] at h
        have hpos : 0 < (b :: got).length := by simp
        obtain ⟨hlen, taken, rfl, htaken⟩ := ih (htakes.proper hs)
          (by rw [List.length_append]; omega) (by rw [List.length_append]; omega) h
        refine ⟨hlen, b :: got ++ taken, by rw [List.append_assoc], ?_⟩
        rw [htakes.contents, htaken, List.append_assoc]
    · rw [if_neg hlt] at h
      cases h
      exact ⟨by omega, [], (List.append_nil _).symm, rfl⟩

/-- What `read_message` accepts: a mark with the last-fragment bit and a length within the
limit, then exactly that many bytes. -/
theorem readMessage_accepts {s s' : Incoming} (hs : s.Proper) {body : Bytes}
    (h : readMessage s = (.ok (some body), s')) :
    ∃ mark : UInt32, s.contents = beU32 mark ++ body ++ s'.contents ∧
      mark &&& lastFragmentBit ≠ 0 ∧ (mark &&& ~~~lastFragmentBit).toNat = body.length ∧
      body.length ≤ maxFragmentLen.toNat := by
  obtain ⟨hdr, stop, s₁, hfills, hmark⟩ := readExactOrEof_eq 4 hs
  rw [readMessage, hmark] at h
  cases hfills with
  | ended htakes hlen =>
    simp only [orEofResult] at h
    by_cases hempty : hdr = []
    · simp only [if_pos hempty] at h
      cases h
    · simp only [if_neg hempty] at h
      cases h
  | failed htakes hlen => cases h
  | full htakes hlen =>
    simp only [orEofResult] at h
    split at h
    · cases h
    next hlast =>
    split at h
    · cases h
    next hmax =>
    rcases hexact : readExact (UInt32.ofNat (beNat hdr) &&& ~~~lastFragmentBit).toNat s₁ with
      ⟨e | got, s₂⟩
    · rw [hexact] at h
      cases h
    rw [hexact] at h
    cases h
    obtain ⟨hbody, taken, rfl, htaken⟩ := fillExact_ok (htakes.proper hs) (Nat.zero_le _)
      (by simp) hexact
    refine ⟨UInt32.ofNat (beNat hdr), ?_, not_not.mp hlast, hbody.symm, ?_⟩
    · rw [beU32_ofNat_beNat hlen, htakes.contents, htaken, List.append_assoc]
    · rw [hbody, ← UInt32.le_iff_toNat_le]
      exact UInt32.not_lt.mp hmax

/-- Framing round-trips under any chunking and accepts nothing else.

* Frames that arrive in any non-empty pieces are read back as their bodies, in order, and
  then the end is reported.
* If the stream stops strictly inside a frame, the frames before it are read back and the
  read of that one fails.
* From any stream at all, whatever fails on it, a message is returned only for a mark with
  the last-fragment bit and a length within the limit, followed by exactly the body; the
  mark and the body are what has been consumed. -/
theorem framing_round_trip (bodies : List Bytes)
    (hsize : ∀ body ∈ bodies, body.length ≤ maxFragmentLen.toNat) :
    (∀ s : Incoming, s.Proper → (∀ e, .fail e ∉ s) → s.contents = wire bodies →
      readMessages (bodies.length + 1) s = bodies.map (.ok ∘ some) ++ [.ok none]) ∧
    (∀ (s : Incoming) (done : List Bytes) (body : Bytes) (k : Nat), s.Proper →
      (∀ e, .fail e ∉ s) → done ++ [body] <+: bodies → 0 < k → k < (frame body).length →
      s.contents = wire done ++ (frame body).take k →
        ∃ e, readMessages (done.length + 1) s = done.map (.ok ∘ some) ++ [.error e]) ∧
    ∀ (s s' : Incoming) (body : Bytes), s.Proper → readMessage s = (.ok (some body), s') →
      ∃ mark : UInt32, s.contents = beU32 mark ++ body ++ s'.contents ∧
        mark &&& lastFragmentBit ≠ 0 ∧ (mark &&& ~~~lastFragmentBit).toNat = body.length ∧
        body.length ≤ maxFragmentLen.toNat := by
  refine ⟨?_, ?_, fun s s' body hs h => readMessage_accepts hs h⟩
  · intro s hs hfail hcontents
    obtain ⟨s', hproper, hfail', hrest, hreads⟩ :=
      readMessages_wire hsize hs hfail (hcontents.trans (List.append_nil _).symm)
    rw [hreads, readMessages, readMessages, readMessage_nil hproper hfail' hrest]
  · intro s done body k hs hfail hpre hpos hlt hcontents
    have hmem : ∀ b ∈ done ++ [body], b.length ≤ maxFragmentLen.toNat := fun b hb =>
      hsize b (hpre.subset hb)
    obtain ⟨s', hproper, hfail', hrest, hreads⟩ :=
      readMessages_wire (fun b hb => hmem b (List.mem_append_left _ hb)) hs hfail hcontents
    obtain ⟨e, he⟩ := readMessage_cut hproper hfail' (hmem body (by simp)) hpos hlt hrest
    exact ⟨e, by rw [hreads, readMessages, readMessages, he]⟩

theorem framing_round_trip_three_reads :
    readMessages 3 [.data [0x80, 0], .data [0, 2, 7], .data [8, 0x80, 0, 0, 0]] =
      [.ok (some [7, 8]), .ok (some []), .ok none] :=
  (framing_round_trip [[7, 8], []] (by decide)).1 _ (by simp [Proper]) (by simp) (by decide)

end Anymount.Nfs
