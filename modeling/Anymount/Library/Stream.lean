import Mathlib

/-!
# Streams delivered in pieces

The receiving end of a socket, as the sequence of things that will happen on it: a chunk
of data arrives, or a read fails. When nothing is left the peer has closed the stream and
reads return nothing. A read takes at most what it asked for out of the next chunk, so
the event list describes every way a stream can be cut up, with errors at any boundary.
-/
namespace Anymount.Library

/-- One thing that happens on a stream of `τ` whose reads fail with `ε`. -/
inductive Event (τ ε : Type) where
  | data (chunk : List τ)
  | fail (e : ε)
  deriving DecidableEq, Repr

abbrev ChunkStream (τ ε : Type) := List (Event τ ε)

namespace ChunkStream

variable {τ ε : Type}

/-- A read into a buffer of length `n`: what arrived, at most `n` of it. An empty result
means the end of the stream. -/
def read (n : Nat) : ChunkStream τ ε → Except ε (List τ) × ChunkStream τ ε
  | [] => (.ok [], [])
  | .fail e :: s => (.error e, s)
  | .data chunk :: s =>
    (.ok (chunk.take n), if chunk.length ≤ n then s else .data (chunk.drop n) :: s)

/-- Everything the stream will deliver. -/
def contents : ChunkStream τ ε → List τ
  | [] => []
  | .fail _ :: s => contents s
  | .data chunk :: s => chunk ++ contents s

/-- No chunk is empty, as no read returns an empty chunk before the end. -/
def Proper (s : ChunkStream τ ε) : Prop := ∀ chunk, .data chunk ∈ s → chunk ≠ []

/-- How much is left to happen. -/
def weight : ChunkStream τ ε → Nat
  | [] => 0
  | .fail _ :: s => weight s + 1
  | .data chunk :: s => chunk.length + weight s + 1

/-- Where the failures are: for each one, how much was delivered before it. -/
def failOffsets : ChunkStream τ ε → List Nat
  | [] => []
  | .fail _ :: s => 0 :: failOffsets s
  | .data chunk :: s => (failOffsets s).map (· + chunk.length)

theorem le_length_contents {s : ChunkStream τ ε} {k : Nat} (hk : k ∈ s.failOffsets) :
    k ≤ s.contents.length := by
  induction s generalizing k with
  | nil => cases hk
  | cons event s ih =>
    cases event with
    | data chunk =>
      obtain ⟨k, hk', rfl⟩ := List.mem_map.mp hk
      have := ih hk'
      rw [contents, List.length_append]
      omega
    | fail e =>
      rcases List.mem_cons.mp hk with rfl | hk
      · exact Nat.zero_le _
      · exact ih hk

/-- The stream delivers `taken` without a failure in between, and goes on as `s'`. -/
structure Takes (s : ChunkStream τ ε) (taken : List τ) (s' : ChunkStream τ ε) : Prop where
  contents : s.contents = taken ++ s'.contents
  offsets : s.failOffsets = s'.failOffsets.map (· + taken.length)
  proper : s.Proper → s'.Proper
  weight : s'.weight + taken.length ≤ s.weight
  fails : ∀ e, .fail e ∈ s' → .fail e ∈ s

theorem Takes.refl (s : ChunkStream τ ε) : Takes s [] s :=
  ⟨rfl, by simp, id, le_rfl, fun _ => id⟩

theorem Takes.trans {s s' s'' : ChunkStream τ ε} {taken taken' : List τ} (h : Takes s taken s')
    (h' : Takes s' taken' s'') : Takes s (taken ++ taken') s'' := by
  refine ⟨?_, ?_, h'.proper ∘ h.proper, ?_, fun e he => h.fails e (h'.fails e he)⟩
  · rw [h.contents, h'.contents, List.append_assoc]
  · rw [h.offsets, h'.offsets, List.map_map, List.length_append]
    exact List.map_congr_left fun k _ => by simp only [Function.comp_apply]; omega
  · have := h.weight
    have := h'.weight
    rw [List.length_append]
    omega

/-- What one read of `n > 0` bytes can do: the stream is at its end, or the next thing on it
is a failure, or some of the next chunk arrives. -/
theorem read_cases {n : Nat} (hn : 0 < n) {s : ChunkStream τ ε} (hs : s.Proper) :
    (s = [] ∧ s.read n = (.ok [], [])) ∨
    (∃ e s', s = .fail e :: s' ∧ s.read n = (.error e, s')) ∨
    ∃ chunk s', chunk ≠ [] ∧ chunk.length ≤ n ∧ s.read n = (.ok chunk, s') ∧ Takes s chunk s' := by
  match s with
  | [] => exact .inl ⟨rfl, rfl⟩
  | .fail e :: s => exact .inr (.inl ⟨e, s, rfl, rfl⟩)
  | .data chunk :: s =>
    have hchunk : chunk ≠ [] := hs chunk List.mem_cons_self
    have hproper : Proper s := fun c hc => hs c (List.mem_cons_of_mem _ hc)
    refine .inr (.inr ⟨chunk.take n, _, ?_, by simp, rfl, ?_⟩)
    · simp only [ne_eq, List.take_eq_nil_iff, not_or]
      exact ⟨by omega, hchunk⟩
    · split
      · rename_i hle
        rw [List.take_of_length_le hle]
        exact ⟨rfl, rfl, fun _ => hproper, by simp only [ChunkStream.weight]; omega,
          fun e he => List.mem_cons_of_mem _ he⟩
      · rename_i hlt
        refine ⟨?_, ?_, fun _ => ?_, ?_, ?_⟩
        · simp only [ChunkStream.contents, ← List.append_assoc, List.take_append_drop]
        · simp only [failOffsets, List.map_map]
          refine List.map_congr_left fun k _ => ?_
          simp only [Function.comp_apply, List.length_drop, List.length_take]
          omega
        · intro c hc
          rcases List.mem_cons.mp hc with h | h
          · obtain rfl := Event.data.inj h
            simp only [ne_eq, List.drop_eq_nil_iff, not_le]
            omega
          · exact hproper c h
        · simp only [ChunkStream.weight, List.length_drop, List.length_take]
          omega
        · intro e he
          rcases List.mem_cons.mp he with h | h
          · cases h
          · exact List.mem_cons_of_mem _ h

/-! ## Filling a buffer -/

/-- How an attempt to fill a buffer stops. -/
inductive Fill (ε : Type) where
  | full | ended | failed (e : ε)

/-- Trying to take `n` out of `s` got `taken`, stopped as `stop` says, and left `s'`. -/
inductive Fills (n : Nat) (s : ChunkStream τ ε) : List τ → Fill ε → ChunkStream τ ε → Prop where
  | full {taken s'} : Takes s taken s' → taken.length = n → Fills n s taken .full s'
  | ended {taken} : Takes s taken [] → taken.length < n → Fills n s taken .ended []
  | failed {taken e s'} : Takes s taken (.fail e :: s') → taken.length < n →
      Fills n s taken (.failed e) s'

theorem Fills.cons {n m : Nat} {s s' s'' : ChunkStream τ ε} {chunk taken : List τ} {stop : Fill ε}
    (hchunk : Takes s chunk s') (hn : chunk.length + m = n) (h : Fills m s' taken stop s'') :
    Fills n s (chunk ++ taken) stop s'' := by
  cases h with
  | full h hlen => exact .full (hchunk.trans h) (by rw [List.length_append]; omega)
  | ended h hlen => exact .ended (hchunk.trans h) (by rw [List.length_append]; omega)
  | failed h hlen => exact .failed (hchunk.trans h) (by rw [List.length_append]; omega)

/-- With enough to come and no failure before it, an attempt succeeds. -/
theorem Fills.full_of_quiet {n : Nat} {s s' : ChunkStream τ ε} {taken : List τ} {stop : Fill ε}
    (h : Fills n s taken stop s') (hlen : n ≤ s.contents.length)
    (hquiet : ∀ k ∈ s.failOffsets, n ≤ k) :
    stop = .full ∧ taken = s.contents.take n ∧ Takes s taken s' := by
  cases h with
  | full h hn =>
    refine ⟨rfl, ?_, h⟩
    rw [h.contents, ← hn, List.take_left]
  | ended h hn =>
    rw [h.contents, ChunkStream.contents, List.append_nil] at hlen
    omega
  | failed h hn =>
    have := hquiet taken.length (by rw [h.offsets]; simp [failOffsets])
    omega

/-- With too little to come and no failure before it, an attempt runs into the end. -/
theorem Fills.ended_of_short {n : Nat} {s s' : ChunkStream τ ε} {taken : List τ} {stop : Fill ε}
    (h : Fills n s taken stop s') (hlen : s.contents.length < n) (hfail : ∀ e, .fail e ∉ s) :
    stop = .ended ∧ taken = s.contents := by
  cases h with
  | full h hn =>
    rw [h.contents, List.length_append] at hlen
    omega
  | ended h hn =>
    refine ⟨rfl, ?_⟩
    rw [h.contents]
    exact (List.append_nil _).symm
  | failed h hn => exact absurd (h.fails _ List.mem_cons_self) (hfail _)

theorem failOffsets_eq_nil {s : ChunkStream τ ε} (h : ∀ e, .fail e ∉ s) : s.failOffsets = [] := by
  induction s with
  | nil => rfl
  | cons event s ih =>
    have hs : failOffsets s = [] := ih fun e he => h e (List.mem_cons_of_mem _ he)
    cases event with
    | data chunk => rw [failOffsets, hs, List.map_nil]
    | fail e => exact absurd List.mem_cons_self (h e)

/-- A loop that reads until it holds `len`: how it uses each read, and in `result` what it
makes of what it got. Only failures in `P` are passed on. -/
structure FillLoop {γ : Type} (len : Nat) (P : ε → Prop) (result : List τ → Fill ε → γ)
    (loop : Nat → List τ → ChunkStream τ ε → γ × ChunkStream τ ε) : Prop where
  full : ∀ fuel filled s, len ≤ filled.length → loop fuel filled s = (result filled .full, s)
  ended : ∀ fuel filled s s', filled.length < len → s.read (len - filled.length) = (.ok [], s') →
    loop (fuel + 1) filled s = (result filled .ended, s')
  failed : ∀ fuel filled s e s', filled.length < len → P e →
    s.read (len - filled.length) = (.error e, s') →
      loop (fuel + 1) filled s = (result filled (.failed e), s')
  more : ∀ fuel filled s chunk s', filled.length < len → chunk ≠ [] →
    s.read (len - filled.length) = (.ok chunk, s') →
      loop (fuel + 1) filled s = loop fuel (filled ++ chunk) s'

/-- Such a loop is one attempt at filling the buffer; every pass takes something, so what is
missing bounds the passes. -/
theorem FillLoop.fills {γ : Type} {len : Nat} {P : ε → Prop} {result : List τ → Fill ε → γ}
    {loop : Nat → List τ → ChunkStream τ ε → γ × ChunkStream τ ε}
    (hloop : FillLoop len P result loop) (fuel : Nat) (filled : List τ) {s : ChunkStream τ ε}
    (hs : s.Proper) (hP : ∀ e, .fail e ∈ s → P e) (hle : filled.length ≤ len)
    (hfuel : len ≤ filled.length + fuel) :
    ∃ taken stop s', Fills (len - filled.length) s taken stop s' ∧
      loop fuel filled s = (result (filled ++ taken) stop, s') := by
  by_cases hlt : filled.length < len
  · induction fuel generalizing filled s with
    | zero => omega
    | succ fuel ih =>
      rcases read_cases (n := len - filled.length) (by omega) hs with
        ⟨rfl, hread⟩ | ⟨e, s', rfl, hread⟩ | ⟨chunk, s', hne, hchunk, hread, htakes⟩
      · refine ⟨[], .ended, [], .ended (.refl _) (by simpa using hlt), ?_⟩
        rw [List.append_nil, hloop.ended fuel filled _ _ hlt hread]
      · refine ⟨[], .failed e, s', .failed (.refl _) (by simpa using hlt), ?_⟩
        rw [List.append_nil, hloop.failed fuel filled _ e _ hlt (hP e List.mem_cons_self) hread]
      · have hpos := List.length_pos_iff.mpr hne
        rw [hloop.more fuel filled s chunk s' hlt hne hread]
        by_cases hmore : (filled ++ chunk).length < len
        · obtain ⟨taken, stop, s'', hfills, heq⟩ := ih _ (htakes.proper hs)
            (fun e he => hP e (htakes.fails e he)) hmore.le
            (by rw [List.length_append]; omega) hmore
          refine ⟨chunk ++ taken, stop, s'', hfills.cons htakes ?_, ?_⟩
          · rw [List.length_append] at hmore ⊢
            omega
          · rw [heq, List.append_assoc]
        · rw [List.length_append] at hmore
          refine ⟨chunk, .full, s', .full htakes (by omega), ?_⟩
          exact hloop.full fuel _ s' (by rw [List.length_append]; omega)
  · refine ⟨[], .full, s, .full (.refl s) (by simp; omega), ?_⟩
    rw [List.append_nil, hloop.full fuel filled s (by omega)]

end ChunkStream

end Anymount.Library
