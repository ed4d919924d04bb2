import Anymount.Library.Listing
import Anymount.MemFs

/-!
# The law of `emit`

Offers are observed through `logged`, which records every entry the sink is shown with
its answer. A walk offers a prefix of what follows the resume cookie, stops at the first
refusal, and reports `true` exactly when everything was accepted; so listings taken in
pieces add up. A failing page ends the walk with that page's error.
-/
namespace Anymount.Readdir

open Library Prog

variable {σ τ : Type}

/-- The sink, with every offer and answer recorded. -/
def logged (sink : SinkFn σ) : SinkFn (σ × List (Entry × Sink)) := fun e st => do
  let (answer, s) ← sink e st.1
  pure (answer, (s, st.2 ++ [(e, answer)]))

/-- The offers and answers of a walk over `rest` that ended in `result`. -/
structure Lawful (rest : List Entry) (log : List (Entry × Sink)) (result : FsResult Bool) :
    Prop where
  offered : log.map Prod.fst <+: rest
  stops : ∀ x ∈ log.dropLast, x.2 = .accepted
  exhausted : result = .ok true → log = rest.map fun e => (e, .accepted)
  refused : result = .ok false → ∃ e, log.getLast? = some (e, .full)
  failed : ∀ e, result = .error e → ∀ x ∈ log, x.2 = .accepted

/-- Without a failing page, `true` means exactly that everything was accepted. -/
theorem Lawful.true_iff {rest : List Entry} {log : List (Entry × Sink)} {result : FsResult Bool}
    (h : Lawful rest log result) (hok : ∀ e, result ≠ .error e) :
    result = .ok true ↔ log = rest.map fun e => (e, .accepted) := by
  refine ⟨h.exhausted, fun hlog => ?_⟩
  rcases result with e | _ | _
  · exact (hok e rfl).elim
  · obtain ⟨e, he⟩ := h.refused rfl
    have hmem : (e, Sink.full) ∈ rest.map fun e => (e, Sink.accepted) :=
      hlog ▸ List.mem_of_getLast? he
    simp at hmem
  · rfl

section Walk

variable {R : Contract FsSig} {E : FsError → Prop} {sink : SinkFn σ}

/-- The invariant of a logged walk: what was offered so far was accepted, and the rest is
still to come. -/
private def Logged (rest : List Entry) (es : List Entry) (st : σ × List (Entry × Sink)) : Prop :=
  st.2.map Prod.fst ++ es = rest ∧ ∀ x ∈ st.2, x.2 = .accepted

private def LoggedEnd (rest : List Entry) (E : FsError → Prop)
    (r : FsResult Bool × σ × List (Entry × Sink)) : Prop :=
  Lawful rest r.2.2 r.1 ∧ ∀ e, r.1 = .error e → E e

private theorem sinkRule_logged (rest : List Entry)
    (hsink : ∀ e st, (sink e st).Ensures R fun _ => True) :
    SinkRule R (fun _ => False) E (logged sink) (Logged rest) (LoggedEnd rest E) where
  offer e es := by
    rintro ⟨s, log⟩ ⟨hsplit, hacc⟩
    rw [logged, wp_bind]
    refine wp_mono (hsink e s) ?_
    rintro ⟨answer, s'⟩ -
    have hsplit' : (log ++ [(e, answer)]).map Prod.fst ++ es = rest := by simpa using hsplit
    cases answer with
    | accepted =>
      refine ⟨hsplit', ?_⟩
      intro x hx
      rcases List.mem_append.mp hx with hx | hx
      · exact hacc x hx
      · rw [List.mem_singleton.mp hx]
    | full =>
      refine ⟨⟨⟨es, hsplit'⟩, ?_, nofun, fun _ => ⟨e, by simp⟩, nofun⟩, nofun⟩
      simpa using hacc
  finish := by
    rintro ⟨s, log⟩ ⟨hsplit, hacc⟩
    have hlog : log = rest.map fun e => (e, Sink.accepted) := by
      rw [← hsplit, List.append_nil, List.map_map]
      exact (List.map_id log).symm.trans (List.map_congr_left fun x hx => Prod.ext rfl (hacc x hx))
    exact ⟨⟨⟨[], hsplit⟩, fun x hx => hacc x (List.mem_of_mem_dropLast hx), fun _ => hlog, nofun,
      nofun⟩, nofun⟩
  fail es := by
    rintro ⟨s, log⟩ e he ⟨hsplit, hacc⟩
    refine ⟨⟨⟨es, hsplit⟩, fun x hx => hacc x (List.mem_of_mem_dropLast hx), nofun, nofun,
      fun _ _ => hacc⟩, ?_⟩
    rintro e' h
    cases h
    exact he

/-- A logged walk of a directory that obeys the contract ends lawfully, whatever the page
sizes and the sink's answers. -/
theorem wp_emit_logged (o : Overflow) {dir parent : Ino} {L : List DirEntry}
    (hR : ∀ c r, R c r → Lists dir (· = parent) L E c r) (hL : L.length + 3 < 2 ^ 64)
    {fuel : Nat} (hfuel : L.length < fuel) (dots : Dots) (cookie : UInt64) (st : σ)
    (hsink : ∀ e st, (sink e st).Ensures R fun _ => True) :
    (emit o fuel dir cookie dots (logged sink) (st, [])).Ensures R
      (LoggedEnd (afterCookie cookie (fullListing dots dir parent L)) E) := by
  refine wp_emit o (P := (· = parent)) ⟨parent, rfl⟩ hR hL (sinkRule_logged _ hsink)
    hfuel dots cookie _ ?_
  rintro p rfl
  exact ⟨by simp, by simp⟩

end Walk

/-! ## Failing pages -/

/-- A `readdir` answer that is an error. -/
def FailedPage (event : Σ c, FsSig.Answer c) (e : FsError) : Prop :=
  ∃ dir offset, event = ⟨.readdir dir offset, .error e⟩

/-- As soon as a page fails, the program returns that error. -/
def ReportsFailure : FsProg (FsResult Bool × σ) → Prop
  | .ret _ => True
  | .halt _ => True
  | .call c next => (∀ r e, FailedPage ⟨c, r⟩ e → ∃ st, next r = ret (.error e, st)) ∧
      ∀ r, ReportsFailure (next r)

theorem ReportsFailure.run {p : FsProg (FsResult Bool × σ)} (hp : ReportsFailure p)
    (fs : ReadOnlyFs τ) (s : τ) {event : Σ c, FsSig.Answer c} {e : FsError}
    (hmem : event ∈ p.events fs s) (hfail : FailedPage event e) :
    ∃ st, (p.run fs s).1 = .ok (.error e, st) := by
  induction p generalizing s with
  | ret a => simp [events] at hmem
  | halt why => simp [events] at hmem
  | call c next ih =>
    rcases List.mem_cons.mp hmem with rfl | hmem
    · obtain ⟨st, hnext⟩ := hp.1 _ e hfail
      exact ⟨st, by rw [Prog.run, hnext]; rfl⟩
    · exact ih _ (hp.2 _) _ hmem

/-- A call that is not a page request. -/
def NotReaddir (c : FsCall) : Prop := ∀ dir offset, c ≠ .readdir dir offset

theorem ReportsFailure.bind {α : Type} {p : FsProg α} {f : α → FsProg (FsResult Bool × σ)}
    (hp : p.Within NotReaddir) (hf : ∀ a, ReportsFailure (f a)) : ReportsFailure (p >>= f) := by
  induction p with
  | ret a => exact hf a
  | halt why => trivial
  | call c next ih =>
    refine ⟨?_, fun r => ih r (hp.2 r)⟩
    rintro r e ⟨dir, offset, h⟩
    exact (hp.1 dir offset (congrArg Sigma.fst h)).elim

theorem emitPage_within {P : FsCall → Prop} (o : Overflow) {sink : SinkFn σ}
    (hsink : ∀ e st, (sink e st).Within P) (page : List DirEntry) (offset : UInt64)
    (st : σ) : (emitPage o sink page offset st).Within P := by
  induction page generalizing offset st with
  | nil => trivial
  | cons e page ih =>
    refine .bind (.bind (addU64_within _ o _ _) fun _ => addU64_within _ o _ _) fun cookie => ?_
    refine .bind (hsink _ _) ?_
    rintro ⟨answer, st⟩
    cases answer with
    | full => trivial
    | accepted => exact .bind (addU64_within _ o _ _) fun _ => ih _ _

theorem emitPages_reportsFailure (o : Overflow) (dir : Ino) {sink : SinkFn σ}
    (hsink : ∀ e st, (sink e st).Within NotReaddir) (fuel : Nat) (offset : UInt64) (st : σ) :
    ReportsFailure (emitPages o dir sink fuel offset st) := by
  induction fuel generalizing offset st with
  | zero => trivial
  | succ fuel ih =>
    refine ⟨?_, ?_⟩
    · rintro r e ⟨d, off, h⟩
      cases h
      exact ⟨st, rfl⟩
    · rintro (e | page)
      · trivial
      · cases page with
        | nil => trivial
        | cons entry page =>
          show ReportsFailure (emitPage o sink (entry :: page) offset st >>= _)
          refine .bind (emitPage_within o hsink _ _ _) ?_
          rintro (st | ⟨position, st⟩)
          · trivial
          · exact ih _ _

theorem offerDots_within {P : FsCall → Prop} (dots : Dots) {sink : SinkFn σ} {dir : Ino}
    (hlookup : P (.lookup dir dotdotName)) (hsink : ∀ e st, (sink e st).Within P)
    (cookie : UInt64) (st : σ) : (offerDots dots sink dir cookie st).Within P := by
  have hone : ∀ ino name cookie st, (offerOne sink ino name cookie st).Within P := by
    intro ino name cookie st
    refine .bind (hsink _ _) ?_
    rintro ⟨answer, st⟩
    cases answer <;> trivial
  cases dots with
  | omitted => trivial
  | synthesize =>
    refine .bind ?_ ?_
    · unfold offerDot
      split
      · exact hone _ _ _ _
      · trivial
    · rintro (st | ⟨cookie, st⟩)
      · trivial
      · simp only [offerDotdot]
        split
        · exact ⟨hlookup, fun r => hone _ _ _ _⟩
        · trivial

/-- A walk asks for pages and for the parent; the sink decides about everything else. -/
theorem emit_within {P : FsCall → Prop} (o : Overflow) (fuel : Nat) {dir : Ino} (cookie : UInt64)
    (dots : Dots) {sink : SinkFn σ} (hreaddir : ∀ offset, P (.readdir dir offset))
    (hlookup : P (.lookup dir dotdotName)) (hsink : ∀ e st, (sink e st).Within P) (st : σ) :
    (emit o fuel dir cookie dots sink st).Within P := by
  have hpages : ∀ fuel offset st, (emitPages o dir sink fuel offset st).Within P := by
    intro fuel
    induction fuel with
    | zero => exact fun _ _ => trivial
    | succ fuel ih =>
      intro offset st
      refine ⟨hreaddir offset, ?_⟩
      rintro (e | _ | ⟨entry, page⟩)
      · trivial
      · trivial
      · show (emitPage o sink (entry :: page) offset st >>= _).Within P
        refine .bind (emitPage_within o hsink (entry :: page) offset st) ?_
        rintro (st | ⟨position, st⟩)
        · trivial
        · exact ih position st
  refine .bind (offerDots_within dots hlookup hsink cookie st) ?_
  rintro (st | ⟨position, st⟩)
  · trivial
  · exact hpages fuel _ st

theorem emit_reportsFailure (o : Overflow) (fuel : Nat) (dir : Ino) (cookie : UInt64)
    (dots : Dots) {sink : SinkFn σ} (hsink : ∀ e st, (sink e st).Within NotReaddir) (st : σ) :
    ReportsFailure (emit o fuel dir cookie dots sink st) := by
  refine .bind (offerDots_within dots nofun hsink cookie st) ?_
  rintro (st | ⟨position, st⟩)
  · trivial
  · exact emitPages_reportsFailure o dir hsink fuel _ _

theorem logged_within {sink : SinkFn σ} (hsink : ∀ e st, (sink e st).Within NotReaddir)
    (e : Entry) (st : σ × List (Entry × Sink)) : (logged sink e st).Within NotReaddir :=
  .bind (hsink e st.1) fun _ => trivial

/-! ## Listing in pieces -/

/-- The entries a sink took. -/
def taken (log : List (Entry × Sink)) : List Entry :=
  (log.filter fun x => x.2 = .accepted).map Prod.fst

/-- The cookie to resume after: that of the last entry taken. -/
def resumeAt (cookie : UInt64) (got : List Entry) : UInt64 :=
  (got.getLast?.map Entry.cookie).getD cookie

/-- Take a listing in passes, one sink after another, each resuming after the last entry
taken, until a pass reports the end. Returns everything taken and whether the end was
reached. -/
def passes (o : Overflow) (fuel : Nat) (dir : Ino) (dots : Dots) (fs : ReadOnlyFs τ) :
    List (SinkFn σ × σ) → UInt64 → τ → List Entry × Bool
  | [], _, _ => ([], false)
  | (sink, st) :: sinks, cookie, s =>
    match (emit o fuel dir cookie dots (logged sink) (st, [])).run fs s with
    | (.ok (.ok true, _, log), _) => (taken log, true)
    | (.ok (.ok false, _, log), s) =>
      let rest := passes o fuel dir dots fs sinks (resumeAt cookie (taken log)) s
      (taken log ++ rest.1, rest.2)
    | _ => ([], false)

/-- In each of these passes, a sink that is offered something takes at least one entry. -/
def EachTakes (o : Overflow) (fuel : Nat) (dir : Ino) (dots : Dots) (fs : ReadOnlyFs τ) :
    List (SinkFn σ × σ) → UInt64 → τ → Prop
  | [], _, _ => True
  | (sink, st) :: sinks, cookie, s =>
    match (emit o fuel dir cookie dots (logged sink) (st, [])).run fs s with
    | (.ok (_, _, log), s) => (log ≠ [] → taken log ≠ []) ∧
        EachTakes o fuel dir dots fs sinks (resumeAt cookie (taken log)) s
    | _ => True

theorem ownEntries_cookie_ge {start : Nat} {L : List DirEntry}
    (hL : start + L.length + 3 ≤ 2 ^ 64) :
    ∀ e ∈ ownEntries start L, start + 3 ≤ e.cookie.toNat := by
  induction L generalizing start with
  | nil => simp [ownEntries]
  | cons e L ih =>
    simp only [List.length_cons] at hL
    intro a ha
    rcases List.mem_cons.mp ha with rfl | ha
    · exact (toNat_ofNat_u64 (by omega)).ge
    · have := ih (by omega) a ha
      omega

theorem ownEntries_sorted {start : Nat} {L : List DirEntry} (hL : start + L.length + 3 ≤ 2 ^ 64) :
    (ownEntries start L).Pairwise (·.cookie.toNat < ·.cookie.toNat) := by
  induction L generalizing start with
  | nil => simp [ownEntries]
  | cons e L ih =>
    simp only [List.length_cons] at hL
    refine List.pairwise_cons.mpr ⟨fun a ha => ?_, ih (by omega)⟩
    have hge := ownEntries_cookie_ge (show start + 1 + L.length + 3 ≤ 2 ^ 64 by omega) a ha
    have hcookie : (UInt64.ofNat (start + 3)).toNat = start + 3 := toNat_ofNat_u64 (by omega)
    simp only [hcookie]
    omega

/-- The cookies of a listing increase, which is what makes them usable for resuming. -/
theorem fullListing_sorted (dots : Dots) (dir parent : Ino) {L : List DirEntry}
    (hL : L.length + 3 < 2 ^ 64) :
    (fullListing dots dir parent L).Pairwise (·.cookie.toNat < ·.cookie.toNat) := by
  have hown : (ownEntries 0 L).Pairwise (·.cookie.toNat < ·.cookie.toNat) :=
    ownEntries_sorted (by omega)
  have hge := ownEntries_cookie_ge (show 0 + L.length + 3 ≤ 2 ^ 64 by omega)
  cases dots with
  | omitted => exact hown
  | synthesize =>
    refine List.pairwise_cons.mpr ⟨?_, List.pairwise_cons.mpr ⟨?_, hown⟩⟩
    · intro a ha
      rcases List.mem_cons.mp ha with rfl | ha
      · show dot.toNat < dotdot.toNat
        decide
      · have := hge a ha
        simp [dot]; omega
    · intro a ha
      have := hge a ha
      simp [dotdot]; omega

/-- A fresh listing starts at cookie 0, before every entry. -/
theorem afterCookie_zero (dots : Dots) (dir parent : Ino) {L : List DirEntry}
    (hL : L.length + 3 < 2 ^ 64) :
    afterCookie 0 (fullListing dots dir parent L) = fullListing dots dir parent L := by
  cases dots with
  | omitted =>
    rw [fullListing, afterCookie_ownEntries _ _ _ (by omega)]
    rfl
  | synthesize =>
    rw [afterCookie_fullListing hL]
    rfl

/-- Resuming after the last entry taken leaves exactly the entries not yet taken. -/
theorem afterCookie_resumeAt {full got rest : List Entry} {cookie : UInt64}
    (sorted : full.Pairwise (·.cookie.toNat < ·.cookie.toNat))
    (h : afterCookie cookie full = got ++ rest) :
    afterCookie (resumeAt cookie got) full = rest := by
  have hafter : ∀ c : UInt64, afterCookie c full =
      Listing.after (fun e : Entry => e.cookie.toNat) c.toNat full := by
    intro c
    simp only [afterCookie, Listing.after, UInt64.lt_iff_toNat_lt]
  have hresume : (resumeAt cookie got).toNat =
      Listing.resume (fun e : Entry => e.cookie.toNat) cookie.toNat got := by
    unfold resumeAt Listing.resume
    cases got.getLast? <;> rfl
  rw [hafter, hresume]
  exact Listing.after_resume sorted (hafter cookie ▸ h)

/-- What a backend's sink may be: it returns, and does not list directories itself. -/
structure Proper (sink : SinkFn σ) : Prop where
  returns : ∀ e st, (sink e st).Ensures (anyAnswer FsSig) fun _ => True
  quiet : ∀ e st, (sink e st).Within NotReaddir

/-- The entries taken, for a lawful walk that was refused: all but the last one offered. -/
theorem Lawful.taken_of_refused {rest : List Entry} {log : List (Entry × Sink)}
    (h : Lawful rest log (.ok false)) : ∃ e left, rest = taken log ++ e :: left ∧
      log = (taken log).map (fun e => (e, .accepted)) ++ [(e, .full)] := by
  obtain ⟨e, he⟩ := h.refused rfl
  obtain ⟨init, rfl⟩ := List.getLast?_eq_some_iff.mp he
  have hacc : ∀ x ∈ init, x.2 = Sink.accepted := by simpa using h.stops
  have htaken : taken (init ++ [(e, .full)]) = init.map Prod.fst := by
    have : init.filter (fun x => x.2 = Sink.accepted) = init :=
      List.filter_eq_self.mpr fun x hx => by simpa using hacc x hx
    simp [taken, this]
  have hinit : init = (init.map Prod.fst).map fun e => (e, Sink.accepted) := by
    rw [List.map_map]
    exact (List.map_id init).symm.trans (List.map_congr_left fun x hx => Prod.ext rfl (hacc x hx))
  obtain ⟨left, hleft⟩ := h.offered
  refine ⟨e, left, ?_, ?_⟩
  · rw [htaken, ← hleft]; simp
  · rw [htaken, ← hinit]

section Pieces

variable {E : FsError → Prop} {fs : ReadOnlyFs τ} {dir parent : Ino} {L : List DirEntry}
  {sink : SinkFn σ} {fuel : Nat}

/-- One run of a logged walk. -/
theorem run_emit_logged (o : Overflow) (hfs : fs.Meets (Lists dir (· = parent) L E))
    (hL : L.length + 3 < 2 ^ 64) (hfuel : L.length < fuel) (dots : Dots) (cookie : UInt64)
    (hsink : Proper sink) (st : σ) (s : τ) :
    ∃ result st' log s',
      (emit o fuel dir cookie dots (logged sink) (st, [])).run fs s = (.ok (result, st', log), s') ∧
      Lawful (afterCookie cookie (fullListing dots dir parent L)) log result ∧
      ∀ e, result = .error e → E e := by
  have hreturns : ∀ e st, (sink e st).Ensures (Lists dir (· = parent) L E) fun _ => True :=
    fun e st => wp_contract (hsink.returns e st) fun _ _ _ => trivial
  have hwp := wp_emit_logged o (fun _ _ h => h) hL hfuel dots cookie st hreturns
  obtain ⟨⟨result, st', log⟩, hrun, hend⟩ := hwp.run hfs s
  exact ⟨result, st', log, _, Prod.ext hrun rfl, hend⟩

/-- Passes resumed after `cookie` take a prefix of what follows it, everything once the
end is reported, and report the end after at most one pass for each entry. -/
theorem passes_spec (o : Overflow) (hfs : fs.Meets (Lists dir (· = parent) L fun _ => False))
    (hL : L.length + 3 < 2 ^ 64) (hfuel : L.length < fuel) (dots : Dots)
    (sinks : List (SinkFn σ × σ)) (hsinks : ∀ k ∈ sinks, Proper k.1) (cookie : UInt64) (s : τ) :
    (passes o fuel dir dots fs sinks cookie s).1 <+:
        afterCookie cookie (fullListing dots dir parent L) ∧
      ((passes o fuel dir dots fs sinks cookie s).2 = true →
        (passes o fuel dir dots fs sinks cookie s).1 =
          afterCookie cookie (fullListing dots dir parent L)) ∧
      (EachTakes o fuel dir dots fs sinks cookie s →
        (afterCookie cookie (fullListing dots dir parent L)).length < sinks.length →
          (passes o fuel dir dots fs sinks cookie s).2 = true) := by
  induction sinks generalizing cookie s with
  | nil => simp [passes]
  | cons k sinks ih =>
    obtain ⟨sink, st⟩ := k
    obtain ⟨result, st', log, s', hrun, hlaw, hnoerr⟩ :=
      run_emit_logged o hfs hL hfuel dots cookie (hsinks (sink, st) List.mem_cons_self) st s
    rcases result with e | _ | _
    · exact (hnoerr e rfl).elim
    · obtain ⟨e, left, hrest, hlog⟩ := hlaw.taken_of_refused
      have hresume := afterCookie_resumeAt (fullListing_sorted dots dir parent hL) hrest
      obtain ⟨hpre, hdone, hends⟩ := ih (fun k hk => hsinks k (List.mem_cons_of_mem _ hk))
        (resumeAt cookie (taken log)) s'
      simp only [passes, EachTakes, hrun]
      rw [hresume] at hpre hdone hends
      rw [hrest]
      refine ⟨?_, fun h => by rw [hdone h], ?_⟩
      · obtain ⟨t, ht⟩ := hpre
        exact ⟨t, by rw [List.append_assoc, ht]⟩
      · rintro ⟨htakes, hrest⟩ hlen
        -- The entry refused was offered, so something was taken before it.
        have hpos := List.length_pos_iff.mpr (htakes (by rw [hlog]; simp))
        simp only [List.length_append, List.length_cons] at hlen
        exact hends hrest (by simp only [List.length_cons]; omega)
    · have htaken : taken log = afterCookie cookie (fullListing dots dir parent L) := by
        rw [hlaw.exhausted rfl]
        simp [taken, List.filter_map, Function.comp_def]
      simp [passes, hrun, htaken]

end Pieces

/-- The law of `emit`. For a directory holding `L` whose pages may be cut anywhere and may
fail with an error in `E`, and for every sink:

* the walk returns, having offered a prefix of the listing after the resume cookie, in
  order, up to the first refusal; `Ok(true)` means that all of it was accepted, and
  without failing pages the converse holds;
* a page that fails ends the walk with its error;
* without failing pages, passes reassemble the listing exactly once the end is reported,
  which it is within one pass more than there are entries if each of them that offers
  something has at least one entry taken. -/
theorem emit_law (o : Overflow) (fs : ReadOnlyFs τ) (dir parent : Ino) (L : List DirEntry)
    (E : FsError → Prop) (hfs : fs.Meets (Lists dir (· = parent) L E))
    (hL : L.length < 2 ^ 64 - 3) (dots : Dots) (fuel : Nat) (hfuel : L.length < fuel) :
    (∀ (sink : SinkFn σ), Proper sink → ∀ (cookie : UInt64) (st : σ) (s : τ),
      ∃ result st' log s',
        (emit o fuel dir cookie dots (logged sink) (st, [])).run fs s =
            (.ok (result, st', log), s') ∧
          Lawful (afterCookie cookie (fullListing dots dir parent L)) log result ∧
          (∀ e, result = .error e → E e) ∧
          ((∀ e, ¬ E e) → (result = .ok true ↔
            log = (afterCookie cookie (fullListing dots dir parent L)).map fun e =>
              (e, .accepted))) ∧
          ∀ event ∈ (emit o fuel dir cookie dots (logged sink) (st, [])).events fs s,
            ∀ e, FailedPage event e → result = .error e) ∧
    ((∀ e, ¬ E e) → ∀ sinks : List (SinkFn σ × σ),
      (∀ k ∈ sinks, Proper k.1) → ∀ s : τ,
        (passes o fuel dir dots fs sinks 0 s).1 <+: fullListing dots dir parent L ∧
        ((passes o fuel dir dots fs sinks 0 s).2 = true →
          (passes o fuel dir dots fs sinks 0 s).1 = fullListing dots dir parent L) ∧
        (EachTakes o fuel dir dots fs sinks 0 s →
          (fullListing dots dir parent L).length < sinks.length →
            (passes o fuel dir dots fs sinks 0 s).2 = true)) := by
  have hL' : L.length + 3 < 2 ^ 64 := by omega
  constructor
  · intro sink hsink cookie st s
    obtain ⟨result, st', log, s', hrun, hlaw, herr⟩ :=
      run_emit_logged o hfs hL' hfuel dots cookie hsink st s
    refine ⟨result, st', log, s', hrun, hlaw, herr, ?_, ?_⟩
    · exact fun hE => hlaw.true_iff fun e he => hE e (herr e he)
    · intro event hmem e hfail
      obtain ⟨st'', hst⟩ := (emit_reportsFailure o fuel dir cookie dots
        (logged_within hsink.quiet) (st, [])).run fs s hmem hfail
      rw [hrun] at hst
      exact (Prod.mk.inj (Except.ok.inj hst)).1
  · intro hE sinks hsinks s
    have hfs' : fs.Meets (Lists dir (· = parent) L fun _ => False) :=
      fun c s => (hfs c s).mono hE
    simpa [afterCookie_zero dots dir parent hL'] using
      passes_spec o hfs' hL' hfuel dots sinks hsinks 0 s

/-- A sink with room for one entry. -/
def oneEntry : SinkFn Bool := fun _ filled => ret (if filled then .full else .accepted, true)

theorem emit_law_one_at_a_time :
    (passes .wraps 4 ⟨1⟩ .synthesize (MemFs.new 0 0).handler (List.replicate 6 (oneEntry, false)) 0
      .new).1.map Entry.name =
      [dotName, dotdotName, MemFs.text "hello.txt", MemFs.text "numbers.txt",
        MemFs.text "subdir"] := by
  have hproper : ∀ k ∈ List.replicate 6 (oneEntry, false), Proper k.1 := by
    intro k hk
    rw [List.eq_of_mem_replicate hk]
    exact ⟨fun _ _ => trivial, fun _ _ => trivial⟩
  obtain ⟨-, hexact, hends⟩ := (emit_law .wraps _ ⟨1⟩ _ _ _ (MemFs.meets_lists_root 0 0)
    (by decide) .synthesize 4 (by decide)).2 (fun _ => id) _ hproper .new
  rw [hexact (hends ?_ (by decide))]
  · decide
  · exact .intro (by decide) (.intro (by decide) (.intro (by decide) (.intro (by decide)
      (.intro (by decide) (.intro (by decide) trivial)))))

end Anymount.Readdir
