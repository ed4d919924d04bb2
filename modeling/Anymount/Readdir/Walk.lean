import Anymount.Readdir.Emit

/-!
# The invariant rule for a directory walk

`fullListing` is the listing a client is meant to see, and `afterCookie` what is left of
it after a resume cookie. For a directory that obeys the `readdir` contract, `wp_emit`
reduces every property of `emit` to an invariant over the entries still to be offered,
kept by one sink call: page boundaries, the synthesized entries and the cookie
arithmetic are dealt with here once, for every backend.
-/
namespace Anymount.Readdir

open Library Prog

variable {σ : Type}

/-! ## The listing of a directory -/

/-- The trait's entries from offset `start` on, with their cookies. -/
def ownEntries : Nat → List DirEntry → List Entry
  | _, [] => []
  | start, e :: es => ⟨e.ino, e.name, e.kind, UInt64.ofNat (start + 3)⟩ :: ownEntries (start + 1) es

@[simp] theorem length_ownEntries (start : Nat) (L : List DirEntry) :
    (ownEntries start L).length = L.length := by
  induction L generalizing start with
  | nil => rfl
  | cons e L ih => simp [ownEntries, ih]

theorem ownEntries_append (start : Nat) (L M : List DirEntry) :
    ownEntries start (L ++ M) = ownEntries start L ++ ownEntries (start + L.length) M := by
  induction L generalizing start with
  | nil => rfl
  | cons e L ih =>
    simp only [List.cons_append, ownEntries, ih, List.length_cons]
    rw [show start + 1 + L.length = start + (L.length + 1) by omega]

theorem ownEntries_drop (start n : Nat) (L : List DirEntry) :
    (ownEntries start L).drop n = ownEntries (start + n) (L.drop n) := by
  induction n generalizing start L with
  | zero => rfl
  | succ n ih =>
    cases L with
    | nil => simp [ownEntries]
    | cons e L =>
      simp only [ownEntries, List.drop_succ_cons, ih]
      rw [show start + 1 + n = start + (n + 1) by omega]

/-- The complete listing of `dir`, whose own entries are `L`. -/
def fullListing (dots : Dots) (dir parent : Ino) (L : List DirEntry) : List Entry :=
  match dots with
  | .synthesize => ⟨dir, dotName, .directory, dot⟩ :: ⟨parent, dotdotName, .directory, dotdot⟩ ::
      ownEntries 0 L
  | .omitted => ownEntries 0 L

/-- The elements of a listing that come after a cookie. -/
def afterCookie (cookie : UInt64) (es : List Entry) : List Entry :=
  es.filter fun e => cookie < e.cookie

@[simp] theorem toNat_traitOffset (cookie : UInt64) :
    (traitOffset cookie).toNat = cookie.toNat - 2 := by
  unfold traitOffset dotdot
  split
  · next h =>
    have : cookie.toNat ≤ 2 := by simpa using UInt64.le_iff_toNat_le.mp h
    simp; omega
  · next h =>
    have : (2 : UInt64) ≤ cookie := by
      rw [UInt64.le_iff_toNat_le] at h ⊢
      simp at h ⊢; omega
    simp [UInt64.toNat_sub_of_le _ _ this]

/-- Cookies of own entries are increasing, so the ones after a cookie are a suffix. -/
theorem afterCookie_ownEntries (cookie : UInt64) (start : Nat) (L : List DirEntry)
    (hL : start + L.length + 3 ≤ 2 ^ 64) :
    afterCookie cookie (ownEntries start L) =
      (ownEntries start L).drop ((traitOffset cookie).toNat - start) := by
  induction L generalizing start with
  | nil => simp [ownEntries, afterCookie]
  | cons e L ih =>
    have hL' : start + 1 + L.length + 3 ≤ 2 ^ 64 := by simp at hL; omega
    have hcookie : (UInt64.ofNat (start + 3)).toNat = start + 3 :=
      toNat_ofNat_u64 (by simp at hL; omega)
    have htail := ih (start + 1) hL'
    simp only [afterCookie, ownEntries, List.filter_cons, UInt64.lt_iff_toNat_lt, hcookie,
      toNat_traitOffset] at htail ⊢
    by_cases h : cookie.toNat < start + 3
    · rw [if_pos (by simpa using h), htail, show cookie.toNat - 2 - start = 0 by omega,
        show cookie.toNat - 2 - (start + 1) = 0 by omega]
      rfl
    · rw [if_neg (by simpa using h), htail,
        show cookie.toNat - 2 - start = (cookie.toNat - 2 - (start + 1)) + 1 by omega]
      rfl

theorem cookie_cases (cookie : UInt64) :
    cookie = 0 ∨ cookie = dot ∨ ∃ n, cookie.toNat = n + 2 := by
  rcases h : cookie.toNat with _ | _ | n
  · exact .inl (UInt64.toNat_inj.mp h)
  · exact .inr (.inl (UInt64.toNat_inj.mp h))
  · exact .inr (.inr ⟨n, rfl⟩)

/-- The element at index `i` has cookie `i + 1`, so a cookie counts the elements before it. -/
theorem afterCookie_fullListing {L : List DirEntry} (hL : L.length + 3 < 2 ^ 64) (dir p : Ino)
    (cookie : UInt64) :
    afterCookie cookie (fullListing .synthesize dir p L) =
      (fullListing .synthesize dir p L).drop cookie.toNat := by
  have hown := afterCookie_ownEntries cookie 0 L (by omega)
  rw [toNat_traitOffset, Nat.sub_zero] at hown
  have hlt : ∀ n : UInt64, decide (cookie < n) = decide (cookie.toNat < n.toNat) := fun _ =>
    decide_eq_decide.mpr UInt64.lt_iff_toNat_lt
  rw [fullListing, afterCookie, List.filter_cons, List.filter_cons, ← afterCookie, hown, hlt, hlt]
  obtain rfl | rfl | ⟨n, hn⟩ := cookie_cases cookie
  · simp [dot, dotdot]
  · simp [dot, dotdot]
  · simp [hn, dot, dotdot]

/-! ## One page -/

theorem forEntry_of_lt (o : Overflow) {offset : UInt64} (h : offset.toNat + 3 < 2 ^ 64) :
    forEntry o offset = ret (UInt64.ofNat (offset.toNat + 3)) := by
  have hfirst : offset.toNat + dotdot.toNat < 2 ^ 64 := by simp [dotdot]; omega
  have hsum : (offset + dotdot).toNat = offset.toNat + 2 := toNat_add_of_lt hfirst
  have hsecond : (offset + dotdot).toNat + (1 : UInt64).toNat < 2 ^ 64 := by
    rw [hsum]; simp; omega
  rw [forEntry, addU64_of_lt o hfirst, ret_bind, addU64_of_lt o hsecond]
  congr 1
  apply UInt64.toNat_inj.mp
  rw [toNat_add_of_lt hsecond, hsum, toNat_ofNat_u64 h]
  simp

/-! ## The invariant rule -/

/-- What a sink keeps while a list of entries is offered to it. `I es st` holds when the
entries `es` are still to be offered. A full sink, the end of the listing and a failing
page each end the walk in `Q`. -/
structure SinkRule (R : Contract FsSig) (H : Halt → Prop) (E : FsError → Prop) (sink : SinkFn σ)
    (I : List Entry → σ → Prop) (Q : FsResult Bool × σ → Prop) : Prop where
  offer : ∀ e es st, I (e :: es) st → (sink e st).wp R H fun r =>
    match r.1 with
    | .accepted => I es r.2
    | .full => Q (.ok false, r.2)
  finish : ∀ st, I [] st → Q (.ok true, st)
  fail : ∀ es st e, E e → I es st → Q (.error e, st)

/-- The directory `dir` holds `L`, its `..` satisfies `P`, and a failing page fails with an
error in `E`. Everything else is unconstrained. -/
def Lists (dir : Ino) (P : Ino → Prop) (L : List DirEntry) (E : FsError → Prop) : Contract FsSig
  | .readdir d offset, answer =>
    d = dir → PageOf L offset answer ∨ ∃ e, answer = .error e ∧ E e
  | .lookup d name, answer => d = dir → name = dotdotName → P (parentOf dir answer)
  | _, _ => True

theorem Lists.mono {dir : Ino} {P : Ino → Prop} {L : List DirEntry} {E E' : FsError → Prop}
    (imp : ∀ e, E e → E' e) {c : FsSig.Call} {answer : FsSig.Answer c}
    (h : Lists dir P L E c answer) : Lists dir P L E' c answer := by
  cases c with
  | readdir d offset =>
    intro hd
    refine (h hd).imp_right ?_
    rintro ⟨e, rfl, he⟩
    exact ⟨e, rfl, imp e he⟩
  | _ => exact h

section Walk

variable {R : Contract FsSig} {H : Halt → Prop} {E : FsError → Prop} {sink : SinkFn σ}
  {I : List Entry → σ → Prop} {Q : FsResult Bool × σ → Prop}

/-- What `Q` asks of a part of the walk that leaves `rest` to be offered. -/
def Offered.Sat (I : List Entry → σ → Prop) (Q : FsResult Bool × σ → Prop) (rest : List Entry)
    (position : UInt64) : Offered σ → Prop
  | .full st => Q (.ok false, st)
  | .more p st => p = position ∧ I rest st

theorem wp_offerOne (rule : SinkRule R H E sink I Q) (ino : Ino) (name : OsString)
    (cookie : UInt64) (rest : List Entry) (st : σ)
    (hI : I (⟨ino, name, .directory, cookie⟩ :: rest) st) :
    (offerOne sink ino name cookie st).wp R H (Offered.Sat I Q rest cookie) := by
  rw [offerOne, wp_bind]
  refine wp_mono (rule.offer _ _ _ hI) ?_
  rintro ⟨answer, st⟩ h
  cases answer with
  | accepted => exact ⟨rfl, h⟩
  | full => exact h

theorem wp_emitPage (o : Overflow) (rule : SinkRule R H E sink I Q) (page : List DirEntry)
    (offset : UInt64) (rest : List Entry) (st : σ)
    (hlen : offset.toNat + page.length + 3 ≤ 2 ^ 64)
    (hI : I (ownEntries offset.toNat page ++ rest) st) :
    (emitPage o sink page offset st).wp R H
      (Offered.Sat I Q rest (UInt64.ofNat (offset.toNat + page.length))) := by
  induction page generalizing offset st with
  | nil => exact ⟨by simp, hI⟩
  | cons e page ih =>
    simp only [List.length_cons] at hlen
    have hadd : offset.toNat + (1 : UInt64).toNat < 2 ^ 64 := by simp; omega
    have hnext : (offset + 1).toNat = offset.toNat + 1 := toNat_add_of_lt hadd
    rw [emitPage, forEntry_of_lt o (by omega), ret_bind, wp_bind]
    refine wp_mono (rule.offer _ _ _ hI) ?_
    rintro ⟨answer, st⟩ h
    cases answer with
    | full => exact h
    | accepted =>
      simp only [addU64_of_lt o hadd, ret_bind]
      have htail := ih (offset + 1) st (by omega) (by rw [hnext]; exact h)
      rw [hnext] at htail
      simpa [Nat.add_assoc, Nat.add_comm 1] using htail

/-- The page loop. Each page the contract allows is empty exactly at the end, so the
entries still to be offered bound the number of pages that can follow. -/
theorem wp_emitPages (o : Overflow) {dir : Ino} {P : Ino → Prop} {L : List DirEntry}
    (hR : ∀ c r, R c r → Lists dir P L E c r) (hL : L.length + 3 < 2 ^ 64)
    (rule : SinkRule R H E sink I Q) (fuel : Nat) (offset : UInt64) (st : σ)
    (hfuel : L.length - offset.toNat < fuel)
    (hI : I (ownEntries offset.toNat (L.drop offset.toNat)) st) :
    (emitPages o dir sink fuel offset st).wp R H Q := by
  induction fuel generalizing offset st with
  | zero => omega
  | succ fuel ih =>
    rw [emitPages, wp_bind, FsProg.wp_readdir]
    intro answer hanswer
    rcases hR _ _ hanswer rfl with ⟨page, rfl, ⟨rest, hsplit⟩, hne⟩ | ⟨e, rfl, he⟩
    · cases page with
      | nil =>
        have hend : L.drop offset.toNat = [] :=
          List.drop_eq_nil_of_le (not_lt.mp fun h => hne h rfl)
        rw [hend] at hI
        exact rule.finish st hI
      | cons entry page =>
        have hpage : offset.toNat + (entry :: page).length ≤ L.length := by
          have := congrArg List.length hsplit
          simp only [List.length_append, List.length_drop, List.length_cons] at this ⊢
          omega
        have hrest : rest = L.drop (offset.toNat + (entry :: page).length) := by
          rw [← List.drop_drop, ← hsplit, List.drop_left]
        rw [← hsplit, ownEntries_append] at hI
        simp only [wp_bind]
        refine wp_mono (wp_emitPage o rule (entry :: page) offset _ st (by omega) hI) ?_
        rintro (st | ⟨position, st⟩) h
        · exact h
        · obtain ⟨rfl, h⟩ := h
          have hpos := toNat_ofNat_u64 (n := offset.toNat + (entry :: page).length) (by omega)
          refine ih _ st ?_ ?_
          · rw [hpos]; simp only [List.length_cons] at hpage ⊢; omega
          · rw [hpos, ← hrest]; exact h
    · exact rule.fail _ st e he hI

/-! ## The synthesized entries -/

section Dots

variable (sink : SinkFn σ) (dir : Ino) (st : σ)

theorem offerDots_zero : offerDots .synthesize sink dir 0 st =
    offerOne sink dir dotName dot st >>= fun
      | .full st => pure (.full st)
      | .more cookie st => offerDotdot sink dir cookie st := rfl

theorem offerDots_dot :
    offerDots .synthesize sink dir dot st = offerDotdot sink dir dot st := rfl

variable {sink dir st}

/-- Behind `..` nothing is synthesized. -/
theorem offerDots_of_two_le {cookie : UInt64} (h : 2 ≤ cookie.toNat) :
    offerDots .synthesize sink dir cookie st = ret (.more cookie st) := by
  have h0 : cookie ≠ 0 := by
    rintro rfl
    exact absurd h (by decide)
  have h1 : cookie ≠ dot := by
    rintro rfl
    exact absurd h (by decide)
  rw [offerDots, offerDot, if_neg h0, pure_eq, ret_bind]
  dsimp only
  rw [offerDotdot, if_neg h1]
  rfl

end Dots

theorem wp_offerDotdot {dir : Ino} {P : Ino → Prop} {L : List DirEntry}
    (hR : ∀ c r, R c r → Lists dir P L E c r) (rule : SinkRule R H E sink I Q)
    (rest : List Entry) (st : σ)
    (hI : ∀ p, P p → I (⟨p, dotdotName, .directory, dotdot⟩ :: rest) st) :
    (offerDotdot sink dir dot st).wp R H (Offered.Sat I Q rest dotdot) := by
  rw [offerDotdot, if_pos rfl, wp_bind, FsProg.wp_lookup]
  intro answer hanswer
  exact wp_offerOne rule _ _ _ _ _ (hI _ (hR _ _ hanswer rfl rfl))

/-- The synthesized entries. The parent is known only once `lookup` has answered, so the
invariant is needed for every parent it may report. -/
theorem wp_offerDots {dir : Ino} {P : Ino → Prop} {L : List DirEntry} (hP : ∃ p, P p)
    (hR : ∀ c r, R c r → Lists dir P L E c r) (rule : SinkRule R H E sink I Q)
    (hL : L.length + 3 < 2 ^ 64) (dots : Dots) (cookie : UInt64) (st : σ)
    (hI : ∀ p, P p → I (afterCookie cookie (fullListing dots dir p L)) st) :
    (offerDots dots sink dir cookie st).wp R H fun
      | .full st => Q (.ok false, st)
      | .more position st =>
        I (ownEntries (traitOffset position).toNat (L.drop (traitOffset position).toNat)) st := by
  obtain ⟨p₀, hp₀⟩ := hP
  have hdotdot : ∀ st, (∀ p, P p → I (⟨p, dotdotName, .directory, dotdot⟩ :: ownEntries 0 L) st) →
      (offerDotdot sink dir dot st).wp R H fun
        | .full st => Q (.ok false, st)
        | .more position st =>
          I (ownEntries (traitOffset position).toNat (L.drop (traitOffset position).toNat)) st := by
    intro st h
    refine wp_mono (wp_offerDotdot hR rule _ st h) ?_
    rintro (st | ⟨position, st⟩) hsat
    · exact hsat
    · obtain ⟨rfl, hsat⟩ := hsat
      simpa [traitOffset] using hsat
  cases dots with
  | omitted =>
    have := hI p₀ hp₀
    rwa [fullListing, afterCookie_ownEntries _ _ _ (by omega), ownEntries_drop, Nat.sub_zero,
      Nat.zero_add] at this
  | synthesize =>
    simp only [afterCookie_fullListing hL] at hI
    obtain rfl | rfl | ⟨n, hn⟩ := cookie_cases cookie
    · have hI' : ∀ p : { p // P p }, I (⟨dir, dotName, .directory, dot⟩ ::
          ⟨p, dotdotName, .directory, dotdot⟩ :: ownEntries 0 L) st := fun p => hI p p.2
      have : Nonempty { p // P p } := ⟨⟨p₀, hp₀⟩⟩
      rw [offerDots_zero, wp_bind]
      refine wp_mono (wp_forall fun p => wp_offerOne rule _ _ _ _ st (hI' p)) ?_
      rintro (st | ⟨position, st⟩) hsat
      · exact hsat ⟨p₀, hp₀⟩
      · obtain rfl : position = dot := (hsat ⟨p₀, hp₀⟩).1
        exact hdotdot st fun p hp => (hsat ⟨p, hp⟩).2
    · rw [offerDots_dot]
      exact hdotdot st hI
    · have hrest := hI p₀ hp₀
      rw [hn, fullListing, List.drop_succ_cons, List.drop_succ_cons, ownEntries_drop] at hrest
      rw [offerDots_of_two_le (by omega)]
      simpa [hn] using hrest

/-- The invariant rule for `emit`: an invariant on the entries still to be offered that
holds of everything after the cookie, and is kept by one sink call, decides how the whole
walk ends. Fuel for one more page than the directory has entries is enough. -/
theorem wp_emit (o : Overflow) {dir : Ino} {P : Ino → Prop} {L : List DirEntry} (hP : ∃ p, P p)
    (hR : ∀ c r, R c r → Lists dir P L E c r) (hL : L.length + 3 < 2 ^ 64)
    (rule : SinkRule R H E sink I Q) {fuel : Nat} (hfuel : L.length < fuel) (dots : Dots)
    (cookie : UInt64) (st : σ)
    (hI : ∀ p, P p → I (afterCookie cookie (fullListing dots dir p L)) st) :
    (emit o fuel dir cookie dots sink st).wp R H Q := by
  rw [emit, wp_bind]
  refine wp_mono (wp_offerDots hP hR rule hL dots cookie st hI) ?_
  rintro (st | ⟨position, st⟩) h
  · exact h
  · exact wp_emitPages o hR hL rule fuel _ st (by omega) h

end Walk

/-! ## Termination alone -/

/-- Listings end: no page reaches beyond the first `N` offsets. Nothing is said about what
the pages hold, or about their agreeing with each other. -/
def Ends (N : Nat) : Contract FsSig
  | .readdir _ offset, answer =>
    ∀ page, answer = .ok page → page ≠ [] → offset.toNat + page.length ≤ N
  | _, _ => True

section Ends

variable {R : Contract FsSig} {H : Halt → Prop} {sink : SinkFn σ} {J : σ → Prop}

/-- The state that a part of the walk stopped with. -/
def Offered.state : Offered σ → σ
  | .full st => st
  | .more _ st => st

theorem wp_offerDots_keeps (hsink : ∀ e st, J st → (sink e st).wp R H fun r => J r.2) (dots : Dots)
    (dir : Ino) (cookie : UInt64) {st : σ} (hst : J st) :
    (offerDots dots sink dir cookie st).wp R H fun r => J r.state := by
  have hone : ∀ ino name cookie st, J st →
      (offerOne sink ino name cookie st).wp R H fun r => J r.state := by
    intro ino name cookie st hst
    rw [offerOne, wp_bind]
    refine wp_mono (hsink _ _ hst) ?_
    rintro ⟨answer, st⟩ hst
    cases answer <;> exact hst
  have hdot : (offerDot sink dir cookie st).wp R H fun r => J r.state := by
    unfold offerDot
    split
    · exact hone _ _ _ _ hst
    · exact hst
  have hdotdot : ∀ cookie st, J st →
      (offerDotdot sink dir cookie st).wp R H fun r => J r.state := by
    intro cookie st hst
    unfold offerDotdot
    split
    · rw [wp_bind, FsProg.wp_lookup]
      exact fun _ _ => hone _ _ _ _ hst
    · exact hst
  cases dots with
  | omitted => exact hst
  | synthesize =>
    rw [offerDots, wp_bind]
    refine wp_mono hdot ?_
    rintro (st | ⟨position, st⟩) hst
    · exact hst
    · exact hdotdot _ _ hst

/-- What every sink call keeps is kept by the walk, as far as it gets. -/
theorem wp_emitPage_keeps (o : Overflow) (hH : H .panic)
    (hsink : ∀ e st, J st → (sink e st).wp R H fun r => J r.2) (page : List DirEntry)
    (offset : UInt64) {st : σ} (hst : J st) :
    (emitPage o sink page offset st).wp R H fun r => J r.state := by
  induction page generalizing offset st with
  | nil => exact hst
  | cons entry page ih =>
    simp only [emitPage, forEntry, wp_bind]
    refine wp_addU64 o _ _ (wp_addU64 o _ _ ?_ hH) hH
    refine wp_mono (hsink _ _ hst) ?_
    rintro ⟨answer, st⟩ hst
    cases answer with
    | full => exact hst
    | accepted =>
      rw [wp_bind]
      exact wp_addU64 o _ _ (ih _ hst) hH

theorem wp_emit_keeps (o : Overflow) (hH : ∀ why, H why)
    (hsink : ∀ e st, J st → (sink e st).wp R H fun r => J r.2) (fuel : Nat) (dir : Ino)
    (cookie : UInt64) (dots : Dots) {st : σ} (hst : J st) :
    (emit o fuel dir cookie dots sink st).wp R H fun r => J r.2 := by
  have hpages : ∀ fuel offset st, J st →
      (emitPages o dir sink fuel offset st).wp R H fun r => J r.2 := by
    intro fuel
    induction fuel with
    | zero => exact fun _ _ _ => hH .fuel
    | succ fuel ih =>
      intro offset st hst
      rw [emitPages, wp_bind, FsProg.wp_readdir]
      intro answer _
      rcases answer with e | _ | ⟨entry, page⟩
      · exact hst
      · exact hst
      · simp only [wp_bind]
        refine wp_mono (wp_emitPage_keeps o (hH .panic) hsink (entry :: page) offset hst) ?_
        rintro (st | ⟨position, st⟩) hst
        · exact hst
        · exact ih _ _ hst
  rw [emit, wp_bind]
  refine wp_mono (wp_offerDots_keeps hsink dots dir cookie hst) ?_
  rintro (st | ⟨position, st⟩) hst
  · exact hst
  · exact hpages _ _ _ hst

/-- A sink that takes nothing stops the walk at the first entry. -/
theorem wp_emitPage_full (o : Overflow) (hH : H .panic) {st : σ}
    (hsink : ∀ e, (sink e st).wp R H fun r => r = (.full, st)) (entry : DirEntry)
    (page : List DirEntry) (offset : UInt64) :
    (emitPage o sink (entry :: page) offset st).wp R H fun r => r = .full st := by
  simp only [emitPage, forEntry, wp_bind]
  refine wp_addU64 o _ _ (wp_addU64 o _ _ ?_ hH) hH
  refine wp_mono (hsink _) ?_
  rintro _ rfl
  rfl

theorem wp_offerDots_full {st : σ} (hsink : ∀ e, (sink e st).wp R H fun r => r = (.full, st))
    (dir : Ino) {cookie : UInt64} (hcookie : cookie.toNat < 2) :
    (offerDots .synthesize sink dir cookie st).wp R H fun r => r = .full st := by
  have hone : ∀ ino name cookie,
      (offerOne sink ino name cookie st).wp R H fun r => r = .full st := by
    intro ino name cookie
    rw [offerOne, wp_bind]
    refine wp_mono (hsink _) ?_
    rintro _ rfl
    rfl
  obtain rfl | rfl | ⟨n, hn⟩ := cookie_cases cookie
  · rw [offerDots_zero, wp_bind]
    refine wp_mono (hone _ _ _) ?_
    rintro _ rfl
    rfl
  · rw [offerDots_dot, offerDotdot, if_pos rfl, wp_bind, FsProg.wp_lookup]
    exact fun _ _ => hone _ _ _
  · omega

/-- Behind `..` there are only pages. -/
theorem emit_of_two_le (o : Overflow) (fuel : Nat) (dir : Ino) {cookie : UInt64}
    (h : 2 ≤ cookie.toNat) (sink : SinkFn σ) (st : σ) :
    emit o fuel dir cookie .synthesize sink st =
      emitPages o dir sink fuel (traitOffset cookie) st := by
  rw [emit, offerDots_of_two_le h]
  rfl

theorem wp_emitPages_ends (o : Overflow) {N : Nat} (hR : ∀ c r, R c r → Ends N c r)
    (hN : N + 3 < 2 ^ 64) (hsink : ∀ e st, J st → (sink e st).wp R H fun r => J r.2) (dir : Ino)
    (fuel : Nat) (offset : UInt64) {st : σ} (hst : J st) (hfuel : N - offset.toNat < fuel) :
    (emitPages o dir sink fuel offset st).wp R H fun r => J r.2 := by
  have rule : SinkRule R H (fun _ => True) sink (fun _ st => J st) (fun r => J r.2) :=
    { offer := fun e _ st hst => wp_mono (hsink e st hst) fun r hr => by split <;> exact hr
      finish := fun _ hst => hst
      fail := fun _ _ _ _ hst => hst }
  induction fuel generalizing offset st with
  | zero => omega
  | succ fuel ih =>
    rw [emitPages, wp_bind, FsProg.wp_readdir]
    intro answer hanswer
    rcases answer with e | _ | ⟨entry, page⟩
    · exact hst
    · exact hst
    · have hpage : offset.toNat + (entry :: page).length ≤ N := hR _ _ hanswer _ rfl nofun
      simp only [wp_bind]
      refine wp_mono (wp_emitPage o rule (entry :: page) offset [] st (by omega) hst) ?_
      rintro (st | ⟨position, st⟩) h
      · exact h
      · obtain ⟨rfl, hst⟩ := h
        refine ih _ hst ?_
        rw [toNat_ofNat_u64 (by omega)]
        simp only [List.length_cons] at hpage ⊢
        omega

/-- A walk over listings that end comes to an end itself, whatever the pages hold, and
keeps what every sink call keeps. -/
theorem wp_emit_ends (o : Overflow) {N : Nat} (hR : ∀ c r, R c r → Ends N c r)
    (hN : N + 3 < 2 ^ 64) (hsink : ∀ e st, J st → (sink e st).wp R H fun r => J r.2) {fuel : Nat}
    (hfuel : N < fuel) (dir : Ino) (cookie : UInt64) (dots : Dots) {st : σ} (hst : J st) :
    (emit o fuel dir cookie dots sink st).wp R H fun r => J r.2 := by
  rw [emit, wp_bind]
  refine wp_mono (wp_offerDots_keeps hsink dots dir cookie hst) ?_
  rintro (st | ⟨position, st⟩) hst
  · exact hst
  · exact wp_emitPages_ends o hR hN hsink dir fuel _ hst (by omega)

end Ends

end Anymount.Readdir
