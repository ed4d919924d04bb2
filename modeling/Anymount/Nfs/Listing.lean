import Anymount.Nfs.Exchange
import Anymount.Readdir.Law

/-!
# Listing a directory over the wire

One `READDIR3` or `READDIRPLUS3` call takes a prefix of what is left of the listing, as
long as the client's budget allows. A client that follows the cookies, and answers
`NFS3ERR_TOOSMALL` with a larger budget, gets the whole listing whatever it asks for.
-/
namespace Anymount.Nfs

open Library Library.Xdr Library.Prog Rfc1813 NfsProto Readdir

/-! ## Entries and their sizes -/

/-- Name, file id and cookie, as a client reads them off an entry. -/
def heard {K : Type} {plus : Bool} (v : (dirent plus).Value K) : OsString × UInt64 × UInt64 :=
  (v.2.1.val, v.1, v.2.2.1)

/-- Name, file id and cookie, as they are sent. -/
def sent (e : Entry) : OsString × UInt64 × UInt64 := (e.name, e.ino.number, e.cookie)

theorem heard_map {H K : Type} {plus : Bool} (f : H → K) (v : (dirent plus).Value H) :
    heard ((dirent plus).map f v) = heard v := rfl

/-- The most that may follow the cookie of an entry: attributes and a handle, in
`READDIRPLUS3`. -/
def largestExtra (plus : Bool) : Nat := if plus then 120 else 0

/-- The most an entry can take up, with its name padded to whole words. -/
def largestDirent (plus : Bool) (name : OsString) : Nat :=
  24 + (name.length + (padding name.length).length) + largestExtra plus

theorem length_encode_extra_le {plus : Bool} (v : (direntExtra plus).Value Ino) :
    ((direntExtra plus).encode (fun _ => List.replicate 24 0) v).length ≤ largestExtra plus := by
  cases plus with
  | false => simp [Ty.encode, largestExtra]
  | true =>
    obtain ⟨attr, fh⟩ := v
    have hattr : (postOpAttr.encode (fun _ => List.replicate 24 0) attr).length ≤ 88 := by
      cases attr with
      | none => simp [Ty.encode, encodeBool]
      | some a =>
        rw [Ty.encode, List.length_append, length_encode_fattr3]
        simp [encodeBool]
    have hfh : (postOpFh3.encode (fun _ => List.replicate 24 0) fh).length ≤ 32 := by
      cases fh with
      | none => simp [Ty.encode, encodeBool]
      | some ino => simp [Ty.encode, encodeBool, encodeOpaque, encodeFixed, padding]
    show (postOpAttr.encode _ attr ++ postOpFh3.encode _ fh).length ≤ 120
    rw [List.length_append]
    omega

theorem direntSize_le {plus : Bool} (v : (dirent plus).Value Ino) :
    direntSize v ≤ largestDirent plus v.2.1.val := by
  have hextra := length_encode_extra_le v.2.2.2
  have hlen : ((dirent plus).encode (fun _ => List.replicate 24 0) v).length =
      8 + (4 + (v.2.1.val.length + (padding v.2.1.val.length).length)) + 8 +
        ((direntExtra plus).encode (fun _ => List.replicate 24 0) v.2.2.2).length := by
    show (beU64 v.1 ++ (encodeOpaque v.2.1.val ++ (beU64 v.2.2.1 ++
      (direntExtra plus).encode (fun _ => List.replicate 24 0) v.2.2.2))).length = _
    simp only [encodeOpaque, encodeFixed, List.length_append, length_beU64, length_beU32]
    omega
  rw [direntSize, largestDirent, hlen]
  omega

/-! ## One call -/

section Call

variable (dir : Ino) (P : Ino → Prop) (L : List DirEntry) (cookie : UInt64)

/-- What is left of the listing after `cookie`, if `p` is the parent. -/
abbrev left (p : Ino) : List Entry := afterCookie cookie (fullListing .synthesize dir p L)

/-- A reply to a listing call that resumes after `cookie`: a prefix of what is left, empty
only at the end, or a refusal because the next entry is larger than the budget. -/
def ListingReply (budget : UInt32) {plus : Bool} {K : Type} :
    (readdir3res plus).Value K → Prop
  | .inl (_, _, entries, eof) => ∃ p, P p ∧ ∃ taken rest,
      left dir L cookie p = taken ++ rest ∧ entries.map heard = taken.map sent ∧
        (eof = true ↔ rest = []) ∧ (eof = false → entries ≠ [])
  | .inr (status, _) => status.val = nfs3errToosmall ∧ ∃ p, P p ∧ ∃ e es,
      left dir L cookie p = e :: es ∧ budget.toNat < largestDirent plus e.name + 128

theorem listingReply_map {H K : Type} (f : H → K) {budget : UInt32} {plus : Bool}
    {v : (readdir3res plus).Value H} (h : ListingReply dir P L cookie budget v) :
    ListingReply dir P L cookie budget ((readdir3res plus).map f v) := by
  rcases v with ⟨attr, verf, entries, eof⟩ | ⟨status, attr⟩
  · obtain ⟨p, hp, taken, rest, hleft, hheard, heof, hne⟩ := h
    refine ⟨p, hp, taken, rest, hleft, ?_, heof, ?_⟩
    · rw [← hheard]
      exact (List.map_map ..).trans (List.map_congr_left fun v _ => heard_map f v)
    · exact fun hmore => by simpa [Ty.map] using hne hmore
  · exact h

/-- The entries `es` are still to be offered: what was packed is what came before them,
and the budget is untouched as long as nothing was packed. -/
def Packing.Inv (budget : Nat) {plus : Bool} (es : List Entry) (st : Packed plus) : Prop :=
  ∃ p, P p ∧ ∃ taken, left dir L cookie p = taken ++ es ∧
    st.entries.map heard = taken.map sent ∧ (st.entries = [] → st.remaining = budget)

/-- How the walk ends. -/
def Packing.End (budget : Nat) {plus : Bool} : FsResult Bool × Packed plus → Prop
  | (.ok true, st) => Packing.Inv dir P L cookie budget [] st
  | (.ok false, st) => ∃ p, P p ∧ ∃ taken e es, left dir L cookie p = taken ++ e :: es ∧
      st.entries.map heard = taken.map sent ∧ (st.entries = [] → budget < largestDirent plus e.name)
  | (.error _, _) => False

theorem sinkRule_packValue (R : Contract FsSig) (fsid : UInt64) (plus : Bool) {budget : Nat}
    (hbudget : budget < 2 ^ 32) :
    SinkRule R (fun _ => False) (fun _ => False) (packValue fsid plus)
      (Packing.Inv dir P L cookie budget) (Packing.End dir P L cookie budget) where
  offer e es := by
    rintro st ⟨p, hp, taken, hleft, hheard, huntouched⟩
    rw [packValue, wp_bind]
    refine wp_mono (wp_extraValue fsid plus e.ino) fun extra _ => ?_
    split
    · next hname =>
      dsimp only
      split
      · next hfull =>
        refine ⟨p, hp, taken, e, es, hleft, hheard, fun hempty => ?_⟩
        have hsize := direntSize_le
          (show (dirent plus).Value Ino from (e.ino.number, ⟨e.name, hname⟩, e.cookie, extra))
        rw [huntouched hempty] at hfull
        exact lt_of_lt_of_le (by exact_mod_cast hfull) hsize
      · refine ⟨p, hp, taken ++ [e], by simp [hleft], ?_, by simp⟩
        simp [hheard, heard, sent]
    · next hname =>
      refine ⟨p, hp, taken, e, es, hleft, hheard, fun _ => ?_⟩
      rw [largestDirent]
      simp at hname
      omega
  finish st h := h
  fail _ _ _ he := he.elim

/-- One listing call of a directory that holds `L`. -/
theorem wp_serveReaddir_lists (hP : ∃ p, P p) (hL : L.length + 3 < 2 ^ 64) (o : Overflow)
    {fuel : Nat} (hfuel : L.length < fuel) (fsid : UInt64) (plus : Bool) (budget : UInt32) :
    (serveReaddir fsid o fuel plus dir cookie budget).Ensures
      (Lists dir P L fun _ => False) (ListingReply dir P L cookie budget) := by
  have hsub : (saturatingSub budget dirlistOverhead).toNat = budget.toNat - 128 :=
    toNat_saturatingSub budget dirlistOverhead
  have hlt := (saturatingSub budget dirlistOverhead).toNat_lt
  have hwalk := wp_emit o hP (fun _ _ h => h) hL
    (sinkRule_packValue dir P L cookie (Lists dir P L fun _ => False) fsid plus hlt) hfuel
    .synthesize cookie ⟨[], (saturatingSub budget dirlistOverhead).toNat⟩
    fun p hp => ⟨p, hp, [], rfl, rfl, fun _ => rfl⟩
  rw [serveReaddir, Ensures, wp_bind]
  refine wp_mono hwalk ?_
  rintro ⟨e | eof, st⟩ hend
  · exact hend.elim
  cases eof with
  | true =>
    obtain ⟨p, hp, taken, hleft, hheard, -⟩ := hend
    simp only [not_true_eq_false, and_false, if_false, wp_bind]
    refine wp_mono (wp_bestEffort fsid dir) fun attr _ => ?_
    exact ⟨p, hp, taken, [], hleft, hheard, by simp, nofun⟩
  | false =>
    obtain ⟨p, hp, taken, e, es, hleft, hheard, hsmall⟩ := hend
    by_cases hempty : st.entries = []
    · have htaken : taken = [] := by
        rw [hempty] at hheard
        exact List.map_eq_nil_iff.mp hheard.symm
      simp only [hempty, Bool.false_eq_true, not_false_eq_true, and_self, if_true, failValue,
        wp_bind]
      refine wp_mono (wp_bestEffort fsid dir) fun attr _ =>
        ⟨rfl, p, hp, e, es, by simpa [htaken] using hleft, ?_⟩
      have := hsmall hempty
      omega
    · simp only [hempty, false_and, if_false, wp_bind]
      refine wp_mono (wp_bestEffort fsid dir) fun attr _ => ?_
      exact ⟨p, hp, taken, e :: es, hleft, hheard, by simp, fun _ => hempty⟩

/-- A server whose filesystem holds `L` in `dir`. -/
def ServesDir : Contract ServerSig
  | .inl c, r => Lists dir P L (fun _ => False) c r
  | .inr _, _ => True

/-- One listing call and what the client decodes from its reply. -/
theorem run_listing {σ : Type} {env : Handler ServerSig σ} (henv : env.Meets (ServesDir dir P L))
    (hP : ∃ p, P p) (hL : L.length + 3 < 2 ^ 64) (o : Overflow) {fuel : Nat}
    (hfuel : L.length < fuel) (handle : FileHandle3) (config : Config) {body : Bytes} {xid : UInt32}
    {plus : Bool} {budget : UInt32}
    (hasks : Asks body xid (.readdir plus (handle.encode dir) cookie budget)) (s : σ) :
    ∃ reply v, ((handleMessage o fuel handle config body).run env s).1 = .ok reply ∧
      clientResult (readdir3res plus) xid reply = some v ∧
      ListingReply dir P L cookie budget v := by
  have hino : (Request.readdir plus (handle.encode dir) cookie budget).handle?.bind
      handle.resolve = some dir := handle.resolve_encode dir
  have hwp : (handleMessage o fuel handle config body).Ensures (ServesDir dir P L) fun reply =>
      ∃ v, clientResult (readdir3res plus) xid reply = some v ∧
        ListingReply dir P L cookie budget v := by
    rw [handleMessage_of_asks o fuel handle config hasks hino, Ensures, wp_bind, wp_inl]
    refine wp_mono (wp_serveReaddir_lists dir P L cookie hP hL o hfuel 1 plus budget)
      fun v hv => ?_
    exact ⟨_, clientResult_render handle xid (.readdir plus (handle.encode dir) cookie budget) v,
      listingReply_map dir P L cookie handle.encode hv⟩
  obtain ⟨reply, hrun, v, hclient, hv⟩ := hwp.run henv s
  exact ⟨reply, v, hrun, hclient, hv⟩

end Call

/-! ## The client -/

/-- A client in the middle of a listing: the cookie to resume after, the names and file
ids it got, whether it has seen the end, whether its last call was refused for its budget,
and the server's environment. -/
structure ListClient (σ : Type) where
  cookie : UInt64
  got : List (OsString × UInt64)
  done : Bool
  tooSmall : Bool
  env : σ

/-- The cookie of the last entry, or the old one without any. -/
def lastCookie {K : Type} {plus : Bool} (cookie : UInt64) (entries : List ((dirent plus).Value K)) :
    UInt64 :=
  (entries.getLast?.map fun v => v.2.2.1).getD cookie

section Client

variable {σ : Type} (o : Overflow) (fuel : Nat) (handle : FileHandle3) (config : Config)
  (env : Handler ServerSig σ)

/-- Send one call, keep the entries of the reply and move on to the last cookie. Any other
failure than a budget that is too small ends the listing. -/
def ListClient.step (plus : Bool) (xid : UInt32) (body : Bytes) (c : ListClient σ) :
    Option (ListClient σ) :=
  if c.done then some c
  else match (handleMessage o fuel handle config body).run env c.env with
    | (.error _, _) => none
    | (.ok reply, s) =>
      match clientResult (readdir3res plus) xid reply with
      | none => none
      | some (.inl (_, _, entries, eof)) =>
        some ⟨lastCookie c.cookie entries, c.got ++ entries.map fun v => (v.2.1.val, v.1), eof,
          false, s⟩
      | some (.inr (status, _)) =>
        if status.val = nfs3errToosmall then some ⟨c.cookie, c.got, false, true, s⟩ else none

/-- The client after `k` calls. The `k`-th is a `READDIR3` or a `READDIRPLUS3` with the
budget that `plan k` says, in the words of `message k`. -/
def ListClient.after (xid : Nat → UInt32) (message : Nat → Bool → UInt64 → UInt32 → Bytes)
    (plan : Nat → Bool × UInt32) (s : σ) : Nat → Option (ListClient σ)
  | 0 => some ⟨0, [], false, false, s⟩
  | k + 1 => do
    let c ← after xid message plan s k
    c.step o fuel handle config env (plan k).1 (xid k)
      (message k (plan k).1 c.cookie (plan k).2)

end Client

/-! ## The whole listing -/

/-- Name and file id of an element of the listing. -/
def nameAndId (e : Entry) : OsString × UInt64 := (e.name, e.ino.number)

section Whole

variable {dir : Ino} {P : Ino → Prop} {L : List DirEntry}

/-- The parent matters only to a client that has not seen `..` yet, and what such a client
has seen does not depend on it. -/
theorem left_cases (hL : L.length + 3 < 2 ^ 64) (cookie : UInt64) :
    (∀ p p', left dir L cookie p = left dir L cookie p') ∨
      ∃ seen, ∀ p, fullListing .synthesize dir p L = seen ++ left dir L cookie p := by
  simp only [left, afterCookie_fullListing hL]
  obtain rfl | rfl | ⟨n, hn⟩ := cookie_cases cookie
  · exact .inr ⟨[], fun p => rfl⟩
  · exact .inr ⟨[⟨dir, dotName, .directory, dot⟩], fun p => rfl⟩
  · refine .inl fun p p' => ?_
    rw [hn]
    rfl

theorem map_nameAndId_ownEntries (start : Nat) (L : List DirEntry) :
    (ownEntries start L).map nameAndId = L.map fun e => (e.name, e.ino.number) := by
  induction L generalizing start with
  | nil => rfl
  | cons e L ih => exact congrArg ((e.name, e.ino.number) :: ·) (ih (start + 1))

theorem length_fullListing (p : Ino) :
    (fullListing .synthesize dir p L).length = L.length + 2 := by
  simp [fullListing]

/-- A client that went by parent `p` so far and is told of parent `p'` now has a listing
for one of the two. -/
theorem reconcile (hL : L.length + 3 < 2 ^ 64) {cookie : UInt64} {got : List (OsString × UInt64)}
    {p p' : Ino} (hp : P p) (hp' : P p')
    (hgot : got ++ (left dir L cookie p).map nameAndId =
      (fullListing .synthesize dir p L).map nameAndId) :
    ∃ q, P q ∧ left dir L cookie q = left dir L cookie p' ∧
      (left dir L cookie q).length = (left dir L cookie p).length ∧
      got ++ (left dir L cookie q).map nameAndId =
        (fullListing .synthesize dir q L).map nameAndId := by
  rcases left_cases hL cookie with hindep | ⟨seen, hseen⟩
  · exact ⟨p, hp, hindep p p', rfl, hgot⟩
  · refine ⟨p', hp', rfl, ?_, ?_⟩
    · have h := congrArg List.length (hseen p)
      have h' := congrArg List.length (hseen p')
      rw [List.length_append, length_fullListing] at h h'
      omega
    · have hpre : got = seen.map nameAndId := by
        rw [hseen p, List.map_append] at hgot
        exact List.append_cancel_right hgot
      rw [hpre, ← List.map_append, ← hseen p']

theorem lastCookie_eq {K : Type} {plus : Bool} {cookie : UInt64}
    {entries : List ((dirent plus).Value K)} {taken : List Entry}
    (h : entries.map heard = taken.map sent) :
    lastCookie cookie entries = resumeAt cookie taken := by
  have hlast := congrArg (fun l => l.getLast?.map fun x : OsString × UInt64 × UInt64 => x.2.2) h
  simp only [List.getLast?_map, Option.map_map] at hlast
  exact congrArg (·.getD cookie) hlast

theorem nameAndId_of_heard {K : Type} {plus : Bool} {entries : List ((dirent plus).Value K)}
    {taken : List Entry} (h : entries.map heard = taken.map sent) :
    (entries.map fun v => (v.2.1.val, v.1)) = taken.map nameAndId := by
  have hfst := congrArg (List.map fun x : OsString × UInt64 × UInt64 => (x.1, x.2.1)) h
  rw [List.map_map, List.map_map] at hfst
  exact hfst

/-- The budget holds the next entry after `cookie`, in a reply of that kind. -/
def Enough (plus : Bool) (dir : Ino) (L : List DirEntry) (cookie : UInt64) (budget : UInt32) :
    Prop :=
  ∀ p e, (left dir L cookie p).head? = some e → largestDirent plus e.name + 128 ≤ budget.toNat

/-- What holds after `k` calls. A call either yields an entry or is refused, and after a
refusal the next one is not: what is left, counted twice, runs down. -/
def ListInv {σ : Type} (dir : Ino) (P : Ino → Prop) (L : List DirEntry) (k : Nat)
    (c : ListClient σ) : Prop :=
  ∃ p, P p ∧
    c.got ++ (left dir L c.cookie p).map nameAndId =
      (fullListing .synthesize dir p L).map nameAndId ∧
    (c.done = true → left dir L c.cookie p = []) ∧
    (c.done = false → left dir L c.cookie p ≠ [] ∧
      k + 2 * (left dir L c.cookie p).length + (if c.tooSmall then 0 else 1) ≤
        2 * (L.length + 2) + 1)

variable {σ : Type} {env : Handler ServerSig σ}

theorem listInv_step (henv : env.Meets (ServesDir dir P L)) (hP : ∃ p, P p)
    (hL : L.length + 3 < 2 ^ 64) (o : Overflow) {fuel : Nat} (hfuel : L.length < fuel)
    (handle : FileHandle3) (config : Config) {k : Nat} {c : ListClient σ}
    (hc : ListInv dir P L k c) {body : Bytes} {xid : UInt32} {plus : Bool} {budget : UInt32}
    (hasks : Asks body xid (.readdir plus (handle.encode dir) c.cookie budget))
    (hretry : c.tooSmall = true → Enough plus dir L c.cookie budget) :
    ∃ c', c.step o fuel handle config env plus xid body = some c' ∧
      ListInv dir P L (k + 1) c' := by
  obtain ⟨p, hp, hgot, hdone, hgoing⟩ := hc
  by_cases hd : c.done = true
  · exact ⟨c, if_pos hd, p, hp, hgot, hdone, fun h => by simp [hd] at h⟩
  obtain ⟨hleft, hcount⟩ := hgoing (by simpa using hd)
  obtain ⟨reply, v, hrun, hclient, hv⟩ := run_listing dir P L c.cookie henv hP hL o hfuel handle
    config hasks c.env
  rcases hs : (handleMessage o fuel handle config body).run env c.env with ⟨result, s'⟩
  rw [hs] at hrun
  obtain rfl : result = .ok reply := hrun
  rcases v with ⟨attr, verf, entries, eof⟩ | ⟨status, attr⟩
  · obtain ⟨p', hp', taken, rest, hleft', hheard, heof, hne⟩ := hv
    obtain ⟨q, hq, hsame, hlen, hgot'⟩ := reconcile hL hp hp' hgot
    rw [hleft'] at hsame
    have hrest : left dir L (lastCookie c.cookie entries) q = rest := by
      rw [lastCookie_eq hheard]
      exact afterCookie_resumeAt (fullListing_sorted .synthesize dir q hL) hsame
    refine ⟨⟨lastCookie c.cookie entries, c.got ++ entries.map fun v => (v.2.1.val, v.1), eof,
      false, s'⟩, by simp [ListClient.step, hd, hs, hclient], q, hq, ?_, ?_, ?_⟩
    · rw [hrest, nameAndId_of_heard hheard, List.append_assoc, ← List.map_append, ← hsame]
      exact hgot'
    · intro hend
      rw [hrest]
      exact heof.mp hend
    · intro hmore
      have hmore : eof = false := hmore
      have htaken : taken ≠ [] := by
        rintro rfl
        exact hne hmore (List.map_eq_nil_iff.mp hheard)
      have hpos := List.length_pos_iff.mpr htaken
      have hlen' := congrArg List.length hsame
      rw [List.length_append] at hlen'
      rw [hrest]
      refine ⟨fun hnil => ?_, ?_⟩
      · have := heof.mpr hnil
        simp [hmore] at this
      · simp only [Bool.false_eq_true, if_false]
        omega
  · obtain ⟨hstatus, p', hp', e, es, hleft', hsmall⟩ := hv
    have hfirst : c.tooSmall = false := by
      by_contra h
      have := hretry (by simpa using h) p' e (by rw [hleft']; rfl)
      omega
    refine ⟨⟨c.cookie, c.got, false, true, s'⟩, by simp [ListClient.step, hd, hs, hclient, hstatus],
      p, hp, hgot, nofun, fun _ => ⟨hleft, ?_⟩⟩
    simp only [hfirst, Bool.false_eq_true, if_false, if_true] at hcount ⊢
    omega

/-- The client never gets stuck, and the invariant holds after every number of calls. -/
theorem listInv_after (henv : env.Meets (ServesDir dir P L)) (hP : ∃ p, P p)
    (hL : L.length + 3 < 2 ^ 64) (o : Overflow) {fuel : Nat} (hfuel : L.length < fuel)
    (handle : FileHandle3) (config : Config) {xid : Nat → UInt32}
    {message : Nat → Bool → UInt64 → UInt32 → Bytes}
    (hasks : ∀ k plus cookie budget, Asks (message k plus cookie budget) (xid k)
      (.readdir plus (handle.encode dir) cookie budget))
    {plan : Nat → Bool × UInt32} {s : σ}
    (hretry : ∀ k c, ListClient.after o fuel handle config env xid message plan s k = some c →
      c.tooSmall = true → Enough (plan k).1 dir L c.cookie (plan k).2) (k : Nat) :
    ∃ c, ListClient.after o fuel handle config env xid message plan s k = some c ∧
      ListInv dir P L k c := by
  induction k with
  | zero =>
    obtain ⟨p, hp⟩ := hP
    have hall : left dir L 0 p = fullListing .synthesize dir p L :=
      afterCookie_zero .synthesize dir p hL
    refine ⟨_, rfl, p, hp, ?_, nofun, fun _ => ⟨?_, ?_⟩⟩
    · rw [hall, List.nil_append]
    · simp [hall, fullListing]
    · rw [hall, length_fullListing]
      simp
  | succ k ih =>
    obtain ⟨c, hafter, hc⟩ := ih
    obtain ⟨c', hstep, hc'⟩ := listInv_step henv hP hL o hfuel handle config hc
      (hasks k (plan k).1 c.cookie (plan k).2) (hretry k c hafter)
    exact ⟨c', by rw [ListClient.after, hafter]; exact hstep, hc'⟩

/-- A complete listing. The directory holds `L`, in pages cut anywhere; `..` is whatever
`lookup` reports at the time, within `P`; attributes may fail. A client that follows the
cookies through any mixture of `READDIR3` and `READDIRPLUS3` calls with any budgets, and
after a refusal offers a budget that holds the next entry, is done after at most two calls
for each element and has exactly `.`, `..` and `L`. Every successful reply that does not
report the end carries an entry. -/
theorem complete_listing_over_nfs (henv : env.Meets (ServesDir dir P L))
    (hL : L.length < 2 ^ 64 - 3) (o : Overflow) {fuel : Nat} (hfuel : L.length < fuel)
    (handle : FileHandle3) (config : Config) {xid : Nat → UInt32}
    {message : Nat → Bool → UInt64 → UInt32 → Bytes}
    (hasks : ∀ k plus cookie budget, Asks (message k plus cookie budget) (xid k)
      (.readdir plus (handle.encode dir) cookie budget)) (s : σ) :
    (∀ plan : Nat → Bool × UInt32,
      (∀ k c, ListClient.after o fuel handle config env xid message plan s k = some c →
        c.tooSmall = true → Enough (plan k).1 dir L c.cookie (plan k).2) →
      ∃ c p, ListClient.after o fuel handle config env xid message plan s (2 * (L.length + 2)) =
          some c ∧ c.done = true ∧ P p ∧
        c.got = (dotName, dir.number) :: (dotdotName, p.number) ::
          L.map fun e => (e.name, e.ino.number)) ∧
    ∀ k plus cookie budget, ∃ reply v,
      ((handleMessage o fuel handle config (message k plus cookie budget)).run env s).1 =
        .ok reply ∧
      clientResult (readdir3res plus) (xid k) reply = some v ∧
      ∀ attr verf entries, v = .inl (attr, verf, entries, false) → entries ≠ [] := by
  have hL' : L.length + 3 < 2 ^ 64 := by omega
  have hP : ∃ p, P p := ⟨_, henv (.inl (.lookup dir dotdotName)) s rfl rfl⟩
  refine ⟨fun plan hretry => ?_, fun k plus cookie budget => ?_⟩
  · obtain ⟨c, hafter, p, hp, hgot, hdone, hgoing⟩ :=
      listInv_after henv hP hL' o hfuel handle config hasks hretry (2 * (L.length + 2))
    have hd : c.done = true := by
      by_contra h
      obtain ⟨hne, hcount⟩ := hgoing (by simpa using h)
      have := List.length_pos_iff.mpr hne
      omega
    rw [hdone hd, List.map_nil, List.append_nil] at hgot
    refine ⟨c, p, hafter, hd, hp, ?_⟩
    rw [hgot, fullListing, List.map_cons, List.map_cons, map_nameAndId_ownEntries]
    rfl
  · obtain ⟨reply, v, hrun, hclient, hv⟩ := run_listing dir P L cookie henv hP hL' o hfuel handle
      config (hasks k plus cookie budget) s
    refine ⟨reply, v, hrun, hclient, ?_⟩
    rintro attr verf entries rfl
    obtain ⟨_, _, _, _, _, _, _, hne⟩ := hv
    exact hne rfl

end Whole

theorem servesDir_of_lists {σ φ : Type} {fs : ReadOnlyFs σ} {dir : Ino} {P : Ino → Prop}
    {L : List DirEntry} (h : fs.Meets (Lists dir P L fun _ => False)) (flag : Handler FlagSig φ) :
    (fs.sum flag).Meets (ServesDir dir P L) := by
  rintro (c | c) s
  · exact h c s.1
  · trivial

/-- Calls of both kinds in turn list the root of the example tree. -/
theorem complete_listing_over_nfs_root :
    ∃ c, ListClient.after .wraps 4 ⟨List.replicate 16 0, rfl⟩ localConfig memServer (fun _ => 7)
        (fun _ plus => readdirMessage 7 plus (FileHandle3.encode ⟨List.replicate 16 0, rfl⟩ ⟨1⟩))
        (fun k => (k % 2 == 0, 400)) (.new, false) 10 = some c ∧ c.done = true ∧
      c.got.map Prod.fst = [dotName, dotdotName, MemFs.text "hello.txt", MemFs.text "numbers.txt",
        MemFs.text "subdir"] := by
  have henough : ∀ plus cookie, Enough plus ⟨1⟩ MemFs.rootEntries cookie 400 := by
    intro plus cookie p e he
    have hmem := (List.mem_filter.mp (List.mem_of_mem_head? he)).1
    simp only [fullListing, MemFs.rootEntries, ownEntries, List.mem_cons, List.not_mem_nil,
      or_false] at hmem
    rcases hmem with rfl | rfl | rfl | rfl | rfl <;> dsimp only <;> revert plus <;> decide
  obtain ⟨c, p, hafter, hdone, -, hgot⟩ := (@complete_listing_over_nfs _ _ _ _ memServer
    (servesDir_of_lists (MemFs.meets_lists_root 0 0) _) (by decide) .wraps 4 (by decide)
    ⟨List.replicate 16 0, rfl⟩ localConfig (fun _ => 7) _
    (fun _ plus => asks_readdirMessage 7 plus (by decide)) (.new, false)).1
    (fun k => (k % 2 == 0, 400)) fun _ c _ _ => henough _ c.cookie
  exact ⟨c, hafter, hdone, by rw [hgot]; rfl⟩

end Anymount.Nfs
