import Anymount.Library.Listing
import Anymount.Nfs.Budget
import Anymount.Nfs.Listing

/-!
# What one directory reply holds

A `READDIR3` or `READDIRPLUS3` reply packs greedily: it carries the longest prefix of what is
left of the listing whose encoded entries fit the budget, says whether that was all of it,
and is refused exactly when there is something left and nothing fits.

How long an encoded entry is depends on what `getattr` answers for it, so each entry is taken
together with an answer. An entry the walk did not reach may be taken with any answer.
-/
namespace Anymount.Nfs

open Library Library.Xdr Library.Prog Library.Listing Rfc1813 NfsProto Readdir

/-! ## Encoded entries -/

/-- A filesystem that answers every `getattr` alike, and nothing else. -/
def answering (a : FsResult FileAttr) : ReadOnlyFs Unit
  | .getattr _, s => (a, s)
  | .lookup _ _, s => (.error .notFound, s)
  | .readdir _ _, s => (.error .notFound, s)
  | .openFile _, s => (.error .notFound, s)
  | .readAt _ _ buf, s => (.failed .notFound buf, s)
  | .release _, s => (.error .notFound, s)
  | .statfs, s => (.error .notFound, s)

/-- An entry of a listing with what `getattr` says of it. -/
abbrev Attributed := Entry × FsResult FileAttr

section Encoded

variable (ctx : Ctx) (plus : Bool)

/-- What `encode_dirent` writes for an entry when `getattr` gives that answer. -/
def encoded (x : Attributed) : Bytes :=
  match ((encodeDirent ctx x.1.ino x.1.name x.1.cookie plus).run (answering x.2) ()).1 with
  | .ok w => w.buf
  | .error _ => []

/-- The length of an encoded entry. -/
def encodedSize (x : Attributed) : Nat := (encoded ctx plus x).length

variable {ctx plus} {R : Contract FsSig} {H : Halt → Prop} {Q : Writer → Prop}

theorem wp_encodeDirent {e : Entry} (hR : ∃ a, R (.getattr e.ino) a)
    (hQ : ∀ a, R (.getattr e.ino) a → ∀ w : Writer, w.buf = encoded ctx plus (e, a) → Q w) :
    (encodeDirent ctx e.ino e.name e.cookie plus).wp R H Q := by
  cases plus with
  | false =>
    obtain ⟨a, ha⟩ := hR
    exact hQ a ha _ rfl
  | true =>
    intro a ha
    have := hQ a ha
    cases a with
    | ok attr => exact this _ rfl
    | error e => exact this _ rfl

theorem encodedSize_ge (ctx : Ctx) (plus : Bool) (x : Attributed) :
    24 ≤ encodedSize ctx plus x := by
  have h := length_encodeDirent ctx x.1.ino x.1.name x.1.cookie plus (R := anyAnswer FsSig)
    (H := fun _ => False)
  obtain ⟨w, hrun, hlen⟩ := Ensures.run h (answering x.2).meets_anyAnswer ()
  rw [encodedSize, encoded, hrun]
  exact hlen

end Encoded

/-! ## The walk -/

/-- The directory `dir` holds `L`, its `..` satisfies `P`, and `getattr` answers within `G`. -/
def ListsWith (dir : Ino) (P : Ino → Prop) (L : List DirEntry)
    (G : Ino → FsResult FileAttr → Prop) : Contract FsSig
  | .getattr ino, a => G ino a
  | c, r => Lists dir P L (fun _ => False) c r

theorem lists_of_listsWith {dir : Ino} {P : Ino → Prop} {L : List DirEntry}
    {G : Ino → FsResult FileAttr → Prop} (c : FsCall) (r : FsSig.Answer c)
    (h : ListsWith dir P L G c r) : Lists dir P L (fun _ => False) c r := by
  cases c with
  | getattr ino => trivial
  | _ => exact h

section Walk

variable (ctx : Ctx) (plus : Bool) (dir : Ino) (P : Ino → Prop) (L : List DirEntry)
  (G : Ino → FsResult FileAttr → Prop) (cookie : UInt64) (budget : Nat)

/-- The closure holds exactly `done`, and the budget is short by what that takes up. -/
structure Packs (done : List Attributed) (st : Packing) : Prop where
  entries : st.entries.buf = (done.map (encoded ctx plus)).flatten
  remaining : st.remaining.toInt = (budget : Int) - total (encodedSize ctx plus) done
  fits : total (encodedSize ctx plus) done ≤ budget
  packed : st.packed.toNat = done.length

/-- The walk has passed `done`, with answers that the filesystem may give. -/
def Passed (done : List Attributed) (es : List Entry) : Prop :=
  (∃ p, P p ∧ left dir L cookie p = done.map Prod.fst ++ es) ∧ ∀ x ∈ done, G x.1.ino x.2

/-- How the walk ends: everything was packed, or the next entry did not fit. -/
def PacksUntil : FsResult Bool × Packing → Prop
  | (.ok true, st) => ∃ done, Passed dir P L G cookie done [] ∧ Packs ctx plus budget done st
  | (.ok false, st) => ∃ done x es, Passed dir P L G cookie (done ++ [x]) es ∧
      Packs ctx plus budget done st ∧
      budget < total (encodedSize ctx plus) done + encodedSize ctx plus x
  | (.error _, _) => False

variable {ctx plus dir P L G cookie budget}

theorem length_le_total (ctx : Ctx) (plus : Bool) (done : List Attributed) :
    24 * done.length ≤ total (encodedSize ctx plus) done := by
  induction done with
  | nil => exact Nat.zero_le _
  | cons x done ih =>
    have hx := encodedSize_ge ctx plus x
    have hsplit : total (encodedSize ctx plus) (x :: done) =
        encodedSize ctx plus x + total (encodedSize ctx plus) done := by
      simp [total]
    rw [hsplit, List.length_cons]
    omega

theorem Passed.next {done : List Attributed} {e : Entry} {es : List Entry} {a : FsResult FileAttr}
    (h : Passed dir P L G cookie done (e :: es)) (ha : G e.ino a) :
    Passed dir P L G cookie (done ++ [(e, a)]) es := by
  obtain ⟨⟨p, hp, hleft⟩, hG⟩ := h
  refine ⟨⟨p, hp, by simp [hleft]⟩, ?_⟩
  intro x hx
  rcases List.mem_append.mp hx with hx | hx
  · exact hG x hx
  · obtain rfl := List.mem_singleton.mp hx
    exact ha

theorem sinkRule_packEntry (o : Overflow) (hG : ∀ ino, ∃ a, G ino a) (hbudget : budget < 2 ^ 32) :
    SinkRule (ListsWith dir P L G) (fun _ => False) (fun _ => False) (packEntry o ctx plus)
      (fun es st => ∃ done, Passed dir P L G cookie done es ∧ Packs ctx plus budget done st)
      (PacksUntil ctx plus dir P L G cookie budget) where
  offer e es := by
    rintro st ⟨done, hpassed, hpacks⟩
    have hcount := length_le_total ctx plus done
    have hremaining := hpacks.remaining
    have hfits := hpacks.fits
    have hpacked := hpacks.packed
    refine wp_packEntry o ctx plus e (by omega) (by omega) ?_
    refine wp_encodeDirent (hG e.ino) fun (a : FsResult FileAttr) ha w hw => ?_
    have hlen : w.len = encodedSize ctx plus (e, a) := congrArg List.length hw
    rw [hlen]
    refine ⟨fun hfull => ?_, ?_⟩
    · exact ⟨done, (e, a), es, hpassed.next ha, hpacks, by omega⟩
    · intro hroom st' hentries hremaining' hpacked'
      refine ⟨done ++ [(e, a)], hpassed.next ha, ?_, ?_, ?_, ?_⟩
      · rw [hentries, hpacks.entries, hw]
        simp
      · rw [hremaining', total_append, total_singleton]
        push_cast
        omega
      · rw [total_append, total_singleton]
        omega
      · rw [hpacked', hpacked, List.length_append, List.length_singleton]
  finish st h := h
  fail _ _ _ he := he.elim

theorem wp_buildDirlist (ctx : Ctx) (plus : Bool) (dir : Ino) (cookie : UInt64) (o : Overflow)
    {fuel : Nat} (hP : ∃ p, P p) (hG : ∀ ino, ∃ a, G ino a)
    (hL : L.length + 3 < 2 ^ 64) (hfuel : L.length < fuel) (budget : UInt32) :
    (emit o fuel dir cookie .synthesize (packEntry o ctx plus)
      ⟨.new, Int64.ofNat budget.toNat, 0⟩).Ensures (ListsWith dir P L G)
      (PacksUntil ctx plus dir P L G cookie budget.toNat) := by
  have hlt := budget.toNat_lt
  refine wp_emit o hP (fun c r h => lists_of_listsWith c r h) hL
    (sinkRule_packEntry o hG hlt) hfuel .synthesize cookie _ fun p hp => ?_
  refine ⟨[], ⟨⟨p, hp, rfl⟩, nofun⟩, rfl, ?_, Nat.zero_le _, rfl⟩
  rw [total_nil, Int64.toInt_ofNat_of_lt (by omega)]
  simp

end Walk

/-! ## The reply -/

section Reply

variable (handle : FileHandle3) (plus : Bool) (dir : Ino) (P : Ino → Prop) (L : List DirEntry)
  (G : Ino → FsResult FileAttr → Prop) (cookie : UInt64) (budget : UInt32)

/-- An `NFS3_OK` listing of these entries. -/
def okListing (attr : postOpAttr.Value Ino) (packed : List Attributed) (eof : Bool) : Bytes :=
  beU32 nfs3Ok ++ readdirResok handle attr (packed.map (encoded ⟨handle, 1⟩ plus)).flatten eof

/-- An `NFS3ERR_TOOSMALL` refusal. -/
def toosmallListing (attr : postOpAttr.Value Ino) : Bytes :=
  readdirResfail handle attr nfs3errToosmall

/-- What a listing call answers when `rest` is left and `packed` of it fits: a refusal exactly
when something is left and nothing fits, otherwise the packed entries and whether they are
everything. -/
structure Classifies (rest packed : List Attributed) (payload : Bytes) : Prop where
  longest : LongestWithin (encodedSize ⟨handle, 1⟩ plus) (budget.toNat - 128) rest packed
  refused : rest ≠ [] ∧ packed = [] → ∃ attr, payload = toosmallListing handle attr
  listed : ¬ (rest ≠ [] ∧ packed = []) → ∃ attr eof,
    payload = okListing handle plus attr packed eof ∧ (eof = true ↔ packed = rest)

/-- The elements of the listing after the cookie, each with an answer of `getattr`. -/
def Remaining (rest : List Attributed) : Prop :=
  (∃ p, P p ∧ rest.map Prod.fst = (fullListing .synthesize dir p L).drop cookie.toNat) ∧
    ∀ x ∈ rest, G x.1.ino x.2

variable {handle plus dir P L G cookie budget}

theorem Passed.remaining {done : List Attributed} {es : List Entry} (hG : ∀ ino, ∃ a, G ino a)
    (hL : L.length + 3 < 2 ^ 64) (h : Passed dir P L G cookie done es) :
    ∃ rest, rest.map Prod.fst = es ∧ Remaining dir P L G cookie (done ++ rest) := by
  obtain ⟨⟨p, hp, hleft⟩, hdone⟩ := h
  choose a ha using hG
  have hes : (es.map fun e => (e, a e.ino)).map Prod.fst = es := by
    rw [List.map_map]
    exact List.map_id es
  refine ⟨es.map fun e => (e, a e.ino), hes, ⟨p, hp, ?_⟩, ?_⟩
  · rw [← afterCookie_fullListing hL, List.map_append, hes]
    exact hleft.symm
  · intro x hx
    rcases List.mem_append.mp hx with hx | hx
    · exact hdone x hx
    · obtain ⟨e, -, rfl⟩ := List.mem_map.mp hx
      exact ha e.ino

/-- One listing call after its handle was resolved. -/
theorem wp_readdirAt (o : Overflow) {fuel : Nat} (hP : ∃ p, P p) (hG : ∀ ino, ∃ a, G ino a)
    (hL : L.length + 3 < 2 ^ 64) (hfuel : L.length < fuel) :
    (readdirAt o fuel ⟨handle, 1⟩ plus dir cookie budget).Ensures (ListsWith dir P L G)
      fun outcome => ∃ payload rest packed, outcome = .success ⟨payload⟩ ∧
        Remaining dir P L G cookie rest ∧ Classifies handle plus budget rest packed payload := by
  have hsub : (saturatingSub budget dirlistOverhead).toNat = budget.toNat - 128 :=
    toNat_saturatingSub budget dirlistOverhead
  have hwalk := wp_buildDirlist ⟨handle, 1⟩ plus dir cookie o hP hG hL hfuel
    (saturatingSub budget dirlistOverhead)
  rw [readdirAt, buildDirlist, Prog.bind_assoc, Ensures, wp_bind]
  refine wp_mono hwalk ?_
  rintro ⟨e | eof, st⟩ hend
  · exact hend.elim
  rw [hsub] at hend
  simp only [Except.map, pure_eq, ret_bind]
  cases eof with
  | true =>
    obtain ⟨done, hpassed, hpacks⟩ := hend
    obtain ⟨rest, hrest, hremaining⟩ := hpassed.remaining hG hL
    obtain rfl := List.map_eq_nil_iff.mp hrest
    rw [List.append_nil] at hremaining
    refine wp_listingReply _ ?_ ?_
    · intro _ a _
      refine ⟨_, done, done, rfl, hremaining, .all hpacks.fits, ?_,
        fun _ => ⟨sentAttr 1 a, true, ?_, by simp⟩⟩
      · rintro ⟨hne, hempty⟩
        exact absurd hempty hne
      · rw [hpacks.entries, okListing]
    · rintro ⟨-, hmore⟩
      exact absurd rfl hmore
  | false =>
    obtain ⟨done, x, es, hpassed, hpacks, hover⟩ := hend
    obtain ⟨rest, -, hremaining⟩ := hpassed.remaining hG hL
    rw [List.append_assoc, List.singleton_append] at hremaining
    have hlongest := LongestWithin.stopped rest hpacks.fits hover
    have hempty : st.packed = 0 ↔ done = [] := by
      rw [← UInt64.toNat_inj, hpacks.packed, UInt64.toNat_zero, List.length_eq_zero_iff]
    refine wp_listingReply _ ?_ ?_
    · intro hsome a _
      have hne : done ≠ [] := fun h => hsome ⟨hempty.mpr h, by simp⟩
      refine ⟨_, _, done, rfl, hremaining, hlongest, fun h => absurd h.2 hne,
        fun _ => ⟨sentAttr 1 a, false, ?_, by simp⟩⟩
      rw [hpacks.entries, okListing]
    · rintro ⟨hnone, -⟩ attr
      exact ⟨_, _, done, rfl, hremaining, hlongest, fun _ => ⟨attr, rfl⟩,
        fun h => absurd ⟨by simp, hempty.mp hnone⟩ h⟩

/-- A server over such a filesystem. -/
def ServesWith (dir : Ino) (P : Ino → Prop) (L : List DirEntry)
    (G : Ino → FsResult FileAttr → Prop) : Contract ServerSig
  | .inl c, r => ListsWith dir P L G c r
  | .inr _, _ => True

/-- Greedy packing. The directory holds `L`, in pages cut anywhere, and `getattr` answers
within `G`. A `READDIR3` or `READDIRPLUS3` call with any cookie and any budget has a reply.
With `rest` for the listing after the cookie and `packed` for its longest prefix that fits the
budget less 128, the reply is `NFS3ERR_TOOSMALL` exactly when something is left and nothing
fits, and otherwise lists exactly `packed` and reports the end exactly if that is everything.
A cookie at or behind the end gives an empty listing that reports the end. -/
theorem readdir_packs_greedily {σ : Type} {env : Handler ServerSig σ}
    (henv : env.Meets (ServesWith dir P L G)) (hL : L.length < 2 ^ 64 - 3) (o : Overflow)
    {fuel : Nat} (hfuel : L.length < fuel) (config : Config) {body fh : Bytes} {xid : UInt32}
    (hasks : Asks body xid (.readdir plus fh cookie budget)) (hfh : handle.resolve fh = some dir)
    (s : σ) :
    ∃ reply payload rest packed,
      ((handleMessage o fuel handle config body).run env s).1 = .ok (some reply) ∧
      acceptedPayload xid reply = some payload ∧
      Remaining dir P L G cookie rest ∧
      LongestWithin (encodedSize ⟨handle, 1⟩ plus) (budget.toNat - 128) rest packed ∧
      ((∃ attr, payload = toosmallListing handle attr) ↔ rest ≠ [] ∧ packed = []) ∧
      (¬ (rest ≠ [] ∧ packed = []) → ∃ attr eof,
        payload = okListing handle plus attr packed eof ∧ (eof = true ↔ packed = rest)) ∧
      (L.length + 2 ≤ cookie.toNat → ∃ attr, payload = okListing handle plus attr [] true) := by
  have hL' : L.length + 3 < 2 ^ 64 := by omega
  have hP : ∃ p, P p := ⟨_, henv (.inl (.lookup dir dotdotName)) s rfl rfl⟩
  have hG : ∀ ino, ∃ a, G ino a := fun ino => ⟨_, henv (.inl (.getattr ino)) s⟩
  have hwp : (handleMessage o fuel handle config body).Ensures (ServesWith dir P L G) fun reply =>
      ∃ payload rest packed, reply = some (buildReply xid (.success ⟨payload⟩)) ∧
        Remaining dir P L G cookie rest ∧ Classifies handle plus budget rest packed payload := by
    rw [handleMessage_of_readdir o fuel handle config hasks hfh, Ensures, wp_bind, wp_inl]
    refine wp_mono (wp_readdirAt o hP hG hL' hfuel) ?_
    rintro _ ⟨payload, rest, packed, rfl, hremaining, hclass⟩
    exact ⟨payload, rest, packed, rfl, hremaining, hclass⟩
  obtain ⟨reply, hrun, payload, rest, packed, rfl, hremaining, hclass⟩ := hwp.run henv s
  refine ⟨_, payload, rest, packed, hrun, ?_, hremaining, hclass.longest, ⟨?_, hclass.refused⟩,
    hclass.listed, fun hend => ?_⟩
  · rw [acceptedPayload_buildReply]
  · rintro ⟨attr, rfl⟩
    by_contra hnot
    obtain ⟨attr', eof, hok, -⟩ := hclass.listed hnot
    exact resfail_ne_ok handle attr (by decide) _ hok
  · obtain ⟨⟨p, -, hdrop⟩, -⟩ := hremaining
    have hnil : rest = [] := by
      rw [List.drop_eq_nil_of_le (by rw [length_fullListing]; exact hend)] at hdrop
      exact List.map_eq_nil_iff.mp hdrop
    subst hnil
    have hpacked : packed = [] := List.prefix_nil.mp hclass.longest.front
    subst hpacked
    obtain ⟨attr, eof, hok, heof⟩ := hclass.listed fun h => h.1 rfl
    obtain rfl : eof = true := heof.mpr rfl
    exact ⟨attr, hok⟩

end Reply

theorem memServer_servesWith : memServer.Meets (ServesWith rootIno (· = rootIno) MemFs.rootEntries
    fun ino a => a = (MemFs.new 0 0).attr ino) := by
  rintro (c | c) s
  · have hlists := MemFs.meets_lists_root 0 0 c s.1
    cases c with
    | getattr ino => rfl
    | _ => exact hlists
  · trivial

/-- `READDIRPLUS3` on the root of the example tree, with a budget for a few of its entries. -/
theorem readdir_packs_greedily_root :
    ∃ reply payload rest packed,
      ((handleMessage .panics 4 ⟨List.replicate 16 0, rfl⟩ localConfig
        (readdirMessage 7 true (FileHandle3.encode ⟨List.replicate 16 0, rfl⟩ rootIno) 1 500)).run
          memServer (.new, false)).1 = .ok (some reply) ∧
      acceptedPayload 7 reply = some payload ∧
      rest.map Prod.fst = (fullListing .synthesize rootIno rootIno MemFs.rootEntries).drop 1 ∧
      LongestWithin (encodedSize ⟨⟨List.replicate 16 0, rfl⟩, 1⟩ true) 372 rest packed ∧
      ((∃ attr, payload = toosmallListing ⟨List.replicate 16 0, rfl⟩ attr) ↔
        rest ≠ [] ∧ packed = []) := by
  obtain ⟨reply, payload, rest, packed, hrun, hpayload, ⟨⟨p, rfl, hrest⟩, -⟩, hlongest,
      hrefused, -⟩ :=
    readdir_packs_greedily memServer_servesWith
      (show MemFs.rootEntries.length < 2 ^ 64 - 3 by decide) .panics (show _ < 4 by decide)
      localConfig (asks_readdirMessage 7 true (by decide) 1 500)
      (FileHandle3.resolve_encode ⟨List.replicate 16 0, rfl⟩ rootIno) (.new, false)
  exact ⟨reply, payload, rest, packed, hrun, hpayload, hrest, hlongest, hrefused⟩

end Anymount.Nfs
