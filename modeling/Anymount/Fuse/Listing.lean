import Anymount.Fuse
import Anymount.Nfs.Listing

/-!
# Listing a directory through FUSE

The kernel asks for records from a cookie on, hands them to the application and asks again
from the last cookie, until a reply comes back empty. Whatever the size of its buffers, the
page boundaries of the filesystem and the pages that fail in between, that is the whole
listing, each element once.
-/
namespace Anymount.Fuse

open Library Library.Prog Readdir
open Nfs (left left_cases length_fullListing)

/-! ## One request -/

section Request

variable (dir : Ino) (P : Ino → Prop) (L : List DirEntry) (E : FsError → Prop) (cookie : UInt64)

/-- A reply to a listing request that resumes after `cookie`: the records of a prefix of
what is left, which is everything unless the next record has no room behind them, or an
error of the filesystem. -/
def ListingReply (room : Room) : Reply → Prop
  | .directory records => ∃ p, P p ∧ ∃ taken rest, left dir L cookie p = taken ++ rest ∧
      records = taken.map record ∧
      ∀ e es, rest = e :: es → room records (record e) = false
  | .error errno => ∃ e, E e ∧ errno = e.toErrno
  | _ => False

/-- The entries `es` are still to be offered behind the records added so far. -/
def Adding (es : List Entry) (records : List Dirent) : Prop :=
  ∃ p, P p ∧ ∃ taken, left dir L cookie p = taken ++ es ∧ records = taken.map record

/-- How the walk ends. -/
def Added (room : Room) : FsResult Bool × List Dirent → Prop
  | (.ok true, records) => Adding dir P L cookie [] records
  | (.ok false, records) => ∃ e es, Adding dir P L cookie (e :: es) records ∧
      room records (record e) = false
  | (.error e, _) => E e

variable {dir P L E cookie}

theorem sinkRule_addRecord (R : Contract FsSig) (room : Room) :
    SinkRule R (fun _ => False) E (addRecord room) (Adding dir P L cookie)
      (Added dir P L E cookie room) where
  offer e es := by
    rintro records ⟨p, hp, taken, hleft, hrecords⟩
    unfold addRecord
    split
    · refine ⟨p, hp, taken ++ [e], by simp [hleft], ?_⟩
      rw [hrecords, List.map_append]
      rfl
    · next hroom =>
      exact ⟨e, es, ⟨p, hp, taken, hleft, hrecords⟩, by simpa using hroom⟩
  finish _ h := h
  fail _ _ _ he _ := he

theorem wp_readdir (hP : ∃ p, P p) (hL : L.length + 3 < 2 ^ 64) (o : Overflow) {fuel : Nat}
    (hfuel : L.length < fuel) (room : Room) :
    (readdir o fuel dir cookie room).Ensures (Lists dir P L E)
      (ListingReply dir P L E cookie room) := by
  rw [readdir, Ensures, wp_bind]
  refine wp_mono (wp_emit o hP (fun _ _ h => h) hL (sinkRule_addRecord _ room) hfuel .synthesize
    cookie [] fun p hp => ⟨p, hp, [], rfl, rfl⟩) ?_
  rintro ⟨e | _ | _, records⟩ hend
  · exact ⟨e, hend, rfl⟩
  · obtain ⟨e, es, ⟨p, hp, taken, hleft, hrecords⟩, hroom⟩ := hend
    refine ⟨p, hp, taken, e :: es, hleft, hrecords, ?_⟩
    rintro e' es' ⟨⟩
    exact hroom
  · obtain ⟨p, hp, taken, hleft, hrecords⟩ := hend
    exact ⟨p, hp, taken, [], hleft, hrecords, by rintro _ _ ⟨⟩⟩

end Request

/-! ## The kernel -/

/-- A directory being read: the cookie to resume after, the records handed to the
application, whether the end was seen, and how many requests were answered with records and
how many with an error. -/
structure DirReader where
  cookie : UInt64
  got : List Dirent
  done : Bool
  answered : Nat
  failed : Nat
  deriving DecidableEq, Repr

/-- A reply without records is the end of the directory. One with an error is passed on to
the application, which may ask again. -/
def DirReader.take (c : DirReader) : Reply → DirReader
  | .directory records =>
    { c with
      cookie := (records.getLast?.map Dirent.cookie).getD c.cookie
      got := c.got ++ records
      done := records.isEmpty
      answered := c.answered + 1 }
  | _ => { c with failed := c.failed + 1 }

/-- The reader after `k` requests, the `k`-th of which has the buffer `rooms k` and finds the
filesystem in state `states k`: what other requests did in between is up to them. -/
def DirReader.after {σ : Type} (o : Overflow) (fuel : Nat) (fs : ReadOnlyFs σ) (dir : Ino)
    (rooms : Nat → Room) (states : Nat → σ) : Nat → DirReader
  | 0 => ⟨0, [], false, 0, 0⟩
  | k + 1 =>
    let c := after o fuel fs dir rooms states k
    if c.done then c
    else match ((readdir o fuel dir c.cookie (rooms k)).run fs (states k)).1 with
      | .ok reply => c.take reply
      | .error _ => c

section Whole

variable {σ : Type} {fs : ReadOnlyFs σ} {dir : Ino} {P : Ino → Prop} {L : List DirEntry}
  {E : FsError → Prop}

/-- What a reader that went by parent `p` has seen does not depend on the parent, or else
`..` is behind it. -/
theorem switch_parent (hL : L.length + 3 < 2 ^ 64) {cookie : UInt64} {got : List Dirent}
    {p p' : Ino} (hp : P p) (hp' : P p')
    (hgot : got ++ (left dir L cookie p).map record =
      (fullListing .synthesize dir p L).map record) :
    ∃ q, P q ∧ left dir L cookie q = left dir L cookie p' ∧
      (left dir L cookie q).length = (left dir L cookie p).length ∧
      got ++ (left dir L cookie q).map record = (fullListing .synthesize dir q L).map record := by
  have hcases : (∀ q q', left dir L cookie q = left dir L cookie q') ∨
      ∃ seen, ∀ q, fullListing .synthesize dir q L = seen ++ left dir L cookie q :=
    left_cases hL cookie
  rcases hcases with hindep | ⟨seen, hseen⟩
  · exact ⟨p, hp, hindep p p', rfl, hgot⟩
  · have hpre : got = seen.map record := by
      rw [hseen p, List.map_append] at hgot
      exact List.append_cancel_right hgot
    refine ⟨p', hp', rfl, ?_, ?_⟩
    · have h := congrArg List.length (hseen p)
      have h' := congrArg List.length (hseen p')
      rw [List.length_append, length_fullListing] at h h'
      omega
    · rw [hpre, ← List.map_append, ← hseen p']

/-- What holds after `k` requests: what was handed out and what is left make up the listing,
and every request either failed or got at least one element of it. -/
def ReaderInv (dir : Ino) (P : Ino → Prop) (L : List DirEntry) (E : FsError → Prop) (k : Nat)
    (c : DirReader) : Prop :=
  (0 < c.failed → ∃ e, E e) ∧ ∃ p, P p ∧
    c.got ++ (left dir L c.cookie p).map record = (fullListing .synthesize dir p L).map record ∧
    (c.done = true → left dir L c.cookie p = []) ∧
    (c.done = false → k = c.answered + c.failed ∧
      c.answered + (left dir L c.cookie p).length ≤ L.length + 2)

theorem lastCookie_records {cookie : UInt64} (taken : List Entry) :
    ((taken.map record).getLast?.map Dirent.cookie).getD cookie = resumeAt cookie taken := by
  rw [List.getLast?_map, Option.map_map]
  rfl

theorem readerInv_take (hL : L.length + 3 < 2 ^ 64) {room : Room}
    (hroom : ∀ p e, P p → e ∈ fullListing .synthesize dir p L → room [] (record e) = true)
    {k : Nat} {c : DirReader} (hgoing : c.done = false) (hc : ReaderInv dir P L E k c)
    {reply : Reply} (hreply : ListingReply dir P L E c.cookie room reply) :
    ReaderInv dir P L E (k + 1) (c.take reply) := by
  obtain ⟨hfailed, p, hp, hgot, hdone, hcount⟩ := hc
  obtain ⟨hk, hcount⟩ := hcount hgoing
  cases reply with
  | error errno =>
    obtain ⟨e, he, -⟩ := hreply
    exact ⟨fun _ => ⟨e, he⟩, p, hp, hgot, hdone, fun _ => ⟨by simp [DirReader.take]; omega, hcount⟩⟩
  | directory records =>
    obtain ⟨p', hp', taken, rest, hleft, rfl, hfull⟩ := hreply
    obtain ⟨q, hq, hsame, hlen, hgot'⟩ := switch_parent hL hp hp' hgot
    rw [hleft] at hsame
    have hrest : left dir L (resumeAt c.cookie taken) q = rest :=
      afterCookie_resumeAt (fullListing_sorted .synthesize dir q hL) hsame
    simp only [ReaderInv, DirReader.take, lastCookie_records]
    refine ⟨hfailed, q, hq, ?_, ?_, ?_⟩
    · rw [hrest, List.append_assoc, ← List.map_append, ← hsame]
      exact hgot'
    · intro hend
      rw [hrest]
      obtain rfl : taken = [] := by simpa using hend
      cases rest with
      | nil => rfl
      | cons e es =>
        -- An empty buffer has room for any record, so this one would have been added.
        have hmem : e ∈ left dir L c.cookie p' := by simp [hleft]
        have hmem := (List.mem_filter.mp hmem).1
        have := hfull e es rfl
        rw [List.map_nil, hroom p' e hp' hmem] at this
        cases this
    · intro hmore
      rw [hrest]
      have htaken : taken ≠ [] := by simpa using hmore
      have hpos := List.length_pos_iff.mpr htaken
      have hsplit := congrArg List.length hsame
      rw [List.length_append] at hsplit
      omega
  | _ => exact hreply.elim

variable (o : Overflow) {fuel : Nat} (rooms : Nat → Room) (states : Nat → σ)

theorem readerInv_after (hfs : fs.Meets (Lists dir P L E)) (hP : ∃ p, P p)
    (hL : L.length + 3 < 2 ^ 64) (hfuel : L.length < fuel)
    (hrooms : ∀ k p e, P p → e ∈ fullListing .synthesize dir p L → rooms k [] (record e) = true)
    (k : Nat) : ReaderInv dir P L E k (DirReader.after o fuel fs dir rooms states k) := by
  induction k with
  | zero =>
    obtain ⟨p, hp⟩ := hP
    have hall : left dir L 0 p = fullListing .synthesize dir p L :=
      afterCookie_zero .synthesize dir p hL
    refine ⟨by simp [DirReader.after], p, hp, ?_, by simp [DirReader.after], fun _ => ?_⟩
    · simp only [DirReader.after, hall, List.nil_append]
    · have hlen := congrArg List.length hall
      rw [length_fullListing] at hlen
      exact ⟨rfl, by simp only [DirReader.after]; omega⟩
  | succ k ih =>
    rw [DirReader.after]
    by_cases hdone : (DirReader.after o fuel fs dir rooms states k).done = true
    · obtain ⟨hfailed, p, hp, hgot, hend, -⟩ := ih
      rw [if_pos hdone]
      exact ⟨hfailed, p, hp, hgot, hend, fun hgo => by simp [hdone] at hgo⟩
    · obtain ⟨reply, hrun, hreply⟩ := (wp_readdir hP hL o hfuel (rooms k)).run hfs (states k)
      rw [if_neg hdone, hrun]
      exact readerInv_take hL (hrooms k) (by simpa using hdone) ih hreply

/-- A complete listing through FUSE. The directory holds `L`, in pages cut anywhere, some of
which fail with an error in `E`; `..` is whatever `lookup` reports at the time, within `P`;
other requests may change the filesystem's state in between; each request's buffer is of any
size that holds one record. Then an application has at every moment an initial piece of the
listing, in order and without repetition, whatever failed so far; it has all of it when it is
told of the end, which it is after at most three requests more than the directory has
entries, failed ones not counted. -/
theorem complete_listing_over_fuse (hfs : fs.Meets (Lists dir P L E))
    (hL : L.length < 2 ^ 64 - 3) (hfuel : L.length < fuel)
    (hrooms : ∀ k p e, P p → e ∈ fullListing .synthesize dir p L → rooms k [] (record e) = true)
    (k : Nat) :
    let c := DirReader.after o fuel fs dir rooms states k
    (∃ p, P p ∧ c.got <+: (fullListing .synthesize dir p L).map record) ∧
      (c.done = true → ∃ p, P p ∧ c.got = (fullListing .synthesize dir p L).map record) ∧
      (c.done = true ∨ k < c.failed + (L.length + 3)) ∧
      (0 < c.failed → ∃ e, E e) := by
  have hP : ∃ p, P p := ⟨_, hfs (.lookup dir dotdotName) (states 0) rfl rfl⟩
  obtain ⟨hfailed, p, hp, hgot, hdone, hgoing⟩ :=
    readerInv_after o rooms states hfs hP (by omega) hfuel hrooms k
  refine ⟨⟨p, hp, _, hgot⟩, fun hend => ⟨p, hp, ?_⟩, ?_, hfailed⟩
  · rw [hdone hend, List.map_nil, List.append_nil] at hgot
    exact hgot
  · cases hend : (DirReader.after o fuel fs dir rooms states k).done with
    | true => exact .inl rfl
    | false =>
      obtain ⟨hk, hcount⟩ := hgoing hend
      exact .inr (by omega)

/-- Two records to a request. -/
def twoRecords : Room := fun records _ => records.length < 2

/-- The root of the example, two records at a time. -/
theorem complete_listing_over_fuse_root :
    (DirReader.after .wraps 4 (MemFs.new 0 0).handler ⟨1⟩ (fun _ => twoRecords) (fun _ => .new)
        6).got.map Dirent.name =
      [dotName, dotdotName, MemFs.text "hello.txt", MemFs.text "numbers.txt",
        MemFs.text "subdir"] := by
  obtain ⟨-, hall, hends, hfailed⟩ := complete_listing_over_fuse .wraps (fun _ => twoRecords)
    (fun _ => MemFs.State.new) (MemFs.meets_lists_root 0 0) (by decide) (show 3 < 4 by decide)
    (fun _ _ _ _ _ => rfl) 6
  have hdone : (DirReader.after .wraps 4 (MemFs.new 0 0).handler ⟨1⟩ (fun _ => twoRecords)
      (fun _ => MemFs.State.new) 6).done = true := by
    refine hends.resolve_right fun hlt => ?_
    have hnone : ¬ 0 < _ := fun h => (hfailed h).elim fun _ he => he
    have hlen : MemFs.rootEntries.length = 3 := rfl
    omega
  obtain ⟨p, rfl, hgot⟩ := hall hdone
  rw [hgot]
  rfl

end Whole

end Anymount.Fuse
