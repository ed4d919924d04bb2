import Anymount.Fs
import Anymount.Library.Machine

/-!
# The directory-listing driver

`.` occupies cookie 1, `..` cookie 2, and the trait's own entry at offset `o` cookie
`o + 3`. `emit` walks one resumable listing: it offers the synthesized entries and then
pages through `readdir` until a page is empty or the sink is full.

The sink is a closure in the source. Its captured state is passed explicitly here, and
it may make trait calls of its own. The page loop ends only when the filesystem returns
an empty page, so the walk carries fuel: the number of pages it may request.
-/
namespace Anymount.Readdir

open Library

def dot : UInt64 := 1
def dotdot : UInt64 := 2

/-- `"."` and `".."` as bytes. -/
def dotName : OsString := [46]
def dotdotName : OsString := [46, 46]

/-- `saturating_sub`: the trait-level offset to resume from after a cookie. -/
def traitOffset (resumeAfter : UInt64) : UInt64 :=
  if resumeAfter ≤ dotdot then 0 else resumeAfter - dotdot

/-- Cookie for the trait's entry at `offset`; an unchecked addition. -/
def forEntry (o : Overflow) (offset : UInt64) : FsProg UInt64 := do
  let cookie ← addU64 o offset dotdot
  addU64 o cookie 1

/-- Whether `emit` synthesizes `.` and `..`. -/
inductive Dots where
  | synthesize | omitted
  deriving DecidableEq, Repr

/-- What a sink did with an offered entry. -/
inductive Sink where
  | accepted | full
  deriving DecidableEq, Repr

/-- One entry offered to a sink, with the cookie to resume after. -/
structure Entry where
  ino : Ino
  name : OsString
  kind : FileKind
  cookie : UInt64
  deriving DecidableEq, Repr

/-- A sink closure with captured state `σ`. -/
abbrev SinkFn (σ : Type) := Entry → σ → FsProg (Sink × σ)

/-- Where a part of the walk stopped: at a full sink, or ready to go on from a position. -/
inductive Offered (σ : Type) where
  | full (st : σ)
  | more (position : UInt64) (st : σ)

variable {σ : Type}

/-- Offer one synthesized entry; accepting it moves on to `cookie`. -/
def offerOne (sink : SinkFn σ) (ino : Ino) (name : OsString) (cookie : UInt64) (st : σ) :
    FsProg (Offered σ) := do
  match ← sink ⟨ino, name, .directory, cookie⟩ st with
  | (.full, st) => pure (.full st)
  | (.accepted, st) => pure (.more cookie st)

def offerDot (sink : SinkFn σ) (dir : Ino) (cookie : UInt64) (st : σ) : FsProg (Offered σ) :=
  if cookie = 0 then offerOne sink dir dotName dot st else pure (.more cookie st)

/-- The inode reported for `..`: the answer to `lookup(dir, "..")`, or `dir` without one. -/
def parentOf (dir : Ino) : FsResult FileAttr → Ino
  | .ok attr => attr.ino
  | .error _ => dir

def offerDotdot (sink : SinkFn σ) (dir : Ino) (cookie : UInt64) (st : σ) :
    FsProg (Offered σ) :=
  if cookie = dot then do
    let parent := parentOf dir (← FsProg.lookup dir dotdotName)
    offerOne sink parent dotdotName dotdot st
  else pure (.more cookie st)

def offerDots (dots : Dots) (sink : SinkFn σ) (dir : Ino) (cookie : UInt64) (st : σ) :
    FsProg (Offered σ) :=
  match dots with
  | .omitted => pure (.more cookie st)
  | .synthesize => do
    match ← offerDot sink dir cookie st with
    | .full st => pure (.full st)
    | .more cookie st => offerDotdot sink dir cookie st

/-- The `for` loop over one page. -/
def emitPage (o : Overflow) (sink : SinkFn σ) : List DirEntry → UInt64 → σ → FsProg (Offered σ)
  | [], offset, st => pure (.more offset st)
  | entry :: page, offset, st => do
    let cookie ← forEntry o offset
    match ← sink ⟨entry.ino, entry.name, entry.kind, cookie⟩ st with
    | (.full, st) => pure (.full st)
    | (.accepted, st) => do
      let offset ← addU64 o offset 1
      emitPage o sink page offset st

/-- The page loop. -/
def emitPages (o : Overflow) (dir : Ino) (sink : SinkFn σ) :
    Nat → UInt64 → σ → FsProg (FsResult Bool × σ)
  | 0, _, _ => .halt .fuel
  | fuel + 1, offset, st => do
    match ← FsProg.readdir dir offset with
    | .error e => pure (.error e, st)
    | .ok [] => pure (.ok true, st)
    | .ok page => do
      match ← emitPage o sink page offset st with
      | .full st => pure (.ok false, st)
      | .more offset st => emitPages o dir sink fuel offset st

/-- Offer `.`, `..` and `dir`'s own entries to `sink`, resuming after a cookie. The result
is `true` when the listing was exhausted and `false` when the sink was full first. -/
def emit (o : Overflow) (fuel : Nat) (dir : Ino) (resumeAfter : UInt64) (dots : Dots)
    (sink : SinkFn σ) (st : σ) : FsProg (FsResult Bool × σ) := do
  match ← offerDots dots sink dir resumeAfter st with
  | .full st => pure (.ok false, st)
  | .more cookie st => emitPages o dir sink fuel (traitOffset cookie) st

/-! ## Two sinks in step

Sinks that give related answers in related states lead the same walk. -/

section Simulation

open Prog

variable {τ : Type} {Q : σ → τ → Prop} {sink : SinkFn σ} {sink' : SinkFn τ}

/-- The two sinks make the same calls and answer alike, staying related by `Q`. -/
def InStep (Q : σ → τ → Prop) (sink : SinkFn σ) (sink' : SinkFn τ) : Prop :=
  ∀ e st st', Q st st' → Related (fun a b => a.1 = b.1 ∧ Q a.2 b.2) (sink e st) (sink' e st')

/-- Both walks stopped at a full sink, or both go on from the same position. -/
def Offered.Alike (Q : σ → τ → Prop) : Offered σ → Offered τ → Prop
  | .full st, .full st' => Q st st'
  | .more p st, .more p' st' => p = p' ∧ Q st st'
  | _, _ => False

theorem related_offerOne (h : InStep Q sink sink') (ino : Ino) (name : OsString)
    (cookie : UInt64) {st : σ} {st' : τ} (hst : Q st st') :
    Related (Offered.Alike Q) (offerOne sink ino name cookie st)
      (offerOne sink' ino name cookie st') := by
  refine (h _ _ _ hst).bind ?_
  rintro ⟨answer, st⟩ ⟨_, st'⟩ ⟨rfl, hst⟩
  cases answer with
  | accepted => exact .ret ⟨rfl, hst⟩
  | full => exact .ret hst

theorem related_offerDotdot (h : InStep Q sink sink') (dir : Ino) (cookie : UInt64) {st : σ}
    {st' : τ} (hst : Q st st') :
    Related (Offered.Alike Q) (offerDotdot sink dir cookie st)
      (offerDotdot sink' dir cookie st') := by
  unfold offerDotdot
  split
  · refine (Related.refl (FsProg.lookup dir dotdotName) fun _ => rfl).bind ?_
    rintro answer _ rfl
    exact related_offerOne h _ _ _ hst
  · exact .ret ⟨rfl, hst⟩

theorem related_offerDots (h : InStep Q sink sink') (dots : Dots) (dir : Ino) (cookie : UInt64)
    {st : σ} {st' : τ} (hst : Q st st') :
    Related (Offered.Alike Q) (offerDots dots sink dir cookie st)
      (offerDots dots sink' dir cookie st') := by
  have hdot : Related (Offered.Alike Q) (offerDot sink dir cookie st)
      (offerDot sink' dir cookie st') := by
    unfold offerDot
    split
    · exact related_offerOne h _ _ _ hst
    · exact .ret ⟨rfl, hst⟩
  cases dots with
  | omitted => exact .ret ⟨rfl, hst⟩
  | synthesize =>
    refine hdot.bind ?_
    rintro (st | ⟨p, st⟩) (st' | ⟨p', st'⟩) hst
    · exact .ret hst
    · exact hst.elim
    · exact hst.elim
    · obtain ⟨rfl, hst⟩ := hst
      exact related_offerDotdot h dir p hst

theorem related_emitPage (o : Overflow) (h : InStep Q sink sink') (page : List DirEntry)
    (offset : UInt64) {st : σ} {st' : τ} (hst : Q st st') :
    Related (Offered.Alike Q) (emitPage o sink page offset st)
      (emitPage o sink' page offset st') := by
  induction page generalizing offset st st' with
  | nil => exact .ret ⟨rfl, hst⟩
  | cons entry page ih =>
    refine (Related.refl (forEntry o offset) fun _ => rfl).bind ?_
    rintro cookie _ rfl
    refine (h _ _ _ hst).bind ?_
    rintro ⟨answer, st⟩ ⟨_, st'⟩ ⟨rfl, hst⟩
    cases answer with
    | full => exact .ret hst
    | accepted =>
      refine (Related.refl (addU64 o offset 1) fun _ => rfl).bind ?_
      rintro offset _ rfl
      exact ih offset hst

theorem related_emitPages (o : Overflow) (h : InStep Q sink sink') (dir : Ino) (fuel : Nat)
    (offset : UInt64) {st : σ} {st' : τ} (hst : Q st st') :
    Related (fun a b => a.1 = b.1 ∧ Q a.2 b.2) (emitPages o dir sink fuel offset st)
      (emitPages o dir sink' fuel offset st') := by
  induction fuel generalizing offset st st' with
  | zero => exact .halt .fuel
  | succ fuel ih =>
    refine (Related.refl (FsProg.readdir dir offset) fun _ => rfl).bind ?_
    rintro answer _ rfl
    rcases answer with e | _ | ⟨entry, page⟩
    · exact .ret ⟨rfl, hst⟩
    · exact .ret ⟨rfl, hst⟩
    · refine (related_emitPage o h (entry :: page) offset hst).bind ?_
      rintro (st | ⟨p, st⟩) (st' | ⟨p', st'⟩) hst
      · exact .ret ⟨rfl, hst⟩
      · exact hst.elim
      · exact hst.elim
      · obtain ⟨rfl, hst⟩ := hst
        exact ih p hst

/-- Sinks in step give walks in step. -/
theorem related_emit (o : Overflow) (h : InStep Q sink sink') (fuel : Nat) (dir : Ino)
    (resumeAfter : UInt64) (dots : Dots) {st : σ} {st' : τ} (hst : Q st st') :
    Related (fun a b => a.1 = b.1 ∧ Q a.2 b.2) (emit o fuel dir resumeAfter dots sink st)
      (emit o fuel dir resumeAfter dots sink' st') := by
  refine (related_offerDots h dots dir resumeAfter hst).bind ?_
  rintro (st | ⟨p, st⟩) (st' | ⟨p', st'⟩) hst
  · exact .ret ⟨rfl, hst⟩
  · exact hst.elim
  · exact hst.elim
  · obtain ⟨rfl, hst⟩ := hst
    exact related_emitPages o h dir fuel _ hst

end Simulation

end Anymount.Readdir
