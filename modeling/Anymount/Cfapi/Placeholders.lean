import Anymount.Cfapi
import Anymount.Library.Utf8
import Anymount.Readdir.Law

/-!
# Cloud Files placeholders

The handling of a `FETCH_PLACEHOLDERS` callback. The platform names a directory by the
identity stored in its placeholder and wants one descriptor for each child; the answer is a
single `TRANSFER_PLACEHOLDERS` operation. A child without attributes is left out, but a
listing that broke off is not passed on at all.
-/
namespace Anymount.Cfapi

open Library Library.Prog

/-- `FILE_BASIC_INFO` and the size. -/
structure FsMetadata where
  creationTime : Int64
  lastAccessTime : Int64
  lastWriteTime : Int64
  changeTime : Int64
  fileAttributes : UInt32
  fileSize : Int64
  deriving DecidableEq, Repr

/-- `CF_PLACEHOLDER_CREATE_INFO`, with the buffers its pointers lead to. -/
structure CreateInfo where
  relativeFileName : List UInt16
  fsMetadata : FsMetadata
  fileIdentity : Bytes
  fileIdentityLength : UInt32
  flags : UInt32
  result : Int32
  createUsn : Int64
  deriving DecidableEq, Repr

/-- One `TRANSFER_PLACEHOLDERS` operation. -/
structure TransferPlaceholders where
  completionStatus : NtStatus
  placeholderTotalCount : Int64
  placeholderArray : List CreateInfo
  placeholderCount : UInt32
  entriesProcessed : UInt32
  deriving DecidableEq, Repr

/-- `CfExecute`; the answer is whether it accepted the operation. -/
abbrev PlaceholderSig : Signature := ⟨TransferPlaceholders, fun _ => Bool⟩

abbrev ListSig : Signature := FsSig.sum PlaceholderSig

abbrev ListProg := Prog ListSig

/-- The identity of the directory that is asked for: a pointer, which may be null, and the
number of bytes behind it. -/
structure FileIdentity where
  pointer : Option Bytes
  length : UInt32
  readable : ∀ bytes, pointer = some bytes → bytes.length = length.toNat

/-- The 100 ns intervals from 1601 to 1970. -/
def unixEpochInFiletime : Int64 := 116444736000000000

def fileAttributeReadonly : UInt32 := 0x1
def fileAttributeDirectory : UInt32 := 0x10

section Convert

variable (o : Overflow) {S : Signature}

/-- 100 ns intervals since 1601; 0 for a time before the Unix epoch. -/
def toFiletime (t : SystemTime) : Prog S Int64 :=
  if 0 ≤ t.secs then do
    let secs ← mulI64 o (.ofNat t.secs.toNat) 10000000
    let whole ← addI64 o unixEpochInFiletime secs
    addI64 o whole (.ofNat t.nanos / 100)
  else pure 0

def toFsMetadata (attr : FileAttr) : Prog S FsMetadata := do
  let attributes := match attr.kind with
    | .directory => fileAttributeDirectory
    | .file => fileAttributeReadonly
  let creationTime ← toFiletime o attr.ctime
  let lastAccessTime ← toFiletime o attr.atime
  let lastWriteTime ← toFiletime o attr.mtime
  let changeTime ← toFiletime o attr.ctime
  pure ⟨creationTime, lastAccessTime, lastWriteTime, changeTime, attributes, attr.size.toInt64⟩

def toCreateInfo (nameWide : List UInt16) (idBytes : Bytes) (attr : FileAttr) :
    Prog S CreateInfo := do
  let fsMetadata ← toFsMetadata o attr
  pure ⟨nameWide, fsMetadata, idBytes, .ofNat idBytes.length, 0, 0, 0⟩

end Convert

/-- `u64::to_le_bytes`. -/
def leBytes (v : UInt64) : Bytes := (beU64 v).reverse

/-- `encode_wide` and a terminator. On Windows the bytes of an `OsString` are the generalized
UTF-8 of its units. -/
def toWide (s : OsString) : List UInt16 := Utf8.utf16 (Utf8.points s) ++ [0]

/-- One directory entry, owning the buffers its descriptor points at. -/
structure PreparedEntry where
  identity : Bytes
  length_identity : identity.length = 8
  name : List UInt16
  attr : FileAttr

def prepareEntry (ino : Ino) (name : OsString) (attr : FileAttr) : PreparedEntry :=
  ⟨leBytes ino.number, by rw [leBytes, List.length_reverse, length_beU64], toWide name, attr⟩

section Handle

variable (o : Overflow) (fuel : Nat)

def withDescriptors {S : Signature} {α : Type} (entries : List PreparedEntry)
    (f : List CreateInfo → Prog S α) : Prog S α := do
  let infos ← entries.mapM fun e => toCreateInfo o e.name e.identity e.attr
  f infos

/-- The sink of `list_placeholders`, which is never full. -/
def collect : Readdir.SinkFn (List (Ino × OsString)) := fun entry listed =>
  pure (.accepted, listed ++ [(entry.ino, entry.name)])

/-- The `getattr` loop; a failure is only logged. -/
def prepareEntries : List (Ino × OsString) → List PreparedEntry → FsProg (List PreparedEntry)
  | [], entries => pure entries
  | (ino, name) :: listed, entries => do
    match ← FsProg.getattr ino with
    | .ok attr => prepareEntries listed (entries ++ [prepareEntry ino name attr])
    | .error _ => prepareEntries listed entries

/-- What `list_placeholders` does when the walk has ended. -/
def prepareListed : FsResult Bool × List (Ino × OsString) → FsProg (FsResult (List PreparedEntry))
  | (.error e, _) => pure (.error e)
  | (.ok _, listed) => do
    let entries ← prepareEntries listed []
    pure (.ok entries)

def listPlaceholders (dir : Ino) : FsProg (FsResult (List PreparedEntry)) := do
  let walked ← Readdir.emit o fuel dir 0 .omitted collect []
  prepareListed walked

/-- The parameters of the operation. -/
def operation (infos : List CreateInfo) (status : NtStatus) : TransferPlaceholders :=
  ⟨status, .ofNat infos.length, infos, .ofNat infos.length, 0⟩

/-- A refused operation is only logged. -/
def transferPlaceholders (infos : List CreateInfo) (status : NtStatus) : ListProg Unit :=
  .call (S := ListSig) (.inr (operation infos status)) fun _ => .ret ()

/-- What the handler does with the listing. -/
def transferListing : FsResult (List PreparedEntry) → ListProg Unit
  | .ok listing => withDescriptors o listing fun infos => transferPlaceholders infos .success
  | .error e => transferPlaceholders [] e.toNtstatus

/-- The directory that is asked for. Without an identity it is the mountpoint. -/
def FileIdentity.dir (identity : FileIdentity) : Option Ino :=
  if identity.length = 0 then some rootIno else decodeIno identity.pointer

def handleFetchPlaceholders (identity : FileIdentity) : ListProg Unit :=
  match identity.dir with
  | none => transferPlaceholders [] FsError.invalidArgument.toNtstatus
  | some dir => do
    let listing ← (listPlaceholders o fuel dir).inl
    transferListing o listing

end Handle

/-! ## Descriptors -/

/-- The 100 ns intervals from 1601 to a time. -/
def ticks (t : SystemTime) : Int :=
  116444736000000000 + t.secs * 10000000 + (t.nanos / 100 : Nat)

/-- The exact value of `to_filetime`. -/
def filetime (t : SystemTime) : Int := if 0 ≤ t.secs then ticks t else 0

/-- The times a `SystemTime` can hold on Windows, where it counts its intervals in an `i64`. -/
def Holdable (t : SystemTime) : Prop := InI64 (ticks t)

instance (t : SystemTime) : Decidable (Holdable t) := inferInstanceAs (Decidable (InI64 _))

structure HoldableTimes (attr : FileAttr) : Prop where
  atime : Holdable attr.atime
  mtime : Holdable attr.mtime
  ctime : Holdable attr.ctime

/-- Attributes come with times of the platform's type. -/
def OnWindows : Contract FsSig
  | .getattr _, answer => ∀ attr : FileAttr, answer = .ok attr → HoldableTimes attr
  | _, _ => True

theorem toFiletime_of_holdable (o : Overflow) {S : Signature} {t : SystemTime} (h : Holdable t) :
    ∃ n : Int64, (toFiletime o t : Prog S Int64) = .ret n ∧ n.toInt = filetime t := by
  unfold toFiletime filetime
  split_ifs with hsecs
  swap
  · exact ⟨0, rfl, rfl⟩
  obtain ⟨-, hlt⟩ := h
  unfold ticks at *
  have hnanos := t.nanos_lt
  have hword : (Int64.ofNat t.secs.toNat).toInt = t.secs := by
    rw [Int64.toInt_ofNat_of_lt (by omega)]
    omega
  have hfrac : (Int64.ofNat t.nanos / 100).toInt = (t.nanos / 100 : Nat) := by
    rw [Int64.toInt_div_of_ne_right _ _ (by decide), Int64.toInt_ofNat_of_lt (by omega)]
    rfl
  have hten : (10000000 : Int64).toInt = 10000000 := rfl
  have hepoch : unixEpochInFiletime.toInt = 116444736000000000 := rfl
  obtain ⟨secs, hmul, hsecs⟩ := mulI64_exact (S := S) o hword hten ⟨by omega, by omega⟩
  obtain ⟨whole, hadd, hwhole⟩ := addI64_exact (S := S) o hepoch hsecs ⟨by omega, by omega⟩
  obtain ⟨n, hlast, hn⟩ := addI64_exact (S := S) o hwhole hfrac ⟨by omega, by omega⟩
  refine ⟨n, ?_, hn⟩
  rw [hmul, ret_bind, hadd, ret_bind, hlast]

/-- What the attributes of a child become. -/
structure DescribesAttr (attr : FileAttr) (metadata : FsMetadata) : Prop where
  creation : metadata.creationTime.toInt = filetime attr.ctime
  lastAccess : metadata.lastAccessTime.toInt = filetime attr.atime
  lastWrite : metadata.lastWriteTime.toInt = filetime attr.mtime
  change : metadata.changeTime.toInt = filetime attr.ctime
  directory : attr.kind = .directory → metadata.fileAttributes = fileAttributeDirectory
  file : attr.kind = .file → metadata.fileAttributes = fileAttributeReadonly
  size : metadata.fileSize.toUInt64 = attr.size

/-- The descriptor of a child: its name in UTF-16 and a terminator, its attributes, and an
identity that leads back to it. -/
structure Describes (e : DirEntry) (attr : FileAttr) (info : CreateInfo) : Prop where
  name : ∀ vs : List Nat, (∀ v ∈ vs, v < 0x110000) → e.name = Utf8.wtf8 vs →
    info.relativeFileName = Utf8.utf16 vs ++ [0]
  metadata : DescribesAttr attr info.fsMetadata
  identity : decodeIno (some info.fileIdentity) = some e.ino
  length : info.fileIdentityLength.toNat = info.fileIdentity.length

theorem decodeIno_leBytes (ino : Ino) : decodeIno (some (leBytes ino.number)) = some ino := by
  have hlen : (leBytes ino.number).length = 8 := by rw [leBytes, List.length_reverse, length_beU64]
  rw [decodeIno, if_neg (not_not.mpr hlen), leNat, leBytes, List.reverse_reverse, ofNat_beNat_beU64]

theorem toFsMetadata_describes (o : Overflow) {S : Signature} {attr : FileAttr}
    (h : HoldableTimes attr) :
    ∃ metadata, (toFsMetadata o attr : Prog S FsMetadata) = .ret metadata ∧
      DescribesAttr attr metadata := by
  obtain ⟨ctime, hctime, hc⟩ := toFiletime_of_holdable o (S := S) h.ctime
  obtain ⟨atime, hatime, ha⟩ := toFiletime_of_holdable o (S := S) h.atime
  obtain ⟨mtime, hmtime, hm⟩ := toFiletime_of_holdable o (S := S) h.mtime
  refine ⟨_, by rw [toFsMetadata, hctime, hatime, hmtime]; rfl, ?_⟩
  exact ⟨hc, ha, hm, hc, fun hkind => by rw [hkind], fun hkind => by rw [hkind], by simp⟩

theorem toCreateInfo_describes (o : Overflow) {S : Signature} (e : DirEntry) {attr : FileAttr}
    (h : HoldableTimes attr) :
    ∃ info, (toCreateInfo o (toWide e.name) (leBytes e.ino.number) attr : Prog S CreateInfo) =
      .ret info ∧ Describes e attr info := by
  obtain ⟨metadata, hret, hmetadata⟩ := toFsMetadata_describes o (S := S) h
  refine ⟨_, by rw [toCreateInfo, hret]; rfl, ?_⟩
  refine ⟨?_, hmetadata, decodeIno_leBytes e.ino, ?_⟩
  · intro vs hvs hname
    rw [toWide, hname, Utf8.points_wtf8 hvs]
  · simp [leBytes]

/-! ## The listing -/

/-- A child as the sink notes it down. -/
def listedAs (e : DirEntry) : Ino × OsString := (e.ino, e.name)

theorem map_ownEntries (start : Nat) (L : List DirEntry) :
    (Readdir.ownEntries start L).map (fun e => (e.ino, e.name)) = L.map listedAs := by
  induction L generalizing start with
  | nil => rfl
  | cons e L ih => exact congrArg (listedAs e :: ·) (ih _)

/-- What is noted down and what is still to come make up the whole directory. -/
theorem sinkRule_collect {R : Contract FsSig} (L : List DirEntry) :
    Readdir.SinkRule R (fun _ => False) (fun _ => False) collect
      (fun es listed => listed ++ es.map (fun e => (e.ino, e.name)) = L.map listedAs)
      (· = (.ok true, L.map listedAs)) where
  offer := by
    intro e es listed hsplit
    show (listed ++ [(e.ino, e.name)]) ++ es.map (fun e => (e.ino, e.name)) = L.map listedAs
    rw [← hsplit, List.append_assoc]
    rfl
  finish := by
    intro listed hall
    rw [List.map_nil, List.append_nil] at hall
    rw [hall]
  fail := by
    intro es listed e he
    exact he.elim

section Children

variable {σ : Type} (o : Overflow) {fs : ReadOnlyFs σ} {dir : Ino} {L : List DirEntry} {fuel : Nat}

/-- Without a failing page, every child is noted down once. -/
theorem emit_collects {P : Ino → Prop} {E : FsError → Prop} (hP : ∃ p, P p)
    (hfs : fs.Meets (Readdir.Lists dir P L E)) (hL : L.length + 3 < 2 ^ 64)
    (hfuel : L.length < fuel) {s : σ}
    (hpages : ∀ event ∈ (Readdir.emit o fuel dir 0 .omitted collect []).events fs s,
      ∀ e, ¬ Readdir.FailedPage event e) :
    ((Readdir.emit o fuel dir 0 .omitted collect []).run fs s).1 =
      .ok (.ok true, L.map listedAs) := by
  have hwp : (Readdir.emit o fuel dir 0 .omitted collect []).Ensures
      (Readdir.Lists dir P L fun _ => False) (· = (.ok true, L.map listedAs)) := by
    refine Readdir.wp_emit o hP (fun _ _ => id) hL (sinkRule_collect L) hfuel .omitted 0 _ ?_
    intro p _
    rw [Readdir.afterCookie_zero .omitted dir p hL]
    exact map_ownEntries 0 L
  have hobeys : ∀ event ∈ (Readdir.emit o fuel dir 0 .omitted collect []).events fs s,
      Readdir.Lists dir P L (fun _ => False) event.1 event.2 := by
    rintro ⟨c, answer⟩ hmem
    have hlists : Readdir.Lists dir P L E c answer := meets_events hfs _ _ _ hmem
    cases c with
    | readdir d offset =>
      intro hd
      rcases hlists hd with hpage | ⟨e, rfl, -⟩
      · exact .inl hpage
      · exact (hpages _ hmem e ⟨d, offset, rfl⟩).elim
    | _ => exact hlists
  rcases wp_events hwp hobeys with ⟨_, hrun, rfl⟩ | ⟨_, _, impossible⟩
  · exact hrun
  · exact impossible.elim

theorem collect_within {P : FsCall → Prop} (e : Readdir.Entry) (listed : List (Ino × OsString)) :
    (collect e listed).Within P := trivial

theorem prepareEntries_within (listed : List (Ino × OsString)) (entries : List PreparedEntry) :
    (prepareEntries listed entries).Within Readdir.NotReaddir := by
  induction listed generalizing entries with
  | nil => trivial
  | cons child listed ih =>
    refine ⟨nofun, ?_⟩
    rintro (e | attr)
    · exact ih entries
    · exact ih _

/-- A call that does not ask for attributes. -/
def NotGetattr (c : FsCall) : Prop := ∀ ino, c ≠ .getattr ino

theorem emit_within_notGetattr (fuel : Nat) (dir : Ino) :
    (Readdir.emit o fuel dir 0 .omitted collect []).Within NotGetattr :=
  Readdir.emit_within o fuel 0 .omitted (fun _ => nofun) nofun collect_within []

/-- The attributes that were asked for, with the answers. -/
def asGetattr : (Σ c, FsSig.Answer c) → Option (Ino × FsResult FileAttr)
  | ⟨.getattr ino, answer⟩ => some (ino, answer)
  | _ => none

/-- The entry is the child's, with attributes of the platform. -/
structure IsPrepared (e : DirEntry) (attr : FileAttr) (entry : PreparedEntry) : Prop where
  eq : entry = prepareEntry e.ino e.name attr
  times : HoldableTimes attr

/-- What the loop does with the answer for one child. -/
def keepAnswered (ino : Ino) (name : OsString) (entries : List PreparedEntry) :
    FsResult FileAttr → List PreparedEntry
  | .ok attr => entries ++ [prepareEntry ino name attr]
  | .error _ => entries

theorem prepareEntries_cons (ino : Ino) (name : OsString) (listed : List (Ino × OsString))
    (entries : List PreparedEntry) :
    prepareEntries ((ino, name) :: listed) entries =
      FsProg.getattr ino >>= fun answer =>
        prepareEntries listed (keepAnswered ino name entries answer) := by
  rw [prepareEntries]
  congr 1
  funext answer
  cases answer <;> rfl

/-- One pass over the children asks for the attributes of each in turn, and keeps those that
have some. -/
theorem prepareEntries_spec (htimes : fs.Meets OnWindows) (entries : List PreparedEntry) (s : σ) :
    ∃ (answers : List (FsResult FileAttr)) (more : List PreparedEntry),
      ((prepareEntries (L.map listedAs) entries).run fs s).1 = .ok (entries ++ more) ∧
      ((prepareEntries (L.map listedAs) entries).events fs s).filterMap asGetattr =
        List.zipWith (fun e answer => (e.ino, answer)) L answers ∧
      Listing.Survivors IsPrepared L answers more := by
  induction L generalizing entries s with
  | nil => exact ⟨[], [], by simp [prepareEntries, run], rfl, .nil⟩
  | cons e L ih =>
    obtain ⟨answers, more, hrun, hevents, hkept⟩ :=
      ih (keepAnswered e.ino e.name entries (fs (.getattr e.ino) s).1) (fs (.getattr e.ino) s).2
    have htime := htimes (.getattr e.ino) s
    rw [List.map_cons, listedAs, prepareEntries_cons]
    have hasked : (((FsProg.getattr e.ino >>= fun answer => prepareEntries (L.map listedAs)
        (keepAnswered e.ino e.name entries answer)).events fs s).filterMap asGetattr) =
        List.zipWith (fun e answer => (e.ino, answer)) (e :: L)
          ((fs (.getattr e.ino) s).1 :: answers) :=
      congrArg ((e.ino, (fs (.getattr e.ino) s).1) :: ·) hevents
    rw [FsProg.run_getattr_bind, hrun]
    revert htime hasked
    generalize ((fs (.getattr e.ino) s).1 : FsResult FileAttr) = answer
    intro htime hasked
    cases answer with
    | error err => exact ⟨.error err :: answers, more, rfl, hasked, .dropped hkept⟩
    | ok attr =>
      refine ⟨.ok attr :: answers, prepareEntry e.ino e.name attr :: more, ?_, hasked,
        .kept ⟨rfl, htime attr rfl⟩ hkept⟩
      rw [keepAnswered, List.append_assoc]
      rfl

/-- A failing page is what the listing fails with. -/
theorem listPlaceholders_fails {s : σ} {event : Σ c, FsSig.Answer c} {e : FsError}
    (hmem : event ∈ (listPlaceholders o fuel dir).events fs s)
    (hfail : Readdir.FailedPage event e) :
    ((listPlaceholders o fuel dir).run fs s).1 = .ok (.error e) := by
  have hwithin : ∀ walked, (prepareListed walked).Within Readdir.NotReaddir := by
    rintro ⟨e | done, listed⟩
    · trivial
    · exact .bind (prepareEntries_within listed []) fun _ => trivial
  rw [listPlaceholders, events_bind, List.mem_append] at hmem
  rcases hmem with hmem | hmem
  · obtain ⟨listed, hrun⟩ := (Readdir.emit_reportsFailure o fuel dir 0 .omitted collect_within
      []).run fs s hmem hfail
    rw [listPlaceholders, run_bind_of_ok (Prod.ext hrun rfl)]
    rfl
  · obtain ⟨d, offset, rfl⟩ := hfail
    split at hmem
    · exact ((hwithin _).of_mem_events hmem d offset rfl).elim
    · cases hmem

/-- Without a failing page, each child was asked for its attributes, and is listed if it has
some. -/
theorem listPlaceholders_lists {P : Ino → Prop} {E : FsError → Prop} (hP : ∃ p, P p)
    (hfs : fs.Meets (Readdir.Lists dir P L E)) (htimes : fs.Meets OnWindows)
    (hL : L.length + 3 < 2 ^ 64) (hfuel : L.length < fuel) {s : σ}
    (hpages : ∀ event ∈ (listPlaceholders o fuel dir).events fs s,
      ∀ e, ¬ Readdir.FailedPage event e) :
    ∃ (answers : List (FsResult FileAttr)) (entries : List PreparedEntry),
      ((listPlaceholders o fuel dir).run fs s).1 = .ok (.ok entries) ∧
      ((listPlaceholders o fuel dir).events fs s).filterMap asGetattr =
        List.zipWith (fun e answer => (e.ino, answer)) L answers ∧
      Listing.Survivors IsPrepared L answers entries := by
  have hwalk := emit_collects o hP hfs hL hfuel (s := s) fun event hmem => hpages event
    (by rw [listPlaceholders, events_bind]; exact List.mem_append_left _ hmem)
  generalize hs : ((Readdir.emit o fuel dir 0 .omitted collect []).run fs s).2 = s'
  have hrun := run_bind_of_ok (Prod.ext hwalk hs) prepareListed
  have hevents := events_bind_of_ok (Prod.ext hwalk hs) prepareListed
  obtain ⟨answers, entries, hprepared, hasked, hkept⟩ := prepareEntries_spec (L := L) htimes [] s'
  refine ⟨answers, entries, ?_, ?_, hkept⟩
  · rw [listPlaceholders, hrun, prepareListed, run_bind_of_ok (Prod.ext hprepared rfl)]
    rfl
  · have hquiet : ((Readdir.emit o fuel dir 0 .omitted collect []).events fs s).filterMap
        asGetattr = [] := by
      refine List.filterMap_eq_nil_iff.mpr ?_
      rintro ⟨c, answer⟩ hmem
      have hwithin := emit_within_notGetattr o fuel dir
      cases c with
      | getattr ino => exact (hwithin.of_mem_events hmem ino rfl).elim
      | _ => rfl
    rw [listPlaceholders, hevents, List.filterMap_append, hquiet, ← hasked, prepareListed]
    exact congrArg (List.filterMap asGetattr) (events_bind_ret fs _ Except.ok s')

end Children

/-! ## The callback -/

/-- The calls of one callback, each with its answer. -/
def callbackEvents {σ τ : Type} (o : Overflow) (fuel : Nat) (fs : ReadOnlyFs σ)
    (execute : Handler PlaceholderSig τ) (identity : FileIdentity) (s : σ) (t : τ) :
    List (Σ c, ListSig.Answer c) :=
  (handleFetchPlaceholders o fuel identity).events (fs.sum execute) (s, t)

/-- A call of the listing is one of the callback. -/
def ofListing (event : Σ c, FsSig.Answer c) : Σ c, ListSig.Answer c := ⟨.inl event.1, event.2⟩

def asTransferPlaceholders : (Σ c, ListSig.Answer c) → Option TransferPlaceholders
  | ⟨.inr x, _⟩ => some x
  | ⟨.inl _, _⟩ => none

/-- The attributes asked for in a callback. -/
def asAttr : (Σ c, ListSig.Answer c) → Option (Ino × FsResult FileAttr)
  | ⟨.inl c, answer⟩ => asGetattr ⟨c, answer⟩
  | ⟨.inr _, _⟩ => none

/-- A page of the listing fails. -/
def pageFails : (Σ c, ListSig.Answer c) → Bool
  | ⟨.inl (.readdir _ _), .error _⟩ => true
  | _ => false

theorem pageFails_ofListing {event : Σ c, FsSig.Answer c} :
    pageFails (ofListing event) = true ↔ ∃ e, Readdir.FailedPage event e := by
  constructor
  · intro h
    obtain ⟨c, answer⟩ := event
    unfold pageFails ofListing at h
    split at h
    · next heq =>
      cases heq
      exact ⟨_, _, _, rfl⟩
    · cases h
  · rintro ⟨e, d, offset, rfl⟩
    rfl

namespace FileIdentity

variable (identity : FileIdentity)

/-- The identity is empty and `dir` is the root, or it decodes to `dir`. -/
def Names (dir : Ino) : Prop :=
  identity.length = 0 ∧ dir = rootIno ∨ decodeIno identity.pointer = some dir

/-- The identity is there and does not decode. -/
def Unrecognized : Prop := identity.length ≠ 0 ∧ decodeIno identity.pointer = none

variable {identity}

theorem dir_of_names {dir : Ino} (h : identity.Names dir) : identity.dir = some dir := by
  unfold FileIdentity.dir
  split_ifs with hzero
  · rcases h with ⟨-, rfl⟩ | hdecode
    · rfl
    · -- Eight bytes are not none.
      rcases hpointer : identity.pointer with _ | bytes
      · rw [hpointer] at hdecode
        cases hdecode
      · have hlen := identity.readable bytes hpointer
        rw [hpointer, decodeIno, hlen, hzero, if_pos (by decide)] at hdecode
        cases hdecode
  · rcases h with ⟨hlen, -⟩ | hdecode
    · exact (hzero hlen).elim
    · exact hdecode

theorem dir_of_unrecognized (h : identity.Unrecognized) : identity.dir = none := by
  rw [FileIdentity.dir, if_neg h.1, h.2]

theorem Unrecognized.not_names (h : identity.Unrecognized) (dir : Ino) : ¬ identity.Names dir := by
  intro hnames
  have hdir := dir_of_unrecognized h
  rw [dir_of_names hnames] at hdir
  cases hdir

end FileIdentity

/-- The directory in full: each child was asked for its attributes, and those that have some
have a descriptor, in the directory's order. -/
structure Complete (L : List DirEntry) (asked : List (Ino × FsResult FileAttr))
    (x : TransferPlaceholders) : Prop where
  status : x.completionStatus = .success
  total : x.placeholderTotalCount.toInt = x.placeholderArray.length
  count : x.placeholderCount.toNat = x.placeholderArray.length
  children : ∃ answers, asked = List.zipWith (fun e answer => (e.ino, answer)) L answers ∧
    Listing.Survivors Describes L answers x.placeholderArray

/-- Nothing is passed on. -/
structure Refused (x : TransferPlaceholders) : Prop where
  status : x.completionStatus ≠ .success
  total : x.placeholderTotalCount = 0
  count : x.placeholderCount = 0
  empty : x.placeholderArray = []

section Callback

variable {σ τ : Type} (o : Overflow) {fs : ReadOnlyFs σ} (execute : Handler PlaceholderSig τ)
  {dir : Ino} {L : List DirEntry} {identity : FileIdentity} {fuel : Nat} {s : σ} (t : τ)

/-- After the listing, one operation. -/
theorem callback_of_listing (hdir : identity.dir = some dir)
    {result : FsResult (List PreparedEntry)}
    (hlist : ((listPlaceholders o fuel dir).run fs s).1 = .ok result) {infos : List CreateInfo}
    {status : NtStatus} (htransfer : transferListing o result = transferPlaceholders infos status) :
    ((handleFetchPlaceholders o fuel identity).run (fs.sum execute) (s, t)).1 = .ok () ∧
      ∃ accepted : Bool, callbackEvents o fuel fs execute identity s t =
        ((listPlaceholders o fuel dir).events fs s).map ofListing ++
          [⟨.inr (operation infos status), accepted⟩] := by
  have hrun : ((listPlaceholders o fuel dir).inl (T := PlaceholderSig)).run (fs.sum execute)
      (s, t) = (.ok result, ((listPlaceholders o fuel dir).run fs s).2, t) := by
    rw [run_inl, hlist]
  refine ⟨?_, (execute (operation infos status) t).1, ?_⟩
  · rw [handleFetchPlaceholders, hdir]
    dsimp only
    rw [run_bind_of_ok hrun, htransfer]
    rfl
  · rw [callbackEvents, handleFetchPlaceholders, hdir]
    dsimp only
    rw [events_bind_of_ok hrun, htransfer, events_inl]
    rfl

/-- The operation is the only one, and the listing's calls are the callback's. -/
theorem filterMap_callback (events : List (Σ c, FsSig.Answer c)) (x : TransferPlaceholders)
    (accepted : Bool) :
    let callback := events.map ofListing ++ [⟨.inr x, accepted⟩]
    callback.filterMap asTransferPlaceholders = [x] ∧
      callback.filterMap asAttr = events.filterMap asGetattr ∧
      ((∃ event ∈ callback, pageFails event) ↔
        ∃ event ∈ events, ∃ e, Readdir.FailedPage event e) := by
  refine ⟨?_, ?_, ?_⟩
  · rw [List.filterMap_append, List.filterMap_map]
    have hnone : events.filterMap (asTransferPlaceholders ∘ ofListing) = [] :=
      List.filterMap_eq_nil_iff.mpr fun _ _ => rfl
    rw [hnone]
    rfl
  · rw [List.filterMap_append, List.filterMap_map]
    exact List.append_nil _
  · constructor
    · rintro ⟨event, hmem, hfail⟩
      rcases List.mem_append.mp hmem with hmem | hmem
      · obtain ⟨event', hmem', rfl⟩ := List.mem_map.mp hmem
        exact ⟨event', hmem', pageFails_ofListing.mp hfail⟩
      · rw [List.mem_singleton.mp hmem] at hfail
        cases hfail
    · rintro ⟨event, hmem, hfail⟩
      exact ⟨_, List.mem_append_left _ (List.mem_map_of_mem hmem), pageFails_ofListing.mpr hfail⟩

/-- Descriptors for what was prepared. -/
theorem transferListing_ok {answers : List (FsResult FileAttr)} {entries : List PreparedEntry}
    (h : Listing.Survivors IsPrepared L answers entries) :
    ∃ infos, transferListing o (.ok entries) = transferPlaceholders infos .success ∧
      Listing.Survivors Describes L answers infos := by
  obtain ⟨infos, hmapM, hdescribed⟩ := h.mapM (m := Prog ListSig) (Q := Describes)
    (f := fun e => toCreateInfo o e.name e.identity e.attr) (by
      rintro e attr _ ⟨rfl, htimes⟩
      exact toCreateInfo_describes o e htimes)
  refine ⟨infos, ?_, hdescribed⟩
  rw [transferListing, withDescriptors, hmapM]
  rfl

theorem complete_operation {asked : List (Ino × FsResult FileAttr)} {infos : List CreateInfo}
    {answers : List (FsResult FileAttr)} (hL : L.length < 2 ^ 32)
    (hasked : asked = List.zipWith (fun e answer => (e.ino, answer)) L answers)
    (h : Listing.Survivors Describes L answers infos) :
    Complete L asked (operation infos .success) := by
  have hlen : infos.length < 2 ^ 32 := h.length_le.trans_lt hL
  exact ⟨rfl, Int64.toInt_ofNat_of_lt (by omega), UInt32.toNat_ofNat_of_lt' hlen,
    answers, hasked, h⟩

theorem refused_operation {status : NtStatus} (h : status ≠ .success) :
    Refused (operation [] status) := ⟨h, rfl, rfl, rfl⟩

end Callback

/-- A request for the children of a directory is answered by a single operation. It carries
the whole directory, less the children without attributes; or, if the identity is not
recognized or a page of the listing fails, nothing. -/
theorem fetchPlaceholders_answers_once (o : Overflow) {σ τ : Type} (fs : ReadOnlyFs σ)
    (execute : Handler PlaceholderSig τ) (dir : Ino) (L : List DirEntry)
    (hfs : fs.Meets (Readdir.Lists dir (fun _ => True) L fun _ => True))
    (htimes : fs.Meets OnWindows) (hL : L.length < 2 ^ 32) (identity : FileIdentity)
    (hidentity : identity.Names dir ∨ identity.Unrecognized) {fuel : Nat} (hfuel : L.length < fuel)
    (s : σ) (t : τ) :
    ((handleFetchPlaceholders o fuel identity).run (fs.sum execute) (s, t)).1 = .ok () ∧
    ∃ x, (callbackEvents o fuel fs execute identity s t).filterMap asTransferPlaceholders = [x] ∧
      (identity.Names dir →
        (∀ event ∈ callbackEvents o fuel fs execute identity s t, ¬ pageFails event) →
          Complete L ((callbackEvents o fuel fs execute identity s t).filterMap asAttr) x) ∧
      ((identity.Unrecognized ∨
        ∃ event ∈ callbackEvents o fuel fs execute identity s t, pageFails event) → Refused x) := by
  rcases hidentity with hnames | hunknown
  swap
  · have hdir := FileIdentity.dir_of_unrecognized hunknown
    have hp : handleFetchPlaceholders o fuel identity =
        transferPlaceholders [] FsError.invalidArgument.toNtstatus := by
      rw [handleFetchPlaceholders, hdir]
    rw [callbackEvents, hp]
    exact ⟨rfl, _, rfl, fun hnames => (hunknown.not_names dir hnames).elim,
      fun _ => refused_operation (FsError.toNtstatus_ne_success _)⟩
  have hdir := FileIdentity.dir_of_names hnames
  have hknown : ¬ identity.Unrecognized := fun h => h.not_names dir hnames
  by_cases hfails : ∃ event ∈ (listPlaceholders o fuel dir).events fs s,
      ∃ e, Readdir.FailedPage event e
  · obtain ⟨event, hmem, e, hfail⟩ := id hfails
    obtain ⟨hrun, accepted, hevents⟩ := callback_of_listing o execute t hdir
      (listPlaceholders_fails o hmem hfail) (show transferListing o (.error e) = _ from rfl)
    obtain ⟨hone, -, hpages⟩ := filterMap_callback ((listPlaceholders o fuel dir).events fs s)
      (operation [] e.toNtstatus) accepted
    rw [hevents]
    obtain ⟨event', hmem', hfail'⟩ := hpages.mpr hfails
    exact ⟨hrun, _, hone, fun _ hnone => (hnone event' hmem' hfail').elim,
      fun _ => refused_operation (FsError.toNtstatus_ne_success e)⟩
  · obtain ⟨answers, entries, hlist, hasked, hkept⟩ := listPlaceholders_lists o ⟨dir, trivial⟩ hfs
      htimes (by omega) hfuel fun event hmem e hfail => hfails ⟨event, hmem, e, hfail⟩
    obtain ⟨infos, htransfer, hdescribed⟩ := transferListing_ok o hkept
    obtain ⟨hrun, accepted, hevents⟩ := callback_of_listing o execute t hdir hlist htransfer
    obtain ⟨hone, hattrs, hpages⟩ := filterMap_callback ((listPlaceholders o fuel dir).events fs s)
      (operation infos .success) accepted
    rw [hevents]
    refine ⟨hrun, _, hone, fun _ _ => complete_operation hL (hattrs.trans hasked) hdescribed, ?_⟩
    rintro (hunknown | hpage)
    · exact (hknown hunknown).elim
    · exact (hfails (hpages.mp hpage)).elim

/-- The example's files and directories all carry the Unix epoch. -/
theorem onWindows_memFs (m : MemFs) : m.handler.Meets OnWindows := by
  intro c s
  cases c with
  | getattr ino =>
    intro attr hattr
    have hepoch : Holdable .unixEpoch := by decide
    change m.attr ino = .ok attr at hattr
    rcases hnode : m.node ino with e | ⟨children | data⟩
    · rw [MemFs.attr, hnode] at hattr
      cases hattr
    · rw [MemFs.attr, hnode] at hattr
      cases hattr
      exact ⟨hepoch, hepoch, hepoch⟩
    · rw [MemFs.attr, hnode] at hattr
      cases hattr
      exact ⟨hepoch, hepoch, hepoch⟩
  | _ => trivial

/-- The example's root, asked for without an identity. -/
theorem fetchPlaceholders_answers_once_root :
    ∃ x, (callbackEvents .wraps 4 (MemFs.new 0 0).handler (fun _ u => (true, u))
        ⟨none, 0, nofun⟩ .new ()).filterMap asTransferPlaceholders = [x] ∧
      Complete MemFs.rootEntries ((callbackEvents .wraps 4 (MemFs.new 0 0).handler
        (fun _ u => (true, u)) ⟨none, 0, nofun⟩ .new ()).filterMap asAttr) x := by
  have hfs : (MemFs.new 0 0).handler.Meets
      (Readdir.Lists ⟨1⟩ (fun _ => True) MemFs.rootEntries fun _ => True) := by
    intro c s
    have h : Readdir.Lists ⟨1⟩ (· = ⟨1⟩) MemFs.rootEntries (fun _ => True) c _ :=
      (MemFs.meets_lists_root 0 0 c s).mono fun _ _ => trivial
    cases c with
    | lookup d name => exact fun _ _ => trivial
    | _ => exact h
  obtain ⟨-, x, hone, hcomplete, -⟩ := fetchPlaceholders_answers_once .wraps
    (MemFs.new 0 0).handler (fun _ u => (true, u)) ⟨1⟩ MemFs.rootEntries hfs (onWindows_memFs _)
    (by decide) ⟨none, 0, nofun⟩ (.inl (.inl ⟨rfl, rfl⟩)) (show _ < 4 by decide) .new ()
  exact ⟨x, hone, hcomplete (.inl ⟨rfl, rfl⟩) (by decide)⟩

end Anymount.Cfapi
