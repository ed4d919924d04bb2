import Anymount.Library.Utf8
import Anymount.Nfs.Label
import Anymount.Nfs.MountProto

/-!
# The grammar of export paths

Which `dirpath` a `MNT` call is answered with which status, and that the path the TCP
transport mounts is one of the accepted ones, whatever the filesystem is called.
-/
namespace Anymount.Nfs

open Library

namespace MountProto

/-! ## Text -/

/-- The bytes are the encoding of a text. -/
def IsText (bytes : Bytes) : Prop := ∃ s : String, bytes = Utf8.encode s

theorem isContinuation_iff {b : UInt8} :
    isContinuation b = true ↔ 128 ≤ b.toNat ∧ b.toNat ≤ 191 := by
  simp [isContinuation, UInt8.le_iff_toNat_le]

theorem validSecondOfThree_iff {b0 b1 : UInt8} :
    validSecondOfThree b0 b1 = true ↔
      (128 ≤ b1.toNat ∧ b1.toNat ≤ 191) ∧ (b0.toNat = 224 → 160 ≤ b1.toNat) ∧
        (b0.toNat = 237 → b1.toNat < 160) := by
  simp [validSecondOfThree, isContinuation_iff, UInt8.le_iff_toNat_le, UInt8.lt_iff_toNat_lt,
    ← UInt8.toNat_inj]
  omega

theorem validSecondOfFour_iff {b0 b1 : UInt8} :
    validSecondOfFour b0 b1 = true ↔
      (128 ≤ b1.toNat ∧ b1.toNat ≤ 191) ∧ (b0.toNat = 240 → 144 ≤ b1.toNat) ∧
        (b0.toNat = 244 → b1.toNat < 144) := by
  simp [validSecondOfFour, isContinuation_iff, UInt8.le_iff_toNat_le, UInt8.lt_iff_toNat_lt,
    ← UInt8.toNat_inj]
  omega

theorem isContinuation_low (v : Nat) : isContinuation (.ofNat (v % 64 + 128)) = true := by
  rw [isContinuation_iff, Utf8.toNat_ofNat_u8 (by omega)]
  omega

theorem validUtf8_encodePoint {v : Nat} (h : v.isValidChar) (rest : Bytes) :
    validUtf8 (Utf8.encodePoint v ++ rest) = validUtf8 rest := by
  unfold Utf8.encodePoint
  unfold Nat.isValidChar at h
  rw [validUtf8.eq_def]
  -- One case per width; in each the tests on the lead byte are decided.
  split_ifs with h1 h2 h3 <;> dsimp only [List.cons_append, List.nil_append] <;>
    simp only [UInt8.lt_iff_toNat_lt, UInt8.le_iff_toNat_le, Bool.and_eq_true, decide_eq_true_eq,
      UInt8.reduceToNat]
  · rw [Utf8.toNat_ofNat_u8 (by omega), if_pos (by omega)]
  · rw [Utf8.toNat_ofNat_u8 (by omega), if_neg (by omega), if_pos (by omega), isContinuation_low,
      Bool.true_and]
  · have hy : validSecondOfThree (.ofNat (v / 4096 % 16 + 224)) (.ofNat (v / 64 % 64 + 128)) := by
      rw [validSecondOfThree_iff, Utf8.toNat_ofNat_u8 (by omega), Utf8.toNat_ofNat_u8 (by omega)]
      omega
    rw [Utf8.toNat_ofNat_u8 (by omega), if_neg (by omega), if_neg (by omega), if_pos (by omega),
      hy, isContinuation_low, Bool.true_and, Bool.true_and]
  · have hy : validSecondOfFour (.ofNat (v / 262144 % 8 + 240)) (.ofNat (v / 4096 % 64 + 128)) := by
      rw [validSecondOfFour_iff, Utf8.toNat_ofNat_u8 (by omega), Utf8.toNat_ofNat_u8 (by omega)]
      omega
    rw [Utf8.toNat_ofNat_u8 (by omega), if_neg (by omega), if_neg (by omega), if_neg (by omega),
      hy, isContinuation_low, isContinuation_low, decide_eq_true (by omega),
      decide_eq_true (by omega)]
    simp only [Bool.true_and]

/-- Valid bytes begin with the encoding of a scalar value. -/
theorem validUtf8_cases {bytes : Bytes} (h : validUtf8 bytes = true) :
    bytes = [] ∨ ∃ v rest, v.isValidChar ∧ bytes = Utf8.encodePoint v ++ rest ∧
      validUtf8 rest = true := by
  rw [validUtf8.eq_def] at h
  unfold Nat.isValidChar Utf8.encodePoint
  split at h
  · exact .inl rfl
  next x rest =>
  simp only [UInt8.lt_iff_toNat_lt, UInt8.le_iff_toNat_le, Bool.and_eq_true, decide_eq_true_eq,
      UInt8.reduceToNat] at h
  right
  split_ifs at h with hx hx2 hx3
  · refine ⟨x.toNat, rest, by omega, ?_, h⟩
    rw [if_pos (by omega), Utf8.ofNat_eq rfl, List.singleton_append]
  · rcases rest with - | ⟨y, rest⟩
    · cases h
    obtain ⟨hy, hrest⟩ := Bool.and_eq_true_iff.mp h
    rw [isContinuation_iff] at hy
    refine ⟨x.toNat % 32 * 64 + y.toNat % 64, rest, by omega, ?_, hrest⟩
    rw [if_neg (by omega), if_pos (by omega), Utf8.ofNat_eq (b := x) (by omega),
      Utf8.ofNat_eq (b := y) (by omega)]
    rfl
  · rcases rest with - | ⟨y, - | ⟨z, rest⟩⟩
    · cases h
    · cases h
    simp only [Bool.and_eq_true, validSecondOfThree_iff, isContinuation_iff] at h
    obtain ⟨⟨hy, hz⟩, hrest⟩ := h
    refine ⟨x.toNat % 16 * 4096 + y.toNat % 64 * 64 + z.toNat % 64, rest, by omega, ?_, hrest⟩
    rw [if_neg (by omega), if_neg (by omega), if_pos (by omega), Utf8.ofNat_eq (b := x) (by omega),
      Utf8.ofNat_eq (b := y) (by omega), Utf8.ofNat_eq (b := z) (by omega)]
    rfl
  · rcases rest with - | ⟨y, - | ⟨z, - | ⟨w, rest⟩⟩⟩
    · cases h
    · cases h
    · cases h
    simp only [Bool.and_eq_true, decide_eq_true_eq, validSecondOfFour_iff,
      isContinuation_iff] at h
    obtain ⟨⟨⟨⟨hx4, hy⟩, hz⟩, hw⟩, hrest⟩ := h
    refine ⟨x.toNat % 8 * 262144 + y.toNat % 64 * 4096 + z.toNat % 64 * 64 + w.toNat % 64, rest,
      by omega, ?_, hrest⟩
    rw [if_neg (by omega), if_neg (by omega), if_neg (by omega), Utf8.ofNat_eq (b := x) (by omega),
      Utf8.ofNat_eq (b := y) (by omega), Utf8.ofNat_eq (b := z) (by omega),
      Utf8.ofNat_eq (b := w) (by omega)]
    rfl

theorem validUtf8_encode (s : String) : validUtf8 (Utf8.encode s) = true := by
  unfold Utf8.encode
  induction s.toList with
  | nil => rfl
  | cons c cs ih =>
    rw [List.flatMap_cons, Utf8.utf8EncodeChar_eq, validUtf8_encodePoint c.valid, ih]

/-- `to_str` succeeds on text and nothing else. -/
theorem validUtf8_iff_isText {bytes : Bytes} : validUtf8 bytes = true ↔ IsText bytes := by
  constructor
  · intro h
    -- Induction on the length: each step takes one character off the front.
    induction hn : bytes.length using Nat.strong_induction_on generalizing bytes with
    | _ n ih =>
    rcases validUtf8_cases h with rfl | ⟨v, rest, hv, rfl, hrest⟩
    · exact ⟨"", rfl⟩
    · have hpos : 0 < (Utf8.encodePoint v).length := by
        unfold Utf8.encodePoint
        split_ifs <;> simp
      obtain ⟨s, rfl⟩ := ih rest.length (by rw [List.length_append] at hn; omega) hrest rfl
      refine ⟨.ofList (.ofNatAux v hv :: s.toList), ?_⟩
      have hval : (Char.ofNatAux v hv).val.toNat = v := rfl
      simp only [Utf8.encode, String.toList_ofList, List.flatMap_cons, Utf8.utf8EncodeChar_eq, hval]
  · rintro ⟨s, rfl⟩
    exact validUtf8_encode s

/-! ## Hexadecimal digits -/

theorem isAsciiHexdigit_hexDigit {n : Nat} (h : n < 16) : isAsciiHexdigit (hexDigit n) = true := by
  interval_cases n <;> decide

theorem hexDigit_inj {m n : Nat} (hm : m < 16) (hn : n < 16) (h : hexDigit m = hexDigit n) :
    m = n := by
  have hnat := congrArg UInt8.toNat h
  unfold hexDigit at hnat
  split_ifs at hnat <;>
    rw [Utf8.toNat_ofNat_u8 (by omega), Utf8.toNat_ofNat_u8 (by omega)] at hnat <;> omega

theorem length_hexString (secret : Bytes) : (hexString secret).length = 2 * secret.length := by
  simp [hexString, List.length_flatMap, Nat.mul_comm]

theorem isAsciiHexdigit_of_mem {secret : Bytes} {b : UInt8} (h : b ∈ hexString secret) :
    isAsciiHexdigit b = true := by
  obtain ⟨c, -, hb⟩ := List.mem_flatMap.mp h
  have hc : c.toNat < 256 := c.toNat_lt
  rcases List.mem_cons.mp hb with rfl | hb
  · exact isAsciiHexdigit_hexDigit (by omega)
  · rw [List.mem_singleton.mp hb]
    exact isAsciiHexdigit_hexDigit (by omega)

theorem hexString_inj {a b : Bytes} (h : hexString a = hexString b) : a = b := by
  induction a generalizing b with
  | nil =>
    cases b with
    | nil => rfl
    | cons y b => cases h
  | cons x a ih =>
    cases b with
    | nil => cases h
    | cons y b =>
      simp only [hexString, List.flatMap_cons, List.cons_append, List.nil_append,
        List.cons.injEq] at h
      obtain ⟨hhigh, hlow, hrest⟩ := h
      have hx := x.toNat_lt
      have hy := y.toNat_lt
      have hhigh := hexDigit_inj (by omega) (by omega) hhigh
      have hlow := hexDigit_inj (by omega) (by omega) hlow
      rw [ih hrest, UInt8.toNat_inj.mp (by omega : x.toNat = y.toNat)]

/-! ## Segments -/

/-- `/export/<segment>`, optionally followed by `/` and anything. -/
def HasSegment (dirpath segment : Bytes) : Prop :=
  ∃ tail, dirpath = exportPrefix ++ (segment ++ tail) ∧
    (tail = [] ∨ ∃ label, tail = slash :: label)

/-- 32 hexadecimal digits, in either case. -/
def IsHexSegment (segment : Bytes) : Prop :=
  segment.length = 32 ∧ ∀ b ∈ segment, isAsciiHexdigit b = true

theorem ne_slash_of_isAsciiHexdigit {b : UInt8} (h : isAsciiHexdigit b = true) : b ≠ slash := by
  rintro rfl
  exact absurd h (by decide)

theorem IsHexSegment.ne_slash {segment : Bytes} (h : IsHexSegment segment) :
    ∀ b ∈ segment, b ≠ slash :=
  fun b hb => ne_slash_of_isAsciiHexdigit (h.2 b hb)

theorem firstSegment_append {segment tail : Bytes} (h : ∀ b ∈ segment, b ≠ slash)
    (htail : tail = [] ∨ ∃ label, tail = slash :: label) :
    firstSegment (segment ++ tail) = segment := by
  have hall : ∀ b ∈ segment, decide (b ≠ slash) = true := by simpa using h
  rw [firstSegment, List.takeWhile_append_of_pos hall]
  rcases htail with rfl | ⟨label, rfl⟩ <;> simp

/-- What `split_once` cuts off begins with the separator. -/
theorem firstSegment_spec (s : Bytes) :
    ∃ tail, s = firstSegment s ++ tail ∧ (tail = [] ∨ ∃ label, tail = slash :: label) := by
  refine ⟨s.dropWhile (· ≠ slash), List.takeWhile_append_dropWhile.symm, ?_⟩
  rcases hdrop : s.dropWhile (· ≠ slash) with _ | ⟨b, label⟩
  · exact .inl rfl
  · have hb := List.head_dropWhile_not (· ≠ slash) (l := s) (by rw [hdrop]; simp)
    simp only [hdrop, List.head_cons, decide_eq_false_iff_not, not_not] at hb
    exact .inr ⟨label, by rw [hb]⟩

theorem stripPrefix_eq_some_iff {pre s rest : Bytes} :
    stripPrefix pre s = some rest ↔ s = pre ++ rest := by
  unfold stripPrefix
  constructor
  · intro h
    split_ifs at h with hpre
    obtain ⟨t, rfl⟩ := List.isPrefixOf_iff_prefix.mp hpre
    cases h
    rw [List.drop_left]
  · rintro rfl
    rw [if_pos (List.isPrefixOf_iff_prefix.mpr (List.prefix_append _ _)), List.drop_left]

theorem hasSegment_iff {dirpath segment : Bytes} (h : ∀ b ∈ segment, b ≠ slash) :
    HasSegment dirpath segment ↔
      ∃ rest, stripPrefix exportPrefix dirpath = some rest ∧ firstSegment rest = segment := by
  constructor
  · rintro ⟨tail, rfl, htail⟩
    exact ⟨segment ++ tail, stripPrefix_eq_some_iff.mpr rfl, firstSegment_append h htail⟩
  · rintro ⟨rest, hstrip, rfl⟩
    obtain ⟨tail, hrest, htail⟩ := firstSegment_spec rest
    exact ⟨tail, by rw [stripPrefix_eq_some_iff.mp hstrip, ← hrest], htail⟩

/-! ## The answers to `MNT` -/

/-- Valid text of at most `MNTPATHLEN` bytes with this first segment. -/
def Offers (dirpath segment : Bytes) : Prop :=
  dirpath.length ≤ mntPathLen.toNat ∧ IsText dirpath ∧ HasSegment dirpath segment

/-- The same shape with the digits of another value. -/
def OffersOther (e : ExportSecret) (dirpath : Bytes) : Prop :=
  ∃ segment, IsHexSegment segment ∧ segment ≠ e.hex ∧ Offers dirpath segment

theorem isHexSegment_hex (e : ExportSecret) : IsHexSegment e.hex := by
  obtain ⟨secret, hlen, hhex⟩ := e.rendered
  rw [hhex]
  exact ⟨by rw [length_hexString, hlen], fun b hb => isAsciiHexdigit_of_mem hb⟩

section Answers

variable {r : Reader} {e : ExportSecret} {handle : FileHandle3} {dirpath suffix : Bytes}

theorem mnt_of_offers (h : r.rest = Xdr.encodeOpaque dirpath ++ suffix) {segment : Bytes}
    (hsegment : IsHexSegment segment) (hoffers : Offers dirpath segment) :
    mnt r e handle =
      if segment = e.hex then .success (mntOk handle) else status mnt3errAcces := by
  obtain ⟨hlen, htext, hhas⟩ := hoffers
  obtain ⟨r', hread, -⟩ := Reader.readOpaqueVar_of_rest hlen h
  obtain ⟨rest, hstrip, rfl⟩ := (hasSegment_iff hsegment.ne_slash).mp hhas
  have hhex : ((firstSegment rest).length ≠ 32 || !(firstSegment rest).all isAsciiHexdigit)
      = false := by
    simp [hsegment.1, List.all_eq_true.mpr hsegment.2]
  have hmatch : e.matchesValue (firstSegment rest) = true ↔ firstSegment rest = e.hex :=
    ctEq_iff _ _
  unfold mnt
  simp only [Reader.readString, hread, validUtf8_iff_isText.mpr htext, hstrip, hhex, hmatch,
    not_true_eq_false, if_false, Bool.false_eq_true, ite_not]

theorem mnt_of_long (h : r.rest = Xdr.encodeOpaque dirpath ++ suffix)
    (hlong : mntPathLen.toNat < dirpath.length) (hlen : dirpath.length < 2 ^ 32) :
    mnt r e handle = .garbageArgs := by
  simp only [mnt, Reader.readString, Reader.readOpaqueVar_of_long hlong hlen h]

theorem mnt_of_not_offers (h : r.rest = Xdr.encodeOpaque dirpath ++ suffix)
    (hlen : dirpath.length ≤ mntPathLen.toNat)
    (hother : ∀ segment, IsHexSegment segment → ¬ Offers dirpath segment) :
    mnt r e handle = status mnt3errNoent := by
  obtain ⟨r', hread, -⟩ := Reader.readOpaqueVar_of_rest hlen h
  simp only [mnt, Reader.readString, hread]
  split_ifs with htext
  swap
  · rfl
  rw [validUtf8_iff_isText] at htext
  rcases hstrip : stripPrefix exportPrefix dirpath with _ | rest
  · rfl
  dsimp only
  rw [if_pos]
  -- A first segment of 32 digits would be one that the path offers.
  by_contra hhex
  simp only [ne_eq, Bool.or_eq_true, decide_eq_true_eq, Bool.not_eq_true', not_or, not_not,
    Bool.not_eq_false, List.all_eq_true] at hhex
  have hsegment : IsHexSegment (firstSegment rest) := hhex
  exact hother _ hsegment ⟨hlen, htext, (hasSegment_iff hsegment.ne_slash).mpr ⟨rest, hstrip, rfl⟩⟩

theorem mnt_of_truncated (h : r.rest <+: Xdr.encodeOpaque dirpath)
    (hne : r.rest ≠ Xdr.encodeOpaque dirpath) (hlen : dirpath.length < 2 ^ 32) :
    mnt r e handle = .garbageArgs := by
  have hread : r.readOpaqueVar mntPathLen = none := by
    by_cases hlong : mntPathLen.toNat < dirpath.length
    · obtain ⟨x, hx⟩ := h
      have hrefused : (Reader.new (Xdr.encodeOpaque dirpath)).readOpaqueVar mntPathLen = none :=
        Reader.readOpaqueVar_of_long hlong hlen (by rw [Reader.rest_new, List.append_nil])
      exact (Reader.local_readOpaqueVar mntPathLen).none_of_extend
        ((Reader.rest_new _).trans hx.symm) hrefused
    · refine (Reader.local_readOpaqueVar mntPathLen).none_of_truncated (v := dirpath) ?_ h hne
      intro r hr
      exact Reader.readOpaqueVar_of_rest (by omega) (by rw [hr, List.append_nil])
  simp only [mnt, Reader.readString, hread]

end Answers

/-- What each kind of `dirpath` is answered. -/
structure Answers (e : ExportSecret) (handle : FileHandle3) (dirpath : Bytes)
    (answer : ProcOutcome) : Prop where
  ok : answer = .success (mntOk handle) ↔ Offers dirpath e.hex
  acces : answer = status mnt3errAcces ↔ OffersOther e dirpath
  garbage : answer = .garbageArgs ↔ mntPathLen.toNat < dirpath.length
  noent : answer = status mnt3errNoent ↔
    dirpath.length ≤ mntPathLen.toNat ∧ ¬ Offers dirpath e.hex ∧ ¬ OffersOther e dirpath

theorem Offers.unique {dirpath a b : Bytes} (ha : IsHexSegment a) (hb : IsHexSegment b)
    (hoffera : Offers dirpath a) (hofferb : Offers dirpath b) : a = b := by
  obtain ⟨rest, hstrip, rfl⟩ := (hasSegment_iff ha.ne_slash).mp hoffera.2.2
  obtain ⟨rest', hstrip', rfl⟩ := (hasSegment_iff hb.ne_slash).mp hofferb.2.2
  rw [hstrip] at hstrip'
  cases hstrip'
  rfl

theorem status_ne_mntOk (s : UInt32) (handle : FileHandle3) :
    status s ≠ .success (mntOk handle) :=
  success_ne_mntOk (by simp) handle

theorem answers_mnt {r : Reader} (e : ExportSecret) (handle : FileHandle3) {dirpath suffix : Bytes}
    (hlen : dirpath.length < 2 ^ 32) (h : r.rest = Xdr.encodeOpaque dirpath ++ suffix) :
    Answers e handle dirpath (mnt r e handle) := by
  have hex := isHexSegment_hex e
  have hne : status mnt3errAcces ≠ status mnt3errNoent := by decide
  have hgarbage : ∀ s, status s ≠ .garbageArgs := fun _ => nofun
  by_cases hlong : mntPathLen.toNat < dirpath.length
  · have hnone : ∀ segment, ¬ Offers dirpath segment := fun _ hoffer => not_le.mpr hlong hoffer.1
    have hother : ¬ OffersOther e dirpath := fun ⟨segment, _, _, hoffer⟩ => hnone segment hoffer
    rw [mnt_of_long h hlong hlen]
    exact ⟨by simp [hnone], by simp [hother, (hgarbage _).symm], by simp [hlong],
      by simp [not_le.mpr hlong, (hgarbage _).symm]⟩
  by_cases hany : ∃ segment, IsHexSegment segment ∧ Offers dirpath segment
  · obtain ⟨segment, hsegment, hoffer⟩ := hany
    rw [mnt_of_offers h hsegment hoffer]
    split_ifs with heq
    · subst heq
      have hother : ¬ OffersOther e dirpath := fun ⟨_, hseg, hne, hoffer'⟩ =>
        hne (hoffer'.unique hseg hex hoffer)
      exact ⟨by simp [hoffer], by simp [hother, (status_ne_mntOk _ _).symm], by simp [hlong],
        by simp [hoffer, (status_ne_mntOk _ _).symm]⟩
    · have hown : ¬ Offers dirpath e.hex := fun hoffer' =>
        heq (hoffer.unique hsegment hex hoffer')
      have hother : OffersOther e dirpath := ⟨segment, hsegment, heq, hoffer⟩
      exact ⟨by simp [hown, status_ne_mntOk], by simp [hother], by simp [hlong, hgarbage],
        by simp [hother, hne]⟩
  · have hnone : ∀ segment, IsHexSegment segment → ¬ Offers dirpath segment :=
      fun segment hsegment hoffer => hany ⟨segment, hsegment, hoffer⟩
    have hother : ¬ OffersOther e dirpath := fun ⟨segment, hsegment, _, hoffer⟩ =>
      hnone segment hsegment hoffer
    rw [mnt_of_not_offers h (not_lt.mp hlong) hnone]
    exact ⟨by simp [hnone _ hex, status_ne_mntOk], by simp [hother, hne.symm],
      by simp [hlong, hgarbage], by simp [hnone _ hex, hother, not_lt.mp hlong]⟩

end MountProto

open MountProto

/-! ## The path that is mounted -/

/-- The export path of the TCP transport, `/export/<secret>/<label>`. -/
def Tcp.exportPath (e : ExportSecret) (fsName : String) : Bytes :=
  exportPrefix ++ (e.hex ++ (slash :: Utf8.encode (volumeLabel fsName)))

theorem validUtf8_append_ascii {a b : Bytes} (ha : ∀ x ∈ a, x < 0x80) :
    validUtf8 (a ++ b) = validUtf8 b := by
  induction a with
  | nil => rfl
  | cons x a ih =>
    rw [List.cons_append, validUtf8.eq_def]
    simp only [ha x List.mem_cons_self, if_true]
    exact ih fun y hy => ha y (List.mem_cons_of_mem _ hy)

theorem ascii_of_isAsciiHexdigit {b : UInt8} (h : isAsciiHexdigit b = true) : b < 0x80 := by
  simp only [isAsciiHexdigit, Bool.or_eq_true, Bool.and_eq_true, decide_eq_true_eq,
    UInt8.le_iff_toNat_le, UInt8.reduceToNat] at h
  rw [UInt8.lt_iff_toNat_lt]
  simp only [UInt8.reduceToNat]
  omega

theorem offers_exportPath (e : ExportSecret) (fsName : String) :
    Offers (Tcp.exportPath e fsName) e.hex := by
  have hhex := isHexSegment_hex e
  refine ⟨?_, validUtf8_iff_isText.mp ?_, _, rfl, .inr ⟨_, rfl⟩⟩
  · have hlabel := Utf8.length_encode_le (volumeLabel fsName)
    have hshort := (isLabel_volumeLabel fsName).short
    simp only [Tcp.exportPath, List.length_append, List.length_cons, hhex.1]
    simp only [maxLabelLen] at hshort
    have hprefix : exportPrefix.length = 8 := rfl
    have hmax : mntPathLen.toNat = 1024 := rfl
    omega
  · have hprefix : ∀ x ∈ exportPrefix, x < 0x80 := by simp [exportPrefix]
    have hslash : ∀ x ∈ [slash], x < 0x80 := by simp [slash]
    rw [Tcp.exportPath, validUtf8_append_ascii hprefix,
      validUtf8_append_ascii fun x hx => ascii_of_isAsciiHexdigit (hhex.2 x hx),
      ← List.singleton_append, validUtf8_append_ascii hslash, validUtf8_encode]

/-- The 16 bytes an export value is rendered from. -/
abbrev ExportValue := { bytes : Bytes // bytes.length = 16 }

def ExportValue.secret (value : ExportValue) : ExportSecret := .fromSecret value.val value.property

/-- `MNT` accepts exactly its grammar. A path longer than the limit, or cut short anywhere, is
refused as malformed. The path that is mounted is accepted for every name, and no path that one
export value accepts is accepted by another. -/
theorem mnt_accepts_exactly (value : ExportValue) (handle : FileHandle3) :
    (∀ (r : Reader) (dirpath suffix : Bytes), dirpath.length < 2 ^ 32 →
      r.rest = Xdr.encodeOpaque dirpath ++ suffix →
        Answers value.secret handle dirpath (mnt r value.secret handle)) ∧
    (∀ (r : Reader) (dirpath : Bytes), dirpath.length < 2 ^ 32 →
      r.rest <+: Xdr.encodeOpaque dirpath → r.rest ≠ Xdr.encodeOpaque dirpath →
        mnt r value.secret handle = .garbageArgs) ∧
    (∀ (fsName : String) (r : Reader) (suffix : Bytes),
      r.rest = Xdr.encodeOpaque (Tcp.exportPath value.secret fsName) ++ suffix →
        mnt r value.secret handle = .success (mntOk handle)) ∧
    ∀ (other : ExportValue) (handle' : FileHandle3) (r : Reader) (dirpath suffix : Bytes),
      other ≠ value → dirpath.length < 2 ^ 32 → r.rest = Xdr.encodeOpaque dirpath ++ suffix →
        mnt r value.secret handle = .success (mntOk handle) →
          mnt r other.secret handle' = status mnt3errAcces := by
  have hex := isHexSegment_hex value.secret
  refine ⟨fun r dirpath suffix hlen h => answers_mnt _ _ hlen h,
    fun r dirpath hlen h hne => mnt_of_truncated h hne hlen, fun fsName r suffix h => ?_,
    fun other handle' r dirpath suffix hne hlen h hok => ?_⟩
  · rw [mnt_of_offers h hex (offers_exportPath _ _), if_pos rfl]
  · have hhex : value.secret.hex ≠ other.secret.hex := fun heq =>
      hne (Subtype.ext (hexString_inj heq.symm))
    have hoffer := (answers_mnt _ _ hlen h).ok.mp hok
    rw [mnt_of_offers h hex hoffer, if_neg hhex]

end Anymount.Nfs
