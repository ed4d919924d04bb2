import Mathlib

/-!
# The volume label

`volume_label` reduces the name of a filesystem, which is arbitrary caller input, to something
usable as the last segment of an export path. The label authorizes nothing; what matters is
that it stays one segment, printable and short.
-/
namespace Anymount.Nfs

/-- Longest volume label appended to an export path, in characters. -/
def maxLabelLen : Nat := 64

/-- Fallback for a name without a character that a label can use. -/
def defaultLabel : String := "anymount"

/-- `char::is_control`: the general category `Cc`. -/
def isControl (c : Char) : Bool := c.val ≤ 0x1F || (0x7F ≤ c.val && c.val ≤ 0x9F)

/-- `char::is_whitespace`: the property `White_Space`. -/
def isWhitespace (c : Char) : Bool :=
  (0x09 ≤ c.val && c.val ≤ 0x0D) || c.val == 0x20 || c.val == 0x85 || c.val == 0xA0 ||
    c.val == 0x1680 || (0x2000 ≤ c.val && c.val ≤ 0x200A) || c.val == 0x2028 ||
    c.val == 0x2029 || c.val == 0x202F || c.val == 0x205F || c.val == 0x3000

/-- `str::trim_matches`, on the characters. -/
def trimMatches (p : Char → Bool) (cs : List Char) : List Char := (cs.dropWhile p).rdropWhile p

namespace VolumeLabel

def rejected (c : Char) : Bool := c == '/' || isControl c

/-- One pass of the loop. A run of rejected characters collapses into one separator; whether
the last character is one is seen from what has been written, so a `-` of the name itself
counts too. -/
def push (out : List Char) (ch : Char) : List Char :=
  match rejected ch, out.getLast? == some '-' with
  | false, _ => out ++ [ch]
  | true, false => out ++ ['-']
  | true, true => out

/-- What is trimmed off both ends. -/
def separator (c : Char) : Bool := c == '-' || c == '.' || isWhitespace c

end VolumeLabel

open VolumeLabel

def volumeLabel (fsName : String) : String :=
  let out := (fsName.toList.take maxLabelLen).foldl push []
  let trimmed := trimMatches separator out
  if trimmed.isEmpty then defaultLabel else .ofList trimmed

/-- A usable label. -/
structure IsLabel (s : String) : Prop where
  nonempty : s.toList ≠ []
  short : s.toList.length ≤ maxLabelLen
  segment : ∀ c ∈ s.toList, c ≠ '/' ∧ isControl c = false
  start : ∀ h : s.toList ≠ [], separator (s.toList.head h) = false
  stop : ∀ h : s.toList ≠ [], separator (s.toList.getLast h) = false

/-! ## Trimming -/

section Trim

variable {p : Char → Bool} {cs : List Char}

theorem trimMatches_front : trimMatches p cs <+: cs.dropWhile p := List.rdropWhile_prefix p _

theorem trimMatches_sublist : (trimMatches p cs).Sublist cs :=
  trimMatches_front.sublist.trans (List.dropWhile_sublist p)

theorem head_trimMatches (h : trimMatches p cs ≠ []) :
    p ((trimMatches p cs).head h) = false := by
  have hdrop : cs.dropWhile p ≠ [] := trimMatches_front.ne_nil h
  have hhead : (trimMatches p cs).head h = (cs.dropWhile p).head hdrop := trimMatches_front.head h
  rw [hhead]
  exact List.head_dropWhile_not p hdrop

theorem getLast_trimMatches (h : trimMatches p cs ≠ []) :
    p ((trimMatches p cs).getLast h) = false :=
  Bool.eq_false_iff.mpr (List.rdropWhile_last_not p (cs.dropWhile p) h)

/-- Nothing is trimmed off a text with other characters at both ends. -/
theorem trimMatches_eq_self (hne : cs ≠ []) (hhead : p (cs.head hne) = false)
    (hlast : p (cs.getLast hne) = false) : trimMatches p cs = cs := by
  have hdrop : cs.dropWhile p = cs := by
    cases cs with
    | nil => exact absurd rfl hne
    | cons c cs => exact List.dropWhile_cons_of_neg (Bool.eq_false_iff.mp hhead)
  rw [trimMatches, hdrop, List.rdropWhile_eq_self_iff]
  exact fun _ => Bool.eq_false_iff.mp hlast

end Trim

/-! ## The loop -/

namespace VolumeLabel

theorem rejected_eq_false {c : Char} : rejected c = false ↔ c ≠ '/' ∧ isControl c = false := by
  simp [rejected]

theorem mem_push {out : List Char} {ch c : Char} (h : c ∈ push out ch) :
    c ∈ out ∨ rejected c = false := by
  unfold push at h
  split at h
  · next hkept =>
    rcases List.mem_append.mp h with h | h
    · exact .inl h
    · rw [List.mem_singleton.mp h]
      exact .inr hkept
  · rcases List.mem_append.mp h with h | h
    · exact .inl h
    · rw [List.mem_singleton.mp h]
      exact .inr (by decide)
  · exact .inl h

theorem length_push_le (out : List Char) (ch : Char) : (push out ch).length ≤ out.length + 1 := by
  unfold push
  split <;> simp

/-- What the loop writes is never rejected, and no longer than what it reads. -/
theorem foldl_push (name out : List Char) (hout : ∀ c ∈ out, rejected c = false) :
    (∀ c ∈ name.foldl push out, rejected c = false) ∧
      (name.foldl push out).length ≤ out.length + name.length := by
  induction name generalizing out with
  | nil => exact ⟨hout, le_refl _⟩
  | cons ch name ih =>
    obtain ⟨hmem, hlen⟩ := ih (push out ch) fun c hc => (mem_push hc).elim (hout c) id
    have := length_push_le out ch
    refine ⟨hmem, ?_⟩
    rw [List.foldl_cons, List.length_cons]
    omega

/-- A name without a rejected character goes through unchanged. -/
theorem foldl_push_of_kept (name out : List Char) (h : ∀ c ∈ name, rejected c = false) :
    name.foldl push out = out ++ name := by
  induction name generalizing out with
  | nil => exact (List.append_nil out).symm
  | cons ch name ih =>
    have hpush : push out ch = out ++ [ch] := by
      rw [push, h ch List.mem_cons_self]
    rw [List.foldl_cons, hpush, ih _ fun c hc => h c (List.mem_cons_of_mem _ hc),
      List.append_assoc, List.singleton_append]

end VolumeLabel

theorem isLabel_default : IsLabel defaultLabel where
  nonempty := by decide
  short := by decide
  segment := by
    intro c hc
    have hall : defaultLabel.toList.all fun c => c ≠ '/' && !isControl c := by decide
    simpa using List.all_eq_true.mp hall c hc
  start := by decide
  stop := by decide

theorem isLabel_volumeLabel (fsName : String) : IsLabel (volumeLabel fsName) := by
  have hloop := foldl_push (fsName.toList.take maxLabelLen) [] nofun
  unfold volumeLabel
  generalize (fsName.toList.take maxLabelLen).foldl push [] = out at hloop
  obtain ⟨hkept, hlen⟩ := hloop
  dsimp only
  split
  · exact isLabel_default
  · next hne =>
    rw [List.isEmpty_iff] at hne
    have hsub : (trimMatches separator out).Sublist out := trimMatches_sublist
    rw [List.length_nil, Nat.zero_add, List.length_take] at hlen
    constructor
    · rwa [String.toList_ofList]
    · rw [String.toList_ofList]
      exact (hsub.length_le.trans hlen).trans (min_le_left _ _)
    · intro c hc
      rw [String.toList_ofList] at hc
      exact rejected_eq_false.mp (hkept c (hsub.subset hc))
    · intro h
      simp only [String.toList_ofList] at h ⊢
      exact head_trimMatches h
    · intro h
      simp only [String.toList_ofList] at h ⊢
      exact getLast_trimMatches h

theorem volumeLabel_of_isLabel {s : String} (h : IsLabel s) : volumeLabel s = s := by
  have hkept : ∀ c ∈ s.toList, rejected c = false := fun c hc =>
    rejected_eq_false.mpr (h.segment c hc)
  have hout : (s.toList.take maxLabelLen).foldl push [] = s.toList := by
    rw [List.take_of_length_le h.short, foldl_push_of_kept _ _ hkept, List.nil_append]
  have htrim : trimMatches separator s.toList = s.toList :=
    trimMatches_eq_self h.nonempty (h.start h.nonempty) (h.stop h.nonempty)
  rw [volumeLabel, hout, htrim, if_neg (by simpa using h.nonempty), String.ofList_toList]

/-- Every name becomes a label, and the labels are exactly the names that stay as they are. -/
theorem volumeLabel_sanitises (s : String) :
    IsLabel (volumeLabel s) ∧ volumeLabel (volumeLabel s) = volumeLabel s ∧
      (IsLabel s ↔ volumeLabel s = s) :=
  ⟨isLabel_volumeLabel s, volumeLabel_of_isLabel (isLabel_volumeLabel s),
    volumeLabel_of_isLabel, fun h => h ▸ isLabel_volumeLabel s⟩

example : volumeLabel "../..//a\x00/b-/c " = "a-b-c" := by decide

end Anymount.Nfs
