import Anymount.Library.Bytes
import Anymount.Library.Xdr
import Anymount.Types

/-!
# Bounds-checked XDR primitives

`Reader` is a cursor over a byte slice; every read fails rather than leave the slice.
`Writer` accumulates big-endian values, padding opaque data to whole words. The lemmas
describe a reader by the bytes it has not consumed yet (`rest`) and a writer by the bytes
each write appends, which is all that later modules use.
-/
namespace Anymount.Nfs

open Library

/-! ## Reader -/

/-- Cursor over a byte slice. The cursor never passes the end. -/
structure Reader where
  buf : Bytes
  pos : Nat
  pos_le : pos ≤ buf.length

namespace Reader

def new (buf : Bytes) : Reader := ⟨buf, 0, Nat.zero_le _⟩

/-- What has not been consumed. -/
def rest (r : Reader) : Bytes := r.buf.drop r.pos

/-- The next `n` bytes. The source's `checked_add` guards a sum that cannot overflow for
a cursor inside a slice; here it is a sum of natural numbers. -/
def take (r : Reader) (n : Nat) : Option (Bytes × Reader) :=
  if h : r.pos + n ≤ r.buf.length then
    some ((r.buf.drop r.pos).take n, ⟨r.buf, r.pos + n, h⟩)
  else none

def readU32 (r : Reader) : Option (UInt32 × Reader) := do
  let (b, r) ← r.take 4
  pure (UInt32.ofNat (beNat b), r)

def readU64 (r : Reader) : Option (UInt64 × Reader) := do
  let (b, r) ← r.take 8
  pure (UInt64.ofNat (beNat b), r)

def readBool (r : Reader) : Option (Bool × Reader) := do
  let (v, r) ← r.readU32
  pure (v ≠ 0, r)

def readOpaqueFixed (r : Reader) (n : Nat) : Option (Bytes × Reader) := r.take n

def padLen (len : UInt32) : Nat := ((4 - len % 4) % 4).toNat

def readOpaqueVar (r : Reader) (max : UInt32) : Option (Bytes × Reader) := do
  let (len, r) ← r.readU32
  if len > max then none
  else
    let (data, r) ← r.take len.toNat
    let (_, r) ← r.take (padLen len)
    pure (data, r)

def readString (r : Reader) (max : UInt32) : Option (OsString × Reader) := r.readOpaqueVar max

def skip (r : Reader) (n : Nat) : Option Reader := (r.take n).map Prod.snd

/-- Skip an `opaque_auth`: a flavor, then an opaque body of at most 400 bytes. Neither is
inspected. -/
def skipOpaqueAuth (r : Reader) : Option Reader := do
  let (_, r) ← r.readU32
  let (len, r) ← r.readU32
  if len > 400 then none
  else
    let r ← r.skip len.toNat
    r.skip (padLen len)

@[simp] theorem rest_new (buf : Bytes) : (new buf).rest = buf := rfl

/-- Reading depends only on the bytes ahead of the cursor. -/
theorem take_eq (r : Reader) (n : Nat) :
    (n ≤ r.rest.length ∧ ∃ r', r.take n = some (r.rest.take n, r') ∧ r'.rest = r.rest.drop n) ∨
      (r.rest.length < n ∧ r.take n = none) := by
  have hrest : r.rest.length = r.buf.length - r.pos := List.length_drop
  have hpos := r.pos_le
  by_cases h : r.pos + n ≤ r.buf.length
  · exact .inl ⟨by omega, ⟨r.buf, r.pos + n, h⟩, dif_pos h, by simp [rest]⟩
  · exact .inr ⟨by omega, dif_neg h⟩

/-! ### Reading what was written -/

theorem take_of_rest {r : Reader} {a b : Bytes} (h : r.rest = a ++ b) :
    ∃ r', r.take a.length = some (a, r') ∧ r'.rest = b := by
  rcases r.take_eq a.length with ⟨-, r', htake, hrest⟩ | ⟨hlt, -⟩
  · rw [h] at htake hrest
    exact ⟨r', by simpa using htake, by simpa using hrest⟩
  · rw [h, List.length_append] at hlt
    omega

theorem readU32_of_rest {r : Reader} {v : UInt32} {b : Bytes} (h : r.rest = beU32 v ++ b) :
    ∃ r', r.readU32 = some (v, r') ∧ r'.rest = b := by
  obtain ⟨r', htake, hrest⟩ := take_of_rest h
  rw [length_beU32] at htake
  exact ⟨r', by simp [readU32, htake], hrest⟩

theorem readU64_of_rest {r : Reader} {v : UInt64} {b : Bytes} (h : r.rest = beU64 v ++ b) :
    ∃ r', r.readU64 = some (v, r') ∧ r'.rest = b := by
  obtain ⟨r', htake, hrest⟩ := take_of_rest h
  rw [length_beU64] at htake
  exact ⟨r', by simp [readU64, htake], hrest⟩

theorem toNat_padLen (len : UInt32) : padLen len = (4 - len.toNat % 4) % 4 := by
  have hmod : (len % 4).toNat = len.toNat % 4 := by simp
  have hle : len % 4 ≤ 4 := by
    rw [UInt32.le_iff_toNat_le, hmod]
    simp
    omega
  rw [padLen, UInt32.toNat_mod, UInt32.toNat_sub_of_le _ _ hle, hmod]
  rfl

theorem readOpaqueVar_of_rest {r : Reader} {max : UInt32} {data b : Bytes}
    (hlen : data.length ≤ max.toNat) (h : r.rest = Library.Xdr.encodeOpaque data ++ b) :
    ∃ r', r.readOpaqueVar max = some (data, r') ∧ r'.rest = b := by
  have hnat : (UInt32.ofNat data.length).toNat = data.length :=
    UInt32.toNat_ofNat_of_lt' (lt_of_le_of_lt hlen max.toNat_lt)
  have hle : ¬ UInt32.ofNat data.length > max := by
    rw [gt_iff_lt, UInt32.lt_iff_toNat_lt, hnat]
    omega
  have hpad : padLen (UInt32.ofNat data.length) = (Library.Xdr.padding data.length).length := by
    rw [toNat_padLen, hnat, Library.Xdr.padding, List.length_replicate]
  simp only [Library.Xdr.encodeOpaque, Library.Xdr.encodeFixed, List.append_assoc] at h
  obtain ⟨r₁, hword, h₁⟩ := readU32_of_rest h
  obtain ⟨r₂, hdata, h₂⟩ := take_of_rest h₁
  obtain ⟨r₃, hskip, h₃⟩ := take_of_rest h₂
  refine ⟨r₃, ?_, h₃⟩
  simp [readOpaqueVar, hword, hle, hnat, hdata, hpad, hskip]

theorem readOpaqueVar_of_long {r : Reader} {max : UInt32} {data b : Bytes}
    (hlong : max.toNat < data.length) (hlen : data.length < 2 ^ 32)
    (h : r.rest = Library.Xdr.encodeOpaque data ++ b) : r.readOpaqueVar max = none := by
  have hgt : UInt32.ofNat data.length > max := by
    rw [gt_iff_lt, UInt32.lt_iff_toNat_lt, UInt32.toNat_ofNat_of_lt' hlen]
    exact hlong
  rw [Library.Xdr.encodeOpaque, List.append_assoc] at h
  obtain ⟨r₁, hword, -⟩ := readU32_of_rest h
  simp [readOpaqueVar, hword, hgt]

/-! ### Reading is local

What a read returns depends only on the bytes it consumes. -/

/-- The read neither looks at nor touches what comes after the bytes it consumes. -/
def Local {α : Type} (f : Reader → Option (α × Reader)) : Prop :=
  ∀ ⦃r r' : Reader⦄ ⦃x : Bytes⦄ ⦃v : α⦄ ⦃r₁ : Reader⦄, r'.rest = r.rest ++ x →
    f r = some (v, r₁) → ∃ r₁', f r' = some (v, r₁') ∧ r₁'.rest = r₁.rest ++ x

theorem local_take (n : Nat) : Local (take · n) := by
  intro r r' x v r₁ hrest htake
  dsimp only at htake ⊢
  rcases r.take_eq n with ⟨hle, r₂, htake', hdrop⟩ | ⟨-, hnone⟩
  · rw [htake'] at htake
    cases htake
    rcases r'.take_eq n with ⟨-, r₂', htake₂, hdrop₂⟩ | ⟨hlt, -⟩
    · refine ⟨r₂', ?_, ?_⟩
      · rw [htake₂, hrest, List.take_append_of_le_length hle]
      · rw [hdrop₂, hdrop, hrest, List.drop_append_of_le_length hle]
    · rw [hrest, List.length_append] at hlt
      omega
  · rw [hnone] at htake
    cases htake

theorem Local.bind {α β : Type} {f : Reader → Option (α × Reader)}
    {g : α → Reader → Option (β × Reader)} (hf : Local f) (hg : ∀ v, Local (g v)) :
    Local fun r => (f r).bind fun a => g a.1 a.2 := by
  intro r r' x w r₂ hrest hrun
  obtain ⟨⟨v, r₁⟩, hread, hrun⟩ := Option.bind_eq_some_iff.mp hrun
  obtain ⟨r₁', hread', hrest₁⟩ := hf hrest hread
  obtain ⟨r₂', hrun', hrest₂⟩ := hg v hrest₁ hrun
  exact ⟨r₂', by simp [hread', hrun'], hrest₂⟩

theorem local_pure {α : Type} (v : α) : Local fun r => some (v, r) := by
  rintro r r' x _ _ hrest ⟨⟩
  exact ⟨r', rfl, hrest⟩

theorem local_readU32 : Local readU32 :=
  (local_take 4).bind fun b => local_pure (UInt32.ofNat (beNat b))

theorem local_readU64 : Local readU64 :=
  (local_take 8).bind fun b => local_pure (UInt64.ofNat (beNat b))

theorem local_if {α : Type} {p : Prop} [Decidable p] {f : Reader → Option (α × Reader)}
    (hf : Local f) : Local fun r => if p then none else f r := by
  intro r r' x v r₁ hrest hrun
  by_cases hp : p
  · simp [hp] at hrun
  · simp only [if_neg hp] at hrun ⊢
    exact hf hrest hrun

theorem local_readOpaqueVar (max : UInt32) : Local (readOpaqueVar · max) :=
  local_readU32.bind fun len => local_if ((local_take len.toNat).bind fun data =>
    (local_take (padLen len)).bind fun _ => local_pure data)

theorem skip_extend {r r' r₁ : Reader} {x : Bytes} {n : Nat} (hrest : r'.rest = r.rest ++ x)
    (h : r.skip n = some r₁) : ∃ r₁', r'.skip n = some r₁' ∧ r₁'.rest = r₁.rest ++ x := by
  obtain ⟨⟨v, _⟩, htake, rfl⟩ := Option.map_eq_some_iff.mp h
  obtain ⟨r₁', htake', hrest₁⟩ := local_take n hrest htake
  exact ⟨r₁', by simp [skip, htake'], hrest₁⟩

theorem skipOpaqueAuth_extend {r r' r₁ : Reader} {x : Bytes} (hrest : r'.rest = r.rest ++ x)
    (h : r.skipOpaqueAuth = some r₁) :
    ∃ r₁', r'.skipOpaqueAuth = some r₁' ∧ r₁'.rest = r₁.rest ++ x := by
  obtain ⟨⟨flavor, ra⟩, hflavor, h⟩ := Option.bind_eq_some_iff.mp h
  obtain ⟨⟨len, rb⟩, hlen, h⟩ := Option.bind_eq_some_iff.mp h
  obtain ⟨ra', hflavor', hra⟩ := local_readU32 hrest hflavor
  obtain ⟨rb', hlen', hrb⟩ := local_readU32 hra hlen
  by_cases hmax : len > 400
  · simp [hmax] at h
  · simp only [hmax, if_false] at h
    obtain ⟨rc, hskip, h⟩ := Option.bind_eq_some_iff.mp h
    obtain ⟨rc', hskip', hrc⟩ := skip_extend hrb hskip
    obtain ⟨r₁', hpad, hrest₁⟩ := skip_extend hrc h
    exact ⟨r₁', by simp [skipOpaqueAuth, hflavor', hlen', hmax, hskip', hpad], hrest₁⟩

/-- From readers with the same bytes ahead, a local read gives the same value. -/
theorem Local.congr {α : Type} {f : Reader → Option (α × Reader)} (hf : Local f) {r r' : Reader}
    (h : r.rest = r'.rest) :
    (f r = none ∧ f r' = none) ∨
      ∃ v r₁ r₁', f r = some (v, r₁) ∧ f r' = some (v, r₁') ∧ r₁.rest = r₁'.rest := by
  have hforth := fun v r₁ => @hf r r' [] v r₁ (by simp [h])
  have hback := fun v r₁ => @hf r' r [] v r₁ (by simp [h])
  rcases hr : f r with _ | ⟨v, r₁⟩
  · rcases hr' : f r' with _ | ⟨v, r₁'⟩
    · exact .inl ⟨rfl, rfl⟩
    · obtain ⟨_, hsome, -⟩ := hback v r₁' hr'
      rw [hr] at hsome
      cases hsome
  · obtain ⟨r₁', hr', hrest⟩ := hforth v r₁ hr
    exact .inr ⟨v, r₁, r₁', rfl, hr', by simpa using hrest.symm⟩

/-- A local read that fails fails on less. -/
theorem Local.none_of_extend {α : Type} {f : Reader → Option (α × Reader)} (hf : Local f)
    {r r' : Reader} {x : Bytes} (hrest : r'.rest = r.rest ++ x) (h : f r' = none) : f r = none := by
  rcases hr : f r with _ | ⟨v, r₁⟩
  · rfl
  · obtain ⟨_, hsome, -⟩ := hf hrest hr
    rw [h] at hsome
    cases hsome

/-- A local read that needs all of its input fails on every proper prefix of it. -/
theorem Local.none_of_truncated {α : Type} {f : Reader → Option (α × Reader)} (hf : Local f)
    {a : Bytes} {v : α} (hall : ∀ r, r.rest = a → ∃ r', f r = some (v, r') ∧ r'.rest = [])
    {r : Reader} (h : r.rest <+: a) (hne : r.rest ≠ a) : f r = none := by
  obtain ⟨x, rfl⟩ := h
  rcases hr : f r with _ | ⟨w, r₁⟩
  · rfl
  · obtain ⟨r', hread, hnil⟩ := hall (new (r.rest ++ x)) rfl
    obtain ⟨r₁', hread', hrest⟩ := hf (rest_new (r.rest ++ x)) hr
    -- Both runs on the whole input end at one place, where `x` is still ahead.
    rw [hread] at hread'
    cases hread'
    rw [hnil] at hrest
    obtain ⟨-, rfl⟩ := List.append_eq_nil_iff.mp hrest.symm
    exact absurd (List.append_nil _).symm hne

end Reader

/-! ## Writer -/

/-- Accumulated XDR output. -/
structure Writer where
  buf : Bytes
  deriving DecidableEq, Repr

namespace Writer

def new : Writer := ⟨[]⟩
def len (w : Writer) : Nat := w.buf.length
def intoBytes (w : Writer) : Bytes := w.buf
def extend (w : Writer) (bs : Bytes) : Writer := ⟨w.buf ++ bs⟩
def writeU32 (w : Writer) (v : UInt32) : Writer := w.extend (beU32 v)
def writeU64 (w : Writer) (v : UInt64) : Writer := w.extend (beU64 v)
def writeBool (w : Writer) (v : Bool) : Writer := w.writeU32 (if v then 1 else 0)

/-- The zero bytes that fill up the last word. -/
def padding (len : Nat) : Bytes := List.replicate ((4 - len % 4) % 4) 0

def writeOpaqueFixed (w : Writer) (data : Bytes) : Writer :=
  (w.extend data).extend (padding data.length)

def writeOpaqueVar (w : Writer) (data : Bytes) : Writer :=
  (w.writeU32 (UInt32.ofNat data.length)).writeOpaqueFixed data

def writeString (w : Writer) (s : OsString) : Writer := w.writeOpaqueVar s
def extendFrom (w other : Writer) : Writer := w.extend other.buf

section Append

variable (w : Writer)

@[simp] theorem buf_new : new.buf = [] := rfl
@[simp] theorem buf_writeU32 (v : UInt32) : (w.writeU32 v).buf = w.buf ++ beU32 v := rfl
@[simp] theorem buf_writeU64 (v : UInt64) : (w.writeU64 v).buf = w.buf ++ beU64 v := rfl
@[simp] theorem buf_writeBool (v : Bool) :
    (w.writeBool v).buf = w.buf ++ Library.Xdr.encodeBool v :=
  rfl

@[simp] theorem buf_writeOpaqueFixed (data : Bytes) :
    (w.writeOpaqueFixed data).buf = w.buf ++ Library.Xdr.encodeFixed data :=
  List.append_assoc ..

@[simp] theorem buf_writeOpaqueVar (data : Bytes) :
    (w.writeOpaqueVar data).buf = w.buf ++ Library.Xdr.encodeOpaque data := by
  simp [writeOpaqueVar, Library.Xdr.encodeOpaque]

@[simp] theorem buf_writeString (s : OsString) :
    (w.writeString s).buf = w.buf ++ Library.Xdr.encodeOpaque s :=
  w.buf_writeOpaqueVar s

@[simp] theorem buf_extendFrom (other : Writer) : (w.extendFrom other).buf = w.buf ++ other.buf :=
  rfl

@[ext] theorem ext {w w' : Writer} (h : w.buf = w'.buf) : w = w' := by
  cases w
  cases w'
  exact congrArg Writer.mk h

end Append

end Writer

end Anymount.Nfs
