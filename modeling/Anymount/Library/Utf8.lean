import Anymount.Library.Bytes

/-!
# UTF-8 and UTF-16

Code points as bytes and as 16-bit units. `encodePoint` and `points` do not exclude
surrogates, so they also describe the generalized encoding in which a platform keeps names
that are not valid Unicode. For text both agree with the standard encodings.
-/
namespace Anymount.Library.Utf8

/-- One code point below `0x110000`. -/
def encodePoint (v : Nat) : Bytes :=
  if v ≤ 0x7F then [.ofNat v]
  else if v ≤ 0x7FF then [.ofNat (v / 64 % 0x20 + 0xC0), .ofNat (v % 0x40 + 0x80)]
  else if v ≤ 0xFFFF then
    [.ofNat (v / 4096 % 0x10 + 0xE0), .ofNat (v / 64 % 0x40 + 0x80), .ofNat (v % 0x40 + 0x80)]
  else
    [.ofNat (v / 262144 % 0x08 + 0xF0), .ofNat (v / 4096 % 0x40 + 0x80),
      .ofNat (v / 64 % 0x40 + 0x80), .ofNat (v % 0x40 + 0x80)]

/-- The bytes of a text. -/
def encode (s : String) : Bytes := s.toList.flatMap String.utf8EncodeChar

/-- The code points of bytes that are trusted to be well formed. -/
def points : Bytes → List Nat
  | [] => []
  | x :: rest =>
    if x.toNat < 0x80 then x.toNat :: points rest
    else match rest with
      | [] => []
      | y :: rest =>
        if x.toNat < 0xE0 then (x.toNat % 32 * 64 + y.toNat % 64) :: points rest
        else match rest with
          | [] => []
          | z :: rest =>
            if x.toNat < 0xF0 then
              (x.toNat % 16 * 4096 + y.toNat % 64 * 64 + z.toNat % 64) :: points rest
            else match rest with
              | [] => []
              | w :: rest =>
                (x.toNat % 8 * 262144 + y.toNat % 64 * 4096 + z.toNat % 64 * 64 +
                  w.toNat % 64) :: points rest

/-- The 16-bit units of one code point: two surrogates from `0x10000` on. -/
def units (v : Nat) : List UInt16 :=
  if v < 0x10000 then [.ofNat v]
  else [.ofNat (0xD800 + (v - 0x10000) / 0x400), .ofNat (0xDC00 + (v - 0x10000) % 0x400)]

/-- Code points as bytes. Without surrogates among them this is UTF-8. -/
def wtf8 (vs : List Nat) : Bytes := vs.flatMap encodePoint

/-- Code points as 16-bit units. -/
def utf16 (vs : List Nat) : List UInt16 := vs.flatMap units

theorem toNat_ofNat_u8 {n : Nat} (h : n < 256) : (UInt8.ofNat n).toNat = n :=
  UInt8.toNat_ofNat_of_lt' h

theorem ofNat_eq {n : Nat} {b : UInt8} (h : n = b.toNat) : UInt8.ofNat n = b := by
  rw [h, UInt8.ofNat_toNat]

theorem utf8EncodeChar_eq (c : Char) : String.utf8EncodeChar c = encodePoint c.val.toNat := rfl

theorem points_encodePoint {v : Nat} (h : v < 0x110000) (rest : Bytes) :
    points (encodePoint v ++ rest) = v :: points rest := by
  unfold encodePoint
  rw [points.eq_def]
  -- One case per width; in each the tests of `points` on the lead byte are decided.
  split_ifs with h1 h2 h3 <;> dsimp only [List.cons_append, List.nil_append]
  · rw [toNat_ofNat_u8 (by omega), if_pos (by omega)]
  · rw [toNat_ofNat_u8 (by omega), toNat_ofNat_u8 (by omega), if_neg (by omega), if_pos (by omega)]
    congr 1
    omega
  · rw [toNat_ofNat_u8 (by omega), toNat_ofNat_u8 (by omega), toNat_ofNat_u8 (by omega),
      if_neg (by omega), if_neg (by omega), if_pos (by omega)]
    congr 1
    omega
  · rw [toNat_ofNat_u8 (by omega), toNat_ofNat_u8 (by omega), toNat_ofNat_u8 (by omega),
      toNat_ofNat_u8 (by omega), if_neg (by omega), if_neg (by omega), if_neg (by omega)]
    congr 1
    omega

theorem points_wtf8 {vs : List Nat} (h : ∀ v ∈ vs, v < 0x110000) : points (wtf8 vs) = vs := by
  induction vs with
  | nil => rfl
  | cons v vs ih =>
    obtain ⟨hv, hvs⟩ := List.forall_mem_cons.mp h
    rw [wtf8, List.flatMap_cons, points_encodePoint hv, ← wtf8, ih hvs]

theorem length_encodePoint_le (v : Nat) : (encodePoint v).length ≤ 4 := by
  unfold encodePoint
  split_ifs <;> simp

theorem length_encode_le (s : String) : (encode s).length ≤ 4 * s.toList.length := by
  unfold encode
  induction s.toList with
  | nil => simp
  | cons c cs ih =>
    have := length_encodePoint_le c.val.toNat
    rw [List.flatMap_cons, utf8EncodeChar_eq, List.length_append, List.length_cons]
    omega

end Anymount.Library.Utf8
