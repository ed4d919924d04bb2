import Anymount.Library.Bytes

/-!
# Record marking

A stream of records, each cut into fragments. A fragment starts with a word whose highest
bit marks the last fragment of its record and whose other bits are the fragment's length.
-/
namespace Anymount.Library.Record

/-- Take one fragment off the stream: whether it is the last one, its bytes, and the rest. -/
def readFragment (s : Bytes) : Option (Bool × Bytes × Bytes) :=
  let mark := beNat (s.take 4)
  if s.length < 4 + mark % 2 ^ 31 then none
  else
    some (decide (2 ^ 31 ≤ mark), (s.drop 4).take (mark % 2 ^ 31), (s.drop 4).drop (mark % 2 ^ 31))

/-- Take the fragments of one record off the stream. -/
def readRecord : Nat → Bytes → Option (Bytes × Bytes)
  | 0, _ => none
  | fuel + 1, s =>
    match readFragment s with
    | none => none
    | some (true, part, rest) => some (part, rest)
    | some (false, part, rest) => (readRecord fuel rest).map fun r => (part ++ r.1, r.2)

/-- The first record of a stream and what follows it. Every fragment takes four bytes or more,
so the length of the stream bounds their number. -/
def recordAt (s : Bytes) : Option (Bytes × Bytes) := readRecord s.length s

/-- A record in one final fragment. -/
theorem recordAt_final {mark s : Bytes} {len : Nat} (hmark : mark.length = 4)
    (hbits : beNat mark = 2 ^ 31 + len) (hlt : len < 2 ^ 31) (hle : len ≤ s.length) :
    recordAt (mark ++ s) = some (s.take len, s.drop len) := by
  have hlen : (mark ++ s).length = s.length + 3 + 1 := by
    rw [List.length_append, hmark]
    omega
  have hword : beNat ((mark ++ s).take 4) = 2 ^ 31 + len := by
    rw [List.take_left' hmark, hbits]
  have hlow : (2 ^ 31 + len) % 2 ^ 31 = len := by
    rw [Nat.add_mod_left, Nat.mod_eq_of_lt hlt]
  have hfragment : readFragment (mark ++ s) = some (true, s.take len, s.drop len) := by
    rw [readFragment]
    simp only [hword, hlow, List.drop_left' hmark]
    rw [if_neg (by omega), decide_eq_true (Nat.le_add_right _ _)]
  rw [recordAt, hlen, readRecord, hfragment]

end Anymount.Library.Record
