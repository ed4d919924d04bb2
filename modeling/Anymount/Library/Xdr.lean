import Anymount.Library.Bytes
import Anymount.Library.Parser

/-!
# External data representation

A type language for XDR data with its values, the rendering of a value as bytes, and a
strict parser. A value carries the bounds its type declares, so every value can be
rendered and the parser recovers it (`yields_decode`). One leaf, `token`, stands for
opaque references: its values live in a type of the caller's choice and reach the wire
through the caller's encoding, while the parser returns the bytes it found.
-/
namespace Anymount.Library.Xdr

open Anymount.Library.Parser

/-! ## Types and values -/

/-- The parts of the XDR language that result types are made of. A `union` is selected by
a status word: the first arm belongs to `ok`, the second to every other listed status. -/
inductive Ty where
  | void
  | word
  | hyper
  | bool
  | enum (values : List UInt32)
  | opaqueFixed (n : Nat)
  | opaqueVar (max : UInt32)
  | token
  | pair (a b : Ty)
  | optional (a : Ty)
  | list (a : Ty)
  | union (ok : UInt32) (statuses : List UInt32) (a b : Ty)

/-- A structure with the given fields. -/
@[reducible] def Ty.struct : List Ty → Ty
  | [] => .void
  | [t] => t
  | t :: ts => .pair t (struct ts)

/-- The values of a type, with references in `H`. -/
@[reducible] def Ty.Value (H : Type) : Ty → Type
  | void => Unit
  | word => UInt32
  | hyper => UInt64
  | bool => Bool
  | enum values => { v : UInt32 // v ∈ values }
  | opaqueFixed n => { b : Bytes // b.length = n }
  | opaqueVar max => { b : Bytes // b.length ≤ max.toNat }
  | token => H
  | pair a b => a.Value H × b.Value H
  | optional a => Option (a.Value H)
  | list a => List (a.Value H)
  | union ok statuses a b => a.Value H ⊕ { v : UInt32 // v ∈ statuses ∧ v ≠ ok } × b.Value H

/-- Replace every reference. -/
def Ty.map {H K : Type} (f : H → K) : (t : Ty) → t.Value H → t.Value K
  | void, v => v
  | word, v => v
  | hyper, v => v
  | bool, v => v
  | enum _, v => v
  | opaqueFixed _, v => v
  | opaqueVar _, v => v
  | token, v => f v
  | pair a b, v => (a.map f v.1, b.map f v.2)
  | optional a, v => Option.map (a.map f) v
  | list a, v => List.map (a.map f) v
  | union _ _ a b, v => Sum.map (a.map f) (Prod.map id (b.map f)) v

theorem Ty.map_map {H K L : Type} (f : H → K) (g : K → L) (t : Ty) (v : t.Value H) :
    t.map g (t.map f v) = t.map (g ∘ f) v := by
  induction t with
  | pair a b iha ihb => exact Prod.ext (iha v.1) (ihb v.2)
  | optional a ih =>
    simp only [Ty.map, Option.map_map]
    exact congrFun (congrArg Option.map (funext ih)) v
  | list a ih =>
    simp only [Ty.map, List.map_map]
    exact congrFun (congrArg List.map (funext ih)) v
  | union ok statuses a b iha ihb =>
    rcases v with v | ⟨status, v⟩
    · exact congrArg Sum.inl (iha v)
    · exact congrArg (fun w => Sum.inr (status, w)) (ihb v)
  | _ => rfl

/-! ## Rendering -/

def encodeBool (b : Bool) : Bytes := beU32 (if b then 1 else 0)

/-- Zero bytes up to the next word boundary. -/
def padding (len : Nat) : Bytes := List.replicate ((4 - len % 4) % 4) 0

/-- Opaque data of a length that the reader knows. -/
def encodeFixed (data : Bytes) : Bytes := data ++ padding data.length

/-- Opaque data preceded by its length. -/
def encodeOpaque (data : Bytes) : Bytes := beU32 (UInt32.ofNat data.length) ++ encodeFixed data

/-- The elements of a list, each announced by a flag, without the final flag. -/
def encodeItems {α : Type} (item : α → Bytes) (vs : List α) : Bytes :=
  (vs.map fun v => encodeBool true ++ item v).flatten

/-- The bytes of a value, with references rendered by `enc`. -/
def Ty.encode {H : Type} (enc : H → Bytes) : (t : Ty) → t.Value H → Bytes
  | void, _ => []
  | word, v => beU32 v
  | hyper, v => beU64 v
  | bool, v => encodeBool v
  | enum _, v => beU32 v.val
  | opaqueFixed _, v => encodeFixed v.val
  | opaqueVar _, v => encodeOpaque v.val
  | token, v => encodeOpaque (enc v)
  | pair a b, v => a.encode enc v.1 ++ b.encode enc v.2
  | optional a, v =>
    match v with
    | none => encodeBool false
    | some v => encodeBool true ++ a.encode enc v
  | list a, v => encodeItems (a.encode enc) v ++ encodeBool false
  | union ok _ a b, v =>
    match v with
    | .inl v => beU32 ok ++ a.encode enc v
    | .inr (status, v) => beU32 status.val ++ b.encode enc v

theorem length_encodeItems_congr {α : Type} {f g : α → Bytes}
    (h : ∀ v, (f v).length = (g v).length) (vs : List α) :
    (encodeItems f vs).length = (encodeItems g vs).length := by
  induction vs with
  | nil => rfl
  | cons v vs ih =>
    simp only [encodeItems, List.map_cons, List.flatten_cons, List.length_append] at ih ⊢
    rw [h v, ih]

/-- The length of a rendering depends on the references only through their lengths. -/
theorem Ty.length_encode_congr {H : Type} {enc enc' : H → Bytes}
    (h : ∀ x, (enc x).length = (enc' x).length) (t : Ty) (v : t.Value H) :
    (t.encode enc v).length = (t.encode enc' v).length := by
  induction t with
  | token => simp [Ty.encode, encodeOpaque, encodeFixed, padding, h v]
  | pair a b iha ihb => simp only [Ty.encode, List.length_append, iha, ihb]
  | optional a ih =>
    cases v with
    | none => rfl
    | some v => simp only [Ty.encode, List.length_append, ih]
  | list a ih =>
    simp only [Ty.encode, List.length_append]
    rw [length_encodeItems_congr ih]
  | union ok statuses a b iha ihb =>
    rcases v with v | ⟨status, v⟩
    · simp only [Ty.encode, List.length_append, iha]
    · simp only [Ty.encode, List.length_append, ihb]
  | _ => rfl

/-- The most bytes a value can take up, if the type bounds them. A reference has at most
`token` bytes. -/
def Ty.most (token : Nat) : Ty → Option Nat
  | void => some 0
  | word => some 4
  | hyper => some 8
  | bool => some 4
  | enum _ => some 4
  | opaqueFixed n => some (n + 3)
  | opaqueVar max => some (max.toNat + 7)
  | .token => some (token + 7)
  | pair a b => do pure ((← a.most token) + (← b.most token))
  | optional a => do pure (4 + (← a.most token))
  | list _ => none
  | union _ _ a b => do pure (4 + max (← a.most token) (← b.most token))

theorem length_encodeFixed_mod (data : Bytes) : (encodeFixed data).length % 4 = 0 := by
  rw [encodeFixed, padding, List.length_append, List.length_replicate]
  omega

/-- Opaque data is whole words. -/
theorem length_encodeOpaque_mod (data : Bytes) : (encodeOpaque data).length % 4 = 0 := by
  have := length_encodeFixed_mod data
  rw [encodeOpaque, List.length_append, length_beU32]
  omega

theorem length_encodeFixed_le (data : Bytes) : (encodeFixed data).length ≤ data.length + 3 := by
  simp only [encodeFixed, padding, List.length_append, List.length_replicate]
  omega

theorem length_encodeOpaque_le (data : Bytes) : (encodeOpaque data).length ≤ data.length + 7 := by
  have := length_encodeFixed_le data
  rw [encodeOpaque, List.length_append, length_beU32]
  omega

theorem Ty.length_encode_le {H : Type} {enc : H → Bytes} {token : Nat}
    (henc : ∀ x, (enc x).length ≤ token) (t : Ty) {n : Nat} (h : t.most token = some n)
    (v : t.Value H) : (t.encode enc v).length ≤ n := by
  induction t generalizing n with
  | void | word | hyper | bool | enum _ =>
    obtain rfl := Option.some.inj h
    simp [Ty.encode, encodeBool]
  | opaqueFixed k =>
    obtain rfl := Option.some.inj h
    exact (length_encodeFixed_le v.val).trans (Nat.add_le_add_right v.property.le 3)
  | opaqueVar max =>
    obtain rfl := Option.some.inj h
    exact (length_encodeOpaque_le v.val).trans (Nat.add_le_add_right v.property 7)
  | token =>
    obtain rfl := Option.some.inj h
    exact (length_encodeOpaque_le (enc v)).trans (Nat.add_le_add_right (henc v) 7)
  | pair a b iha ihb =>
    obtain ⟨m, hm, h⟩ := Option.bind_eq_some_iff.mp h
    obtain ⟨k, hk, h⟩ := Option.bind_eq_some_iff.mp h
    obtain rfl := Option.some.inj h
    rw [Ty.encode, List.length_append]
    exact Nat.add_le_add (iha hm v.1) (ihb hk v.2)
  | optional a ih =>
    obtain ⟨m, hm, h⟩ := Option.bind_eq_some_iff.mp h
    obtain rfl := Option.some.inj h
    cases v with
    | none => simp [Ty.encode, encodeBool]
    | some v =>
      have := ih hm v
      simpa [Ty.encode, encodeBool] using this
  | list a ih => cases h
  | union ok statuses a b iha ihb =>
    obtain ⟨m, hm, h⟩ := Option.bind_eq_some_iff.mp h
    obtain ⟨k, hk, h⟩ := Option.bind_eq_some_iff.mp h
    obtain rfl := Option.some.inj h
    rcases v with v | ⟨status, v⟩
    · have := iha hm v
      rw [Ty.encode, List.length_append, length_beU32]
      omega
    · have := ihb hk v
      rw [Ty.encode, List.length_append, length_beU32]
      omega

/-- No reference can occur in a value of the type. -/
def Ty.tokenFree : Ty → Bool
  | token => false
  | pair a b => a.tokenFree && b.tokenFree
  | optional a => a.tokenFree
  | list a => a.tokenFree
  | union _ _ a b => a.tokenFree && b.tokenFree
  | _ => true

/-- Without references the rendering does not depend on their encoding. -/
theorem Ty.encode_of_tokenFree {H : Type} (enc enc' : H → Bytes) (t : Ty) (h : t.tokenFree = true)
    (v : t.Value H) : t.encode enc v = t.encode enc' v := by
  induction t with
  | token => cases h
  | pair a b iha ihb =>
    have h := Bool.and_eq_true_iff.mp h
    simp only [Ty.encode, iha h.1, ihb h.2]
  | optional a ih =>
    cases v with
    | none => rfl
    | some v => simp only [Ty.encode, ih h]
  | list a ih =>
    have hitem : a.encode enc = a.encode enc' := funext (ih h)
    simp only [Ty.encode, hitem]
  | union ok statuses a b iha ihb =>
    have h := Bool.and_eq_true_iff.mp h
    rcases v with v | ⟨status, v⟩
    · simp only [Ty.encode, iha h.1]
    · simp only [Ty.encode, ihb h.2]
  | _ => rfl

/-! ## Parsing -/

def u32 : Parser UInt8 UInt32 := do
  let b ← take 4
  pure (UInt32.ofNat (beNat b))

def u64 : Parser UInt8 UInt64 := do
  let b ← take 8
  pure (UInt64.ofNat (beNat b))

/-- A boolean is `0` or `1` and nothing else. -/
def boolean : Parser UInt8 Bool := do
  let v ← u32
  check (v = 0 || v = 1)
  pure (v = 1)

/-- Opaque data of length `n`, padded with zero bytes. -/
def fixed (n : Nat) : Parser UInt8 Bytes := do
  let data ← take n
  let pad ← take ((4 - n % 4) % 4)
  check (pad.all (· = 0))
  pure data

def variable_ (max : UInt32) : Parser UInt8 Bytes := do
  let len ← u32
  check (len ≤ max)
  fixed len.toNat

/-- A value of an enumerated type. -/
def member {p : UInt32 → Prop} [DecidablePred p] : Parser UInt8 { v : UInt32 // p v } := do
  let v ← u32
  if h : p v then pure ⟨v, h⟩ else fun _ => none

/-- Attach the proof of a length condition. -/
def checked {p : Bytes → Prop} [DecidablePred p] (parse : Parser UInt8 Bytes) :
    Parser UInt8 { b : Bytes // p b } := do
  let b ← parse
  if h : p b then pure ⟨b, h⟩ else fun _ => none

/-- The strict parser of a type, with references of at most `max` bytes. -/
def Ty.decode (max : UInt32) : (t : Ty) → Parser UInt8 (t.Value Bytes)
  | void => pure ()
  | word => u32
  | hyper => u64
  | bool => boolean
  | enum _ => member
  | opaqueFixed n => checked (fixed n)
  | opaqueVar max => checked (variable_ max)
  | token => variable_ max
  | pair a b => do
    let x ← a.decode max
    let y ← b.decode max
    pure (x, y)
  | optional a => do
    if ← boolean then
      let v ← a.decode max
      pure (some v)
    else pure none
  | list a => do
    let n ← remaining
    linked boolean (a.decode max) n
  | union ok statuses a b => do
    let status ← u32
    if status = ok then
      let v ← a.decode max
      pure (.inl v)
    else if h : status ∈ statuses ∧ status ≠ ok then
      let v ← b.decode max
      pure (.inr (⟨status, h⟩, v))
    else fun _ => none

/-- A counted array: the number of elements, then the elements. -/
def array {α : Type} (item : Parser UInt8 α) : Parser UInt8 (List α) := do
  let n ← u32
  count item n.toNat

def encodeArray {α : Type} (item : α → Bytes) (vs : List α) : Bytes :=
  beU32 (UInt32.ofNat vs.length) ++ (vs.map item).flatten

/-! ## The parser recovers every value -/

theorem yields_u32 (v : UInt32) : Yields u32 (beU32 v) v := by
  have h := (yields_take_of_length (length_beU32 v)).bind_pure fun b => UInt32.ofNat (beNat b)
  rwa [ofNat_beNat_beU32] at h

theorem yields_u64 (v : UInt64) : Yields u64 (beU64 v) v := by
  have h := (yields_take_of_length (length_beU64 v)).bind_pure fun b => UInt64.ofNat (beNat b)
  rwa [ofNat_beNat_beU64] at h

theorem yields_boolean (b : Bool) : Yields boolean (encodeBool b) b := by
  rw [← List.append_nil (encodeBool b)]
  refine (yields_u32 _).bind (.of_check ?_ ?_)
  · cases b <;> rfl
  · cases b <;> exact Yields.pure _

theorem yields_fixed {data : Bytes} {n : Nat} (h : data.length = n) :
    Yields (fixed n) (encodeFixed data) data := by
  subst h
  have hpad : (padding data.length).length = (4 - data.length % 4) % 4 := List.length_replicate
  refine (yields_take data).bind ?_
  rw [← List.append_nil (padding data.length)]
  refine (yields_take_of_length hpad).bind (.of_check ?_ (Yields.pure data))
  simp [padding]

theorem yields_variable {data : Bytes} {max : UInt32} (h : data.length ≤ max.toNat) :
    Yields (variable_ max) (encodeOpaque data) data := by
  have hlen : (UInt32.ofNat data.length).toNat = data.length :=
    UInt32.toNat_ofNat_of_lt' (lt_of_le_of_lt h max.toNat_lt)
  have hle : decide (UInt32.ofNat data.length ≤ max) = true := by
    rw [decide_eq_true_iff, UInt32.le_iff_toNat_le, hlen]
    exact h
  exact (yields_u32 _).bind (.of_check hle (yields_fixed hlen.symm))

theorem yields_array {α : Type} {item : Parser UInt8 α} {enc : α → Bytes} {vs : List α}
    (hlen : vs.length < 2 ^ 32) (h : ∀ v ∈ vs, Yields item (enc v) v) :
    Yields (array item) (encodeArray enc vs) vs := by
  have hword : (UInt32.ofNat vs.length).toNat = vs.length := UInt32.toNat_ofNat_of_lt' hlen
  have hcount := yields_count (f := id) h
  rw [List.map_id, ← hword] at hcount
  exact (yields_u32 _).bind hcount

theorem yields_member {p : UInt32 → Prop} [DecidablePred p] (v : { v : UInt32 // p v }) :
    Yields member (beU32 v.val) v := by
  rw [← List.append_nil (beU32 v.val)]
  refine (yields_u32 v.val).bind ?_
  rw [dif_pos v.2]
  exact Yields.pure v

theorem yields_checked {p : Bytes → Prop} [DecidablePred p] {parse : Parser UInt8 Bytes}
    (v : { b : Bytes // p b }) {ts : Bytes} (hparse : Yields parse ts v.val) :
    Yields (checked parse) ts v := by
  rw [← List.append_nil ts]
  refine hparse.bind ?_
  rw [dif_pos v.2]
  exact Yields.pure v

theorem length_le_encodeItems {α : Type} (item : α → Bytes) (vs : List α) :
    vs.length ≤ (encodeItems item vs).length := by
  induction vs with
  | nil => simp
  | cons v vs ih =>
    simp only [encodeItems, List.map_cons, List.flatten_cons, List.length_append,
      List.length_cons, encodeBool, length_beU32] at ih ⊢
    omega

/-- Every element takes up at least its flag, so the bytes ahead bound the elements. -/
theorem yields_list {α β : Type} {item : Parser UInt8 β} {enc : α → Bytes} {f : α → β}
    (h : ∀ v, Yields item (enc v) (f v)) (vs : List α) :
    Yields (do let n ← remaining; linked boolean item n : Parser UInt8 (List β))
      (encodeItems enc vs ++ encodeBool false) (vs.map f) := by
  intro rest
  have hfuel : vs.length < (encodeItems enc vs ++ encodeBool false ++ rest).length := by
    have := length_le_encodeItems enc vs
    simp only [List.length_append, encodeBool, length_beU32]
    omega
  have hitem : ∀ e ∈ vs.map fun v => (enc v, f v), Yields item e.1 e.2 := by
    intro e he
    obtain ⟨v, -, rfl⟩ := List.mem_map.mp he
    exact h v
  have hlinked := yields_linked (yields_boolean true) (yields_boolean false) hitem
    (show (vs.map fun v => (enc v, f v)).length <
      (encodeItems enc vs ++ encodeBool false ++ rest).length by simpa using hfuel) rest
  simp only [List.map_map, Function.comp_def] at hlinked
  exact hlinked

/-- Parsing what was rendered gives the value back, its references as bytes. -/
theorem yields_decode {H : Type} {enc : H → Bytes} {max : UInt32}
    (henc : ∀ x, (enc x).length ≤ max.toNat) (t : Ty) (v : t.Value H) :
    Yields (t.decode max) (t.encode enc v) (t.map enc v) := by
  induction t with
  | void => exact Yields.pure _
  | word => exact yields_u32 v
  | hyper => exact yields_u64 v
  | bool => exact yields_boolean v
  | enum values => exact yields_member v
  | opaqueFixed n => exact yields_checked v (yields_fixed v.2)
  | opaqueVar max => exact yields_checked v (yields_variable v.2)
  | token => exact yields_variable (henc v)
  | pair a b iha ihb => exact (iha v.1).bind ((ihb v.2).bind_pure fun y => (a.map enc v.1, y))
  | optional a ih =>
    cases v with
    | none =>
      rw [Ty.encode, ← List.append_nil (encodeBool false)]
      exact (yields_boolean false).bind (Yields.pure _)
    | some v => exact (yields_boolean true).bind ((ih v).bind_pure some)
  | list a ih => exact yields_list ih v
  | union ok statuses a b iha ihb =>
    rcases v with v | ⟨status, v⟩
    · refine (yields_u32 ok).bind ?_
      rw [if_pos rfl]
      exact (iha v).bind_pure Sum.inl
    · refine (yields_u32 status.val).bind ?_
      rw [if_neg status.2.2, dif_pos status.2]
      exact (ihb v).bind_pure fun w => Sum.inr (status, w)

end Anymount.Library.Xdr
