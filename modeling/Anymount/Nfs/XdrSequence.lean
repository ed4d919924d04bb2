import Anymount.Nfs.Xdr

/-!
# Sequences of XDR items

`Reader` of `Xdr` forgets the cursor when a read fails. Here the methods are the source's own,
on a cursor that a failed read may leave advanced: `read_opaque_var` has consumed the length
word by the time it refuses it. `Follows` ties the two together, and everything about
sequences of reads is derived from it.
-/
namespace Anymount.Nfs

open Library

/-! ## The cursor of the source -/

/-- A byte slice and a position, which nothing here keeps inside it. -/
structure Cursor where
  buf : Bytes
  pos : Nat
  deriving DecidableEq, Repr

/-- A method on `&mut Reader` that returns an `Option`. -/
abbrev ReadM (α : Type) := OptionT (StateM Cursor) α

namespace Cursor

def take (n : Nat) : ReadM Bytes := do
  let c ← get
  if c.pos + n ≤ c.buf.length then
    set { c with pos := c.pos + n }
    pure ((c.buf.drop c.pos).take n)
  else failure

def readU32 : ReadM UInt32 := do
  let b ← take 4
  pure (UInt32.ofNat (beNat b))

def readU64 : ReadM UInt64 := do
  let b ← take 8
  pure (UInt64.ofNat (beNat b))

def readBool : ReadM Bool := do
  let v ← readU32
  pure (v ≠ 0)

def readOpaqueFixed (n : Nat) : ReadM Bytes := take n

def readOpaqueVar (max : UInt32) : ReadM Bytes := do
  let len ← readU32
  if len > max then failure
  else
    let data ← take len.toNat
    let _ ← take (Reader.padLen len)
    pure data

def readString (max : UInt32) : ReadM OsString := readOpaqueVar max

def skip (n : Nat) : ReadM Unit := do
  let _ ← take n
  pure ()

def skipOpaqueAuth : ReadM Unit := do
  let _ ← readU32
  let len ← readU32
  if len > 400 then failure
  else
    skip len.toNat
    skip (Reader.padLen len)

end Cursor

def Reader.cursor (r : Reader) : Cursor := ⟨r.buf, r.pos⟩

/-- What a method returns and where it leaves the cursor. -/
def ReadM.on {α : Type} (m : ReadM α) (c : Cursor) : Option α × Cursor := m.run.run c

/-- From inside the slice, the method returns what the read returns and leaves the cursor where
the read does; when the read fails, the cursor is still somewhere inside. -/
structure Follows {α : Type} (m : ReadM α) (f : Reader → Option (α × Reader)) : Prop where
  ok : ∀ ⦃r r' : Reader⦄ ⦃v : α⦄, f r = some (v, r') →
    r'.buf = r.buf ∧ m.on r.cursor = (some v, r'.cursor)
  fail : ∀ ⦃r : Reader⦄, f r = none →
    ∃ r' : Reader, r'.buf = r.buf ∧ m.on r.cursor = (none, r'.cursor)

section Follows

variable {α β : Type} {m : ReadM α} {f : Reader → Option (α × Reader)}

/-- The method keeps the cursor inside the slice, whether it succeeds or fails. -/
theorem Follows.inside (h : Follows m f) (r : Reader) :
    ∃ r' : Reader, r'.buf = r.buf ∧ (m.on r.cursor).2 = r'.cursor := by
  rcases hf : f r with _ | ⟨v, r'⟩
  · obtain ⟨r', hbuf, hrun⟩ := h.fail hf
    exact ⟨r', hbuf, by rw [hrun]⟩
  · obtain ⟨hbuf, hrun⟩ := h.ok hf
    exact ⟨r', hbuf, by rw [hrun]⟩

theorem on_bind_some {k : α → ReadM β} {c c' : Cursor} {v : α} (h : m.on c = (some v, c')) :
    (m >>= k).on c = (k v).on c' := by
  unfold ReadM.on at h ⊢
  simp only [OptionT.run_bind, Option.elimM, StateT.run_bind, h]
  rfl

theorem on_bind_none {k : α → ReadM β} {c c' : Cursor} (h : m.on c = (none, c')) :
    (m >>= k).on c = (none, c') := by
  unfold ReadM.on at h ⊢
  simp only [OptionT.run_bind, Option.elimM, StateT.run_bind, h]
  rfl

theorem on_take (n : Nat) (c : Cursor) :
    (Cursor.take n).on c =
      if c.pos + n ≤ c.buf.length then
        (some ((c.buf.drop c.pos).take n), { c with pos := c.pos + n })
      else (none, c) := by
  have hget : (get : ReadM Cursor).on c = (some c, c) := rfl
  rw [Cursor.take, on_bind_some hget]
  split_ifs <;> rfl

theorem follows_take (n : Nat) : Follows (Cursor.take n) (Reader.take · n) where
  ok := by
    intro r r' v hr
    simp only [Reader.take] at hr
    split_ifs at hr with h
    cases hr
    exact ⟨rfl, (on_take n r.cursor).trans (if_pos h)⟩
  fail := by
    intro r hr
    simp only [Reader.take] at hr
    split_ifs at hr with h
    exact ⟨r, rfl, (on_take n r.cursor).trans (if_neg h)⟩

theorem follows_pure (v : α) : Follows (pure v) fun r => some (v, r) where
  ok := by
    rintro r _ _ ⟨⟩
    exact ⟨rfl, rfl⟩
  fail := nofun

theorem follows_failure : Follows (failure : ReadM α) fun _ => none where
  ok := nofun
  fail := fun r _ => ⟨r, rfl, rfl⟩

theorem Follows.bind {k : α → ReadM β} {g : α → Reader → Option (β × Reader)} (hm : Follows m f)
    (hk : ∀ v, Follows (k v) (g v)) :
    Follows (m >>= k) fun r => (f r).bind fun a => g a.1 a.2 where
  ok := by
    intro r r₂ w hr
    obtain ⟨⟨v, r₁⟩, hf, hg⟩ := Option.bind_eq_some_iff.mp hr
    obtain ⟨hbuf, hrun⟩ := hm.ok hf
    obtain ⟨hbuf', hrun'⟩ := (hk v).ok hg
    exact ⟨hbuf'.trans hbuf, (on_bind_some hrun).trans hrun'⟩
  fail := by
    intro r hr
    rcases hf : f r with _ | ⟨v, r₁⟩
    · obtain ⟨r', hbuf, hrun⟩ := hm.fail hf
      exact ⟨r', hbuf, on_bind_none hrun⟩
    · obtain ⟨hbuf, hrun⟩ := hm.ok hf
      simp only [hf, Option.bind_some] at hr
      obtain ⟨r', hbuf', hrun'⟩ := (hk v).fail hr
      exact ⟨r', hbuf'.trans hbuf, (on_bind_some hrun).trans hrun'⟩

theorem Follows.guarded {p : Prop} [Decidable p] (hm : Follows m f) :
    Follows (if p then failure else m) fun r => if p then none else f r := by
  by_cases hp : p
  · simpa only [if_pos hp] using follows_failure
  · simpa only [if_neg hp] using hm

theorem follows_readU32 : Follows Cursor.readU32 Reader.readU32 :=
  (follows_take 4).bind fun b => follows_pure (UInt32.ofNat (beNat b))

theorem follows_readU64 : Follows Cursor.readU64 Reader.readU64 :=
  (follows_take 8).bind fun b => follows_pure (UInt64.ofNat (beNat b))

theorem follows_readBool : Follows Cursor.readBool Reader.readBool :=
  follows_readU32.bind fun v => follows_pure (decide (v ≠ 0))

theorem follows_readOpaqueVar (max : UInt32) :
    Follows (Cursor.readOpaqueVar max) (Reader.readOpaqueVar · max) :=
  follows_readU32.bind fun len => ((follows_take len.toNat).bind fun data =>
    (follows_take (Reader.padLen len)).bind fun _ => follows_pure data).guarded

end Follows

/-! ## Items -/

/-- The kinds of value a message is read as, with the limits the read is given. -/
inductive Kind where
  | u32
  | u64
  | bool
  | opaqueFixed (n : Nat)
  | opaqueVar (max : UInt32)
  | string (max : UInt32)

namespace Kind

abbrev Value : Kind → Type
  | u32 => UInt32
  | u64 => UInt64
  | bool => Bool
  | opaqueFixed _ => Bytes
  | opaqueVar _ => Bytes
  | string _ => OsString

def read : (k : Kind) → ReadM k.Value
  | u32 => Cursor.readU32
  | u64 => Cursor.readU64
  | bool => Cursor.readBool
  | opaqueFixed n => Cursor.readOpaqueFixed n
  | opaqueVar max => Cursor.readOpaqueVar max
  | string max => Cursor.readString max

def write : (k : Kind) → k.Value → Writer → Writer
  | u32, v, w => w.writeU32 v
  | u64, v, w => w.writeU64 v
  | bool, v, w => w.writeBool v
  | opaqueFixed _, v, w => w.writeOpaqueFixed v
  | opaqueVar _, v, w => w.writeOpaqueVar v
  | string _, v, w => w.writeString v

/-- The values a read of this kind can return. A fixed opaque is unpadded on the reading side,
so it comes in whole words. -/
def Fits : (k : Kind) → k.Value → Prop
  | opaqueFixed n, v => v.length = n ∧ n % 4 = 0
  | opaqueVar max, v => v.length ≤ max.toNat
  | string max, v => v.length ≤ max.toNat
  | _, _ => True

/-- The same read without the cursor of a failure. -/
def fromReader : (k : Kind) → Reader → Option (k.Value × Reader)
  | u32, r => r.readU32
  | u64, r => r.readU64
  | bool, r => r.readBool
  | opaqueFixed n, r => r.readOpaqueFixed n
  | opaqueVar max, r => r.readOpaqueVar max
  | string max, r => r.readString max

/-- The bytes that a write appends. -/
def encode : (k : Kind) → k.Value → Bytes
  | u32, v => beU32 v
  | u64, v => beU64 v
  | bool, v => Library.Xdr.encodeBool v
  | opaqueFixed _, v => Library.Xdr.encodeFixed v
  | opaqueVar _, v => Library.Xdr.encodeOpaque v
  | string _, v => Library.Xdr.encodeOpaque v

theorem follows_read (k : Kind) : Follows k.read k.fromReader := by
  cases k with
  | u32 => exact follows_readU32
  | u64 => exact follows_readU64
  | bool => exact follows_readBool
  | opaqueFixed n => exact follows_take n
  | opaqueVar max => exact follows_readOpaqueVar max
  | string max => exact follows_readOpaqueVar max

theorem local_fromReader (k : Kind) : Reader.Local k.fromReader := by
  cases k with
  | u32 => exact Reader.local_readU32
  | u64 => exact Reader.local_readU64
  | bool => exact Reader.local_readU32.bind fun v => Reader.local_pure (decide (v ≠ 0))
  | opaqueFixed n => exact Reader.local_take n
  | opaqueVar max => exact Reader.local_readOpaqueVar max
  | string max => exact Reader.local_readOpaqueVar max

theorem buf_write (k : Kind) (v : k.Value) (w : Writer) :
    (k.write v w).buf = w.buf ++ k.encode v := by
  cases k <;> simp [write, encode]

theorem fromReader_of_rest {k : Kind} {v : k.Value} (hfits : k.Fits v) {r : Reader} {b : Bytes}
    (h : r.rest = k.encode v ++ b) : ∃ r', k.fromReader r = some (v, r') ∧ r'.rest = b := by
  cases k with
  | u32 => exact Reader.readU32_of_rest h
  | u64 => exact Reader.readU64_of_rest h
  | bool =>
    obtain ⟨r', hread, hrest⟩ := Reader.readU32_of_rest h
    refine ⟨r', ?_, hrest⟩
    cases v <;> simp [fromReader, Reader.readBool, hread]
  | opaqueFixed n =>
    obtain ⟨hlen, hmod⟩ : v.length = n ∧ n % 4 = 0 := hfits
    have hpad : Library.Xdr.padding v.length = [] := by simp [Library.Xdr.padding, hlen, hmod]
    simp only [encode, Library.Xdr.encodeFixed, hpad, List.append_nil] at h
    obtain ⟨r', hread, hrest⟩ := Reader.take_of_rest h
    rw [hlen] at hread
    exact ⟨r', hread, hrest⟩
  | opaqueVar max => exact Reader.readOpaqueVar_of_rest hfits h
  | string max => exact Reader.readOpaqueVar_of_rest hfits h

end Kind

/-- A value that can be read back. -/
structure Item where
  kind : Kind
  value : kind.Value
  fits : kind.Fits value

/-- What a read of an item's kind returns. -/
def Item.read (item : Item) : (k : Kind) × k.Value := ⟨item.kind, item.value⟩

def writeAll (items : List Item) (w : Writer) : Writer :=
  items.foldl (fun w item => item.kind.write item.value w) w

/-- The reads of the kinds in order, up to the first that fails. -/
def readAll : List Kind → ReadM (List ((k : Kind) × k.Value))
  | [] => pure []
  | k :: ks => do
    let v ← k.read
    let vs ← readAll ks
    pure (⟨k, v⟩ :: vs)

def readAllFrom : List Kind → Reader → Option (List ((k : Kind) × k.Value) × Reader)
  | [], r => some ([], r)
  | k :: ks, r => (k.fromReader r).bind fun a =>
    (readAllFrom ks a.2).bind fun b => some (⟨k, a.1⟩ :: b.1, b.2)

theorem follows_readAll (kinds : List Kind) : Follows (readAll kinds) (readAllFrom kinds) := by
  induction kinds with
  | nil => exact follows_pure []
  | cons k ks ih => exact k.follows_read.bind fun v => ih.bind fun vs => follows_pure (⟨k, v⟩ :: vs)

theorem local_readAllFrom (kinds : List Kind) : Reader.Local (readAllFrom kinds) := by
  induction kinds with
  | nil => exact Reader.local_pure []
  | cons k ks ih =>
    exact k.local_fromReader.bind fun v => ih.bind fun vs => Reader.local_pure (⟨k, v⟩ :: vs)

/-- The bytes of a sequence. -/
def encodeAll (items : List Item) : Bytes := items.flatMap fun item => item.kind.encode item.value

theorem buf_writeAll (items : List Item) (w : Writer) :
    (writeAll items w).buf = w.buf ++ encodeAll items := by
  unfold writeAll
  induction items generalizing w with
  | nil => simp [encodeAll]
  | cons item items ih =>
    rw [List.foldl_cons, ih, Kind.buf_write, encodeAll, encodeAll, List.flatMap_cons,
      List.append_assoc]

theorem readAllFrom_of_rest {items : List Item} {r : Reader} {b : Bytes}
    (h : r.rest = encodeAll items ++ b) :
    ∃ r', readAllFrom (items.map Item.kind) r = some (items.map Item.read, r') ∧ r'.rest = b := by
  induction items generalizing r with
  | nil => exact ⟨r, rfl, by simpa [encodeAll] using h⟩
  | cons item items ih =>
    rw [encodeAll, List.flatMap_cons, List.append_assoc] at h
    obtain ⟨r₁, hread, hrest⟩ := Kind.fromReader_of_rest item.fits h
    obtain ⟨r₂, hreads, hrest⟩ := ih hrest
    exact ⟨r₂, by simp [readAllFrom, hread, hreads, Item.read], hrest⟩

/-! ## Whole words -/

/-- A writer that only its own methods have written to. -/
inductive Built : Writer → Prop where
  | new : Built .new
  | writeU32 {w : Writer} (hw : Built w) (v : UInt32) : Built (w.writeU32 v)
  | writeU64 {w : Writer} (hw : Built w) (v : UInt64) : Built (w.writeU64 v)
  | writeBool {w : Writer} (hw : Built w) (v : Bool) : Built (w.writeBool v)
  | writeOpaqueFixed {w : Writer} (hw : Built w) (data : Bytes) : Built (w.writeOpaqueFixed data)
  | writeOpaqueVar {w : Writer} (hw : Built w) (data : Bytes) : Built (w.writeOpaqueVar data)
  | writeString {w : Writer} (hw : Built w) (s : OsString) : Built (w.writeString s)
  | extendFrom {w other : Writer} (hw : Built w) (hother : Built other) : Built (w.extendFrom other)

theorem Built.len_mod {w : Writer} (h : Built w) : w.len % 4 = 0 := by
  unfold Writer.len
  induction h with
  | new => rfl
  | writeU32 _ v ih => rw [Writer.buf_writeU32, List.length_append, Nat.add_mod, ih, length_beU32]
  | writeU64 _ v ih => rw [Writer.buf_writeU64, List.length_append, Nat.add_mod, ih, length_beU64]
  | writeBool _ v ih =>
    rw [Writer.buf_writeBool, List.length_append, Nat.add_mod, ih]
    cases v <;> rfl
  | writeOpaqueFixed _ data ih =>
    rw [Writer.buf_writeOpaqueFixed, List.length_append, Nat.add_mod, ih,
      Xdr.length_encodeFixed_mod]
  | writeOpaqueVar _ data ih =>
    rw [Writer.buf_writeOpaqueVar, List.length_append, Nat.add_mod, ih, Xdr.length_encodeOpaque_mod]
  | writeString _ s ih =>
    rw [Writer.buf_writeString, List.length_append, Nat.add_mod, ih, Xdr.length_encodeOpaque_mod]
  | extendFrom _ _ ih ihother =>
    rw [Writer.buf_extendFrom, List.length_append, Nat.add_mod, ih, ihother]

/-! ## Any reads -/

/-- A method that a caller may call next, whatever the ones before it returned. -/
inductive Call where
  | read (kind : Kind)
  | skipOpaqueAuth

/-- Where the call leaves the cursor. -/
def Call.perform : Call → Cursor → Cursor
  | read kind, c => (kind.read.on c).2
  | skipOpaqueAuth, c => (Cursor.skipOpaqueAuth.on c).2

/-- Where a sequence of calls leaves it, failures or not. -/
def performAll (calls : List Call) (c : Cursor) : Cursor :=
  calls.foldl (fun c call => call.perform c) c

theorem follows_skip (n : Nat) :
    Follows (Cursor.skip n) fun r => (r.take n).bind fun a => some ((), a.2) :=
  (follows_take n).bind fun _ => follows_pure ()

theorem Call.inside (call : Call) (r : Reader) :
    ∃ r' : Reader, r'.buf = r.buf ∧ call.perform r.cursor = r'.cursor := by
  cases call with
  | read kind => exact kind.follows_read.inside r
  | skipOpaqueAuth =>
    exact (follows_readU32.bind fun _ => follows_readU32.bind fun len =>
      ((follows_skip len.toNat).bind fun _ => follows_skip (Reader.padLen len)).guarded).inside r

theorem inside_of_calls (calls : List Call) (r : Reader) :
    ∃ r' : Reader, r'.buf = r.buf ∧ performAll calls r.cursor = r'.cursor := by
  induction calls generalizing r with
  | nil => exact ⟨r, rfl, rfl⟩
  | cons call calls ih =>
    obtain ⟨r₁, hbuf, hcursor⟩ := call.inside r
    obtain ⟨r₂, hbuf', hcursor'⟩ := ih r₁
    refine ⟨r₂, hbuf'.trans hbuf, ?_⟩
    rw [performAll, List.foldl_cons, hcursor, ← hcursor', performAll]

/-! ## Sequences -/

/-- Items written one after the other are read back, and the cursor stops at what follows them.
The writer always holds whole words. On every proper prefix some read fails. No sequence of
calls moves the cursor out of the slice or changes the slice. -/
theorem xdr_sequences_round_trip :
    (∀ (items : List Item) (suffix : Bytes),
      (readAll (items.map Item.kind)).on ⟨(writeAll items .new).buf ++ suffix, 0⟩ =
        (some (items.map Item.read),
          ⟨(writeAll items .new).buf ++ suffix, (writeAll items .new).len⟩)) ∧
    (∀ w : Writer, Built w → w.len % 4 = 0) ∧
    (∀ (items : List Item) (cut : Bytes), cut <+: (writeAll items .new).buf →
      cut ≠ (writeAll items .new).buf → ((readAll (items.map Item.kind)).on ⟨cut, 0⟩).1 = none) ∧
    ∀ (buf : Bytes) (calls : List Call),
      (performAll calls ⟨buf, 0⟩).buf = buf ∧ (performAll calls ⟨buf, 0⟩).pos ≤ buf.length := by
  have hbuf : ∀ items, (writeAll items .new).buf = encodeAll items := fun items => by
    simp [buf_writeAll]
  refine ⟨fun items suffix => ?_, fun w hw => hw.len_mod, fun items cut hcut hne => ?_,
    fun buf calls => ?_⟩
  · have hstart : (Reader.new ((writeAll items .new).buf ++ suffix)).rest =
        encodeAll items ++ suffix := by rw [Reader.rest_new, hbuf]
    obtain ⟨r', hread, hrest⟩ := readAllFrom_of_rest hstart
    obtain ⟨hsame, hrun⟩ := (follows_readAll _).ok hread
    refine hrun.trans ?_
    -- The cursor is where the suffix begins, since it is inside and the suffix is ahead.
    have hpos : r'.pos = (writeAll items .new).len := by
      have hlen := congrArg List.length hrest
      have hle := r'.pos_le
      rw [Reader.rest, List.length_drop, hsame] at hlen
      rw [hsame] at hle
      simp only [Reader.new, List.length_append] at hlen hle
      rw [Writer.len]
      omega
    rw [Reader.cursor, hsame, hpos]
    rfl
  · rw [hbuf] at hcut hne
    have hnone : readAllFrom (items.map Item.kind) (.new cut) = none :=
      (local_readAllFrom _).none_of_truncated
        (fun r hr => readAllFrom_of_rest (by rw [hr, List.append_nil])) hcut hne
    obtain ⟨r', -, hrun⟩ := (follows_readAll _).fail hnone
    exact congrArg Prod.fst hrun
  · obtain ⟨r', hsame, hrun⟩ := inside_of_calls calls (.new buf)
    have hle := r'.pos_le
    change performAll calls ⟨buf, 0⟩ = r'.cursor at hrun
    rw [hsame] at hle
    rw [hrun]
    exact ⟨hsame, hle⟩

end Anymount.Nfs
