import Mathlib

/-!
# Parsers over token lists

A parser consumes a front part of the input or fails. `Yields p ts a` says that `p`
recognizes exactly `ts` at the front of any input and returns `a`, leaving the rest
untouched. It composes along `>>=`, so the layout of a message is proved field by field
in the order the fields are written.
-/
namespace Anymount.Library

abbrev Parser (τ α : Type) := StateT (List τ) Option α

namespace Parser

variable {τ α β : Type}

/-- `p` recognizes exactly the tokens `ts`, whatever follows them. -/
def Yields (p : Parser τ α) (ts : List τ) (a : α) : Prop :=
  ∀ rest, p.run (ts ++ rest) = some (a, rest)

theorem Yields.pure (a : α) : Yields (pure a : Parser τ α) [] a := fun _ => rfl

theorem Yields.bind {p : Parser τ α} {f : α → Parser τ β} {ts us : List τ} {a : α} {b : β}
    (hp : Yields p ts a) (hf : Yields (f a) us b) : Yields (p >>= f) (ts ++ us) b := by
  intro rest
  rw [List.append_assoc, StateT.run_bind, hp (us ++ rest)]
  exact hf rest

/-- The last step of a parser that only puts its results together. -/
theorem Yields.bind_pure {p : Parser τ α} {ts : List τ} {a : α} (hp : Yields p ts a) (f : α → β) :
    Yields (p >>= fun a => Pure.pure (f a)) ts (f a) := by
  intro rest
  rw [StateT.run_bind, hp rest]
  rfl

/-- A recognized message with nothing after it is parsed completely. -/
theorem Yields.run_eq {p : Parser τ α} {ts : List τ} {a : α} (hp : Yields p ts a) :
    p.run ts = some (a, []) := by
  simpa using hp []

/-- The next `n` tokens. -/
def take (n : Nat) : Parser τ (List τ) := fun ts =>
  if n ≤ ts.length then some (ts.take n, ts.drop n) else none

theorem yields_take (ts : List τ) : Yields (take ts.length) ts ts := by
  intro rest
  simp [take, StateT.run]

theorem yields_take_of_length {ts : List τ} {n : Nat} (h : ts.length = n) :
    Yields (take n) ts ts := h ▸ yields_take ts

/-- Succeed without consuming anything only if `b` holds. -/
def check (b : Bool) : Parser τ Unit := fun ts => if b then some ((), ts) else none

theorem Yields.of_check {b : Bool} (h : b = true) {p : Parser τ α} {ts : List τ} {a : α}
    (hp : Yields p ts a) : Yields (check b >>= fun _ => p) ts a := by
  subst h
  intro rest
  exact hp rest

/-- The number of tokens not yet consumed. -/
def remaining : Parser τ Nat := fun ts => some (ts.length, ts)

/-- A linked list on the wire: before each element stands a flag saying that one follows.
The fuel bounds the number of elements. -/
def linked (more : Parser τ Bool) (item : Parser τ α) : Nat → Parser τ (List α)
  | 0 => fun _ => none
  | fuel + 1 => do
    if ← more then
      let a ← item
      let as ← linked more item fuel
      pure (a :: as)
    else
      pure []

theorem yields_linked {more : Parser τ Bool} {item : Parser τ α} {yes no : List τ}
    (hyes : Yields more yes true) (hno : Yields more no false) {elements : List (List τ × α)}
    (hitem : ∀ e ∈ elements, Yields item e.1 e.2) {fuel : Nat} (hfuel : elements.length < fuel) :
    Yields (linked more item fuel) ((elements.map fun e => yes ++ e.1).flatten ++ no)
      (elements.map Prod.snd) := by
  induction elements generalizing fuel with
  | nil =>
    obtain ⟨fuel, rfl⟩ : ∃ n, fuel = n + 1 := ⟨fuel - 1, by simp at hfuel; omega⟩
    intro rest
    simp [linked, hno rest]
  | cons e elements ih =>
    obtain ⟨fuel, rfl⟩ : ∃ n, fuel = n + 1 := ⟨fuel - 1, by simp at hfuel; omega⟩
    have hhead := hitem e List.mem_cons_self
    have hrest := ih (fun e he => hitem e (List.mem_cons_of_mem _ he))
      (show elements.length < fuel by simp at hfuel; omega)
    intro rest
    have htail := hrest rest
    simp only [List.append_assoc] at htail
    simp [linked, hyes _, hhead _, htail]

/-- `n` elements in a row. -/
def count (item : Parser τ α) : Nat → Parser τ (List α)
  | 0 => pure []
  | n + 1 => do
    let a ← item
    let as ← count item n
    pure (a :: as)

theorem yields_count {item : Parser τ α} {enc : β → List τ} {f : β → α} {vs : List β}
    (h : ∀ v ∈ vs, Yields item (enc v) (f v)) :
    Yields (count item vs.length) (vs.map enc).flatten (vs.map f) := by
  induction vs with
  | nil => exact Yields.pure []
  | cons v vs ih =>
    obtain ⟨hhead, htail⟩ := List.forall_mem_cons.mp h
    exact hhead.bind ((ih htail).bind_pure fun as => f v :: as)

/-- A field for each selected key, in the order of the keys. -/
def fields {κ : Type} (selected : κ → Bool) (field : κ → Parser τ α) :
    List κ → Parser τ (List (κ × α))
  | [] => pure []
  | k :: ks =>
    if selected k then do
      let a ← field k
      let as ← fields selected field ks
      pure ((k, a) :: as)
    else fields selected field ks

theorem yields_fields {κ : Type} {selected : κ → Bool} {field : κ → Parser τ α} {enc : α → List τ}
    {keys : List κ} {vs : List (κ × α)} (hkeys : keys.filter selected = vs.map Prod.fst)
    (h : ∀ v ∈ vs, Yields (field v.1) (enc v.2) v.2) :
    Yields (fields selected field keys) (vs.map fun v => enc v.2).flatten vs := by
  induction keys generalizing vs with
  | nil =>
    obtain rfl := List.map_eq_nil_iff.mp hkeys.symm
    exact Yields.pure []
  | cons k keys ih =>
    by_cases hk : selected k = true
    · rw [List.filter_cons_of_pos hk] at hkeys
      cases vs with
      | nil => cases hkeys
      | cons v vs =>
        obtain ⟨rfl, hrest⟩ := List.cons.inj hkeys
        obtain ⟨hhead, htail⟩ := List.forall_mem_cons.mp h
        rw [fields, if_pos hk]
        exact hhead.bind ((ih hrest htail).bind_pure fun as => v :: as)
    · rw [List.filter_cons_of_neg hk] at hkeys
      rw [fields, if_neg hk]
      exact ih hkeys h

/-- Also report how many tokens were consumed. -/
def measured (p : Parser τ α) : Parser τ (α × Nat) := do
  let before ← remaining
  let a ← p
  let after ← remaining
  pure (a, before - after)

theorem Yields.measured {p : Parser τ α} {ts : List τ} {a : α} (hp : Yields p ts a) :
    Yields (measured p) ts (a, ts.length) := by
  intro rest
  have hcount : (ts ++ rest).length - rest.length = ts.length := by
    rw [List.length_append, Nat.add_sub_cancel]
  have hremaining : ∀ ts : List τ, (remaining : Parser τ Nat).run ts = some (ts.length, ts) :=
    fun _ => rfl
  rw [← hcount]
  simp [Parser.measured, hremaining, hp rest]

end Parser

end Anymount.Library
