import Mathlib

/-!
# Resuming a keyed listing

A listing whose elements carry increasing keys can be served in pieces: after a piece has
been delivered, the next one starts behind the key of its last element.
-/
namespace Anymount.Library.Listing

variable {α κ : Type} [LinearOrder κ] {key : α → κ}

/-- The elements behind a key. -/
def after (key : α → κ) (c : κ) (full : List α) : List α := full.filter fun a => c < key a

/-- Where to resume: behind the last delivered element, or where we were without one. -/
def resume (key : α → κ) (c : κ) (got : List α) : κ := (got.getLast?.map key).getD c

/-- Behind a delivered piece lies exactly what the listing had after that piece. -/
theorem after_resume {full got rest : List α} {c : κ} (sorted : full.Pairwise (key · < key ·))
    (h : after key c full = got ++ rest) : after key (resume key c got) full = rest := by
  rcases List.eq_nil_or_concat got with rfl | ⟨got, last, rfl⟩
  · simpa [resume] using h
  · have hresume : resume key c (got.concat last) = key last := by simp [resume]
    have hsorted : (got.concat last ++ rest).Pairwise (key · < key ·) := h ▸ sorted.filter _
    have hlast : c < key last := by
      have : last ∈ after key c full := by simp [h]
      simpa [after] using (List.mem_filter.mp this).2
    have hnarrow : after key (key last) full = after key (key last) (after key c full) := by
      simp only [after, List.filter_filter]
      refine List.filter_congr fun a _ => ?_
      by_cases ha : key last < key a
      · simp [ha, hlast.trans ha]
      · simp [ha]
    rw [List.pairwise_append] at hsorted
    obtain ⟨hgot, -, hcross⟩ := hsorted
    have hbefore : after key (key last) (got.concat last) = [] := by
      refine List.filter_eq_nil_iff.mpr fun a ha => ?_
      simp only [List.concat_eq_append, List.mem_append, List.mem_singleton] at ha
      rcases ha with ha | rfl
      · have hlt := (List.pairwise_append.mp (by simpa using hgot)).2.2 a ha last (by simp)
        simpa using hlt.le
      · simp
    have hbehind : after key (key last) rest = rest := by
      refine List.filter_eq_self.mpr fun a ha => ?_
      simpa using hcross last (by simp) a ha
    rw [hresume, hnarrow, h]
    simp only [after] at hbefore hbehind ⊢
    rw [List.filter_append, hbefore, hbehind, List.nil_append]

/-! ## Packing into a budget -/

/-- The sizes of a list added up. -/
def total (size : α → Nat) (xs : List α) : Nat := (xs.map size).sum

@[simp] theorem total_nil (size : α → Nat) : total size [] = 0 := rfl

@[simp] theorem total_append (size : α → Nat) (xs ys : List α) :
    total size (xs ++ ys) = total size xs + total size ys := by simp [total]

@[simp] theorem total_singleton (size : α → Nat) (x : α) : total size [x] = size x := by
  simp [total]

theorem total_mono (size : α → Nat) {xs ys : List α} (h : xs <+: ys) :
    total size xs ≤ total size ys := by
  obtain ⟨rest, rfl⟩ := h
  rw [total_append]
  exact Nat.le_add_right _ _

/-- `packed` is the longest prefix of `xs` whose sizes add up to at most `budget`. -/
structure LongestWithin (size : α → Nat) (budget : Nat) (xs packed : List α) : Prop where
  front : packed <+: xs
  fits : total size packed ≤ budget
  longest : ∀ other, other <+: xs → total size other ≤ budget → other.length ≤ packed.length

/-- Everything fits. -/
theorem LongestWithin.all {size : α → Nat} {budget : Nat} {xs : List α}
    (h : total size xs ≤ budget) : LongestWithin size budget xs xs :=
  ⟨List.prefix_refl _, h, fun _ hother _ => hother.length_le⟩

/-- Packing stopped at the first element that did not fit. -/
theorem LongestWithin.stopped {size : α → Nat} {budget : Nat} {packed : List α} {x : α}
    (rest : List α) (hfits : total size packed ≤ budget)
    (hover : budget < total size packed + size x) :
    LongestWithin size budget (packed ++ x :: rest) packed := by
  refine ⟨List.prefix_append _ _, hfits, fun other hother hle => ?_⟩
  by_contra hlonger
  have hnext : packed ++ [x] <+: packed ++ x :: rest := by simp
  have htaken : packed ++ [x] <+: other :=
    List.prefix_of_prefix_length_le hnext hother (by rw [List.length_append]; simp; omega)
  have := total_mono size htaken
  rw [total_append, total_singleton] at this
  omega

/-! ## What succeeded -/

section Survivors

variable {α β γ δ ε : Type}

/-- Each element was answered, and those with a value are represented, in order. -/
inductive Survivors (R : α → β → γ → Prop) : List α → List (Except ε β) → List γ → Prop where
  | nil : Survivors R [] [] []
  | kept {a : α} {b : β} {c : γ} {as : List α} {rs : List (Except ε β)} {cs : List γ}
      (here : R a b c) (rest : Survivors R as rs cs) : Survivors R (a :: as) (.ok b :: rs) (c :: cs)
  | dropped {a : α} {e : ε} {as : List α} {rs : List (Except ε β)} {cs : List γ}
      (rest : Survivors R as rs cs) : Survivors R (a :: as) (.error e :: rs) cs

theorem Survivors.length_le {R : α → β → γ → Prop} {as : List α} {rs : List (Except ε β)}
    {cs : List γ} (h : Survivors R as rs cs) : cs.length ≤ as.length := by
  induction h with
  | nil => rfl
  | kept _ _ ih => exact Nat.succ_le_succ ih
  | dropped _ ih => exact Nat.le_succ_of_le ih

/-- Representing each survivor further, with an operation that never fails on them. -/
theorem Survivors.mapM {m : Type → Type} [Monad m] [LawfulMonad m] {R : α → β → γ → Prop}
    {Q : α → β → δ → Prop} {f : γ → m δ} (hf : ∀ a b c, R a b c → ∃ d, f c = pure d ∧ Q a b d)
    {as : List α} {rs : List (Except ε β)} {cs : List γ} (h : Survivors R as rs cs) :
    ∃ ds, cs.mapM f = pure ds ∧ Survivors Q as rs ds := by
  induction h with
  | nil => exact ⟨[], List.mapM_nil, .nil⟩
  | kept here _ ih =>
    obtain ⟨d, hd, hQ⟩ := hf _ _ _ here
    obtain ⟨ds, hds, hrest⟩ := ih
    refine ⟨d :: ds, ?_, .kept hQ hrest⟩
    rw [List.mapM_cons, hd, pure_bind, hds, pure_bind]
  | dropped _ ih =>
    obtain ⟨ds, hds, hrest⟩ := ih
    exact ⟨ds, hds, .dropped hrest⟩

end Survivors

end Anymount.Library.Listing
