import Mathlib

/-!
# Programs that talk to an environment

A `Prog S α` is a finite tree of calls over a signature `S`. Each call node waits for
an answer and continues with it, so one tree describes the program's behaviour in every
environment at once: which call it makes next, and what it does with each answer.
Equality of trees is therefore a statement about all environments.

`run` plays a tree against a deterministic handler with private state. Since the state
type is arbitrary, quantifying over handlers is the same as quantifying over every
sequence of answers. `wp` is the matching proof rule for answers restricted by a
contract, and `Related` compares two programs that receive the same answers.
-/
namespace Anymount.Library

/-- The calls a program can make, and the type of the answer to each. -/
structure Signature where
  Call : Type
  Answer : Call → Type

/-- Calls of either signature. -/
def Signature.sum (S T : Signature) : Signature where
  Call := S.Call ⊕ T.Call
  Answer := Sum.elim S.Answer T.Answer

/-- A deterministic environment with private state `σ`. -/
def Handler (S : Signature) (σ : Type) := (c : S.Call) → σ → S.Answer c × σ

/-- Two environments side by side. -/
def Handler.sum {S T : Signature} {σ τ : Type} (h : Handler S σ) (k : Handler T τ) :
    Handler (S.sum T) (σ × τ)
  | .inl c, s => ((h c s.1).1, (h c s.1).2, s.2)
  | .inr c, s => ((k c s.2).1, s.1, (k c s.2).2)

/-- The environment of the first signature alone. -/
def Handler.left {S T : Signature} {σ : Type} (h : Handler (S.sum T) σ) : Handler S σ :=
  fun c s => h (.inl c) s

/-- Which answers an environment may give to which call. -/
abbrev Contract (S : Signature) := (c : S.Call) → S.Answer c → Prop

/-- Every answer the handler gives, in every state, obeys the contract. -/
def Handler.Meets {S : Signature} {σ : Type} (h : Handler S σ) (R : Contract S) : Prop :=
  ∀ c s, R c (h c s).1

/-- No restriction on the answers. -/
def anyAnswer (S : Signature) : Contract S := fun _ _ => True

theorem Handler.meets_anyAnswer {S : Signature} {σ : Type} (h : Handler S σ) :
    h.Meets (anyAnswer S) := fun _ _ => trivial

/-- The two ways a program stops without a value: a panic, or a loop that used up the
fuel it was given. -/
inductive Halt where
  | panic | fuel
  deriving DecidableEq, Repr

inductive Prog (S : Signature) (α : Type) where
  | ret (a : α)
  | halt (why : Halt)
  | call (c : S.Call) (next : S.Answer c → Prog S α)

namespace Prog

variable {S T : Signature} {α β γ δ σ : Type}

def bind : Prog S α → (α → Prog S β) → Prog S β
  | ret a, f => f a
  | halt why, _ => halt why
  | call c next, f => call c fun r => (next r).bind f

/-- One call, returning its answer. -/
def perform (c : S.Call) : Prog S (S.Answer c) := call c ret

instance : Monad (Prog S) where
  pure := ret
  bind := bind

@[simp] theorem pure_eq (a : α) : (pure a : Prog S α) = ret a := rfl
@[simp] theorem ret_bind (a : α) (f : α → Prog S β) : (ret a >>= f) = f a := rfl
@[simp] theorem halt_bind (why : Halt) (f : α → Prog S β) :
    ((halt why : Prog S α) >>= f) = halt why := rfl
@[simp] theorem call_bind (c : S.Call) (next : S.Answer c → Prog S α) (f : α → Prog S β) :
    (call c next >>= f) = call c fun r => next r >>= f := rfl
@[simp] theorem perform_bind (c : S.Call) (f : S.Answer c → Prog S β) :
    (perform c >>= f) = call c f := rfl

theorem bind_ret (p : Prog S α) : (p >>= ret) = p := by
  induction p with
  | ret a => rfl
  | halt why => rfl
  | call c next ih =>
    rw [call_bind]
    congr 1
    funext r
    exact ih r

theorem bind_assoc (p : Prog S α) (f : α → Prog S β) (g : β → Prog S γ) :
    (p >>= f) >>= g = p >>= fun a => f a >>= g := by
  induction p with
  | ret a => rfl
  | halt why => rfl
  | call c next ih =>
    simp only [call_bind]
    congr 1
    funext r
    exact ih r

instance : LawfulMonad (Prog S) :=
  LawfulMonad.mk' _ bind_ret (fun _ _ => rfl) bind_assoc

/-! ## Running against a handler -/

def run (h : Handler S σ) : Prog S α → σ → Except Halt α × σ
  | ret a, s => (.ok a, s)
  | halt why, s => (.error why, s)
  | call c next, s => (next (h c s).1).run h (h c s).2

/-- The calls made while running, in order. -/
def calls (h : Handler S σ) : Prog S α → σ → List S.Call
  | ret _, _ => []
  | halt _, _ => []
  | call c next, s => c :: (next (h c s).1).calls h (h c s).2

/-- The calls made while running, each with the answer it got. -/
def events (h : Handler S σ) : Prog S α → σ → List (Σ c, S.Answer c)
  | ret _, _ => []
  | halt _, _ => []
  | call c next, s => ⟨c, (h c s).1⟩ :: (next (h c s).1).events h (h c s).2

theorem run_bind (h : Handler S σ) (p : Prog S α) (f : α → Prog S β) (s : σ) :
    (p >>= f).run h s = match p.run h s with
      | (.ok a, s) => (f a).run h s
      | (.error why, s) => (.error why, s) := by
  induction p generalizing s with
  | ret a => rfl
  | halt why => rfl
  | call c next ih => exact ih _ _

theorem run_bind_of_ok {h : Handler S σ} {p : Prog S α} {s s' : σ} {a : α}
    (hp : p.run h s = (.ok a, s')) (f : α → Prog S β) : (p >>= f).run h s = (f a).run h s' := by
  rw [run_bind, hp]

theorem run_bind_ret (h : Handler S σ) (p : Prog S α) (f : α → β) (s : σ) :
    (p >>= fun a => ret (f a)).run h s = ((p.run h s).1.map f, (p.run h s).2) := by
  rw [run_bind]
  rcases p.run h s with ⟨_ | a, s⟩ <;> rfl

/-- Whether a program returns does not depend on a continuation that always does. -/
theorem returns_bind_iff {h : Handler S σ} {p : Prog S α} {f : α → Prog S β} {s : σ}
    (hf : ∀ a s, ∃ b, ((f a).run h s).1 = .ok b) :
    (∃ b, ((p >>= f).run h s).1 = .ok b) ↔ ∃ a, (p.run h s).1 = .ok a := by
  rw [run_bind]
  rcases p.run h s with ⟨why | a, s'⟩
  · refine ⟨?_, ?_⟩ <;> rintro ⟨_, ⟨⟩⟩
  · exact ⟨fun _ => ⟨a, rfl⟩, fun _ => hf a s'⟩

theorem calls_bind (h : Handler S σ) (p : Prog S α) (f : α → Prog S β) (s : σ) :
    (p >>= f).calls h s = p.calls h s ++ match p.run h s with
      | (.ok a, s) => (f a).calls h s
      | (.error _, _) => [] := by
  induction p generalizing s with
  | ret a => rfl
  | halt why => rfl
  | call c next ih => exact congrArg (c :: ·) (ih _ _)

theorem calls_bind_ret (h : Handler S σ) (p : Prog S α) (f : α → β) (s : σ) :
    (p >>= fun a => ret (f a)).calls h s = p.calls h s := by
  rw [calls_bind]
  rcases p.run h s with ⟨_ | a, s⟩ <;> exact List.append_nil _

theorem events_bind (h : Handler S σ) (p : Prog S α) (f : α → Prog S β) (s : σ) :
    (p >>= f).events h s = p.events h s ++ match p.run h s with
      | (.ok a, s) => (f a).events h s
      | (.error _, _) => [] := by
  induction p generalizing s with
  | ret a => rfl
  | halt why => rfl
  | call c next ih => exact congrArg (⟨c, (h c s).1⟩ :: ·) (ih _ _)

theorem events_bind_of_ok {h : Handler S σ} {p : Prog S α} {s s' : σ} {a : α}
    (hp : p.run h s = (.ok a, s')) (f : α → Prog S β) :
    (p >>= f).events h s = p.events h s ++ (f a).events h s' := by
  rw [events_bind, hp]

theorem events_bind_ret (h : Handler S σ) (p : Prog S α) (f : α → β) (s : σ) :
    (p >>= fun a => ret (f a)).events h s = p.events h s := by
  rw [events_bind]
  rcases p.run h s with ⟨_ | a, s⟩ <;> exact List.append_nil _

/-- Whatever is answered, the program makes only calls in `P`. -/
def Within (P : S.Call → Prop) : Prog S α → Prop
  | ret _ => True
  | halt _ => True
  | call c next => P c ∧ ∀ r, (next r).Within P

theorem Within.bind {P : S.Call → Prop} {p : Prog S α} {f : α → Prog S β} (hp : p.Within P)
    (hf : ∀ a, (f a).Within P) : (p >>= f).Within P := by
  induction p with
  | ret a => exact hf a
  | halt why => trivial
  | call c next ih => exact ⟨hp.1, fun r => ih r (hp.2 r)⟩

theorem Within.of_mem_events {P : S.Call → Prop} {p : Prog S α} (hp : p.Within P)
    {h : Handler S σ} {s : σ} {event : Σ c, S.Answer c} (hmem : event ∈ p.events h s) :
    P event.1 := by
  induction p generalizing s with
  | ret a => cases hmem
  | halt why => cases hmem
  | call c next ih =>
    rcases List.mem_cons.mp hmem with rfl | hmem
    · exact hp.1
    · exact ih _ (hp.2 _) hmem

/-! ## The weakest precondition -/

/-- Whatever the environment answers within `R`, the program either returns a value
satisfying `Q` or halts in a way `H` allows. -/
def wp (R : Contract S) (H : Halt → Prop) (Q : α → Prop) : Prog S α → Prop
  | ret a => Q a
  | halt why => H why
  | call c next => ∀ r, R c r → (next r).wp R H Q

/-- Total correctness: no halt is allowed. -/
abbrev Ensures (R : Contract S) (p : Prog S α) (Q : α → Prop) : Prop := p.wp R (fun _ => False) Q

/-- Partial correctness: the program may panic or run out of fuel. -/
abbrev Safe (R : Contract S) (p : Prog S α) (Q : α → Prop) : Prop := p.wp R (fun _ => True) Q

variable {R : Contract S} {H : Halt → Prop}

@[simp] theorem wp_ret (a : α) (Q : α → Prop) : (ret a : Prog S α).wp R H Q ↔ Q a := Iff.rfl
@[simp] theorem wp_halt (why : Halt) (Q : α → Prop) :
    (halt why : Prog S α).wp R H Q ↔ H why := Iff.rfl
@[simp] theorem wp_call (c : S.Call) (next : S.Answer c → Prog S α) (Q : α → Prop) :
    (call c next).wp R H Q ↔ ∀ r, R c r → (next r).wp R H Q := Iff.rfl

@[simp] theorem wp_bind (p : Prog S α) (f : α → Prog S β) (Q : β → Prop) :
    (p >>= f).wp R H Q ↔ p.wp R H fun a => (f a).wp R H Q := by
  induction p with
  | ret a => exact Iff.rfl
  | halt why => exact Iff.rfl
  | call c next ih => exact forall₂_congr fun r _ => ih r

theorem wp_mono {p : Prog S α} {Q Q' : α → Prop} (h : p.wp R H Q) (imp : ∀ a, Q a → Q' a) :
    p.wp R H Q' := by
  induction p with
  | ret a => exact imp a h
  | halt why => exact h
  | call c next ih => exact fun r hr => ih r (h r hr)

theorem wp_true (p : Prog S α) : p.Safe R fun _ => True := by
  induction p with
  | ret a => trivial
  | halt why => trivial
  | call c next ih => exact fun r _ => ih r

/-- Postconditions proved one by one hold together. -/
theorem wp_forall {ι : Sort*} [Nonempty ι] {p : Prog S α} {Q : ι → α → Prop}
    (h : ∀ i, p.wp R H (Q i)) : p.wp R H fun a => ∀ i, Q i a := by
  induction p with
  | ret a => exact h
  | halt why => exact h (Classical.arbitrary ι)
  | call c next ih => exact fun r hr => ih r fun i => h i r hr

/-- A program proved for every answer stays correct when the answers are restricted. -/
theorem wp_contract {R' : Contract S} {p : Prog S α} {Q : α → Prop} (h : p.wp R H Q)
    (imp : ∀ c r, R' c r → R c r) : p.wp R' H Q := by
  induction p with
  | ret a => exact h
  | halt why => exact h
  | call c next ih => exact fun r hr => ih r (h r (imp c r hr))

/-- A proved program keeps its promise in every run whose answers obey the contract. -/
theorem wp_events {p : Prog S α} {Q : α → Prop} (proof : p.wp R H Q) {h : Handler S σ} {s : σ}
    (obeys : ∀ event ∈ p.events h s, R event.1 event.2) :
    (∃ a, (p.run h s).1 = .ok a ∧ Q a) ∨ ∃ why, (p.run h s).1 = .error why ∧ H why := by
  induction p generalizing s with
  | ret a => exact .inl ⟨a, rfl, proof⟩
  | halt why => exact .inr ⟨why, rfl, proof⟩
  | call c next ih =>
    obtain ⟨hhead, htail⟩ := List.forall_mem_cons.mp obeys
    exact ih _ (proof _ hhead) htail

theorem meets_events {h : Handler S σ} (meets : h.Meets R) (p : Prog S α) (s : σ) :
    ∀ event ∈ p.events h s, R event.1 event.2 := by
  induction p generalizing s with
  | ret a => nofun
  | halt why => nofun
  | call c next ih => exact List.forall_mem_cons.mpr ⟨meets c s, ih _ _⟩

/-- A proved program keeps its promise against every handler that meets the contract. -/
theorem wp_run {p : Prog S α} {Q : α → Prop} (proof : p.wp R H Q) {h : Handler S σ}
    (meets : h.Meets R) (s : σ) :
    (∃ a, (p.run h s).1 = .ok a ∧ Q a) ∨ ∃ why, (p.run h s).1 = .error why ∧ H why :=
  wp_events proof (meets_events meets p s)

theorem Ensures.run {p : Prog S α} {Q : α → Prop} (proof : p.Ensures R Q) {h : Handler S σ}
    (meets : h.Meets R) (s : σ) : ∃ a, (p.run h s).1 = .ok a ∧ Q a := by
  rcases wp_run proof meets s with returned | ⟨_, _, impossible⟩
  · exact returned
  · exact impossible.elim

theorem Safe.run {p : Prog S α} {Q : α → Prop} (proof : p.Safe R Q) {h : Handler S σ}
    (meets : h.Meets R) {s : σ} {a : α} (returned : (p.run h s).1 = .ok a) : Q a := by
  rcases wp_run proof meets s with ⟨b, hb, hQ⟩ | ⟨_, he, _⟩
  · rw [returned] at hb
    cases hb
    exact hQ
  · rw [returned] at he
    cases he

/-! ## Programs over one side of a sum -/

/-- The same program, offered to an environment that knows more calls. -/
def inl : Prog S α → Prog (S.sum T) α
  | ret a => ret a
  | halt why => halt why
  | call c next => call (S := S.sum T) (Sum.inl c) fun r => (next r).inl

@[simp] theorem inl_ret (a : α) : (ret a : Prog S α).inl (T := T) = ret a := rfl

@[simp] theorem inl_bind (p : Prog S α) (f : α → Prog S β) :
    (p >>= f).inl (T := T) = p.inl >>= fun a => (f a).inl := by
  induction p with
  | ret a => rfl
  | halt why => rfl
  | call c next ih =>
    simp only [call_bind, inl]
    congr 1
    funext r
    exact ih r

theorem wp_inl {R : Contract (S.sum T)} (p : Prog S α) (Q : α → Prop) :
    (p.inl (T := T)).wp R H Q ↔ p.wp (fun c r => R (.inl c) r) H Q := by
  induction p with
  | ret a => exact Iff.rfl
  | halt why => exact Iff.rfl
  | call c next ih => exact forall₂_congr fun r _ => ih r

/-- The same program, offered to an environment that knows more calls. -/
def inr : Prog T α → Prog (S.sum T) α
  | ret a => ret a
  | halt why => halt why
  | call c next => call (S := S.sum T) (Sum.inr c) fun r => (next r).inr

variable {τ : Type} (h : Handler S σ) (k : Handler T τ)

/-- One side of a sum leaves the other side's environment alone. -/
theorem run_inl (p : Prog S α) (s : σ) (t : τ) :
    (p.inl (T := T)).run (h.sum k) (s, t) = ((p.run h s).1, (p.run h s).2, t) := by
  induction p generalizing s with
  | ret a => rfl
  | halt why => rfl
  | call c next ih => exact ih _ _

theorem events_inl (p : Prog S α) (s : σ) (t : τ) :
    (p.inl (T := T)).events (h.sum k) (s, t) =
      (p.events h s).map fun event => ⟨.inl event.1, event.2⟩ := by
  induction p generalizing s with
  | ret a => rfl
  | halt why => rfl
  | call c next ih => exact congrArg (⟨.inl c, (h c s).1⟩ :: ·) (ih _ _)

/-- A program over one side never notices the other. -/
theorem run_inl_left (env : Handler (S.sum T) σ) (p : Prog S α) (s : σ) :
    (p.inl (T := T)).run env s = p.run env.left s := by
  induction p generalizing s with
  | ret a => rfl
  | halt why => rfl
  | call c next ih => exact ih _ _

theorem run_inr (p : Prog T α) (s : σ) (t : τ) :
    (p.inr (S := S)).run (h.sum k) (s, t) = ((p.run k t).1, s, (p.run k t).2) := by
  induction p generalizing t with
  | ret a => rfl
  | halt why => rfl
  | call c next ih => exact ih _ _

theorem calls_inr (p : Prog T α) (s : σ) (t : τ) :
    (p.inr (S := S)).calls (h.sum k) (s, t) = (p.calls k t).map Sum.inr := by
  induction p generalizing t with
  | ret a => rfl
  | halt why => rfl
  | call c next ih => exact congrArg (Sum.inr c :: ·) (ih _ _)

/-! ## Two programs in the same environment -/

/-- The two programs make the same calls, and given the same answers they return
`Q`-related values or halt for the same reason. -/
inductive Related (Q : α → β → Prop) : Prog S α → Prog S β → Prop where
  | ret {a : α} {b : β} : Q a b → Related Q (ret a) (ret b)
  | halt (why : Halt) : Related Q (halt why) (halt why)
  | call (c : S.Call) {p : S.Answer c → Prog S α} {q : S.Answer c → Prog S β} :
      (∀ r, Related Q (p r) (q r)) → Related Q (call c p) (call c q)

theorem Related.bind {Q : α → β → Prop} {Q' : γ → δ → Prop} {p : Prog S α} {q : Prog S β}
    (h : Related Q p q) {f : α → Prog S γ} {g : β → Prog S δ}
    (hfg : ∀ a b, Q a b → Related Q' (f a) (g b)) : Related Q' (p >>= f) (q >>= g) := by
  induction h with
  | ret hab => exact hfg _ _ hab
  | halt why => exact .halt why
  | call c _ ih => exact .call c ih

theorem Related.refl {Q : α → α → Prop} (p : Prog S α) (h : ∀ a, Q a a) : Related Q p p := by
  induction p with
  | ret a => exact .ret (h a)
  | halt why => exact .halt why
  | call c next ih => exact .call c ih

theorem Related.inl {Q : α → β → Prop} {p : Prog S α} {q : Prog S β} (h : Related Q p q) :
    Related Q (p.inl (T := T)) (q.inl (T := T)) := by
  induction h with
  | ret hab => exact .ret hab
  | halt why => exact .halt why
  | call c _ ih => exact .call (S := S.sum T) (Sum.inl c) ih

/-- Programs that go on alike from related results are equal as a whole. -/
theorem Related.bind_eq {Q : α → β → Prop} {p : Prog S α} {q : Prog S β} (h : Related Q p q)
    {f : α → Prog S γ} {g : β → Prog S γ} (hfg : ∀ a b, Q a b → f a = g b) :
    (p >>= f) = q >>= g := by
  induction h with
  | ret hab => exact hfg _ _ hab
  | halt why => rfl
  | call c _ ih => exact congrArg (Prog.call c) (funext ih)

/-- Related programs leave every handler in the same state, after the same calls. -/
theorem Related.run {Q : α → β → Prop} {p : Prog S α} {q : Prog S β} (rel : Related Q p q)
    (h : Handler S σ) (s : σ) :
    p.calls h s = q.calls h s ∧ (p.run h s).2 = (q.run h s).2 ∧
      ((∃ a b, (p.run h s).1 = .ok a ∧ (q.run h s).1 = .ok b ∧ Q a b) ∨
        ∃ why, (p.run h s).1 = .error why ∧ (q.run h s).1 = .error why) := by
  induction rel generalizing s with
  | ret hab => exact ⟨rfl, rfl, .inl ⟨_, _, rfl, rfl, hab⟩⟩
  | halt why => exact ⟨rfl, rfl, .inr ⟨why, rfl, rfl⟩⟩
  | call c _ ih =>
    obtain ⟨trace, rest⟩ := ih (h c s).1 (h c s).2
    exact ⟨congrArg (c :: ·) trace, rest⟩

end Prog

end Anymount.Library
