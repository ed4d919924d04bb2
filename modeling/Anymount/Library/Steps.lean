import Mathlib

/-!
# Runs of a transition function

A system is a partial step function: an event that is not possible in a state gives nothing.
What one step keeps, every run keeps.
-/
namespace Anymount.Library.Steps

variable {σ ε : Type} (step : σ → ε → Option σ)

/-- The state after the events, if each of them was possible. -/
def run : σ → List ε → Option σ
  | s, [] => some s
  | s, e :: es => (step s e).bind (run · es)

variable {step}

/-- An invariant of the steps holds after every run. -/
theorem run_keeps {I : σ → Prop} (hstep : ∀ s e s', I s → step s e = some s' → I s') {s s' : σ}
    {es : List ε} (hs : I s) (hrun : run step s es = some s') : I s' := by
  induction es generalizing s with
  | nil =>
    cases hrun
    exact hs
  | cons e es ih =>
    obtain ⟨s₁, hfirst, hrest⟩ := Option.bind_eq_some_iff.mp hrun
    exact ih (hstep s e s₁ hs hfirst) hrest

/-- Events that lower a rank, among events that never raise it, are no more than it. -/
theorem run_rank {I : σ → Prop} {rank : σ → Nat} {lowers : ε → Bool}
    (hkeep : ∀ s e s', I s → step s e = some s' → I s')
    (hrank : ∀ s e s', I s → step s e = some s' →
      rank s' + (if lowers e then 1 else 0) ≤ rank s) {s s' : σ} {es : List ε} (hs : I s)
    (hrun : run step s es = some s') : rank s' + es.countP lowers ≤ rank s := by
  induction es generalizing s with
  | nil =>
    cases hrun
    simp
  | cons e es ih =>
    obtain ⟨s₁, hfirst, hrest⟩ := Option.bind_eq_some_iff.mp hrun
    have hone := hrank s e s₁ hs hfirst
    have htail := ih (hkeep s e s₁ hs hfirst) hrest
    rw [List.countP_cons]
    omega

end Anymount.Library.Steps
