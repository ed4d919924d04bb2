import Anymount.Library.Interaction

/-!
# Programs running side by side

Any number of programs run in one environment, interleaved call by call. A monitor watches
the calls of one program and the answers to them. If every program obeys the monitor on its
own, then in every interleaving the history of each of them is one that the monitor accepts
(`reachable_obeys`): what has to be shown of a single program is sequential.
-/
namespace Anymount.Library.Interleave

/-- A call that was answered, and which program had made it. -/
structure Event (S : Signature) where
  who : Nat
  call : S.Call
  answer : S.Answer call

/-- The programs that were started, as far as they have come, and everything that happened. -/
structure World (S : Signature) (α : Type) where
  jobs : List (Prog S α)
  log : List (Event S)

variable {S : Signature} {α β Φ : Type}

/-- What happened to one program. -/
def own (i : Nat) (log : List (Event S)) : List (Event S) := log.filter fun e => e.who = i

/-- A program that may start does so, or a program gets an answer to the call it is waiting
at. What may be answered can depend on everything that happened. -/
inductive Step (start : Prog S α → Prop)
    (allowed : List (Event S) → (c : S.Call) → S.Answer c → Prop) :
    World S α → World S α → Prop where
  | start {w : World S α} {p : Prog S α} : start p → Step start allowed w ⟨w.jobs ++ [p], w.log⟩
  | answer {w : World S α} {i : Nat} {c : S.Call} {next : S.Answer c → Prog S α} {r : S.Answer c} :
      w.jobs[i]? = some (.call c next) → allowed w.log c r →
      Step start allowed w ⟨w.jobs.set i (next r), w.log ++ [⟨i, c, r⟩]⟩

/-- What can come about when nothing is running at first. -/
inductive Reachable (start : Prog S α → Prop)
    (allowed : List (Event S) → (c : S.Call) → S.Answer c → Prop) : World S α → Prop where
  | init : Reachable start allowed ⟨[], []⟩
  | step {w w' : World S α} :
      Reachable start allowed w → Step start allowed w w' → Reachable start allowed w'

/-- What can come about from these programs, each started at some point, in this order: the
`i`-th job is what is left of the `i`-th program. -/
inductive RunOf (allowed : List (Event S) → (c : S.Call) → S.Answer c → Prop) :
    List (Prog S α) → World S α → Prop where
  | init : RunOf allowed [] ⟨[], []⟩
  | start {ps : List (Prog S α)} {w : World S α} (p : Prog S α) :
      RunOf allowed ps w → RunOf allowed (ps ++ [p]) ⟨w.jobs ++ [p], w.log⟩
  | answer {ps : List (Prog S α)} {w : World S α} {i : Nat} {c : S.Call}
      {next : S.Answer c → Prog S α} {r : S.Answer c} :
      RunOf allowed ps w → w.jobs[i]? = some (.call c next) → allowed w.log c r →
      RunOf allowed ps ⟨w.jobs.set i (next r), w.log ++ [⟨i, c, r⟩]⟩

/-- A program that has returned or panicked has ended; one that loops never does. -/
def InProgress : Prog S α → Prop
  | .ret _ => False
  | .halt .panic => False
  | _ => True

/-! ## Monitors -/

/-- A state machine over calls and answers; `none` where it objects. -/
abbrev Monitor (S : Signature) (Φ : Type) := Φ → (c : S.Call) → S.Answer c → Option Φ

/-- The new state of a monitor, unless it objects. -/
def allow (P : Prop) [Decidable P] (φ : Φ) : Option Φ := if P then some φ else none

theorem allow_eq {P : Prop} [Decidable P] (hP : P) (φ : Φ) : allow P φ = some φ := if_pos hP

/-- Where a history leads. -/
def Monitor.run (M : Monitor S Φ) : Φ → List (Event S) → Option Φ
  | φ, [] => some φ
  | φ, e :: es => (M φ e.call e.answer).bind (M.run · es)

theorem Monitor.run_append (M : Monitor S Φ) (φ : Φ) (es es' : List (Event S)) :
    M.run φ (es ++ es') = (M.run φ es).bind (M.run · es') := by
  induction es generalizing φ with
  | nil => rfl
  | cons e es ih =>
    rw [List.cons_append, Monitor.run, Monitor.run]
    cases M φ e.call e.answer with
    | none => rfl
    | some φ => exact ih φ

/-- Whatever is answered, the monitor follows the program, which returns only where `Q` holds
and halts only as `H` allows. -/
def Obeys (M : Monitor S Φ) (H : Halt → Prop) (Q : Φ → α → Prop) : Φ → Prog S α → Prop
  | φ, .ret a => Q φ a
  | _, .halt why => H why
  | φ, .call c next => ∀ r, ∃ φ', M φ c r = some φ' ∧ Obeys M H Q φ' (next r)

section Obeys

variable {M : Monitor S Φ} {H : Halt → Prop} {Q : Φ → β → Prop} {φ : Φ}

theorem obeys_bind (p : Prog S α) (f : α → Prog S β) :
    Obeys M H Q φ (p >>= f) ↔ Obeys M H (fun φ a => Obeys M H Q φ (f a)) φ p := by
  induction p generalizing φ with
  | ret a => exact Iff.rfl
  | halt why => exact Iff.rfl
  | call c next ih =>
    exact forall_congr' fun r => exists_congr fun φ' => and_congr_right fun _ => ih r

theorem obeys_mono {Q Q' : Φ → α → Prop} {p : Prog S α} (h : Obeys M H Q φ p)
    (imp : ∀ φ a, Q φ a → Q' φ a) : Obeys M H Q' φ p := by
  induction p generalizing φ with
  | ret a => exact imp φ a h
  | halt why => exact h
  | call c next ih =>
    intro r
    obtain ⟨φ', hφ', hnext⟩ := h r
    exact ⟨φ', hφ', ih r hnext⟩

end Obeys

section Sum

variable {T : Signature} {M : Monitor (S.sum T) Φ} {H : Halt → Prop} {Q : Φ → α → Prop} {φ : Φ}

/-- A monitor of two signatures, as a program over one of them sees it. -/
def Monitor.left (M : Monitor (S.sum T) Φ) : Monitor S Φ := fun φ c r => M φ (.inl c) r

def Monitor.right (M : Monitor (S.sum T) Φ) : Monitor T Φ := fun φ c r => M φ (.inr c) r

theorem obeys_inl (p : Prog S α) :
    Obeys M H Q φ (p.inl (T := T)) ↔ Obeys M.left H Q φ p := by
  induction p generalizing φ with
  | ret a => exact Iff.rfl
  | halt why => exact Iff.rfl
  | call c next ih =>
    exact forall_congr' fun r => exists_congr fun φ' => and_congr_right fun _ => ih r

theorem obeys_inr (p : Prog T α) :
    Obeys M H Q φ (p.inr (S := S)) ↔ Obeys M.right H Q φ p := by
  induction p generalizing φ with
  | ret a => exact Iff.rfl
  | halt why => exact Iff.rfl
  | call c next ih =>
    exact forall_congr' fun r => exists_congr fun φ' => and_congr_right fun _ => ih r

end Sum

/-! ## Interleavings -/

section Reachable

variable {start : Prog S α → Prop}
  {allowed : List (Event S) → (c : S.Call) → S.Answer c → Prop} {w : World S α}

theorem own_append (i : Nat) (es es' : List (Event S)) :
    own i (es ++ es') = own i es ++ own i es' :=
  List.filter_append ..

@[simp] theorem own_single (i : Nat) (c : S.Call) (r : S.Answer c) :
    own i [(⟨i, c, r⟩ : Event S)] = [⟨i, c, r⟩] := by
  simp [own]

theorem own_single_of_ne {i j : Nat} (h : i ≠ j) (c : S.Call) (r : S.Answer c) :
    own j [(⟨i, c, r⟩ : Event S)] = [] := by
  simp [own, h]

/-- Everything that happened was done by a program that was started. -/
theorem who_lt (h : Reachable start allowed w) : ∀ e ∈ w.log, e.who < w.jobs.length := by
  induction h with
  | init => nofun
  | step _ hstep ih =>
    cases hstep with
    | start hp =>
      intro e he
      rw [List.length_append]
      exact Nat.lt_add_right _ (ih e he)
    | answer hjob _ =>
      intro e he
      rw [List.length_set]
      rcases List.mem_append.mp he with he | he
      · exact ih e he
      · obtain rfl := List.mem_singleton.mp he
        exact (List.getElem?_eq_some_iff.mp hjob).1

/-- Whatever is reachable is a run of the programs that were started. -/
theorem Reachable.runOf (h : Reachable start allowed w) :
    ∃ ps, (∀ p ∈ ps, start p) ∧ RunOf allowed ps w := by
  induction h with
  | init => exact ⟨[], nofun, .init⟩
  | step _ hstep ih =>
    obtain ⟨ps, hps, hw⟩ := ih
    cases hstep with
    | @start p hp =>
      refine ⟨ps ++ [p], fun q hq => ?_, hw.start p⟩
      rcases List.mem_append.mp hq with hq | hq
      · exact hps q hq
      · rw [List.mem_singleton.mp hq]
        exact hp
    | answer hjob hr => exact ⟨ps, hps, hw.answer hjob hr⟩

theorem RunOf.reachable {ps : List (Prog S α)} (h : RunOf allowed ps w) (hps : ∀ p ∈ ps, start p) :
    Reachable start allowed w := by
  induction h with
  | init => exact .init
  | start p _ ih =>
    have hbefore := ih fun q hq => hps q (List.mem_append_left _ hq)
    exact hbefore.step (.start (hps p (by simp)))
  | answer _ hjob hr ih => exact (ih hps).step (.answer hjob hr)

theorem RunOf.length_eq {ps : List (Prog S α)} (h : RunOf allowed ps w) :
    ps.length = w.jobs.length := by
  induction h with
  | init => rfl
  | start p _ ih => rw [List.length_append, List.length_append, ih]
  | answer _ _ _ ih => rw [List.length_set, ih]

theorem getElem?_map_of_eq {γ δ : Type} {f : γ → δ} {xs : List γ} {i : Nat} {x : γ}
    (h : xs[i]? = some x) : (xs.map f)[i]? = some (f x) := by
  rw [List.getElem?_map, h, Option.map_some]

theorem exists_getElem?_of_length_eq {γ δ : Type} {xs : List γ} {ys : List δ}
    (h : xs.length = ys.length) {i : Nat} {y : δ} (hy : ys[i]? = some y) :
    ∃ x, xs[i]? = some x := by
  have hlt := (List.getElem?_eq_some_iff.mp hy).1
  rw [← h] at hlt
  exact ⟨_, List.getElem?_eq_getElem hlt⟩

/-- A run may be held against other restrictions after the fact. -/
theorem RunOf.of_log {allowed' : List (Event S) → (c : S.Call) → S.Answer c → Prop}
    {ps : List (Prog S α)} (h : RunOf allowed ps w)
    (hlog : ∀ before e after, w.log = before ++ e :: after → allowed' before e.call e.answer) :
    RunOf allowed' ps w := by
  induction h with
  | init => exact .init
  | start p _ ih => exact (ih hlog).start p
  | @answer ps w i c next r _ hjob _ ih =>
    refine (ih ?_).answer hjob (hlog w.log ⟨i, c, r⟩ [] rfl)
    intro before e after hsplit
    refine hlog before e (after ++ [⟨i, c, r⟩]) ?_
    show w.log ++ _ = _
    rw [hsplit, List.append_assoc, List.cons_append]

/-- A property of the log that every allowed answer keeps. -/
theorem reachable_log {J : List (Event S) → Prop} (hinit : J [])
    (hkeep : ∀ log i c r, J log → allowed log c r → J (log ++ [⟨i, c, r⟩]))
    (h : Reachable start allowed w) : J w.log := by
  induction h with
  | init => exact hinit
  | step _ hstep ih =>
    cases hstep with
    | start _ => exact ih
    | answer _ hr => exact hkeep _ _ _ _ ih hr

/-- What relates a program that starts to the empty history, and is kept by every answer,
relates what is left of each program to what happened to it. -/
theorem reachable_own {J : List (Event S) → Prog S α → Prop} (hstart : ∀ p, start p → J [] p)
    (hkeep : ∀ es i c (next : S.Answer c → Prog S α) r, J es (.call c next) →
      J (es ++ [⟨i, c, r⟩]) (next r))
    (h : Reachable start allowed w) : ∀ i p, w.jobs[i]? = some p → J (own i w.log) p := by
  induction h with
  | init => nofun
  | @step w w' hw hstep ih =>
    cases hstep with
    | @start p hp =>
      intro i q hq
      rcases lt_trichotomy i w.jobs.length with hlt | rfl | hgt
      · rw [List.getElem?_append_left hlt] at hq
        exact ih i q hq
      · rw [List.getElem?_append_right (Nat.le_refl _), Nat.sub_self] at hq
        obtain rfl : p = q := Option.some.inj hq
        have hnone : own w.jobs.length w.log = [] := by
          refine List.filter_eq_nil_iff.mpr fun e he => ?_
          simpa using (who_lt hw e he).ne
        rw [hnone]
        exact hstart p hp
      · rw [List.getElem?_eq_none (by rw [List.length_append]; exact hgt)] at hq
        cases hq
    | @answer i c next r hjob hr =>
      intro j q hq
      rw [own_append]
      by_cases hij : i = j
      · subst hij
        have hlt := (List.getElem?_eq_some_iff.mp hjob).1
        rw [List.getElem?_set_self hlt] at hq
        obtain rfl : next r = q := Option.some.inj hq
        rw [own_single]
        exact hkeep _ i c next r (ih i _ hjob)
      · rw [List.getElem?_set_ne hij] at hq
        rw [own_single_of_ne hij, List.append_nil]
        exact ih j q hq

/-- The monitor accepted a history, and the program obeys it from there. -/
def Tracked (M : Monitor S Φ) (H : Halt → Prop) (Q : Φ → α → Prop) (φ₀ : Φ)
    (es : List (Event S)) (p : Prog S α) : Prop :=
  ∃ φ, M.run φ₀ es = some φ ∧ Obeys M H Q φ p

theorem Tracked.answer {M : Monitor S Φ} {H : Halt → Prop} {Q : Φ → α → Prop} {φ₀ : Φ}
    {es : List (Event S)} {c : S.Call} {next : S.Answer c → Prog S α}
    (h : Tracked M H Q φ₀ es (.call c next)) (i : Nat) (r : S.Answer c) :
    Tracked M H Q φ₀ (es ++ [⟨i, c, r⟩]) (next r) := by
  obtain ⟨φ, hrun, hobeys⟩ := h
  obtain ⟨φ', hφ', hnext⟩ := hobeys r
  refine ⟨φ', ?_, hnext⟩
  rw [M.run_append, hrun]
  simp [Monitor.run, hφ']

/-- In every interleaving of programs that obey a monitor, the monitor accepts the history of
each of them, and what is left of the program obeys it from there. -/
theorem reachable_obeys {M : Monitor S Φ} {H : Halt → Prop} {Q : Φ → α → Prop} {φ₀ : Φ}
    (hstart : ∀ p, start p → Obeys M H Q φ₀ p) (h : Reachable start allowed w) :
    ∀ i p, w.jobs[i]? = some p → ∃ φ, M.run φ₀ (own i w.log) = some φ ∧ Obeys M H Q φ p :=
  reachable_own (J := Tracked M H Q φ₀) (fun p hp => ⟨φ₀, rfl, hstart p hp⟩)
    (fun _ i _ _ r h => h.answer i r) h

end Reachable

/-! ## One environment for all -/

section Played

variable {σ : Type}

/-- The state of an environment after a history. -/
def stateAfter (env : Handler S σ) (s : σ) (log : List (Event S)) : σ :=
  log.foldl (fun s e => (env e.call s).2) s

/-- Every answer is the environment's, in the state the history has left it in. -/
def Played (env : Handler S σ) (s : σ) (log : List (Event S)) (c : S.Call) (r : S.Answer c) :
    Prop :=
  r = (env c (stateAfter env s log)).1

theorem stateAfter_snoc (env : Handler S σ) (s : σ) (log : List (Event S)) (e : Event S) :
    stateAfter env s (log ++ [e]) = (env e.call (stateAfter env s log)).2 := by
  simp [stateAfter]

/-- Program `i` gets its answer, if it is waiting for one. -/
def World.turn (env : Handler S σ) (s : σ) (w : World S α) (i : Nat) : World S α :=
  match w.jobs[i]? with
  | some (.call c next) =>
    let r := (env c (stateAfter env s w.log)).1
    ⟨w.jobs.set i (next r), w.log ++ [⟨i, c, r⟩]⟩
  | _ => w

theorem RunOf.turn {env : Handler S σ} {s : σ} {ps : List (Prog S α)} {w : World S α}
    (h : RunOf (Played env s) ps w) (i : Nat) : RunOf (Played env s) ps (w.turn env s i) := by
  unfold World.turn
  split
  · next hjob => exact h.answer hjob rfl
  · exact h

/-- The programs may all be started before any of them goes on. -/
theorem RunOf.all {allowed : List (Event S) → (c : S.Call) → S.Answer c → Prop}
    (ps : List (Prog S α)) : RunOf allowed ps ⟨ps, []⟩ := by
  induction ps using List.reverseRecOn with
  | nil => exact .init
  | append_singleton ps p ih => exact ih.start p

/-- An interleaving can be played: whose turn it is decides everything. -/
theorem RunOf.turns (env : Handler S σ) (s : σ) (ps : List (Prog S α)) (is : List Nat) :
    RunOf (Played env s) ps (is.foldl (World.turn env s) ⟨ps, []⟩) := by
  induction is using List.reverseRecOn with
  | nil => exact .all ps
  | append_singleton is i ih =>
    rw [List.foldl_append]
    exact ih.turn i

/-- The value of a program that has returned. -/
def returned : Prog S α → Option α
  | .ret a => some a
  | _ => none

theorem eq_ret_of_returned {p : Prog S α} {a : α} (h : returned p = some a) : p = .ret a := by
  cases p with
  | ret b => exact congrArg Prog.ret (Option.some.inj h)
  | _ => cases h

theorem getElem?_of_returned {jobs : List (Prog S α)} {i : Nat} {a : α}
    (h : jobs[i]?.bind returned = some a) : jobs[i]? = some (.ret a) := by
  obtain ⟨p, hp, ha⟩ := Option.bind_eq_some_iff.mp h
  rw [hp, eq_ret_of_returned ha]

theorem ret_of_all_returned {jobs : List (Prog S α)}
    (h : jobs.all (fun p => (returned p).isSome) = true) : ∀ p ∈ jobs, ∃ a, p = .ret a := by
  intro p hp
  obtain ⟨a, ha⟩ := Option.isSome_iff_exists.mp (List.all_eq_true.mp h p hp)
  exact ⟨a, eq_ret_of_returned ha⟩

end Played

end Anymount.Library.Interleave
