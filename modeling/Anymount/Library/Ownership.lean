import Anymount.Library.Interleave

/-!
# Handles owned by programs running side by side

A store hands out handles, each for a key, and takes them back. A program that gives back
only what it was handed itself can be reasoned about as if it were alone: what it may be
answered depends on the handles it holds, and no other program touches those. `Owned` is the
proof rule for one program, and `exists_owners` carries it to every interleaving.
-/
namespace Anymount.Library.Ownership

open Interleave

variable {S T : Signature} {α β η κ Φ : Type} [DecidableEq η]

/-- What a call and its answer mean for the handles of the store. -/
inductive Act (η κ : Type) where
  | opened (h : η) (k : κ)
  | closed (h : η)
  | other

/-- The handles that are out, and what they stand for. -/
abbrev Table (η κ : Type) := η → Option κ

def Table.empty : Table η κ := fun _ => none

def Table.after (t : Table η κ) : Act η κ → Table η κ
  | .opened h k => Function.update t h (some k)
  | .closed h => Function.update t h none
  | .other => t

/-- One handle, and nothing else. -/
def Table.single (h : η) (k : κ) : Table η κ := Function.update Table.empty h (some k)

@[simp] theorem Table.single_self (h : η) (k : κ) : Table.single h k h = some k :=
  Function.update_self ..

theorem Table.after_closed_single (h : η) (k : κ) :
    (Table.single h k).after (.closed h) = .empty := by
  rw [Table.after, Table.single, Function.update_idem, Function.update_eq_self_iff]
  rfl

/-- How a signature's calls act on the store. -/
abbrev Meaning (S : Signature) (η κ : Type) := (c : S.Call) → S.Answer c → Act η κ

/-- Calls of another signature have nothing to do with the store. -/
def Meaning.left (T : Signature) (act : Meaning S η κ) : Meaning (S.sum T) η κ
  | .inl c, r => act c r
  | .inr _, _ => .other

/-- The table after a history. -/
def table (act : Meaning S η κ) (log : List (Event S)) : Table η κ :=
  log.foldl (fun t e => t.after (act e.call e.answer)) .empty

theorem table_snoc (act : Meaning S η κ) (log : List (Event S)) (e : Event S) :
    table act (log ++ [e]) = (table act log).after (act e.call e.answer) := by
  simp [table]

/-- What a program may be answered that holds exactly these handles. -/
abbrev View (S : Signature) (η κ : Type) := Table η κ → (c : S.Call) → S.Answer c → Prop

/-- A program that holds `t` and has made the calls `cs`, and is answered according to the view,
gives back only handles it holds, returns where `Q` holds and halts only as `H` allows. -/
def Owned (act : Meaning S η κ) (R : View S η κ) (H : Halt → Prop)
    (Q : Table η κ → List S.Call → α → Prop) : Table η κ → List S.Call → Prog S α → Prop
  | t, cs, .ret a => Q t cs a
  | _, _, .halt why => H why
  | t, cs, .call c next => ∀ r, R t c r →
      (∀ h, act c r = .closed h → t h ≠ none) ∧
        Owned act R H Q (t.after (act c r)) (cs ++ [c]) (next r)

/-! ## From a monitor to the rule -/

section Monitored

variable {act : Meaning S η κ} {M : Monitor S Φ} {N : Halt → Prop} {Q : Φ → α → Prop}
  {φ φ' : Φ} (held : Φ → Table η κ)

/-- What a monitor knows to be held after a history is what the history says. -/
theorem table_of_run (hstart : held φ = .empty)
    (hstep : ∀ φ c r φ', M φ c r = some φ' → held φ' = (held φ).after (act c r))
    {es : List (Event S)} (hrun : M.run φ es = some φ') : table act es = held φ' := by
  induction es using List.reverseRecOn generalizing φ' with
  | nil =>
    obtain rfl : φ = φ' := Option.some.inj hrun
    exact hstart.symm
  | append_singleton es e ih =>
    rw [M.run_append] at hrun
    obtain ⟨φ'', hes, he⟩ := Option.bind_eq_some_iff.mp hrun
    have hlast : M φ'' e.call e.answer = some φ' := by simpa [Monitor.run] using he
    rw [table_snoc, ih hes, hstep _ _ _ _ hlast]

/-- A monitor that knows what is held, and lets only that be given back, gives the rule. -/
theorem owned_of_obeys {R : View S η κ} {H : Halt → Prop} (hhalt : ∀ why, N why → H why)
    (hstep : ∀ φ c r φ', M φ c r = some φ' → held φ' = (held φ).after (act c r))
    (hclosed : ∀ φ c r φ' h, M φ c r = some φ' → act c r = .closed h → held φ h ≠ none)
    {p : Prog S α} (hp : Obeys M N Q φ p) (cs : List S.Call) :
    Owned act R H (fun _ _ _ => True) (held φ) cs p := by
  induction p generalizing φ cs with
  | ret a => trivial
  | halt why => exact hhalt why hp
  | call c next ih =>
    intro r _
    obtain ⟨φ', hφ', hnext⟩ := hp r
    refine ⟨fun h => hclosed φ c r φ' h hφ', ?_⟩
    rw [← hstep φ c r φ' hφ']
    exact ih r hnext _

end Monitored

/-! ## One handle among many programs -/

/-- `x` says what a handle stands for, if it is out, and `xs i` what program `i` knows of it. -/
structure Shared (x : Option κ) (xs : Nat → Option κ) : Prop where
  out : ∀ i k, xs i = some k → x = some k
  apart : ∀ i j, xs i ≠ none → xs j ≠ none → i = j
  accounted : ∀ k, x = some k → ∃ i, xs i = some k

theorem Shared.nobody : Shared (none : Option κ) fun _ => none :=
  ⟨nofun, fun _ _ h => (h rfl).elim, nofun⟩

/-- Nobody holds what is not out. -/
theorem Shared.eq_none {xs : Nat → Option κ} (h : Shared none xs) (i : Nat) : xs i = none := by
  rcases hi : xs i with _ | k
  · rfl
  · cases h.out i k hi

theorem Shared.give (i : Nat) (k : κ) :
    Shared (some k) (Function.update (fun _ => none) i (some k)) := by
  have hother : ∀ j, Function.update (fun _ => none) i (some k) j ≠ none → j = i := by
    intro j hj
    by_contra hne
    rw [Function.update_of_ne hne] at hj
    exact hj rfl
  refine ⟨fun j k' hj => ?_, fun j j' hj hj' => by rw [hother j hj, hother j' hj'], ?_⟩
  · obtain rfl := hother j (by rw [hj]; exact Option.some_ne_none k')
    simpa using hj
  · intro k' hk
    exact ⟨i, by rw [Function.update_self, hk]⟩

/-- What one program does to its table, seen at one handle. -/
theorem update_after (held : Nat → Table η κ) (i : Nat) (a : Act η κ) (h : η) :
    (fun j => Function.update held i ((held i).after a) j h) =
      Function.update (fun j => held j h) i ((held i).after a h) := by
  funext j
  by_cases hj : j = i
  · subst hj
    simp only [Function.update_self]
  · simp only [Function.update_of_ne hj]

theorem Table.after_of_ne {t : Table η κ} {a : Act η κ} {h : η}
    (hopened : ∀ k, a ≠ .opened h k) (hclosed : a ≠ .closed h) : t.after a h = t h := by
  cases a with
  | opened h' k =>
    refine Function.update_of_ne ?_ ..
    rintro rfl
    exact hopened k rfl
  | closed h' =>
    refine Function.update_of_ne ?_ ..
    rintro rfl
    exact hclosed rfl
  | other => rfl

/-- A handle is handed out only when it is not out, and given back only by its owner. -/
theorem Shared.after {t : Table η κ} {held : Nat → Table η κ}
    (hshared : ∀ h, Shared (t h) fun i => held i h) {i : Nat} {a : Act η κ}
    (hfresh : ∀ h k, a = .opened h k → t h = none) (hmine : ∀ h, a = .closed h → held i h ≠ none)
    (h : η) :
    Shared (t.after a h) fun j => Function.update held i ((held i).after a) j h := by
  rw [update_after]
  by_cases hopened : ∃ k, a = .opened h k
  · obtain ⟨k, rfl⟩ := hopened
    have hnone := hshared h
    rw [hfresh h k rfl] at hnone
    rw [funext hnone.eq_none, Table.after, Table.after, Function.update_self, Function.update_self]
    exact Shared.give i k
  · by_cases hclosed : a = .closed h
    · subst hclosed
      rw [Table.after, Table.after, Function.update_self, Function.update_self]
      have hothers : Function.update (fun j => held j h) i none = fun _ => none := by
        funext j
        by_cases hj : j = i
        · rw [hj, Function.update_self]
        · rw [Function.update_of_ne hj]
          by_contra hne
          exact hj ((hshared h).apart j i hne (hmine h rfl))
      rw [hothers]
      exact Shared.nobody
    · have hopened := not_exists.mp hopened
      rw [Table.after_of_ne hopened hclosed, Table.after_of_ne hopened hclosed]
      rw [Function.update_eq_self i fun j => held j h]
      exact hshared h

/-! ## Every interleaving -/

/-- The calls that one program has made. -/
def made (i : Nat) (log : List (Event S)) : List S.Call := (own i log).map Event.call

theorem made_snoc_self (i : Nat) (log : List (Event S)) (c : S.Call) (r : S.Answer c) :
    made i (log ++ [⟨i, c, r⟩]) = made i log ++ [c] := by
  simp [made, own]

theorem made_snoc_of_ne {i j : Nat} (h : i ≠ j) (log : List (Event S)) (c : S.Call)
    (r : S.Answer c) : made j (log ++ [⟨i, c, r⟩]) = made j log := by
  simp [made, own, h]

theorem made_of_ge {i n : Nat} {log : List (Event S)} (hlog : ∀ e ∈ log, e.who < n) (h : n ≤ i) :
    made i log = [] := by
  have hnone : own i log = [] := by
    refine List.filter_eq_nil_iff.mpr fun e he => ?_
    simpa using ((hlog e he).trans_le h).ne
  rw [made, hnone, List.map_nil]

/-- Who holds what: what is left of each program obeys the rule of that program with what it
holds, nothing is held twice, and what is held is what is out. -/
structure Owners (act : Meaning S η κ) (R : View S η κ) (H : Prog S α → Halt → Prop)
    (Q : Prog S α → Table η κ → List S.Call → α → Prop) (ps : List (Prog S α)) (w : World S α)
    (held : Nat → Table η κ) : Prop where
  owned : ∀ i p₀ p, ps[i]? = some p₀ → w.jobs[i]? = some p →
    Owned act R (H p₀) (Q p₀) (held i) (made i w.log) p
  length : ps.length = w.jobs.length
  shared : ∀ h, Shared (table act w.log h) fun i => held i h
  history : ∀ i, held i = table act (own i w.log)
  started : ∀ i, w.jobs.length ≤ i → held i = .empty
  logged : ∀ e ∈ w.log, e.who < w.jobs.length

section RunOf

variable {act : Meaning S η κ} {R : View S η κ} {H : Prog S α → Halt → Prop}
  {Q : Prog S α → Table η κ → List S.Call → α → Prop} {ps : List (Prog S α)}
  {allowed : List (Event S) → (c : S.Call) → S.Answer c → Prop} {w : World S α}
  {held : Nat → Table η κ}

theorem Owners.start {p : Prog S α} (hw : Owners act R H Q ps w held)
    (hp : Owned act R (H p) (Q p) .empty [] p) :
    Owners act R H Q (ps ++ [p]) ⟨w.jobs ++ [p], w.log⟩ held where
  owned := by
    intro i q₀ q hq₀ hq
    rcases lt_trichotomy i w.jobs.length with hlt | rfl | hgt
    · rw [List.getElem?_append_left (hw.length ▸ hlt)] at hq₀
      rw [List.getElem?_append_left hlt] at hq
      exact hw.owned i q₀ q hq₀ hq
    · rw [← hw.length, List.getElem?_append_right (Nat.le_refl _), Nat.sub_self] at hq₀
      rw [List.getElem?_append_right (Nat.le_refl _), Nat.sub_self] at hq
      obtain rfl : p = q₀ := Option.some.inj hq₀
      obtain rfl : p = q := Option.some.inj hq
      rw [hw.started _ (Nat.le_refl _), made_of_ge hw.logged (Nat.le_refl _)]
      exact hp
    · rw [List.getElem?_eq_none (by rw [List.length_append]; exact hgt)] at hq
      cases hq
  length := by rw [List.length_append, List.length_append, hw.length]
  shared := hw.shared
  history := hw.history
  started i hi := hw.started i (by rw [List.length_append] at hi; omega)
  logged e he := by
    rw [List.length_append]
    exact Nat.lt_add_right _ (hw.logged e he)

/-- The program that was answered goes on with its new table, the others with theirs. -/
theorem Owners.answer (hw : Owners act R H Q ps w held) {i : Nat} {c : S.Call}
    {next : S.Answer c → Prog S α} {r : S.Answer c} (hjob : w.jobs[i]? = some (.call c next))
    (hfresh : ∀ h k, act c r = .opened h k → table act w.log h = none) (hview : R (held i) c r) :
    Owners act R H Q ps ⟨w.jobs.set i (next r), w.log ++ [⟨i, c, r⟩]⟩
      (Function.update held i ((held i).after (act c r))) := by
  have hlt := (List.getElem?_eq_some_iff.mp hjob).1
  have hstep : ∀ p₀, ps[i]? = some p₀ → (∀ h, act c r = .closed h → held i h ≠ none) ∧
      Owned act R (H p₀) (Q p₀) ((held i).after (act c r)) (made i w.log ++ [c]) (next r) :=
    fun p₀ hp₀ => hw.owned i p₀ _ hp₀ hjob r hview
  obtain ⟨program, hprogram⟩ := exists_getElem?_of_length_eq hw.length hjob
  have hmine := (hstep program hprogram).1
  refine ⟨fun j p₀ p hp₀ hp => ?_, ?_, fun h => ?_, fun j => ?_, fun j hj => ?_, fun e he => ?_⟩
  · by_cases hj : j = i
    · subst hj
      rw [List.getElem?_set_self hlt] at hp
      obtain rfl : next r = p := Option.some.inj hp
      rw [Function.update_self, made_snoc_self]
      exact (hstep p₀ hp₀).2
    · rw [List.getElem?_set_ne (Ne.symm hj)] at hp
      rw [Function.update_of_ne hj, made_snoc_of_ne (Ne.symm hj)]
      exact hw.owned j p₀ p hp₀ hp
  · rw [List.length_set, hw.length]
  · rw [table_snoc]
    exact Shared.after hw.shared hfresh hmine h
  · rw [own_append]
    by_cases hj : j = i
    · subst hj
      rw [Function.update_self, hw.history j, own_single, table_snoc]
    · rw [Function.update_of_ne hj, hw.history j, own_single_of_ne (Ne.symm hj), List.append_nil]
  · rw [List.length_set] at hj
    rw [Function.update_of_ne (by omega)]
    exact hw.started j hj
  · rw [List.length_set]
    rcases List.mem_append.mp he with he | he
    · exact hw.logged e he
    · rw [List.mem_singleton.mp he]
      exact hlt

/-- In every interleaving of programs that obey their rules on their own, each of them does so
with the handles it holds. What an environment may answer has to keep handles apart and to
look, to a program that holds some of what is out, like an answer of the view. -/
theorem exists_owners (hstart : ∀ p ∈ ps, Owned act R (H p) (Q p) .empty [] p)
    (hfresh : ∀ log c r h k, allowed log c r → act c r = .opened h k → table act log h = none)
    (hview : ∀ log c r t, allowed log c r → (∀ h k, t h = some k → table act log h = some k) →
      R t c r)
    (h : RunOf allowed ps w) : ∃ held, Owners act R H Q ps w held := by
  induction h with
  | init =>
    exact ⟨fun _ => .empty, by simp, rfl, fun _ => Shared.nobody, fun _ => rfl, fun _ _ => rfl,
      by simp⟩
  | start p _ ih =>
    obtain ⟨held, hw⟩ := ih fun q hq => hstart q (List.mem_append_left _ hq)
    exact ⟨held, hw.start (hstart p (by simp))⟩
  | answer _ hjob hr ih =>
    obtain ⟨held, hw⟩ := ih hstart
    exact ⟨_, hw.answer hjob (fun h k => hfresh _ _ _ h k hr)
      (hview _ _ _ _ hr fun h k => (hw.shared h).out _ k)⟩

/-- What a program that has returned, and one that has halted, did by its rule. -/
theorem Owners.ret (hw : Owners act R H Q ps w held) {i : Nat} {p₀ : Prog S α} {a : α}
    (hp₀ : ps[i]? = some p₀) (h : w.jobs[i]? = some (.ret a)) :
    Q p₀ (held i) (made i w.log) a := hw.owned i p₀ _ hp₀ h

theorem Owners.halt (hw : Owners act R H Q ps w held) {i : Nat} {p₀ : Prog S α} {why : Halt}
    (hp₀ : ps[i]? = some p₀) (h : w.jobs[i]? = some (.halt why)) : H p₀ why :=
  hw.owned i p₀ _ hp₀ h

/-- When every program has returned with nothing left, nothing is out. -/
theorem Owners.drained (hw : Owners act R H Q ps w held)
    (hempty : ∀ p₀ t cs a, Q p₀ t cs a → t = .empty) (hall : ∀ p ∈ w.jobs, ∃ a, p = .ret a) :
    table act w.log = .empty := by
  funext h
  rcases hk : table act w.log h with _ | k
  · rfl
  · obtain ⟨i, hi⟩ := (hw.shared h).accounted k hk
    have hlt : i < w.jobs.length := by
      by_contra hge
      rw [hw.started i (not_lt.mp hge)] at hi
      cases hi
    obtain ⟨a, ha⟩ := hall _ (List.getElem_mem hlt)
    have hjob := List.getElem?_eq_getElem hlt
    rw [ha] at hjob
    obtain ⟨program, hprogram⟩ := exists_getElem?_of_length_eq hw.length hjob
    rw [hempty _ _ _ _ (hw.ret hprogram hjob)] at hi
    cases hi

end RunOf

end Anymount.Library.Ownership
