import Anymount.Library.Interaction

/-!
# Workers that share a latch

Any number of workers, each playing a program against answers of its own, and one flag
that every worker may load and that is cleared at most once. A load is one step, so the
clearing may fall between two loads of the same worker.

A load returns the initial value before the clearing and `false` after it, and a worker
that has seen the cleared flag never sees it set again (`Admissible`). A program that keeps
its promise along every admissible history (`Keeps`) keeps it in every interleaving
(`Inv.of_reachable`).
-/
namespace Anymount.Library.Latch

/-- What a worker can do with the flag. -/
inductive Call where
  | load
  deriving DecidableEq, Repr

abbrev Sig : Signature := ⟨Call, fun _ => Bool⟩

/-- One load: the value it returned, and whether the flag had been cleared by then. -/
structure Load where
  value : Bool
  afterClear : Bool
  deriving DecidableEq, Repr

/-- The latch played from a recording: each load returns the next recorded value. -/
def recorded : Handler Sig (List Bool) := fun _ values => (values.headD false, values.tail)

section

variable {S : Signature} {ι β α : Type} [DecidableEq ι]

/-- A job in progress: the loads made for it so far and what is left to do. -/
structure Flight (S : Signature) (β α : Type) where
  job : β
  loads : List Load
  rest : Prog (S.sum Sig) α

/-- A finished job. -/
structure Done (β α : Type) where
  job : β
  loads : List Load
  result : α

structure World (S : Signature) (ι β α : Type) where
  flag : Bool
  cleared : Bool
  worker : ι → Option (Flight S β α)
  done : List (Done β α)

/-- All workers idle. -/
def World.initial (flag : Bool) : World S ι β α := ⟨flag, false, fun _ => none, []⟩

/-- Worker `i` goes on with `flight`. -/
def World.put (w : World S ι β α) (i : ι) (flight : Option (Flight S β α)) : World S ι β α :=
  { w with worker := Function.update w.worker i flight }

variable (serve : β → Prog (S.sum Sig) α)

/-- One step of one worker, or the clearing of the flag. -/
inductive Step : World S ι β α → World S ι β α → Prop where
  | start (w : World S ι β α) (i : ι) (job : β) (idle : w.worker i = none) :
      Step w (w.put i (some ⟨job, [], serve job⟩))
  | answer (w : World S ι β α) (i : ι) {flight : Flight S β α} {c : S.Call}
      {next : S.Answer c → Prog (S.sum Sig) α} (busy : w.worker i = some flight)
      (at_call : flight.rest = .call (S := S.sum Sig) (.inl c) next) (r : S.Answer c) :
      Step w (w.put i (some { flight with rest := next r }))
  | load (w : World S ι β α) (i : ι) {flight : Flight S β α}
      {next : Bool → Prog (S.sum Sig) α} (busy : w.worker i = some flight)
      (at_load : flight.rest = .call (S := S.sum Sig) (.inr .load) next) :
      Step w (w.put i (some { flight with
        loads := flight.loads ++ [⟨w.flag, w.cleared⟩], rest := next w.flag }))
  | finish (w : World S ι β α) (i : ι) {flight : Flight S β α} {a : α}
      (busy : w.worker i = some flight) (at_ret : flight.rest = .ret a) :
      Step w { w.put i none with done := w.done ++ [⟨flight.job, flight.loads, a⟩] }
  | die (w : World S ι β α) (i : ι) {flight : Flight S β α} {why : Halt}
      (busy : w.worker i = some flight) (at_halt : flight.rest = .halt why) :
      Step w (w.put i none)
  | clear (w : World S ι β α) (once : w.cleared = false) :
      Step w { w with flag := false, cleared := true }

/-- What every interleaving of the workers and the clearing can lead to. -/
inductive Reachable (flag : Bool) : World S ι β α → Prop where
  | initial : Reachable flag (World.initial flag)
  | step {w w' : World S ι β α} : Reachable flag w → Step serve w w' → Reachable flag w'

end

/-! ## The proof rule -/

/-- The loads a job may observe next, after `loads`, on a latch that started as `flag`. -/
structure Admissible (flag : Bool) (loads : List Load) (l : Load) : Prop where
  value : l.value = (flag && !l.afterClear)
  mono : ∀ l' ∈ loads, l'.afterClear → l.afterClear

/-- A load that returned `true` came before the clearing, on a flag that was set. -/
theorem Admissible.of_true {flag : Bool} {loads : List Load} {l : Load}
    (h : Admissible flag loads l) (hl : l.value = true) : flag = true ∧ l = ⟨true, false⟩ := by
  have hvalue := h.value
  rw [hl, eq_comm, Bool.and_eq_true, Bool.not_eq_true'] at hvalue
  refine ⟨hvalue.1, ?_⟩
  rw [← hl, ← hvalue.2]

/-- After a load that returned `false`, no later one returns `true`. -/
theorem Admissible.not_true_after {flag : Bool} {loads : List Load} {l l' : Load}
    (h : Admissible flag loads l) (hl : l.value = false) (h' : Admissible flag (loads ++ [l]) l') :
    l'.value = false := by
  by_contra hl'
  obtain ⟨hflag, rfl⟩ := h'.of_true (by simpa using hl')
  have hafter : l.afterClear = true := by simpa [hflag, hl] using h.value
  simpa using h'.mono l (by simp) hafter

section

variable {S : Signature} {ι β α : Type}

/-- Along every admissible history that extends `loads`, the program returns only results
in `Q`, and halts only if it `mayHalt`. -/
def Keeps (flag : Bool) (mayHalt : Prop) (Q : List Load → α → Prop) :
    List Load → Prog (S.sum Sig) α → Prop
  | loads, .ret a => Q loads a
  | _, .halt _ => mayHalt
  | loads, .call (.inl _) next => ∀ r, Keeps flag mayHalt Q loads (next r)
  | loads, .call (.inr .load) next =>
    ∀ l : Load, Admissible flag loads l → Keeps flag mayHalt Q (loads ++ [l]) (next l.value)

/-- What holds in every reachable world. -/
structure Inv (flag : Bool) (mayHalt : β → Prop) (Q : β → List Load → α → Prop)
    (w : World S ι β α) : Prop where
  latched : w.flag = (flag && !w.cleared)
  flights : ∀ i flight, w.worker i = some flight →
    Keeps flag (mayHalt flight.job) (Q flight.job) flight.loads flight.rest ∧
      ∀ l ∈ flight.loads, l.afterClear → w.cleared
  done : ∀ d ∈ w.done, Q d.job d.loads d.result

variable [DecidableEq ι] {flag : Bool} {mayHalt : β → Prop} {Q : β → List Load → α → Prop}
  {serve : β → Prog (S.sum Sig) α} {w w' : World S ι β α}

/-- Replacing one flight by one that is all right keeps the invariant. -/
theorem Inv.put (h : Inv flag mayHalt Q w) (i : ι) {new : Option (Flight S β α)}
    (hnew : ∀ flight, new = some flight →
      Keeps flag (mayHalt flight.job) (Q flight.job) flight.loads flight.rest ∧
        ∀ l ∈ flight.loads, l.afterClear → w.cleared) :
    Inv flag mayHalt Q (w.put i new) := by
  refine ⟨h.latched, ?_, h.done⟩
  intro j flight hj
  by_cases hij : j = i
  · subst hij
    exact hnew flight (by simpa [World.put] using hj)
  · exact h.flights j flight (by simpa [World.put, Function.update_of_ne hij] using hj)

theorem Inv.step (hserve : ∀ job, Keeps flag (mayHalt job) (Q job) [] (serve job))
    (h : Inv flag mayHalt Q w) (step : Step serve w w') : Inv flag mayHalt Q w' := by
  cases step with
  | start i job idle =>
    refine h.put i ?_
    rintro flight ⟨⟩
    exact ⟨hserve job, nofun⟩
  | @answer i flight c next busy at_call r =>
    obtain ⟨keeps, seen⟩ := h.flights i flight busy
    refine h.put i ?_
    rintro _ ⟨⟩
    rw [at_call] at keeps
    exact ⟨keeps r, seen⟩
  | @load i flight next busy at_load =>
    obtain ⟨keeps, seen⟩ := h.flights i flight busy
    refine h.put i ?_
    rintro _ ⟨⟩
    rw [at_load] at keeps
    refine ⟨keeps ⟨w.flag, w.cleared⟩ ⟨h.latched, seen⟩, ?_⟩
    intro l hl
    rcases List.mem_append.mp hl with hl | hl
    · exact seen l hl
    · rw [List.mem_singleton.mp hl]
      exact id
  | @finish i flight a busy at_ret =>
    obtain ⟨keeps, -⟩ := h.flights i flight busy
    rw [at_ret] at keeps
    obtain ⟨hflag, hflights, hdone⟩ : Inv flag mayHalt Q (w.put i none) := h.put i nofun
    refine ⟨hflag, hflights, ?_⟩
    intro d hd
    rcases List.mem_append.mp hd with hd | hd
    · exact hdone d hd
    · rw [List.mem_singleton.mp hd]
      exact keeps
  | die i busy at_halt => exact h.put i nofun
  | clear once =>
    refine ⟨by simp, ?_, h.done⟩
    intro i flight busy
    exact ⟨(h.flights i flight busy).1, fun _ _ _ => rfl⟩

/-- Programs that keep their promises one by one keep them in every interleaving. -/
theorem Inv.of_reachable (hserve : ∀ job, Keeps flag (mayHalt job) (Q job) [] (serve job))
    (h : Reachable serve flag w) : Inv flag mayHalt Q w := by
  induction h with
  | initial => exact ⟨by simp [World.initial], nofun, nofun⟩
  | step _ step ih => exact ih.step hserve step

@[simp] theorem keeps_bind {γ : Type} {H : Prop} {R : List Load → γ → Prop} (p : Prog (S.sum Sig) α)
    (f : α → Prog (S.sum Sig) γ) (loads : List Load) :
    Keeps flag H R loads (p >>= f) ↔
      Keeps flag H (fun loads a => Keeps flag H R loads (f a)) loads p := by
  induction p generalizing loads with
  | ret a => exact Iff.rfl
  | halt why => exact Iff.rfl
  | call c next ih =>
    rcases c with c | ⟨⟩
    · exact forall_congr' fun r => ih r loads
    · exact forall₂_congr fun l _ => ih l.value (loads ++ [l])

theorem Keeps.mono {H H' : Prop} {R R' : List Load → α → Prop} {p : Prog (S.sum Sig) α}
    {loads : List Load} (h : Keeps flag H R loads p) (hH : H → H')
    (hR : ∀ loads a, R loads a → R' loads a) : Keeps flag H' R' loads p := by
  induction p generalizing loads with
  | ret a => exact hR loads a h
  | halt why => exact hH h
  | call c next ih =>
    rcases c with c | ⟨⟩
    · exact fun r => ih r (h r)
    · exact fun l hl => ih l.value (h l hl)

theorem keeps_true (p : Prog (S.sum Sig) α) (loads : List Load) :
    Keeps flag True (fun _ _ => True) loads p := by
  induction p generalizing loads with
  | ret a => trivial
  | halt why => trivial
  | call c next ih =>
    rcases c with c | ⟨⟩
    · exact fun r => ih r loads
    · exact fun l _ => ih l.value (loads ++ [l])

end

end Anymount.Library.Latch
