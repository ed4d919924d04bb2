import Anymount.Nfs.Accept

/-!
# Stopping the accept loop

Once the stop flag is set the loop is on its way out. Each of its own statements brings it
closer, whatever arrives meanwhile; it accepts at most one more connection, and the only
thing it ever waits for is a worker that has not finished.
-/
namespace Anymount.Nfs.Accept

open Library

/-- The events that are statements of the loop itself. -/
def Event.isOwn : Event → Bool
  | acceptOk | acceptErr | proceed => true
  | _ => false

/-- How many statements the loop has left at most, once it will find the flag set. -/
def Pc.distance : Pc → Nat
  | returned => 0
  | join todo => todo.length + 1
  | head workers => workers.length + 2
  | sleep workers => workers.length + 3
  | spawn workers _ => workers.length + 4
  | accept workers => workers.length + 5
  | capacity workers => workers.length + 6
  | reap kept todo => kept.length + 2 * todo.length + 7

/-- Whether the loop may still take a connection. -/
def Pc.mayAccept : Pc → Nat
  | reap _ _ | capacity _ | accept _ => 1
  | _ => 0

/-- A statement of the loop under the flag: it gets closer to the return, and a connection is
taken at the price of the only chance left. -/
structure Leaves (s s' : State) : Prop where
  stop : s'.stop = true
  nearer : s'.pc.distance + 1 ≤ s.pc.distance
  accepts : s'.accepted.length + s'.pc.mayAccept ≤ s.accepted.length + s.pc.mayAccept

theorem leaves_of_proceed {s s' : State} (hstop : s.stop = true) (h : proceed s = some s') :
    Leaves s s' := by
  obtain ⟨pc, threads, stop, backlog, arrived, accepted⟩ := s
  cases hstop
  cases pc with
  | head workers =>
    cases h
    exact ⟨rfl, by simp [Pc.distance], by simp [Pc.mayAccept]⟩
  | reap kept todo =>
    cases todo with
    | nil =>
      cases h
      exact ⟨rfl, by simp [Pc.distance], by simp [Pc.mayAccept]⟩
    | cons w todo =>
      simp only [proceed] at h
      split_ifs at h <;> cases h
      · exact ⟨rfl, by simp [Pc.distance], le_rfl⟩
      · exact ⟨rfl, by simp [Pc.distance]; omega, le_rfl⟩
  | capacity workers =>
    simp only [proceed] at h
    split_ifs at h <;> cases h
    · exact ⟨rfl, by simp [Pc.distance], by simp [Pc.mayAccept]⟩
    · exact ⟨rfl, by simp [Pc.distance], le_rfl⟩
  | accept workers => cases h
  | spawn workers conn =>
    cases h
    exact ⟨rfl, by simp [Pc.distance], le_rfl⟩
  | sleep workers =>
    cases h
    exact ⟨rfl, by simp [Pc.distance], le_rfl⟩
  | join todo =>
    cases todo with
    | nil =>
      cases h
      exact ⟨rfl, by simp [Pc.distance], le_rfl⟩
    | cons w todo =>
      simp only [proceed] at h
      split_ifs at h
      cases h
      exact ⟨rfl, by simp [Pc.distance], le_rfl⟩
  | returned => cases h

theorem leaves_of_own {s s' : State} {e : Event} (hstop : s.stop = true) (he : e.isOwn = true)
    (h : step s e = some s') : Leaves s s' := by
  cases e with
  | proceed => exact leaves_of_proceed hstop h
  | acceptOk =>
    simp only [step] at h
    split at h
    · next workers conn backlog hpc hbacklog =>
      cases h
      refine ⟨hstop, ?_, ?_⟩
      · simp [hpc, Pc.distance]
      · simp [hpc, Pc.mayAccept]
    · cases h
  | acceptErr =>
    simp only [step] at h
    split at h
    · next workers hpc =>
      cases h
      refine ⟨hstop, ?_, ?_⟩
      · simp [hpc, Pc.distance]
      · simp [hpc, Pc.mayAccept]
    · cases h
  | _ => cases he

/-- Everything else leaves the loop where it is. -/
theorem pc_of_not_own {s s' : State} {e : Event} (he : e.isOwn = false) (h : step s e = some s') :
    s'.pc = s.pc ∧ s'.accepted = s.accepted ∧ (s.stop = true → s'.stop = true) := by
  cases e with
  | connect =>
    cases h
    exact ⟨rfl, rfl, id⟩
  | abandon conn =>
    cases h
    exact ⟨rfl, rfl, id⟩
  | finish w =>
    simp only [step] at h
    split at h <;> cases h
    exact ⟨rfl, rfl, id⟩
  | setStop =>
    cases h
    exact ⟨rfl, rfl, fun _ => rfl⟩
  | _ => cases he

theorem stop_of_step {s s' : State} {e : Event} (hstop : s.stop = true)
    (h : step s e = some s') : s'.stop = true := by
  cases he : e.isOwn with
  | true => exact (leaves_of_own hstop he h).stop
  | false => exact (pc_of_not_own he h).2.2 hstop

theorem distance_of_step {s s' : State} {e : Event} (hstop : s.stop = true)
    (h : step s e = some s') :
    s'.pc.distance + (if e.isOwn then 1 else 0) ≤ s.pc.distance := by
  cases he : e.isOwn with
  | true => exact (leaves_of_own hstop he h).nearer
  | false => simp [(pc_of_not_own he h).1]

theorem accepts_of_step {s s' : State} {e : Event} (hstop : s.stop = true)
    (h : step s e = some s') :
    s'.accepted.length + s'.pc.mayAccept ≤ s.accepted.length + s.pc.mayAccept := by
  cases he : e.isOwn with
  | true => exact (leaves_of_own hstop he h).accepts
  | false =>
    obtain ⟨hpc, haccepted, -⟩ := pc_of_not_own he h
    rw [hpc, haccepted]

/-! ## Never stuck -/

/-- The loop waits for a worker that is still running. -/
def Waits (s : State) (w : Nat) : Prop :=
  (∃ todo, s.pc = .join (w :: todo)) ∧ s.isAlive w = true

theorem alive_of_not_finished {s : State} {w : Nat} (hspawned : w < s.threads.length)
    (h : s.isFinished w = false) : s.isAlive w = true := by
  unfold State.isFinished at h
  unfold State.isAlive
  rw [List.getElem?_eq_getElem hspawned] at h ⊢
  simpa using h

/-- Outside the final loop the next statement is always possible: `accept_conn` on a
non-blocking listener returns in any case. -/
theorem step_or_waits {s : State} (hs : TableInv s) :
    s.pc = .returned ∨ (∃ e s', e.isOwn = true ∧ step s e = some s') ∨ ∃ w, Waits s w := by
  have hproceed : (∃ s', proceed s = some s') →
      ∃ e s', e.isOwn = true ∧ step s e = some s' := by
    rintro ⟨s', h⟩
    exact ⟨.proceed, s', rfl, h⟩
  cases hpc : s.pc with
  | returned => exact .inl rfl
  | accept workers => exact .inr (.inl ⟨.acceptErr, _, rfl, by simp only [step, hpc]; rfl⟩)
  | join todo =>
    cases todo with
    | nil => exact .inr (.inl (hproceed ⟨_, by simp only [proceed, hpc]; rfl⟩))
    | cons w todo =>
      by_cases hw : s.isFinished w = true
      · exact .inr (.inl (hproceed ⟨_, by simp only [proceed, hpc, hw]; rfl⟩))
      · have hspawned : w < s.threads.length := hs.spawned w (by simp [hpc, Pc.table])
        exact .inr (.inr ⟨w, ⟨todo, hpc⟩, alive_of_not_finished hspawned (by simpa using hw)⟩)
  | reap kept todo =>
    refine .inr (.inl (hproceed ?_))
    cases todo with
    | nil => exact ⟨_, by simp only [proceed, hpc]; rfl⟩
    | cons w todo =>
      simp only [proceed, hpc]
      split_ifs
      · exact ⟨_, rfl⟩
      · exact ⟨_, rfl⟩
  | _ =>
    refine .inr (.inl (hproceed ?_))
    simp only [proceed, hpc]
    first
      | exact ⟨_, rfl⟩
      | split_ifs <;> exact ⟨_, rfl⟩

/-- A worker that ends can be joined. -/
theorem join_after_finish {s : State} {w : Nat} (hs : TableInv s) (h : Waits s w) :
    ∃ s₁ s₂, step s (.finish w) = some s₁ ∧ step s₁ .proceed = some s₂ := by
  obtain ⟨⟨todo, hpc⟩, -⟩ := h
  have hspawned : w < s.threads.length := hs.spawned w (by simp [hpc, Pc.table])
  have ht := List.getElem?_eq_getElem hspawned
  refine ⟨{ s with threads := s.threads.set w { s.threads[w] with finished := true } },
    { s with pc := .join todo, threads := s.threads.set w { s.threads[w] with finished := true } },
    by simp only [step, ht], ?_⟩
  simp only [step, proceed, hpc, State.isFinished, List.getElem?_set_self hspawned, if_true]

/-- From every state with the flag set the loop returns, if the workers it waits for end. -/
theorem returns_of_stop {s : State} (hs : TableInv s) (hstop : s.stop = true) :
    ∃ rest final, Steps.run step s rest = some final ∧ final.pc = .returned ∧ TableInv final ∧
      ∀ e ∈ rest, e.isOwn = true ∨ ∃ w, e = .finish w := by
  induction hn : s.pc.distance using Nat.strong_induction_on generalizing s with
  | _ n ih =>
    subst hn
    rcases step_or_waits hs with hpc | ⟨e, s', he, hstep⟩ | ⟨w, hw⟩
    · exact ⟨[], s, rfl, hpc, hs, by simp⟩
    · have hleaves := leaves_of_own hstop he hstep
      obtain ⟨rest, final, hrun, hpc, hfinal, hrest⟩ :=
        ih _ hleaves.nearer (hs.keep (effect_of_step hstep)) hleaves.stop rfl
      refine ⟨e :: rest, final, ?_, hpc, hfinal, ?_⟩
      · rw [Steps.run, hstep]
        exact hrun
      · exact List.forall_mem_cons.mpr ⟨.inl he, hrest⟩
    · obtain ⟨s₁, s₂, hfinish, hjoin⟩ := join_after_finish hs hw
      obtain ⟨hpc₁, -, hstop₁⟩ := pc_of_not_own rfl hfinish
      have hleaves := leaves_of_own (hstop₁ hstop) rfl hjoin
      have hs₂ := (hs.keep (effect_of_step hfinish)).keep (effect_of_step hjoin)
      obtain ⟨rest, final, hrun, hpc, hfinal, hrest⟩ :=
        ih _ (hpc₁ ▸ hleaves.nearer) hs₂ hleaves.stop rfl
      refine ⟨.finish w :: .proceed :: rest, final, ?_, hpc, hfinal, ?_⟩
      · rw [Steps.run, hfinish, Option.bind_some, Steps.run, hjoin]
        exact hrun
      · refine List.forall_mem_cons.mpr ⟨.inr ⟨w, rfl⟩, ?_⟩
        exact List.forall_mem_cons.mpr ⟨.inl rfl, hrest⟩

theorem TableInv.distance_le {s : State} (h : TableInv s) :
    s.pc.distance ≤ 2 * maxConnections + 7 := by
  have hroom := h.room
  cases hpc : s.pc with
  | reap kept todo =>
    rw [hpc] at hroom
    simp only [Pc.table, Pc.reserved, List.length_append, maxConnections] at hroom
    simp only [Pc.distance, maxConnections]
    omega
  | _ =>
    rw [hpc] at hroom
    simp only [Pc.table, Pc.reserved, maxConnections] at hroom
    simp only [Pc.distance, maxConnections]
    omega

/-- Shutdown. However the loop got to where it is when the flag is found set, and whatever
happens afterwards: it executes at most 39 more statements of its own and accepts at most one
more connection, is never stuck except waiting for a worker that is still running, and returns
with no worker left once those workers end. -/
theorem shutdown_ends_the_loop (events later : List Event) (s s' : State)
    (hrun : Steps.run step init events = some s) (hstop : s.stop = true)
    (hlater : Steps.run step s later = some s') :
    later.countP Event.isOwn ≤ 39 ∧
      s'.accepted.length ≤ s.accepted.length + 1 ∧
      (s'.pc = .returned ∨ (∃ e s'', e.isOwn = true ∧ step s' e = some s'') ∨
        ∃ w, Waits s' w) ∧
      ∃ rest final, Steps.run step s' rest = some final ∧ final.pc = .returned ∧
        final.liveWorkers = [] ∧ ∀ e ∈ rest, e.isOwn = true ∨ ∃ w, e = .finish w := by
  have hkeep : ∀ s e s', TableInv s ∧ s.stop = true → step s e = some s' →
      TableInv s' ∧ s'.stop = true := by
    rintro s e s' ⟨hs, hstop⟩ hstep
    exact ⟨hs.keep (effect_of_step hstep), stop_of_step hstop hstep⟩
  have hs : TableInv s :=
    Steps.run_keeps (fun _ _ _ hs hstep => hs.keep (effect_of_step hstep)) tableInv_init hrun
  obtain ⟨hs', hstop'⟩ := Steps.run_keeps hkeep ⟨hs, hstop⟩ hlater
  have hown : s'.pc.distance + later.countP Event.isOwn ≤ s.pc.distance :=
    Steps.run_rank hkeep (fun _ _ _ h hstep => distance_of_step h.2 hstep) ⟨hs, hstop⟩ hlater
  have haccepts : s'.accepted.length + s'.pc.mayAccept ≤ s.accepted.length + s.pc.mayAccept :=
    (Steps.run_keeps (I := fun t => (TableInv t ∧ t.stop = true) ∧
      t.accepted.length + t.pc.mayAccept ≤ s.accepted.length + s.pc.mayAccept)
      (fun t e t' h hstep => ⟨hkeep t e t' h.1 hstep, (accepts_of_step h.1.2 hstep).trans h.2⟩)
      ⟨⟨hs, hstop⟩, le_rfl⟩ hlater).2
  have hchance : s.pc.mayAccept ≤ 1 := by cases s.pc <;> simp [Pc.mayAccept]
  obtain ⟨rest, final, hrest, hpc, hfinal, honly⟩ := returns_of_stop hs' hstop'
  refine ⟨?_, by omega, step_or_waits hs', rest, final, hrest, hpc, ?_, honly⟩
  · have hbound := hs.distance_le
    simp only [maxConnections] at hbound
    omega
  · have hlen := hfinal.length_liveWorkers_le
    rw [hpc] at hlen
    exact List.length_eq_zero_iff.mp (Nat.le_zero.mp hlen)

/-- The flag is set while a connection waits to be accepted and another worker runs. -/
theorem shutdown_ends_the_loop_while_accepting :
    ∃ s s', Steps.run step init [.connect, .proceed, .proceed, .proceed, .acceptOk, .connect,
        .proceed, .proceed, .proceed, .proceed, .proceed, .setStop] = some s ∧
      Steps.run step s [.acceptOk, .connect, .proceed, .proceed, .finish 0, .proceed] = some s' ∧
      s'.pc = .join [1] ∧ ∃ rest final, Steps.run step s' rest = some final ∧
        final.pc = .returned ∧ final.liveWorkers = [] := by
  refine ⟨⟨.accept [0], [⟨0, false⟩], true, [1], 2, [0]⟩,
    ⟨.join [1], [⟨0, true⟩, ⟨1, false⟩], true, [2], 3, [0, 1]⟩, by decide, by decide, rfl, ?_⟩
  obtain ⟨-, -, -, rest, final, hrest, hpc, hlive, -⟩ := shutdown_ends_the_loop
    [.connect, .proceed, .proceed, .proceed, .acceptOk, .connect, .proceed, .proceed, .proceed,
      .proceed, .proceed, .setStop]
    [.acceptOk, .connect, .proceed, .proceed, .finish 0, .proceed] _ _
    (show _ = some ⟨.accept [0], [⟨0, false⟩], true, [1], 2, [0]⟩ by decide) rfl
    (show _ = some ⟨.join [1], [⟨0, true⟩, ⟨1, false⟩], true, [2], 3, [0, 1]⟩ by decide)
  exact ⟨rest, final, hrest, hpc, hlive⟩

end Anymount.Nfs.Accept
