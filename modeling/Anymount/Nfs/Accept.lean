import Anymount.Library.Steps

/-!
# The accept loop

`server::run` statement by statement, interleaved with everything that happens beside it:
connections arrive or are given up, workers end, the stop flag is set. A worker is the number
of a thread; the table is what the loop still holds a `JoinHandle` of.
-/
namespace Anymount.Nfs.Accept

open Library

def maxConnections : Nat := 16

/-- A worker thread, with the connection it was given. -/
structure Thread where
  conn : Nat
  finished : Bool
  deriving DecidableEq, Repr

/-- Where the thread of `run` stands, with the table as it is there. -/
inductive Pc where
  /-- Before the load of the stop flag. -/
  | head (workers : List Nat)
  /-- Inside `retain`: what was kept, and what it has not looked at. -/
  | reap (kept todo : List Nat)
  /-- Before the comparison with the cap. -/
  | capacity (workers : List Nat)
  /-- Inside `accept_conn`. -/
  | accept (workers : List Nat)
  /-- With an accepted stream, before the spawn. -/
  | spawn (workers : List Nat) (conn : Nat)
  | sleep (workers : List Nat)
  /-- In the final loop, waiting for the first of these. -/
  | join (todo : List Nat)
  | returned
  deriving DecidableEq, Repr

structure State where
  pc : Pc
  /-- Every thread that was ever spawned; its number is its place. -/
  threads : List Thread
  stop : Bool
  /-- Connections that have arrived and have not been accepted. -/
  backlog : List Nat
  /-- How many have arrived; each is numbered. -/
  arrived : Nat
  /-- What `accept_conn` has returned, in order. -/
  accepted : List Nat
  deriving DecidableEq, Repr

inductive Event where
  | connect
  /-- A client gives up before it is accepted. -/
  | abandon (conn : Nat)
  | finish (worker : Nat)
  | setStop
  | acceptOk
  | acceptErr
  /-- The next statement of `run`, where nothing outside decides its outcome. -/
  | proceed
  deriving DecidableEq, Repr

def init : State := ⟨.head [], [], false, [], 0, []⟩

/-- `JoinHandle::is_finished`. -/
def State.isFinished (s : State) (w : Nat) : Bool :=
  match s.threads[w]? with
  | some t => t.finished
  | none => false

/-- One statement of `run`. Nothing happens while `join` waits, nor after the return. -/
def proceed (s : State) : Option State :=
  match s.pc with
  | .head workers =>
    if s.stop then some { s with pc := .join workers }
    else some { s with pc := .reap [] workers }
  | .reap kept [] => some { s with pc := .capacity kept }
  | .reap kept (w :: todo) =>
    if s.isFinished w then some { s with pc := .reap kept todo }
    else some { s with pc := .reap (kept ++ [w]) todo }
  | .capacity workers =>
    if workers.length ≥ maxConnections then some { s with pc := .sleep workers }
    else some { s with pc := .accept workers }
  | .accept _ => none
  | .spawn workers conn =>
    some { s with
      pc := .head (workers ++ [s.threads.length])
      threads := s.threads ++ [⟨conn, false⟩] }
  | .sleep workers => some { s with pc := .head workers }
  | .join [] => some { s with pc := .returned }
  | .join (w :: todo) => if s.isFinished w then some { s with pc := .join todo } else none
  | .returned => none

def step (s : State) : Event → Option State
  | .connect => some { s with backlog := s.backlog ++ [s.arrived], arrived := s.arrived + 1 }
  | .abandon conn => some { s with backlog := s.backlog.erase conn }
  | .finish w =>
    match s.threads[w]? with
    | some t => some { s with threads := s.threads.set w { t with finished := true } }
    | none => none
  | .setStop => some { s with stop := true }
  | .acceptOk =>
    match s.pc, s.backlog with
    | .accept workers, conn :: backlog =>
      some { s with pc := .spawn workers conn, backlog, accepted := s.accepted ++ [conn] }
    | _, _ => none
  | .acceptErr =>
    match s.pc with
    | .accept workers => some { s with pc := .sleep workers }
    | _ => none
  | .proceed => proceed s

/-! ## What is observed -/

/-- The workers that `run` still holds a handle of. -/
def Pc.table : Pc → List Nat
  | head workers => workers
  | reap kept todo => kept ++ todo
  | capacity workers => workers
  | accept workers => workers
  | spawn workers _ => workers
  | sleep workers => workers
  | join todo => todo
  | returned => []

/-- The connection that was accepted and has no worker yet. -/
def Pc.pending : Pc → List Nat
  | spawn _ conn => [conn]
  | _ => []

/-- Whether the loop has seen that there is room and not used it yet. -/
def Pc.reserved : Pc → Nat
  | accept _ => 1
  | spawn _ _ => 1
  | _ => 0

def State.isAlive (s : State) (w : Nat) : Bool :=
  match s.threads[w]? with
  | some t => !t.finished
  | none => false

def State.liveWorkers (s : State) : List Nat :=
  (List.range s.threads.length).filter s.isAlive

/-! ## What a step does -/

/-- The ways a step can change the state. All that follows is derived from this. -/
inductive Effect (s : State) : State → Prop where
  | connect : Effect s { s with backlog := s.backlog ++ [s.arrived], arrived := s.arrived + 1 }
  | abandon (conn : Nat) : Effect s { s with backlog := s.backlog.erase conn }
  | finish {w : Nat} {t : Thread} : s.threads[w]? = some t →
      Effect s { s with threads := s.threads.set w { t with finished := true } }
  | setStop : Effect s { s with stop := true }
  | accept {workers backlog : List Nat} {conn : Nat} : s.pc = .accept workers →
      s.backlog = conn :: backlog →
      Effect s { s with pc := .spawn workers conn, backlog, accepted := s.accepted ++ [conn] }
  | move {pc : Pc} : pc.table = s.pc.table → s.pc.pending = [] → pc.pending = [] →
      pc.table.length + pc.reserved ≤ max s.pc.table.length maxConnections →
      Effect s { s with pc }
  | drop {pc : Pc} {front back : List Nat} {w : Nat} : s.pc.table = front ++ w :: back →
      pc.table = front ++ back → s.isFinished w = true → s.pc.pending = [] → pc.pending = [] →
      pc.reserved = 0 → Effect s { s with pc }
  | spawn {workers : List Nat} {conn : Nat} : s.pc = .spawn workers conn →
      Effect s { s with
        pc := .head (workers ++ [s.threads.length])
        threads := s.threads ++ [⟨conn, false⟩] }

theorem effect_of_proceed {s s' : State} (h : proceed s = some s') : Effect s s' := by
  obtain ⟨pc, threads, stop, backlog, arrived, accepted⟩ := s
  cases pc with
  | head workers =>
    simp only [proceed] at h
    split_ifs at h <;> cases h
    · exact .move rfl rfl rfl (le_max_left _ _)
    · exact .move rfl rfl rfl (le_max_left _ _)
  | reap kept todo =>
    cases todo with
    | nil =>
      cases h
      exact .move (List.append_nil kept).symm rfl rfl (by simp [Pc.table, Pc.reserved])
    | cons w todo =>
      simp only [proceed] at h
      split_ifs at h with hfinished <;> cases h
      · exact .drop rfl rfl hfinished rfl rfl rfl
      · have htable : (Pc.reap (kept ++ [w]) todo).table = (Pc.reap kept (w :: todo)).table := by
          simp [Pc.table]
        exact .move htable rfl rfl (by rw [htable]; exact le_max_left _ _)
  | capacity workers =>
    simp only [proceed] at h
    split_ifs at h with hfull <;> cases h
    · exact .move rfl rfl rfl (le_max_left _ _)
    · exact .move rfl rfl rfl (le_max_of_le_right (by simpa [Pc.table, Pc.reserved] using hfull))
  | accept workers => cases h
  | spawn workers conn =>
    cases h
    exact .spawn rfl
  | sleep workers =>
    cases h
    exact .move rfl rfl rfl (le_max_left _ _)
  | join todo =>
    cases todo with
    | nil =>
      cases h
      exact .move rfl rfl rfl (le_max_left _ _)
    | cons w todo =>
      simp only [proceed] at h
      split_ifs at h with hfinished
      cases h
      exact .drop (List.nil_append (w :: todo)).symm rfl hfinished rfl rfl rfl
  | returned => cases h

theorem effect_of_step {s s' : State} {e : Event} (h : step s e = some s') : Effect s s' := by
  cases e with
  | connect =>
    cases h
    exact .connect
  | abandon conn =>
    cases h
    exact .abandon conn
  | finish w =>
    simp only [step] at h
    split at h
    · next t ht =>
      cases h
      exact .finish ht
    · cases h
  | setStop =>
    cases h
    exact .setStop
  | acceptOk =>
    simp only [step] at h
    split at h
    · next workers conn backlog hpc hbacklog =>
      cases h
      exact .accept hpc hbacklog
    · cases h
  | acceptErr =>
    obtain ⟨pc, threads, stop, backlog, arrived, accepted⟩ := s
    cases pc with
    | accept workers =>
      cases h
      exact .move rfl rfl rfl (le_max_left _ _)
    | _ => cases h
  | proceed => exact effect_of_proceed h

/-! ## The invariant -/

/-- The table holds each worker once, within the cap, and no live worker is missing. -/
structure TableInv (s : State) : Prop where
  nodup : s.pc.table.Nodup
  spawned : ∀ w ∈ s.pc.table, w < s.threads.length
  room : s.pc.table.length + s.pc.reserved ≤ maxConnections
  live : ∀ w, s.isAlive w = true → w ∈ s.pc.table

/-- The accepted connections are those of the threads, in order, and the one in hand. -/
structure HandedInv (s : State) : Prop where
  handed : s.accepted = s.threads.map Thread.conn ++ s.pc.pending
  distinct : (s.accepted ++ s.backlog).Nodup
  numbered : ∀ c ∈ s.accepted ++ s.backlog, c < s.arrived

section Numbered

variable {ns : List Nat} {n : Nat}

/-- Threads and connections are numbered as they come, so the next number is a new one. -/
theorem nodup_next (hnodup : ns.Nodup) (hlt : ∀ m ∈ ns, m < n) : (ns ++ [n]).Nodup := by
  have hfresh : n ∉ ns := fun hmem => lt_irrefl n (hlt n hmem)
  refine List.nodup_append.mpr ⟨hnodup, List.nodup_singleton n, ?_⟩
  simpa using fun m hm => ne_of_mem_of_not_mem hm hfresh

theorem lt_next (hlt : ∀ m ∈ ns, m < n) : ∀ m ∈ ns ++ [n], m < n + 1 := by
  intro m hm
  rcases List.mem_append.mp hm with hm | hm
  · exact Nat.lt_add_right 1 (hlt m hm)
  · rw [List.mem_singleton.mp hm]
    exact Nat.lt_add_one n

end Numbered

section Alive

variable {s : State} {w : Nat}

theorem not_alive_of_finished (h : s.isFinished w = true) : s.isAlive w = false := by
  unfold State.isFinished at h
  unfold State.isAlive
  split at h
  · simp [h]
  · cases h

theorem alive_of_alive_finish {t : Thread} {v : Nat} (ht : s.threads[v]? = some t)
    (h : State.isAlive { s with threads := s.threads.set v { t with finished := true } } w = true) :
    s.isAlive w = true := by
  unfold State.isAlive at h ⊢
  by_cases hw : v = w
  · subst hw
    have hlt := (List.getElem?_eq_some_iff.mp ht).1
    simp [List.getElem?_set_self hlt] at h
  · simpa [List.getElem?_set_ne hw] using h

theorem alive_of_alive_spawn {pc : Pc} {conn : Nat}
    (h : State.isAlive { s with pc, threads := s.threads ++ [⟨conn, false⟩] } w = true) :
    s.isAlive w = true ∨ w = s.threads.length := by
  unfold State.isAlive at h ⊢
  dsimp only at h
  rcases lt_trichotomy w s.threads.length with hlt | heq | hgt
  · rw [List.getElem?_append_left hlt] at h
    exact .inl h
  · exact .inr heq
  · rw [List.getElem?_eq_none (by simpa using hgt)] at h
    cases h

end Alive

theorem TableInv.keep {s s' : State} (hs : TableInv s) (h : Effect s s') : TableInv s' := by
  cases h with
  | connect => exact ⟨hs.nodup, hs.spawned, hs.room, hs.live⟩
  | abandon conn => exact ⟨hs.nodup, hs.spawned, hs.room, hs.live⟩
  | finish ht =>
    refine ⟨hs.nodup, fun w hw => ?_, hs.room, fun w hw => hs.live w (alive_of_alive_finish ht hw)⟩
    rw [List.length_set]
    exact hs.spawned w hw
  | setStop => exact ⟨hs.nodup, hs.spawned, hs.room, hs.live⟩
  | accept hpc hbacklog =>
    have htable : s.pc.table = _ := congrArg Pc.table hpc
    have hroom := hs.room
    rw [hpc] at hroom
    exact ⟨htable ▸ hs.nodup, htable ▸ hs.spawned, hroom, htable ▸ hs.live⟩
  | move htable _ _ hroom =>
    have hmax : max s.pc.table.length maxConnections = maxConnections :=
      max_eq_right ((Nat.le_add_right _ _).trans hs.room)
    exact ⟨htable ▸ hs.nodup, htable ▸ hs.spawned, hmax ▸ hroom, htable ▸ hs.live⟩
  | @drop pc front back w hbefore hafter hfinished _ _ hreserved =>
    have hsub : pc.table.Sublist s.pc.table := by
      rw [hbefore, hafter]
      exact (List.sublist_cons_self w back).append_left front
    refine ⟨hsub.nodup hs.nodup, fun v hv => hs.spawned v (hsub.subset hv), ?_, fun v hv => ?_⟩
    · have hroom := hs.room
      have hlen := hsub.length_le
      dsimp only
      omega
    · have hne : v ≠ w := by
        rintro rfl
        have hdead := not_alive_of_finished hfinished
        rw [show s.isAlive v = true from hv] at hdead
        cases hdead
      have hmem := hs.live v hv
      rw [hbefore] at hmem
      simpa [hafter, hne] using hmem
  | @spawn workers conn hpc =>
    have htable : s.pc.table = workers := congrArg Pc.table hpc
    obtain ⟨hnodup, hspawned, hroom, hlive⟩ := hs
    rw [hpc] at hroom
    rw [htable] at hnodup hspawned hlive
    refine ⟨nodup_next hnodup hspawned, fun w hw => ?_, ?_, fun w hw => ?_⟩
    · rw [List.length_append]
      exact lt_next hspawned w hw
    · simpa [Pc.table, Pc.reserved] using hroom
    · rcases alive_of_alive_spawn hw with hw | rfl
      · exact List.mem_append_left _ (hlive w hw)
      · exact List.mem_append_right _ (List.mem_singleton_self _)

theorem HandedInv.keep {s s' : State} (hs : HandedInv s) (h : Effect s s') : HandedInv s' := by
  obtain ⟨hhanded, hdistinct, hnumbered⟩ := hs
  cases h with
  | connect =>
    refine ⟨hhanded, ?_, fun c hc => ?_⟩
    · rw [← List.append_assoc]
      exact nodup_next hdistinct hnumbered
    · rw [← List.append_assoc] at hc
      exact lt_next hnumbered c hc
  | abandon conn =>
    have hsub : (s.accepted ++ s.backlog.erase conn).Sublist (s.accepted ++ s.backlog) :=
      List.erase_sublist.append_left _
    exact ⟨hhanded, hsub.nodup hdistinct, fun c hc => hnumbered c (hsub.subset hc)⟩
  | @finish w t ht =>
    refine ⟨?_, hdistinct, hnumbered⟩
    have hconn : (s.threads.set w { t with finished := true }).map Thread.conn =
        s.threads.map Thread.conn := by
      obtain ⟨hlt, rfl⟩ := List.getElem?_eq_some_iff.mp ht
      rw [List.map_set]
      exact List.ext_getElem (by simp) fun i hi hi' => by
        by_cases hw : w = i <;> simp [hw]
    rw [hhanded]
    exact congrArg (· ++ s.pc.pending) hconn.symm
  | setStop => exact ⟨hhanded, hdistinct, hnumbered⟩
  | accept hpc hbacklog =>
    rw [hpc] at hhanded
    rw [hbacklog] at hdistinct hnumbered
    refine ⟨?_, ?_, ?_⟩
    · rw [hhanded, List.append_assoc]
      rfl
    · simpa using hdistinct
    · simpa using hnumbered
  | move _ hpending hpending' _ =>
    exact ⟨by rw [hhanded, hpending, hpending'], hdistinct, hnumbered⟩
  | drop _ _ _ hpending hpending' _ =>
    exact ⟨by rw [hhanded, hpending, hpending'], hdistinct, hnumbered⟩
  | spawn hpc =>
    refine ⟨?_, hdistinct, hnumbered⟩
    rw [hhanded, hpc, List.map_append]
    exact (List.append_nil _).symm

theorem tableInv_init : TableInv init where
  nodup := List.nodup_nil
  spawned := nofun
  room := by decide
  live := nofun

theorem handedInv_init : HandedInv init where
  handed := rfl
  distinct := List.nodup_nil
  numbered := nofun

/-! ## Accounting -/

/-- What holds whenever the loop is looked at. -/
structure Accounted (s : State) : Prop where
  cap : s.liveWorkers.length ≤ maxConnections
  table : ∀ w ∈ s.liveWorkers, w ∈ s.pc.table
  /-- A connection has one worker, or none while the loop is about to spawn it. -/
  given : ∀ c ∈ s.accepted,
    (s.threads.map Thread.conn).count c = if c ∈ s.pc.pending then 0 else 1
  known : ∀ t ∈ s.threads, t.conn ∈ s.accepted
  returned : s.pc = .returned → s.liveWorkers = []

theorem TableInv.liveWorkers_subset {s : State} (h : TableInv s) : s.liveWorkers ⊆ s.pc.table := by
  intro w hw
  exact h.live w (List.mem_filter.mp hw).2

theorem TableInv.length_liveWorkers_le {s : State} (h : TableInv s) :
    s.liveWorkers.length ≤ s.pc.table.length := by
  have hnodup : s.liveWorkers.Nodup := List.nodup_range.filter _
  exact (List.subperm_of_subset hnodup h.liveWorkers_subset).length_le

theorem accounted_of_inv {s : State} (htable : TableInv s) (hhanded : HandedInv s) :
    Accounted s where
  cap := htable.length_liveWorkers_le.trans ((Nat.le_add_right _ _).trans htable.room)
  table := htable.liveWorkers_subset
  given := by
    intro c hc
    have hnodup := (List.nodup_append.mp hhanded.distinct).1
    rw [hhanded.handed] at hc hnodup
    obtain ⟨hthreads, -, hdisjoint⟩ := List.nodup_append.mp hnodup
    rcases List.mem_append.mp hc with hthread | hpending
    · rw [if_neg fun hp => hdisjoint c hthread c hp rfl]
      exact List.count_eq_one_of_mem hthreads hthread
    · rw [if_pos hpending]
      exact List.count_eq_zero.mpr fun hthread => hdisjoint c hthread c hpending rfl
  known := by
    intro t ht
    rw [hhanded.handed]
    exact List.mem_append_left _ (List.mem_map_of_mem ht)
  returned := by
    intro hpc
    have hlen := htable.length_liveWorkers_le
    rw [hpc] at hlen
    exact List.length_eq_zero_iff.mp (Nat.le_zero.mp hlen)

/-- Only a worker that has finished leaves the table. -/
theorem finished_of_left {s s' : State} {w : Nat} (h : Effect s s') (hbefore : w ∈ s.pc.table)
    (hafter : w ∉ s'.pc.table) : s.isFinished w = true := by
  cases h with
  | accept hpc _ =>
    rw [hpc] at hbefore
    exact absurd hbefore hafter
  | move htable _ _ _ => exact absurd hbefore (htable ▸ hafter)
  | drop hold hnew hfinished _ _ _ =>
    have hw := hafter
    rw [hold] at hbefore
    simp only [hnew, List.mem_append, not_or] at hw
    simp only [List.mem_append, List.mem_cons, hw, false_or, or_false] at hbefore
    rwa [hbefore]
  | spawn hpc =>
    rw [hpc] at hbefore
    exact absurd (List.mem_append_left _ hbefore) hafter
  | _ => exact absurd hbefore hafter

/-- However the loop is interleaved with arrivals, accept errors, ending workers and the stop
flag: the workers are accounted for, and one leaves the table only once it has finished. -/
theorem workers_accounted (events : List Event) (s : State)
    (hrun : Steps.run step init events = some s) :
    Accounted s ∧ ∀ (e : Event) (s' : State), step s e = some s' →
      ∀ w ∈ s.pc.table, w ∉ s'.pc.table → s.isFinished w = true := by
  have htable : TableInv s :=
    Steps.run_keeps (fun _ _ _ hs hstep => hs.keep (effect_of_step hstep)) tableInv_init hrun
  have hhanded : HandedInv s :=
    Steps.run_keeps (fun _ _ _ hs hstep => hs.keep (effect_of_step hstep)) handedInv_init hrun
  refine ⟨accounted_of_inv htable hhanded, fun e s' hstep w hbefore hafter => ?_⟩
  exact finished_of_left (effect_of_step hstep) hbefore hafter

/-- Two clients; the first worker ends and is reaped while the second is served, which is
still running when the flag is set. -/
def twoClients : List Event :=
  [.connect, .proceed, .proceed, .proceed, .acceptOk, .connect, .proceed,
    .proceed, .proceed, .proceed, .proceed, .acceptOk, .finish 0, .proceed,
    .proceed, .proceed, .proceed, .proceed, .proceed, .acceptErr, .setStop,
    .proceed, .proceed, .finish 1, .proceed, .proceed]

theorem workers_accounted_two_clients :
    ∃ s, Steps.run step init twoClients = some s ∧ s.pc = .returned ∧ s.accepted = [0, 1] ∧
      s.threads.length = 2 ∧ s.liveWorkers = [] :=
  ⟨⟨.returned, [⟨0, true⟩, ⟨1, true⟩], true, [], 2, [0, 1]⟩, by decide, rfl, rfl, rfl,
    (workers_accounted twoClients _ (by decide)).1.returned rfl⟩

end Anymount.Nfs.Accept
