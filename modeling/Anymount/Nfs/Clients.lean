import Anymount.Nfs.Connection
import Anymount.Nfs.Stateless

/-!
# Clients side by side

Each connection has a worker of its own, and all of them share the filesystem. What a socket
delivers to one worker is no concern of the others, so a worker among others is the loop of
`serve_connection` as a program: its calls are those that handling its messages makes. Over a
filesystem whose content does not change, every client reads the bytes that it would read if
it were the only one.
-/
namespace Anymount.Nfs.Clients

open Library Library.Prog Library.Interleave Library.ChunkStream

/-! ## A worker as a program -/

/-- What of a worker is its own. -/
structure Session where
  input : Incoming
  handled : List Bytes
  output : Bytes

/-- A client, as its socket shows it to the worker: what it sends and when, and whether the
stop flag is seen and the write fails in the `n`-th pass. -/
structure Client where
  input : Incoming
  stop : Nat → Bool
  writeFails : Nat → Bool

section Connection

variable (o : Overflow) (fuel : Nat) (handle : FileHandle3) (config : Config) (client : Client)

/-- The passes from the `n`-th on, at most `passes` of them. -/
def passes : Nat → Nat → Session → ServerProg Session
  | 0, _, s => pure s
  | left + 1, n, s =>
    if client.stop n then pure s
    else match readMessage s.input with
      | (.ok (some body), input) => do
        let handled := s.handled ++ [body]
        match ← handleMessage o fuel handle config body with
        | some reply =>
          if client.writeFails n then pure ⟨input, handled, s.output⟩
          else passes left (n + 1) ⟨input, handled, s.output ++ frame reply⟩
        | none => pure ⟨input, handled, s.output⟩
      | (.ok none, input) => pure { s with input := input }
      | (.error e, input) =>
        if isTimeout e then passes left (n + 1) { s with input := input }
        else pure { s with input := input }

def connection : ServerProg Session :=
  passes o fuel handle config client (client.input.weight + 1) 0 ⟨client.input, [], []⟩

end Connection

section Refines

variable {σ : Type} {o : Overflow} {fuel : Nat} {handle : FileHandle3} {config : Config}
  {client : Client} {env : Handler ServerSig σ}

/-- The program does what the loop does. -/
theorem run_passes {left n : Nat} {s s' : Session} {e e' : σ}
    (hrun : (passes o fuel handle config client left n s).run env e = (.ok s', e')) :
    (serveLoop o fuel handle config env client.stop client.writeFails left n
      ⟨s.input, e, s.handled, s.output⟩).1 = ⟨s'.input, e', s'.handled, s'.output⟩ := by
  induction left generalizing n s e with
  | zero =>
    cases hrun
    rfl
  | succ left ih =>
    rw [passes] at hrun
    rw [serveLoop, servePass]
    split at hrun
    · next hstop =>
      cases hrun
      rw [if_pos hstop]
    · next hstop =>
      rw [if_neg hstop]
      rcases hread : readMessage s.input with ⟨e | _ | body, input⟩
      · rw [hread] at hrun
        dsimp only at hrun ⊢
        split at hrun
        · next htimeout =>
          rw [htimeout]
          exact ih hrun
        · next htimeout =>
          cases hrun
          rw [Bool.eq_false_of_not_eq_true htimeout]
      · rw [hread] at hrun
        cases hrun
        rfl
      · rw [hread] at hrun
        dsimp only at hrun ⊢
        rw [run_bind] at hrun
        rcases hhandle : (handleMessage o fuel handle config body).run env e with
          ⟨why | result, e''⟩
        · rw [hhandle] at hrun
          cases hrun
        · rw [hhandle] at hrun
          cases result with
          | none =>
            cases hrun
            rfl
          | some reply =>
            dsimp only at hrun ⊢
            split at hrun
            · next hfails =>
              cases hrun
              rw [if_pos hfails]
            · next hfails =>
              rw [if_neg hfails]
              exact ih hrun

/-- Without a timeout inside a message, what is handled are the first of the messages that were
still to come. -/
theorem handled_prefix_of_aligned {passes n : Nat} {bodies : List Bytes} {w : Worker σ}
    (h : Schedule bodies w.input) (haligned : Aligned bodies w.input) :
    (serveLoop o fuel handle config env client.stop client.writeFails passes n w).1.handled <+:
      w.handled ++ bodies := by
  induction passes generalizing n bodies w with
  | zero => exact List.prefix_append _ _
  | succ passes ih =>
    obtain ⟨input, e, handled, output⟩ := w
    rw [serveLoop, servePass]
    by_cases hstop : client.stop n = true
    · rw [if_pos hstop]
      exact List.prefix_append _ _
    rw [if_neg hstop]
    cases input with
    | nil => exact List.prefix_append _ _
    | cons event input =>
      cases event with
      | fail e' =>
        obtain ⟨htimeout, hrest⟩ := h.afterTimeout
        simp only [readMessage_fail, htimeout]
        exact ih (w := ⟨input, e, handled, output⟩) hrest
          fun k hk => haligned k (List.mem_cons_of_mem _ hk)
      | data chunk =>
        obtain ⟨hchunk, hbodies⟩ := h.ne_nil_of_data
        cases bodies with
        | nil => exact absurd rfl hbodies
        | cons body bodies =>
          obtain ⟨input', hread, htakes⟩ := readMessage_frame h.proper h.timeouts
            (h.size body List.mem_cons_self) h.contents (quiet_of_data hchunk haligned)
          have hthis : handled ++ [body] <+: handled ++ body :: bodies := ⟨bodies, by simp⟩
          rw [hread]
          dsimp only
          rcases (handleMessage o fuel handle config body).run env e with ⟨why | _ | reply, e'⟩
          · exact hthis
          · exact hthis
          · dsimp only
            by_cases hfails : client.writeFails n = true
            · rw [if_pos hfails]
              exact hthis
            · rw [if_neg hfails]
              have hrest := ih (w := ⟨input', e', handled ++ [body], output ++ frame reply⟩)
                (n := n + 1) (h.tail htakes) (haligned.tail htakes)
              rwa [List.append_assoc, List.singleton_append] at hrest

end Refines

/-! ## Alone with the tree -/

section Alone

variable {o : Overflow} {fuel : Nat} {handle : FileHandle3} {config : Config} {F : Tree}
  {flag : Bool} {client : Client}

/-- A worker does not look at its handles and leaves nothing open. -/
theorem settled_passes (left n : Nat) (s : Session) :
    Tree.Settled (fun _ r => r = flag) (fun _ => flag)
      (passes o fuel handle config client left n s) := by
  induction left generalizing n s with
  | zero => exact Tree.Settled.ret _
  | succ left ih =>
    rw [passes]
    split
    · exact Tree.Settled.ret _
    · split
      · refine Tree.Settled.bind (settled_handleMessage _) fun result => ?_
        cases result with
        | none => exact Tree.Settled.ret _
        | some reply =>
          dsimp only
          split
          · exact Tree.Settled.ret _
          · exact ih _ _
      · exact Tree.Settled.ret _
      · split
        · exact ih _ _
        · exact Tree.Settled.ret _

/-- A call whose handling came to an end got a reply, and left nothing open. -/
theorem reply_of_run {body : Bytes}
    (hheader : ∃ header args, readCallHeader (.new body) = .call header args)
    {result : Option Bytes} {e : Option Ino × Unit}
    (hrun : (handleMessage o fuel handle config body).run (F.aloneWith fun _ => flag) (none, ()) =
      (.ok result, e)) :
    ∃ reply, result = some reply ∧ e = (none, ()) ∧
      aloneReply o fuel handle config F flag body = .ok (some reply) := by
  obtain ⟨header, args, hheader⟩ := hheader
  have hresult := congrArg Prod.fst hrun
  have hsome := (handleMessage_isSome o fuel handle config hheader).run
    (F.aloneWith fun _ => flag).meets_anyAnswer hresult
  obtain ⟨reply, rfl⟩ := Option.isSome_iff_exists.mp hsome
  have hstate := Tree.Settled.run_alone (settled_handleMessage body)
    (fun _ => rfl) hresult
  exact ⟨reply, rfl, congrArg Prod.snd (hrun.symm.trans hstate), hresult⟩

/-- Without a timeout inside a message, a worker that came to the end has answered each message
that was still to come, in order, with the reply that it gets alone. -/
theorem passes_of_aligned (hstop : ∀ n, client.stop n = false)
    (hwrite : ∀ n, client.writeFails n = false) {left n : Nat} {bodies : List Bytes}
    {s s' : Session} {e : Option Ino × Unit} (h : Schedule bodies s.input)
    (haligned : Aligned bodies s.input) (hleft : s.input.weight < left)
    (hrun : (passes o fuel handle config client left n s).run (F.aloneWith fun _ => flag)
      (none, ()) = (.ok s', e)) :
    s'.handled = s.handled ++ bodies ∧
      ∃ sent, bodies.map (aloneReply o fuel handle config F flag) =
          sent.map (fun reply => .ok (some reply)) ∧
        s'.output = s.output ++ wire sent := by
  induction left generalizing n bodies s with
  | zero => omega
  | succ left ih =>
    obtain ⟨input, handled, output⟩ := s
    rw [passes, hstop] at hrun
    match input with
    | [] =>
      have hempty : bodies = [] := by
        cases bodies with
        | nil => rfl
        | cons body bodies =>
          have hcontents : ([] : Bytes) = wire (body :: bodies) := h.contents
          have := congrArg List.length hcontents
          rw [wire_cons, List.length_append, length_frame, List.length_nil] at this
          omega
      subst hempty
      cases hrun
      exact ⟨(List.append_nil _).symm, [], rfl, (List.append_nil _).symm⟩
    | .fail e' :: input =>
      obtain ⟨htimeout, hrest⟩ := h.afterTimeout
      simp only [readMessage_fail, htimeout, Bool.false_eq_true, if_false, if_true] at hrun
      exact ih (s := ⟨input, handled, output⟩) hrest
        (fun k hk => haligned k (List.mem_cons_of_mem _ hk)) (Nat.lt_of_succ_lt_succ hleft) hrun
    | .data chunk :: input =>
      obtain ⟨hchunk, hbodies⟩ := h.ne_nil_of_data
      cases bodies with
      | nil => exact absurd rfl hbodies
      | cons body bodies =>
        obtain ⟨input', hread, htakes⟩ := readMessage_frame h.proper h.timeouts
          (h.size body List.mem_cons_self) h.contents (quiet_of_data hchunk haligned)
        have hweight : input'.weight < left := by
          have := htakes.weight
          rw [length_frame] at this
          omega
        simp only [hread, Bool.false_eq_true, if_false, run_bind] at hrun
        rcases hhandle : (handleMessage o fuel handle config body).run (F.aloneWith fun _ => flag)
          (none, ()) with ⟨why | result, e'⟩
        · rw [hhandle] at hrun
          cases hrun
        · obtain ⟨reply, rfl, rfl, hreply⟩ :=
            reply_of_run (h.header body List.mem_cons_self) hhandle
          simp only [hhandle, hwrite, Bool.false_eq_true, if_false] at hrun
          obtain ⟨hhandled, sent, hsent, houtput⟩ := ih
            (s := ⟨input', handled ++ [body], output ++ frame reply⟩) (h.tail htakes)
            (haligned.tail htakes) hweight hrun
          refine ⟨by rw [hhandled]; simp, reply :: sent, ?_, by rw [houtput]; simp⟩
          rw [List.map_cons, List.map_cons, hreply, hsent]

/-- A worker that halts was handling the last message of its loop, which halts alone. -/
theorem passes_halts {left n : Nat} {s : Session} {why : Halt} {e : Option Ino × Unit}
    (hrun : (passes o fuel handle config client left n s).run (F.aloneWith fun _ => flag)
      (none, ()) = (.error why, e)) :
    ∃ body, (serveLoop o fuel handle config (F.aloneWith fun _ => flag) client.stop
        client.writeFails left n ⟨s.input, (none, ()), s.handled, s.output⟩).1.handled.getLast? =
          some body ∧
      aloneReply o fuel handle config F flag body = .error why := by
  induction left generalizing n s with
  | zero => cases hrun
  | succ left ih =>
    rw [passes] at hrun
    rw [serveLoop, servePass]
    split at hrun
    · cases hrun
    · next hstop =>
      rw [if_neg hstop]
      rcases hread : readMessage s.input with ⟨e' | _ | body, input⟩
      · rw [hread] at hrun
        dsimp only at hrun ⊢
        split at hrun
        · next htimeout =>
          rw [htimeout]
          exact ih hrun
        · cases hrun
      · rw [hread] at hrun
        cases hrun
      · rw [hread] at hrun
        dsimp only at hrun ⊢
        rw [run_bind] at hrun
        rcases hhandle : (handleMessage o fuel handle config body).run (F.aloneWith fun _ => flag)
          (none, ()) with ⟨why' | result, e'⟩
        · rw [hhandle] at hrun ⊢
          cases hrun
          exact ⟨body, List.getLast?_concat, congrArg Prod.fst hhandle⟩
        · -- The message before leaves nothing open, so the next one is handled as if alone too.
          have hstate := Tree.Settled.run_alone (settled_handleMessage body) (fun _ => rfl)
            (congrArg Prod.fst hhandle)
          obtain rfl : e' = (none, ()) := congrArg Prod.snd (hhandle.symm.trans hstate)
          rw [hhandle] at hrun ⊢
          cases result with
          | none => cases hrun
          | some reply =>
            dsimp only at hrun ⊢
            split at hrun
            · cases hrun
            · next hfails =>
              rw [if_neg hfails]
              exact ih hrun

end Alone

/-! ## Any number of clients -/

section Served

variable {o : Overflow} {fuel : Nat} {handle : FileHandle3} {config : Config} {F : Tree}
  {flag : Bool}

/-- Every client has the server for itself. Any number of connections are served side by side,
interleaved at every trait call, over a filesystem whose content does not change and whose
handles are distinct while they are open, while the `serve_mount` flag keeps one value. A
worker that is done has handled and written what the loop of `serve_connection` does when there
is no other client. Where no timeout fell inside a message, each message of the client got, in
order, the reply that it gets alone. A worker that halted was handling a message of its own
client whose handling halts so alone too; and once all are done no file is open. -/
theorem clients_are_served_as_if_alone {clients : List Client}
    {w : Interleave.World ServerSig Session}
    (h : RunOf (F.Answers fun _ r => r = flag) (clients.map (connection o fuel handle config))
      w) :
    (∀ (i : Nat) (client : Client), clients[i]? = some client →
      (∀ s, w.jobs[i]? = some (.ret s) →
        (serveConnection o fuel handle config (F.aloneWith fun _ => flag) client.stop
          client.writeFails client.input (none, ())).1 =
            ⟨s.input, (none, ()), s.handled, s.output⟩ ∧
        ∀ bodies, Schedule bodies client.input → Aligned bodies client.input →
          (∀ n, client.stop n = false) → (∀ n, client.writeFails n = false) →
          s.handled = bodies ∧ ∃ sent,
            bodies.map (aloneReply o fuel handle config F flag) =
              sent.map (fun reply => .ok (some reply)) ∧
            s.output = wire sent) ∧
      ∀ why, w.jobs[i]? = some (.halt why) → ∃ body,
        (serveConnection o fuel handle config (F.aloneWith fun _ => flag) client.stop
          client.writeFails client.input (none, ())).1.handled.getLast? = some body ∧
        aloneReply o fuel handle config F flag body = .error why ∧
        ∀ bodies, Schedule bodies client.input → Aligned bodies client.input → body ∈ bodies) ∧
    ((∀ p ∈ w.jobs, ∃ s, p = .ret s) → Ownership.table (Tree.act FlagSig) w.log = .empty) := by
  have hsettled : ∀ p ∈ clients.map (connection o fuel handle config),
      Tree.Settled (fun _ r => r = flag) (fun _ => flag) p := by
    intro p hp
    obtain ⟨client, -, rfl⟩ := List.mem_map.mp hp
    exact settled_passes _ _ _
  obtain ⟨halone, hdrained⟩ := Tree.as_alone hsettled h
  refine ⟨fun i client hclient => ⟨fun s hs => ?_, fun why hwhy => ?_⟩, hdrained⟩
  · have hserved := ((halone i _ (getElem?_map_of_eq hclient)).1 s hs).1
    refine ⟨run_passes hserved, fun bodies hschedule haligned hstop hwrite => ?_⟩
    exact passes_of_aligned (s := ⟨client.input, [], []⟩) hstop hwrite hschedule haligned
      (Nat.lt_succ_self _) hserved
  · have hhalted := (halone i _ (getElem?_map_of_eq hclient)).2 why hwhy
    obtain ⟨body, hlast, hbody⟩ :=
      passes_halts (s := ⟨client.input, [], []⟩) (Prod.ext hhalted rfl)
    refine ⟨body, hlast, hbody, fun bodies hschedule haligned => ?_⟩
    have hmem := List.mem_of_getLast? hlast
    exact List.IsPrefix.subset (handled_prefix_of_aligned hschedule haligned) hmem

end Served

/-! ## Two clients -/

/-- Both send a `READ` of `hello.txt`, the second after a `NULL` call and a timeout. -/
def firstClient : Client :=
  ⟨[.data (wire [helloMessage])], fun _ => false, fun _ => false⟩

def secondClient : Client :=
  ⟨cutAt 44 (wire [nullCall 7, helloMessage]), fun _ => false, fun _ => false⟩

def twoClients : Interleave.World ServerSig Session :=
  [0, 1, 1, 0, 0, 1, 0, 1].foldl (Interleave.World.turn (flagged (.new 0 0) false) (.new, ()))
    ⟨[firstClient, secondClient].map
      (connection .wraps 0 ⟨List.replicate 16 0, length_zeroSecret⟩ localConfig), []⟩

theorem schedule_secondClient : Schedule [nullCall 7, helloMessage] secondClient.input := by
  refine ⟨by decide +kernel, ?_, ?_, ?_, by decide +kernel⟩
  · intro body hbody
    simp only [List.mem_cons, List.not_mem_nil, or_false] at hbody
    obtain rfl | rfl := hbody
    · exact ⟨_, _, rfl⟩
    · exact ⟨_, _, rfl⟩
  · intro chunk hchunk
    simp only [secondClient, cutAt, List.mem_cons, Event.data.injEq, reduceCtorEq,
      List.not_mem_nil, or_false, false_or] at hchunk
    obtain rfl | rfl := hchunk
    · decide +kernel
    · decide +kernel
  · intro e he
    obtain rfl : e = ⟨.wouldBlock, none, ""⟩ := by simpa [secondClient, cutAt] using he
    rfl

theorem aligned_secondClient : Aligned [nullCall 7, helloMessage] secondClient.input := by
  intro k hk
  rw [secondClient, failOffsets_cutAt (by decide +kernel), List.mem_singleton] at hk
  exact ⟨[nullCall 7], by simp, by rw [hk]; decide +kernel⟩

theorem opens_twoClients : MemFs.opens twoClients.log + 2 < 2 ^ 64 := by decide +kernel

set_option maxRecDepth 100000 in
theorem clients_are_served_as_if_alone_two :
    ∃ s, twoClients.jobs[1]? = some (.ret s) ∧ s.handled = [nullCall 7, helloMessage] := by
  have htree := (MemFs.runOf_tree (m := .new 0 0) (R := fun _ r => r = false) (fun _ _ => rfl)
    (RunOf.turns _ _ _ _) (w := twoClients) opens_twoClients).1
  have hsecond : (twoClients.jobs[1]?.bind returned).isSome = true := by rfl
  obtain ⟨s, hreturned⟩ := Option.isSome_iff_exists.mp hsecond
  have hjob := getElem?_of_returned hreturned
  have hserved := (((clients_are_served_as_if_alone htree).1 1 secondClient rfl).1 s hjob).2 _
    schedule_secondClient aligned_secondClient (fun _ => rfl) fun _ => rfl
  exact ⟨s, hjob, hserved.1⟩

end Anymount.Nfs.Clients
