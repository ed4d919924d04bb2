import Anymount.Nfs.Exchange
import Anymount.Nfs.Framing

/-!
# Serving one connection

The loop that reads a message, handles it and writes the reply. Reads carry a timeout so
that the worker also notices shutdown; a read that timed out makes the loop start over
with the next record mark.
-/
namespace Anymount.Nfs

open Library Library.ChunkStream

/-! ## The loop -/

/-- One connection's worker: what is still to arrive, the filesystem and the flag, the
bodies passed to `handle_message` so far and the bytes written. -/
structure Worker (σ : Type) where
  input : Incoming
  env : σ
  handled : List Bytes
  output : Bytes

section Serve

variable {σ : Type} (o : Overflow) (fuel : Nat) (handle : FileHandle3) (config : Config)
  (env : Handler ServerSig σ) (stop writeFails : Nat → Bool)

/-- One pass of the loop, the `n`-th: the worker after it, and whether the loop goes on.
`stop n` is the value the pass loads, `writeFails n` whether its write fails. A panic while
handling the message ends the worker's thread. -/
def servePass (n : Nat) (w : Worker σ) : Worker σ × Bool :=
  if stop n then (w, false)
  else match readMessage w.input with
    | (.ok (some body), input) =>
      match (handleMessage o fuel handle config body).run env w.env with
      | (.ok (some reply), e) =>
        if writeFails n then (⟨input, e, w.handled ++ [body], w.output⟩, false)
        else (⟨input, e, w.handled ++ [body], w.output ++ frame reply⟩, true)
      | (.ok none, e) => (⟨input, e, w.handled ++ [body], w.output⟩, false)
      | (.error _, e) => (⟨input, e, w.handled ++ [body], w.output⟩, false)
    | (.ok none, input) => ({ w with input := input }, false)
    | (.error e, input) => ({ w with input := input }, isTimeout e)

/-- The passes from the `n`-th on, at most `passes` of them. -/
def serveLoop : Nat → Nat → Worker σ → Worker σ × Bool
  | 0, _, w => (w, true)
  | passes + 1, n, w =>
    match servePass o fuel handle config env stop writeFails n w with
    | (w, true) => serveLoop passes (n + 1) w
    | (w, false) => (w, false)

/-- Every pass uses up something of the stream or leaves the loop, so the stream bounds the
passes. -/
def serveConnection (input : Incoming) (e : σ) : Worker σ × Bool :=
  serveLoop o fuel handle config env stop writeFails (input.weight + 1) 0 ⟨input, e, [], []⟩

/-- The replies to messages handled one after the other. -/
def replies : List Bytes → σ → List Bytes
  | [], _ => []
  | body :: bodies, e =>
    match (handleMessage o fuel handle config body).run env e with
    | (.ok (some reply), e) => reply :: replies bodies e
    | (_, e) => replies bodies e

end Serve

/-! ## What a schedule must not do -/

/-- The byte offset `k` is between two messages, or at either end. -/
def Boundary (bodies : List Bytes) (k : Nat) : Prop :=
  ∃ done, done <+: bodies ∧ k = (wire done).length

theorem Boundary.append {bodies : List Bytes} {k : Nat} (h : Boundary bodies k)
    (more : List Bytes) : Boundary (bodies ++ more) k := by
  obtain ⟨done, hdone, rfl⟩ := h
  exact ⟨done, hdone.trans (List.prefix_append _ _), rfl⟩

theorem boundary_cons {body : Bytes} {bodies : List Bytes} {k : Nat}
    (h : Boundary (body :: bodies) k) :
    k = 0 ∨ ∃ k', Boundary bodies k' ∧ k = k' + (frame body).length := by
  obtain ⟨done, hdone, rfl⟩ := h
  rcases List.prefix_cons_iff.mp hdone with rfl | ⟨done, rfl, hpre⟩
  · exact .inl rfl
  · exact .inr ⟨_, ⟨done, hpre, rfl⟩, by simp only [wire_cons, List.length_append]; omega⟩

/-- The socket delivers the frames of `bodies`, cut up in any way, with timeouts anywhere. -/
structure Schedule (bodies : List Bytes) (input : Incoming) : Prop where
  size : ∀ body ∈ bodies, body.length ≤ maxFragmentLen.toNat
  header : ∀ body ∈ bodies, ∃ header args, readCallHeader (.new body) = .call header args
  proper : input.Proper
  timeouts : OnlyTimeouts input
  contents : input.contents = wire bodies

/-- No timeout inside a message. -/
def Aligned (bodies : List Bytes) (input : Incoming) : Prop :=
  ∀ k ∈ input.failOffsets, Boundary bodies k

section Proofs

variable {σ : Type} (o : Overflow) (fuel : Nat) (handle : FileHandle3) (config : Config)
  (env : Handler ServerSig σ) (stop writeFails : Nat → Bool)

/-- What the worker has taken off `input` so far is at least what it has handled; if it is
no more than that, every timeout it met was at a boundary. -/
def Accounts (input : Incoming) (w : Worker σ) : Prop :=
  ∃ taken, input.contents = taken ++ w.input.contents ∧
    (wire w.handled).length ≤ taken.length ∧
    ((wire w.handled).length = taken.length → ∀ k ∈ input.failOffsets,
      Boundary w.handled k ∨ ∃ k' ∈ w.input.failOffsets, k = k' + taken.length)

/-- Bytes that no message accounts for. -/
theorem Accounts.lose {input : Incoming} {w : Worker σ} {lost : Bytes} {s' : Incoming}
    (h : Accounts input w) (htakes : Takes w.input lost s') :
    Accounts input { w with input := s' } := by
  obtain ⟨taken, hcontents, hle, hexact⟩ := h
  refine ⟨taken ++ lost, ?_, ?_, ?_⟩
  · rw [hcontents, htakes.contents, List.append_assoc]
  · rw [List.length_append]
    exact hle.trans (Nat.le_add_right _ _)
  · intro heq k hk
    rw [List.length_append] at heq ⊢
    simp only at heq hle
    refine (hexact (by omega) k hk).imp id ?_
    rintro ⟨k', hk', rfl⟩
    rw [htakes.offsets] at hk'
    obtain ⟨k'', hk'', rfl⟩ := List.mem_map.mp hk'
    exact ⟨k'', hk'', by omega⟩

/-- A timeout, met with nothing lost since the last boundary or else never mind. -/
theorem Accounts.timeout {input : Incoming} {w : Worker σ} {e : IoError} {s' : Incoming}
    (h : Accounts input w) (hinput : w.input = .fail e :: s') :
    Accounts input { w with input := s' } := by
  obtain ⟨taken, hcontents, hle, hexact⟩ := h
  rw [hinput] at hcontents hexact
  refine ⟨taken, hcontents, hle, ?_⟩
  intro heq k hk
  rcases hexact heq k hk with hk | ⟨k', hk', rfl⟩
  · exact .inl hk
  · rcases List.mem_cons.mp hk' with rfl | hk'
    · exact .inl ⟨w.handled, List.prefix_refl _, by simp only at heq; omega⟩
    · exact .inr ⟨k', hk', rfl⟩

/-- A message taken off the stream and handled. -/
theorem Accounts.message {input : Incoming} {w w' : Worker σ} {hdr body : Bytes}
    (h : Accounts input w) (hhdr : hdr.length = 4) (htakes : Takes w.input (hdr ++ body) w'.input)
    (hhandled : w'.handled = w.handled ++ [body]) : Accounts input w' := by
  obtain ⟨taken, hcontents, hle, hexact⟩ := h
  have hwire : (wire w'.handled).length = (wire w.handled).length + (hdr ++ body).length := by
    simp [hhandled, hhdr]
  have htaken : (taken ++ (hdr ++ body)).length = taken.length + (hdr ++ body).length :=
    List.length_append
  refine ⟨taken ++ (hdr ++ body), ?_, ?_, ?_⟩
  · rw [hcontents, htakes.contents]
    simp only [List.append_assoc]
  · omega
  · intro heq k hk
    rw [hhandled, htaken]
    refine (hexact (by omega) k hk).imp (·.append [body]) ?_
    rintro ⟨k', hk', rfl⟩
    rw [htakes.offsets] at hk'
    obtain ⟨k'', hk'', rfl⟩ := List.mem_map.mp hk'
    exact ⟨k'', hk'', by omega⟩

/-- What a worker on `input` maintains. -/
structure Serving (input : Incoming) (w : Worker σ) : Prop where
  accounts : Accounts input w
  proper : w.input.Proper
  timeouts : OnlyTimeouts w.input

theorem Serving.lose {input : Incoming} {w : Worker σ} {lost : Bytes} {s' : Incoming}
    (h : Serving input w) (htakes : Takes w.input lost s') : Serving input { w with input := s' } :=
  ⟨h.accounts.lose htakes, htakes.proper h.proper, h.timeouts.of_takes htakes⟩

theorem Serving.timeout {input : Incoming} {w : Worker σ} {e : IoError} {s' : Incoming}
    (h : Serving input w) (hinput : w.input = .fail e :: s') :
    Serving input { w with input := s' } := by
  obtain ⟨haccounts, hproper, htimeouts⟩ := h
  refine ⟨haccounts.timeout hinput, ?_, ?_⟩
  · exact fun chunk hchunk => hproper chunk (hinput ▸ List.mem_cons_of_mem _ hchunk)
  · exact fun e he => htimeouts e (hinput ▸ List.mem_cons_of_mem _ he)

/-- One pass keeps the account, and if the loop goes on it has used up some of the stream. -/
theorem servePass_serving {input : Incoming} {w : Worker σ} (h : Serving input w) (n : Nat) :
    Serving input (servePass o fuel handle config env stop writeFails n w).1 ∧
      ((servePass o fuel handle config env stop writeFails n w).2 = true →
        (servePass o fuel handle config env stop writeFails n w).1.input.weight <
          w.input.weight) := by
  unfold servePass
  by_cases hstop : stop n
  · rw [if_pos hstop]
    exact ⟨h, nofun⟩
  rw [if_neg hstop]
  rcases readMessage_cases h.proper h.timeouts with ⟨hdr, body, s', hhdr, hread, htakes⟩ |
    ⟨hread, htakes⟩ | ⟨e, lost, s', he, hread, htakes⟩ | ⟨e, lost, s', he, hread, htakes⟩
  · have hserved : ∀ e out, Serving input (⟨s', e, w.handled ++ [body], out⟩ : Worker σ) :=
      fun e out => ⟨h.accounts.message hhdr htakes rfl, htakes.proper h.proper,
        h.timeouts.of_takes htakes⟩
    have hweight : s'.weight < w.input.weight := by
      have := htakes.weight
      rw [List.length_append] at this
      omega
    rw [hread]
    simp only
    rcases (handleMessage o fuel handle config body).run env w.env with ⟨_ | _ | reply, e⟩
    · exact ⟨hserved _ _, nofun⟩
    · exact ⟨hserved _ _, nofun⟩
    · simp only
      split
      · exact ⟨hserved _ _, nofun⟩
      · exact ⟨hserved _ _, fun _ => hweight⟩
  · rw [hread]
    exact ⟨h.lose htakes, nofun⟩
  · rw [hread]
    refine ⟨(h.lose htakes).timeout rfl, fun _ => ?_⟩
    have := htakes.weight
    simp only [ChunkStream.weight] at this
    show s'.weight < w.input.weight
    omega
  · rw [hread]
    exact ⟨h.lose htakes, fun hgoes => absurd hgoes he⟩

theorem serveLoop_serving {input : Incoming} {w : Worker σ} (h : Serving input w) (passes n : Nat)
    (hpasses : w.input.weight < passes) :
    Serving input (serveLoop o fuel handle config env stop writeFails passes n w).1 ∧
      (serveLoop o fuel handle config env stop writeFails passes n w).2 = false := by
  induction passes generalizing w n with
  | zero => omega
  | succ passes ih =>
    obtain ⟨hserving, hweight⟩ :=
      servePass_serving o fuel handle config env stop writeFails h n
    rw [serveLoop]
    rcases hpass : servePass o fuel handle config env stop writeFails n w with ⟨w', _ | _⟩
    · rw [hpass] at hserving
      exact ⟨hserving, rfl⟩
    · rw [hpass] at hserving hweight
      exact ih hserving (n + 1) ((hweight rfl).trans_le (Nat.le_of_lt_succ hpasses))

theorem serveConnection_serving {input : Incoming} (hproper : input.Proper)
    (htimeouts : OnlyTimeouts input) (e : σ) :
    Serving input (serveConnection o fuel handle config env stop writeFails input e).1 ∧
      (serveConnection o fuel handle config env stop writeFails input e).2 = false := by
  have hstart : Serving input (⟨input, e, [], []⟩ : Worker σ) := by
    refine ⟨⟨[], rfl, le_rfl, ?_⟩, hproper, htimeouts⟩
    intro _ k hk
    exact .inr ⟨k, hk, rfl⟩
  exact serveLoop_serving o fuel handle config env stop writeFails hstart _ 0 (Nat.lt_succ_self _)

/-- If every message reached `handle_message`, no byte was lost, so no timeout fell inside
a message. -/
theorem aligned_of_handled {bodies : List Bytes} {input : Incoming} {w : Worker σ}
    (hcontents : input.contents = wire bodies) (h : Serving input w)
    (hhandled : w.handled = bodies) : Aligned bodies input := by
  obtain ⟨taken, hsplit, hle, hexact⟩ := h.accounts
  rw [hhandled] at hle hexact
  have hlen := congrArg List.length hsplit
  rw [hcontents, List.length_append] at hlen
  intro k hk
  rcases hexact (by omega) k hk with hk | ⟨k', hk', rfl⟩
  · exact hk
  · have := le_length_contents hk'
    exact ⟨bodies, List.prefix_refl _, by omega⟩

/-- Handling a message with a call header never returns `None`. -/
theorem handleMessage_isSome {body : Bytes} {header : CallHeader} {args : Reader}
    (h : readCallHeader (.new body) = .call header args) :
    (handleMessage o fuel handle config body).Safe (anyAnswer ServerSig) (·.isSome) := by
  rw [handleMessage, h, Prog.Safe, Prog.wp_bind]
  exact Prog.wp_mono (Prog.wp_true _) fun _ _ => rfl

/-- The handling of each message returns, whatever came before. -/
def Returns (bodies : List Bytes) : Prop :=
  ∀ body ∈ bodies, ∀ e, ∃ result,
    ((handleMessage o fuel handle config body).run env e).1 = .ok result

theorem run_eq_some {bodies : List Bytes} (hreturns : Returns o fuel handle config env bodies)
    {body : Bytes} (hbody : body ∈ bodies)
    (hheader : ∃ header args, readCallHeader (.new body) = .call header args) (e : σ) :
    ∃ reply e', (handleMessage o fuel handle config body).run env e = (.ok (some reply), e') := by
  obtain ⟨result, hresult⟩ := hreturns body hbody e
  obtain ⟨header, args, hheader⟩ := hheader
  have hsome := (handleMessage_isSome o fuel handle config hheader).run env.meets_anyAnswer hresult
  obtain ⟨reply, rfl⟩ := Option.isSome_iff_exists.mp hsome
  exact ⟨reply, _, Prod.ext hresult rfl⟩

/-- One reply for each message. -/
theorem length_replies {bodies : List Bytes} (hreturns : Returns o fuel handle config env bodies)
    (hheader : ∀ body ∈ bodies, ∃ header args, readCallHeader (.new body) = .call header args)
    (e : σ) : (replies o fuel handle config env bodies e).length = bodies.length := by
  induction bodies generalizing e with
  | nil => rfl
  | cons body bodies ih =>
    obtain ⟨reply, e', hrun⟩ :=
      run_eq_some o fuel handle config env hreturns List.mem_cons_self
        (hheader body List.mem_cons_self) e
    have htail := ih (fun b hb => hreturns b (List.mem_cons_of_mem _ hb))
      (fun b hb => hheader b (List.mem_cons_of_mem _ hb)) e'
    simp only [replies, hrun, List.length_cons, htail]

theorem readMessage_fail (e : IoError) (s : Incoming) :
    readMessage (.fail e :: s) = (.error e, s) := rfl

/-- A schedule that goes on with data has no timeout before the end of the first message. -/
theorem quiet_of_data {body : Bytes} {bodies : List Bytes} {chunk : Bytes} {s : Incoming}
    (hchunk : chunk ≠ []) (haligned : Aligned (body :: bodies) (.data chunk :: s)) :
    ∀ k ∈ failOffsets (.data chunk :: s), (frame body).length ≤ k := by
  intro k hk
  rcases boundary_cons (haligned k hk) with rfl | ⟨k', -, rfl⟩
  · obtain ⟨k', -, hzero⟩ := List.mem_map.mp hk
    have := List.length_pos_iff.mpr hchunk
    omega
  · omega

/-- What follows a read that timed out. -/
theorem Schedule.afterTimeout {bodies : List Bytes} {e : IoError} {s : Incoming}
    (h : Schedule bodies (.fail e :: s)) : isTimeout e = true ∧ Schedule bodies s :=
  ⟨h.timeouts e List.mem_cons_self, h.size, h.header,
    fun chunk hchunk => h.proper chunk (List.mem_cons_of_mem _ hchunk),
    fun e he => h.timeouts e (List.mem_cons_of_mem _ he), h.contents⟩

/-- Where bytes arrive, there is a message to come. -/
theorem Schedule.ne_nil_of_data {bodies : List Bytes} {chunk : Bytes} {s : Incoming}
    (h : Schedule bodies (.data chunk :: s)) : chunk ≠ [] ∧ bodies ≠ [] := by
  have hchunk : chunk ≠ [] := h.proper chunk List.mem_cons_self
  refine ⟨hchunk, ?_⟩
  rintro rfl
  have hcontents : chunk ++ ChunkStream.contents s = [] := h.contents
  exact hchunk (List.append_eq_nil_iff.mp hcontents).1

/-- The schedule that is left once the first message has been taken off. -/
theorem Schedule.tail {body : Bytes} {bodies : List Bytes} {s s' : Incoming}
    (h : Schedule (body :: bodies) s) (htakes : Takes s (frame body) s') : Schedule bodies s' := by
  obtain ⟨hsize, hheader, hproper, htimeouts, hcontents⟩ := h
  refine ⟨fun b hb => hsize b (List.mem_cons_of_mem _ hb),
    fun b hb => hheader b (List.mem_cons_of_mem _ hb), htakes.proper hproper,
    htimeouts.of_takes htakes, ?_⟩
  rw [htakes.contents, wire_cons] at hcontents
  exact List.append_cancel_left hcontents

theorem Aligned.tail {body : Bytes} {bodies : List Bytes} {s s' : Incoming}
    (h : Aligned (body :: bodies) s) (htakes : Takes s (frame body) s') : Aligned bodies s' := by
  intro k hk
  have hshift : k + (frame body).length ∈ s.failOffsets := by
    rw [htakes.offsets]
    exact List.mem_map.mpr ⟨k, hk, rfl⟩
  rcases boundary_cons (h _ hshift) with hzero | ⟨k', hk', heq⟩
  · simp at hzero
  · obtain rfl : k = k' := by omega
    exact hk'

/-- Without a timeout inside a message, the loop handles and answers what is still to come,
in order. -/
theorem serveLoop_of_aligned (hstop : ∀ n, stop n = false) (hwrite : ∀ n, writeFails n = false)
    (passes n : Nat) {bodies : List Bytes} {w : Worker σ} (h : Schedule bodies w.input)
    (hreturns : Returns o fuel handle config env bodies) (haligned : Aligned bodies w.input)
    (hpasses : w.input.weight < passes) :
    (serveLoop o fuel handle config env stop writeFails passes n w).1.handled =
        w.handled ++ bodies ∧
      (serveLoop o fuel handle config env stop writeFails passes n w).1.output =
        w.output ++ wire (replies o fuel handle config env bodies w.env) := by
  induction passes generalizing n bodies w with
  | zero => omega
  | succ passes ih =>
    obtain ⟨input, e, handled, output⟩ := w
    rw [serveLoop, servePass, hstop]
    match input with
    | [] =>
      -- The peer has closed, and every message has been taken off.
      have hempty : bodies = [] := by
        cases bodies with
        | nil => rfl
        | cons body bodies =>
          have hcontents : ([] : Bytes) = wire (body :: bodies) := h.contents
          have := congrArg List.length hcontents
          rw [wire_cons, List.length_append, length_frame, List.length_nil] at this
          omega
      subst hempty
      exact ⟨(List.append_nil _).symm, (List.append_nil _).symm⟩
    | .fail e' :: s =>
      obtain ⟨htimeout, hrest⟩ := h.afterTimeout
      simp only [readMessage_fail, htimeout, Bool.false_eq_true, if_false]
      exact ih (n + 1) (w := ⟨s, e, handled, output⟩) hrest hreturns
        (fun k hk => haligned k (List.mem_cons_of_mem _ hk)) (Nat.lt_of_succ_lt_succ hpasses)
    | .data chunk :: s =>
      obtain ⟨hchunk, hbodies⟩ := h.ne_nil_of_data
      cases bodies with
      | nil => exact absurd rfl hbodies
      | cons body bodies =>
        obtain ⟨s', hread, htakes⟩ := readMessage_frame h.proper h.timeouts
          (h.size body List.mem_cons_self) h.contents (quiet_of_data hchunk haligned)
        obtain ⟨reply, e', hrun⟩ := run_eq_some o fuel handle config env hreturns
          List.mem_cons_self (h.header body List.mem_cons_self) e
        have hweight : s'.weight < passes := by
          have := htakes.weight
          rw [length_frame] at this
          omega
        obtain ⟨hhandled, houtput⟩ := ih (n + 1)
          (w := ⟨s', e', handled ++ [body], output ++ frame reply⟩) (h.tail htakes)
          (fun b hb => hreturns b (List.mem_cons_of_mem _ hb)) (haligned.tail htakes) hweight
        simp only [hread, hrun, hwrite, Bool.false_eq_true, if_false, hhandled, houtput, replies]
        simp

/-- The loop handles exactly the messages sent, in order, and writes exactly one framed
reply for each, if and only if no read timeout falls inside a message. In any case it ends
when the peer closes. -/
theorem serveConnection_resynchronises_iff (hstop : ∀ n, stop n = false)
    (hwrite : ∀ n, writeFails n = false) {bodies : List Bytes} {input : Incoming}
    (h : Schedule bodies input) (hreturns : Returns o fuel handle config env bodies) (e : σ) :
    let served := serveConnection o fuel handle config env stop writeFails input e
    served.2 = false ∧
      ((served.1.handled = bodies ∧
          ∃ sent, sent = replies o fuel handle config env bodies e ∧
            sent.length = bodies.length ∧ served.1.output = wire sent) ↔
        ∀ k ∈ input.failOffsets, Boundary bodies k) := by
  obtain ⟨hserving, hended⟩ :=
    serveConnection_serving o fuel handle config env stop writeFails h.proper h.timeouts e
  refine ⟨hended, fun hserved => aligned_of_handled h.contents hserving hserved.1, ?_⟩
  intro haligned
  obtain ⟨hhandled, houtput⟩ := serveLoop_of_aligned o fuel handle config env stop writeFails hstop
    hwrite (input.weight + 1) 0 (w := ⟨input, e, [], []⟩) h hreturns haligned (Nat.lt_succ_self _)
  exact ⟨hhandled, _, rfl, length_replies o fuel handle config env hreturns h.header e, houtput⟩

end Proofs

/-! ### A schedule of each kind -/

/-- A call of the NFS program's `NULL` procedure. -/
def nullCall (xid : UInt32) : Bytes := callMessage xid 0 []

section NullCalls

variable (o : Overflow) (fuel : Nat) (handle : FileHandle3) (config : Config)

theorem handleMessage_nullCall (xid : UInt32) :
    handleMessage o fuel handle config (nullCall xid) =
      .ret (some (buildReply xid (.success .new))) := by
  obtain ⟨args, hcall, -⟩ := nfsCall_callMessage xid 0 []
  exact handleMessage_of_nfsCall o fuel handle config hcall

theorem schedule_nullCalls {xids : List UInt32} {input : Incoming} (hproper : input.Proper)
    (htimeouts : OnlyTimeouts input) (hcontents : input.contents = wire (xids.map nullCall)) :
    Schedule (xids.map nullCall) input := by
  refine ⟨?_, ?_, hproper, htimeouts, hcontents⟩
  · rw [List.forall_mem_map]
    intro xid _
    simp [nullCall, callMessage, callTo, maxFragmentLen]
  · rw [List.forall_mem_map]
    intro xid _
    obtain ⟨args, hcall, -⟩ := nfsCall_callMessage xid 0 []
    exact ⟨_, args, hcall⟩

theorem returns_nullCalls {σ : Type} (env : Handler ServerSig σ) (xids : List UInt32) :
    Returns o fuel handle config env (xids.map nullCall) := by
  unfold Returns
  rw [List.forall_mem_map]
  intro xid _ e
  rw [handleMessage_nullCall]
  exact ⟨_, rfl⟩

end NullCalls

/-- The bytes arrive in two chunks with a read timeout between them. -/
def cutAt (k : Nat) (bytes : Bytes) : Incoming :=
  [.data (bytes.take k), .fail ⟨.wouldBlock, none, ""⟩, .data (bytes.drop k)]

theorem schedule_cutAt (k : Nat) (xids : List UInt32) (hpos : 0 < k)
    (hlt : k < (wire (xids.map nullCall)).length) :
    Schedule (xids.map nullCall) (cutAt k (wire (xids.map nullCall))) := by
  refine schedule_nullCalls ?_ ?_ ?_
  · intro chunk hchunk
    simp only [cutAt, List.mem_cons, Event.data.injEq, reduceCtorEq, List.not_mem_nil, or_false,
      false_or] at hchunk
    rw [← List.length_pos_iff]
    rcases hchunk with rfl | rfl
    · rw [List.length_take]
      omega
    · rw [List.length_drop]
      omega
  · intro e he
    obtain rfl : e = ⟨.wouldBlock, none, ""⟩ := by simpa [cutAt] using he
    rfl
  · simp [cutAt, ChunkStream.contents]

theorem failOffsets_cutAt {k : Nat} {bytes : Bytes} (hlt : k < bytes.length) :
    (cutAt k bytes).failOffsets = [k] := by
  simp [cutAt, failOffsets]
  omega

/-- Serving `NULL` calls that arrive in two chunks. -/
def serveCut (k : Nat) (xids : List UInt32) : Worker (MemFs.State × Bool) :=
  (serveConnection .wraps 0 ⟨List.replicate 16 0, length_zeroSecret⟩ localConfig memServer
    (fun _ => false) (fun _ => false) (cutAt k (wire (xids.map nullCall))) (.new, false)).1

theorem serveConnection_resynchronises_iff_between_calls :
    (serveCut 44 [7, 8]).handled = [7, 8].map nullCall := by
  have hwire : (wire ([7, 8].map nullCall)).length = 88 := by decide
  have hiff := (serveConnection_resynchronises_iff .wraps 0 ⟨List.replicate 16 0, rfl⟩ localConfig
    memServer _ _ (fun _ => rfl) (fun _ => rfl)
    (schedule_cutAt 44 [7, 8] (by decide) (by rw [hwire]; decide))
    (returns_nullCalls _ _ _ _ _ _) (.new, false)).2
  refine (hiff.mpr ?_).1
  intro k hk
  rw [failOffsets_cutAt (by rw [hwire]; decide), List.mem_singleton] at hk
  exact ⟨[nullCall 7], by simp, by rw [hk]; decide⟩

/-- Two bytes of a record mark, a timeout, the rest: the message never reaches
`handle_message`. -/
theorem serveConnection_loses_split_message :
    Schedule ([7].map nullCall) (cutAt 2 (wire ([7].map nullCall))) ∧
      Returns .wraps 0 ⟨List.replicate 16 0, rfl⟩ localConfig memServer ([7].map nullCall) ∧
      (serveCut 2 [7]).handled ≠ [7].map nullCall := by
  have hwire : (wire ([7].map nullCall)).length = 44 := by decide
  have hschedule := schedule_cutAt 2 [7] (by decide) (by rw [hwire]; decide)
  refine ⟨hschedule, returns_nullCalls _ _ _ _ _ [7], ?_⟩
  intro hhandled
  have hserving := (serveConnection_serving .wraps 0 ⟨List.replicate 16 0, rfl⟩ localConfig
    memServer (fun _ => false) (fun _ => false) hschedule.proper hschedule.timeouts (.new, false)).1
  have haligned := aligned_of_handled hschedule.contents hserving hhandled 2
    (by rw [failOffsets_cutAt (by rw [hwire]; decide)]; exact List.mem_singleton_self _)
  rcases boundary_cons haligned with hzero | ⟨k', -, hk'⟩
  · cases hzero
  · rw [length_frame] at hk'
    omega

end Anymount.Nfs
