import Anymount.Nfs.Exchange
import Anymount.Nfs.Outsider

/-!
# The MNT window

The server as connections whose messages are handled concurrently, while `tcp::mount`
clears `serve_mount` once, when `mount_nfs` has exited. A MOUNT call loads the flag in one
or in two match guards, and the store may fall anywhere around them.
-/
namespace Anymount.Nfs

open Library Library.Prog Library.Latch

/-- Connections, the messages they are handling, and the replies sent so far. -/
abbrev ServerWorld := Latch.World FsSig Nat Bytes (Option Bytes)

/-- The reply hands out the root handle: it is a successful `MNT` result. -/
def GrantsRoot (handle : FileHandle3) (xid : UInt32) (reply : Bytes) : Prop :=
  reply = buildReply xid (.success (MountProto.mntOk handle))

theorem stat_ne_of_reply {xid xid' stat stat' : UInt32} {tail tail' : Bytes} (h : stat ≠ stat') :
    replyHeader xid stat ++ tail ≠ replyHeader xid' stat' ++ tail' := by
  intro heq
  obtain ⟨hheader, -⟩ := List.append_inj heq (by simp)
  exact h (replyHeader_inj hheader).2

theorem buildReply_inj {xid : UInt32} {outcome : ProcOutcome} {body : Writer}
    (h : buildReply xid outcome = buildReply xid (.success body)) : outcome = .success body := by
  rw [buildReply_eq, buildReply_eq] at h
  obtain ⟨hheader, hpayload⟩ := List.append_inj h (by simp)
  have hstat := (replyHeader_inj hheader).2
  cases outcome with
  | success w => exact congrArg ProcOutcome.success (congrArg Writer.mk hpayload)
  | procUnavail =>
    have hne : AcceptStat.procUnavail ≠ AcceptStat.success := by decide
    exact absurd hstat hne
  | garbageArgs =>
    have hne : AcceptStat.garbageArgs ≠ AcceptStat.success := by decide
    exact absurd hstat hne

theorem ProcOutcome.stat_ne_progMismatch (outcome : ProcOutcome) :
    outcome.stat ≠ AcceptStat.progMismatch := by
  cases outcome with
  | success body => exact show AcceptStat.success ≠ AcceptStat.progMismatch by decide
  | procUnavail => decide
  | garbageArgs => decide

theorem progUnavailReply_eq (xid : UInt32) :
    progUnavailReply xid = replyHeader xid AcceptStat.progUnavail ++ [] :=
  (List.append_nil _).symm

theorem progMismatchReply_eq (xid : UInt32) :
    progMismatchReply xid = replyHeader xid AcceptStat.progMismatch ++ (beU32 3 ++ beU32 3) := by
  simp [progMismatchReply, writeProgMismatchBody, replyHeader, Writer.intoBytes]

theorem not_grantsRoot_progMismatch (handle : FileHandle3) (xid : UInt32) :
    ¬ GrantsRoot handle xid (progMismatchReply xid) := by
  have hne : AcceptStat.progMismatch ≠ AcceptStat.success := by decide
  rw [GrantsRoot, progMismatchReply_eq, buildReply_eq]
  exact stat_ne_of_reply hne

theorem not_grantsRoot_progUnavail (handle : FileHandle3) (xid : UInt32) :
    ¬ GrantsRoot handle xid (progUnavailReply xid) := by
  have hne : AcceptStat.progUnavail ≠ AcceptStat.success := by decide
  rw [GrantsRoot, progUnavailReply_eq, buildReply_eq]
  exact stat_ne_of_reply hne

/-- The reply has nothing to do with the root handle: every server that loads the same values,
whatever its handle secret and its filesystem, sends these very bytes. -/
def SameForEveryHandle {α : Type} (p : FileHandle3 → ServerProg α) (loads : List Load)
    (reply : α) : Prop :=
  ∀ handle (σ : Type) (fs : ReadOnlyFs σ) (s : σ),
    ((p handle).run (fs.sum recorded) (s, loads.map Load.value)).1 = .ok reply

/-- What may be said about a MOUNT call's reply, given the loads its guards made. -/
structure MountAnswer (flag : Bool) (handle : FileHandle3) (config : Config) (header : CallHeader)
    (args : Reader) (loads : List Load) (reply : Bytes) : Prop where
  root : (GrantsRoot handle header.xid reply ∧ loads = [⟨true, false⟩] ∧ header.IsMnt ∧
      offeredExport args = some config.exportValue.hex) ∨
    ((∀ handle', ¬ GrantsRoot handle' header.xid reply) ∧
      SameForEveryHandle (fun handle' => replyMount handle' config header args) loads reply)
  closed : (∀ l ∈ loads, l.afterClear) → reply = progUnavailReply header.xid
  version : header.vers = 3 →
    ∀ xid tail, reply ≠ replyHeader xid AcceptStat.progMismatch ++ tail
  off : flag = false → reply = progUnavailReply header.xid

section

variable {flag : Bool} {handle : FileHandle3} {config : Config} {header : CallHeader}
  {args : Reader} {loads : List Load}

/-- Refusing the program is in order after any loads that lead every server there. -/
theorem mountAnswer_progUnavail
    (hsame : SameForEveryHandle (fun handle' => replyMount handle' config header args) loads
      (progUnavailReply header.xid)) :
    MountAnswer flag handle config header args loads (progUnavailReply header.xid) := by
  refine ⟨.inr ⟨fun handle' => not_grantsRoot_progUnavail handle' _, hsame⟩, fun _ => rfl, ?_,
    fun _ => rfl⟩
  intro _ xid tail
  rw [progUnavailReply_eq]
  exact stat_ne_of_reply (by decide)

theorem sameForEveryHandle_mountOtherwise {l : Load}
    (hreach : ∀ handle' (σ : Type) (fs : ReadOnlyFs σ) (s : σ),
      (replyMount handle' config header args).run (fs.sum recorded)
          (s, (loads ++ [l]).map Load.value) =
        (mountOtherwise header.xid).run (fs.sum recorded) (s, [l.value])) :
    SameForEveryHandle (fun handle' => replyMount handle' config header args) (loads ++ [l])
      (if l.value then progMismatchReply header.xid else progUnavailReply header.xid) := by
  intro handle' σ fs s
  rw [hreach]
  cases hvalue : l.value <;> rfl

/-- The second arm, once every server has got there on the loads made so far. -/
theorem keeps_mountOtherwise
    (hloads : ∀ l, Admissible flag loads l → l.value = true → loads = [] ∧ header.vers ≠ 3)
    (hreach : ∀ (l : Load) handle' (σ : Type) (fs : ReadOnlyFs σ) (s : σ),
      (replyMount handle' config header args).run (fs.sum recorded)
          (s, (loads ++ [l]).map Load.value) =
        (mountOtherwise header.xid).run (fs.sum recorded) (s, [l.value])) :
    Keeps flag False (MountAnswer flag handle config header args) loads
      (mountOtherwise header.xid) := by
  intro l hl
  have hsame := sameForEveryHandle_mountOtherwise (hreach l)
  cases hvalue : l.value with
  | false =>
    rw [hvalue, if_neg Bool.false_ne_true] at hsame
    exact mountAnswer_progUnavail hsame
  | true =>
    rw [hvalue, if_pos rfl] at hsame
    obtain ⟨hempty, hvers⟩ := hloads l hl hvalue
    obtain ⟨hflag, rfl⟩ := hl.of_true hvalue
    refine ⟨.inr ⟨fun handle' => not_grantsRoot_progMismatch handle' _, hsame⟩, ?_,
      fun h => absurd h hvers, ?_⟩
    · intro hafter
      simpa using hafter ⟨true, false⟩ (by simp)
    · simp [hflag]

/-- The dispatch itself, for a server that loaded `true` before the store. -/
theorem mountAnswer_dispatch (hprog : header.prog = mountProg) (hvers : header.vers = 3)
    (hflag : flag = true) :
    MountAnswer flag handle config header args [⟨true, false⟩]
      (buildReply header.xid (MountProto.dispatch header.proc args config.exportValue handle)) := by
  refine ⟨?_, ?_, ?_, ?_⟩
  · rcases mountDispatch_cases header.proc args config.exportValue with
      ⟨hproc, hexport, hgrant⟩ | ⟨outcome, hsame, hother⟩
    · rw [hgrant]
      exact .inl ⟨rfl, rfl, ⟨hprog, hvers, hproc⟩, hexport⟩
    · refine .inr ⟨?_, ?_⟩
      · intro handle' hgrant
        rw [hsame] at hgrant
        exact hother handle' (buildReply_inj hgrant)
      · intro handle' σ fs s
        dsimp only
        rw [replyMount, if_pos hvers, hsame handle, ← hsame handle']
        rfl
  · intro hafter
    simpa using hafter ⟨true, false⟩ (by simp)
  · intro _ xid tail
    rw [buildReply_eq]
    exact stat_ne_of_reply (ProcOutcome.stat_ne_progMismatch _)
  · simp [hflag]

/-- One MOUNT call, along every admissible pair of loads. -/
theorem keeps_replyMount (hprog : header.prog = mountProg) :
    Keeps flag False (MountAnswer flag handle config header args) []
      (replyMount handle config header args) := by
  by_cases hvers : header.vers = 3
  · have harm : replyMount handle config header args = _ := if_pos hvers
    rw [harm]
    intro l hl
    cases hvalue : l.value with
    | false =>
      -- The second guard is evaluated only here, and then it is false as well.
      refine keeps_mountOtherwise ?_ ?_
      · intro l' hl' hvalue'
        rw [hl.not_true_after hvalue hl'] at hvalue'
        cases hvalue'
      · intro l' handle' σ fs s
        rw [replyMount, if_pos hvers, List.nil_append, List.singleton_append, List.map_cons, hvalue]
        rfl
    | true =>
      obtain ⟨hflag, rfl⟩ := hl.of_true hvalue
      exact mountAnswer_dispatch hprog hvers hflag
  · rw [replyMount, if_neg hvers]
    refine keeps_mountOtherwise (fun _ _ _ => ⟨rfl, hvers⟩) ?_
    intro l handle' σ fs s
    rw [replyMount, if_neg hvers]
    rfl

end

/-- The message calls the MOUNT program. -/
def MountCall (body : Bytes) (header : CallHeader) (args : Reader) : Prop :=
  readCallHeader (.new body) = .call header args ∧ header.prog = mountProg

section

variable (o : Overflow) (fuel : Nat) (handle : FileHandle3) (config : Config)

theorem handleMessage_of_mountCall {body : Bytes} {header : CallHeader} {args : Reader}
    (h : MountCall body header args) :
    handleMessage o fuel handle config body =
      replyMount handle config header args >>= fun reply => ret (some reply) := by
  rw [handleMessage, h.1]
  simp only [replyTo, if_pos h.2]
  rfl

/-- What is promised about one message: nothing, unless it calls the MOUNT program. -/
def MountPromise (flag : Bool) (body : Bytes) (loads : List Load) (result : Option Bytes) : Prop :=
  ∀ header args, MountCall body header args →
    ∃ reply, result = some reply ∧ MountAnswer flag handle config header args loads reply

theorem keeps_handleMessage (flag : Bool) (body : Bytes) :
    Keeps flag (¬ ∃ header args, MountCall body header args)
      (MountPromise handle config flag body) [] (handleMessage o fuel handle config body) := by
  by_cases hmount : ∃ header args, MountCall body header args
  · obtain ⟨header, args, hcall⟩ := hmount
    rw [handleMessage_of_mountCall o fuel handle config hcall, keeps_bind]
    have hkeeps : Keeps flag False (MountAnswer flag handle config header args) [] _ :=
      keeps_replyMount hcall.2
    refine hkeeps.mono False.elim ?_
    intro loads reply hreply header' args' hcall'
    obtain ⟨rfl, rfl⟩ := HeaderOutcome.call.inj (hcall.1.symm.trans hcall'.1)
    exact ⟨reply, rfl, hreply⟩
  · refine (keeps_true _ _).mono (fun _ => hmount) ?_
    intro _ _ _ header args hcall
    exact absurd ⟨header, args, hcall⟩ hmount

/-- The reply to a whole message is settled by the MOUNT program's reply to its call. -/
theorem SameForEveryHandle.handleMessage {body : Bytes} {header : CallHeader} {args : Reader}
    (hcall : MountCall body header args) {loads : List Load} {reply : Bytes}
    (h : SameForEveryHandle (fun handle' => replyMount handle' config header args) loads reply) :
    SameForEveryHandle (fun handle' => Nfs.handleMessage o fuel handle' config body) loads
      (some reply) := by
  intro handle' σ fs s
  dsimp only
  rw [handleMessage_of_mountCall o fuel handle' config hcall, run_bind_ret, h handle' σ fs s]
  rfl

/-- In every interleaving of message handling with the one store: `MNT` gives out the root
handle only when its guard loaded `true`, before the store, and to the correct export value,
and every other reply to a MOUNT call is one that servers with any other handle secret send
as well; a MOUNT call whose guards run after the store is answered `PROG_UNAVAIL`; version 3
is never answered `PROG_MISMATCH`; and on the local socket no `MNT` succeeds. A MOUNT call
in flight never gets stuck. -/
theorem mnt_window_closes (transport : Transport) {w : ServerWorld}
    (h : Reachable (handleMessage o fuel handle config) transport.serveMount w) :
    (∀ d ∈ w.done, ∀ header args, MountCall d.job header args → ∃ reply, d.result = some reply ∧
      ((GrantsRoot handle header.xid reply ∧ d.loads = [⟨true, false⟩] ∧ header.IsMnt ∧
          offeredExport args = some config.exportValue.hex) ∨
        ((∀ handle', ¬ GrantsRoot handle' header.xid reply) ∧
          SameForEveryHandle (fun handle' => handleMessage o fuel handle' config d.job) d.loads
            d.result)) ∧
      ((∀ l ∈ d.loads, l.afterClear) → reply = progUnavailReply header.xid) ∧
      (header.vers = 3 → ∀ xid tail, reply ≠ replyHeader xid AcceptStat.progMismatch ++ tail) ∧
      (transport = .localSocket → reply = progUnavailReply header.xid ∧
        ∀ handle', ¬ GrantsRoot handle' header.xid reply)) ∧
    ∀ i flight, w.worker i = some flight → ∀ header args, MountCall flight.job header args →
      ∀ why, flight.rest ≠ .halt why := by
  have hinv := Inv.of_reachable (keeps_handleMessage o fuel handle config transport.serveMount) h
  refine ⟨?_, ?_⟩
  · intro d hd header args hcall
    obtain ⟨reply, hresult, hreply⟩ := hinv.done d hd header args hcall
    refine ⟨reply, hresult, ?_, hreply.closed, hreply.version, ?_⟩
    · refine hreply.root.imp_right ?_
      rintro ⟨hno, hsame⟩
      rw [hresult]
      exact ⟨hno, hsame.handleMessage o fuel config hcall⟩
    · rintro rfl
      have hoff := hreply.off rfl
      exact ⟨hoff, fun handle' => hoff ▸ not_grantsRoot_progUnavail handle' header.xid⟩
  · intro i flight hi header args hcall why hhalt
    have hkeeps := (hinv.flights i flight hi).1
    rw [hhalt] at hkeeps
    exact hkeeps ⟨header, args, hcall⟩

/-- A `MNT` call handled alone, with the store before its first guard. -/
theorem reachable_mnt_after_store {body : Bytes} {header : CallHeader} {args : Reader}
    (hcall : MountCall body header args) (hvers : header.vers = 3) :
    ∃ (w : ServerWorld) (result : Option Bytes),
      Reachable (handleMessage o fuel handle config) Transport.tcp.serveMount w ∧
        w.done = [⟨body, [⟨false, true⟩, ⟨false, true⟩], result⟩] := by
  have hserve := handleMessage_of_mountCall o fuel handle config hcall
  rw [replyMount, if_pos hvers] at hserve
  have hstart : Reachable (handleMessage o fuel handle config) Transport.tcp.serveMount _ :=
    .step .initial (.start (Latch.World.initial Transport.tcp.serveMount) 0 body rfl)
  have hclear := hstart.step (.clear _ rfl)
  have hfirst := hclear.step (.load _ 0 rfl hserve)
  have hsecond := hfirst.step (.load _ 0 rfl rfl)
  exact ⟨_, _, hsecond.step (.finish _ 0 rfl rfl), rfl⟩

end

theorem mnt_window_closes_after_store :
    ∃ w : ServerWorld,
      Reachable (handleMessage .wraps 0 ⟨List.replicate 16 0, rfl⟩ localConfig)
        Transport.tcp.serveMount w ∧
      w.done.map Done.result = [some (progUnavailReply 7)] := by
  obtain ⟨args, hheader, -⟩ := readCallHeader_callTo ⟨7, mountProg, 3, 1⟩
    (Xdr.encodeOpaque (MountProto.exportPrefix ++ List.replicate 32 48))
  have hcall : MountCall _ _ args := ⟨hheader, rfl⟩
  obtain ⟨w, result, hw, hdone⟩ :=
    reachable_mnt_after_store .wraps 0 ⟨List.replicate 16 0, rfl⟩ localConfig hcall rfl
  have hanswers := (mnt_window_closes _ _ _ _ .tcp hw).1
  rw [hdone] at hanswers
  obtain ⟨reply, hresult, -, hclosed, -⟩ := hanswers _ (List.mem_singleton_self _) _ _ hcall
  refine ⟨w, hw, ?_⟩
  rw [hdone, List.map_singleton, hresult, hclosed (by simp)]

end Anymount.Nfs
