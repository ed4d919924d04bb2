import Anymount.Nfs.Exchange

/-!
# What an outsider can learn

A client that holds neither the handle secret nor the export value. `outsider` computes
the reply to such a client from the message, the export value and the flag alone: it has
no access to a filesystem or a handle secret, and the server's replies are its replies.
-/
namespace Anymount.Nfs

open Library Library.Xdr Library.Prog NfsProto

/-! ## Credentials in a message -/

/-- The file handle that an NFS call presents as its first argument. -/
def presentedHandle (body : Bytes) : Option Bytes :=
  match readCallHeader (.new body) with
  | .call header args =>
    if header.prog = nfsProg ∧ header.vers = 3 then (args.readOpaqueVar 64).map Prod.fst
    else none
  | _ => none

/-- The path segment that a `MNT` call's `dirpath` offers as the export value. -/
def offeredExport (args : Reader) : Option Bytes := do
  let (dirpath, _) ← args.readString MountProto.mntPathLen
  let rest ← MountProto.stripPrefix MountProto.exportPrefix dirpath
  pure (MountProto.firstSegment rest)

/-- A call of MOUNT version 3's `MNT`. -/
def CallHeader.IsMnt (header : CallHeader) : Prop :=
  header.prog = mountProg ∧ header.vers = 3 ∧ header.proc = 1

/-- The message is a `MNT` call with the correct export value. -/
def CarriesExport (config : Config) (body : Bytes) : Prop :=
  ∃ header args, readCallHeader (.new body) = .call header args ∧ header.IsMnt ∧
    offeredExport args = some config.exportValue.hex

/-- A successful `MNT` result is longer than any other result of the program. -/
theorem mnt_cases (args : Reader) (e : ExportSecret) :
    (offeredExport args = some e.hex ∧
      ∀ handle, MountProto.mnt args e handle = .success (MountProto.mntOk handle)) ∨
    ∃ outcome, (∀ handle, MountProto.mnt args e handle = outcome) ∧
      ∀ handle, outcome ≠ .success (MountProto.mntOk handle) := by
  have hstatus : ∀ status handle, MountProto.status status ≠ .success (MountProto.mntOk handle) :=
    fun status => MountProto.success_ne_mntOk (by simp)
  unfold MountProto.mnt offeredExport
  rcases args.readString MountProto.mntPathLen with _ | ⟨dirpath, r⟩
  · exact .inr ⟨_, fun _ => rfl, nofun⟩
  by_cases hutf : MountProto.validUtf8 dirpath
  · rcases hstrip : MountProto.stripPrefix MountProto.exportPrefix dirpath with _ | rest
    · exact .inr ⟨MountProto.status MountProto.mnt3errNoent, by simp [hutf, hstrip], hstatus _⟩
    by_cases hhex : (MountProto.firstSegment rest).length ≠ 32 ||
        !(MountProto.firstSegment rest).all MountProto.isAsciiHexdigit
    · exact .inr ⟨MountProto.status MountProto.mnt3errNoent, by simp_all, hstatus _⟩
    by_cases hmatch : e.matchesValue (MountProto.firstSegment rest)
    · have hsegment := (ctEq_iff _ _).mp hmatch
      exact .inl ⟨by simp [hstrip, hsegment], by simp_all⟩
    · exact .inr ⟨MountProto.status MountProto.mnt3errAcces, by simp_all, hstatus _⟩
  · exact .inr ⟨MountProto.status MountProto.mnt3errNoent, by simp [hutf], hstatus _⟩

/-- Only `MNT` against the export value grants the root handle; every other answer of the
MOUNT program is the same for all handle secrets. -/
theorem mountDispatch_cases (proc : UInt32) (args : Reader) (e : ExportSecret) :
    (proc = 1 ∧ offeredExport args = some e.hex ∧
      ∀ handle, MountProto.dispatch proc args e handle = .success (MountProto.mntOk handle)) ∨
    ∃ outcome, (∀ handle, MountProto.dispatch proc args e handle = outcome) ∧
      ∀ handle, outcome ≠ .success (MountProto.mntOk handle) := by
  unfold MountProto.dispatch
  by_cases h1 : proc = 1
  · subst h1
    exact (mnt_cases args e).imp (fun h => ⟨rfl, h⟩) id
  simp only [h1, if_false]
  split
  · exact .inr ⟨_, fun _ => rfl, MountProto.success_ne_mntOk (by simp)⟩
  split
  · unfold MountProto.umnt
    split
    · exact .inr ⟨_, fun _ => rfl, by simp⟩
    · exact .inr ⟨_, fun _ => rfl, MountProto.success_ne_mntOk (by simp)⟩
  split
  · exact .inr ⟨_, fun _ => rfl, MountProto.success_ne_mntOk (by simp [encodeBool])⟩
  · exact .inr ⟨_, fun _ => rfl, by simp⟩

/-! ## The outsider's server -/

/-- The reply to an NFS call whose handle does not resolve. -/
def deniedNfs : Decoded Bytes → ProcOutcome
  | .procUnavail => .procUnavail
  | .garbageArgs => .garbageArgs
  | .call req => .success ⟨req.ty.encode (fun _ => []) (serveUnresolved req)⟩

/-- The refusals carry no handle, so their rendering does not depend on the encoding. -/
theorem encode_serveUnresolved (enc enc' : Ino → Bytes) (req : Request Bytes) :
    req.ty.encode enc (serveUnresolved req) = req.ty.encode enc' (serveUnresolved req) := by
  cases req with
  | refused proc => cases proc <;> rfl
  | _ => rfl

theorem dispatch_of_unresolved (o : Overflow) (fuel : Nat) (proc : UInt32) (args : Reader)
    (ctx : Ctx)
    (h : ∀ fh r', args.readOpaqueVar 64 = some (fh, r') → ctx.handle.resolve fh = none) :
    NfsProto.dispatch o fuel proc args ctx = ret (deniedNfs (decodeRequest proc args)) := by
  rw [dispatch_eq]
  cases hreq : decodeRequest proc args with
  | procUnavail => rfl
  | garbageArgs => rfl
  | call req =>
    have hnone : req.handle?.bind ctx.handle.resolve = none := by
      cases hfh : req.handle? with
      | none => rfl
      | some fh =>
        obtain ⟨r', hread⟩ := (decodeRequest_eq_call hreq).2 fh hfh
        exact h fh r' hread
    rw [answer_call, hnone]
    exact ret_success (encode_serveUnresolved _ _ req)

def flagLoad : Prog FlagSig Bool := .perform (S := FlagSig) .load

def outsiderOtherwise (xid : UInt32) : Prog FlagSig Bytes := do
  if ← flagLoad then pure (progMismatchReply xid) else pure (progUnavailReply xid)

/-- The MOUNT program for a client without the export value. The handle secret is a
placeholder: none of the answers that such a client gets depends on it. -/
def outsiderMount (config : Config) (header : CallHeader) (args : Reader) : Prog FlagSig Bytes :=
  if header.vers = 3 then do
    if ← flagLoad then
      pure (buildReply header.xid (MountProto.dispatch header.proc args config.exportValue
        ⟨List.replicate 16 0, length_zeroSecret⟩))
    else outsiderOtherwise header.xid
  else outsiderOtherwise header.xid

def outsiderTo (config : Config) (header : CallHeader) (args : Reader) : Prog FlagSig Bytes :=
  if header.prog = mountProg then outsiderMount config header args
  else if header.prog = nfsProg then
    if header.vers = 3 then
      pure (buildReply header.xid (deniedNfs (decodeRequest header.proc args)))
    else pure (progMismatchReply header.xid)
  else pure (progUnavailReply header.xid)

/-- The reply to a message, as a function of what an outsider knows. -/
def outsider (config : Config) (body : Bytes) : Prog FlagSig (Option Bytes) :=
  match readCallHeader (.new body) with
  | .malformed => pure none
  | .badRpcvers xid => pure (some (rpcMismatchReply xid))
  | .call header args => do pure (some (← outsiderTo config header args))

theorem outsiderOtherwise_returns {φ : Type} (xid : UInt32) (flag : Handler FlagSig φ) (f : φ) :
    ∃ reply, ((outsiderOtherwise xid).run flag f).1 = .ok reply := by
  unfold outsiderOtherwise flagLoad
  rw [perform_bind, run]
  cases (flag .load f).1 <;> exact ⟨_, rfl⟩

/-- An outsider's message is always answered, or dropped. -/
theorem outsider_returns {φ : Type} (config : Config) (body : Bytes) (flag : Handler FlagSig φ)
    (f : φ) : ∃ result, ((outsider config body).run flag f).1 = .ok result := by
  unfold outsider
  cases readCallHeader (.new body) with
  | malformed => exact ⟨_, rfl⟩
  | badRpcvers xid => exact ⟨_, rfl⟩
  | call header args =>
    suffices h : ∃ reply, ((outsiderTo config header args).run flag f).1 = .ok reply by
      obtain ⟨reply, hreply⟩ := h
      exact ⟨some reply, by simp only [pure_eq, run_bind_ret, hreply]; rfl⟩
    unfold outsiderTo outsiderMount
    split
    · split
      · unfold flagLoad
        rw [perform_bind, run]
        cases (flag .load f).1 with
        | false => exact outsiderOtherwise_returns _ _ _
        | true => exact ⟨_, rfl⟩
      · exact outsiderOtherwise_returns _ _ _
    · split
      · split <;> exact ⟨_, rfl⟩
      · exact ⟨_, rfl⟩

/-- The message holds no handle that `handle` would accept, and does not present the
export value while the flag is set. -/
structure Unprivileged {φ : Type} (flag : Handler FlagSig φ) (config : Config)
    (handle : FileHandle3) (body : Bytes) (f : φ) : Prop where
  unresolved : ∀ fh, presentedHandle body = some fh → handle.resolve fh = none
  unmounted : CarriesExport config body → (flag .load f).1 = false

section Simulation

variable (o : Overflow) (fuel : Nat) {σ φ : Type} (fs : ReadOnlyFs σ) (flag : Handler FlagSig φ)

/-- From `(s, f)` the program `p` behaves as `q` does from `f`: same result, same loads of
the flag, and the filesystem is left alone. -/
def ActsAs {α : Type} (p : ServerProg α) (q : Prog FlagSig α) (s : σ) (f : φ) : Prop :=
  p.run (fs.sum flag) (s, f) = ((q.run flag f).1, s, (q.run flag f).2) ∧
    p.calls (fs.sum flag) (s, f) = (q.calls flag f).map Sum.inr

theorem actsAs_inr {α : Type} (q : Prog FlagSig α) (s : σ) (f : φ) : ActsAs fs flag q.inr q s f :=
  ⟨run_inr fs flag q s f, calls_inr fs flag q s f⟩

/-- After a load, only the branch for the loaded value matters. -/
theorem actsAs_load {α : Type} {p : Bool → ServerProg α} {q : Bool → Prog FlagSig α} {s : σ} {f : φ}
    (h : ActsAs fs flag (p (flag .load f).1) (q (flag .load f).1) s
      (flag .load f).2) :
    ActsAs fs flag (loadServeMount >>= p) (flagLoad >>= q) s f :=
  ⟨h.1, congrArg (Sum.inr Latch.Call.load :: ·) h.2⟩

theorem ActsAs.map {α β : Type} {p : ServerProg α} {q : Prog FlagSig α} {s : σ} {f : φ}
    (h : ActsAs fs flag p q s f) (g : α → β) :
    ActsAs fs flag (p >>= fun a => ret (g a)) (q >>= fun a => ret (g a)) s f := by
  refine ⟨?_, ?_⟩
  · rw [run_bind_ret, run_bind_ret, h.1]
  · rw [calls_bind_ret, calls_bind_ret, h.2]

theorem mountOtherwise_eq (xid : UInt32) :
    mountOtherwise xid = (outsiderOtherwise xid).inr := by
  refine congrArg (Prog.call (S := ServerSig) (.inr .load)) (funext fun b => ?_)
  cases b <;> rfl

variable {config : Config} {handle : FileHandle3} {header : CallHeader} {args : Reader}

theorem actsAs_replyMount (s : σ) (f : φ)
    (hmnt : header.vers = 3 → header.proc = 1 →
      offeredExport args = some config.exportValue.hex → (flag .load f).1 = false) :
    ActsAs fs flag (replyMount handle config header args) (outsiderMount config header args)
      s f := by
  unfold replyMount outsiderMount
  by_cases hvers : header.vers = 3
  · rw [if_pos hvers, if_pos hvers]
    refine actsAs_load fs flag ?_
    cases hload : (flag .load f).1 with
    | false =>
      simp only [Bool.false_eq_true, if_false, mountOtherwise_eq]
      exact actsAs_inr fs flag _ s _
    | true =>
      -- With the flag set the call does not present the export value.
      rcases mountDispatch_cases header.proc args config.exportValue with
        ⟨hproc, hexport, -⟩ | ⟨outcome, hsame, -⟩
      · rw [hmnt hvers hproc hexport] at hload
        cases hload
      · simp only [if_true, hsame]
        exact ⟨rfl, rfl⟩
  · rw [if_neg hvers, if_neg hvers, mountOtherwise_eq]
    exact actsAs_inr fs flag _ s f

/-- To an unprivileged message the server replies as the outsider's server does. -/
theorem actsAs_handleMessage {body : Bytes} (s : σ) (f : φ)
    (h : Unprivileged flag config handle body f) :
    ActsAs fs flag (handleMessage o fuel handle config body) (outsider config body) s f := by
  obtain ⟨hunresolved, hunmounted⟩ := h
  unfold presentedHandle at hunresolved
  unfold handleMessage outsider
  cases hheader : readCallHeader (.new body) with
  | malformed => exact ⟨rfl, rfl⟩
  | badRpcvers xid => exact ⟨rfl, rfl⟩
  | call header args =>
    rw [hheader] at hunresolved
    refine ActsAs.map fs flag ?_ some
    unfold replyTo outsiderTo
    by_cases hmount : header.prog = mountProg
    · rw [if_pos hmount, if_pos hmount]
      exact actsAs_replyMount fs flag s f fun hvers hproc hexport =>
        hunmounted ⟨header, args, hheader, ⟨hmount, hvers, hproc⟩, hexport⟩
    rw [if_neg hmount, if_neg hmount]
    by_cases hnfs : header.prog = nfsProg
    · rw [if_pos hnfs, if_pos hnfs, replyNfs]
      by_cases hvers : header.vers = 3
      · rw [if_pos hvers, if_pos hvers, dispatch_of_unresolved]
        · exact ⟨rfl, rfl⟩
        · intro fh r' hread
          refine hunresolved fh ?_
          simp [hnfs, hvers, hread]
      · rw [if_neg hvers, if_neg hvers]
        exact ⟨rfl, rfl⟩
    · rw [if_neg hnfs, if_neg hnfs]
      exact ⟨rfl, rfl⟩

end Simulation

/-! ## Sessions -/

/-- What a sequence of messages, on any connections, shows: for each one the calls its
handling makes and what it returns. -/
def session {σ : Type} (o : Overflow) (fuel : Nat) (handle : FileHandle3) (config : Config)
    (env : Handler ServerSig σ) :
    List Bytes → σ → List (List ServerSig.Call × Except Halt (Option Bytes))
  | [], _ => []
  | body :: bodies, s =>
    let p := handleMessage o fuel handle config body
    (p.calls env s, (p.run env s).1) :: session o fuel handle config env bodies (p.run env s).2

/-- Every message of a session is unprivileged for both secrets when its turn comes. -/
def UnprivilegedAll {σ φ : Type} (o : Overflow) (fuel : Nat) (handle₁ handle₂ : FileHandle3)
    (config : Config) (fs : ReadOnlyFs σ) (flag : Handler FlagSig φ) :
    List Bytes → σ × φ → Prop
  | [], _ => True
  | body :: bodies, s =>
    (Unprivileged flag config handle₁ body s.2 ∧ Unprivileged flag config handle₂ body s.2) ∧
      UnprivilegedAll o fuel handle₁ handle₂ config fs flag bodies
        ((handleMessage o fuel handle₁ config body).run (fs.sum flag) s).2

/-- Two servers with different filesystems and different handle secrets answer a client
that holds neither credential alike, and neither filesystem is called. -/
theorem session_noninterference {σ₁ σ₂ φ : Type} (o : Overflow) (fuel : Nat)
    (handle₁ handle₂ : FileHandle3) (config : Config) (fs₁ : ReadOnlyFs σ₁) (fs₂ : ReadOnlyFs σ₂)
    (flag : Handler FlagSig φ) (bodies : List Bytes) (s₁ : σ₁) (s₂ : σ₂) (f : φ)
    (h : UnprivilegedAll o fuel handle₁ handle₂ config fs₁ flag bodies (s₁, f)) :
    session o fuel handle₁ config (fs₁.sum flag) bodies (s₁, f) =
        session o fuel handle₂ config (fs₂.sum flag) bodies (s₂, f) ∧
      ∀ seen ∈ session o fuel handle₁ config (fs₁.sum flag) bodies (s₁, f),
        (∀ c ∈ seen.1, c = .inr .load) ∧ ∃ result, seen.2 = .ok result := by
  induction bodies generalizing s₁ s₂ f with
  | nil => exact ⟨rfl, nofun⟩
  | cons body bodies ih =>
    obtain ⟨⟨h₁, h₂⟩, hrest⟩ := h
    obtain ⟨hrun₁, hcalls₁⟩ := actsAs_handleMessage o fuel fs₁ flag s₁ f h₁
    obtain ⟨hrun₂, hcalls₂⟩ := actsAs_handleMessage o fuel fs₂ flag s₂ f h₂
    rw [hrun₁] at hrest
    obtain ⟨hsame, hquiet⟩ := ih s₁ s₂ _ hrest
    simp only [session, hrun₁, hrun₂, hcalls₁, hcalls₂, hsame]
    refine ⟨trivial, ?_⟩
    rw [← hsame]
    refine List.forall_mem_cons.mpr ⟨⟨?_, outsider_returns config body flag f⟩, hquiet⟩
    intro c hc
    obtain ⟨⟨⟩, -, rfl⟩ := List.mem_map.mp hc
    rfl

/-- `GETATTR3` with a handle of neither mount. -/
def foreignCall : Bytes := callMessage 7 1 (encodeOpaque (List.replicate 24 9))

theorem unprivileged_foreignCall {φ : Type} (flag : Handler FlagSig φ) {handle : FileHandle3}
    (h : handle.resolve (List.replicate 24 9) = none) (f : φ) :
    Unprivileged flag localConfig handle foreignCall f := by
  refine ⟨fun fh hfh => ?_, ?_⟩
  · have hpresented : presentedHandle foreignCall = some (List.replicate 24 9) := by decide
    rw [hpresented] at hfh
    cases hfh
    exact h
  · rintro ⟨header, args, hheader, ⟨hmount, -⟩, -⟩
    obtain ⟨_, hcall, -⟩ := nfsCall_callMessage 7 1 (encodeOpaque (List.replicate 24 9))
    cases hcall.symm.trans hheader
    exact absurd hmount (by decide)

theorem session_noninterference_foreign_handle :
    session .wraps 0 ⟨List.replicate 16 0, rfl⟩ localConfig
        ((MemFs.new 0 0).handler.sum fun _ (f : Bool) => (f, f)) [foreignCall] (.new, true) =
      session .wraps 0 ⟨List.replicate 16 1, rfl⟩ localConfig
        ((MemFs.new 5 5).handler.sum fun _ (f : Bool) => (f, f)) [foreignCall] (.new, true) := by
  refine And.left (session_noninterference _ _ _ _ _ _ _ _ _ _ _ _ ?_)
  refine And.intro ⟨?_, ?_⟩ trivial
  · exact unprivileged_foreignCall _ (by decide) _
  · exact unprivileged_foreignCall _ (by decide) _

end Anymount.Nfs
