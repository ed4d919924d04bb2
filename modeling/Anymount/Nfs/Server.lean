import Anymount.Library.Latch
import Anymount.Nfs.MountProto
import Anymount.Nfs.NfsProto

/-!
# Message handling

One message is routed by program and version. Its effects are trait calls and loads of
the `serve_mount` flag, which another thread may clear at any time; each load is a call of
its own, so a match guard that is evaluated twice loads twice.
-/
namespace Anymount.Nfs

open Library

def mountProg : UInt32 := 100005
def nfsProg : UInt32 := 100003

/-- Loads of the shared `serve_mount` flag. -/
abbrev FlagSig : Signature := Latch.Sig

/-- Which transport a live mount is being served over. -/
inductive Transport where
  | localSocket | tcp
  deriving DecidableEq, Repr

/-- What the transport's `mount` creates the flag with. On the local socket the root handle
goes to `mount(2)`, so there is no `MNT` to answer. -/
def Transport.serveMount : Transport → Bool
  | .localSocket => false
  | .tcp => true

/-- What the handling of a message may do. -/
abbrev ServerSig : Signature := FsSig.sum FlagSig

abbrev ServerProg := Prog ServerSig

/-- What one server instance answers besides the filesystem. The flag itself is shared
state and part of the environment. -/
structure Config where
  exportValue : ExportSecret

/-- The configuration of the local socket, where the export value is never used. -/
def localConfig : Config := ⟨.fromSecret (List.replicate 16 0) length_zeroSecret⟩

def loadServeMount : ServerProg Bool := .call (S := ServerSig) (.inr .load) .ret

section Handle

variable (o : Overflow) (fuel : Nat) (handle : FileHandle3) (config : Config)

/-- The arms for the MOUNT program at any version, tried once the first arm did not
apply. -/
def mountOtherwise (xid : UInt32) : ServerProg Bytes := do
  if ← loadServeMount then pure (progMismatchReply xid) else pure (progUnavailReply xid)

def replyMount (call : CallHeader) (args : Reader) : ServerProg Bytes :=
  if call.vers = 3 then do
    if ← loadServeMount then
      pure (buildReply call.xid (MountProto.dispatch call.proc args config.exportValue handle))
    else mountOtherwise call.xid
  else mountOtherwise call.xid

def replyNfs (call : CallHeader) (args : Reader) : ServerProg Bytes :=
  if call.vers = 3 then do
    let outcome ← (NfsProto.dispatch o fuel call.proc args ⟨handle, 1⟩).inl
    pure (buildReply call.xid outcome)
  else pure (progMismatchReply call.xid)

def replyTo (call : CallHeader) (args : Reader) : ServerProg Bytes :=
  if call.prog = mountProg then replyMount handle config call args
  else if call.prog = nfsProg then replyNfs o fuel handle call args
  else pure (progUnavailReply call.xid)

/-- Answer one message body; `none` when its header cannot be trusted. -/
def handleMessage (body : Bytes) : ServerProg (Option Bytes) :=
  match readCallHeader (.new body) with
  | .malformed => pure none
  | .badRpcvers xid => pure (some (rpcMismatchReply xid))
  | .call call args => do pure (some (← replyTo o fuel handle config call args))

/-! ## What a reply depends on -/

variable {o fuel handle config} {R : Contract ServerSig} {H : Halt → Prop}

/-- Whatever the flag says, a call of an unknown program or version is refused, and any other
call is answered by its program's procedure. -/
theorem wp_replyTo {call : CallHeader} {args : Reader} {Q : Bytes → Prop}
    (hunavail : Q (progUnavailReply call.xid)) (hmismatch : Q (progMismatchReply call.xid))
    (hmount : Q (buildReply call.xid
      (MountProto.dispatch call.proc args config.exportValue handle)))
    (hnfs : call.prog = nfsProg → call.vers = 3 →
      (NfsProto.dispatch o fuel call.proc args ⟨handle, 1⟩).wp (fun c r => R (.inl c) r) H
        fun outcome => Q (buildReply call.xid outcome)) :
    (replyTo o fuel handle config call args).wp R H Q := by
  have hotherwise : (mountOtherwise call.xid).wp R H Q := by
    rintro (_ | _) -
    · exact hunavail
    · exact hmismatch
  unfold replyTo replyMount replyNfs
  split
  · split
    · rintro (_ | _) -
      · exact hotherwise
      · exact hmount
    · exact hotherwise
  · split
    · next hprog =>
      split
      · next hvers =>
        rw [Prog.wp_bind, Prog.wp_inl]
        exact hnfs hprog hvers
      · exact hmismatch
    · exact hunavail

theorem wp_handleMessage {body : Bytes} {Q : Option Bytes → Prop}
    (hmalformed : readCallHeader (.new body) = .malformed → Q none)
    (hbad : ∀ xid, readCallHeader (.new body) = .badRpcvers xid → Q (some (rpcMismatchReply xid)))
    (hcall : ∀ call args, readCallHeader (.new body) = .call call args →
      (replyTo o fuel handle config call args).wp R H fun reply => Q (some reply)) :
    (handleMessage o fuel handle config body).wp R H Q := by
  unfold handleMessage
  split
  · next h => exact hmalformed h
  · next xid h => exact hbad xid h
  · next call args h =>
    rw [Prog.wp_bind]
    exact hcall call args h

end Handle

end Anymount.Nfs
