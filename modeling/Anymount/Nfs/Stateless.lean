import Anymount.Nfs.Exchange
import Anymount.Readdir.Law
import Anymount.Tree

/-!
# Messages served side by side

Any number of workers handle messages at the same time, interleaved at every trait call. Over
a filesystem whose content does not change, what a message is answered depends on nothing but
the message: not on what else is being served, on which handles are open, or on whether it was
answered before. A client that sends a request again gets the same reply.
-/
namespace Anymount.Nfs

open Library Library.Prog Library.Interleave Library.Ownership

namespace NfsProto

/-! ## The procedures that open no files -/

section Plain

variable (r : Reader) (ctx : Ctx)

theorem bestEffort_plain (w : Writer) (ino : Ino) :
    (writePostOpAttrBestEffort w ctx ino).Within FsCall.Plain := by
  refine ⟨trivial, ?_⟩
  rintro (e | attr)
  · trivial
  · trivial

theorem failReply_plain (ino : Ino) (status : UInt32) :
    (failReply ctx ino status).Within FsCall.Plain :=
  .bind (bestEffort_plain ctx _ ino) fun _ => trivial

theorem getattr_plain : (getattr r ctx).Within FsCall.Plain := by
  unfold getattr
  rcases r.readOpaqueVar 64 with _ | ⟨fh, r⟩
  · trivial
  dsimp only
  rcases ctx.handle.resolve fh with _ | ino
  · trivial
  · refine ⟨trivial, ?_⟩
    rintro (e | attr)
    · trivial
    · trivial

theorem lookup_plain : (lookup r ctx).Within FsCall.Plain := by
  unfold lookup
  rcases r.readOpaqueVar 64 with _ | ⟨fh, r⟩
  · trivial
  dsimp only
  rcases r.readString 1024 with _ | ⟨name, r⟩
  · trivial
  dsimp only
  rcases ctx.handle.resolve fh with _ | ino
  · trivial
  · refine ⟨trivial, ?_⟩
    rintro (e | attr)
    · exact failReply_plain ctx ino _
    · show (writePostOpAttrBestEffort _ ctx ino >>= _).Within FsCall.Plain
      exact .bind (bestEffort_plain ctx _ ino) fun _ => trivial

theorem access_plain : (access r ctx).Within FsCall.Plain := by
  unfold access
  rcases r.readOpaqueVar 64 with _ | ⟨fh, r⟩
  · trivial
  dsimp only
  rcases r.readU32 with _ | ⟨requested, r⟩
  · trivial
  dsimp only
  rcases ctx.handle.resolve fh with _ | ino
  · trivial
  · refine ⟨trivial, ?_⟩
    rintro (e | attr)
    · trivial
    · trivial

theorem packEntry_plain (o : Overflow) (plus : Bool) (e : Readdir.Entry) (st : Packing) :
    (packEntry o ctx plus e st).Within FsCall.Plain := by
  have hdirent : (encodeDirent ctx e.ino e.name e.cookie plus).Within FsCall.Plain := by
    unfold encodeDirent
    cases plus
    · trivial
    · refine ⟨trivial, ?_⟩
      rintro (e | attr)
      · trivial
      · trivial
  refine .bind hdirent fun candidate => ?_
  split
  · trivial
  · refine .bind ?_ fun remaining => .bind (addU64_within _ o _ _) fun packed => trivial
    unfold subI64 checkedI64
    split
    · trivial
    · split <;> trivial

theorem readdirCommon_plain (o : Overflow) (fuel : Nat) (plus : Bool) :
    (readdirCommon o fuel r ctx plus).Within FsCall.Plain := by
  unfold readdirCommon
  rcases r.readOpaqueVar 64 with _ | ⟨fh, r⟩
  · trivial
  dsimp only
  rcases r.readU64 with _ | ⟨cookie, r⟩
  · trivial
  dsimp only
  rcases r.readOpaqueFixed 8 with _ | ⟨verf, r⟩
  · trivial
  dsimp only
  rcases readBudget r plus with _ | budget
  · trivial
  dsimp only
  rcases ctx.handle.resolve fh with _ | dir
  · trivial
  dsimp only
  refine .bind (.bind (Readdir.emit_within o fuel cookie _ (fun _ => trivial) trivial
    (packEntry_plain ctx o plus) _) fun _ => trivial) ?_
  rintro (e | list)
  · exact failReply_plain ctx dir _
  · dsimp only
    split
    · exact failReply_plain ctx dir _
    · exact .bind (bestEffort_plain ctx _ dir) fun _ => trivial

theorem fsstat_plain : (fsstat r ctx).Within FsCall.Plain := by
  unfold fsstat
  rcases r.readOpaqueVar 64 with _ | ⟨fh, r⟩
  · trivial
  dsimp only
  rcases ctx.handle.resolve fh with _ | ino
  · trivial
  · refine ⟨trivial, ?_⟩
    rintro (e | stat)
    · exact failReply_plain ctx ino _
    · show (writePostOpAttrBestEffort _ ctx ino >>= _).Within FsCall.Plain
      exact .bind (bestEffort_plain ctx _ ino) fun _ => trivial

theorem fsinfo_plain : (fsinfo r ctx).Within FsCall.Plain := by
  unfold fsinfo
  rcases r.readOpaqueVar 64 with _ | ⟨fh, r⟩
  · trivial
  dsimp only
  rcases ctx.handle.resolve fh with _ | ino
  · trivial
  · exact .bind (bestEffort_plain ctx _ ino) fun _ => trivial

theorem pathconf_plain : (pathconf r ctx).Within FsCall.Plain := by
  unfold pathconf
  rcases r.readOpaqueVar 64 with _ | ⟨fh, r⟩
  · trivial
  dsimp only
  rcases ctx.handle.resolve fh with _ | ino
  · trivial
  · exact .bind (bestEffort_plain ctx _ ino) fun _ => trivial

/-- Only `READ3` opens files. -/
theorem dispatch_plain (o : Overflow) (fuel : Nat) {proc : UInt32} (h : proc.toNat ≠ 6) :
    (dispatch o fuel proc r ctx).Within FsCall.Plain := by
  unfold dispatch
  split
  case h_2 => exact getattr_plain r ctx
  case h_4 => exact lookup_plain r ctx
  case h_5 => exact access_plain r ctx
  case h_7 heq => exact absurd heq h
  case h_17 => exact readdirCommon_plain r ctx o fuel false
  case h_18 => exact readdirCommon_plain r ctx o fuel true
  case h_19 => exact fsstat_plain r ctx
  case h_20 => exact fsinfo_plain r ctx
  case h_21 => exact pathconf_plain r ctx
  all_goals trivial

end Plain

end NfsProto

/-! ## One message -/

section Message

variable (o : Overflow) (fuel : Nat) (handle : FileHandle3) (config : Config) (F : Tree)
  (flag : Bool)

/-- What a message is answered by a server that handles nothing else, and how it ends. -/
def aloneReply (body : Bytes) : Except Halt (Option Bytes) :=
  ((handleMessage o fuel handle config body).run (F.aloneWith fun _ => flag) (none, ())).1

variable {o fuel handle config F flag} {body : Bytes}

/-! ## Reading -/

section Read

open NfsProto

variable {T : Signature} {R : Contract T} {k : (c : T.Call) → T.Answer c}

/-- What follows the release. -/
def readReply (ctx : Ctx) (ino : Ino) (offset : UInt64) {n : Nat} (answer : ReadAnswer n) :
    FsProg ProcOutcome :=
  match answer.result with
  | .ok n => do
    let n := min n answer.buf.length
    let attr := (← FsProg.getattr ino).toOption
    let w := writePostOpAttr (Writer.new.writeU32 nfs3Ok) ctx attr
    pure (.success (w |>.writeU32 (UInt32.ofNat n) |>.writeBool (readEof offset n attr)
      |>.writeOpaqueVar (answer.buf.take n)))
  | .error e => failReply ctx ino e.toNfsstat3

theorem readOpened_releases (ctx : Ctx) (ino : Ino) (fh : FileHandle) (offset : UInt64)
    (count : UInt32) :
    readOpened ctx ino fh offset count =
      FsProg.readAt fh offset (List.replicate count.toNat 0) >>= fun answer =>
        releaseLogging fh >>= fun _ => readReply ctx ino offset answer := by
  unfold readOpened
  congr 1
  funext answer
  unfold readReply
  rcases answer.result with e | n
  · rfl
  · rfl

theorem readReply_plain (ctx : Ctx) (ino : Ino) (offset : UInt64) {n : Nat}
    (answer : ReadAnswer n) : (readReply ctx ino offset answer).Within FsCall.Plain := by
  unfold readReply
  rcases answer.result with e | n
  · exact failReply_plain ctx ino _
  · exact ⟨trivial, fun _ => trivial⟩

/-- Between `open` and the release only the handle's own file is asked about it. -/
theorem alike_readOpened (ctx : Ctx) (ino : Ino) (fh fh' : FileHandle) (offset : UInt64)
    (count : UInt32) (hR : ∀ c r, R c r → r = k c) :
    Tree.Alike R k (Tree.Same none) (some (fh, fh')) (readOpened ctx ino fh offset count).inl
      (readOpened ctx ino fh' offset count).inl := by
  rw [readOpened_releases, readOpened_releases]
  exact .readAt fun answer => .release fun _ _ =>
    Tree.alike_plain (Tree.plainWith_inl (readReply_plain ctx ino offset answer)) hR

theorem settled_read (r : Reader) (ctx : Ctx) (hR : ∀ c r, R c r → r = k c) :
    Tree.Settled R k (NfsProto.read r ctx).inl := by
  unfold NfsProto.read
  rcases r.readOpaqueVar 64 with _ | ⟨fh, r⟩
  · exact Tree.Settled.ret _
  dsimp only
  rcases r.readU64 with _ | ⟨offset, r⟩
  · exact Tree.Settled.ret _
  dsimp only
  rcases r.readU32 with _ | ⟨count, r⟩
  · exact Tree.Settled.ret _
  dsimp only
  rcases ctx.handle.resolve fh with _ | ino
  · exact Tree.Settled.ret _
  · exact .openFile
      (fun e => Tree.alike_plain (Tree.plainWith_inl (failReply_plain ctx ino _)) hR)
      fun fh fh' => alike_readOpened ctx ino fh fh' offset _ hR

theorem settled_dispatch (o : Overflow) (fuel : Nat) (proc : UInt32) (r : Reader) (ctx : Ctx)
    (hR : ∀ c r, R c r → r = k c) :
    Tree.Settled R k (NfsProto.dispatch o fuel proc r ctx).inl := by
  by_cases hproc : proc.toNat = 6
  · have hread : NfsProto.dispatch o fuel proc r ctx = NfsProto.read r ctx := by
      rw [NfsProto.dispatch, hproc]
      rfl
    rw [hread]
    exact settled_read r ctx hR
  · exact Tree.alike_plain (Tree.plainWith_inl (dispatch_plain r ctx o fuel hproc)) hR

end Read

/-! ## Every message -/

theorem settled_handleMessage (body : Bytes) :
    Tree.Settled (fun _ r => r = flag) (fun _ => flag)
      (handleMessage o fuel handle config body) := by
  have hotherwise : ∀ xid, Tree.Settled (fun _ r => r = flag) (fun _ => flag)
      (mountOtherwise xid) := by
    refine fun xid => .other ?_
    rintro (_ | _) rfl
    · exact Tree.Settled.ret _
    · exact Tree.Settled.ret _
  unfold handleMessage
  split
  · exact Tree.Settled.ret _
  · exact Tree.Settled.ret _
  · refine Tree.Settled.bind ?_ fun _ => Tree.Settled.ret _
    unfold replyTo replyMount replyNfs
    split
    · split
      · refine .other ?_
        rintro (_ | _) rfl
        · exact hotherwise _
        · exact Tree.Settled.ret _
      · exact hotherwise _
    · split
      · split
        · exact Tree.Settled.bind (settled_dispatch o fuel _ _ _ fun _ _ => id)
            fun _ => Tree.Settled.ret _
        · exact Tree.Settled.ret _
      · exact Tree.Settled.ret _

theorem settled_of_mem {bodies : List Bytes} :
    ∀ p ∈ bodies.map (handleMessage o fuel handle config),
      Tree.Settled (fun _ r => r = flag) (fun _ => flag) p := by
  intro p hp
  obtain ⟨body, -, rfl⟩ := List.mem_map.mp hp
  exact settled_handleMessage body

/-- Statelessness. Any number of messages are handled side by side, interleaved at every trait
call, over a filesystem whose content does not change and whose handles are distinct while
they are open, while the `serve_mount` flag keeps one value. A message that has been answered
got the reply that this message gets alone, and one whose handling halted halts so alone; the
same message sent again gets the same bytes; and once all have been answered, no file is
open. -/
theorem reply_depends_on_message_alone {bodies : List Bytes}
    {w : Interleave.World ServerSig (Option Bytes)}
    (h : RunOf (F.Answers fun _ r => r = flag) (bodies.map (handleMessage o fuel handle config))
      w) :
    (∀ (i : Nat) (body : Bytes), bodies[i]? = some body →
      (∀ reply, w.jobs[i]? = some (.ret reply) →
        aloneReply o fuel handle config F flag body = .ok reply) ∧
      ∀ why, w.jobs[i]? = some (.halt why) →
        aloneReply o fuel handle config F flag body = .error why) ∧
    (∀ (i j : Nat) (body : Bytes) (reply reply' : Option Bytes), bodies[i]? = some body →
      bodies[j]? = some body → w.jobs[i]? = some (.ret reply) →
      w.jobs[j]? = some (.ret reply') → reply = reply') ∧
    ((∀ p ∈ w.jobs, ∃ reply, p = .ret reply) → table (Tree.act FlagSig) w.log = .empty) := by
  obtain ⟨halone, hdrained⟩ := Tree.as_alone settled_of_mem h
  have hanswered : ∀ (i : Nat) (body : Bytes) (reply : Option Bytes), bodies[i]? = some body →
      w.jobs[i]? = some (.ret reply) → aloneReply o fuel handle config F flag body = .ok reply := by
    intro i body reply hbody hreply
    have hjob := (halone i _ (getElem?_map_of_eq hbody)).1 reply hreply
    exact congrArg Prod.fst hjob.1
  refine ⟨fun i body hbody => ⟨fun reply => hanswered i body reply hbody, ?_⟩, ?_, hdrained⟩
  · exact (halone i _ (getElem?_map_of_eq hbody)).2
  · intro i j body reply reply' hi hj hreply hreply'
    have heq := (hanswered i body reply hi hreply).symm.trans (hanswered j body reply' hj hreply')
    exact Except.ok.inj heq

/-- The example, with the flag at a fixed value. -/
abbrev flagged (m : MemFs) (flag : Bool) : Handler ServerSig (MemFs.State × Unit) :=
  m.handler.sum fun (_ : FlagSig.Call) u => (flag, u)

/-- The example's open files. Whatever messages are handled side by side over the example while
the `serve_mount` flag keeps one value, as long as its handle numbers do not run out: every
reply is the one the message gets alone, and when no message is being handled its table of
open files is empty. -/
theorem memFs_serves_messages_side_by_side {m : MemFs} {bodies : List Bytes}
    {w : Interleave.World ServerSig (Option Bytes)}
    (h : RunOf (Played (flagged m flag) (.new, ()))
      (bodies.map (handleMessage o fuel handle config)) w)
    (hopens : MemFs.opens w.log < 2 ^ 64 - 2) :
    (∀ (i : Nat) (body : Bytes) (reply : Option Bytes), bodies[i]? = some body →
      w.jobs[i]? = some (.ret reply) →
      aloneReply o fuel handle config m.tree flag body = .ok reply) ∧
    ((∀ p ∈ w.jobs, ∃ reply, p = .ret reply) →
      (stateAfter (flagged m flag) (.new, ()) w.log).1.openFiles = []) := by
  obtain ⟨htree, htracks⟩ := MemFs.runOf_tree (R := fun _ r => r = flag) (fun _ _ => rfl) h
    (by omega)
  obtain ⟨halone, hdrained⟩ := Tree.as_alone settled_of_mem htree
  refine ⟨fun i body reply hbody hreply => ?_, fun hall => ?_⟩
  · have hjob := (halone i _ (getElem?_map_of_eq hbody)).1 reply hreply
    exact congrArg Prod.fst hjob.1
  · refine List.eq_nil_iff_forall_not_mem.mpr ?_
    rintro ⟨fh, ino⟩ hmem
    have hout := htracks.files fh
    rw [hdrained hall] at hout
    have hnone := List.lookup_eq_none_iff.mp hout _ hmem
    simp at hnone

end Message

/-! ## The same call twice -/

/-- Five bytes of `hello.txt`. -/
def helloMessage : Bytes :=
  readMessage3 7 (FileHandle3.encode ⟨List.replicate 16 0, length_zeroSecret⟩ ⟨2⟩) 0 5

/-- The call handled twice, each taking turns at every trait call. -/
def twice : Interleave.World ServerSig (Option Bytes) :=
  [0, 1, 1, 0, 0, 1, 0, 1].foldl (Interleave.World.turn (flagged (.new 0 0) false) (.new, ()))
    ⟨(List.replicate 2 helloMessage).map
      (handleMessage .wraps 0 ⟨List.replicate 16 0, length_zeroSecret⟩ localConfig), []⟩

theorem opens_twice : MemFs.opens twice.log < 2 ^ 64 - 2 := by decide +kernel

theorem memFs_serves_messages_side_by_side_twice :
    (stateAfter (flagged (.new 0 0) false) (.new, ()) twice.log).1.openFiles = [] :=
  (memFs_serves_messages_side_by_side (RunOf.turns _ _ _ _) opens_twice).2
    (ret_of_all_returned (by decide +kernel))

theorem reply_depends_on_message_alone_twice :
    ∃ reply, twice.jobs[0]? = some (.ret reply) ∧
      aloneReply .wraps 0 ⟨List.replicate 16 0, length_zeroSecret⟩ localConfig (MemFs.new 0 0).tree
        false helloMessage = .ok reply := by
  have htree := (MemFs.runOf_tree (m := .new 0 0) (R := fun _ r => r = false) (fun _ _ => rfl)
    (RunOf.turns _ _ _ _) (w := twice) (by have := opens_twice; omega)).1
  have hfirst : (twice.jobs[0]?.bind returned).isSome = true := by decide +kernel
  obtain ⟨reply, hreturned⟩ := Option.isSome_iff_exists.mp hfirst
  have hjob := getElem?_of_returned hreturned
  exact ⟨reply, hjob, ((reply_depends_on_message_alone htree).1 0 _ rfl).1 reply hjob⟩

end Anymount.Nfs
