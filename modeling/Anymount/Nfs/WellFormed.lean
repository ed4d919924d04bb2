import Anymount.Nfs.Exchange
import Anymount.Readdir.Walk

/-!
# Every result is well formed

Whatever the filesystem answers, an accepted reply carries one value of the procedure's
RFC 1813 result type and nothing after it. The values themselves are typed, so the work
left is to follow the byte count of `READ3` and to see that handling returns.
-/
namespace Anymount.Nfs

open Library Library.Xdr Library.Prog Rfc1813 NfsProto

/-- The count of a successful `READ3` is the length of its data and within what was
asked for. -/
def ReadBounded {H : Type} (count : UInt32) : read3res.Value H → Prop
  | .inl (_, n, _, data) => n.toNat = data.val.length ∧ n.toNat ≤ min count.toNat rtmax.toNat
  | .inr _ => True

/-- What holds of the value served to a request beyond its type. -/
def Request.Bounded {H K : Type} : (req : Request H) → req.ty.Value K → Prop
  | .read _ _ count, v => ReadBounded count v
  | _, _ => True

theorem readBounded_map {H K : Type} (f : H → K) {count : UInt32} {v : read3res.Value H}
    (h : ReadBounded count v) : ReadBounded count (read3res.map f v) := by
  rcases v with ⟨attr, n, eof, data⟩ | ⟨status, attr⟩
  · exact h
  · trivial

/-- The reply to a call is well formed: an accepted one carries exactly one value of the
procedure's result type, and a read result counts its data. -/
def WellFormedReply (xid proc : UInt32) (args : Reader) (result : Option Bytes) : Prop :=
  ∃ reply, result = some reply ∧ ∀ payload, acceptedPayload xid reply = some payload →
    (∃ t v, resultOf proc.toNat = some t ∧ (t.decode fhsize).run payload = some (v, [])) ∧
    ∀ fh offset count, decodeRequest proc args = .call (.read fh offset count) →
      ∃ v, (read3res.decode fhsize).run payload = some (v, []) ∧ ReadBounded count v

section Serve

variable {R : Contract FsSig} {H : Halt → Prop} (fsid : UInt64)

theorem wp_serveRead (ino : Ino) (offset : UInt64) (count : UInt32) :
    (serveRead fsid ino offset count).wp R H (ReadBounded count) := by
  rw [serveRead, wp_bind, FsProg.wp_openFile]
  intro r _
  rcases r with e | fh
  · exact wp_failValue fsid ino _ fun _ => trivial
  simp only [wp_bind, FsProg.wp_readAt, releaseLogging, FsProg.wp_release, pure_eq, wp_ret]
  intro answer _ _ _
  obtain ⟨result, buf, hbuf⟩ := answer
  rcases result with e | n
  · exact wp_failValue fsid ino _ fun _ => trivial
  simp only [wp_bind, FsProg.wp_getattr, wp_ret]
  intro attr _
  have hcount : (List.replicate (min count rtmax).toNat (0 : UInt8)).length =
      min count.toNat rtmax.toNat := by rw [List.length_replicate, toNat_min_u32]
  have hlen : (readData ⟨.ok n, buf, hbuf⟩ n).length = min n (min count.toNat rtmax.toNat) :=
    (length_readData ⟨.ok n, buf, hbuf⟩ n).trans (congrArg (min n) hcount)
  have hnat : (UInt32.ofNat (readData ⟨.ok n, buf, hbuf⟩ n).length).toNat =
      (readData ⟨.ok n, buf, hbuf⟩ n).length :=
    UInt32.toNat_ofNat_of_lt' (lt_of_le_of_lt (by omega) rtmax.toNat_lt)
  exact ⟨hnat, by rw [hnat, hlen]; omega⟩

theorem wp_serveReaddir (o : Overflow) (fuel : Nat) (plus : Bool) (dir : Ino) (cookie : UInt64)
    (budget : UInt32)
    (hemit : ∀ sink : Readdir.SinkFn (Packed plus), (∀ e st, (sink e st).wp R H fun _ => True) →
      ∀ st, (Readdir.emit o fuel dir cookie .synthesize sink st).wp R H fun _ => True) :
    (serveReaddir fsid o fuel plus dir cookie budget).wp R H fun _ => True := by
  have hsink : ∀ e st, (packValue fsid plus e st).wp R H fun _ => True := by
    intro e st
    rw [packValue, wp_bind]
    refine wp_mono (wp_extraValue fsid plus _) fun extra _ => ?_
    split
    · dsimp only
      split <;> trivial
    · trivial
  rw [serveReaddir, wp_bind]
  refine wp_mono (hemit _ hsink _) ?_
  rintro ⟨e | eof, st⟩ -
  · exact wp_failValue fsid dir _ fun _ => trivial
  · dsimp only
    split
    · exact wp_failValue fsid dir _ fun _ => trivial
    · rw [wp_bind]
      exact wp_mono (wp_bestEffort fsid dir) fun _ _ => trivial

/-- Serving returns, except perhaps for a directory listing. -/
theorem wp_serveAt {K : Type} (o : Overflow) (fuel : Nat) (ino : Ino) (req : Request K)
    (hreaddir : ∀ plus dir cookie budget, req = .readdir plus dir cookie budget →
      (serveReaddir fsid o fuel plus ino cookie budget).wp R H fun _ => True) :
    (serveAt fsid o fuel ino req).wp R H req.Bounded := by
  cases req with
  | null => trivial
  | getattr obj =>
    rw [serveAt, wp_bind, FsProg.wp_getattr]
    intro r _
    cases r <;> trivial
  | lookup dir name =>
    rw [serveAt, wp_bind, FsProg.wp_lookup]
    intro r _
    rcases r with e | attr
    · exact wp_failValue fsid ino _ fun _ => trivial
    · exact (wp_bind _ _ _).mpr (wp_mono (wp_bestEffort fsid ino) fun _ _ => trivial)
  | access obj requested =>
    rw [serveAt, wp_bind, FsProg.wp_getattr]
    intro r _
    cases r <;> trivial
  | read obj offset count => exact wp_serveRead fsid ino offset count
  | readdir plus dir cookie budget => exact hreaddir plus dir cookie budget rfl
  | fsstat obj =>
    rw [serveAt, serveStatfs, wp_bind, FsProg.wp_statfs]
    intro r _
    rcases r with e | s
    · exact wp_failValue fsid ino _ fun _ => trivial
    · exact (wp_bind _ _ _).mpr (wp_mono (wp_bestEffort fsid ino) fun _ _ => trivial)
  | fsinfo obj =>
    rw [serveAt, wp_bind]
    exact wp_mono (wp_bestEffort fsid ino) fun _ _ => trivial
  | pathconf obj =>
    rw [serveAt, wp_bind]
    exact wp_mono (wp_bestEffort fsid ino) fun _ _ => trivial
  | refused proc => trivial

end Serve

section Reply

variable (o : Overflow) (fuel : Nat) (handle : FileHandle3) (config : Config)

/-- The payload of a rendered value parses back to it. -/
theorem wellFormedReply_render {xid proc : UInt32} {args : Reader} {req : Request Bytes}
    (hreq : decodeRequest proc args = .call req) {v : req.ty.Value Ino} (hv : req.Bounded v) :
    WellFormedReply xid proc args (some (buildReply xid (render ⟨handle, 1⟩ req v))) := by
  have hdecode := (yields_decode (length_encode_le_fhsize handle) req.ty v).run_eq
  refine ⟨_, rfl, fun payload hpayload => ?_⟩
  rw [acceptedPayload_buildReply] at hpayload
  cases hpayload
  refine ⟨⟨req.ty, _, ?_, hdecode⟩, fun fh offset count hcall => ?_⟩
  · rw [(decodeRequest_eq_call hreq).1, req.resultOf_proc]
  · obtain rfl : req = .read fh offset count := by
      rw [hreq] at hcall
      exact Decoded.call.inj hcall
    exact ⟨_, hdecode, readBounded_map handle.encode hv⟩

variable {body : Bytes} {xid proc : UInt32} {args : Reader}

/-- Handling a call ends in a well-formed reply if the listings it may ask for end. -/
theorem wp_handleMessage_wellFormed (h : NfsCall body xid proc args) {R : Contract ServerSig}
    {H : Halt → Prop}
    (hreaddir : proc = 16 ∨ proc = 17 → ∀ plus dir cookie budget,
      (serveReaddir 1 o fuel plus dir cookie budget).wp (fun c r => R (.inl c) r) H fun _ => True) :
    (handleMessage o fuel handle config body).wp R H (WellFormedReply xid proc args) := by
  rw [handleMessage_of_nfsCall o fuel handle config h, wp_bind, wp_inl]
  cases hreq : decodeRequest proc args with
  | procUnavail =>
    refine ⟨_, rfl, fun payload hpayload => ?_⟩
    rw [acceptedPayload_buildReply] at hpayload
    cases hpayload
  | garbageArgs =>
    refine ⟨_, rfl, fun payload hpayload => ?_⟩
    rw [acceptedPayload_buildReply] at hpayload
    cases hpayload
  | call req =>
    rw [answer_call]
    cases req.handle?.bind handle.resolve with
    | none =>
      refine wellFormedReply_render handle hreq ?_
      cases req <;> trivial
    | some ino =>
      rw [wp_bind]
      refine wp_mono (wp_serveAt 1 o fuel ino req ?_) fun v hv =>
        wellFormedReply_render handle hreq hv
      rintro plus dir cookie budget rfl
      refine hreaddir ?_ plus ino cookie budget
      have hproc := (decodeRequest_eq_call hreq).1
      cases plus
      · exact .inl (UInt32.toNat_inj.mp hproc)
      · exact .inr (UInt32.toNat_inj.mp hproc)

/-- The contract of a whole server whose filesystem's listings end. -/
def ListingsEnd (N : Nat) : Contract ServerSig
  | .inl c, r => Readdir.Ends N c r
  | .inr _, _ => True

/-- Every result is well formed. For every call of the program and every behaviour of the
filesystem, what is returned is a reply whose payload, if accepted, is one value of the
result type. A reply always comes, except that a directory listing has to end. -/
theorem nfs_result_wellFormed (h : NfsCall body xid proc args) {σ : Type}
    (env : Handler ServerSig σ) (s : σ) :
    (∀ result, ((handleMessage o fuel handle config body).run env s).1 = .ok result →
      WellFormedReply xid proc args result) ∧
    (proc ≠ 16 → proc ≠ 17 →
      ∃ result, ((handleMessage o fuel handle config body).run env s).1 = .ok result) ∧
    ∀ N, N + 3 < 2 ^ 64 → N < fuel → env.Meets (ListingsEnd N) →
      ∃ result, ((handleMessage o fuel handle config body).run env s).1 = .ok result := by
  refine ⟨fun result => ?_, fun h16 h17 => ?_, fun N hN hfuel hmeets => ?_⟩
  · exact Safe.run (wp_handleMessage_wellFormed o fuel handle config h fun _ _ _ _ _ => wp_true _)
      env.meets_anyAnswer
  · have hno : ¬ (proc = 16 ∨ proc = 17) := by tauto
    obtain ⟨result, hrun, -⟩ :=
      Ensures.run (wp_handleMessage_wellFormed o fuel handle config h hno.elim)
        env.meets_anyAnswer s
    exact ⟨result, hrun⟩
  · have hlist : ∀ plus dir cookie budget,
        (serveReaddir 1 o fuel plus dir cookie budget).wp (fun c r => ListingsEnd N (.inl c) r)
          (fun _ => False) fun _ => True := fun plus dir cookie budget =>
      wp_serveReaddir 1 o fuel plus dir cookie budget fun sink hsink st =>
        Readdir.wp_emit_ends (J := fun _ => True) o (fun _ _ hr => hr) hN (fun e st _ => hsink e st)
          hfuel dir cookie .synthesize trivial
    obtain ⟨result, hrun, -⟩ := Ensures.run
      (wp_handleMessage_wellFormed o fuel handle config h fun _ => hlist) hmeets s
    exact ⟨result, hrun⟩

end Reply

theorem nfs_result_wellFormed_getattr_root :
    ∃ args result, ((handleMessage .wraps 0 ⟨List.replicate 16 0, rfl⟩ localConfig
        (callMessage 7 1 (encodeOpaque (FileHandle3.encode ⟨List.replicate 16 0, rfl⟩ ⟨1⟩)))).run
          memServer (.new, false)).1 = .ok result ∧ WellFormedReply 7 1 args result := by
  obtain ⟨args, hcall, -⟩ := nfsCall_callMessage 7 1
    (encodeOpaque (FileHandle3.encode ⟨List.replicate 16 0, rfl⟩ ⟨1⟩))
  obtain ⟨hwell, hreturns, -⟩ := nfs_result_wellFormed .wraps 0 ⟨List.replicate 16 0, rfl⟩
    localConfig hcall memServer (.new, false)
  obtain ⟨result, hrun⟩ := hreturns (by decide) (by decide)
  exact ⟨args, result, hrun, hwell result hrun⟩

end Anymount.Nfs
