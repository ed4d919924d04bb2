import Anymount.Nfs.Envelope

/-!
# The secret stays inside file handles

Two servers that differ only in their handle secret, asked about the same inode with a
handle of their own. They make the same trait calls, and given the same answers their
replies agree except for the bytes of handle fields, which each server resolves to the
same inode.
-/
namespace Anymount.Nfs

open Library Library.Xdr Library.Prog Rfc1813 NfsProto

/-! ## Decoding the two calls -/

section Decode

variable {r₁ r₂ : Reader} {fh₁ fh₂ rest : Bytes} (hfh₁ : fh₁.length ≤ (64 : UInt32).toNat)
  (hfh₂ : fh₂.length ≤ (64 : UInt32).toNat) (hr₁ : r₁.rest = encodeOpaque fh₁ ++ rest)
  (hr₂ : r₂.rest = encodeOpaque fh₂ ++ rest)

include hfh₁ hfh₂ hr₁ hr₂

theorem withHandle_same {args : Reader → Option (Request Unit)} (hargs : RestOnly args) :
    ∃ d : Decoded Unit, withHandle r₁ args = d.map (fun _ => fh₁) ∧
      withHandle r₂ args = d.map (fun _ => fh₂) := by
  obtain ⟨r₁', hread₁, hrest₁⟩ := Reader.readOpaqueVar_of_rest hfh₁ hr₁
  obtain ⟨r₂', hread₂, hrest₂⟩ := Reader.readOpaqueVar_of_rest hfh₂ hr₂
  have hsame := hargs r₁' r₂' (hrest₁.trans hrest₂.symm)
  cases hreq : args r₁' with
  | none =>
    rw [hreq] at hsame
    exact ⟨.garbageArgs, by simp [withHandle, hread₁, hreq, Decoded.map],
      by simp [withHandle, hread₂, ← hsame, Decoded.map]⟩
  | some req =>
    rw [hreq] at hsame
    exact ⟨.call req, by simp [withHandle, hread₁, hreq, Decoded.map],
      by simp [withHandle, hread₂, ← hsame, Decoded.map]⟩

/-- Calls that differ only in their first handle decode to requests that differ only
there. -/
theorem decodeRequest_same (proc : UInt32) :
    ∃ d : Decoded Unit, decodeRequest proc r₁ = d.map (fun _ => fh₁) ∧
      decodeRequest proc r₂ = d.map (fun _ => fh₂) := by
  have hsame := @withHandle_same r₁ r₂ fh₁ fh₂ rest hfh₁ hfh₂ hr₁ hr₂
  unfold decodeRequest
  generalize proc.toNat = n
  match n with
  | 0 => exact ⟨.call .null, rfl, rfl⟩
  | 1 => exact hsame fun _ _ _ => rfl
  | 2 => exact ⟨.call (.refused .setattr), rfl, rfl⟩
  | 3 => exact hsame (restOnly_map (Reader.local_readOpaqueVar 1024) fun a => .lookup () a)
  | 4 => exact hsame (restOnly_map Reader.local_readU32 fun a => .access () a)
  | 5 => exact ⟨.call (.refused .readlink), rfl, rfl⟩
  | 6 => exact hsame restOnly_readArgs
  | 7 => exact ⟨.call (.refused .write), rfl, rfl⟩
  | 8 => exact ⟨.call (.refused .create), rfl, rfl⟩
  | 9 => exact ⟨.call (.refused .mkdir), rfl, rfl⟩
  | 10 => exact ⟨.call (.refused .symlink), rfl, rfl⟩
  | 11 => exact ⟨.call (.refused .mknod), rfl, rfl⟩
  | 12 => exact ⟨.call (.refused .remove), rfl, rfl⟩
  | 13 => exact ⟨.call (.refused .rmdir), rfl, rfl⟩
  | 14 => exact ⟨.call (.refused .rename), rfl, rfl⟩
  | 15 => exact ⟨.call (.refused .link), rfl, rfl⟩
  | 16 => exact hsame (restOnly_readdirArgs false)
  | 17 => exact hsame (restOnly_readdirArgs true)
  | 18 => exact hsame fun _ _ _ => rfl
  | 19 => exact hsame fun _ _ _ => rfl
  | 20 => exact hsame fun _ _ _ => rfl
  | 21 => exact ⟨.call (.refused .commit), rfl, rfl⟩
  | _ + 22 => exact ⟨.procUnavail, rfl, rfl⟩

end Decode

/-! ## Handles belong to the object they are sent with -/

/-- The handle of a successful lookup is that of the object whose attributes follow. -/
def LookupOwn : lookup3res.Value Ino → Prop
  | .inl (obj, attr, _) => ∃ a, attr = some a ∧ fileid a = obj.number
  | .inr _ => True

/-- Every handle in a listing is that of its entry. -/
def DirentOwn (e : (dirent true).Value Ino) : Prop :=
  ∀ obj, e.2.2.2.2 = some obj → obj.number = e.1

def ListingOwn : (readdir3res true).Value Ino → Prop
  | .inl (_, _, entries, _) => ∀ e ∈ entries, DirentOwn e
  | .inr _ => True

variable (fsid : UInt64)

theorem related_failValue {resok : Ty} (ino : Ino) (status : FailStatus)
    {P : (result resok postOpAttr).Value Ino → Prop} (hP : ∀ attr, P (.inr (status, attr))) :
    Related (fun a b => a = b ∧ P a) (failValue fsid ino status) (failValue fsid ino status) :=
  (Related.refl (bestEffort fsid ino) fun _ => rfl).bind fun attr _ h => .ret (h ▸ ⟨rfl, hP attr⟩)

theorem related_lookup (o : Overflow) (fuel : Nat) (ino : Ino) (fh : Bytes) (name : OsString) :
    Related (fun a b => a = b ∧ LookupOwn a) (serveAt fsid o fuel ino (.lookup fh name))
      (serveAt fsid o fuel ino (.lookup fh name)) := by
  refine (Related.refl (FsProg.lookup ino name) fun _ => rfl).bind ?_
  rintro answer _ rfl
  rcases answer with e | attr
  · exact related_failValue fsid ino _ fun _ => trivial
  · refine (Related.refl (bestEffort fsid ino) fun _ => rfl).bind ?_
    rintro dirAttr _ rfl
    exact .ret ⟨rfl, _, rfl, rfl⟩

theorem inStep_packValue :
    Readdir.InStep (fun st st' => st = st' ∧ ∀ e ∈ st.entries, DirentOwn e)
      (packValue fsid true) (packValue fsid true) := by
  rintro e st _ ⟨rfl, hown⟩
  have hextra : Related (fun a b => a = b ∧ ∀ obj, a.2 = some obj → obj = e.ino)
      (extraValue fsid true e.ino) (extraValue fsid true e.ino) := by
    refine (Related.refl (FsProg.getattr e.ino) fun _ => rfl).bind ?_
    rintro answer _ rfl
    rcases answer with _ | attr
    · exact .ret ⟨rfl, nofun⟩
    · exact .ret ⟨rfl, fun _ h => (Option.some.inj h).symm⟩
  refine hextra.bind ?_
  rintro extra _ ⟨rfl, hobj⟩
  split
  · next hname =>
    dsimp only
    split
    · exact .ret ⟨rfl, rfl, hown⟩
    · refine .ret ⟨rfl, rfl, fun v hv => ?_⟩
      rcases List.mem_append.mp hv with hv | hv
      · exact hown v hv
      · rw [List.mem_singleton.mp hv]
        exact fun obj h => congrArg Ino.number (hobj obj h)
  · exact .ret ⟨rfl, rfl, hown⟩

theorem related_serveReaddir (o : Overflow) (fuel : Nat) (dir : Ino) (cookie : UInt64)
    (budget : UInt32) :
    Related (fun a b => a = b ∧ ListingOwn a) (serveReaddir fsid o fuel true dir cookie budget)
      (serveReaddir fsid o fuel true dir cookie budget) := by
  refine (Readdir.related_emit o (inStep_packValue fsid) fuel dir cookie .synthesize
    ⟨rfl, by simp⟩).bind ?_
  rintro ⟨answer, st⟩ ⟨_, _⟩ ⟨rfl, rfl, hown⟩
  rcases answer with e | eof
  · exact related_failValue fsid dir _ fun _ => trivial
  · dsimp only
    split
    · exact related_failValue fsid dir _ fun _ => trivial
    · refine (Related.refl (bestEffort fsid dir) fun _ => rfl).bind ?_
      rintro attr _ rfl
      exact .ret ⟨rfl, hown⟩

/-! ## The two replies -/

section Replies

variable (handle₁ handle₂ : FileHandle3)

/-- Two payloads parse to values of the type `t` that agree once each handle is replaced
by the inode its own server resolves it to. Every handle resolves, and `own` holds of the
resolved value. -/
def AgreeUpToHandles (t : Ty) (own : t.Value Ino → Prop) (payload₁ payload₂ : Bytes) : Prop :=
  ∃ v₁ v₂ w, (t.decode fhsize).run payload₁ = some (v₁, []) ∧
    (t.decode fhsize).run payload₂ = some (v₂, []) ∧
    t.map handle₁.resolve v₁ = t.map some w ∧ t.map handle₂.resolve v₂ = t.map some w ∧ own w

/-- Two replies to the same procedure that differ at most inside handle fields, and only
`LOOKUP3` and `READDIRPLUS3` have any. -/
def SameButHandles (xid proc : UInt32) (reply₁ reply₂ : Option Bytes) : Prop :=
  ∃ stat payload₁ payload₂, reply₁ = some (replyHeader xid stat ++ payload₁) ∧
    reply₂ = some (replyHeader xid stat ++ payload₂) ∧
    (proc ≠ 3 → proc ≠ 17 → payload₁ = payload₂) ∧
    (stat ≠ AcceptStat.success → payload₁ = payload₂) ∧
    (proc = 3 → stat = AcceptStat.success →
      AgreeUpToHandles handle₁ handle₂ lookup3res LookupOwn payload₁ payload₂) ∧
    (proc = 17 → stat = AcceptStat.success →
      AgreeUpToHandles handle₁ handle₂ (readdir3res true) ListingOwn payload₁ payload₂)

theorem agreeUpToHandles_encode (t : Ty) {own : t.Value Ino → Prop} {w : t.Value Ino}
    (h : own w) : AgreeUpToHandles handle₁ handle₂ t own (t.encode handle₁.encode w)
      (t.encode handle₂.encode w) := by
  have hresolve : ∀ handle : FileHandle3, handle.resolve ∘ handle.encode = some := fun handle =>
    funext handle.resolve_encode
  refine ⟨_, _, w, (yields_decode (length_encode_le_fhsize handle₁) t w).run_eq,
    (yields_decode (length_encode_le_fhsize handle₂) t w).run_eq, ?_, ?_, h⟩
  · rw [Ty.map_map, hresolve]
  · rw [Ty.map_map, hresolve]

variable {handle₁ handle₂} {xid proc : UInt32}

/-- Equal replies, to a procedure without handles or with a failure of the call itself. -/
theorem sameButHandles_of_eq {outcome₁ outcome₂ : ProcOutcome} (h : outcome₁ = outcome₂)
    (hproc : proc ≠ 3 ∧ proc ≠ 17 ∨ outcome₁.stat ≠ AcceptStat.success) :
    SameButHandles handle₁ handle₂ xid proc (some (buildReply xid outcome₁))
      (some (buildReply xid outcome₂)) := by
  subst h
  refine ⟨_, _, _, congrArg some (buildReply_eq xid outcome₁),
    congrArg some (buildReply_eq xid outcome₁), fun _ _ => rfl, fun _ => rfl, ?_, ?_⟩
  · exact fun h3 hstat => absurd hstat (hproc.resolve_left fun h => h.1 h3)
  · exact fun h17 hstat => absurd hstat (hproc.resolve_left fun h => h.2 h17)

/-- Two results, compared by what their procedure returns. -/
theorem sameButHandles_success {payload₁ payload₂ : Bytes}
    (hother : proc ≠ 3 → proc ≠ 17 → payload₁ = payload₂)
    (hlookup : proc = 3 → AgreeUpToHandles handle₁ handle₂ lookup3res LookupOwn payload₁ payload₂)
    (hlisting : proc = 17 →
      AgreeUpToHandles handle₁ handle₂ (readdir3res true) ListingOwn payload₁ payload₂) :
    SameButHandles handle₁ handle₂ xid proc (some (buildReply xid (.success ⟨payload₁⟩)))
      (some (buildReply xid (.success ⟨payload₂⟩))) :=
  ⟨_, payload₁, payload₂, congrArg some (buildReply_eq xid _), congrArg some (buildReply_eq xid _),
    hother, fun hstat => absurd rfl hstat, fun h3 _ => hlookup h3, fun h17 _ => hlisting h17⟩

theorem sameButHandles_lookup {w : lookup3res.Value Ino} (h : LookupOwn w) :
    SameButHandles handle₁ handle₂ xid 3
      (some (buildReply xid (.success ⟨lookup3res.encode handle₁.encode w⟩)))
      (some (buildReply xid (.success ⟨lookup3res.encode handle₂.encode w⟩))) :=
  sameButHandles_success (fun h3 => absurd rfl h3)
    (fun _ => agreeUpToHandles_encode handle₁ handle₂ lookup3res h)
    fun h17 => absurd h17 (by decide)

theorem sameButHandles_readdirplus {w : (readdir3res true).Value Ino} (h : ListingOwn w) :
    SameButHandles handle₁ handle₂ xid 17
      (some (buildReply xid (.success ⟨(readdir3res true).encode handle₁.encode w⟩)))
      (some (buildReply xid (.success ⟨(readdir3res true).encode handle₂.encode w⟩))) :=
  sameButHandles_success (fun _ h17 => absurd rfl h17) (fun h3 => absurd h3 (by decide))
    fun _ => agreeUpToHandles_encode handle₁ handle₂ (readdir3res true) h

theorem related_plain {t : Ty} (p : FsProg (t.Value Ino)) (ht : t.tokenFree = true)
    (hproc : proc ≠ 3 ∧ proc ≠ 17) :
    Related (fun a b => SameButHandles handle₁ handle₂ xid proc (some (buildReply xid a))
        (some (buildReply xid b)))
      (p >>= fun v => ret (.success ⟨t.encode handle₁.encode v⟩))
      (p >>= fun v => ret (.success ⟨t.encode handle₂.encode v⟩)) := by
  refine (Related.refl p fun _ => rfl).bind ?_
  rintro v _ rfl
  refine .ret (sameButHandles_of_eq ?_ (.inl hproc))
  rw [t.encode_of_tokenFree handle₁.encode handle₂.encode ht v]

/-- Requests for the same inode are served alike, and only the handles are rendered
differently. -/
theorem related_answer (o : Overflow) (fuel : Nat) (ino : Ino) (req : Request Unit)
    (hproc : proc.toNat = req.proc) :
    Related (fun a b => SameButHandles handle₁ handle₂ xid proc (some (buildReply xid a))
        (some (buildReply xid b)))
      (answer o fuel ⟨handle₁, fsid⟩ (.call (req.map fun _ => handle₁.encode ino)))
      (answer o fuel ⟨handle₂, fsid⟩ (.call (req.map fun _ => handle₂.encode ino))) := by
  have hother : req.proc ≠ 3 ∧ req.proc ≠ 17 → proc ≠ 3 ∧ proc ≠ 17 := by
    rintro ⟨h3, h17⟩
    constructor <;> rintro rfl
    · exact h3 hproc.symm
    · exact h17 hproc.symm
  rw [answer_call, answer_call]
  cases req with
  | null => exact .ret (sameButHandles_of_eq rfl (.inl (hother (by simp [Request.proc]))))
  | refused p =>
    refine .ret (sameButHandles_of_eq ?_ (.inl (hother ?_))) <;> cases p <;> first | rfl | decide
  | lookup dir name =>
    obtain rfl : proc = 3 := UInt32.toNat_inj.mp hproc
    simp only [Request.map, Request.handle?, Option.bind_some, FileHandle3.resolve_encode]
    refine (related_lookup fsid o fuel ino (handle₁.encode ino) name).bind ?_
    rintro v _ ⟨rfl, hown⟩
    exact .ret (sameButHandles_lookup hown)
  | readdir plus dir cookie budget =>
    simp only [Request.map, Request.handle?, Option.bind_some, FileHandle3.resolve_encode]
    cases plus with
    | false =>
      exact related_plain (serveReaddir fsid o fuel false ino cookie budget) rfl
        (hother (by simp [Request.proc]))
    | true =>
      obtain rfl : proc = 17 := UInt32.toNat_inj.mp hproc
      refine (related_serveReaddir fsid o fuel ino cookie budget).bind ?_
      rintro v _ ⟨rfl, hown⟩
      exact .ret (sameButHandles_readdirplus hown)
  | _ =>
    simp only [Request.map, Request.handle?, Option.bind_some, FileHandle3.resolve_encode]
    exact related_plain (serveAt fsid o fuel ino _) rfl (hother (by simp [Request.proc]))

end Replies

/-- Two servers that differ only in their secret, each called with its own handle for the
same inode and the same further arguments. Against the same filesystem they make the same
calls, and their replies agree up to handle fields. -/
theorem secret_only_in_handles (o : Overflow) (fuel : Nat) (handle₁ handle₂ : FileHandle3)
    (config : Config) {head : Bytes} {xid proc : UInt32} {args : Reader}
    (hhead : NfsCall head xid proc args) (hend : args.rest = []) (ino : Ino) (rest : Bytes)
    {σ : Type} (env : Handler ServerSig σ) (s : σ) :
    let call := fun handle : FileHandle3 => handleMessage o fuel handle config
      (head ++ (encodeOpaque (handle.encode ino) ++ rest))
    (call handle₁).calls env s = (call handle₂).calls env s ∧
      ((∃ reply₁ reply₂, ((call handle₁).run env s).1 = .ok reply₁ ∧
        ((call handle₂).run env s).1 = .ok reply₂ ∧
        SameButHandles handle₁ handle₂ xid proc reply₁ reply₂) ∨
      ∃ why, ((call handle₁).run env s).1 = .error why ∧
        ((call handle₂).run env s).1 = .error why) := by
  intro call
  suffices hrelated : Related (SameButHandles handle₁ handle₂ xid proc) (call handle₁)
      (call handle₂) by
    obtain ⟨hcalls, -, hresult⟩ := hrelated.run env s
    exact ⟨hcalls, hresult⟩
  have hargs : ∀ handle : FileHandle3, ∃ args',
      NfsCall (head ++ (encodeOpaque (handle.encode ino) ++ rest)) xid proc args' ∧
        args'.rest = encodeOpaque (handle.encode ino) ++ rest := by
    intro handle
    obtain ⟨args', hcall, hrest⟩ := readCallHeader_extend
      (show (Reader.new (head ++ (encodeOpaque (handle.encode ino) ++ rest))).rest =
        (Reader.new head).rest ++ (encodeOpaque (handle.encode ino) ++ rest) from rfl) hhead
    exact ⟨args', hcall, by rw [hrest, hend, List.nil_append]⟩
  obtain ⟨args₁, hcall₁, hrest₁⟩ := hargs handle₁
  obtain ⟨args₂, hcall₂, hrest₂⟩ := hargs handle₂
  have hlen : ∀ handle : FileHandle3, (handle.encode ino).length ≤ (64 : UInt32).toNat :=
    fun handle => length_encode_le_fhsize handle ino
  obtain ⟨d, hd₁, hd₂⟩ := decodeRequest_same (hlen handle₁) (hlen handle₂) hrest₁ hrest₂ proc
  simp only [call, handleMessage_of_nfsCall o fuel handle₁ config hcall₁,
    handleMessage_of_nfsCall o fuel handle₂ config hcall₂]
  refine Related.bind (Q := fun a b => SameButHandles handle₁ handle₂ xid proc
    (some (buildReply xid a)) (some (buildReply xid b))) (Related.inl ?_) fun a b h => .ret h
  rw [hd₁, hd₂]
  cases d with
  | procUnavail => exact .ret (sameButHandles_of_eq rfl (.inr (by decide)))
  | garbageArgs => exact .ret (sameButHandles_of_eq rfl (.inr (by decide)))
  | call req =>
    have hproc : proc.toNat = (req.map fun _ => handle₁.encode ino).proc :=
      (decodeRequest_eq_call hd₁).1
    refine related_answer 1 o fuel ino req ?_
    rw [hproc]
    cases req with
    | readdir plus => cases plus <;> rfl
    | refused p => cases p <;> rfl
    | _ => rfl

/-- `LOOKUP3` of a name in the root of the example tree, on two mounts. -/
theorem secret_only_in_handles_lookup_hello :
    let call := fun handle : FileHandle3 => handleMessage .wraps 0 handle localConfig
      (callMessage 7 3 [] ++ (encodeOpaque (handle.encode ⟨1⟩) ++
        encodeOpaque (MemFs.text "hello.txt")))
    (call ⟨List.replicate 16 0, rfl⟩).calls memServer (.new, false) =
      (call ⟨List.replicate 16 1, rfl⟩).calls memServer (.new, false) := by
  obtain ⟨args, hcall, hend⟩ := nfsCall_callMessage 7 3 []
  exact (secret_only_in_handles .wraps 0 ⟨List.replicate 16 0, rfl⟩ ⟨List.replicate 16 1, rfl⟩
    localConfig hcall hend ⟨1⟩ (encodeOpaque (MemFs.text "hello.txt")) memServer (.new, false)).1

end Anymount.Nfs
