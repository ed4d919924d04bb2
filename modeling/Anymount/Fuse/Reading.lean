import Anymount.Fuse
import Anymount.Readdir.Law
import Anymount.Tree

/-!
# Reading files through FUSE

Processes read files while the adapter's worker threads serve whatever else the kernel asks.
A process opens a file, reads on from where it is until it gets nothing, and closes it. It may
ask for any amounts: the adapter caps each read, and the process asks for the rest.
-/
namespace Anymount.Fuse

open Library Library.Prog Library.Interleave Library.Ownership

/-! ## A process -/

/-- Read on from the end of what it has, until there is nothing more. -/
def catLoop (fh : FileHandle) (sizes : Nat → UInt32) : Nat → Nat → Bytes → FsProg (Option Bytes)
  | 0, _, _ => .halt .fuel
  | fuel + 1, k, got => do
    match ← read fh (UInt64.ofNat got.length) (sizes k) with
    | .data [] => pure (some got)
    | .data bytes => catLoop fh sizes fuel (k + 1) (got ++ bytes)
    | _ => pure none

/-- Read a whole file, asking for `sizes k` bytes in the `k`-th read. -/
def cat (sizes : Nat → UInt32) (fuel : Nat) (ino : Ino) : FsProg (Option Bytes) := do
  match ← openFile ino with
  | .opened fh _ => do
    let content ← catLoop fh sizes fuel 0 []
    let _ ← release fh
    pure content
  | _ => pure none

section Process

variable {F : Tree} {T : Signature} {R : Contract T} {k : (c : T.Call) → T.Answer c} {ino : Ino}
  {content : Bytes}

/-- What `read` makes of the answer to `read_at`. -/
def readResult {n : Nat} (answer : ReadAnswer n) : Reply :=
  match answer.result with
  | .ok n => .data (answer.buf.take (min n answer.buf.length))
  | .error e => .failed e

theorem read_eq (fh : FileHandle) (offset : UInt64) (size : UInt32) :
    read fh offset size =
      FsProg.readAt fh offset (List.replicate (readBufferLen size) 0) >>= fun answer =>
        ret (readResult answer) := by
  unfold read
  congr 1
  funext answer
  unfold readResult
  rcases answer.result with e | n
  · rfl
  · rfl

/-- One read of the file, with the tree alone. -/
theorem run_read (h : F.Holds ino content) (fh : FileHandle) (offset : UInt64) (size : UInt32) :
    (read fh offset size).run F.alone (some ino) =
      (.ok (.data ((content.drop offset.toNat).take (readBufferLen size))), some ino) := by
  have hrun : (read fh offset size).run F.alone (some ino) =
      (.ok (readResult (F.read ino offset (List.replicate (readBufferLen size) 0))), some ino) := by
    rw [read_eq]
    rfl
  rw [hrun, readResult, h.result]
  dsimp only
  rw [ReadAnswer.length_buf, min_eq_left (min_le_left _ _), h.data, List.length_replicate]

theorem readBufferLen_pos {size : UInt32} (h : size ≠ 0) : 0 < readBufferLen size := by
  have hsize : 0 < size.toNat := Nat.pos_of_ne_zero fun h0 => h (UInt32.toNat_inj.mp h0)
  have hmax : 0 < maxRead.toNat := by decide
  rw [readBufferLen, toNat_min_u32]
  omega

/-- The loop has an initial piece of the file and comes closer to its end with every read. -/
theorem run_catLoop (h : F.Holds ino content) (fh : FileHandle) {sizes : Nat → UInt32}
    (hsizes : ∀ k, sizes k ≠ 0) (fuel k : Nat) (got : Bytes) (hgot : got <+: content)
    (hfuel : content.length - got.length < fuel) :
    (catLoop fh sizes fuel k got).run F.alone (some ino) = (.ok (some content), some ino) := by
  induction fuel generalizing k got with
  | zero => omega
  | succ fuel ih =>
    obtain ⟨rest, rfl⟩ := hgot
    have hsize := h.size_lt
    rw [List.length_append] at hsize hfuel
    have hoffset : (UInt64.ofNat got.length).toNat = got.length := toNat_ofNat_u64 (by omega)
    have hpos := readBufferLen_pos (hsizes k)
    rw [catLoop, run_bind_of_ok (run_read h fh _ (sizes k)), hoffset, List.drop_left]
    rcases hchunk : rest.take (readBufferLen (sizes k)) with _ | ⟨byte, bytes⟩
    · have hrest : rest = [] := by
        have := congrArg List.length hchunk
        rw [List.length_take, List.length_nil] at this
        exact List.length_eq_zero_iff.mp (by omega)
      rw [hrest, List.append_nil]
      rfl
    · have hpre : byte :: bytes <+: rest := hchunk ▸ List.take_prefix _ _
      obtain ⟨rest, rfl⟩ := hpre
      refine ih (k + 1) (got ++ byte :: bytes) ⟨rest, by simp⟩ ?_
      simp only [List.length_append, List.length_cons] at hfuel ⊢
      omega

/-- Alone, a process gets the file, whatever amounts it asks for. -/
theorem run_cat (h : F.Holds ino content) {sizes : Nat → UInt32} (hsizes : ∀ k, sizes k ≠ 0)
    {fuel : Nat} (hfuel : content.length < fuel) :
    (cat sizes fuel ino).run F.alone none = (.ok (some content), none) := by
  have hopen : (openFile ino).run F.alone none = (.ok (.opened ⟨0⟩ 0), some ino) := by
    rw [openFile, Tree.run_openFile h.opens]
    rfl
  have hloop := run_catLoop h ⟨0⟩ hsizes fuel 0 [] List.nil_prefix (by simpa using hfuel)
  rw [cat, run_bind_of_ok hopen]
  dsimp only
  rw [run_bind_of_ok hloop]
  rfl

/-- A process uses the handle it was given for nothing but its reads and the release. -/
theorem alike_catLoop (fh fh' : FileHandle) (sizes : Nat → UInt32) (fuel n : Nat) (got : Bytes) :
    Tree.Alike R k (Tree.Same (some (fh, fh'))) (some (fh, fh')) (catLoop fh sizes fuel n got).inl
      (catLoop fh' sizes fuel n got).inl := by
  induction fuel generalizing n got with
  | zero => exact .halt .fuel
  | succ fuel ih =>
    rw [catLoop, catLoop, read_eq, read_eq]
    refine .readAt fun answer => ?_
    dsimp only [Prog.bind]
    split
    · exact .ret ⟨rfl, rfl⟩
    · exact ih _ _
    · exact .ret ⟨rfl, rfl⟩

theorem settled_cat (sizes : Nat → UInt32) (fuel : Nat) (ino : Ino) :
    Tree.Settled R k (cat sizes fuel ino).inl := by
  refine .openFile (fun e => Tree.Settled.ret none) fun fh fh' => ?_
  show Tree.Alike R k _ _ (catLoop fh sizes fuel 0 [] >>= fun content =>
    release fh >>= fun _ => pure content).inl (catLoop fh' sizes fuel 0 [] >>= fun content =>
    release fh' >>= fun _ => pure content).inl
  rw [inl_bind, inl_bind]
  refine .bind (alike_catLoop fh fh' sizes fuel 0 []) ?_
  rintro m a b ⟨rfl, rfl⟩
  exact .release fun _ _ => Tree.Settled.ret a

end Process

/-! ## Requests that open no files -/

def Request.Plain : Request → Prop
  | openFile _ | read _ _ _ | release _ => False
  | _ => True

theorem addRecord_plain (room : Room) (e : Readdir.Entry) (records : List Dirent) :
    (addRecord room e records).Within FsCall.Plain := by
  unfold addRecord
  split
  · trivial
  · trivial

theorem readdir_plain (o : Overflow) (fuel : Nat) (ino : Ino) (offset : UInt64) (room : Room) :
    (readdir o fuel ino offset room).Within FsCall.Plain := by
  refine .bind (Readdir.emit_within o fuel offset _ (fun _ => trivial) trivial
    (addRecord_plain room) _) ?_
  rintro ⟨e | _, records⟩
  · trivial
  · trivial

theorem inr_within {α : Type} (p : XattrProg α) :
    (p.inr (S := FsSig)).Within (Tree.PlainWith XattrSig) := by
  induction p with
  | ret a => trivial
  | halt why => trivial
  | call c next ih => exact ⟨trivial, ih⟩

theorem serve_plain (o : Overflow) (fuel : Nat) {req : Request} (h : req.Plain) :
    (serve o fuel req).Within (Tree.PlainWith XattrSig) := by
  cases req with
  | openFile _ | read _ _ _ | release _ => exact h.elim
  | lookup parent name =>
    refine ⟨trivial, ?_⟩
    rintro (e | attr)
    · trivial
    · trivial
  | getattr ino =>
    refine ⟨trivial, ?_⟩
    rintro (e | attr)
    · trivial
    · trivial
  | statfs =>
    refine ⟨trivial, ?_⟩
    rintro (e | s)
    · trivial
    · trivial
  | readdir ino offset room => exact Tree.plainWith_inl (readdir_plain o fuel ino offset room)
  | forget ino nlookup => exact inr_within _
  | listxattr ino size => exact inr_within _
  | getxattr ino name size => exact inr_within _

/-! ## All of them at once -/

/-- What goes on at a mount. -/
inductive Job where
  | cat (sizes : Nat → UInt32) (fuel : Nat) (ino : Ino)
  | request (req : Request)

/-- What a job ends with: what a process has read, or the reply to a request. -/
inductive Outcome where
  | content (got : Option Bytes)
  | answered (reply : Reply)

section Mount

variable (o : Overflow) (fuel : Nat) (F : Tree) (k : (c : XattrCall) → c.Answer)

def Job.prog : Job → Prog FuseSig Outcome
  | cat sizes fuel ino => (Fuse.cat sizes fuel ino).inl >>= fun got => ret (.content got)
  | request req => serve o fuel req >>= fun reply => ret (.answered reply)

/-- A process reads a file that is there, and asks for something each time; the other requests
are any that open no files. -/
def Job.Suited : Job → Prop
  | cat sizes fuel ino =>
    (∀ k, sizes k ≠ 0) ∧ ∃ content, F.Holds ino content ∧ content.length < fuel
  | request req => req.Plain

/-- What a request is answered if nothing else goes on. -/
def aloneReply (req : Request) : Except Halt Reply :=
  ((serve o fuel req).run (F.aloneWith (T := XattrSig) k) (none, ())).1

/-- A process got its file, a request the reply it gets alone. -/
def Job.Right : Job → Outcome → Prop
  | cat _ _ ino, .content got => ∃ content, F.Holds ino content ∧ got = some content
  | request req, .answered reply => aloneReply o fuel F k req = .ok reply
  | _, _ => False

variable {o fuel F k}

theorem settled_of_suited {job : Job} (hsuited : job.Suited F) :
    Tree.Settled (T := XattrSig) (fun c r => r = k c) k (job.prog o fuel) := by
  cases job with
  | cat sizes fuel ino =>
    exact Tree.Settled.bind (settled_cat sizes fuel ino) fun _ => Tree.Settled.ret _
  | request req =>
    exact Tree.Settled.bind (Tree.alike_plain (serve_plain o fuel hsuited) fun _ _ hr => hr)
      fun _ => Tree.Settled.ret _

/-- How a job ends alone. -/
theorem run_of_suited {job : Job} (hsuited : job.Suited F) :
    (∀ outcome, ((job.prog o fuel).run (F.aloneWith (T := XattrSig) k) (none, ())).1 =
      .ok outcome → job.Right o fuel F k outcome) ∧
    ∀ why, ((job.prog o fuel).run (F.aloneWith (T := XattrSig) k) (none, ())).1 = .error why →
      ∃ req, job = .request req ∧ aloneReply o fuel F k req = .error why := by
  cases job with
  | cat sizes fuel ino =>
    obtain ⟨hsizes, content, hholds, hfuel⟩ := hsuited
    have hrun : ((cat sizes fuel ino).inl.run (F.aloneWith (T := XattrSig) k) (none, ())) =
        (.ok (some content), none, ()) := by
      refine (run_inl F.alone (Tree.always (T := XattrSig) k) _ none ()).trans ?_
      rw [run_cat hholds hsizes hfuel]
    rw [Job.prog, run_bind_ret, hrun]
    refine ⟨?_, by rintro _ ⟨⟩⟩
    rintro _ ⟨⟩
    exact ⟨content, hholds, rfl⟩
  | request req =>
    rw [Job.prog, run_bind_ret]
    have hreply : aloneReply o fuel F k req =
        ((serve o fuel req).run (F.aloneWith (T := XattrSig) k) (none, ())).1 := rfl
    rw [← hreply]
    rcases halone : aloneReply o fuel F k req with why | reply
    · refine ⟨by rintro _ ⟨⟩, ?_⟩
      rintro _ ⟨⟩
      exact ⟨req, rfl, halone⟩
    · refine ⟨?_, by rintro _ ⟨⟩⟩
      rintro _ ⟨⟩
      exact halone

/-- Reading through FUSE, from a filesystem whose content does not change and whose handles
are distinct while they are open. Any number of processes read files, each asking for any
positive amounts, while other requests are served, all interleaved at every trait call. A
process that is done has its file, whole and unmixed, and no process ever fails; a request is
answered as if it were alone, and halts only if it does so alone; and once all are done no file
is open. -/
theorem processes_read_their_files {jobs : List Job} {w : World FuseSig Outcome}
    (hsuited : ∀ job ∈ jobs, job.Suited F)
    (h : RunOf (F.Answers fun c r => r = k c) (jobs.map (Job.prog o fuel)) w) :
    (∀ (i : Nat) (job : Job), jobs[i]? = some job →
      (∀ outcome, w.jobs[i]? = some (.ret outcome) → job.Right o fuel F k outcome) ∧
      ∀ why, w.jobs[i]? = some (.halt why) →
        ∃ req, job = .request req ∧ aloneReply o fuel F k req = .error why) ∧
    ((∀ p ∈ w.jobs, ∃ outcome, p = .ret outcome) →
      table (Tree.act XattrSig) w.log = .empty) := by
  have hsettled : ∀ p ∈ jobs.map (Job.prog o fuel),
      Tree.Settled (T := XattrSig) (fun c r => r = k c) k p := by
    intro p hp
    obtain ⟨job, hjob, rfl⟩ := List.mem_map.mp hp
    exact settled_of_suited (hsuited job hjob)
  obtain ⟨halone, hdrained⟩ := Tree.as_alone hsettled h
  refine ⟨fun i job hjob => ?_, hdrained⟩
  obtain ⟨hret, hhalt⟩ := halone i _ (getElem?_map_of_eq hjob)
  have hjob_suited : job.Suited F := hsuited job (List.mem_of_getElem? hjob)
  refine ⟨fun outcome hi => ?_, fun why hi => ?_⟩
  · exact (run_of_suited hjob_suited).1 outcome (congrArg Prod.fst (hret outcome hi).1)
  · exact (run_of_suited hjob_suited).2 why (hhalt why hi)

end Mount

/-! ## The example -/

/-- The trait's defaults. -/
def noXattrs : (c : XattrCall) → c.Answer
  | .forget _ _ => ()
  | .listxattr _ => .ok []
  | .getxattr _ _ => .error .noXattr

/-- The example behind the adapter. -/
def memMount : Handler FuseSig (MemFs.State × Unit) :=
  (MemFs.new 0 0).handler.sum (T := XattrSig) fun c u => (noXattrs c, u)

/-- Two processes and a listing. -/
def threeJobs : List Job :=
  [.cat (fun _ => 5) 30 ⟨2⟩, .cat (fun _ => 3) 30 ⟨5⟩, .request (.readdir ⟨1⟩ 0 fun _ _ => true)]

/-- In turns. -/
def inTurns : World FuseSig Outcome :=
  [0, 1, 2, 1, 0, 2, 0, 1, 2, 0, 1, 0, 1, 0, 1, 0, 1, 0, 1, 2, 0, 1, 0, 1].foldl
    (World.turn memMount (.new, ())) ⟨threeJobs.map (Job.prog .wraps 4), []⟩

theorem suited_threeJobs : ∀ job ∈ threeJobs, job.Suited (MemFs.new 0 0).tree := by
  intro job hjob
  simp only [threeJobs, List.mem_cons, List.not_mem_nil, or_false] at hjob
  obtain rfl | rfl | rfl := hjob
  · exact ⟨fun _ => show (5 : UInt32) ≠ 0 by decide, _, MemFs.holds_tree rfl (by decide),
      by decide⟩
  · exact ⟨fun _ => show (3 : UInt32) ≠ 0 by decide, _, MemFs.holds_tree rfl (by decide),
      by decide⟩
  · trivial

theorem opens_inTurns : MemFs.opens inTurns.log + 2 < 2 ^ 64 := by decide +kernel

/-- All three are done. -/
theorem processes_read_their_files_three_jobs :
    inTurns.jobs.length = 3 ∧ ∀ (i : Nat) (job : Job), threeJobs[i]? = some job → ∃ outcome,
      inTurns.jobs[i]? = some (.ret outcome) ∧
        job.Right .wraps 4 (MemFs.new 0 0).tree noXattrs outcome := by
  have htree := (MemFs.runOf_tree (m := .new 0 0) (T := XattrSig) (R := fun c r => r = noXattrs c)
    (fun _ _ => rfl) (RunOf.turns _ _ _ _) (w := inTurns) opens_inTurns).1
  have hright := (processes_read_their_files suited_threeJobs htree).1
  have hreturned : inTurns.jobs.all (fun p => (returned p).isSome) = true := by decide +kernel
  refine ⟨by decide +kernel, fun i job hjob => ?_⟩
  obtain ⟨p, hp⟩ := exists_getElem?_of_length_eq htree.length_eq.symm (getElem?_map_of_eq hjob)
  obtain ⟨outcome, rfl⟩ := ret_of_all_returned hreturned p (List.mem_of_getElem? hp)
  exact ⟨outcome, hp, (hright i job hjob).1 outcome hp⟩

end Anymount.Fuse
