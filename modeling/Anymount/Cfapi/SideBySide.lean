import Anymount.Cfapi.Hydration
import Anymount.Tree

/-!
# Data fetches side by side

The platform asks for data from its own threads, for any number of files at a time. Each fetch
opens its file, reads and transfers chunk by chunk, and gives the handle back, interleaved with
the others at every call. What is transferred to a file is nevertheless what its own fetch
transfers alone.
-/
namespace Anymount.Cfapi

open Library Library.Prog Library.Interleave Library.Ownership

/-! ## Fetching with whatever handle -/

section Alike

variable {R : Contract TransferSig} {k : TransferSig.Call → Bool} {α : Type}
  {Q : Option (FileHandle × FileHandle) → α → α → Prop} {m : Option (FileHandle × FileHandle)}

/-- What the platform says to a transfer is not looked at. -/
theorem alike_transferData (data : Bytes) (offset length : Int64) (status : NtStatus)
    {p q : FetchProg α} (h : Tree.Alike R k Q m p q) :
    Tree.Alike R k Q m (transferData data offset length status >>= fun _ => p)
      (transferData data offset length status >>= fun _ => q) :=
  .other fun _ _ => h

/-- Arithmetic makes no calls. -/
theorem alike_checkedI64 {o : Overflow} {exact : Int} {wrapped : Int64} {f g : Int64 → FetchProg α}
    (h : ∀ n, Tree.Alike R k Q m (f n) (g n)) :
    Tree.Alike R k Q m (checkedI64 o exact wrapped >>= f) (checkedI64 o exact wrapped >>= g) := by
  unfold checkedI64
  split
  · exact h _
  · cases o
    · exact .halt .panic
    · exact h _

theorem alike_useAnswer {here left : Int64} {want len : Nat} {answer : ReadAnswer len}
    {next next' : Nat → FetchProg (FsResult Unit)}
    (hnext : ∀ n, Tree.Alike R k (Tree.Same m) m (next n) (next' n)) :
    Tree.Alike R k (Tree.Same m) m (useAnswer here left want answer next)
      (useAnswer here left want answer next') := by
  unfold useAnswer
  rcases answer.result with e | _ | n
  · exact alike_transferData _ _ _ _ (.ret ⟨rfl, rfl⟩)
  · exact alike_transferData _ _ _ _ (.ret ⟨rfl, rfl⟩)
  · exact alike_transferData _ _ _ _ (hnext _)

theorem alike_streamLoop (o : Overflow) (fh fh' : FileHandle) (offset length : Int64) (fuel : Nat)
    (sent : Int64) (buf : Bytes) :
    Tree.Alike R k (Tree.Same (some (fh, fh'))) (some (fh, fh'))
      (streamLoop o fh offset length fuel sent buf)
      (streamLoop o fh' offset length fuel sent buf) := by
  induction fuel generalizing sent buf with
  | zero => exact .halt .fuel
  | succ fuel ih =>
    rw [streamLoop, streamLoop]
    split
    · refine alike_checkedI64 fun left => alike_checkedI64 fun here => .readAt fun answer => ?_
      dsimp only [Prog.inl, Prog.bind]
      exact alike_useAnswer fun n => alike_checkedI64 fun sent => ih sent _
    · exact .ret ⟨rfl, rfl⟩

theorem alike_streamChunks (o : Overflow) (w : PointerWidth) (fuel : Nat) (fh fh' : FileHandle)
    (offset length : Int64) :
    Tree.Alike R k (Tree.Same (some (fh, fh'))) (some (fh, fh'))
      (streamChunks o w fuel fh offset length) (streamChunks o w fuel fh' offset length) := by
  unfold streamChunks
  split
  · exact alike_transferData _ _ _ _ (.ret ⟨rfl, rfl⟩)
  · exact alike_streamLoop o fh fh' offset length fuel 0 _

theorem settled_streamFetch (o : Overflow) (w : PointerWidth) (fuel : Nat) (ino : Ino)
    (offset length : Int64) : Tree.Settled R k (streamFetch o w fuel ino offset length) := by
  refine .openFile (fun e => .ret ⟨rfl, rfl⟩) fun fh fh' => ?_
  show Tree.Alike R k _ _ (streamOpened o w fuel offset length (.ok fh))
    (streamOpened o w fuel offset length (.ok fh'))
  refine .bind (alike_streamChunks o w fuel fh fh' offset length) ?_
  rintro m a _ ⟨rfl, rfl⟩
  exact .release fun _ _ => .ret ⟨rfl, rfl⟩

theorem settled_handleFetchData (o : Overflow) (w : PointerWidth) (fuel : Nat)
    (identity : Option Bytes) (offset length : Int64) :
    Tree.Settled R k (handleFetchData o w fuel identity offset length) := by
  unfold handleFetchData
  split
  · exact alike_transferData _ _ _ _ (.ret ⟨rfl, rfl⟩)
  · exact Tree.Settled.bind (settled_streamFetch o w fuel _ offset length) fun _ =>
      Tree.Settled.ret ()

end Alike

/-! ## Fetching alone -/

/-- What the platform asks for. -/
structure Fetch where
  identity : Option Bytes
  offset : Int64
  length : Int64
  deriving DecidableEq

namespace Fetch

/-- Handling the request where `usize` has 64 bits, with the request kept. -/
def prog (o : Overflow) (fuel : Nat) (f : Fetch) : FetchProg Fetch :=
  handleFetchData o .w64 fuel f.identity f.offset f.length >>= fun _ => .ret f

/-- The range is one of a file, and the loop has enough passes for it. -/
structure InRange (fuel : Nat) (f : Fetch) : Prop where
  offset_nonneg : 0 ≤ f.offset.toInt
  length_nonneg : 0 ≤ f.length.toInt
  stop_lt : f.offset.toInt + f.length.toInt < 2 ^ 63
  passes : f.length.toInt.toNat < fuel

/-- The file can be opened, or the identity is no file's and there is a range to fail. -/
def Answerable (F : Tree) (f : Fetch) : Prop :=
  (∃ ino, decodeIno f.identity = some ino ∧ F.openable ino = none) ∨
    decodeIno f.identity = none ∧ 0 < f.length.toInt

/-- The request is for a part of the file that starts at a page. -/
structure For (F : Tree) (content : Bytes) (f : Fetch) : Prop where
  file : ∃ ino, decodeIno f.identity = some ino ∧ F.Holds ino content
  size_lt : content.length < 2 ^ 63
  aligned : f.offset.toInt % 4096 = 0
  some_data : 0 < f.length.toInt
  inside : f.offset.toInt + f.length.toInt ≤ content.length

end Fetch

section Alone

variable {o : Overflow} {F : Tree} {ino : Ino} {content : Bytes} {fuel : Nat} {f : Fetch}

/-- The tree, with a platform that accepts every transfer. -/
abbrev alonePlatform (F : Tree) : Handler FetchSig (Option Ino × Unit) :=
  F.aloneWith (T := TransferSig) fun _ => true

/-- The transfers of a fetch that runs alone. -/
def Fetch.transfers (o : Overflow) (fuel : Nat) (F : Tree) (f : Fetch) : List Transfer :=
  issued (alonePlatform F) (handleFetchData o .w64 fuel f.identity f.offset f.length) (none, ())

theorem openFile_alone (h : F.Holds ino content) (fh : FileHandle) :
    OpenFile F.alone content fh fun s => s = some ino where
  read := by
    rintro _ rfl position buf
    refine ⟨h.result position buf, ?_⟩
    have htake : (content.drop position.toNat).take
        (min buf.length (content.length - position.toNat)) =
          (content.drop position.toNat).take buf.length := by
      rw [← List.length_drop, ← List.take_eq_take_min]
    exact (h.data position buf).trans htake.symm
  keep := by
    rintro _ rfl _ _
    rfl

theorem streamChunks_completes {σ : Type} {env : Handler FetchSig σ} (hf : f.InRange fuel)
    (fh : FileHandle) (s : σ) :
    (∃ result, ((streamChunks o .w64 fuel fh f.offset f.length).run env s).1 = .ok result) ∧
      Completes f.offset f.length
        (issued env (streamChunks o .w64 fuel fh f.offset f.length) s) := by
  have hzero : (0 : Int64).toInt = 0 := rfl
  by_cases hpos : 0 < f.length.toInt
  · rw [streamChunks_of_pos o .w64 fuel fh f.offset hpos]
    have hbuf := fitsChunk_bufferLen hpos
    have hpasses := hf.passes
    have hdelivers : Delivers env
        (streamLoop o fh f.offset f.length fuel 0 (List.replicate (bufferLen .w64 f.length) 0))
        (f.offset.toInt + (0 : Int64).toInt) (f.offset.toInt + f.length.toInt) s :=
      streamLoop_delivers o hf.offset_nonneg hf.stop_lt fh fuel hzero.ge hf.length_nonneg
        (by omega) (by rw [List.length_replicate]; exact hbuf.1)
        (by rw [List.length_replicate]; exact hbuf.2.1) s
    rw [hzero, add_zero] at hdelivers
    exact ⟨hdelivers.1, hdelivers.2, fun hnone => absurd hnone hpos.ne'⟩
  · have hle : f.length ≤ 0 := Int64.le_iff_toInt_le.mpr (not_lt.mp hpos)
    have hnone : f.length.toInt = 0 := le_antisymm (not_lt.mp hpos) hf.length_nonneg
    rw [streamChunks, if_pos hle]
    refine ⟨⟨_, rfl⟩, ?_, fun _ => ⟨_, rfl, rfl, rfl⟩⟩
    rw [hnone]
    exact .sent rfl rfl rfl (.done _)

/-- A file that can be opened. -/
theorem alone_openFile (h : F.openable ino = none) :
    F.alone (.openFile ino) none = (.ok ⟨0⟩, some ino) := by
  simp only [Tree.alone, h]

/-- The handling always comes to an end. -/
theorem run_prog (hf : f.InRange fuel) :
    ((f.prog o fuel).run (alonePlatform F) (none, ())).1 = .ok f := by
  have hreturns : ∃ a, ((handleFetchData o .w64 fuel f.identity f.offset f.length).run
      (alonePlatform F) (none, ())).1 = .ok a := by
    rcases hidentity : decodeIno f.identity with _ | ino
    · refine ⟨(), ?_⟩
      simp only [handleFetchData, hidentity]
      rfl
    · rw [(handleFetchData_of_ino o .w64 hidentity fuel none ()).1]
      rcases hopen : F.openable ino with _ | e
      · rw [alone_openFile hopen, streamOpened, Prog.bind_assoc,
          returns_bind_iff fun _ _ => ⟨_, rfl⟩]
        exact (streamChunks_completes hf ⟨0⟩ _).1
      · have hanswer : F.alone (.openFile ino) none = (.error e, none) := by
          simp only [Tree.alone, hopen]
        rw [hanswer]
        exact ⟨(), rfl⟩
  obtain ⟨a, ha⟩ := hreturns
  rw [Fetch.prog, run_bind_ret, ha]
  rfl

theorem transfers_complete (hf : f.InRange fuel) (h : f.Answerable F) :
    Completes f.offset f.length (f.transfers o fuel F) := by
  unfold Fetch.transfers
  rcases h with ⟨ino, hidentity, hopen⟩ | ⟨hidentity, hpos⟩
  · rw [(handleFetchData_of_ino o .w64 hidentity fuel none ()).2, alone_openFile hopen,
      streamOpened, Prog.bind_assoc, issued_bind_quiet _ fun _ _ => rfl]
    exact (streamChunks_completes hf ⟨0⟩ _).2
  · have hissued : issued (alonePlatform F) (handleFetchData o .w64 fuel f.identity f.offset
        f.length) (none, ()) = [⟨[], f.offset, f.length, FsError.invalidArgument.toNtstatus⟩] := by
      simp only [handleFetchData, hidentity]
      rfl
    rw [hissued]
    exact ⟨.failed rfl (by simp) (FsError.toNtstatus_ne_success _),
      fun hnone => absurd hnone hpos.ne'⟩

theorem transfers_hydrate (hf : f.InRange fuel) (h : f.For F content) :
    Hydrated content f.offset.toInt f.length.toInt (f.transfers o fuel F) := by
  obtain ⟨ino, hidentity, hholds⟩ := h.file
  unfold Fetch.transfers
  rw [(handleFetchData_of_ino o .w64 hidentity fuel none ()).2, alone_openFile hholds.opens,
    streamOpened, Prog.bind_assoc, issued_bind_quiet _ fun _ _ => rfl]
  exact (streamChunks_streams o (openFile_alone hholds ⟨0⟩) hf.offset_nonneg h.some_data h.inside
    h.size_lt h.aligned hf.passes rfl).2.hydrated

end Alone

/-! ## All of them at once -/

section SideBySide

variable {o : Overflow} {F : Tree} {fuel : Nat}

/-- Any requests may be being handled. -/
def Fetches (o : Overflow) (fuel : Nat) (p : FetchProg Fetch) : Prop :=
  ∃ f : Fetch, f.InRange fuel ∧ p = f.prog o fuel

/-- What the handling of one request has transferred. -/
def transferred (i : Nat) (log : List (Event FetchSig)) : List Transfer :=
  (made i log).filterMap asTransfer

/-- A fetch that returned transferred what it transfers alone. -/
theorem transferred_of_didAlone {cs : List FetchSig.Call} {f : Fetch}
    (h : F.DidAlone (fun _ => true) (Fetches o fuel) cs f) :
    f.InRange fuel ∧ cs.filterMap asTransfer = f.transfers o fuel F := by
  obtain ⟨_, ⟨g, hg, rfl⟩, hrun, hcalls⟩ := h
  have hreturned := (run_prog (o := o) (F := F) hg).symm.trans (congrArg Prod.fst hrun)
  cases hreturned
  refine ⟨hg, ?_⟩
  have hothers : ∀ cs : List FetchSig.Call, cs.filterMap asTransfer = Tree.others cs := by
    intro cs
    refine congrArg (fun g => cs.filterMap g) ?_
    funext c
    rcases c with c | c
    · rfl
    · rfl
  rw [hothers, hcalls, ← hothers]
  exact issued_bind_quiet _ (fun _ _ => rfl) _ _

/-- Fetches side by side, where `usize` has 64 bits. Whatever requests for ranges that end below
`2 ^ 63` are handled at the same time, interleaved at every call, over a filesystem whose content
does not change: a handled request got its own range completed once, by its own transfers; if it
asked for a part of a file, that part is what it got, in order, whatever the other files hold. No
handling fails or hangs, and when all are done no file is open. -/
theorem fetches_side_by_side {w : World FetchSig Fetch}
    (h : Reachable (Fetches o fuel) (F.Answers (anyAnswer TransferSig)) w) :
    (∀ i f, w.jobs[i]? = some (.ret f) →
      (f.Answerable F → Completes f.offset f.length (transferred i w.log)) ∧
      ∀ content, f.For F content →
        Hydrated content f.offset.toInt f.length.toInt (transferred i w.log)) ∧
    (∀ why, .halt why ∉ w.jobs) ∧
    ((∀ p ∈ w.jobs, ∃ f, p = .ret f) → table (Tree.act TransferSig) w.log = .empty) := by
  have hsettled : ∀ p, Fetches o fuel p →
      Tree.Settled (anyAnswer TransferSig) (fun _ => true) p := by
    rintro _ ⟨f, -, rfl⟩
    exact Tree.Settled.bind (settled_handleFetchData o .w64 fuel _ _ _) fun _ => Tree.Settled.ret f
  obtain ⟨hret, hhalt, hdrained⟩ := Tree.reachable_as_alone hsettled h
  refine ⟨fun i f hi => ?_, fun why hmem => ?_, hdrained⟩
  · obtain ⟨hrange, htransfers⟩ := transferred_of_didAlone (hret i f hi)
    rw [transferred, htransfers]
    exact ⟨transfers_complete hrange, fun content => transfers_hydrate hrange⟩
  · obtain ⟨_, ⟨f, hf, rfl⟩, hrun⟩ := hhalt why hmem
    rw [run_prog hf] at hrun
    cases hrun

end SideBySide

/-! ## Two files of the example -/

/-- `hello.txt` and `nested.txt`, from the beginning to the end. -/
def hello : Fetch := ⟨some [2, 0, 0, 0, 0, 0, 0, 0], 0, 21⟩
def nested : Fetch := ⟨some [5, 0, 0, 0, 0, 0, 0, 0], 0, 13⟩

/-- The example and a platform that accepts every transfer. -/
def platform : Handler FetchSig (MemFs.State × Unit) :=
  (MemFs.new 0 0).handler.sum (Tree.always (T := TransferSig) fun _ => true)

/-- Both fetched in turns. -/
def both : World FetchSig Fetch :=
  [0, 1, 1, 0, 0, 1, 0, 1].foldl (World.turn platform (.new, ()))
    ⟨[hello.prog .wraps 22, nested.prog .wraps 22], []⟩

theorem reachable_both :
    Reachable (Fetches .wraps 22) (Played platform (.new, ())) both := by
  refine (RunOf.turns _ _ _ _).reachable fun p hp => ?_
  simp only [List.mem_cons, List.not_mem_nil, or_false] at hp
  obtain rfl | rfl := hp
  · exact ⟨hello, ⟨by decide, by decide, by decide, by decide⟩, rfl⟩
  · exact ⟨nested, ⟨by decide, by decide, by decide, by decide⟩, rfl⟩

theorem opens_both : MemFs.opens both.log + 2 < 2 ^ 64 := by decide +kernel

theorem fetches_side_by_side_both :
    Hydrated (MemFs.text "Hello from anymount!\n") 0 21 (transferred 0 both.log) ∧
      Hydrated (MemFs.text "I am nested.\n") 0 13 (transferred 1 both.log) := by
  have htree := (MemFs.reachable_tree (m := .new 0 0) (T := TransferSig) (R := anyAnswer _)
    (fun _ _ => trivial) reachable_both opens_both).1
  have hdone := (fetches_side_by_side htree).1
  have hhello : both.jobs[0]?.bind returned = some hello := by decide +kernel
  have hnested : both.jobs[1]?.bind returned = some nested := by decide +kernel
  refine ⟨(hdone 0 hello (getElem?_of_returned hhello)).2 _ ?_,
    (hdone 1 nested (getElem?_of_returned hnested)).2 _ ?_⟩
  · exact ⟨⟨⟨2⟩, by decide, MemFs.holds_tree rfl (by decide)⟩, by decide, by decide, by decide,
      by decide⟩
  · exact ⟨⟨⟨5⟩, by decide, MemFs.holds_tree rfl (by decide)⟩, by decide, by decide, by decide,
      by decide⟩

end Anymount.Cfapi
