import Anymount.Cfapi
import Anymount.Library.Interleave
import Anymount.MemFs
import Anymount.Nfs.NfsProto

/-!
# Open handles under concurrency

`READ3` calls and data fetches open a file, read from it and release it. They run side by
side in any number, interleaved at every trait call, and the filesystem may answer anything,
except that a handle it hands out is one it has not handed out before.
-/
namespace Anymount.Handles

open Library Library.Prog Library.Interleave Cfapi

/-! ## Calls in progress -/

/-- A call that opens a file. -/
inductive Job where
  | read (args : Nfs.Reader) (ctx : Nfs.NfsProto.Ctx)
  | fetch (o : Overflow) (w : PointerWidth) (fuel : Nat) (ino : Ino) (offset length : Int64)

def Job.prog : Job → FetchProg Unit
  | read args ctx => (Nfs.NfsProto.read args ctx).inl >>= fun _ => pure ()
  | fetch o w fuel ino offset length => streamFetch o w fuel ino offset length >>= fun _ => pure ()

/-- The platform asks for ranges whose end is a file offset. A build that wraps on overflow
does not depend on it. -/
def Job.InRange : Job → Prop
  | read _ _ => True
  | fetch o _ _ _ offset length => o = .wraps ∨ offset.toInt + length.toInt < 2 ^ 63

/-- The calls that may be running. -/
def Starts (p : FetchProg Unit) : Prop := ∃ job : Job, job.InRange ∧ p = job.prog

/-! ## What happens to handles -/

/-- What a call and its answer mean for open handles. A release counts whatever it answers. -/
inductive Act where
  | opened (fh : FileHandle)
  | failed
  | read (fh : FileHandle)
  | released (fh : FileHandle)
  | other
  deriving DecidableEq, Repr

def actOf : (c : FetchSig.Call) → FetchSig.Answer c → Act
  | .inl (.openFile _), r =>
    match (r : FsResult FileHandle) with
    | .ok fh => .opened fh
    | .error _ => .failed
  | .inl (.readAt fh _ _), _ => .read fh
  | .inl (.release fh), _ => .released fh
  | _, _ => .other

def act (e : Event FetchSig) : Act := actOf e.call e.answer

/-- The handles that were handed out, in order. -/
def openedIn (log : List (Event FetchSig)) : List FileHandle :=
  log.filterMap fun e =>
    match act e with
    | .opened fh => some fh
    | _ => none

/-- The handles that were released, in order. -/
def releasedIn (log : List (Event FetchSig)) : List FileHandle :=
  log.filterMap fun e =>
    match act e with
    | .released fh => some fh
    | _ => none

/-- The handles that are open. -/
def live (log : List (Event FetchSig)) : List FileHandle :=
  (openedIn log).filter fun fh => fh ∉ releasedIn log

/-- `open` returns a handle distinct from all handles returned before. Nothing else is
restricted. -/
def Fresh (log : List (Event FetchSig)) (c : FetchSig.Call) (r : FetchSig.Answer c) : Prop :=
  ∀ fh, actOf c r = .opened fh → fh ∉ openedIn log

/-! ## One call -/

/-- Where a call stands with the handle it opens. -/
inductive Phase where
  | unopened
  | failed
  | holding (fh : FileHandle)
  | closed (fh : FileHandle)
  deriving DecidableEq, Repr

/-- A call opens at most once, reads only from the handle it holds, and releases it. -/
def Phase.after : Phase → Act → Option Phase
  | φ, .other => some φ
  | .unopened, .opened fh => some (.holding fh)
  | .unopened, .failed => some .failed
  | .holding fh, .read fh' => if fh = fh' then some (.holding fh) else none
  | .holding fh, .released fh' => if fh = fh' then some (.closed fh) else none
  | _, _ => none

/-- Everything that can happen to the phase of a call. -/
theorem Phase.after_cases {φ φ' : Phase} {a : Act} (h : φ.after a = some φ') :
    (a = .other ∧ φ' = φ) ∨ (∃ fh, a = .opened fh ∧ φ = .unopened ∧ φ' = .holding fh) ∨
    (a = .failed ∧ φ = .unopened ∧ φ' = .failed) ∨
    (∃ fh, a = .read fh ∧ φ = .holding fh ∧ φ' = .holding fh) ∨
    ∃ fh, a = .released fh ∧ φ = .holding fh ∧ φ' = .closed fh := by
  unfold Phase.after at h
  split at h
  · exact .inl ⟨rfl, (Option.some.inj h).symm⟩
  · exact .inr (.inl ⟨_, rfl, rfl, (Option.some.inj h).symm⟩)
  · exact .inr (.inr (.inl ⟨rfl, rfl, (Option.some.inj h).symm⟩))
  · split at h
    · next fh fh' heq =>
      subst heq
      exact .inr (.inr (.inr (.inl ⟨fh, rfl, rfl, (Option.some.inj h).symm⟩)))
    · cases h
  · split at h
    · next fh fh' heq =>
      subst heq
      exact .inr (.inr (.inr (.inr ⟨fh, rfl, rfl, (Option.some.inj h).symm⟩)))
    · cases h
  · cases h

def watch : Monitor FetchSig Phase := fun φ c r => φ.after (actOf c r)

/-- Nothing is held. -/
def Phase.LetGo : Phase → Prop
  | holding _ => False
  | _ => True

section Call

variable {Q : Phase → Unit → Prop} {φ : Phase}

/-- A call may loop, and then it stays in progress; it does not panic. -/
abbrev Watched {α : Type} (Q : Phase → α → Prop) (φ : Phase) (p : FetchProg α) : Prop :=
  Obeys watch (· = .fuel) Q φ p

theorem watched_bind {α β : Type} {Q : Phase → β → Prop} (p : FetchProg α) (f : α → FetchProg β) :
    Watched Q φ (p >>= f) ↔ Watched (fun φ a => Watched Q φ (f a)) φ p := obeys_bind p f

theorem watched_getattr {Q : Phase → FsResult FileAttr → Prop} (ino : Ino) (h : ∀ r, Q φ r) :
    Watched Q φ (FsProg.getattr ino).inl := fun r => ⟨φ, rfl, h r⟩

theorem watched_open {Q : Phase → FsResult FileHandle → Prop} (ino : Ino)
    (hok : ∀ fh, Q (.holding fh) (.ok fh)) (herror : ∀ e, Q .failed (.error e)) :
    Watched Q .unopened (FsProg.openFile ino).inl := by
  intro r
  rcases (r : FsResult FileHandle) with e | fh
  · exact ⟨.failed, rfl, herror e⟩
  · exact ⟨.holding fh, rfl, hok fh⟩

theorem watched_readAt {fh : FileHandle} {offset : UInt64} {buf : Bytes}
    {Q : Phase → ReadAnswer buf.length → Prop} (h : ∀ r, Q (.holding fh) r) :
    Watched Q (.holding fh) (FsProg.readAt fh offset buf).inl :=
  fun r => ⟨.holding fh, if_pos rfl, h r⟩

theorem watched_release {fh : FileHandle} {Q : Phase → FsResult Unit → Prop}
    (h : ∀ r, Q (.closed fh) r) : Watched Q (.holding fh) (FsProg.release fh).inl :=
  fun r => ⟨.closed fh, if_pos rfl, h r⟩

theorem watched_transferData (data : Bytes) (offset length : Int64) (status : NtStatus)
    (h : Q φ ()) : Watched Q φ (transferData data offset length status) :=
  fun _ => ⟨φ, rfl, h⟩

open Nfs.NfsProto in
theorem watched_failReply (ctx : Ctx) (ino : Ino) (status : UInt32) (hφ : φ.LetGo) :
    Watched (fun φ _ => φ.LetGo) φ (failReply ctx ino status).inl := by
  rw [failReply, writePostOpAttrBestEffort, inl_bind, watched_bind, inl_bind, watched_bind]
  refine watched_getattr ino fun r => ?_
  cases r <;> exact hφ

open Nfs.NfsProto in
/-- `READ3` lets go of what it opened. -/
theorem watched_read (r : Nfs.Reader) (ctx : Ctx) :
    Watched (fun φ _ => φ.LetGo) .unopened (Nfs.NfsProto.read r ctx).inl := by
  unfold Nfs.NfsProto.read
  rcases r.readOpaqueVar 64 with _ | ⟨fh, r⟩
  · trivial
  dsimp only
  rcases r.readU64 with _ | ⟨offset, r⟩
  · trivial
  dsimp only
  rcases r.readU32 with _ | ⟨count, r⟩
  · trivial
  dsimp only
  rcases ctx.handle.resolve fh with _ | ino
  · trivial
  dsimp only
  rw [inl_bind, watched_bind]
  refine watched_open ino (fun fh => ?_) fun e => watched_failReply ctx ino _ trivial
  dsimp only
  rw [readOpened, inl_bind, watched_bind]
  refine watched_readAt fun answer => ?_
  obtain ⟨result, buf, hbuf⟩ := answer
  rcases result with e | n
  · simp only [releaseLogging, inl_bind, watched_bind]
    exact watched_release fun _ => watched_failReply ctx ino _ trivial
  · simp only [releaseLogging, inl_bind, watched_bind]
    exact watched_release fun _ => watched_getattr ino fun _ => trivial

section Fetch

variable {o : Overflow} {offset length : Int64}

theorem addI64_in_file (hrange : o = .wraps ∨ offset.toInt + length.toInt < 2 ^ 63) {sent : Int64}
    (hsent : 0 ≤ sent.toInt) (hlt : sent.toInt < length.toInt) :
    (addI64 o offset sent : FetchProg Int64) = ret (offset + sent) := by
  rcases hrange with rfl | hrange
  · unfold addI64 checkedI64
    split <;> rfl
  · have := offset.le_toInt
    exact addI64_of_inI64 o ⟨by omega, by omega⟩

theorem watched_useAnswer {fh : FileHandle} (here left : Int64) {want len : Nat}
    (answer : ReadAnswer len) {next : Nat → FetchProg (FsResult Unit)}
    (hnext : ∀ n, n ≤ want → Watched (fun φ _ => φ = .holding fh) (.holding fh) (next n)) :
    Watched (fun φ _ => φ = .holding fh) (.holding fh) (useAnswer here left want answer next) := by
  unfold useAnswer
  split
  · rw [watched_bind]
    exact watched_transferData _ _ _ _ rfl
  · rw [watched_bind]
    exact watched_transferData _ _ _ _ (hnext _ (min_le_right _ _))
  · rw [watched_bind]
    exact watched_transferData _ _ _ _ rfl

/-- The loop only reads from the handle it was given. -/
theorem watched_streamLoop (hrange : o = .wraps ∨ offset.toInt + length.toInt < 2 ^ 63)
    (fh : FileHandle) (fuel : Nat) {sent : Int64} (hsent : 0 ≤ sent.toInt)
    (hle : sent.toInt ≤ length.toInt) (buf : Bytes) :
    Watched (fun φ _ => φ = .holding fh) (.holding fh)
      (streamLoop o fh offset length fuel sent buf) := by
  induction fuel generalizing sent buf with
  | zero => exact rfl
  | succ fuel ih =>
    rw [streamLoop]
    split
    · next hlt =>
      rw [Int64.lt_iff_toInt_lt] at hlt
      have hmax := length.toInt_lt
      have hleft : InI64 (length.toInt - sent.toInt) := ⟨by omega, by omega⟩
      have hwant : (length - sent).toUInt64.toNat = (length.toInt - sent.toInt).toNat := by
        rw [toNat_toUInt64_of_nonneg (by rw [toInt_sub_of_inI64 hleft]; omega),
          toInt_sub_of_inI64 hleft]
      simp only [subI64_of_inI64 o hleft, addI64_in_file hrange hsent hlt, ret_bind]
      rw [watched_bind]
      refine watched_readAt fun answer => watched_useAnswer _ _ answer fun n hn => ?_
      have hn' : (Int64.ofNat n).toInt = n := Int64.toInt_ofNat_of_lt (by omega)
      have hsum : InI64 (sent.toInt + (Int64.ofNat n).toInt) := ⟨by omega, by omega⟩
      have hsum' := toInt_add_of_inI64 hsum
      rw [addI64_of_inI64 o hsum, ret_bind]
      exact ih (by omega) (by omega) _
    · rfl

/-- A fetch lets go of what it opened, however its loop ends. -/
theorem watched_streamFetch (hrange : o = .wraps ∨ offset.toInt + length.toInt < 2 ^ 63)
    (w : PointerWidth) (fuel : Nat) (ino : Ino) :
    Watched (fun φ _ => φ.LetGo) .unopened (streamFetch o w fuel ino offset length) := by
  rw [streamFetch, watched_bind]
  refine watched_open ino (fun fh => ?_) fun e => trivial
  have hchunks : Watched (fun φ _ => φ = .holding fh) (.holding fh)
      (streamChunks o w fuel fh offset length) := by
    unfold streamChunks
    split
    · rw [watched_bind]
      exact watched_transferData _ _ _ _ rfl
    · next hpos =>
      have hzero : (0 : Int64).toInt = 0 := rfl
      rw [Int64.le_iff_toInt_le] at hpos
      exact watched_streamLoop hrange fh fuel hzero.ge (by omega) _
  rw [streamOpened, watched_bind]
  refine obeys_mono hchunks ?_
  rintro φ result rfl
  rw [watched_bind]
  exact watched_release fun _ => trivial

end Fetch

/-- Every call that may be running opens, reads and releases in order. -/
theorem watched_of_starts {p : FetchProg Unit} (h : Starts p) :
    Watched (fun φ _ => φ.LetGo) .unopened p := by
  obtain ⟨job, hrange, rfl⟩ := h
  cases job with
  | read args ctx =>
    rw [Job.prog, watched_bind]
    exact obeys_mono (watched_read args ctx) fun φ _ hφ => hφ
  | fetch o w fuel ino offset length =>
    rw [Job.prog, watched_bind]
    exact obeys_mono (watched_streamFetch hrange w fuel ino) fun φ _ hφ => hφ

end Call

/-! ## One history -/

/-- The handles a call has opened and released when it stands at a phase. -/
def Accounts (es : List (Event FetchSig)) : Phase → Prop
  | .unopened => openedIn es = [] ∧ releasedIn es = [] ∧ ∀ e ∈ es, act e ≠ .failed
  | .failed => openedIn es = [] ∧ releasedIn es = []
  | .holding fh => openedIn es = [fh] ∧ releasedIn es = [] ∧ ∀ e ∈ es, act e ≠ .failed
  | .closed fh => openedIn es = [fh] ∧ releasedIn es = [fh] ∧ ∀ e ∈ es, act e ≠ .failed

theorem openedIn_append (es es' : List (Event FetchSig)) :
    openedIn (es ++ es') = openedIn es ++ openedIn es' := List.filterMap_append ..

theorem releasedIn_append (es es' : List (Event FetchSig)) :
    releasedIn (es ++ es') = releasedIn es ++ releasedIn es' := List.filterMap_append ..

theorem openedIn_singleton (e : Event FetchSig) :
    openedIn [e] = match act e with
      | .opened fh => [fh]
      | _ => [] := by
  rw [openedIn]
  cases h : act e <;> simp [h]

theorem releasedIn_singleton (e : Event FetchSig) :
    releasedIn [e] = match act e with
      | .released fh => [fh]
      | _ => [] := by
  rw [releasedIn]
  cases h : act e <;> simp [h]

theorem mem_openedIn {log : List (Event FetchSig)} {fh : FileHandle} :
    fh ∈ openedIn log ↔ ∃ e ∈ log, act e = .opened fh := by
  rw [openedIn, List.mem_filterMap]
  refine exists_congr fun e => and_congr_right fun _ => ?_
  cases act e <;> simp

theorem mem_releasedIn {log : List (Event FetchSig)} {fh : FileHandle} :
    fh ∈ releasedIn log ↔ ∃ e ∈ log, act e = .released fh := by
  rw [releasedIn, List.mem_filterMap]
  refine exists_congr fun e => and_congr_right fun _ => ?_
  cases act e <;> simp

/-- One more event, seen by the monitor. -/
theorem accounts_snoc {es : List (Event FetchSig)} {e : Event FetchSig} {φ φ' : Phase}
    (h : Accounts es φ) (hstep : watch φ e.call e.answer = some φ') : Accounts (es ++ [e]) φ' := by
  have hopened := openedIn_singleton e
  have hreleased := releasedIn_singleton e
  obtain ⟨hact, rfl⟩ | ⟨fh, hact, rfl, rfl⟩ | ⟨hact, rfl, rfl⟩ | ⟨fh, hact, rfl, rfl⟩ |
    ⟨fh, hact, rfl, rfl⟩ := Phase.after_cases (a := act e) hstep
  · cases φ' <;> grind [Accounts, openedIn_append, releasedIn_append]
  all_goals grind [Accounts, openedIn_append, releasedIn_append]

/-- What a history that the monitor accepts says about handles. -/
theorem accounts_of_run {es : List (Event FetchSig)} {φ : Phase}
    (h : watch.run .unopened es = some φ) : Accounts es φ := by
  induction es using List.reverseRecOn generalizing φ with
  | nil =>
    obtain rfl := Option.some.inj h
    exact ⟨rfl, rfl, nofun⟩
  | append_singleton es e ih =>
    rw [Monitor.run_append] at h
    obtain ⟨ψ, hψ, h⟩ := Option.bind_eq_some_iff.mp h
    obtain ⟨φ', hφ', h⟩ := Option.bind_eq_some_iff.mp h
    obtain rfl := Option.some.inj h
    exact accounts_snoc (ih hψ) hφ'

/-! ## All calls -/

/-- The event reads from a handle or releases it. -/
def Uses (e : Event FetchSig) (fh : FileHandle) : Prop := act e = .read fh ∨ act e = .released fh

/-- Handles are balanced.

* When a handle is read from or released, the same call has opened it before, and it has not
  been released yet.
* A handle is used only by the call that opened it.
* When that call has ended, the handle has been released exactly once.
* A call whose `open` failed releases nothing.
* When no call is in progress, no handle is open. -/
structure Balanced (w : World FetchSig Unit) : Prop where
  held : ∀ before e after fh, w.log = before ++ e :: after → Uses e fh →
    (∃ e' ∈ before, e'.who = e.who ∧ act e' = .opened fh) ∧ ∀ e' ∈ before, act e' ≠ .released fh
  owned : ∀ e ∈ w.log, ∀ e' ∈ w.log, ∀ fh, act e = .opened fh → Uses e' fh → e'.who = e.who
  ended : ∀ e ∈ w.log, ∀ fh, act e = .opened fh → ∀ p, w.jobs[e.who]? = some p →
    ¬ InProgress p → (releasedIn w.log).count fh = 1
  failed : ∀ e ∈ w.log, act e = .failed → ∀ e' ∈ w.log, e'.who = e.who →
    ∀ fh, act e' ≠ .released fh
  quiet : (∀ p ∈ w.jobs, ¬ InProgress p) → live w.log = []

section Balanced

variable {w : World FetchSig Unit}

theorem nodup_openedIn (h : Reachable Starts Fresh w) : (openedIn w.log).Nodup := by
  refine reachable_log (J := fun log => (openedIn log).Nodup) List.nodup_nil ?_ h
  intro log i c r hlog hfresh
  rw [openedIn_append, openedIn_singleton]
  split
  · next fh hact =>
    rw [← List.concat_eq_append]
    exact hlog.concat (hfresh fh hact)
  · rwa [List.append_nil]

/-- A handle is handed out to one call. -/
theorem who_eq_of_opened {log : List (Event FetchSig)} (hlog : (openedIn log).Nodup)
    {e e' : Event FetchSig} (he : e ∈ log) (he' : e' ∈ log) {fh : FileHandle}
    (hopen : act e = .opened fh) (hopen' : act e' = .opened fh) : e.who = e'.who := by
  induction log with
  | nil => cases he
  | cons x log ih =>
    rw [← List.singleton_append, openedIn_append, List.nodup_append] at hlog
    obtain ⟨-, htail, hdisjoint⟩ := hlog
    -- If the first event opened it, no later one did, so both are this one or both are later.
    have hfirst : act x = .opened fh → ∀ e ∈ log, act e ≠ .opened fh := by
      intro hx e he hact
      exact hdisjoint fh (mem_openedIn.mpr ⟨x, by simp, hx⟩) fh
        (mem_openedIn.mpr ⟨e, he, hact⟩) rfl
    grind

/-- The phase each call has reached accounts for its history. -/
theorem exists_phase (h : Reachable Starts Fresh w) {e : Event FetchSig} (he : e ∈ w.log) :
    ∃ p φ, w.jobs[e.who]? = some p ∧ watch.run .unopened (own e.who w.log) = some φ ∧
      Watched (fun φ _ => φ.LetGo) φ p := by
  have hjob := List.getElem?_eq_getElem (who_lt h e he)
  obtain ⟨φ, hrun, hobeys⟩ := reachable_obeys (fun _ => watched_of_starts) h _ _ hjob
  exact ⟨_, φ, hjob, hrun, hobeys⟩

/-- Just before a handle is used, the call holds it. -/
theorem run_of_uses (h : Reachable Starts Fresh w) {before after : List (Event FetchSig)}
    {e : Event FetchSig} {fh : FileHandle} (hlog : w.log = before ++ e :: after)
    (huse : Uses e fh) :
    watch.run .unopened (own e.who before) = some (.holding fh) := by
  obtain ⟨p, φ, -, hrun, -⟩ := exists_phase h (e := e) (by rw [hlog]; simp)
  have hown : own e.who w.log = own e.who before ++ e :: own e.who after := by
    rw [hlog, own_append]
    simp [own]
  rw [hown, Monitor.run_append] at hrun
  obtain ⟨ψ, hψ, hrun⟩ := Option.bind_eq_some_iff.mp hrun
  obtain ⟨ψ', hstep, -⟩ := Option.bind_eq_some_iff.mp hrun
  rw [hψ]
  rcases huse with hact | hact <;>
    obtain ⟨hact', -⟩ | ⟨_, hact', -⟩ | ⟨hact', -⟩ | ⟨_, hact', rfl, -⟩ | ⟨_, hact', rfl, -⟩ :=
      Phase.after_cases (a := act e) hstep <;> rw [hact] at hact' <;> cases hact' <;> rfl

theorem mem_own {i : Nat} {log : List (Event FetchSig)} {e : Event FetchSig} :
    e ∈ own i log ↔ e ∈ log ∧ e.who = i := by
  simp [own]

theorem opened_before (h : Reachable Starts Fresh w) {before after : List (Event FetchSig)}
    {e : Event FetchSig} {fh : FileHandle} (hlog : w.log = before ++ e :: after)
    (huse : Uses e fh) :
    ∃ e' ∈ before, e'.who = e.who ∧ act e' = .opened fh := by
  obtain ⟨hopened, -⟩ := accounts_of_run (run_of_uses h hlog huse)
  obtain ⟨e', he', hact⟩ := mem_openedIn.mp (hopened ▸ List.mem_singleton_self fh)
  obtain ⟨hmem, hwho⟩ := mem_own.mp he'
  exact ⟨e', hmem, hwho, hact⟩

theorem not_released_before (h : Reachable Starts Fresh w) {before after : List (Event FetchSig)}
    {e : Event FetchSig} {fh : FileHandle} (hlog : w.log = before ++ e :: after) (huse : Uses e fh)
    {e' : Event FetchSig} (he' : e' ∈ before) : act e' ≠ .released fh := by
  intro hact
  -- The one that released it had opened it too, so it is the same call, which still holds it.
  obtain ⟨start, stop, rfl⟩ := List.append_of_mem he'
  obtain ⟨a, ha, hawho, hopen⟩ := opened_before h hlog huse
  have hlog' : w.log = start ++ e' :: (stop ++ e :: after) := by simp [hlog]
  obtain ⟨b, hb, hbwho, hopen'⟩ := opened_before h hlog' (.inr hact)
  have hsame : a.who = b.who := who_eq_of_opened (nodup_openedIn h)
    (by rw [hlog]; exact List.mem_append_left _ ha)
    (by rw [hlog']; exact List.mem_append_left _ hb) hopen hopen'
  obtain ⟨-, hreleased, -⟩ := accounts_of_run (run_of_uses h hlog huse)
  have hmem : fh ∈ releasedIn (own e.who (start ++ e' :: stop)) :=
    mem_releasedIn.mpr ⟨e', mem_own.mpr ⟨he', by omega⟩, hact⟩
  rw [hreleased] at hmem
  cases hmem

theorem nodup_releasedIn (h : Reachable Starts Fresh w) : (releasedIn w.log).Nodup := by
  have hfront : ∀ front, front <+: w.log → (releasedIn front).Nodup := by
    intro front hpre
    induction front using List.reverseRecOn with
    | nil => exact List.nodup_nil
    | append_singleton front e ih =>
      obtain ⟨rest, hrest⟩ := hpre
      have hlog : w.log = front ++ e :: rest := by simp [← hrest]
      have hnodup := ih ⟨e :: rest, hlog.symm⟩
      rw [releasedIn_append, releasedIn_singleton]
      split
      · next fh hact =>
        rw [← List.concat_eq_append]
        refine hnodup.concat fun hmem => ?_
        obtain ⟨e', he', hact'⟩ := mem_releasedIn.mp hmem
        exact not_released_before h hlog (.inr hact) he' hact'
      · rwa [List.append_nil]
  exact hfront w.log (List.prefix_refl _)

/-- A call that has ended has released what it opened. -/
theorem released_of_ended (h : Reachable Starts Fresh w) {e : Event FetchSig} (he : e ∈ w.log)
    {fh : FileHandle} (hopen : act e = .opened fh) {p : FetchProg Unit}
    (hjob : w.jobs[e.who]? = some p) (hended : ¬ InProgress p) : fh ∈ releasedIn w.log := by
  obtain ⟨q, φ, hq, hrun, hwatched⟩ := exists_phase h he
  obtain rfl : p = q := Option.some.inj (hjob.symm.trans hq)
  have hmem : fh ∈ openedIn (own e.who w.log) := mem_openedIn.mpr ⟨e, mem_own.mpr ⟨he, rfl⟩, hopen⟩
  have haccounts := accounts_of_run hrun
  have hletgo : φ.LetGo := by
    cases p with
    | ret a => exact hwatched
    | halt why =>
      obtain rfl : why = .fuel := hwatched
      exact absurd trivial hended
    | call c next => exact absurd trivial hended
  cases φ with
  | unopened =>
    rw [haccounts.1] at hmem
    cases hmem
  | failed =>
    rw [haccounts.1] at hmem
    cases hmem
  | holding fh' => exact hletgo.elim
  | closed fh' =>
    obtain ⟨hopened, hreleased, -⟩ := haccounts
    rw [hopened] at hmem
    obtain rfl := List.mem_singleton.mp hmem
    have hrel : fh ∈ releasedIn (own e.who w.log) := by
      rw [hreleased]
      exact List.mem_singleton_self fh
    obtain ⟨e', he', hact⟩ := mem_releasedIn.mp hrel
    exact mem_releasedIn.mpr ⟨e', (mem_own.mp he').1, hact⟩

/-- Open handles are balanced in every interleaving of `READ3` calls and fetches, whatever
`open`, `read_at`, `release` and `getattr` answer. -/
theorem handles_balanced (h : Reachable Starts Fresh w) : Balanced w where
  held _ _ _ _ hlog huse :=
    ⟨opened_before h hlog huse, fun _ he' => not_released_before h hlog huse he'⟩
  owned e he e' he' fh hopen huse := by
    obtain ⟨before, after, hlog⟩ := List.append_of_mem he'
    obtain ⟨a, ha, hwho, hopen'⟩ := opened_before h hlog huse
    rw [← hwho]
    exact who_eq_of_opened (nodup_openedIn h) (by rw [hlog]; exact List.mem_append_left _ ha) he
      hopen' hopen
  ended e he fh hopen p hjob hended :=
    List.count_eq_one_of_mem (nodup_releasedIn h) (released_of_ended h he hopen hjob hended)
  failed e he hfailed e' he' hwho fh hact := by
    obtain ⟨p, φ, -, hrun, -⟩ := exists_phase h he
    have haccounts := accounts_of_run hrun
    have hmem : e ∈ own e.who w.log := mem_own.mpr ⟨he, rfl⟩
    have hreleased : fh ∈ releasedIn (own e.who w.log) :=
      mem_releasedIn.mpr ⟨e', mem_own.mpr ⟨he', hwho⟩, hact⟩
    cases φ with
    | unopened => exact haccounts.2.2 e hmem hfailed
    | failed =>
      rw [haccounts.2] at hreleased
      cases hreleased
    | holding fh' => exact haccounts.2.2 e hmem hfailed
    | closed fh' => exact haccounts.2.2 e hmem hfailed
  quiet hdone := by
    refine List.filter_eq_nil_iff.mpr fun fh hfh => ?_
    obtain ⟨e, he, hopen⟩ := mem_openedIn.mp hfh
    obtain ⟨p, -, hjob, -, -⟩ := exists_phase h he
    have := released_of_ended h he hopen hjob (hdone p (List.mem_of_getElem? hjob))
    simpa using this

end Balanced

/-- Handles that were handed out once each were all fresh. -/
theorem fresh_of_nodup {log before after : List (Event FetchSig)} {e : Event FetchSig}
    (hnodup : (openedIn log).Nodup) (hlog : log = before ++ e :: after) :
    Fresh before e.call e.answer := by
  intro fh hopened hbefore
  have hsingle : openedIn (e :: after) = fh :: openedIn after := by
    have hact : act e = .opened fh := hopened
    simp only [openedIn, List.filterMap_cons, hact]
  have hsplit : openedIn log = openedIn before ++ fh :: openedIn after := by
    rw [hlog, ← hsingle]
    exact List.filterMap_append
  rw [hsplit] at hnodup
  exact (List.nodup_append.mp hnodup).2.2 fh hbefore fh List.mem_cons_self rfl

/-! ## A call of each kind -/

/-- Five bytes of `hello.txt` over the wire, and all of `nested.txt` from Cloud Files. -/
def readAndFetch : List Job :=
  [.read (.new (Xdr.encodeOpaque (Nfs.FileHandle3.encode ⟨List.replicate 16 0, rfl⟩ ⟨2⟩) ++
      beU64 0 ++ beU32 5)) ⟨⟨List.replicate 16 0, rfl⟩, 1⟩,
    .fetch .panics .w64 14 ⟨5⟩ 0 13]

/-- The example and a platform that accepts every transfer. -/
def memFetch : Handler FetchSig (MemFs.State × Unit) :=
  (MemFs.new 0 0).handler.sum fun _ u => (true, u)

/-- The fetch opens, reads and releases while the call over the wire holds its handle. -/
def overlapping : World FetchSig Unit :=
  [0, 1, 1, 0, 1, 1, 0, 0].foldl (World.turn memFetch (.new, ()))
    ⟨readAndFetch.map Job.prog, []⟩

theorem starts_readAndFetch : ∀ p ∈ readAndFetch.map Job.prog, Starts p := by
  intro p hp
  obtain ⟨job, hjob, rfl⟩ := List.mem_map.mp hp
  refine ⟨job, ?_, rfl⟩
  simp only [readAndFetch, List.mem_cons, List.not_mem_nil, or_false] at hjob
  obtain rfl | rfl := hjob
  · trivial
  · exact .inr (by decide)

theorem handles_balanced_overlapping :
    overlapping.log.map act = [.opened ⟨1⟩, .opened ⟨2⟩, .read ⟨2⟩, .read ⟨1⟩, .other,
      .released ⟨2⟩, .released ⟨1⟩, .other] ∧ Balanced overlapping := by
  have hnodup : (openedIn overlapping.log).Nodup := by decide +kernel
  have hrun : RunOf Fresh (readAndFetch.map Job.prog) overlapping :=
    (RunOf.turns memFetch (.new, ()) _ _).of_log fun _ _ _ => fresh_of_nodup hnodup
  exact ⟨by decide +kernel, handles_balanced (hrun.reachable starts_readAndFetch)⟩

end Anymount.Handles
