import Anymount.Library.Ownership
import Anymount.MemFs

/-!
# Filesystems whose content does not change

A `Tree` says what a filesystem answers whenever it is asked: everything but `open` is fixed,
and `open` hands out any handle that is not in use. This is what an implementation with one
immutable tree and a table of open files looks like to calls that run side by side.
-/
namespace Anymount

open Library Library.Prog Library.Interleave Library.Ownership

/-- The fixed answers: `openable` is the error of `open`, if it fails, and `read` what
`read_at` does on a handle of an inode. -/
structure Tree where
  lookup : Ino → OsString → FsResult FileAttr
  getattr : Ino → FsResult FileAttr
  readdir : Ino → UInt64 → FsResult (List DirEntry)
  openable : Ino → Option FsError
  read : Ino → UInt64 → (buf : Bytes) → ReadAnswer buf.length
  statfs : FsResult StatFs

/-- What a trait call and its answer mean for the table of open files. A handle is released
whatever `release` answers. -/
def fileAct : Meaning FsSig FileHandle Ino
  | .openFile ino, r =>
    match (r : FsResult FileHandle) with
    | .ok fh => .opened fh ino
    | .error _ => .other
  | .release fh, _ => .closed fh
  | _, _ => .other

/-- The calls that have nothing to do with open files. -/
def FsCall.Plain : FsCall → Prop
  | openFile _ | readAt _ _ _ | release _ => False
  | _ => True

namespace Tree

variable (F : Tree)

/-- `open` fails with the tree's error, or hands out a handle. -/
def Opened (ino : Ino) (r : FsResult FileHandle) : Prop :=
  match F.openable ino with
  | some e => r = .error e
  | none => ∃ fh, r = .ok fh

theorem Opened.ok {F : Tree} {ino : Ino} {r : FsResult FileHandle} (hr : F.Opened ino r)
    (h : F.openable ino = none) : ∃ fh, r = .ok fh := by
  rwa [Opened, h] at hr

theorem Opened.error {F : Tree} {ino : Ino} {r : FsResult FileHandle} (hr : F.Opened ino r)
    {e : FsError} (h : F.openable ino = some e) : r = .error e := by
  rwa [Opened, h] at hr

/-- What may be answered to someone who knows of the open files `t`. -/
def view (t : Table FileHandle Ino) : Contract FsSig
  | .lookup parent name, r => r = F.lookup parent name
  | .getattr ino, r => r = F.getattr ino
  | .readdir ino offset, r => r = F.readdir ino offset
  | .openFile ino, r => F.Opened ino r
  | .readAt fh offset buf, r => ∀ ino, t fh = some ino → r = F.read ino offset buf
  | .release _, _ => True
  | .statfs, r => r = F.statfs

/-- The same, for programs that make calls of another kind too, answered according to `R`. -/
def viewWith {T : Signature} (R : Contract T) (t : Table FileHandle Ino) : Contract (FsSig.sum T)
  | .inl c, r => F.view t c r
  | .inr c, r => R c r

theorem view_mono {t t' : Table FileHandle Ino} (h : ∀ fh ino, t fh = some ino → t' fh = some ino)
    {c : FsCall} {r : FsSig.Answer c} (hr : F.view t' c r) : F.view t c r := by
  cases c with
  | readAt fh offset buf => exact fun ino hino => hr ino (h fh ino hino)
  | _ => exact hr

variable {T : Signature} (R : Contract T)

/-- How calls act on the table of open files when there are others among them. -/
abbrev act (T : Signature) : Meaning (FsSig.sum T) FileHandle Ino := fileAct.left T

/-- What the filesystem may answer after everything that happened: what the tree says, and a
handle that is not in use. -/
def Answers (log : List (Event (FsSig.sum T))) (c : (FsSig.sum T).Call)
    (r : (FsSig.sum T).Answer c) : Prop :=
  F.viewWith R (table (act T) log) c r ∧
    ∀ fh ino, act T c r = .opened fh ino → table (act T) log fh = none

/-- The file can be opened, and a read gets what it has from the offset on. -/
structure Holds (ino : Ino) (content : Bytes) : Prop where
  opens : F.openable ino = none
  size_lt : content.length < 2 ^ 64
  result : ∀ offset buf, (F.read ino offset buf).result =
    .ok (min buf.length (content.length - offset.toNat))
  data : ∀ offset buf,
    (F.read ino offset buf).buf.take (min buf.length (content.length - offset.toNat)) =
      (content.drop offset.toNat).take buf.length

/-! ## Alone with the tree -/

/-- The tree as a filesystem of its own, for one user with at most one file open. -/
def alone : ReadOnlyFs (Option Ino)
  | .lookup parent name, s => (F.lookup parent name, s)
  | .getattr ino, s => (F.getattr ino, s)
  | .readdir ino offset, s => (F.readdir ino offset, s)
  | .openFile ino, s =>
    match F.openable ino with
    | some e => (.error e, s)
    | none => (.ok ⟨0⟩, some ino)
  | .readAt _ offset buf, s =>
    match s with
    | some ino => (F.read ino offset buf, s)
    | none => (.failed .invalidArgument buf, s)
  | .release _, _ => (.ok (), none)
  | .statfs, s => (F.statfs, s)

theorem run_openFile {F : Tree} {ino : Ino} (h : F.openable ino = none) {α : Type}
    (q : FsResult FileHandle → FsProg α) (s : Option Ino) :
    (FsProg.openFile ino >>= q).run F.alone s = (q (.ok ⟨0⟩)).run F.alone (some ino) := by
  have hanswer : F.alone (.openFile ino) s = (.ok ⟨0⟩, some ino) := by
    simp only [alone, h]
  show (q (F.alone (.openFile ino) s).1).run F.alone (F.alone (.openFile ino) s).2 = _
  rw [hanswer]

/-- An environment without state. -/
def always (k : (c : T.Call) → T.Answer c) : Handler T Unit := fun c u => (k c, u)

/-- With calls of another kind that are always answered alike. -/
abbrev aloneWith (k : (c : T.Call) → T.Answer c) : Handler (FsSig.sum T) (Option Ino × Unit) :=
  F.alone.sum (always k)

/-- The calls of a program that opens no files. -/
def PlainWith (T : Signature) : (FsSig.sum T).Call → Prop
  | .inl c => c.Plain
  | .inr _ => True

theorem plainWith_inl {α : Type} {p : FsProg α} (h : p.Within FsCall.Plain) :
    (p.inl (T := T)).Within (PlainWith T) := by
  induction p with
  | ret a => trivial
  | halt why => trivial
  | call c next ih => exact ⟨h.1, fun r => ih r (h.2 r)⟩

/-! ## Handles of their own -/

/-- Two programs that do the same, each with the handle it was given: the first among others,
the second alone with the tree. They hold the handles `m`, and return where `Q` relates them. -/
inductive Alike (R : Contract T) (k : (c : T.Call) → T.Answer c) {α β : Type}
    (Q : Option (FileHandle × FileHandle) → α → β → Prop) :
    Option (FileHandle × FileHandle) → Prog (FsSig.sum T) α → Prog (FsSig.sum T) β → Prop where
  | ret {m : Option (FileHandle × FileHandle)} {a : α} {b : β} (h : Q m a b) :
      Alike R k Q m (.ret a) (.ret b)
  | halt {m : Option (FileHandle × FileHandle)} (why : Halt) :
      Alike R k Q m (.halt why) (.halt why)
  | plain {m : Option (FileHandle × FileHandle)} {c : FsCall}
      {p : FsSig.Answer c → Prog (FsSig.sum T) α} {q : FsSig.Answer c → Prog (FsSig.sum T) β}
      (hc : c.Plain) (next : ∀ r, Alike R k Q m (p r) (q r)) :
      Alike R k Q m (.call (.inl c) p) (.call (.inl c) q)
  | other {m : Option (FileHandle × FileHandle)} {c : T.Call}
      {p : T.Answer c → Prog (FsSig.sum T) α} {q : T.Answer c → Prog (FsSig.sum T) β}
      (next : ∀ r, R c r → Alike R k Q m (p r) (q (k c))) :
      Alike R k Q m (.call (.inr c) p) (.call (.inr c) q)
  | openFile {ino : Ino} {p : FsResult FileHandle → Prog (FsSig.sum T) α}
      {q : FsResult FileHandle → Prog (FsSig.sum T) β}
      (failed : ∀ e, Alike R k Q none (p (.error e)) (q (.error e)))
      (opened : ∀ fh fh', Alike R k Q (some (fh, fh')) (p (.ok fh)) (q (.ok fh'))) :
      Alike R k Q none (.call (.inl (.openFile ino)) p) (.call (.inl (.openFile ino)) q)
  | readAt {fh fh' : FileHandle} {offset : UInt64} {buf : Bytes}
      {p : ReadAnswer buf.length → Prog (FsSig.sum T) α}
      {q : ReadAnswer buf.length → Prog (FsSig.sum T) β}
      (next : ∀ r, Alike R k Q (some (fh, fh')) (p r) (q r)) :
      Alike R k Q (some (fh, fh')) (.call (.inl (.readAt fh offset buf)) p)
        (.call (.inl (.readAt fh' offset buf)) q)
  | release {fh fh' : FileHandle} {p : FsResult Unit → Prog (FsSig.sum T) α}
      {q : FsResult Unit → Prog (FsSig.sum T) β} (next : ∀ r r', Alike R k Q none (p r) (q r')) :
      Alike R k Q (some (fh, fh')) (.call (.inl (.release fh)) p) (.call (.inl (.release fh')) q)

section Alike

variable {F R} {k : (c : T.Call) → T.Answer c} {α β γ δ : Type}
  {Q : Option (FileHandle × FileHandle) → α → β → Prop} {m : Option (FileHandle × FileHandle)}

theorem Alike.bind {Q' : Option (FileHandle × FileHandle) → γ → δ → Prop}
    {p : Prog (FsSig.sum T) α} {q : Prog (FsSig.sum T) β} {f : α → Prog (FsSig.sum T) γ}
    {g : β → Prog (FsSig.sum T) δ} (h : Alike R k Q m p q)
    (hnext : ∀ m a b, Q m a b → Alike R k Q' m (f a) (g b)) :
    Alike R k Q' m (p >>= f) (q >>= g) := by
  induction h with
  | ret h => exact hnext _ _ _ h
  | halt why => exact .halt why
  | plain hc _ ih => exact .plain hc ih
  | other _ ih => exact .other ih
  | openFile _ _ ihfailed ihopened => exact .openFile ihfailed ihopened
  | readAt _ ih => exact .readAt ih
  | release _ ih => exact .release ih

/-- Both return the same, and hold what they held. -/
def Same (m : Option (FileHandle × FileHandle)) (m' : Option (FileHandle × FileHandle))
    (a b : α) : Prop := m' = m ∧ a = b

/-- A program that opens no files is alike to itself. -/
theorem alike_plain {p : Prog (FsSig.sum T) α} (hp : p.Within (PlainWith T))
    (hR : ∀ c r, R c r → r = k c) : Alike R k (Same m) m p p := by
  induction p with
  | ret a => exact .ret ⟨rfl, rfl⟩
  | halt why => exact .halt why
  | call c next ih =>
    rcases c with c | c
    · exact .plain hp.1 fun r => ih r (hp.2 r)
    · refine .other fun r hr => ?_
      obtain rfl := hR c r hr
      exact ih _ (hp.2 _)

/-- The calls that are not the trait's. -/
def others (cs : List (FsSig.sum T).Call) : List T.Call := cs.filterMap Sum.getRight?

theorem others_append (cs cs' : List (FsSig.sum T).Call) :
    others (cs ++ cs') = others cs ++ others cs' := List.filterMap_append

/-- What the program among others holds, and the state of the tree of the one alone. -/
inductive Fits : Option (FileHandle × FileHandle) → Option Ino → Table FileHandle Ino → Prop where
  | nothing : Fits none none .empty
  | file (fh fh' : FileHandle) (ino : Ino) : Fits (some (fh, fh')) (some ino) (.single fh ino)

/-- Only one answer is possible to a plain call. -/
theorem answer_of_plain {c : FsCall} (hc : c.Plain) {t : Table FileHandle Ino}
    {r : FsSig.Answer c} (hr : F.view t c r) (s : Option Ino) :
    F.alone c s = (r, s) ∧ fileAct c r = .other := by
  cases c with
  | openFile _ | readAt _ _ _ | release _ => exact hc.elim
  | _ =>
    cases hr
    exact ⟨rfl, rfl⟩

/-- The program among others ends as the one alone does, after the same calls of the other
kind. -/
def EndsAs (F : Tree) (k : (c : T.Call) → T.Answer c)
    (Q : Option (FileHandle × FileHandle) → α → β → Prop) (q : Prog (FsSig.sum T) β)
    (s : Option Ino) (cs : List (FsSig.sum T).Call) (t : Table FileHandle Ino)
    (cs' : List (FsSig.sum T).Call) (a : α) : Prop :=
  ∃ m b s', q.run (F.aloneWith k) (s, ()) = (.ok b, s', ()) ∧ Fits m s' t ∧ Q m a b ∧
    others cs' = others cs ++ others (q.calls (F.aloneWith k) (s, ()))

theorem run_answered {c : (FsSig.sum T).Call} {q : (FsSig.sum T).Answer c → Prog (FsSig.sum T) β}
    {s s' : Option Ino} {r : (FsSig.sum T).Answer c} (h : F.aloneWith k c (s, ()) = (r, s', ())) :
    (Prog.call c q).run (F.aloneWith k) (s, ()) = (q r).run (F.aloneWith k) (s', ()) := by
  simp only [Prog.run, h]

theorem EndsAs.call {c c' : (FsSig.sum T).Call} {q : (FsSig.sum T).Answer c → Prog (FsSig.sum T) β}
    {s s' : Option Ino} {r : (FsSig.sum T).Answer c} {cs cs' : List (FsSig.sum T).Call}
    {t : Table FileHandle Ino} {a : α} (h : EndsAs F k Q (q r) s' (cs ++ [c']) t cs' a)
    (hanswer : F.aloneWith k c (s, ()) = (r, s', ())) (hsame : others [c'] = others [c]) :
    EndsAs F k Q (.call c q) s cs t cs' a := by
  obtain ⟨m, b, s'', hrun, hfits, hq, hcalls⟩ := h
  refine ⟨m, b, s'', (run_answered hanswer).trans hrun, hfits, hq, ?_⟩
  rw [hcalls, others_append, hsame, List.append_assoc, ← others_append, Prog.calls, hanswer]
  rfl

/-- The rule of ownership, from the run alone. -/
theorem owned_of_alike {p : Prog (FsSig.sum T) α} {q : Prog (FsSig.sum T) β} {s : Option Ino}
    {t : Table FileHandle Ino} {H : Halt → Prop}
    {P : Table FileHandle Ino → List (FsSig.sum T).Call → α → Prop} (h : Alike R k Q m p q)
    (hfits : Fits m s t) (cs : List (FsSig.sum T).Call)
    (hret : ∀ t' cs' a, EndsAs F k Q q s cs t' cs' a → P t' cs' a)
    (hhalt : ∀ why, (q.run (F.aloneWith k) (s, ())).1 = .error why → H why) :
    Owned (act T) (F.viewWith R) H P t cs p := by
  induction h generalizing s t cs with
  | ret hq => exact hret _ _ _ ⟨_, _, _, rfl, hfits, hq, (List.append_nil _).symm⟩
  | halt why => exact hhalt why rfl
  | @plain _ c p q hc _ ih =>
    intro r hr
    obtain ⟨hanswer, hact⟩ := answer_of_plain hc hr s
    have halone : F.aloneWith k (.inl c) (s, ()) = (r, s, ()) := by
      simp only [aloneWith, Handler.sum, hanswer]
    have hother : act T (.inl c) r = .other := hact
    have hrun := congrArg Prod.fst (run_answered (q := q) halone)
    rw [hother]
    exact ⟨by rintro _ ⟨⟩,
      ih r hfits _ (fun t' cs' a h => hret _ _ _ (h.call halone rfl))
        fun why hwhy => hhalt why (hrun.trans hwhy)⟩
  | @other _ c p q _ ih =>
    intro r hr
    exact ⟨by rintro _ ⟨⟩, ih r hr hfits _ (fun t' cs' a h => hret _ _ _ (h.call rfl rfl)) hhalt⟩
  | @openFile ino p q _ _ ihfailed ihopened =>
    intro r hr
    have hr : F.Opened ino r := hr
    cases hfits
    rcases hcase : F.openable ino with _ | e
    · obtain ⟨fh, rfl⟩ := hr.ok hcase
      have halone : F.aloneWith k (.inl (.openFile ino)) (none, ()) = (.ok ⟨0⟩, some ino, ()) := by
        simp only [aloneWith, Handler.sum, alone, hcase]
      have hrun := congrArg Prod.fst (run_answered (q := q) halone)
      exact ⟨by rintro _ ⟨⟩, ihopened fh ⟨0⟩ (.file fh ⟨0⟩ ino) _
        (fun t' cs' a h => hret _ _ _ (h.call halone rfl))
        fun why hwhy => hhalt why (hrun.trans hwhy)⟩
    · obtain rfl := hr.error hcase
      have halone : F.aloneWith k (.inl (.openFile ino)) (none, ()) = (.error e, none, ()) := by
        simp only [aloneWith, Handler.sum, alone, hcase]
      have hrun := congrArg Prod.fst (run_answered (q := q) halone)
      exact ⟨by rintro _ ⟨⟩, ihfailed e .nothing _
        (fun t' cs' a h => hret _ _ _ (h.call halone rfl))
        fun why hwhy => hhalt why (hrun.trans hwhy)⟩
  | @readAt fh fh' offset buf p q _ ih =>
    intro r hr
    cases hfits with
    | file _ _ ino =>
      obtain rfl : r = F.read ino offset buf := hr ino (Table.single_self fh ino)
      have hsame : others [(.inl (.readAt fh offset buf) : (FsSig.sum T).Call)] =
        others [.inl (.readAt fh' offset buf)] := rfl
      exact ⟨by rintro _ ⟨⟩, ih _ (.file fh fh' ino) _
        (fun t' cs' a h => hret _ _ _ (h.call rfl hsame)) hhalt⟩
  | @release fh fh' p q _ ih =>
    intro r hr
    cases hfits with
    | file _ _ ino =>
      have hsame : others [(.inl (.release fh) : (FsSig.sum T).Call)] =
        others [.inl (.release fh')] := rfl
      have halone : F.aloneWith k (.inl (.release fh')) (some ino, ()) = (.ok (), none, ()) := rfl
      refine ⟨?_, ih r (.ok ()) ?_ _ (fun t' cs' a h => hret _ _ _ (h.call halone hsame)) hhalt⟩
      · rintro _ ⟨⟩
        rw [Table.single_self]
        exact Option.some_ne_none ino
      · have hclosed : (Table.single fh ino).after (act T (.inl (.release fh)) r) = .empty :=
          Table.after_closed_single fh ino
        rw [hclosed]
        exact .nothing

/-- The one alone ends with what the other ends with. -/
theorem Alike.fits {p : Prog (FsSig.sum T) α} {q : Prog (FsSig.sum T) β} (h : Alike R k Q m p q)
    (hk : ∀ c, R c (k c)) {s : Option Ino} {t : Table FileHandle Ino} (hfits : Fits m s t) {b : β}
    {s' : Option Ino × Unit} (hrun : q.run (F.aloneWith k) (s, ()) = (.ok b, s')) :
    ∃ m' a t', Q m' a b ∧ Fits m' s'.1 t' := by
  induction h generalizing s t with
  | @ret m a b' hq =>
    cases hrun
    exact ⟨m, a, t, hq, hfits⟩
  | halt why => cases hrun
  | @plain m c p q hc next ih =>
    have hstate : (F.alone c s).2 = s := by
      cases c with
      | openFile _ | readAt _ _ _ | release _ => exact hc.elim
      | _ => rfl
    have halone : F.aloneWith k (.inl c) (s, ()) = ((F.alone c s).1, s, ()) :=
      congrArg (fun s' => ((F.alone c s).1, s', ())) hstate
    exact ih _ hfits ((run_answered (q := q) halone).symm.trans hrun)
  | @other m c p q next ih => exact ih (k c) (hk c) hfits hrun
  | @openFile ino p q _ _ ihfailed ihopened =>
    cases hfits
    rcases hcase : F.openable ino with _ | e
    · have halone : F.aloneWith k (.inl (.openFile ino)) (none, ()) = (.ok ⟨0⟩, some ino, ()) := by
        simp only [aloneWith, Handler.sum, alone, hcase]
      exact ihopened ⟨0⟩ ⟨0⟩ (.file ⟨0⟩ ⟨0⟩ ino) ((run_answered (q := q) halone).symm.trans hrun)
    · have halone : F.aloneWith k (.inl (.openFile ino)) (none, ()) = (.error e, none, ()) := by
        simp only [aloneWith, Handler.sum, alone, hcase]
      exact ihfailed e .nothing ((run_answered (q := q) halone).symm.trans hrun)
  | readAt _ ih =>
    cases hfits with
    | file _ _ ino => exact ih _ (.file _ _ ino) hrun
  | release _ ih =>
    cases hfits
    exact ih (.ok ()) (.ok ()) .nothing hrun

end Alike

/-! ## Side by side as alone -/

section SideBySide

variable {F R} {k : (c : T.Call) → T.Answer c} {α : Type} {starts : Prog (FsSig.sum T) α → Prop}
  {ps : List (Prog (FsSig.sum T) α)} {w : World (FsSig.sum T) α}

/-- A program that does not look at its handles and leaves nothing open. -/
abbrev Settled (R : Contract T) (k : (c : T.Call) → T.Answer c) (p : Prog (FsSig.sum T) α) : Prop :=
  Alike R k (Same none) none p p

theorem Settled.ret (a : α) : Settled R k (.ret a : Prog (FsSig.sum T) α) := Alike.ret ⟨rfl, rfl⟩

theorem Settled.bind {β : Type} {p : Prog (FsSig.sum T) β} {f : β → Prog (FsSig.sum T) α}
    (hp : Settled R k p) (hf : ∀ b, Settled R k (f b)) : Settled R k (p >>= f) := by
  refine Alike.bind hp ?_
  rintro m b _ ⟨rfl, rfl⟩
  exact hf b

/-- Alone with the tree, it ends with nothing open. -/
theorem Settled.run_alone {p : Prog (FsSig.sum T) α} (hp : Settled R k p) (hk : ∀ c, R c (k c))
    {a : α} (hrun : (p.run (F.aloneWith k) (none, ())).1 = .ok a) :
    p.run (F.aloneWith k) (none, ()) = (.ok a, none, ()) := by
  rcases hall : p.run (F.aloneWith k) (none, ()) with ⟨result, s, u⟩
  obtain rfl : result = .ok a := by rw [← hrun, hall]
  obtain ⟨m, b, t, ⟨rfl, -⟩, hfits⟩ := Alike.fits hp hk .nothing hall
  cases hfits
  rfl

/-- What the program `p` did if it returned `a` after the calls `cs`: it does so alone. -/
def DoesAlone (F : Tree) (k : (c : T.Call) → T.Answer c) (p : Prog (FsSig.sum T) α)
    (cs : List (FsSig.sum T).Call) (a : α) : Prop :=
  p.run (F.aloneWith k) (none, ()) = (.ok a, none, ()) ∧
    others cs = others (p.calls (F.aloneWith k) (none, ()))

theorem owned_of_settled {p : Prog (FsSig.sum T) α} (hp : Settled R k p) :
    Owned (act T) (F.viewWith R) (fun why => (p.run (F.aloneWith k) (none, ())).1 = .error why)
      (fun t cs a => t = .empty ∧ DoesAlone F k p cs a) .empty [] p := by
  refine owned_of_alike hp .nothing [] ?_ fun why hwhy => hwhy
  rintro t cs a ⟨m, b, s, hrun, hfits, ⟨rfl, rfl⟩, hcalls⟩
  cases hfits
  exact ⟨rfl, hrun, hcalls⟩

/-- Whatever runs side by side with it, a program that returns does so as it would alone with
the tree, having made the same calls of the other kind; one that halts halts alone too; and
when all have returned no file is open. -/
theorem as_alone (hps : ∀ p ∈ ps, Settled R k p) (h : RunOf (F.Answers R) ps w) :
    (∀ (i : Nat) (p : Prog (FsSig.sum T) α), ps[i]? = some p →
      (∀ a, w.jobs[i]? = some (.ret a) → DoesAlone F k p (made i w.log) a) ∧
      ∀ why, w.jobs[i]? = some (.halt why) →
        (p.run (F.aloneWith k) (none, ())).1 = .error why) ∧
    ((∀ p ∈ w.jobs, ∃ a, p = .ret a) → table (act T) w.log = .empty) := by
  have howned : ∀ p ∈ ps, Owned (act T) (F.viewWith R)
      (fun why => (p.run (F.aloneWith k) (none, ())).1 = .error why)
      (fun t cs a => t = .empty ∧ DoesAlone F k p cs a) .empty [] p :=
    fun p hp => owned_of_settled (hps p hp)
  obtain ⟨held, howners⟩ := exists_owners howned (fun log c r fh ino hr => hr.2 fh ino)
    (by
      rintro log (c | c) r t ⟨hr, -⟩ hsub
      · exact F.view_mono hsub hr
      · exact hr) h
  exact ⟨fun i p hp => ⟨fun a ha => (howners.ret hp ha).2, fun why => howners.halt hp⟩,
    howners.drained fun p t cs a hq => hq.1⟩

/-- What some program that was started did if it returned `a` after the calls `cs`. -/
def DidAlone (F : Tree) (k : (c : T.Call) → T.Answer c) (starts : Prog (FsSig.sum T) α → Prop)
    (cs : List (FsSig.sum T).Call) (a : α) : Prop :=
  ∃ p, starts p ∧ DoesAlone F k p cs a

/-- The same where it does not matter which of the programs a job was. -/
theorem reachable_as_alone (hstart : ∀ p, starts p → Settled R k p)
    (h : Reachable starts (F.Answers R) w) :
    (∀ i a, w.jobs[i]? = some (.ret a) → DidAlone F k starts (made i w.log) a) ∧
    (∀ why, .halt why ∈ w.jobs →
      ∃ p, starts p ∧ (p.run (F.aloneWith k) (none, ())).1 = .error why) ∧
    ((∀ p ∈ w.jobs, ∃ a, p = .ret a) → table (act T) w.log = .empty) := by
  obtain ⟨ps, hps, hrun⟩ := h.runOf
  obtain ⟨halone, hdrained⟩ := as_alone (fun p hp => hstart p (hps p hp)) hrun
  refine ⟨fun i a hi => ?_, fun why hmem => ?_, hdrained⟩
  · obtain ⟨p, hp⟩ := exists_getElem?_of_length_eq hrun.length_eq hi
    exact ⟨p, hps p (List.mem_of_getElem? hp), (halone i p hp).1 a hi⟩
  · obtain ⟨i, hi⟩ := List.getElem?_of_mem hmem
    obtain ⟨p, hp⟩ := exists_getElem?_of_length_eq hrun.length_eq hi
    exact ⟨p, hps p (List.mem_of_getElem? hp), (halone i p hp).2 why hi⟩

end SideBySide

end Tree

/-! ## The example -/

namespace MemFs

variable (m : MemFs) {T : Signature} {τ : Type}

/-- What the example answers to calls that concern open files. -/
def tree : Tree where
  lookup := m.lookup
  getattr := m.attr
  readdir := m.readdir
  openable ino :=
    match m.node ino with
    | .error e => some e
    | .ok (.dir _) => some .isADirectory
    | .ok (.file _) => none
  read ino offset buf := m.readAt ⟨0⟩ offset buf ⟨[(⟨0⟩, ino)], 1⟩
  statfs := .ok .default

theorem holds_tree {m : MemFs} {ino : Ino} {data : Bytes}
    (hdata : m.nodes ino = some (.file data)) (hsize : data.length < 2 ^ 64) :
    m.tree.Holds ino data := by
  have hnode : m.node ino = .ok (.file data) := by
    rw [node, hdata]
    rfl
  have hlen : ∀ (offset : UInt64) (buf : Bytes),
      ((data.drop offset.toNat).take buf.length).length =
        min buf.length (data.length - offset.toNat) := by
    intro offset buf
    rw [List.length_take, List.length_drop]
  refine ⟨?_, hsize, fun offset buf => ?_, fun offset buf => ?_⟩
  · simp only [tree, hnode]
  · simp only [tree, readAt, List.lookup_cons, beq_self_eq_true, hnode]
    exact congrArg Except.ok (hlen offset buf)
  · simp only [tree, readAt, List.lookup_cons, beq_self_eq_true, hnode]
    rw [← hlen]
    exact List.take_left

/-- How often `open` was called. -/
def opens (log : List (Event (FsSig.sum T))) : Nat :=
  log.countP fun e =>
    match e.call with
    | .inl (.openFile _) => true
    | _ => false

theorem opens_le_append (log more : List (Event (FsSig.sum T))) :
    opens log ≤ opens (log ++ more) := by
  simp [opens]

/-- The table of open files is the one that the history tells of, and the next handle is
larger than all of them. -/
structure Tracks (log : List (Event (FsSig.sum T))) (s : State) : Prop where
  files : ∀ fh, s.openFiles.lookup fh = table (Tree.act T) log fh
  next : s.nextHandle.toNat ≤ 1 + opens log
  fresh : ∀ f ∈ s.openFiles, f.1.number.toNat < s.nextHandle.toNat

theorem lookup_filter_ne (files : List (FileHandle × Ino)) (fh fh' : FileHandle) :
    (files.filter fun f => f.1 ≠ fh).lookup fh' =
      Function.update (fun fh' => files.lookup fh') fh none fh' := by
  induction files with
  | nil => by_cases h : fh' = fh <;> simp [Function.update_apply, h]
  | cons f files ih =>
    obtain ⟨key, ino⟩ := f
    simp only [Function.update_apply] at ih ⊢
    by_cases hkey : key = fh
    · subst hkey
      rw [List.filter_cons_of_neg (by simp), ih]
      by_cases h : fh' = key
      · simp [h]
      · have hbeq : (fh' == key) = false := beq_false_of_ne h
        simp [h, List.lookup_cons, hbeq]
    · rw [List.filter_cons_of_pos (by simpa using hkey), List.lookup_cons, List.lookup_cons, ih]
      by_cases h : fh' = key
      · subst h
        simp only [beq_self_eq_true, if_neg hkey]
      · have hbeq : (fh' == key) = false := beq_false_of_ne h
        rw [hbeq]

theorem lookup_none_of_fresh {files : List (FileHandle × Ino)} {n : UInt64}
    (h : ∀ f ∈ files, f.1.number.toNat < n.toNat) : files.lookup ⟨n⟩ = none := by
  refine List.lookup_eq_none_iff.mpr fun f hf => ?_
  have hlt := h f hf
  have hne : (⟨n⟩ : FileHandle) ≠ f.1 := by
    intro heq
    rw [← heq] at hlt
    exact lt_irrefl _ hlt
  exact bne_iff_ne.mpr hne

variable {m} {log : List (Event (FsSig.sum T))} {s : State}

theorem Tracks.other (h : Tracks log s) (i : Nat) {c : (FsSig.sum T).Call}
    {r : (FsSig.sum T).Answer c} (hact : Tree.act T c r = .other) :
    Tracks (log ++ [⟨i, c, r⟩]) s where
  files fh := by
    rw [table_snoc, hact]
    exact h.files fh
  next := h.next.trans (Nat.add_le_add_left (opens_le_append log _) 1)
  fresh := h.fresh

/-- One call of the trait: the answer is the tree's, a new handle is not in use, and the
table keeps following the history. -/
theorem Tracks.call (h : Tracks log s) (hroom : opens log + 2 < 2 ^ 64) (i : Nat) (c : FsCall) :
    m.tree.view (table (Tree.act T) log) c (m.handler c s).1 ∧
      (∀ fh ino, fileAct c (m.handler c s).1 = .opened fh ino → table (Tree.act T) log fh = none) ∧
      Tracks (log ++ [⟨i, .inl c, (m.handler c s).1⟩]) (m.handler c s).2 := by
  have hother : ∀ (c : FsCall) (r : FsSig.Answer c), fileAct c r = .other →
      ∀ fh ino, fileAct c r = .opened fh ino → table (Tree.act T) log fh = none := by
    intro c r hact fh ino hopened
    rw [hact] at hopened
    cases hopened
  cases c with
  | lookup parent name => exact ⟨rfl, hother _ _ rfl, h.other i rfl⟩
  | getattr ino => exact ⟨rfl, hother _ _ rfl, h.other i rfl⟩
  | readdir ino offset => exact ⟨rfl, hother _ _ rfl, h.other i rfl⟩
  | statfs => exact ⟨rfl, hother _ _ rfl, h.other i rfl⟩
  | readAt fh offset buf =>
    refine ⟨fun ino hino => ?_, hother _ _ rfl, h.other i rfl⟩
    rw [← h.files fh] at hino
    simp only [handler, tree, readAt, hino, List.lookup_cons, beq_self_eq_true]
    rfl
  | release fh =>
    refine ⟨trivial, by rintro _ _ ⟨⟩, ?_, ?_, ?_⟩
    · intro fh'
      rw [table_snoc]
      have hlookup := lookup_filter_ne s.openFiles fh fh'
      simp only [h.files] at hlookup
      exact hlookup
    · exact h.next.trans (Nat.add_le_add_left (opens_le_append log _) 1)
    · exact fun f hf => h.fresh f (List.mem_of_mem_filter hf)
  | openFile ino =>
    have hunused : s.openFiles.lookup ⟨s.nextHandle⟩ = none := lookup_none_of_fresh h.fresh
    rcases hnode : m.node ino with e | children | data
    · have hrun : m.handler (.openFile ino) s = (.error e, s) := by
        simp only [handler, openFile, hnode]
        rfl
      rw [hrun]
      exact ⟨by simp only [Tree.view, Tree.Opened, tree, hnode], hother _ _ rfl, h.other i rfl⟩
    · have hrun : m.handler (.openFile ino) s = (.error .isADirectory, s) := by
        simp only [handler, openFile, hnode]
        rfl
      rw [hrun]
      exact ⟨by simp only [Tree.view, Tree.Opened, tree, hnode], hother _ _ rfl, h.other i rfl⟩
    · have hrun : m.handler (.openFile ino) s =
          (.ok ⟨s.nextHandle⟩, ⟨(⟨s.nextHandle⟩, ino) :: s.openFiles, s.nextHandle + 1⟩) := by
        simp only [handler, openFile, hnode]
        rfl
      have hnext : (s.nextHandle + 1).toNat = s.nextHandle.toNat + 1 :=
        toNat_add_of_lt (by have := h.next; simp; omega)
      rw [hrun]
      refine ⟨by simp only [Tree.view, Tree.Opened, tree, hnode]; exact ⟨_, rfl⟩, ?_, ?_, ?_, ?_⟩
      · rintro fh ino' ⟨⟩
        rw [← h.files]
        exact hunused
      · intro fh
        rw [table_snoc]
        show List.lookup fh ((⟨s.nextHandle⟩, ino) :: s.openFiles) =
          Function.update (table (Tree.act T) log) ⟨s.nextHandle⟩ (some ino) fh
        rw [List.lookup_cons, Function.update_apply, h.files]
        by_cases hfh : fh = ⟨s.nextHandle⟩
        · simp [hfh]
        · simp [hfh, beq_false_of_ne hfh]
      · have := h.next
        simp only [hnext, opens, List.countP_append, List.countP_singleton, if_true] at this ⊢
        omega
      · intro f hf
        rw [hnext]
        rcases List.mem_cons.mp hf with rfl | hf
        · exact Nat.lt_succ_self _
        · exact Nat.lt_succ_of_lt (h.fresh f hf)

/-- The example is a tree to calls that run side by side, as long as its handle numbers do not
run out, and its table of open files is the one that the history tells of. -/
theorem runOf_tree {α : Type} {ps : List (Prog (FsSig.sum T) α)} {w : World (FsSig.sum T) α}
    {k : Handler T τ} {R : Contract T} (hk : k.Meets R) {t₀ : τ}
    (h : RunOf (Played (m.handler.sum k) (.new, t₀)) ps w) (hopens : opens w.log + 2 < 2 ^ 64) :
    RunOf (m.tree.Answers R) ps w ∧
      Tracks w.log (stateAfter (m.handler.sum k) (.new, t₀) w.log).1 := by
  induction h with
  | init =>
    have hnext : (1 : UInt64).toNat ≤ 1 := by decide
    exact ⟨.init, fun _ => rfl, hnext, by simp [stateAfter, State.new]⟩
  | start p _ ih =>
    obtain ⟨hw, htracks⟩ := ih hopens
    exact ⟨hw.start p, htracks⟩
  | @answer ps w i c next r _ hjob hr ih =>
    have hbefore : opens w.log + 2 < 2 ^ 64 :=
      lt_of_le_of_lt (Nat.add_le_add_right (opens_le_append _ _) 2) hopens
    obtain ⟨hw, htracks⟩ := ih hbefore
    rw [stateAfter_snoc]
    subst hr
    rcases c with c | c
    · obtain ⟨hview, hfresh, hnext⟩ := htracks.call (m := m) hbefore i c
      exact ⟨hw.answer hjob ⟨hview, hfresh⟩, hnext⟩
    · exact ⟨hw.answer hjob ⟨hk c _, by rintro _ _ ⟨⟩⟩, htracks.other i rfl⟩

theorem reachable_tree {α : Type} {starts : Prog (FsSig.sum T) α → Prop}
    {w : World (FsSig.sum T) α} {k : Handler T τ} {R : Contract T} (hk : k.Meets R) {t₀ : τ}
    (h : Reachable starts (Played (m.handler.sum k) (.new, t₀)) w)
    (hopens : opens w.log + 2 < 2 ^ 64) :
    Reachable starts (m.tree.Answers R) w ∧
      Tracks w.log (stateAfter (m.handler.sum k) (.new, t₀) w.log).1 := by
  obtain ⟨ps, hps, hrun⟩ := h.runOf
  obtain ⟨htree, htracks⟩ := runOf_tree hk hrun hopens
  exact ⟨htree.reachable hps, htracks⟩

end MemFs

end Anymount
