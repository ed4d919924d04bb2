import Anymount.Readdir.Walk

/-!
# An in-memory filesystem

The tree-backed implementation of the trait that ships as the crate's example. It is the
concrete instance the general results are applied to: every directory it serves obeys the
`readdir` contract.
-/
namespace Anymount

open Library

namespace FileAttr

/-- A plain read-only regular file. -/
def file (uid gid : UInt32) (ino : Ino) (size : UInt64) : FileAttr where
  ino := ino
  kind := .file
  size := size
  perm := 0o444
  nlink := 1
  uid := uid
  gid := gid
  atime := .unixEpoch
  mtime := .unixEpoch
  ctime := .unixEpoch

/-- A read-and-traverse directory. -/
def dir (uid gid : UInt32) (ino : Ino) : FileAttr where
  ino := ino
  kind := .directory
  size := 0
  perm := 0o555
  nlink := 2
  uid := uid
  gid := gid
  atime := .unixEpoch
  mtime := .unixEpoch
  ctime := .unixEpoch

end FileAttr

inductive Node where
  | dir (children : List (OsString × Ino))
  | file (data : Bytes)
  deriving DecidableEq, Repr

def Node.kind : Node → FileKind
  | .dir _ => .directory
  | .file _ => .file

/-- The immutable part: the tree, the parent of each directory, and the process's ids. -/
structure MemFs where
  nodes : Ino → Option Node
  parents : Ino → Option Ino
  uid : UInt32
  gid : UInt32

/-- The mutable part: the open-file table and the next handle number. -/
structure MemFs.State where
  openFiles : List (FileHandle × Ino)
  nextHandle : UInt64
  deriving DecidableEq, Repr

namespace MemFs

variable (m : MemFs)

def node (ino : Ino) : FsResult Node := (m.nodes ino).elim (.error .notFound) .ok

def attr (ino : Ino) : FsResult FileAttr := do
  match ← m.node ino with
  | .dir _ => pure (FileAttr.dir m.uid m.gid ino)
  | .file data => pure (FileAttr.file m.uid m.gid ino (UInt64.ofNat data.length))

def lookup (parent : Ino) (name : OsString) : FsResult FileAttr :=
  if name = Readdir.dotName then m.attr parent
  else if name = Readdir.dotdotName then
    match m.parents parent with
    | some p => m.attr p
    | none => .error .notFound
  else do
    match ← m.node parent with
    | .file _ => throw .notADirectory
    | .dir children =>
      match children.lookup name with
      | some ino => m.attr ino
      | none => throw .notFound

/-- One child as a directory entry; a child that names nothing is an error. -/
def entry (child : OsString × Ino) : FsResult DirEntry := do
  let node ← m.node child.2
  pure ⟨child.2, child.1, node.kind⟩

def readdir (ino : Ino) (offset : UInt64) : FsResult (List DirEntry) := do
  match ← m.node ino with
  | .file _ => throw .notADirectory
  | .dir children => (children.drop offset.toNat).mapM m.entry

def openFile (ino : Ino) (s : State) : FsResult FileHandle × State :=
  match m.node ino with
  | .error e => (.error e, s)
  | .ok (.dir _) => (.error .isADirectory, s)
  | .ok (.file _) =>
    let fh : FileHandle := ⟨s.nextHandle⟩
    (.ok fh, ⟨(fh, ino) :: s.openFiles, s.nextHandle + 1⟩)

/-- Copy what the file holds at `offset` into the front of the buffer. -/
def readAt (fh : FileHandle) (offset : UInt64) (buf : Bytes) (s : State) :
    ReadAnswer buf.length :=
  match s.openFiles.lookup fh with
  | none => .failed .invalidArgument buf
  | some ino =>
    match m.node ino with
    | .error e => .failed e buf
    | .ok (.dir _) => .failed .isADirectory buf
    | .ok (.file data) =>
      let chunk := (data.drop offset.toNat).take buf.length
      ⟨.ok chunk.length, chunk ++ buf.drop chunk.length, by
        simp only [chunk, List.length_append, List.length_take, List.length_drop]; omega⟩

def release (fh : FileHandle) (s : State) : State :=
  { s with openFiles := s.openFiles.filter fun f => f.1 ≠ fh }

/-- The trait implementation. `statfs` is the trait's default. -/
def handler : ReadOnlyFs State
  | .lookup parent name, s => (m.lookup parent name, s)
  | .getattr ino, s => (m.attr ino, s)
  | .readdir ino offset, s => (m.readdir ino offset, s)
  | .openFile ino, s => m.openFile ino s
  | .readAt fh offset buf, s => (m.readAt fh offset buf s, s)
  | .release fh, s => (.ok (), release fh s)
  | .statfs, s => (.ok .default, s)

/-- ASCII text as bytes. -/
def text (s : String) : Bytes := s.toList.map fun c => UInt8.ofNat c.toNat

/-- The tree the example serves. -/
def new (uid gid : UInt32) : MemFs where
  nodes ino := match ino.number with
    | 1 => some (.dir [(text "hello.txt", ⟨2⟩), (text "numbers.txt", ⟨3⟩), (text "subdir", ⟨4⟩)])
    | 2 => some (.file (text "Hello from anymount!\n"))
    | 3 => some (.file ((List.range 100).flatMap fun n => text (toString (n + 1) ++ "\n")))
    | 4 => some (.dir [(text "nested.txt", ⟨5⟩)])
    | 5 => some (.file (text "I am nested.\n"))
    | _ => none
  parents ino := match ino.number with
    | 1 => some ⟨1⟩
    | 4 => some ⟨1⟩
    | _ => none
  uid := uid
  gid := gid

/-- No file open yet. -/
def State.new : State := ⟨[], 1⟩

/-- Every child of a directory names a node. -/
def Closed (children : List (OsString × Ino)) : Prop := ∀ c ∈ children, (m.nodes c.2).isSome

/-- The entries of a directory as `readdir` reports them. -/
def entries (children : List (OsString × Ino)) : List DirEntry :=
  children.map fun c => ⟨c.2, c.1, ((m.nodes c.2).map Node.kind).getD .file⟩

theorem mapM_entry {children : List (OsString × Ino)} (h : m.Closed children) :
    children.mapM m.entry = .ok (m.entries children) := by
  induction children with
  | nil => rfl
  | cons c children ih =>
    obtain ⟨node, hnode⟩ := Option.isSome_iff_exists.mp (h c List.mem_cons_self)
    have hentry : m.entry c = .ok ⟨c.2, c.1, node.kind⟩ := by
      simp only [entry, MemFs.node, hnode]
      rfl
    have htail := ih fun c hc => h c (List.mem_cons_of_mem _ hc)
    simp only [List.mapM_cons, hentry, htail, entries, List.map_cons, hnode]
    rfl

theorem readdir_of_dir {dir : Ino} {children : List (OsString × Ino)}
    (hdir : m.nodes dir = some (.dir children)) (hclosed : m.Closed children) (offset : UInt64) :
    m.readdir dir offset = .ok ((m.entries children).drop offset.toNat) := by
  have hdrop : m.Closed (children.drop offset.toNat) := fun c hc =>
    hclosed c (List.mem_of_mem_drop hc)
  rw [entries, ← List.map_drop, ← entries, ← m.mapM_entry hdrop]
  simp only [readdir, MemFs.node, hdir]
  rfl

/-- A directory whose children all exist obeys the contract: one page with everything
that remains. -/
theorem meets_lists {dir : Ino} {children : List (OsString × Ino)}
    (hdir : m.nodes dir = some (.dir children)) (hclosed : m.Closed children) :
    m.handler.Meets (Readdir.Lists dir
      (· = Readdir.parentOf dir (m.lookup dir Readdir.dotdotName)) (m.entries children)
      fun _ => False) := by
  intro c s
  cases c with
  | readdir d offset =>
    rintro rfl
    refine .inl ⟨(m.entries children).drop offset.toNat, ?_, List.prefix_refl _, ?_⟩
    · exact m.readdir_of_dir hdir hclosed offset
    · intro hlt hnil
      have := List.length_drop.symm.trans (congrArg List.length hnil)
      simp at this
      omega
  | lookup d name =>
    rintro rfl rfl
    rfl
  | _ => trivial

/-- The root directory of the example's tree. -/
def rootEntries : List DirEntry :=
  [⟨⟨2⟩, text "hello.txt", .file⟩, ⟨⟨3⟩, text "numbers.txt", .file⟩,
    ⟨⟨4⟩, text "subdir", .directory⟩]

theorem meets_lists_root (uid gid : UInt32) :
    (new uid gid).handler.Meets (Readdir.Lists ⟨1⟩ (· = ⟨1⟩) rootEntries fun _ => False) :=
  @meets_lists (new uid gid) ⟨1⟩ _ rfl (by simp [Closed, new])

/-- What a directory lists; nothing for anything else. -/
def listing (dir : Ino) : List DirEntry :=
  match m.nodes dir with
  | some (.dir children) => m.entries children
  | _ => []

/-- Whatever the offset, what `readdir` returns is what remains of the listing. -/
theorem readdir_eq_listing (hclosed : ∀ dir children, m.nodes dir = some (.dir children) →
    m.Closed children) {dir : Ino} {offset : UInt64} {page : List DirEntry}
    (h : m.readdir dir offset = .ok page) : page = (m.listing dir).drop offset.toNat := by
  rcases hnode : m.nodes dir with _ | ⟨children | data⟩
  · simp only [readdir, MemFs.node, hnode] at h
    cases h
  · rw [m.readdir_of_dir hnode (hclosed dir children hnode)] at h
    cases h
    rw [listing, hnode]
  · simp only [readdir, MemFs.node, hnode] at h
    cases h

theorem closed_new (uid gid : UInt32) (dir : Ino) (children : List (OsString × Ino))
    (h : (new uid gid).nodes dir = some (.dir children)) : (new uid gid).Closed children := by
  simp only [new] at h
  split at h <;> cases h
  · simp [Closed, new]
  · simp [Closed, new]

theorem length_listing_new (uid gid : UInt32) (dir : Ino) :
    ((new uid gid).listing dir).length ≤ 3 := by
  unfold listing
  split
  · next children h =>
    rw [entries, List.length_map]
    simp only [new] at h
    split at h <;> cases h <;> simp
  · simp

end MemFs

end Anymount
