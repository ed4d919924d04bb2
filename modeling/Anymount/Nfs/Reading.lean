import Anymount.Nfs.Exchange

/-!
# Reading a file

A client that reads a file from start to end with `READ3`, asking for any amounts. The
filesystem is one that serves the file: `open` succeeds, `read_at` on the handle it gave
fills as much of the buffer as the file holds there, and `getattr` reports the size.
-/
namespace Anymount.Nfs

open Library Library.Xdr Library.Prog Rfc1813 NfsProto

/-- `read_at` filled the buffer with what `content` holds at `offset`, and said so. -/
def Fills (content : Bytes) (offset : UInt64) {n : Nat} (answer : ReadAnswer n) : Prop :=
  answer.result = .ok (min n (content.length - offset.toNat)) ∧
    answer.buf.take (min n (content.length - offset.toNat)) = (content.drop offset.toNat).take n

/-- The filesystem serves `content` under `ino`, from every state. -/
structure ServesFile {σ : Type} (fs : ReadOnlyFs σ) (ino : Ino) (content : Bytes) : Prop where
  size_lt : content.length < 2 ^ 64
  opens : ∀ s, ∃ fh, (fs (.openFile ino) s).1 = .ok fh ∧
    ∀ offset buf, Fills content offset (fs (.readAt fh offset buf) (fs (.openFile ino) s).2).1
  size : ∀ s, ∃ attr, (fs (.getattr ino) s).1 = .ok attr ∧ attr.size.toNat = content.length

/-- The data of a read at `offset`. -/
def chunkAt (content : Bytes) (offset : UInt64) (count : UInt32) : Bytes :=
  (content.drop offset.toNat).take (min count.toNat rtmax.toNat)

theorem length_chunkAt (content : Bytes) (offset : UInt64) (count : UInt32) :
    (chunkAt content offset count).length =
      min (min count.toNat rtmax.toNat) (content.length - offset.toNat) := by
  simp [chunkAt]

theorem length_chunkAt_lt (content : Bytes) (offset : UInt64) (count : UInt32) :
    (chunkAt content offset count).length < 2 ^ 32 := by
  have := rtmax.toNat_lt
  rw [length_chunkAt]
  omega

/-- The end-of-file flag, in unbounded arithmetic. -/
theorem readEof_iff {attr : FileAttr} {offset : UInt64} {n : Nat} (hn : n < 2 ^ 64) :
    readEof offset n (some attr) = true ↔ attr.size.toNat ≤ offset.toNat + n := by
  have hsize := attr.size.toNat_lt
  rw [readEof, decide_eq_true_iff, ge_iff_le, UInt64.le_iff_toNat_le, toNat_saturatingAdd,
    toNat_ofNat_u64 hn]
  omega

section Serve

variable {σ : Type} {fs : ReadOnlyFs σ} {ino : Ino} {content : Bytes}

theorem readData_of_fills {offset : UInt64} {n : Nat} {answer : ReadAnswer n}
    (h : Fills content offset answer) :
    ∃ m, answer.result = .ok m ∧ readData answer m = (content.drop offset.toNat).take n := by
  refine ⟨_, h.1, ?_⟩
  rw [readData, answer.length_buf, min_eq_left (min_le_left _ _), h.2]

/-- One read of a served file. -/
theorem run_serveRead (h : ServesFile fs ino content) (fsid offset : UInt64) (count : UInt32)
    (s : σ) :
    ∃ attr eof data s', (serveRead fsid ino offset count).run fs s =
        (.ok (.inl (attr, UInt32.ofNat data.val.length, eof, data)), s') ∧
      data.val = chunkAt content offset count ∧
      (eof = true ↔ content.length ≤ offset.toNat + data.val.length) := by
  obtain ⟨fh, hopen, hfills⟩ := h.opens s
  have hanswer := hfills offset (List.replicate (min count rtmax).toNat 0)
  rcases hs₁ : fs (.openFile ino) s with ⟨opened, s₁⟩
  rw [hs₁] at hopen hanswer
  rcases hs₂ : fs (.readAt fh offset (List.replicate (min count rtmax).toNat 0)) s₁ with
    ⟨answer, s₂⟩
  rw [hs₂] at hanswer
  rcases hs₃ : fs (.release fh) s₂ with ⟨released, s₃⟩
  obtain ⟨attr, hattr, hsize⟩ := h.size s₃
  rcases hs₄ : fs (.getattr ino) s₃ with ⟨attributes, s₄⟩
  rw [hs₄] at hattr
  obtain ⟨n, hresult, hdata⟩ := readData_of_fills hanswer
  have hchunk : readData answer n = chunkAt content offset count := by
    rw [hdata, chunkAt, List.length_replicate, toNat_min_u32]
  have hlt : (readData answer n).length < 2 ^ 64 := by
    rw [hchunk]
    exact lt_trans (length_chunkAt_lt _ _ _) (by norm_num)
  obtain rfl : opened = .ok fh := hopen
  obtain rfl : attributes = .ok attr := hattr
  refine ⟨some (attrValue fsid attr), readEof offset (readData answer n).length (some attr),
    ⟨readData answer n, length_readData_le answer n⟩, s₄, ?_, hchunk, ?_⟩
  · obtain ⟨result, buf, hbuf⟩ := answer
    obtain rfl : result = .ok n := hresult
    simp only [serveRead, FsProg.run_openFile_bind, hs₁, FsProg.run_readAt_bind, hs₂,
      releaseLogging, Prog.bind_assoc, FsProg.run_release_bind, hs₃, pure_eq, ret_bind,
      FsProg.run_getattr_bind, hs₄]
    rfl
  · exact (readEof_iff hlt).trans (by rw [hsize])

variable (o : Overflow) (fuel : Nat) (handle : FileHandle3) (config : Config) {φ : Type}
  (flag : Handler FlagSig φ)

/-- One `READ3` call and what the client decodes from its reply. -/
theorem run_readMessage (h : ServesFile fs ino content) {body : Bytes} {xid : UInt32}
    {offset : UInt64} {count : UInt32}
    (hasks : Asks body xid (.read (handle.encode ino) offset count)) (s : σ) (f : φ) :
    ∃ reply attr eof data s',
      (handleMessage o fuel handle config body).run (fs.sum flag) (s, f) = (.ok reply, s', f) ∧
      clientResult read3res xid reply =
        some (.inl (attr, UInt32.ofNat data.val.length, eof, data)) ∧
      data.val = chunkAt content offset count ∧
      (eof = true ↔ content.length ≤ offset.toNat + data.val.length) := by
  obtain ⟨attr, eof, data, s', hrun, hdata, heof⟩ := run_serveRead h 1 offset count s
  have hino : (Request.read (handle.encode ino) offset count).handle?.bind handle.resolve =
      some ino := handle.resolve_encode ino
  have hclient := clientResult_render handle xid (.read (handle.encode ino) offset count)
    (.inl (attr, UInt32.ofNat data.val.length, eof, data))
  refine ⟨_, postOpAttr.map handle.encode attr, eof, data, s', ?_, hclient, hdata, heof⟩
  rw [handleMessage_of_asks o fuel handle config hasks hino, run_bind_ret, run_inl]
  simp only [serveAt, hrun]
  rfl

end Serve

/-! ## The client -/

/-- A client in the middle of a file: where it reads next, the data it got, whether it has
seen the end, and the server's environment. -/
structure ReadClient (σ : Type) where
  offset : UInt64
  chunks : List Bytes
  done : Bool
  env : σ

section Client

variable {σ : Type} (o : Overflow) (fuel : Nat) (handle : FileHandle3) (config : Config)
  (env : Handler ServerSig σ)

/-- Send one call, append the data of the reply, advance by its count. -/
def ReadClient.step (xid : UInt32) (body : Bytes) (c : ReadClient σ) : Option (ReadClient σ) :=
  if c.done then some c
  else match (handleMessage o fuel handle config body).run env c.env with
    | (.error _, _) => none
    | (.ok reply, s) =>
      match clientResult read3res xid reply with
      | some (.inl (_, n, eof, data)) =>
        some ⟨c.offset + n.toUInt64, c.chunks ++ [data.val], eof, s⟩
      | _ => none

/-- The client after `k` calls, where the `k`-th asks for `counts k` bytes in the words of
`message k`. -/
def ReadClient.after (xid : Nat → UInt32) (message : Nat → UInt64 → UInt32 → Bytes)
    (counts : Nat → UInt32) (s : σ) : Nat → Option (ReadClient σ)
  | 0 => some ⟨0, [], false, s⟩
  | k + 1 => do
    let c ← after xid message counts s k
    c.step o fuel handle config env (xid k) (message k c.offset (counts k))

end Client

/-- What holds after `k` calls: the client has a prefix of the file, at least one byte for
each call as long as it goes on, and all of it once it has stopped. -/
structure ReadInv {σ : Type} (content : Bytes) (k : Nat) (c : ReadClient σ) : Prop where
  chunks : c.chunks.flatten = content.take c.offset.toNat
  offset_le : c.offset.toNat ≤ content.length
  going : c.done = false →
    k ≤ c.offset.toNat ∧ (c.offset.toNat = 0 ∨ c.offset.toNat < content.length)
  stopped : c.done = true → c.offset.toNat = content.length
  nonempty : content ≠ [] → [] ∉ c.chunks

section Steps

variable {σ φ : Type} {fs : ReadOnlyFs σ} {ino : Ino} {content : Bytes} (o : Overflow) (fuel : Nat)
  (handle : FileHandle3) (config : Config) (flag : Handler FlagSig φ)

/-- One call keeps the invariant. -/
theorem readInv_step (h : ServesFile fs ino content) {k : Nat} {c : ReadClient (σ × φ)}
    (hc : ReadInv content k c) {body : Bytes} {xid count : UInt32} (hcount : count ≠ 0)
    (hasks : Asks body xid (.read (handle.encode ino) c.offset count)) :
    ∃ c', c.step o fuel handle config (fs.sum flag) xid body = some c' ∧
      ReadInv content (k + 1) c' := by
  by_cases hdone : c.done = true
  · exact ⟨c, if_pos hdone, hc.chunks, hc.offset_le, fun hgo => by simp [hdone] at hgo,
      hc.stopped, hc.nonempty⟩
  obtain ⟨reply, attr, eof, data, s', hrun, hclient, hdata, heof⟩ :=
    run_readMessage o fuel handle config flag h hasks c.env.1 c.env.2
  obtain ⟨hk, hstart⟩ := hc.going (by simpa using hdone)
  have hle := hc.offset_le
  have hlen := length_chunkAt content c.offset count
  have hlt := length_chunkAt_lt content c.offset count
  have hsize := h.size_lt
  have hpos : 0 < count.toNat := Nat.pos_of_ne_zero fun h0 => hcount (UInt32.toNat_inj.mp h0)
  have hrtmax : 0 < rtmax.toNat := by decide
  have hpre : data.val <+: content.drop c.offset.toNat := by
    rw [hdata]
    exact List.take_prefix _ _
  rw [← hdata] at hlen hlt
  have hn : (UInt32.ofNat data.val.length).toUInt64.toNat = data.val.length := by
    rw [UInt32.toNat_toUInt64]
    exact UInt32.toNat_ofNat_of_lt' hlt
  have hoffset : (c.offset + (UInt32.ofNat data.val.length).toUInt64).toNat =
      c.offset.toNat + data.val.length := by
    rw [toNat_add_of_lt (by rw [hn]; omega), hn]
  refine ⟨⟨c.offset + (UInt32.ofNat data.val.length).toUInt64, c.chunks ++ [data.val], eof,
    (s', c.env.2)⟩, ?_, ?_, ?_, ?_, ?_, ?_⟩
  · simp only [ReadClient.step, if_neg hdone]
    rw [show c.env = (c.env.1, c.env.2) from rfl, hrun]
    simp only [hclient]
  · simp only [List.flatten_append, List.flatten_cons, List.flatten_nil, List.append_nil, hoffset,
      hc.chunks]
    rw [List.take_add, ← List.prefix_iff_eq_take.mp hpre]
  · simp only [hoffset]
    omega
  · intro hgo
    have hmore : ¬ content.length ≤ c.offset.toNat + data.val.length := by
      rw [← heof]
      simpa using hgo
    simp only [hoffset]
    omega
  · intro hend
    have := heof.mp hend
    simp only [hoffset]
    omega
  · intro hne hmem
    have hcontent : 0 < content.length := List.length_pos_iff.mpr hne
    rcases List.mem_append.mp hmem with hmem | hmem
    · exact hc.nonempty hne hmem
    · have := congrArg List.length (List.mem_singleton.mp hmem)
      simp only [List.length_nil] at this
      omega

/-- The client never gets stuck, and the invariant holds after every number of calls. -/
theorem readInv_after (h : ServesFile fs ino content) {xid : Nat → UInt32}
    {message : Nat → UInt64 → UInt32 → Bytes} {counts : Nat → UInt32}
    (hasks : ∀ k offset, Asks (message k offset (counts k)) (xid k)
      (.read (handle.encode ino) offset (counts k)))
    (hcounts : ∀ k, counts k ≠ 0) (s : σ × φ) (k : Nat) :
    ∃ c, ReadClient.after o fuel handle config (fs.sum flag) xid message counts s k = some c ∧
      ReadInv content k c := by
  induction k with
  | zero => exact ⟨_, rfl, by simp, by simp, by simp, by simp, by simp⟩
  | succ k ih =>
    obtain ⟨c, hafter, hc⟩ := ih
    obtain ⟨c', hstep, hc'⟩ := readInv_step o fuel handle config flag h hc (hcounts k)
      (hasks k c.offset)
    exact ⟨c', by rw [ReadClient.after, hafter]; exact hstep, hc'⟩

/-- Reading a file from start to end. Whatever positive amounts the client asks for, it
gets non-empty pieces, sees the end after at most one call more than the file has bytes,
and then has the content. And at every offset a reply says `eof` exactly when it reaches
the end of the file. -/
theorem sequential_read_reproduces_file (h : ServesFile fs ino content) {xid : Nat → UInt32}
    {message : Nat → UInt64 → UInt32 → Bytes}
    (hasks : ∀ k offset count,
      Asks (message k offset count) (xid k) (.read (handle.encode ino) offset count))
    (s : σ × φ) :
    (∀ counts : Nat → UInt32, (∀ k, counts k ≠ 0) →
      ∃ c, ReadClient.after o fuel handle config (fs.sum flag) xid message counts s
          (content.length + 1) = some c ∧
        c.done = true ∧ c.chunks.flatten = content ∧ (content ≠ [] → [] ∉ c.chunks)) ∧
    ∀ offset count, ∃ reply attr n eof data s',
      (handleMessage o fuel handle config (message 0 offset count)).run (fs.sum flag) s =
        (.ok reply, s') ∧
      clientResult read3res (xid 0) reply = some (.inl (attr, n, eof, data)) ∧
      n.toNat = data.val.length ∧ (eof = true ↔ content.length ≤ offset.toNat + n.toNat) := by
  refine ⟨fun counts hcounts => ?_, fun offset count => ?_⟩
  · obtain ⟨c, hafter, hc⟩ := readInv_after o fuel handle config flag h
      (fun k offset => hasks k offset (counts k)) hcounts s (content.length + 1)
    have hdone : c.done = true := by
      by_contra hgo
      have := (hc.going (by simpa using hgo)).1
      have := hc.offset_le
      omega
    refine ⟨c, hafter, hdone, ?_, hc.nonempty⟩
    rw [hc.chunks, hc.stopped hdone, List.take_length]
  · obtain ⟨reply, attr, eof, data, s', hrun, hclient, hdata, heof⟩ :=
      run_readMessage o fuel handle config flag h (hasks 0 offset count) s.1 s.2
    have hn : (UInt32.ofNat data.val.length).toNat = data.val.length := by
      rw [hdata]
      exact UInt32.toNat_ofNat_of_lt' (length_chunkAt_lt _ _ _)
    exact ⟨reply, attr, _, eof, data, _, hrun, hclient, hn, by rw [hn]; exact heof⟩

end Steps

theorem servesFile_memFs {m : MemFs} {ino : Ino} {data : Bytes}
    (hnode : m.nodes ino = some (.file data)) (hsize : data.length < 2 ^ 64) :
    ServesFile m.handler ino data := by
  have hfile : m.node ino = .ok (.file data) := by
    rw [MemFs.node, hnode]
    rfl
  refine ⟨hsize, fun s => ⟨⟨s.nextHandle⟩, ?_, fun offset buf => ?_⟩, fun s => ?_⟩
  · simp only [MemFs.handler, MemFs.openFile, hfile]
    rfl
  · have hopen : (m.handler (.openFile ino) s).2 =
        ⟨(⟨s.nextHandle⟩, ino) :: s.openFiles, s.nextHandle + 1⟩ := by
      simp [MemFs.handler, MemFs.openFile, hfile]
    have hlen : ((data.drop offset.toNat).take buf.length).length =
        min buf.length (data.length - offset.toNat) := by
      rw [List.length_take, List.length_drop]
    rw [hopen]
    refine ⟨?_, ?_⟩
    · simp [MemFs.handler, MemFs.readAt, hfile]
    · simp only [MemFs.handler, MemFs.readAt, List.lookup_cons, beq_self_eq_true, hfile]
      rw [← hlen, List.take_left]
  · refine ⟨FileAttr.file m.uid m.gid ino (.ofNat data.length), ?_, toNat_ofNat_u64 hsize⟩
    simp only [MemFs.handler, MemFs.attr, hfile]
    rfl

/-- Reading the example's first file five bytes at a time. -/
theorem sequential_read_reproduces_file_hello :
    ∃ c, ReadClient.after .wraps 0 ⟨List.replicate 16 0, rfl⟩ localConfig memServer (fun _ => 7)
        (fun _ => readMessage3 7 (FileHandle3.encode ⟨List.replicate 16 0, rfl⟩ ⟨2⟩)) (fun _ => 5)
        (.new, false) 22 = some c ∧
      c.done = true ∧ c.chunks.flatten = MemFs.text "Hello from anymount!\n" := by
  obtain ⟨c, hafter, hdone, hcontent, -⟩ := (@sequential_read_reproduces_file _ _ _ ⟨2⟩ _ .wraps 0
    ⟨List.replicate 16 0, rfl⟩ localConfig (fun _ (f : Bool) => (f, f))
    (servesFile_memFs (m := .new 0 0) rfl (by decide)) (fun _ => 7) _
    (fun _ => asks_readMessage3 7 (by decide)) (.new, false)).1 (fun _ => 5)
    fun _ => by decide
  exact ⟨c, hafter, hdone, hcontent⟩

end Anymount.Nfs
