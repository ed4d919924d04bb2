import Anymount.Nfs.Served

/-!
# The modelled program serves and renders

Each procedure of `NfsProto` equals the secret-free server followed by the rendering of its
value, as programs: the same trait calls, and the same reply for every sequence of answers.
-/
namespace Anymount.Nfs

open Library Library.Xdr Library.Prog Rfc1813 NfsProto

/-- The reply body of a value. -/
def render (ctx : Ctx) (req : Request Bytes) (v : req.ty.Value Ino) : ProcOutcome :=
  .success ⟨req.ty.encode ctx.handle.encode v⟩

/-- Serve a decoded call and render the value. -/
def answer (o : Overflow) (fuel : Nat) (ctx : Ctx) : Decoded Bytes → FsProg ProcOutcome
  | .procUnavail => pure .procUnavail
  | .garbageArgs => pure .garbageArgs
  | .call req => do
    let v ← serve ctx.fsid o fuel ctx.handle.resolve req
    pure (render ctx req v)

/-! ## Attributes -/

section Attributes

variable (enc : Ino → Bytes) (w : Writer) (fsid : UInt64)

theorem buf_writeNfstime3 (t : SystemTime) :
    (writeNfstime3 w t).buf = w.buf ++ nfstime3.encode enc (timeValue t) := by
  simp [writeNfstime3, timeValue, Ty.encode]

theorem buf_writeFattr3 (attr : FileAttr) :
    (writeFattr3 w attr fsid).buf = w.buf ++ fattr3.encode enc (attrValue fsid attr) := by
  simp only [writeFattr3, buf_writeNfstime3 enc, Writer.buf_writeU32, Writer.buf_writeU64,
    attrValue, Ty.struct, Ty.encode, List.append_assoc]

theorem buf_writePostOpAttrOk (attr : FileAttr) :
    (writePostOpAttrOk w attr fsid).buf =
      w.buf ++ postOpAttr.encode enc (some (attrValue fsid attr)) := by
  simp only [writePostOpAttrOk, buf_writeFattr3 enc, Writer.buf_writeBool, List.append_assoc]
  rfl

theorem buf_writePostOpAttrAbsent :
    (writePostOpAttrAbsent w).buf = w.buf ++ postOpAttr.encode enc none := rfl

theorem writePostOpAttrBestEffort_eq (ctx : Ctx) (ino : Ino) :
    writePostOpAttrBestEffort w ctx ino =
      bestEffort ctx.fsid ino >>= fun a => pure ⟨w.buf ++ postOpAttr.encode enc a⟩ := by
  unfold writePostOpAttrBestEffort bestEffort
  rw [Prog.bind_assoc]
  refine congrArg _ (funext fun r => ?_)
  rcases r with e | attr
  · exact congrArg ret (Writer.ext (buf_writePostOpAttrAbsent enc w))
  · exact congrArg ret (Writer.ext (buf_writePostOpAttrOk enc w ctx.fsid attr))

end Attributes

theorem failReply_eq {resok : Ty} (ctx : Ctx) (ino : Ino) (status : FailStatus) :
    failReply ctx ino status.val = failValue ctx.fsid ino status >>= fun v =>
      pure (.success ⟨(result resok postOpAttr).encode ctx.handle.encode v⟩) := by
  rw [failReply, writePostOpAttrBestEffort_eq ctx.handle.encode, failValue]
  simp only [Prog.bind_assoc]
  rfl

/-! ## Procedures -/

section Procedures

variable (o : Overflow) (fuel : Nat) (ctx : Ctx) (r : Reader)

/-- Replies are equal when their bytes are. -/
theorem ret_success {w w' : Writer} (h : w.buf = w'.buf) :
    (ret (.success w) : FsProg ProcOutcome) = ret (.success w') := by
  rw [Writer.ext h]

theorem answer_call (req : Request Bytes) :
    answer o fuel ctx (.call req) =
      match req.handle?.bind ctx.handle.resolve with
      | some ino => serveAt ctx.fsid o fuel ino req >>= fun v => pure (render ctx req v)
      | none => pure (render ctx req (serveUnresolved req)) := by
  cases h : req.handle?.bind ctx.handle.resolve with
  | none => simp only [answer, serve, h, pure_eq, ret_bind]
  | some ino => simp only [answer, serve, h]

theorem getattr_eq :
    NfsProto.getattr r ctx = answer o fuel ctx (withHandle r fun _ => some (.getattr ())) := by
  unfold NfsProto.getattr withHandle
  rcases r.readOpaqueVar 64 with _ | ⟨fh, r⟩
  · rfl
  simp only [answer_call, Request.map, Request.handle?, Option.bind_some]
  cases ctx.handle.resolve fh with
  | none => rfl
  | some ino =>
    simp only [serveAt, Prog.bind_assoc]
    refine bind_congr fun a => ?_
    rcases a with e | attr
    · rfl
    · exact ret_success (buf_writeFattr3 ctx.handle.encode _ _ attr)

theorem lookup_eq :
    NfsProto.lookup r ctx = answer o fuel ctx (withHandle r fun r =>
      (r.readString 1024).map fun a => .lookup () a.1) := by
  unfold NfsProto.lookup withHandle
  rcases r.readOpaqueVar 64 with _ | ⟨fh, r⟩
  · rfl
  dsimp only
  rcases r.readString 1024 with _ | ⟨name, r⟩
  · rfl
  simp only [answer_call, Request.map, Request.handle?, Option.bind_some, Option.map_some]
  cases ctx.handle.resolve fh with
  | none => rfl
  | some ino =>
    simp only [serveAt, Prog.bind_assoc]
    refine bind_congr fun a => ?_
    rcases a with e | attr
    · exact failReply_eq ctx ino (.of e)
    · simp only [writePostOpAttrBestEffort_eq ctx.handle.encode, Prog.bind_assoc]
      refine bind_congr fun dirAttr => ret_success ?_
      simp [buf_writePostOpAttrOk ctx.handle.encode, Ty.encode, nfs3Ok]

theorem access_eq :
    NfsProto.access r ctx = answer o fuel ctx (withHandle r fun r =>
      r.readU32.map fun a => .access () a.1) := by
  unfold NfsProto.access withHandle
  rcases r.readOpaqueVar 64 with _ | ⟨fh, r⟩
  · rfl
  dsimp only
  rcases r.readU32 with _ | ⟨requested, r⟩
  · rfl
  simp only [answer_call, Request.map, Request.handle?, Option.bind_some, Option.map_some]
  cases ctx.handle.resolve fh with
  | none => rfl
  | some ino =>
    simp only [serveAt, Prog.bind_assoc]
    refine bind_congr fun a => ?_
    rcases a with e | attr
    · rfl
    · refine ret_success ?_
      simp [buf_writePostOpAttrOk ctx.handle.encode, Ty.encode, nfs3Ok]

theorem buf_writePostOpAttr (w : Writer) (attr : Option FileAttr) :
    (writePostOpAttr w ctx attr).buf =
      w.buf ++ postOpAttr.encode ctx.handle.encode (attr.map (attrValue ctx.fsid)) := by
  cases attr with
  | none => rfl
  | some attr => exact buf_writePostOpAttrOk ctx.handle.encode w ctx.fsid attr

theorem readOpened_eq (ino : Ino) (fh : FileHandle) (offset : UInt64) (count : UInt32) :
    readOpened ctx ino fh offset count = (do
      let answer ← FsProg.readAt fh offset (List.replicate count.toNat 0)
      releaseLogging fh
      match answer.result with
      | .error e => failValue ctx.fsid ino (.of e)
      | .ok n =>
        let attr := (← FsProg.getattr ino).toOption
        let data := readData answer n
        pure (.inl (attr.map (attrValue ctx.fsid), UInt32.ofNat data.length,
          readEof offset data.length attr, ⟨data, length_readData_le answer n⟩)) :
      FsProg (read3res.Value Ino)) >>= fun v =>
        pure (.success ⟨read3res.encode ctx.handle.encode v⟩) := by
  rw [readOpened, Prog.bind_assoc]
  refine bind_congr fun answer => ?_
  obtain ⟨result, buf, hbuf⟩ := answer
  rcases result with e | n
  · simp only [Prog.bind_assoc]
    exact bind_congr fun _ => failReply_eq ctx ino (.of e)
  · simp only [Prog.bind_assoc]
    refine bind_congr fun _ => bind_congr fun a => ret_success ?_
    simp [buf_writePostOpAttr, Ty.encode, nfs3Ok, readData]

theorem read_eq :
    NfsProto.read r ctx = answer o fuel ctx (withHandle r readArgs) := by
  unfold NfsProto.read withHandle readArgs
  rcases r.readOpaqueVar 64 with _ | ⟨fh, r⟩
  · rfl
  dsimp only
  rcases r.readU64 with _ | ⟨offset, r⟩
  · rfl
  dsimp only [Option.bind_eq_bind, Option.bind_some]
  rcases r.readU32 with _ | ⟨count, r⟩
  · rfl
  simp only [Option.pure_def, answer_call, Request.map, Request.handle?, Option.bind_some]
  cases ctx.handle.resolve fh with
  | none => rfl
  | some ino =>
    simp only [serveAt, serveRead]
    rw [Prog.bind_assoc]
    refine bind_congr fun a => ?_
    rcases a with e | fh
    · exact failReply_eq ctx ino (.of e)
    · exact readOpened_eq ctx ino fh offset _

theorem fsstat_eq :
    NfsProto.fsstat r ctx = answer o fuel ctx (withHandle r fun _ => some (.fsstat ())) := by
  unfold NfsProto.fsstat withHandle
  rcases r.readOpaqueVar 64 with _ | ⟨fh, r⟩
  · rfl
  simp only [answer_call, Request.map, Request.handle?, Option.bind_some]
  cases ctx.handle.resolve fh with
  | none => rfl
  | some ino =>
    simp only [serveAt, serveStatfs, Prog.bind_assoc]
    refine bind_congr fun a => ?_
    rcases a with e | s
    · exact failReply_eq ctx ino (.of e)
    · simp only [writePostOpAttrBestEffort_eq ctx.handle.encode, Prog.bind_assoc]
      refine bind_congr fun attr => ret_success ?_
      simp [Ty.encode, nfs3Ok]

theorem fsinfo_eq :
    NfsProto.fsinfo r ctx = answer o fuel ctx (withHandle r fun _ => some (.fsinfo ())) := by
  unfold NfsProto.fsinfo withHandle
  rcases r.readOpaqueVar 64 with _ | ⟨fh, r⟩
  · rfl
  simp only [answer_call, Request.map, Request.handle?, Option.bind_some]
  cases ctx.handle.resolve fh with
  | none => rfl
  | some ino =>
    simp only [serveAt, writePostOpAttrBestEffort_eq ctx.handle.encode, Prog.bind_assoc]
    refine bind_congr fun attr => ret_success ?_
    simp [Ty.encode, nfs3Ok]

theorem pathconf_eq :
    NfsProto.pathconf r ctx = answer o fuel ctx (withHandle r fun _ => some (.pathconf ())) := by
  unfold NfsProto.pathconf withHandle
  rcases r.readOpaqueVar 64 with _ | ⟨fh, r⟩
  · rfl
  simp only [answer_call, Request.map, Request.handle?, Option.bind_some]
  cases ctx.handle.resolve fh with
  | none => rfl
  | some ino =>
    simp only [serveAt, writePostOpAttrBestEffort_eq ctx.handle.encode, Prog.bind_assoc]
    refine bind_congr fun attr => ret_success ?_
    simp [Ty.encode, nfs3Ok]

/-! ## Directories

The two packing sinks run in step: one holds rendered entries and the other their values,
with the same budget left. -/

theorem encodeDirent_eq (plus : Bool) (ino : Ino) (name : OsString) (cookie : UInt64) :
    encodeDirent ctx ino name cookie plus = extraValue ctx.fsid plus ino >>= fun extra =>
      pure ⟨encodeBool true ++ (beU64 ino.number ++ (encodeOpaque name ++ (beU64 cookie ++
        (direntExtra plus).encode ctx.handle.encode extra)))⟩ := by
  cases plus with
  | false =>
    refine congrArg ret (Writer.ext ?_)
    simp [Ty.encode]
  | true =>
    simp only [encodeDirent, if_true, extraValue, Prog.bind_assoc]
    refine bind_congr fun a => ?_
    rcases a with e | attr
    · refine congrArg ret (Writer.ext ?_)
      simp [Ty.encode]
    · refine congrArg ret (Writer.ext ?_)
      simp [buf_writeFattr3 ctx.handle.encode, Ty.encode]

/-- The budget left is the same, and the packed bytes render the packed values. Every entry
takes some of the budget, so neither counter leaves its range. -/
structure SamePacking (plus : Bool) (st : Packing) (st' : Packed plus) : Prop where
  entries : st.entries.buf = encodeItems ((dirent plus).encode ctx.handle.encode) st'.entries
  remaining : st.remaining.toInt = st'.remaining
  packed : st.packed.toNat = st'.entries.length
  nonneg : 0 ≤ st'.remaining
  budget : st'.remaining + st'.entries.length < 2 ^ 32

theorem length_dirent_eq {plus : Bool} (v : (dirent plus).Value Ino) :
    (encodeBool true ++ (dirent plus).encode ctx.handle.encode v).length = direntSize v := by
  have h := (dirent plus).length_encode_congr (show ∀ ino : Ino,
    (ctx.handle.encode ino).length = (List.replicate 24 0 : Bytes).length by simp) v
  rw [List.length_append, h, encodeBool, length_beU32, direntSize]

/-- What is taken off the budget is exact, whatever the build does on overflow. -/
theorem subI64_remaining (remaining : Int64) {n : Nat} (hle : (n : Int) ≤ remaining.toInt)
    (hlt : remaining.toInt < 2 ^ 32) :
    (subI64 o remaining (Int64.ofNat n) : FsProg Int64) = ret (remaining - Int64.ofNat n) ∧
      (remaining - Int64.ofNat n).toInt = remaining.toInt - n := by
  have hn : (Int64.ofNat n).toInt = n := Int64.toInt_ofNat_of_lt (by omega)
  have hin : InI64 (remaining.toInt - (Int64.ofNat n).toInt) := by
    rw [hn]
    exact ⟨by omega, by omega⟩
  exact ⟨subI64_of_inI64 o hin, by rw [toInt_sub_of_inI64 hin, hn]⟩

theorem addU64_packed (packed : UInt64) (hlt : packed.toNat < 2 ^ 32) :
    (addU64 o packed 1 : FsProg UInt64) = ret (packed + 1) ∧
      (packed + 1).toNat = packed.toNat + 1 := by
  have hsum : packed.toNat + (1 : UInt64).toNat < 2 ^ 64 := by
    rw [UInt64.toNat_one]
    omega
  exact ⟨addU64_of_lt o hsum, toNat_add_of_lt hsum⟩

theorem inStep_packEntry (plus : Bool) :
    Readdir.InStep (SamePacking ctx plus) (packEntry o ctx plus) (packValue ctx.fsid plus) := by
  intro e st st' h
  have hnonneg := h.nonneg
  have hbudget := h.budget
  rw [packEntry, encodeDirent_eq, Prog.bind_assoc]
  refine (Related.refl (extraValue ctx.fsid plus e.ino) fun _ => rfl).bind ?_
  rintro extra _ rfl
  by_cases hname : e.name.length ≤ (0xFFFFFFFF : UInt32).toNat
  · let v : (dirent plus).Value Ino := (e.ino.number, ⟨e.name, hname⟩, e.cookie, extra)
    have hlen : (encodeBool true ++ (beU64 e.ino.number ++ (encodeOpaque e.name ++
        (beU64 e.cookie ++ (direntExtra plus).encode ctx.handle.encode extra)))).length =
          direntSize v := length_dirent_eq ctx v
    simp only [pure_eq, ret_bind, dif_pos hname, Writer.len, hlen, h.remaining]
    by_cases hfull : (direntSize v : Int) > st'.remaining
    · rw [if_pos hfull, if_pos hfull]
      exact .ret ⟨rfl, h⟩
    · have hpos : 4 ≤ direntSize v := Nat.le_add_right ..
      obtain ⟨hsub, hremaining⟩ := subI64_remaining o st.remaining (n := direntSize v)
        (by rw [h.remaining]; omega) (by rw [h.remaining]; omega)
      obtain ⟨hadd, hpacked⟩ := addU64_packed o st.packed (by rw [h.packed]; omega)
      rw [if_neg hfull, if_neg hfull, hsub, ret_bind, hadd, ret_bind]
      refine .ret ⟨rfl, ?_, ?_, ?_, ?_, ?_⟩
      · simp only [Writer.buf_extendFrom, h.entries, encodeItems, List.map_append,
          List.flatten_append, List.map_cons, List.map_nil, List.flatten_cons, List.flatten_nil,
          List.append_nil]
        rfl
      · rw [hremaining, h.remaining]
      · simp [hpacked, h.packed]
      · show 0 ≤ st'.remaining - (direntSize v : Int)
        omega
      · show st'.remaining - (direntSize v : Int) + ((st'.entries ++ [v]).length : Nat) < 2 ^ 32
        rw [List.length_append, List.length_singleton]
        omega
  · -- The rendered entry is longer than any budget, so both sinks are full.
    have hlong : (2 : Int) ^ 32 ≤
        ((encodeBool true ++ (beU64 e.ino.number ++ (encodeOpaque e.name ++ (beU64 e.cookie ++
          (direntExtra plus).encode ctx.handle.encode extra)))).length : Int) := by
      simp only [encodeOpaque, encodeFixed, List.length_append]
      simp at hname
      omega
    simp only [pure_eq, ret_bind, dif_neg hname, Writer.len, h.remaining]
    rw [if_pos (by omega)]
    exact .ret ⟨rfl, h⟩

/-- The reply of `readdir_common` to the list that was built. -/
def listingReply (dir : Ino) : FsResult DirList → FsProg ProcOutcome
  | .ok list => do
    if list.packed = 0 ∧ ¬ list.eof then failReply ctx dir nfs3errToosmall
    else
      let w ← writePostOpAttrBestEffort (Writer.new.writeU32 nfs3Ok) ctx dir
      pure (.success (w |>.writeOpaqueFixed ctx.handle.cookieverf |>.extendFrom list.entries
        |>.writeBool false |>.writeBool list.eof))
  | .error e => failReply ctx dir e.toNfsstat3

/-- `readdir_common` after the arguments were read and the handle resolved. -/
def readdirAt (plus : Bool) (dir : Ino) (startCookie : UInt64) (budget : UInt32) :
    FsProg ProcOutcome := do
  listingReply ctx dir
    (← buildDirlist o fuel ctx dir startCookie (saturatingSub budget dirlistOverhead) plus)

theorem readdirAt_eq (plus : Bool) (dir : Ino) (fh : Bytes) (cookie : UInt64) (budget : UInt32) :
    readdirAt o fuel ctx plus dir cookie budget =
      serveAt ctx.fsid o fuel dir (.readdir plus fh cookie budget) >>= fun v =>
        pure (render ctx (.readdir plus fh cookie budget) v) := by
  have hbudget : ((saturatingSub budget dirlistOverhead).toNat : Int) < 2 ^ 32 := by
    have := (saturatingSub budget dirlistOverhead).toNat_lt
    omega
  have hstart : SamePacking ctx plus
      ⟨.new, Int64.ofNat (saturatingSub budget dirlistOverhead).toNat, 0⟩
      ⟨[], (saturatingSub budget dirlistOverhead).toNat⟩ :=
    ⟨rfl, Int64.toInt_ofNat_of_lt (by omega), rfl, by simp, by simpa using hbudget⟩
  simp only [readdirAt, serveAt, serveReaddir, buildDirlist, Prog.bind_assoc]
  refine (Readdir.related_emit o (inStep_packEntry o ctx plus) fuel dir cookie .synthesize
    hstart).bind_eq ?_
  rintro ⟨result, st⟩ ⟨_, st'⟩ ⟨rfl, h⟩
  rcases result with e | eof
  · exact failReply_eq ctx dir (.of e)
  have hempty : st.packed = 0 ↔ st'.entries = [] := by
    rw [← UInt64.toNat_inj, h.packed, UInt64.toNat_zero, List.length_eq_zero_iff]
  simp only [Except.map, pure_eq, ret_bind, listingReply, hempty]
  by_cases hfull : st'.entries = [] ∧ ¬ eof
  · rw [if_pos hfull, if_pos hfull]
    exact failReply_eq ctx dir .toosmall
  · rw [if_neg hfull, if_neg hfull]
    simp only [writePostOpAttrBestEffort_eq ctx.handle.encode, Prog.bind_assoc]
    have hlist : (Ty.list (dirent plus)).encode ctx.handle.encode st'.entries =
        st.entries.buf ++ encodeBool false := by
      rw [Ty.encode, ← h.entries]
    refine bind_congr fun attr => ret_success ?_
    show _ = beU32 0 ++ (postOpAttr.encode ctx.handle.encode attr ++ (encodeFixed cookieverfBytes ++
      ((Ty.list (dirent plus)).encode ctx.handle.encode st'.entries ++ encodeBool eof)))
    rw [hlist]
    simp [nfs3Ok, FileHandle3.cookieverf]

theorem readdirCommon_eq (plus : Bool) :
    readdirCommon o fuel r ctx plus =
      answer o fuel ctx (withHandle r (readdirArgs plus)) := by
  unfold readdirCommon withHandle readdirArgs
  rcases r.readOpaqueVar 64 with _ | ⟨fh, r⟩
  · rfl
  dsimp only
  rcases r.readU64 with _ | ⟨cookie, r⟩
  · rfl
  dsimp only [Option.bind_eq_bind, Option.bind_some]
  rcases r.readOpaqueFixed 8 with _ | ⟨verf, r⟩
  · rfl
  dsimp only [Option.bind_some]
  rcases readBudget r plus with _ | budget
  · rfl
  simp only [Option.pure_def, answer_call, Request.map, Request.handle?, Option.bind_some]
  cases ctx.handle.resolve fh with
  | none => rfl
  | some dir =>
    refine Eq.trans (bind_congr fun list => ?_) (readdirAt_eq o fuel ctx plus dir fh cookie budget)
    cases list <;> rfl

/-- The program decodes, serves and renders: the secret enters only where handles are
resolved and rendered. -/
theorem dispatch_eq (proc : UInt32) :
    dispatch o fuel proc r ctx = answer o fuel ctx (decodeRequest proc r) := by
  unfold dispatch decodeRequest
  generalize proc.toNat = n
  match n with
  | 1 => exact getattr_eq o fuel ctx r
  | 3 => exact lookup_eq o fuel ctx r
  | 4 => exact access_eq o fuel ctx r
  | 6 => exact read_eq o fuel ctx r
  | 16 => exact readdirCommon_eq o fuel ctx r false
  | 17 => exact readdirCommon_eq o fuel ctx r true
  | 18 => exact fsstat_eq o fuel ctx r
  | 19 => exact fsinfo_eq o fuel ctx r
  | 20 => exact pathconf_eq o fuel ctx r
  | 0 | 2 | 5 | 7 | 8 | 9 | 10 | 11 | 12 | 13 | 14 | 15 | 21 => rfl
  | _ + 22 => rfl

end Procedures

end Anymount.Nfs
