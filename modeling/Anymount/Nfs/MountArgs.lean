import Anymount.Nfs.Xdr

/-!
# The `mount(2)` argument buffer

What the local-socket mount hands to the kernel: a header with a bitmap of attribute numbers,
then the value of each attribute in ascending order. The encoder writes the values by hand and
computes the bitmap separately. The reader on the other side goes by the bitmap alone; it is
stated here with the layouts the source documents, and recovers the arguments.
-/
namespace Anymount.Nfs.MountArgs

open Library Library.Xdr Library.Parser

/-! ## Encoding -/

def argsversionXdr : UInt32 := 88
def xdrargsVersion0 : UInt32 := 0
def mattrBitmapLen : UInt32 := 2
def mflagBitmapLen : UInt32 := 1

/-- Bytes before the first attribute value. -/
def headerLen : Nat := 7 * 4

/-! Attribute numbers. -/

namespace Mattr

def flags : UInt32 := 0
def nfsVersion : UInt32 := 1
def socketType : UInt32 := 14
def requestTimeout : UInt32 := 17
def softRetryCount : UInt32 := 18
def fh : UInt32 := 20
def fsLocations : UInt32 := 21
def mntflags : UInt32 := 22
def mntfrom : UInt32 := 23
def localNfsPort : UInt32 := 29

end Mattr

/-! Positions of the flags that the buffer decides. -/

namespace Mflag

def soft : UInt32 := 0
def resvport : UInt32 := 2
def callumnt : UInt32 := 5

end Mflag

def mntRdonly : UInt32 := 0x00000001

/-- `"ticotsord"`. -/
def socketTypeLocal : Bytes := [116, 105, 99, 111, 116, 115, 111, 114, 100]

/-- A span of time. -/
structure Duration where
  secs : UInt64
  nanos : UInt32
  nanos_lt : nanos.toNat < 1000000000
  deriving DecidableEq

/-- What one local-socket mount needs, beyond the constants. Strings are their bytes. -/
structure LocalMountArgs where
  socketPath : Bytes
  rootHandle : Bytes
  label : Bytes
  requestTimeout : Duration
  softRetryCount : UInt32
  deriving DecidableEq

def bit (n : UInt32) : UInt32 := 1 <<< n

/-- The mount-table name, `<host>:<path>`. -/
def mntfrom (args : LocalMountArgs) : Bytes := args.socketPath ++ [58, 47] ++ args.label

/-- Which attributes the buffer sets, as two words. -/
def attrBitmap : UInt32 × UInt32 :=
  let set := [Mattr.flags, Mattr.nfsVersion, Mattr.socketType, Mattr.requestTimeout,
    Mattr.softRetryCount, Mattr.fh, Mattr.fsLocations, Mattr.mntflags, Mattr.mntfrom,
    Mattr.localNfsPort]
  let words : List UInt32 := set.foldl
    (fun words attr => words.modify (attr / 32).toNat (· ||| bit (attr % 32))) [0, 0]
  (words.getD 0 0, words.getD 1 0)

/-- The attribute values, one after the other. -/
def encodeValues (args : LocalMountArgs) : Writer :=
  let mask := bit Mflag.soft ||| bit Mflag.resvport ||| bit Mflag.callumnt
  Writer.new
    -- The flags: mask first, then value, each a one-word bitmap.
    |>.writeU32 mflagBitmapLen
    |>.writeU32 mask
    |>.writeU32 mflagBitmapLen
    |>.writeU32 (bit Mflag.soft)
    |>.writeU32 3
    |>.writeOpaqueVar socketTypeLocal
    |>.writeU32 args.requestTimeout.secs.toUInt32
    |>.writeU32 args.requestTimeout.nanos
    |>.writeU32 args.softRetryCount
    |>.writeOpaqueVar args.rootHandle
    -- One location, one server, one address, one path component; the zero words are empty
    -- per-server and per-location information.
    |>.writeU32 1
    |>.writeU32 1
    |>.writeOpaqueVar args.socketPath
    |>.writeU32 1
    |>.writeOpaqueVar args.socketPath
    |>.writeU32 0
    |>.writeU32 1
    |>.writeOpaqueVar args.label
    |>.writeU32 0
    |>.writeU32 mntRdonly
    |>.writeOpaqueVar (mntfrom args)
    |>.writeOpaqueVar args.socketPath

def encode (args : LocalMountArgs) : Bytes :=
  let values := (encodeValues args).intoBytes
  let (word0, word1) := attrBitmap
  (Writer.new
    |>.writeU32 argsversionXdr
    |>.writeU32 (UInt32.ofNat (headerLen + values.length))
    |>.writeU32 xdrargsVersion0
    |>.writeU32 mattrBitmapLen
    |>.writeU32 word0
    |>.writeU32 word1
    |>.writeU32 (UInt32.ofNat values.length)
    |>.writeOpaqueFixed values).intoBytes

/-! ## The reader's side -/

/-- A server of a location: its name, its addresses and further information. -/
structure FsServer where
  name : Bytes
  addresses : List Bytes
  info : Bytes
  deriving DecidableEq

/-- Where a filesystem is to be found: servers, the components of a path there, and further
information. -/
structure FsLocation where
  servers : List FsServer
  components : List Bytes
  info : Bytes
  deriving DecidableEq

/-- The value of an attribute. `flags` has two bitmaps, a mask and a value. -/
inductive AttrValue where
  | flags (mask value : List UInt32)
  | nfsVersion (v : UInt32)
  | socketType (netid : Bytes)
  | requestTimeout (secs nanos : UInt32)
  | softRetryCount (n : UInt32)
  | fh (handle : Bytes)
  | fsLocations (locations : List FsLocation)
  | mntflags (v : UInt32)
  | mntfrom (name : Bytes)
  | localNfsPort (path : Bytes)
  deriving DecidableEq

/-- Opaque data of any length that a word can express. -/
def opaqueData : Parser UInt8 Bytes := variable_ 0xFFFFFFFF

def fsServer : Parser UInt8 FsServer := do
  let name ← opaqueData
  let addresses ← array opaqueData
  let info ← opaqueData
  pure ⟨name, addresses, info⟩

def fsLocation : Parser UInt8 FsLocation := do
  let servers ← array fsServer
  let components ← array opaqueData
  let info ← opaqueData
  pure ⟨servers, components, info⟩

/-- The value of the attribute with a given number, in the kernel's layout. A number that is
not one of the buffer's has no layout here. -/
def attrLayout : Nat → Parser UInt8 AttrValue
  | 0 => do
    let mask ← array u32
    let value ← array u32
    pure (.flags mask value)
  | 1 => do
    let v ← u32
    pure (.nfsVersion v)
  | 14 => do
    let netid ← opaqueData
    pure (.socketType netid)
  | 17 => do
    let secs ← u32
    let nanos ← u32
    pure (.requestTimeout secs nanos)
  | 18 => do
    let n ← u32
    pure (.softRetryCount n)
  | 20 => do
    let handle ← opaqueData
    pure (.fh handle)
  | 21 => do
    let locations ← array fsLocation
    pure (.fsLocations locations)
  | 22 => do
    let v ← u32
    pure (.mntflags v)
  | 23 => do
    let name ← opaqueData
    pure (.mntfrom name)
  | 29 => do
    let path ← opaqueData
    pure (.localNfsPort path)
  | _ => fun _ => none

/-- Whether a bitmap has the bit of an attribute set. -/
def isSet (bitmap : List UInt32) (attr : Nat) : Bool :=
  bitmap.getD (attr / 32) 0 &&& (1 <<< UInt32.ofNat (attr % 32)) ≠ 0

/-- What the reader makes of a buffer: the lengths it declares, its bitmap, the attributes
by number, and how many bytes their values took up. -/
structure Decoded where
  totalLen : UInt32
  bitmap : List UInt32
  attrsLen : UInt32
  attributes : List (Nat × AttrValue)
  consumed : Nat

/-- Read the header and then the attributes whose bits are set, in ascending order. -/
def decode : Parser UInt8 Decoded := do
  let version ← u32
  check (version = 88)
  let totalLen ← u32
  let version ← u32
  check (version = 0)
  let bitmap ← array u32
  check (bitmap.length = 2)
  let attrsLen ← u32
  let attrs ← measured (fields (isSet bitmap) attrLayout (List.range 64))
  pure ⟨totalLen, bitmap, attrsLen, attrs.1, attrs.2⟩

/-- The arguments that a set of attributes was made from. -/
def arguments (attributes : List (Nat × AttrValue)) : Option LocalMountArgs :=
  match attributes.lookup 29, attributes.lookup 20, attributes.lookup 21, attributes.lookup 17,
    attributes.lookup 18 with
  | some (.localNfsPort socketPath), some (.fh rootHandle),
      some (.fsLocations [⟨_, [label], _⟩]), some (.requestTimeout secs nanos),
      some (.softRetryCount n) =>
    if h : nanos.toNat < 1000000000 then
      some ⟨socketPath, rootHandle, label, ⟨secs.toUInt64, nanos, h⟩, n⟩
    else none
  | _, _, _, _, _ => none

/-! ## Layouts recover values -/

def FsServer.bytes (s : FsServer) : Bytes :=
  encodeOpaque s.name ++ (encodeArray encodeOpaque s.addresses ++ encodeOpaque s.info)

def FsLocation.bytes (l : FsLocation) : Bytes :=
  encodeArray FsServer.bytes l.servers ++ (encodeArray encodeOpaque l.components ++
    encodeOpaque l.info)

namespace AttrValue

def number : AttrValue → Nat
  | flags _ _ => 0
  | nfsVersion _ => 1
  | socketType _ => 14
  | requestTimeout _ _ => 17
  | softRetryCount _ => 18
  | fh _ => 20
  | fsLocations _ => 21
  | mntflags _ => 22
  | mntfrom _ => 23
  | localNfsPort _ => 29

def bytes : AttrValue → Bytes
  | flags mask value => encodeArray beU32 mask ++ encodeArray beU32 value
  | nfsVersion v | softRetryCount v | mntflags v => beU32 v
  | socketType b | fh b | mntfrom b | localNfsPort b => encodeOpaque b
  | requestTimeout secs nanos => beU32 secs ++ beU32 nanos
  | fsLocations locations => encodeArray FsLocation.bytes locations

end AttrValue

/-- The length of every string and array in a value can be written in a word. -/
def FitsWord {α : Type} (xs : List α) : Prop := xs.length < 2 ^ 32

structure FsServer.Fits (s : FsServer) : Prop where
  name : FitsWord s.name
  addresses : FitsWord s.addresses
  address : ∀ a ∈ s.addresses, FitsWord a
  info : FitsWord s.info

structure FsLocation.Fits (l : FsLocation) : Prop where
  servers : FitsWord l.servers
  server : ∀ s ∈ l.servers, s.Fits
  components : FitsWord l.components
  component : ∀ c ∈ l.components, FitsWord c
  info : FitsWord l.info

def AttrValue.Fits : AttrValue → Prop
  | flags mask value => FitsWord mask ∧ FitsWord value
  | nfsVersion _ | softRetryCount _ | mntflags _ | requestTimeout _ _ => True
  | socketType b | fh b | mntfrom b | localNfsPort b => FitsWord b
  | fsLocations locations => FitsWord locations ∧ ∀ l ∈ locations, l.Fits

theorem yields_opaqueData {b : Bytes} (h : FitsWord b) : Yields opaqueData (encodeOpaque b) b := by
  refine yields_variable ?_
  have hlt : b.length < 2 ^ 32 := h
  simp
  omega

theorem yields_fsServer {s : FsServer} (h : s.Fits) : Yields fsServer s.bytes s :=
  (yields_opaqueData h.name).bind
    ((yields_array h.addresses fun a ha => yields_opaqueData (h.address a ha)).bind
      ((yields_opaqueData h.info).bind_pure (FsServer.mk s.name s.addresses)))

theorem yields_fsLocation {l : FsLocation} (h : l.Fits) : Yields fsLocation l.bytes l :=
  (yields_array h.servers fun s hs => yields_fsServer (h.server s hs)).bind
    ((yields_array h.components fun c hc => yields_opaqueData (h.component c hc)).bind
      ((yields_opaqueData h.info).bind_pure (FsLocation.mk l.servers l.components)))

theorem yields_words {ws : List UInt32} (h : FitsWord ws) :
    Yields (array u32) (encodeArray beU32 ws) ws :=
  yields_array h fun w _ => yields_u32 w

/-- Every value is read back by the layout of its number. -/
theorem yields_attrLayout {v : AttrValue} (h : v.Fits) :
    Yields (attrLayout v.number) v.bytes v := by
  cases v with
  | flags mask value =>
    exact (yields_words h.1).bind ((yields_words h.2).bind_pure (AttrValue.flags mask))
  | nfsVersion v => exact (yields_u32 v).bind_pure AttrValue.nfsVersion
  | socketType b => exact (yields_opaqueData h).bind_pure AttrValue.socketType
  | requestTimeout secs nanos =>
    exact (yields_u32 secs).bind ((yields_u32 nanos).bind_pure (AttrValue.requestTimeout secs))
  | softRetryCount n => exact (yields_u32 n).bind_pure AttrValue.softRetryCount
  | fh b => exact (yields_opaqueData h).bind_pure AttrValue.fh
  | fsLocations locations =>
    exact (yields_array h.1 fun l hl => yields_fsLocation (h.2 l hl)).bind_pure
      AttrValue.fsLocations
  | mntflags v => exact (yields_u32 v).bind_pure AttrValue.mntflags
  | mntfrom b => exact (yields_opaqueData h).bind_pure AttrValue.mntfrom
  | localNfsPort b => exact (yields_opaqueData h).bind_pure AttrValue.localNfsPort

/-! ## What the encoder writes -/

/-- The values the buffer carries. -/
def valuesOf (args : LocalMountArgs) : List AttrValue :=
  [.flags [37] [1], .nfsVersion 3, .socketType socketTypeLocal,
    .requestTimeout args.requestTimeout.secs.toUInt32 args.requestTimeout.nanos,
    .softRetryCount args.softRetryCount, .fh args.rootHandle,
    .fsLocations [⟨[⟨args.socketPath, [args.socketPath], []⟩], [args.label], []⟩],
    .mntflags mntRdonly, .mntfrom (mntfrom args), .localNfsPort args.socketPath]

/-- The same with their numbers. -/
def attributesOf (args : LocalMountArgs) : List (Nat × AttrValue) :=
  (valuesOf args).map fun v => (v.number, v)

/-- The hand-written values are those of the layouts. -/
theorem buf_encodeValues (args : LocalMountArgs) :
    (encodeValues args).buf = ((valuesOf args).map AttrValue.bytes).flatten := by
  have hempty : encodeOpaque [] = beU32 0 := rfl
  have hmask : (1 : UInt32) ||| bit Mflag.resvport ||| bit Mflag.callumnt = 37 := by decide
  have hsoft : bit Mflag.soft = 1 := by decide
  simp [encodeValues, valuesOf, AttrValue.bytes, FsLocation.bytes, FsServer.bytes, encodeArray,
    hempty, mflagBitmapLen, hmask, hsoft]

/-- The separately computed bitmap selects exactly the attributes that were written. -/
theorem filter_isSet_attrBitmap (args : LocalMountArgs) :
    (List.range 64).filter (isSet [attrBitmap.1, attrBitmap.2]) =
      (attributesOf args).map Prod.fst := by
  rw [attributesOf, List.map_map]
  show _ = [0, 1, 14, 17, 18, 20, 21, 22, 23, 29]
  decide

theorem length_le_encodeOpaque (b : Bytes) : b.length ≤ (encodeOpaque b).length := by
  simp only [encodeOpaque, encodeFixed, List.length_append]
  omega

/-- What the values take up: fifteen words, and the strings. -/
theorem length_encodeValues (args : LocalMountArgs) :
    (encodeValues args).buf.length = 60 + (encodeOpaque socketTypeLocal).length +
      (encodeOpaque args.rootHandle).length + 3 * (encodeOpaque args.socketPath).length +
      (encodeOpaque args.label).length + (encodeOpaque (mntfrom args)).length := by
  simp only [encodeValues, Writer.buf_writeU32, Writer.buf_writeOpaqueVar, Writer.buf_new,
    List.length_append, List.length_nil, length_beU32]
  omega

theorem length_encodeValues_mod (args : LocalMountArgs) :
    (encodeValues args).buf.length % 4 = 0 := by
  have hnetid := length_encodeOpaque_mod socketTypeLocal
  have hhandle := length_encodeOpaque_mod args.rootHandle
  have hpath := length_encodeOpaque_mod args.socketPath
  have hlabel := length_encodeOpaque_mod args.label
  have hfrom := length_encodeOpaque_mod (mntfrom args)
  rw [length_encodeValues]
  omega

/-- The values are whole words already, so nothing is padded after them. -/
theorem encode_eq (args : LocalMountArgs) :
    encode args = beU32 88 ++ (beU32 (UInt32.ofNat (28 + (encodeValues args).buf.length)) ++
      (beU32 0 ++ (encodeArray beU32 [attrBitmap.1, attrBitmap.2] ++
        (beU32 (UInt32.ofNat (encodeValues args).buf.length) ++ (encodeValues args).buf)))) := by
  have hmod := length_encodeValues_mod args
  have hpad : encodeFixed (encodeValues args).buf = (encodeValues args).buf := by
    rw [encodeFixed, padding, hmod]
    exact List.append_nil _
  simp [encode, Writer.intoBytes, hpad, encodeArray, argsversionXdr, headerLen, xdrargsVersion0,
    mattrBitmapLen]

theorem length_encode (args : LocalMountArgs) :
    (encode args).length = 28 + (encodeValues args).buf.length := by
  rw [encode_eq]
  simp [encodeArray]
  omega

theorem fits_valuesOf {args : LocalMountArgs} (h : (encode args).length < 2 ^ 32) :
    ∀ v ∈ valuesOf args, v.Fits := by
  rw [length_encode, length_encodeValues] at h
  have hhandle := length_le_encodeOpaque args.rootHandle
  have hpath := length_le_encodeOpaque args.socketPath
  have hlabel := length_le_encodeOpaque args.label
  have hfrom := length_le_encodeOpaque (mntfrom args)
  have hone : ∀ {α : Type} (a : α), FitsWord [a] := fun _ => by
    show 1 < 2 ^ 32
    norm_num
  have hpath : FitsWord args.socketPath := show _ < _ by omega
  have hlabel : FitsWord args.label := show _ < _ by omega
  have hnil : FitsWord ([] : Bytes) := show 0 < 2 ^ 32 by norm_num
  have hserver : FsServer.Fits ⟨args.socketPath, [args.socketPath], []⟩ :=
    ⟨hpath, hone _, by simpa using hpath, hnil⟩
  have hlocation : FsLocation.Fits
      ⟨[⟨args.socketPath, [args.socketPath], []⟩], [args.label], []⟩ :=
    ⟨hone _, by simpa using hserver, hone _, by simpa using hlabel, hnil⟩
  have hhandle : FitsWord args.rootHandle := show _ < _ by omega
  have hfrom : FitsWord (mntfrom args) := show _ < _ by omega
  have hnetid : FitsWord socketTypeLocal := show 9 < 2 ^ 32 by norm_num
  simp [valuesOf, AttrValue.Fits, hone, hpath, hlocation, hhandle, hfrom, hnetid]

/-- A reader that goes by the bitmap reads a header and the attributes after it. -/
theorem yields_buffer {bitmap : List UInt32} (hbitmap : bitmap.length = 2) (total len : UInt32)
    {attributes : List (Nat × AttrValue)} {values : Bytes}
    (h : Yields (fields (isSet bitmap) attrLayout (List.range 64)) values attributes) :
    Yields decode (beU32 88 ++ (beU32 total ++ (beU32 0 ++ (encodeArray beU32 bitmap ++
      (beU32 len ++ values))))) ⟨total, bitmap, len, attributes, values.length⟩ := by
  have hfits : FitsWord bitmap := by
    rw [FitsWord, hbitmap]
    norm_num
  have hwords : decide (bitmap.length = 2) = true := decide_eq_true hbitmap
  refine (yields_u32 88).bind (.of_check rfl ((yields_u32 total).bind ((yields_u32 0).bind
    (.of_check rfl ((yields_words hfits).bind (.of_check hwords ((yields_u32 len).bind ?_)))))))
  exact h.measured.bind_pure fun attrs => Decoded.mk total bitmap len attrs.1 attrs.2

theorem yields_attributes {args : LocalMountArgs} (h : (encode args).length < 2 ^ 32) :
    Yields (fields (isSet [attrBitmap.1, attrBitmap.2]) attrLayout (List.range 64))
      (encodeValues args).buf (attributesOf args) := by
  have hvalues : ∀ v ∈ attributesOf args, Yields (attrLayout v.1) v.2.bytes v.2 := by
    intro v hv
    obtain ⟨w, hw, rfl⟩ := List.mem_map.mp hv
    exact yields_attrLayout (fits_valuesOf h w hw)
  have hbuf : (encodeValues args).buf = ((attributesOf args).map fun v => v.2.bytes).flatten := by
    rw [buf_encodeValues, attributesOf, List.map_map, Function.comp_def]
  rw [hbuf]
  exact yields_fields (filter_isSet_attrBitmap args) hvalues

/-- The argument buffer decodes to its inputs: a reader that takes the attributes whose bits
are set, in ascending order, recovers every field and consumes exactly the declared lengths. -/
theorem mountArgs_round_trip (args : LocalMountArgs) (htotal : (encode args).length < 2 ^ 32)
    (hsecs : args.requestTimeout.secs.toNat < 2 ^ 32) :
    ∃ d, decode.run (encode args) = some (d, []) ∧
      arguments d.attributes = some args ∧
      d.attributes = attributesOf args ∧
      d.consumed = d.attrsLen.toNat ∧
      d.totalLen.toNat = (encode args).length ∧
      4 ∣ (encode args).length := by
  have hlen := length_encode args
  have hmod := length_encodeValues_mod args
  have hvalues : (UInt32.ofNat (encodeValues args).buf.length).toNat =
      (encodeValues args).buf.length :=
    UInt32.toNat_ofNat_of_lt' (show _ < 2 ^ 32 by omega)
  have htotal' : (UInt32.ofNat (encode args).length).toNat = (encode args).length :=
    UInt32.toNat_ofNat_of_lt' htotal
  have hsecs' : args.requestTimeout.secs.toUInt32.toUInt64 = args.requestTimeout.secs := by
    apply UInt64.toNat_inj.mp
    rw [UInt32.toNat_toUInt64, UInt64.toNat_toUInt32, Nat.mod_eq_of_lt hsecs]
  have hdecode := (yields_buffer (show [attrBitmap.1, attrBitmap.2].length = 2 from rfl)
    (UInt32.ofNat (28 + (encodeValues args).buf.length))
    (UInt32.ofNat (encodeValues args).buf.length) (yields_attributes htotal)).run_eq
  rw [← encode_eq, ← hlen] at hdecode
  refine ⟨_, hdecode, ?_, rfl, ?_, ?_, ?_⟩
  · simp [arguments, attributesOf, valuesOf, AttrValue.number, List.lookup, hsecs',
      args.requestTimeout.nanos_lt]
  · dsimp only
    exact hvalues.symm
  · exact htotal'
  · rw [hlen]
    exact Nat.dvd_of_mod_eq_zero (by omega)

/-- A mount of `demo` over `/tmp/.anymount-1/s`. -/
def sample : LocalMountArgs where
  socketPath := [47, 116, 109, 112, 47, 46, 97, 110, 121, 109, 111, 117,
    110, 116, 45, 49, 47, 115]
  rootHandle := [0xde, 0xad, 0xbe, 0xef, 0x00, 0x11, 0x22, 0x33, 0x44, 0x55, 0x66, 0x77, 0x88, 0x99,
    0xaa, 0xbb, 0, 0, 0, 0, 0, 0, 0, 1]
  label := [100, 101, 109, 111]
  requestTimeout := ⟨20, 0, by decide⟩
  softRetryCount := 2

theorem mountArgs_round_trip_sample :
    (encode sample).length < 2 ^ 32 ∧ sample.requestTimeout.secs.toNat < 2 ^ 32 ∧
      ∃ d, decode.run (encode sample) = some (d, []) ∧ arguments d.attributes = some sample := by
  have htotal : (encode sample).length < 2 ^ 32 := by
    rw [length_encode, length_encodeValues]
    decide
  obtain ⟨d, hdecode, hargs, -⟩ := mountArgs_round_trip sample htotal (by decide)
  exact ⟨htotal, by decide, d, hdecode, hargs⟩

end Anymount.Nfs.MountArgs
