import Anymount.Library.Xdr

/-!
# The result types of RFC 1813

The XDR grammar of every procedure's result: a status word, then the `resok` arm for
`NFS3_OK` and the `resfail` arm for every other status. File handles are the references
of the type language.
-/
namespace Anymount.Nfs.Rfc1813

open Library.Xdr

/-- Every status of `nfsstat3`. -/
def nfsstat3 : List UInt32 :=
  [0, 1, 2, 5, 6, 13, 17, 18, 19, 20, 21, 22, 27, 28, 30, 31, 63, 66, 69, 70, 71,
    10001, 10002, 10003, 10004, 10005, 10006, 10007, 10008]

/-- `NFS3_FHSIZE`: the longest file handle. -/
def fhsize : UInt32 := 64

abbrev filename3 : Ty := .opaqueVar 0xFFFFFFFF
abbrev nfspath3 : Ty := .opaqueVar 0xFFFFFFFF
abbrev cookieverf3 : Ty := .opaqueFixed 8
abbrev writeverf3 : Ty := .opaqueFixed 8

abbrev nfstime3 : Ty := .struct [.word, .word]

/-- Type, mode, nlink, uid, gid, size, used, rdev, fsid, fileid, atime, mtime, ctime. -/
abbrev fattr3 : Ty :=
  .struct [.enum [1, 2, 3, 4, 5, 6, 7], .word, .word, .word, .word, .hyper, .hyper,
    .struct [.word, .word], .hyper, .hyper, nfstime3, nfstime3, nfstime3]

abbrev postOpAttr : Ty := .optional fattr3
abbrev postOpFh3 : Ty := .optional .token
abbrev wccAttr : Ty := .struct [.hyper, nfstime3, nfstime3]
abbrev wccData : Ty := .struct [.optional wccAttr, postOpAttr]

/-- A result with its two arms. -/
abbrev result (resok resfail : Ty) : Ty := .union 0 nfsstat3 resok resfail

/-- What follows the cookie of a directory entry. -/
abbrev direntExtra (plus : Bool) : Ty :=
  match plus with
  | false => .void
  | true => .struct [postOpAttr, postOpFh3]

/-- `entry3` or `entryplus3`, without the link to the next: fileid, name, cookie. -/
abbrev dirent (plus : Bool) : Ty := .struct [.hyper, filename3, .hyper, direntExtra plus]

/-- `READDIR3res` or `READDIRPLUS3res`. -/
abbrev readdir3res (plus : Bool) : Ty :=
  result (.struct [postOpAttr, cookieverf3, .list (dirent plus), .bool]) postOpAttr

abbrev getattr3res : Ty := result fattr3 .void
abbrev setattr3res : Ty := result wccData wccData
abbrev lookup3res : Ty := result (.struct [.token, postOpAttr, postOpAttr]) postOpAttr
abbrev access3res : Ty := result (.struct [postOpAttr, .word]) postOpAttr
abbrev readlink3res : Ty := result (.struct [postOpAttr, nfspath3]) postOpAttr

/-- Attributes, count, eof and the data. -/
abbrev read3res : Ty :=
  result (.struct [postOpAttr, .word, .bool, .opaqueVar 0xFFFFFFFF]) postOpAttr

abbrev write3res : Ty :=
  result (.struct [wccData, .word, .enum [0, 1, 2], writeverf3]) wccData

/-- The results of `CREATE3`, `MKDIR3`, `SYMLINK3` and `MKNOD3`. -/
abbrev create3res : Ty := result (.struct [postOpFh3, postOpAttr, wccData]) wccData

/-- The results of `REMOVE3` and `RMDIR3`. -/
abbrev remove3res : Ty := result wccData wccData

abbrev rename3res : Ty := result (.struct [wccData, wccData]) (.struct [wccData, wccData])
abbrev link3res : Ty := result (.struct [postOpAttr, wccData]) (.struct [postOpAttr, wccData])

abbrev fsstat3res : Ty :=
  result (.struct [postOpAttr, .hyper, .hyper, .hyper, .hyper, .hyper, .hyper, .word]) postOpAttr

abbrev fsinfo3res : Ty :=
  result (.struct [postOpAttr, .word, .word, .word, .word, .word, .word, .word, .hyper, nfstime3,
    .word]) postOpAttr

abbrev pathconf3res : Ty :=
  result (.struct [postOpAttr, .word, .word, .bool, .bool, .bool, .bool]) postOpAttr

abbrev commit3res : Ty := result (.struct [wccData, writeverf3]) wccData

/-- The result type of each procedure of the program. -/
def resultOf : Nat → Option Ty
  | 0 => some .void
  | 1 => some getattr3res
  | 2 => some setattr3res
  | 3 => some lookup3res
  | 4 => some access3res
  | 5 => some readlink3res
  | 6 => some read3res
  | 7 => some write3res
  | 8 => some create3res
  | 9 => some create3res
  | 10 => some create3res
  | 11 => some create3res
  | 12 => some remove3res
  | 13 => some remove3res
  | 14 => some rename3res
  | 15 => some link3res
  | 16 => some (readdir3res false)
  | 17 => some (readdir3res true)
  | 18 => some fsstat3res
  | 19 => some fsinfo3res
  | 20 => some pathconf3res
  | 21 => some commit3res
  | _ => none

theorem length_encode_fattr3 {H : Type} (enc : H → Library.Bytes) (v : fattr3.Value H) :
    (fattr3.encode enc v).length = 84 := by
  simp [Ty.encode]

end Anymount.Nfs.Rfc1813
