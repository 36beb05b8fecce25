import Hlk7621.UBoot.Image

/-!
# Splitting the firmware partition

Model of the OpenWrt splitters: `__mtdsplit_parse_uimage` of `mtdsplit_uimage.c`,
`mtdsplit_parse_squashfs` of `mtdsplit_squashfs.c` and the functions of
`mtdsplit.c` that they use.  The kernel runs on a 32-bit little-endian CPU:
`size_t` has 32 bits, the sizes of devices and the results of the rounding
functions have 64 bits.
-/

namespace Hlk7621
namespace Mtd

def EIO : Int := 5
def ENODEV : Int := 19
def EINVAL : Int := 22

def SQUASHFS_MAGIC : Nat := 0x73717368
def UBI_EC_MAGIC : Nat := 0x55424923
def JFFS2_MAGIC : Nat := 0x19852003

/-- A device or a partition.  `read` is `mtd_read`; `none` is an error or a short
read. -/
structure MtdInfo where
  size : Nat
  erasesize : Nat
  read : Nat -> Nat -> Option Bytes

def sub64 (a b : Nat) : Nat := (a + (2 ^ 64 - b)) % 2 ^ 64

def mtdRoundupToEb (sz : Nat) (erasesize : Nat) : Nat :=
  if sz % erasesize = 0 then sz else u32 ((sz / erasesize + 1) * erasesize)

def mtdRounddownToEb (sz : Nat) (erasesize : Nat) : Nat :=
  if sz % erasesize = 0 then sz else u32 (sz / erasesize * erasesize)

def mtdNextEb (mtd : MtdInfo) (offset : Nat) : Nat :=
  u32 (mtdRounddownToEb offset mtd.erasesize + mtd.erasesize)

/-!
## Root filesystems
-/

inductive PartType where
  | squashfs
  | jffs2
  | ubi
  deriving DecidableEq, Repr

/-- The bytes of `struct squashfs_super_block` that the splitter looks at. -/
def superBlockSize : Nat := 48

def mtdGetSquashfsLen (master : MtdInfo) (offset : Nat) : Except Int Nat :=
  match master.read offset superBlockSize with
  | none => .error (- EIO)
  | some sb =>
      if leNat (sb.take 4) ≠ SQUASHFS_MAGIC then .error (-EINVAL)
      else
        let retlen := u32 (leNat ((sb.drop 40).take 8))
        if retlen = 0 then .error (-ENODEV)
        else if u32 (offset + retlen) > master.size then .error (-EINVAL)
        else .ok retlen

def mtdCheckRootfsMagic (mtd : MtdInfo) (offset : Nat) : Except Int PartType :=
  match mtd.read offset 4 with
  | none => .error (- EIO)
  | some magic =>
      if leNat magic = SQUASHFS_MAGIC then .ok .squashfs
      else if leNat magic = JFFS2_MAGIC then .ok .jffs2
      else if beNat magic = UBI_EC_MAGIC then .ok .ubi
      else .error (-EINVAL)

def mtdFindRootfsFrom (mtd : MtdInfo) (limit : Nat) : Nat -> Nat -> Except Int (Nat × PartType)
  | 0, _ => .error (-ENODEV)
  | fuel + 1, offset =>
      if offset < limit then
        match mtdCheckRootfsMagic mtd offset with
        | .error _ => mtdFindRootfsFrom mtd limit fuel (mtdNextEb mtd offset)
        | .ok type => .ok (offset, type)
      else .error (-ENODEV)

/-!
## The image
-/

/-- What `uimage_parse_dt` takes from the device tree. -/
structure UimageDt where
  extralen : Nat := 0
  ihMagic : Nat := UBoot.IH_MAGIC
  ihType : Nat := UBoot.IH_TYPE_KERNEL
  headerOffset : Nat := 0
  partMagic : Nat := 0

def uimageHeaderSize : Nat := 64

def uimageVerifyDefault (dt : UimageDt) (header : Bytes) : Bool :=
  beNat (header.take 4) = dt.ihMagic &&
    (header.getD 28 0).toNat = UBoot.IH_OS_LINUX &&
    (header.getD 30 0).toNat = dt.ihType

/-- The search for an image at the starts of erase blocks: `offset` and
`uimage_size` behind the loop. -/
def findUimage (master : MtdInfo) (dt : UimageDt) : Nat -> Nat -> Nat -> Nat × Nat
  | 0, offset, uimageSize => (offset, uimageSize)
  | fuel + 1, offset, uimageSize =>
      if offset < master.size then
        let next := u32 (offset + master.erasesize)
        match master.read offset (uimageHeaderSize + dt.headerOffset) with
        | none => findUimage master dt fuel next 0
        | some buf =>
            if dt.headerOffset ≠ 0 ∧ dt.partMagic ≠ 0 ∧ beNat (buf.take 4) ≠ dt.partMagic then
              findUimage master dt fuel next 0
            else
              let header := buf.drop dt.headerOffset
              if uimageVerifyDefault dt header then
                let size := u32 (uimageHeaderSize + beNat ((header.drop 12).take 4) +
                  dt.headerOffset + dt.extralen)
                if u32 (offset + size) > master.size then findUimage master dt fuel next size
                else (offset, size)
              else findUimage master dt fuel next 0
      else (offset, uimageSize)

structure MtdPartition where
  name : String
  offset : Nat
  size : Nat
  deriving DecidableEq, Repr

structure UimageParts where
  kernel : MtdPartition
  rootfs : MtdPartition
  type : PartType
  deriving DecidableEq, Repr

/-- `__mtdsplit_parse_uimage`. -/
def mtdsplitParseUimage (master : MtdInfo) (dt : UimageDt) : Except Int UimageParts :=
  let r := findUimage master dt (master.size + 1) 0 0
  let uimageOffset := r.1
  let uimageSize := r.2
  if uimageSize = 0 then .error (-ENODEV)
  else
    let found : Except Int (Nat × Nat × Nat × PartType) :=
      if uimageOffset = 0 then
        match mtdFindRootfsFrom master (u32 master.size) (master.size + 1)
            (u32 (uimageOffset + uimageSize)) with
        | .error ret => .error ret
        | .ok (rootfsOffset, type) =>
            .ok (rootfsOffset, u32 (master.size - rootfsOffset), rootfsOffset - uimageOffset, type)
      else
        match mtdCheckRootfsMagic master 0 with
        | .error ret => .error ret
        | .ok type => .ok (0, uimageOffset, uimageSize, type)
    match found with
    | .error ret => .error ret
    | .ok (rootfsOffset, rootfsSize, uimageSize, type) =>
        if rootfsSize = 0 then .error (-ENODEV)
        else
          .ok ⟨⟨"kernel", uimageOffset, uimageSize⟩,
            ⟨if type = .ubi then "ubi" else "rootfs", rootfsOffset, rootfsSize⟩, type⟩

/-!
## The overlay
-/

/-- `mtdsplit_parse_squashfs` for a partition at `partOffset`. -/
def mtdsplitParseSquashfs (master : MtdInfo) (partOffset : Nat) : Except Int MtdPartition :=
  match mtdGetSquashfsLen master 0 with
  | .error ret => .error ret
  | .ok squashfsLen =>
      let offset :=
        sub64 (mtdRoundupToEb (u32 (partOffset + squashfsLen)) master.erasesize) partOffset
      .ok ⟨"rootfs_data", offset, mtdRounddownToEb (sub64 master.size offset) master.erasesize⟩

end Mtd
end Hlk7621
