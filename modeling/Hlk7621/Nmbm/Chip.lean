import Hlk7621.UBoot.Crc32

/-!
# The NAND chip under NMBM

Data and low-level functions of `mtk_bmt_nmbm.c`.  The chip is an adversary: it
answers each call as it likes, depending on how many calls came before and on
the address.  A read that verifies a write matters only through the comparison
with what was written, so an answer to a read says how that comparison ends.
-/

namespace Hlk7621
namespace Nmbm

def EBADMSG : Int := 74
def EUCLEAN : Int := 117

def NMBM_MAGIC_SIGNATURE : Nat := 0x304d4d4e
def NMBM_MAGIC_INFO_TABLE : Nat := 0x314d4d4e
def NMBM_VER : Nat := 1
def NMBM_SPARE_BLOCK_MIN : Nat := 2
def NMBM_MGMT_DIV : Nat := 16
def NMBM_TRY_COUNT : Nat := 3

/-- The chip and the device tree, as `bmtd` and the attach function see them. -/
structure Geometry where
  totalBlks : Nat
  blkSize : Nat
  pgSize : Nat
  oobsize : Nat
  bitflipThreshold : Nat
  eccStrength : Nat
  maxRatio : Nat
  maxReservedBlocks : Nat
  emptyPageEccOk : Bool
  forceCreate : Bool
  totalBlks_pos : 0 < totalBlks
  totalBlks_lt : totalBlks < 2 ^ 16
  pgSize_pos : 0 < pgSize

/-- What a page read returns: its result, the bytes it leaves in the buffer, and
whether these are the bytes last written there. -/
structure ReadAnswer where
  ret : Int
  data : Bytes
  same : Bool

/-- The answers of the chip to call number `n` at an address. -/
structure Chip where
  isbad : Nat -> Nat -> Int
  erase : Nat -> Nat -> Int
  write : Nat -> Nat -> Int
  read : Nat -> Nat -> ReadAnswer

/-- The four values of two bits of the block state table. -/
inductive BlockState where
  | bad
  | unused
  | needRemap
  | good
  deriving DecidableEq, Repr

/-- The part of `struct nmbm_instance` that changes.  The ends of the two info
tables are the `table_end_ba` of the write or the search that placed them; the
driver only logs them. -/
structure Instance where
  blockState : Nat -> BlockState
  blockStateChanged : Nat
  blockMapping : Nat -> Int
  blockMappingChanged : Nat
  writeCount : Nat
  isProtected : Bool
  dataBlockCount : Nat
  mgmtStartBa : Nat
  mainTableBa : Nat
  mainTableEnd : Nat
  backupTableBa : Nat
  backupTableEnd : Nat
  mappingBlocksBa : Nat
  mappingBlocksTopBa : Nat
  signatureBa : Nat

/-- A block erased on behalf of the logical block `lb`, or of no logical block, in
the state `ni`. -/
structure Erasure where
  ba : Nat
  lb : Option Nat
  ni : Instance

/-- The driver at work: its instance, the number of calls made to the chip, the
blocks erased and the info tables generated. -/
structure Dev where
  ni : Instance
  calls : Nat
  erased : List Erasure
  tables : List Instance

variable (g : Geometry) (chip : Chip)

/-!
## Sizes
-/

def ba2addr (ba : Nat) : Nat := ba * g.blkSize

def size2blk (size : Nat) : Nat := (size + g.blkSize - 1) / g.blkSize

def ALIGN (x a : Nat) : Nat := (x + a - 1) / a * a

def stateTableSize : Nat := (g.totalBlks + 15) / 16 * 4

def mappingTableSize : Nat := g.totalBlks * 4

def infoTableSize : Nat :=
  ALIGN 32 g.pgSize + ALIGN (stateTableSize g) g.pgSize + ALIGN (mappingTableSize g) g.pgSize

def nmbmGetSpareBlockCount (blockCount : Nat) : Nat :=
  max ((blockCount + 1) / 2) NMBM_SPARE_BLOCK_MIN

def infoTableSpareBlocks : Nat := nmbmGetSpareBlockCount (size2blk g (infoTableSize g))

def pages (size : Nat) : Nat := (size + g.pgSize - 1) / g.pgSize

/-!
## Chip access with retry
-/

def readTries (addr : Nat) : Nat -> Int -> Dev -> (Int × ReadAnswer) × Dev
  | 0, ret, d => ((ret, { ret := ret, data := [], same := false }), d)
  | n + 1, _, d =>
      let a := chip.read d.calls addr
      let d := { d with calls := d.calls + 1 }
      if a.ret = -EUCLEAN then ((min (g.bitflipThreshold + 1) g.eccStrength, a), d)
      else if 0 ≤ a.ret then ((0, a), d)
      else readTries addr n a.ret d

def nmbmReadPhysPage (addr : Nat) (d : Dev) : (Int × ReadAnswer) × Dev :=
  readTries g chip addr NMBM_TRY_COUNT 0 d

def writeTries (addr : Nat) : Nat -> Dev -> Bool × Dev
  | 0, d => (false, d)
  | n + 1, d =>
      let ret := chip.write d.calls addr
      let d := { d with calls := d.calls + 1 }
      if ret = 0 then (true, d) else writeTries addr n d

def nmbmWritePhysPage (addr : Nat) (d : Dev) : Bool × Dev :=
  writeTries chip addr NMBM_TRY_COUNT d

/-- One call of `_erase`, noted down with the logical block it is made for. -/
def erase (ba : Nat) (lb : Option Nat) (d : Dev) : Int × Dev :=
  (chip.erase d.calls (ba2addr g ba),
    { d with calls := d.calls + 1, erased := { ba := ba, lb := lb, ni := d.ni } :: d.erased })

def eraseTries (ba : Nat) : Nat -> Dev -> Bool × Dev
  | 0, d => (false, d)
  | n + 1, d =>
      match erase g chip ba none d with
      | (ret, d) => if ret = 0 then (true, d) else eraseTries ba n d

def nmbmErasePhysBlock (ba : Nat) (d : Dev) : Bool × Dev :=
  eraseTries g chip ba NMBM_TRY_COUNT d

def nmbmCheckBadPhysBlock (ba : Nat) (d : Dev) : Bool × Dev :=
  (chip.isbad d.calls (ba2addr g ba) != 0, { d with calls := d.calls + 1 })

/-- The answer of `_block_markbad` is not looked at. -/
def nmbmMarkPhysBadBlock (d : Dev) : Dev := { d with calls := d.calls + 1 }

/-!
## Block states
-/

def nmbmSetBlockState (ba : Nat) (state : BlockState) (ni : Instance) : Instance :=
  { ni with
    blockState := fun b => if b = ba then state else ni.blockState b
    blockStateChanged :=
      if ni.blockState ba = state then ni.blockStateChanged else ni.blockStateChanged + 1 }

def Dev.setBad (ba : Nat) (d : Dev) : Dev :=
  { d with ni := nmbmSetBlockState ba .bad d.ni }

/-- The blocks `ba`, `ba + 1`, … below `limit`; the first argument bounds the walk. -/
def walkAsc (ni : Instance) (limit : Nat) : Nat -> Nat -> Int -> Option Nat
  | 0, _, _ => none
  | n + 1, ba, nblock =>
      if ba < limit then
        let nblock := if ni.blockState ba = .good then nblock - 1 else nblock
        if nblock < 0 then some ba else walkAsc ni limit n (ba + 1) nblock
      else none

def nmbmBlockWalkAsc (ni : Instance) (ba : Nat) (count limit : Nat) : Option Nat :=
  let limit := if g.totalBlks ≤ limit then g.totalBlks - 1 else limit
  walkAsc ni limit (limit - ba) ba count

def walkDesc (ni : Instance) (limit : Nat) : Nat -> Int -> Option Nat
  | 0, _ => none
  | ba + 1, nblock =>
      if limit < ba + 1 then
        let nblock := if ni.blockState (ba + 1) = .good then nblock - 1 else nblock
        if nblock < 0 then some (ba + 1) else walkDesc ni limit ba nblock
      else none

def nmbmBlockWalkDesc (ni : Instance) (ba : Nat) (count limit : Nat) : Option Nat :=
  let limit := if g.totalBlks ≤ limit then g.totalBlks - 1 else limit
  walkDesc ni limit ba count

/-!
## Erasing and writing blocks
-/

def checkEmptyPages (addr : Nat) : Nat -> Dev -> Bool × Dev
  | 0, d => (true, d)
  | n + 1, d =>
      match nmbmReadPhysPage g chip addr d with
      | ((ret, _), d) =>
          if ret = -EBADMSG then (false, d) else checkEmptyPages (addr + g.pgSize) n d

def nmbmEraseBlockAndCheck (ba : Nat) (d : Dev) : Bool × Dev :=
  match nmbmErasePhysBlock g chip ba d with
  | (false, d) => (false, d)
  | (true, d) =>
      if g.emptyPageEccOk then
        checkEmptyPages g chip (ba2addr g ba) (pages g g.blkSize) d
      else (true, d)

def writeVerifyPages (addr : Nat) : Nat -> Dev -> Bool × Dev
  | 0, d => (true, d)
  | n + 1, d =>
      match nmbmWritePhysPage chip addr d with
      | (false, d) => (false, d)
      | (true, d) =>
          match nmbmReadPhysPage g chip addr d with
          | ((ret, a), d) =>
              if ret < 0 ∨ a.same = false then (false, d)
              else writeVerifyPages (addr + g.pgSize) n d

def nmbmWriteRepeatedData (ba size : Nat) (d : Dev) : Bool × Dev :=
  if size > g.pgSize then (false, d)
  else writeVerifyPages g chip (ba2addr g ba) (pages g g.blkSize) d

def nmbnWriteVerifyData (addr size : Nat) (d : Dev) : Bool × Dev :=
  writeVerifyPages g chip addr (pages g size) d

/-- The pages of `nmbn_read_data`, which always starts at a page. -/
def readPages (addr : Nat) : Nat -> Nat -> Bytes -> Dev -> (Int × Bytes) × Dev
  | 0, _, acc, d => ((0, acc), d)
  | n + 1, sizeremain, acc, d =>
      match nmbmReadPhysPage g chip addr d with
      | ((ret, a), d) =>
          if ret < 0 then ((ret, acc), d)
          else
            let chunksize := min g.pgSize sizeremain
            readPages (addr + g.pgSize) n (sizeremain - chunksize)
              (acc ++ a.data.take chunksize) d

def nmbnReadData (addr size : Nat) (d : Dev) : (Int × Bytes) × Dev :=
  readPages g chip addr (pages g size) size [] d

/-- The pages that `bbt_nand_copy` moves; `retlen` is the number of bytes read. -/
def copyPages (dest src maxOffset : Nat) : Nat -> Nat -> Dev -> Dev
  | 0, _, d => d
  | n + 1, offset, d =>
      if maxOffset ≤ offset then d
      else
        let a := chip.read d.calls (src + offset)
        let d := { d with calls := d.calls + 1 }
        if a.ret < 0 ∧ a.ret ≠ -EUCLEAN then d
        else if a.data.length = 0 then d
        else
          let ret := chip.write d.calls (dest + offset)
          let d := { d with calls := d.calls + 1 }
          if ret < 0 then d else copyPages dest src maxOffset n (offset + a.data.length) d

def bbtNandCopy (destBlk srcBlk maxOffset : Nat) (d : Dev) : Dev :=
  copyPages chip (ba2addr g destBlk) (ba2addr g srcBlk) maxOffset (g.blkSize / g.pgSize) 0 d

/-!
## Structures read from the chip
-/

def le32 (data : Bytes) (off : Nat) : Nat := leNat ((data.drop off).take 4)

def nmbmCrc32 (crcval : BitVec 32) (buf : Bytes) : BitVec 32 := Crc.fold UBoot.crcTab crcval buf

/-- The header with its checksum cleared, and what follows it. -/
def nmbmCheckHeader (data : Bytes) (size : Nat) : Bool :=
  let headerSize := le32 data 8
  if headerSize > size then false
  else
    let crc := nmbmCrc32 0 (data.take 12 ++ [0, 0, 0, 0])
    let crc := if headerSize > 16 then nmbmCrc32 crc ((data.drop 16).take (headerSize - 16))
      else crc
    le32 data 12 = crc.toNat

structure Signature where
  magic : Nat
  version : Nat
  nandSize : Nat
  blockSize : Nat
  pageSize : Nat
  spareSize : Nat
  mgmtStartPb : Nat

def signatureSize : Nat := 48

def Signature.ofBytes (data : Bytes) : Signature :=
  { magic := le32 data 0
    version := le32 data 4
    nandSize := leNat ((data.drop 16).take 8)
    blockSize := le32 data 24
    pageSize := le32 data 28
    spareSize := le32 data 32
    mgmtStartPb := le32 data 36 }

def nmbmGetBlockStateRaw (data : Bytes) (off ba : Nat) : BlockState :=
  match le32 data (off + ba / 16 * 4) / 2 ^ (ba % 16 * 2) % 4 with
  | 0 => .bad
  | 1 => .unused
  | 2 => .needRemap
  | _ => .good

def toInt32 (n : Nat) : Int := if n < 2 ^ 31 then n else (n : Int) - 2 ^ 32

/-- A signed number as C compares it with an unsigned one. -/
def asU32 (n : Int) : Nat := (n % 2 ^ 32).toNat

def mappingEntry (data : Bytes) (off ba : Nat) : Int := toInt32 (le32 data (off + 4 * ba))

end Nmbm
end Hlk7621
