import Hlk7621.Lib.Bytes

/-!
# The BMT v2 table

`mtk_bmt_init_v2`, `scan_bad_blocks`, `upload_bmt` and `remap_block_v2`.  The table is the
memory from `bbt_buf` on, in words of 16 bits: the signature and the version, `bb_tbl`, and
the pool entries behind its `table_size` words.  What is behind the buffer is arbitrary,
and the functions index the two arrays without looking at their ends.
-/

namespace Hlk7621
namespace Bmt
namespace V2

def NO_MAPPED : Nat := 0
def NORMAL_MAPPED : Nat := 1
def BMT_MAPPED : Nat := 2

def BBPOOL_RATIO : Nat := 2

/-- The words `B` `M` and `T` with the version, 2. -/
def signature (i : Nat) : Nat := if i = 0 then 0x4d42 else 0x0254

/-- The signature `bmt` in the spare bytes, from `OOB_SIGNATURE_OFFSET` on. -/
def oobSignature (i : Nat) : Nat := if i = 1 then 0x62 else if i = 2 then 0x6d else 0x74

structure Geometry where
  blkShift : Nat
  totalBlks : Nat
  bmtPoolSize : Nat
  tableSize : Nat
  pgSize : Nat
  /-- `bmtd.total_blks` is a `u16`. -/
  totalBlks_lt : totalBlks < 2 ^ 16

namespace Geometry

variable (G : Geometry)

/-- `total_blks - bmt_pool_size - 2` in 32 bits, stored in a `u16`. -/
def pmtBlock : Nat :=
  if G.bmtPoolSize + 2 ≤ G.totalBlks then G.totalBlks - G.bmtPoolSize - 2
  else (G.totalBlks + 2 ^ 32 - (G.bmtPoolSize + 2)) % 2 ^ 16

def poolLba : Nat := (G.pmtBlock + 2) % 2 ^ 16

def bbMax : Nat := G.totalBlks * BBPOOL_RATIO / 100

/-- The block that `bbt_nand_read` reads for the pages of block `b`: its address is
`page << pg_shift` in 32 bits. -/
def readBlk (b : Nat) : Nat := b % 2 ^ (32 - G.blkShift)

/-- The words of the buffer: the header and `bmt_table_size` pool entries, in whole pages. -/
def bufWords : Nat := (4 + G.tableSize * 4 + G.pgSize - 1) / G.pgSize * G.pgSize / 2

end Geometry

/-!
## The table
-/

abbrev Words := Nat -> Nat

namespace Words

variable (T : Nat) (t : Words)

def bbTbl (i : Nat) : Nat := t (2 + i)

/-- `bmt_tbl(bbt)[i].block`. -/
def block (i : Nat) : Nat := t (2 + T + 2 * i)

/-- `bmt_tbl(bbt)[i].mapped`. -/
def mapped (i : Nat) : Nat := t (2 + T + 2 * i + 1)

def setBb (i v : Nat) : Words := Function.update t (2 + i) v

def setBlock (i v : Nat) : Words := Function.update t (2 + T + 2 * i) v

def setMapped (i v : Nat) : Words := Function.update t (2 + T + 2 * i + 1) v

def sign : Words := fun i => if i < 2 then signature i else t i

def clearPool : Words := fun i => if 2 + T ≤ i ∧ i < 2 + T + 2 * T then 0 else t i

end Words

/-!
## The flash
-/

/-- The start of a block, and the first spare bytes of its first page. -/
structure Block where
  words : Words
  fdm : Nat -> Nat

structure Chip where
  readOk : Nat -> Bool
  eraseOk : Nat -> Nat -> Bool
  writeOk : Nat -> Nat -> Bool
  /-- A block whose write failed. -/
  spoiled : Nat -> Block -> Block
  /-- What `bbt_nand_copy` makes of the destination block. -/
  copied : Nat -> Block -> Block -> Nat -> Block

structure Flash where
  blocks : Nat -> Block
  clock : Nat

def blank : Block := { words := fun _ => 0xffff, fdm := fun _ => 0xff }

section

variable (G : Geometry) (C : Chip)

def bbtNandErase (b : Nat) (f : Flash) : Bool × Flash :=
  if C.eraseOk f.clock b then
    (true, { blocks := Function.update f.blocks b blank, clock := f.clock + 1 })
  else
    (false, { f with clock := f.clock + 1 })

def Block.withTable (old : Block) (t : Words) : Block :=
  { words := fun i => if i < G.bufWords then t i else old.words i
    fdm := fun i => if 1 ≤ i ∧ i ≤ 3 then oobSignature i else old.fdm i }

def writeBmt (b : Nat) (t : Words) (f : Flash) : Bool × Flash :=
  if C.writeOk f.clock b then
    (true, { blocks := Function.update f.blocks b ((f.blocks b).withTable G t)
             clock := f.clock + 1 })
  else
    (false, { blocks := Function.update f.blocks b (C.spoiled f.clock (f.blocks b))
              clock := f.clock + 1 })

def bbtNandCopy (dest src len : Nat) (f : Flash) : Flash :=
  { blocks := Function.update f.blocks dest (C.copied f.clock (f.blocks dest) (f.blocks src) len)
    clock := f.clock + 1 }

/-!
## scan_bad_blocks
-/

def badBlock (f : Flash) (b : Nat) : Bool :=
  !C.readOk (G.readBlk b) || (f.blocks (G.readBlk b)).fdm 0 != 0xff

/-- `left` is how many more bad blocks are passed over. -/
def findValidLoop (f : Flash) : Nat -> Nat -> Nat
  | left, b =>
      if G.totalBlks ≤ b then 0
      else if badBlock G C f b then
        match left with
        | 0 => 0
        | left + 1 => findValidLoop f left (b + 1)
      else b

def findValidBlock (f : Flash) (b : Nat) : Nat := findValidLoop G C f G.bbMax b

def scanBlocks (f : Flash) : Nat -> Nat -> Words -> Option Words
  | 0, _, t => some t
  | n + 1, i, t =>
      let b := findValidBlock G C f (t.bbTbl (i - 1) + 1)
      if b = 0 then none else scanBlocks f n (i + 1) (t.setBb i b)

/-- The entries of the pool, and how many there are; each turn goes to a higher block. -/
def scanPool (f : Flash) : Nat -> Nat -> Nat -> Words -> Words × Nat
  | 0, _, i, t => (t, i)
  | fuel + 1, b, i, t =>
      let b := findValidBlock G C f b
      if b = 0 then (t, i)
      else
        scanPool f fuel (b + 1) (i + 1)
          ((t.setBlock G.tableSize i b).setMapped G.tableSize i NO_MAPPED)

/-- The pool behind the mapped blocks: the table and `bmt_blk_idx`. -/
def markPool (f : Flash) (t : Words) : Option (Words × Nat) :=
  let poolPba := t.bbTbl (G.poolLba - 1) + 1
  if G.totalBlks ≤ poolPba + 2 then none
  else
    let r := scanPool G C f G.totalBlks poolPba 0 t
    if r.2 < 1 then none
    else some (r.1.setMapped G.tableSize (r.2 - 1) BMT_MAPPED, r.2 - 1)

def scanBadBlocks (f : Flash) (t : Words) : Option (Words × Nat) :=
  (scanBlocks G C f (G.poolLba - 1) 1 (t.setBb 0 0)).bind (markPool G C f)

/-!
## upload_bmt
-/

/-- One attempt to store the table in pool entry `n`. -/
def tryUpload (n : Nat) (t : Words) (f : Flash) : Bool × Words × Flash :=
  let b := t.block G.tableSize n
  let e := bbtNandErase C b f
  if e.1 then
    let w := writeBmt G C b t.sign e.2
    if w.1 then (true, t.sign, w.2) else (false, t.sign.setBlock G.tableSize n 0, w.2)
  else
    (false, t.setBlock G.tableSize n 0, e.2)

/-- The entry that holds the table, 0xffff when there is none. -/
def uploadBmt : Nat -> Words -> Flash -> Nat × Words × Flash
  | n, t, f =>
      if t.mapped G.tableSize n = NORMAL_MAPPED then
        (0xffff, t, f)
      else
        match tryUpload G C n t f with
        | (true, t, f) => (n, t, f)
        | (false, t, f) =>
            match n with
            | 0 => (0xffff, t, f)
            | n + 1 => uploadBmt n t f

/-!
## mtk_bmt_init_v2
-/

/-- `bmtd` and the flash. -/
structure World where
  table : Words
  bmtBlkIdx : Nat
  flash : Flash

def isValidBmt (b : Block) : Bool :=
  b.words 0 == signature 0 && b.words 1 == signature 1 &&
    b.fdm 1 == oobSignature 1 && b.fdm 2 == oobSignature 2 && b.fdm 3 == oobSignature 3

/-- The index is a `u16`; the loop ends at an empty entry.  It is followed far enough to leave
the buffer. -/
def bmtIndexLoop (t : Words) : Nat -> Nat -> Nat
  | 0, _ => 0
  | fuel + 1, i =>
      if t.block G.tableSize i ≠ 0 then
        if t.mapped G.tableSize i = BMT_MAPPED then i % 2 ^ 16 else bmtIndexLoop t fuel (i + 1)
      else 0

def getBmtIndex (t : Words) : Nat := bmtIndexLoop G t (G.bufWords + 1) 0

inductive Search where
  | found (b : Nat) (t : Words) (idx : Nat)
  | wrongIndex (t : Words)
  | missing (t : Words)
  | endless

/-- The search through the `n` blocks from the pool's first one on, from the top. -/
def searchBmt (f : Flash) : Nat -> Words -> Search
  | 0, t => .missing t
  | n + 1, t =>
      let b := G.poolLba + n
      let r := G.readBlk b
      if C.readOk r then
        let t := fun i => if i < G.bufWords then (f.blocks r).words i else t i
        if isValidBmt (f.blocks r) then
          if getBmtIndex G t = 0 then .wrongIndex t else .found b t (getBmtIndex G t)
        else searchBmt f n t
      else searchBmt f n t

/-- The memory before the search: the buffer is filled with `0xff`. -/
def buffer (heap : Words) : Words := fun i => if i < G.bufWords then 0xffff else heap i

/-- The search ends in front of the pool.  No `u16` is below a `pool_lba` of 0: there it goes
on behind the chip, where nothing is found. -/
def Search.ended : Search -> Search
  | .missing t => if G.poolLba = 0 then .endless else .missing t
  | s => s

def search (heap : Words) (f : Flash) : Search :=
  (searchBmt G C f (G.totalBlks - G.poolLba) (buffer G heap)).ended G

def storeNew (f : Flash) (r : Words × Nat) : Option World :=
  let u := uploadBmt G C r.2 r.1 f
  if u.1 = 0xffff then none
  else some { table := u.2.1, bmtBlkIdx := u.1, flash := u.2.2 }

def create (t : Words) (f : Flash) : Option World :=
  if G.tableSize + G.tableSize * BBPOOL_RATIO / 100 < G.totalBlks then none
  else (scanBadBlocks G C f (t.clearPool G.tableSize)).bind (storeNew G C f)

def mtkBmtInit (heap : Words) (f : Flash) : Option World :=
  match search G C heap f with
  | .found _ t idx => some { table := t, bmtBlkIdx := idx, flash := f }
  | .wrongIndex t => create G C t f
  | .missing t => create G C t f
  | .endless => none

/-!
## remap_block_v2
-/

def freeEntry (t : Words) : Nat -> Nat -> Option Nat
  | 0, _ => none
  | n + 1, i =>
      if t.block G.tableSize i ≠ 0 ∧ t.mapped G.tableSize i = NO_MAPPED then some i
      else freeEntry t n (i + 1)

def remapBlock (block mappedBlock copyLen : Nat) (w : World) : Bool × World :=
  match freeEntry G w.table w.bmtBlkIdx 0 with
  | none => (false, w)
  | some i =>
      let newBlock := w.table.block G.tableSize i
      let t := (w.table.setMapped G.tableSize i NORMAL_MAPPED).setBb block newBlock
      let f := (bbtNandErase C newBlock w.flash).2
      let f := if 0 < copyLen then bbtNandCopy C newBlock mappedBlock copyLen f else f
      let r := uploadBmt G C w.bmtBlkIdx t f
      (true, { table := r.2.1, bmtBlkIdx := r.1, flash := r.2.2 })

structure Remap where
  block : Nat
  mappedBlock : Nat
  copyLen : Nat

def remapAll : List Remap -> World -> World
  | [], w => w
  | r :: rs, w => remapAll rs (remapBlock G C r.block r.mappedBlock r.copyLen w).2

end

end V2
end Bmt
end Hlk7621
