import Hlk7621.Nmbm.Tables

/-!
# Attaching to a chip and remapping blocks

`nmbm_attach` with both of its paths, the creation of the management area and
the search for existing tables, and `remap_block_nmbm`.
-/

namespace Hlk7621
namespace Nmbm

variable (g : Geometry) (chip : Chip)

/-!
## Mapping a logical block
-/

/-- What the call under way has met: a state in which it looked for a spare block,
or a state taken from info tables of which the last one ends before a block. -/
inductive Meeting where
  | map (ni : Instance)
  | load (ni : Instance) (tableEndBa : Nat)

structure Call where
  dev : Dev
  met : List Meeting

def Call.update (f : Instance -> Instance) (c : Call) : Call := { c with dev := c.dev.update f }

def nmbmMapBlock (fuel lb : Nat) (c : Call) : Bool × Call :=
  let c := { c with met := .map c.dev.ni :: c.met }
  let ni := c.dev.ni
  if ni.mappingBlocksBa = ni.mappingBlocksTopBa then (false, c)
  else
    match nmbmBlockWalkDesc g ni ni.mappingBlocksTopBa 0 ni.mappingBlocksBa with
    | none =>
        let c := { c with dev := (nmbmUpdateInfoTable g chip fuel c.dev).2 }
        (false, c.update fun ni => { ni with mappingBlocksTopBa := ni.mappingBlocksBa })
    | some pb =>
        (true, c.update fun ni =>
          { ni with
            blockMapping := fun l => if l = lb then (pb : Int) else ni.blockMapping l
            mappingBlocksTopBa := ni.mappingBlocksTopBa - 1
            blockMappingChanged := ni.blockMappingChanged + 1 })

/-!
## Creating the management area
-/

def scanBadblocks : Nat -> Nat -> Dev -> Dev
  | 0, _, d => d
  | n + 1, ba, d =>
      match nmbmCheckBadPhysBlock g chip ba d with
      | (true, d) => scanBadblocks n (ba + 1) (d.setBad ba)
      | (false, d) => scanBadblocks n (ba + 1) d

def nmbmScanBadblocks (d : Dev) : Dev := scanBadblocks g chip g.totalBlks 0 d

/-- The first loop of `nmbm_build_mapping_table`: the mapping and the number of
blocks mapped. -/
def mapGoodBlocks (state : Nat -> BlockState) :
    Nat -> Nat -> Nat -> (Nat -> Int) -> (Nat -> Int) × Nat
  | 0, _, lb, mapping => (mapping, lb)
  | n + 1, pb, lb, mapping =>
      if state pb = .bad then mapGoodBlocks state n (pb + 1) lb mapping
      else
        mapGoodBlocks state n (pb + 1) (lb + 1) fun l => if l = lb then (pb : Int) else mapping l

def nmbmBuildMappingTable (ni : Instance) : Instance :=
  let built := mapGoodBlocks ni.blockState ni.mgmtStartBa 0 0 ni.blockMapping
  { ni with
    blockMapping := fun l => if built.2 ≤ l ∧ l < g.totalBlks then -1 else built.1 l
    dataBlockCount := built.2 }

/-- The loop of `nmbm_write_signature`, from `ba` downwards. -/
def writeSignatureLoop (limit : Nat) : Nat -> Dev -> Option Nat × Dev
  | 0, d => (none, d)
  | ba + 1, d =>
      if limit < ba + 1 then
        if d.ni.blockState (ba + 1) ≠ .good then writeSignatureLoop limit ba d
        else
          match nmbmCheckBadPhysBlock g chip (ba + 1) d with
          | (true, d) => writeSignatureLoop limit ba (d.setBad (ba + 1))
          | (false, d) =>
              match nmbmEraseBlockAndCheck g chip (ba + 1) d with
              | (false, d) => writeSignatureLoop limit ba (d.markBad (ba + 1))
              | (true, d) =>
                  match nmbmWriteRepeatedData g chip (ba + 1) signatureSize d with
                  | (true, d) => (some (ba + 1), d)
                  | (false, d) => writeSignatureLoop limit ba (d.markBad (ba + 1))
      else (none, d)

def nmbmWriteSignature (limit : Nat) (d : Dev) : Option Nat × Dev :=
  writeSignatureLoop g chip limit (g.totalBlks - 1) d

/-- The loop over the bad blocks at the end of the data area. -/
def mapEndBlocks (fuel : Nat) : Nat -> Nat -> Call -> Call
  | 0, _, c => c
  | n + 1, lb, c =>
      match nmbmMapBlock g chip fuel lb c with
      | (false, c) => c
      | (true, c) =>
          mapEndBlocks fuel n (lb + 1)
            (c.update fun ni => { ni with dataBlockCount := ni.dataBlockCount + 1 })

def nmbmCreateInfoTable (fuel : Nat) (d : Dev) : Bool × Call :=
  match nmbmBlockWalkDesc g d.ni d.ni.signatureBa 1 d.ni.mgmtStartBa with
  | none => (false, { dev := d, met := [] })
  | some top =>
      let d := d.update fun ni => { ni with mappingBlocksTopBa := top }
      let d := (nmbmGenerateInfoTableCache d).2
      match nmbmRebuildInfoTable g chip d with
      | (false, d) => (false, { dev := d, met := [] })
      | (true, d) =>
          let c := mapEndBlocks g chip fuel (d.ni.mgmtStartBa - d.ni.dataBlockCount)
            d.ni.dataBlockCount { dev := d, met := [] }
          match nmbmUpdateInfoTable g chip fuel c.dev with
          | (success, d) => (success, { c with dev := d })

def mgmtStart : Nat :=
  let start := u32 (g.totalBlks * sub32 NMBM_MGMT_DIV g.maxRatio) / NMBM_MGMT_DIV
  if g.maxReservedBlocks ≠ 0 ∧ sub32 g.totalBlks start > g.maxReservedBlocks then
    sub32 g.totalBlks g.maxReservedBlocks
  else start

def nmbmCreateNew (fuel : Nat) (d : Dev) : Bool × Call :=
  let d := d.update fun ni => { ni with mgmtStartBa := mgmtStart g }
  let d := nmbmScanBadblocks g chip d
  let d := d.update (nmbmBuildMappingTable g)
  match nmbmWriteSignature g chip d.ni.mgmtStartBa d with
  | (none, d) => (false, { dev := d, met := [] })
  | (some ba, d) =>
      nmbmCreateInfoTable g chip fuel (d.update fun ni => { ni with signatureBa := ba })

/-!
## Loading existing tables
-/

def nmbmCheckInfoTableHeader (data : Bytes) : Bool :=
  if le32 data 0 ≠ NMBM_MAGIC_INFO_TABLE then false
  else if le32 data 8 ≠ infoTableSize g then false
  else if sub32 (le32 data 24) (le32 data 20) < stateTableSize g then false
  else if sub32 (infoTableSize g) (le32 data 24) < mappingTableSize g then false
  else true

/-- The first loop of `nmbm_check_info_table` over the logical blocks `ba`,
`ba + 1`, …: the lowest remapped block, or `none` if an entry is refused. -/
def checkMapping (ni : Instance) (endBa : Nat) (mapping : Nat -> Int) :
    Nat -> Nat -> Nat -> Option Nat
  | 0, _, minimum => some minimum
  | n + 1, ba, minimum =>
      let pb := asU32 (mapping ba)
      if (ni.dataBlockCount ≤ pb ∧ pb < endBa) ∨ pb = ni.signatureBa then none
      else
        checkMapping ni endBa mapping n (ba + 1)
          (if endBa ≤ pb ∧ pb < minimum then pb else minimum)

def checkTableStates (ni : Instance) (state : Nat -> BlockState) : Nat -> Nat -> Bool
  | 0, _ => true
  | n + 1, ba =>
      if ni.blockState ba = .good ∧ state ba ≠ .good then false
      else checkTableStates ni state n (ba + 1)

/-- `mapping_blocks_top_ba` according to a table, if the table is accepted. -/
def nmbmCheckInfoTable (ni : Instance) (startBa endBa : Nat) (data : Bytes) : Option Nat :=
  let mapping := mappingEntry data (le32 data 24)
  let state := nmbmGetBlockStateRaw data (le32 data 20)
  match checkMapping ni endBa mapping ni.dataBlockCount 0 ni.signatureBa with
  | none => none
  | some minimum =>
      if checkTableStates ni state (endBa - startBa) startBa then some (sub32 minimum 1) else none

/-- The loop of `nmbm_try_load_info_table`: the first block of the table, the block
after it and its bytes. -/
def loadTableLoop : Nat -> Nat -> Nat -> Option Nat -> Bytes -> Dev ->
    Option (Nat × Nat × Bytes) × Dev
  | 0, ba, sizeremain, start, data, d =>
      (if sizeremain = 0 then some (start.getD 0, ba, data) else none, d)
  | n + 1, ba, sizeremain, start, data, d =>
      if sizeremain = 0 then (some (start.getD 0, ba, data), d)
      else if d.ni.blockState ba ≠ .good then loadTableLoop n (ba + 1) sizeremain start data d
      else
        match nmbmCheckBadPhysBlock g chip ba d with
        | (true, d) => loadTableLoop n (ba + 1) sizeremain start data (d.setBad ba)
        | (false, d) =>
            let chunksize := min sizeremain g.blkSize
            match nmbnReadData g chip (ba2addr g ba) chunksize d with
            | ((ret, bytes), d) =>
                if ret < 0 then loadTableLoop n (ba + 1) sizeremain start data (d.setBad ba)
                else if 0 < ret then (none, d)
                else if start = none ∧ nmbmCheckInfoTableHeader g bytes = false then (none, d)
                else
                  loadTableLoop n (ba + 1) (sizeremain - chunksize)
                    (some (start.getD ba)) (data ++ bytes) d

/-- An info table found: the block after it, its write count, and the
`mapping_blocks_top_ba` it gives. -/
structure Found where
  endBa : Nat
  writeCount : Nat
  topBa : Nat

def Instance.takeTable (data : Bytes) (ni : Instance) : Instance :=
  { ni with
    writeCount := le32 data 16
    blockState := nmbmGetBlockStateRaw data (le32 data 20)
    blockMapping := mappingEntry data (le32 data 24) }

def nmbmTryLoadInfoTable (ba : Nat) (tableLoaded : Bool) (d : Dev) : Option Found × Dev :=
  match loadTableLoop g chip (size2blk g (infoTableSize g)) ba (infoTableSize g) none [] d with
  | (none, d) => (none, d)
  | (some (start, endBa, data), d) =>
      if nmbmCheckHeader data (infoTableSize g) then
        match nmbmCheckInfoTable d.ni start endBa data with
        | none => (none, d)
        | some top =>
            let found := { endBa := endBa, writeCount := le32 data 16, topBa := top }
            if tableLoaded = false ∨ le32 data 16 > d.ni.writeCount then
              (some found, d.update (Instance.takeTable data))
            else (some found, d)
      else (none, d)

def searchLoop (tableLoaded : Bool) : Nat -> Nat -> Dev -> Option (Nat × Found) × Dev
  | 0, _, d => (none, d)
  | n + 1, ba, d =>
      match nmbmTryLoadInfoTable g chip ba tableLoaded d with
      | (some found, d) => (some (ba, found), d)
      | (none, d) => searchLoop tableLoaded n (ba + 1) d

def nmbmSearchInfoTable (ba limit : Nat) (tableLoaded : Bool) (d : Dev) :
    Option (Nat × Found) × Dev :=
  searchLoop g chip tableLoaded (sub32 limit (size2blk g (infoTableSize g)) - ba) ba d

/-- The last logical block that is mapped decides `data_block_count`. -/
def finalCount (mapping : Nat -> Int) (count : Nat) : Nat -> Nat
  | 0 => count
  | i + 1 => if 0 ≤ mapping i then i + 1 else finalCount mapping count i

/-- If only one table exists, another one is written; if the write counts differ, the
older table is updated. -/
def completeTables (mainWriteCount : Nat) (backupWriteCount : Option Nat) (d : Dev) : Bool × Dev :=
  if d.ni.backupTableBa = 0 then nmbmRescueSingleInfoTable g chip d
  else
    match backupWriteCount with
    | none => (true, d)
    | some count =>
        if mainWriteCount ≠ count then
          nmbmUpdateSingleInfoTable g chip (mainWriteCount < count)
            (d.update fun ni => { ni with blockStateChanged := 1, blockMappingChanged := 1 })
        else (true, d)

/-- `nmbm_load_info_table` after its two searches. -/
def finishLoad (mainWriteCount : Nat) (backupWriteCount : Option Nat) (d : Dev) : Dev :=
  match completeTables g chip mainWriteCount backupWriteCount (nmbmGenerateInfoTableCache d).2 with
  | (success, d) =>
      if d.ni.mappingBlocksBa = d.ni.mappingBlocksTopBa ∨ success = false then
        d.update fun ni => { ni with isProtected := true }
      else d

def Instance.loaded (topBa tableEndBa : Nat) (ni : Instance) : Instance :=
  { ni with
    mappingBlocksTopBa := topBa
    mappingBlocksBa := tableEndBa
    dataBlockCount := finalCount ni.blockMapping ni.dataBlockCount ni.mgmtStartBa }

def nmbmLoadInfoTable (ba limit : Nat) (d : Dev) : Bool × Call :=
  let d := d.update fun ni =>
    { (ni.setMain noTable).setBackup noTable with
      writeCount := 0
      mappingBlocksTopBa := sub32 ni.signatureBa 1
      dataBlockCount := ni.mgmtStartBa }
  match nmbmSearchInfoTable g chip ba limit false d with
  | (none, d) => (false, { dev := d, met := [] })
  | (some (mainBa, main), d) =>
      let d := d.update (Instance.setMain (mainBa, main.endBa))
      match nmbmSearchInfoTable g chip main.endBa limit true d with
      | (none, d) =>
          let d := d.update (Instance.loaded main.topBa main.endBa)
          (true, { dev := finishLoad g chip main.writeCount none d,
                   met := [.load d.ni main.endBa] })
      | (some (backupBa, backup), d) =>
          let d := d.update (Instance.setBackup (backupBa, backup.endBa))
          let topBa := if main.writeCount ≥ backup.writeCount then main.topBa else backup.topBa
          let d := d.update (Instance.loaded topBa backup.endBa)
          (true, { dev := finishLoad g chip main.writeCount (some backup.writeCount) d,
                   met := [.load d.ni backup.endBa] })

def nmbmLoadExisting (fuel mgmtStartPb : Nat) (d : Dev) : Bool × Call :=
  let d := d.update fun ni => { ni with mgmtStartBa := mgmtStartPb }
  match nmbmLoadInfoTable g chip d.ni.mgmtStartBa d.ni.signatureBa d with
  | (true, c) => (true, c)
  | (false, c) =>
      if g.forceCreate then
        let d := nmbmScanBadblocks g chip c.dev
        nmbmCreateInfoTable g chip fuel (d.update (nmbmBuildMappingTable g))
      else (false, c)

/-!
## Attaching
-/

/-- The pages of one block in `nmbm_find_signature`. -/
def findInBlock (addr : Nat) : Nat -> Dev -> Option Signature × Dev
  | 0, d => (none, d)
  | n + 1, d =>
      match nmbnReadData g chip addr signatureSize d with
      | ((ret, bytes), d) =>
          if ret = 0 ∧ nmbmCheckHeader bytes signatureSize = true ∧
              le32 bytes 0 = NMBM_MAGIC_SIGNATURE then
            (some (Signature.ofBytes bytes), d)
          else findInBlock (addr + g.pgSize) n d

/-- The blocks below `ba`, down to the block before `limit`.  With a limit of 0 the
loop condition never fails: the outer `none` is a search that does not return. -/
def findSignatureLoop (limit : Nat) : Nat -> Dev -> Option (Option (Signature × Nat)) × Dev
  | 0, d => (if limit = 0 then none else some none, d)
  | ba + 1, d =>
      if limit ≤ ba + 1 then
        match nmbmCheckBadPhysBlock g chip ba d with
        | (true, d) => findSignatureLoop limit ba d
        | (false, d) =>
            match findInBlock g chip (ba2addr g ba) (pages g g.blkSize) d with
            | (some sig, d) => (some (some (sig, ba)), d)
            | (none, d) => findSignatureLoop limit ba d
      else (some none, d)

def nmbmFindSignature (d : Dev) : Option (Option (Signature × Nat)) × Dev :=
  let limit := u32 (g.totalBlks / NMBM_MGMT_DIV * sub32 NMBM_MGMT_DIV g.maxRatio)
  let limit :=
    if g.maxReservedBlocks ≠ 0 ∧ sub32 g.totalBlks limit > g.maxReservedBlocks then
      sub32 g.totalBlks g.maxReservedBlocks
    else limit
  findSignatureLoop g chip limit g.totalBlks d

/-- A zeroed instance after `nmbm_init_structure`. -/
def nmbmInitStructure : Instance :=
  { blockState := fun _ => .good
    blockStateChanged := 0
    blockMapping := fun _ => 0
    blockMappingChanged := 0
    writeCount := 0
    isProtected := false
    dataBlockCount := 0
    mgmtStartBa := 0
    mainTableBa := 0
    mainTableEnd := 0
    backupTableBa := 0
    backupTableEnd := 0
    mappingBlocksBa := 0
    mappingBlocksTopBa := 0
    signatureBa := 0 }

/-- The result is `none` if the call does not return. -/
def nmbmAttach (fuel : Nat) (d : Dev) : Option Bool × Call :=
  let d := { d with ni := nmbmInitStructure }
  match nmbmFindSignature g chip d with
  | (none, d) => (none, { dev := d, met := [] })
  | (some none, d) =>
      if g.forceCreate then
        match nmbmCreateNew g chip fuel d with
        | (success, c) => (some success, c)
      else (some false, { dev := d, met := [] })
  | (some (some (sig, ba)), d) =>
      if sig.version ≠ NMBM_VER then (some false, { dev := d, met := [] })
      else if sig.nandSize ≠ g.totalBlks * g.blkSize ∨ sig.blockSize ≠ g.blkSize ∨
          sig.pageSize ≠ g.pgSize ∨ sig.spareSize ≠ g.oobsize then
        (some false, { dev := d, met := [] })
      else
        match nmbmLoadExisting g chip fuel sig.mgmtStartPb
            (d.update fun ni => { ni with signatureBa := ba }) with
        | (success, c) => (some success, c)

/-!
## Remapping
-/

/-- `bbt_nand_erase`, whose argument has 16 bits and whose result is dropped. -/
def bbtNandErase (block : Int) (lb : Nat) (d : Dev) : Dev :=
  (erase g chip (block % 2 ^ 16).toNat (some lb) d).2

def remapBlockNmbm (fuel block mappedBlock : Nat) (copyLen : Int) (d : Dev) : Bool × Call :=
  if d.ni.dataBlockCount ≤ block then (false, { dev := d, met := [] })
  else
    match nmbmMapBlock g chip fuel block { dev := d.setBad mappedBlock, met := [] } with
    | (false, c) => (false, c)
    | (true, c) =>
        let newBlock := c.dev.ni.blockMapping block
        let d := bbtNandErase g chip newBlock block c.dev
        let d := if 0 < copyLen then
            bbtNandCopy g chip (newBlock % 2 ^ 16).toNat mappedBlock copyLen.toNat d
          else d
        (true, { c with dev := (nmbmUpdateInfoTable g chip fuel d).2 })

/-!
## Runs
-/

/-- A call of the driver; `fuel` bounds the rounds of its table updates. -/
inductive Action where
  | attach (fuel : Nat)
  | remap (fuel block mappedBlock : Nat) (copyLen : Int)

/-- The driver between calls: an instance if the last attach succeeded, what has been
noted down so far, and what the last call met. -/
structure World where
  ni : Option Instance
  calls : Nat
  erased : List Erasure
  tables : List Instance
  met : List Meeting

def World.fresh : World :=
  { ni := none, calls := 0, erased := [], tables := [], met := [] }

def World.enter (w : World) (ni : Instance) : Dev :=
  { ni := ni, calls := w.calls, erased := w.erased, tables := w.tables }

def World.leave (c : Call) (alive : Bool) : World :=
  { ni := if alive then some c.dev.ni else none
    calls := c.dev.calls, erased := c.dev.erased, tables := c.dev.tables, met := c.met }

/-- A failed attach frees its instance. -/
def step (w : World) : Action -> World
  | .attach fuel =>
      match nmbmAttach g chip fuel (w.enter nmbmInitStructure) with
      | (result, c) => World.leave c (result == some true)
  | .remap fuel block mappedBlock copyLen =>
      match w.ni with
      | none => { w with met := [] }
      | some ni =>
          World.leave (remapBlockNmbm g chip fuel block mappedBlock copyLen (w.enter ni)).2 true

def run (actions : List Action) : World := actions.foldl (step g chip) World.fresh

end Nmbm
end Hlk7621
