import Hlk7621.Nmbm.Chip

/-!
# Writing and rescuing the info tables

The functions of `mtk_bmt_nmbm.c` that write the main and the backup info table
into the management area, above `mgmt_start_ba` and below
`mapping_blocks_top_ba`.  Each returns its result and the driver after it.
-/

namespace Hlk7621
namespace Nmbm

variable (g : Geometry) (chip : Chip)

/-!
## Ranges of blocks
-/

def Dev.markBad (ba : Nat) (d : Dev) : Dev := (nmbmMarkPhysBadBlock d).setBad ba

def eraseRangeLoop : Nat -> Nat -> Dev -> Dev
  | 0, _, d => d
  | n + 1, ba, d =>
      if d.ni.blockState ba ≠ .good then eraseRangeLoop n (ba + 1) d
      else
        match nmbmCheckBadPhysBlock g chip ba d with
        | (true, d) => eraseRangeLoop n (ba + 1) (d.setBad ba)
        | (false, d) =>
            match nmbmEraseBlockAndCheck g chip ba d with
            | (true, d) => eraseRangeLoop n (ba + 1) d
            | (false, d) => eraseRangeLoop n (ba + 1) (d.markBad ba)

def nmbmEraseRange (ba limit : Nat) (d : Dev) : Dev := eraseRangeLoop g chip (limit - ba) ba d

/-- The loop of `nmbm_write_mgmt_range`; the first argument is `limit - ba`. -/
def writeMgmtLoop (size : Nat) : Nat -> Nat -> Nat -> Nat -> Dev -> Option (Nat × Nat) × Dev
  | 0, ba, sizeremain, start, d => (if sizeremain = 0 then some (start, ba) else none, d)
  | n + 1, ba, sizeremain, start, d =>
      if sizeremain = 0 then (some (start, ba), d)
      else
        let chunksize := min sizeremain g.blkSize
        if d.ni.blockState ba ≠ .good then writeMgmtLoop size n (ba + 1) sizeremain start d
        else
          match nmbmCheckBadPhysBlock g chip ba d with
          | (true, d) => writeMgmtLoop size n (ba + 1) sizeremain start (d.setBad ba)
          | (false, d) =>
              match nmbmEraseBlockAndCheck g chip ba d with
              | (false, d) => writeMgmtLoop size n (ba + 1) sizeremain start (d.markBad ba)
              | (true, d) =>
                  match nmbnWriteVerifyData g chip (ba2addr g ba) chunksize d with
                  | (false, d) => writeMgmtLoop size n (ba + 1) sizeremain start (d.markBad ba)
                  | (true, d) =>
                      writeMgmtLoop size n (ba + 1) (sizeremain - chunksize)
                        (if sizeremain = size then ba else start) d

/-- The first block and the block after the last one, if all of `size` bytes
could be written. -/
def nmbmWriteMgmtRange (ba limit size : Nat) (d : Dev) : Option (Nat × Nat) × Dev :=
  writeMgmtLoop g chip size (limit - ba) ba size 0 d

def nmbmWriteInfoTable (ba limit : Nat) (d : Dev) : Option (Nat × Nat) × Dev :=
  nmbmWriteMgmtRange g chip ba limit (infoTableSize g) d

/-- The loop of `nmbm_try_reserve_blocks`, from `count` down to `0`. -/
def nmbmTryReserveBlocks (ni : Instance) (ba limit : Nat) : Nat -> Option Nat
  | 0 => nmbmBlockWalkAsc g ni ba 0 limit
  | n + 1 =>
      match nmbmBlockWalkAsc g ni ba (n + 1) limit with
      | some nba => some nba
      | none => nmbmTryReserveBlocks ni ba limit n

/-- The reservation all callers make: `info_table_spare_blocks` blocks from `ba`,
leaving room for one more table below `mapping_blocks_top_ba`. -/
def reserveSpare (ni : Instance) (ba : Nat) : Option Nat :=
  nmbmTryReserveBlocks g ni ba
    (sub32 ni.mappingBlocksTopBa (size2blk g (infoTableSize g))) (infoTableSpareBlocks g)

/-- The retries `while (write_ba >= lowest)`, from `write_ba` downwards.  The
lowest block follows an info table, so it is not block 0. -/
def writeDownwards (lowest : Nat) : Nat -> Dev -> Option (Nat × Nat) × Dev
  | 0, d =>
      if lowest = 0 then nmbmWriteInfoTable g chip 0 d.ni.mappingBlocksTopBa d else (none, d)
  | writeBa + 1, d =>
      if lowest ≤ writeBa + 1 then
        match nmbmWriteInfoTable g chip (writeBa + 1) d.ni.mappingBlocksTopBa d with
        | (some table, d) => (some table, d)
        | (none, d) => writeDownwards lowest writeBa d
      else (none, d)

/-!
## The tables of an instance
-/

def Dev.update (f : Instance -> Instance) (d : Dev) : Dev := { d with ni := f d.ni }

def Instance.setMain (table : Nat × Nat) (ni : Instance) : Instance :=
  { ni with mainTableBa := table.1, mainTableEnd := table.2 }

def Instance.setBackup (table : Nat × Nat) (ni : Instance) : Instance :=
  { ni with backupTableBa := table.1, backupTableEnd := table.2 }

def Instance.main (ni : Instance) : Nat × Nat := (ni.mainTableBa, ni.mainTableEnd)

def Instance.backup (ni : Instance) : Nat × Nat := (ni.backupTableBa, ni.backupTableEnd)

/-- Block address 0 stands for a table that does not exist. -/
def noTable : Nat × Nat := (0, 0)

def Instance.setMappingBlocks (ba : Nat) (ni : Instance) : Instance :=
  { ni with mappingBlocksBa := ba }

def nmbmMarkTablesClean (ni : Instance) : Instance :=
  { ni with blockStateChanged := 0, blockMappingChanged := 0 }

def Instance.backupToMain (ni : Instance) : Instance := (ni.setMain ni.backup).setBackup noTable

/-- A change since the last clean table raises the write count. -/
def nmbmGenerateInfoTableCache (d : Dev) : Bool × Dev :=
  let d := { d with tables := d.ni :: d.tables }
  if d.ni.blockStateChanged ≠ 0 ∨ d.ni.blockMappingChanged ≠ 0 then
    (true, d.update fun ni => { ni with writeCount := u32 (ni.writeCount + 1) })
  else (false, d)

def nmbmRebuildInfoTable (d : Dev) : Bool × Dev :=
  let d := d.update fun ni =>
    ((ni.setMain noTable).setBackup noTable).setMappingBlocks ni.mappingBlocksTopBa
  match nmbmWriteInfoTable g chip d.ni.mgmtStartBa d.ni.mappingBlocksTopBa d with
  | (none, d) => (false, d.update fun ni => { ni with isProtected := true })
  | (some main, d) =>
      let d := d.update fun ni => nmbmMarkTablesClean ((ni.setMain main).setMappingBlocks main.2)
      match reserveSpare g d.ni main.2 with
      | none => (true, d)
      | some nextStartBa =>
          match nmbmWriteInfoTable g chip nextStartBa d.ni.mappingBlocksTopBa d with
          | (none, d) => (true, d)
          | (some backup, d) =>
              let d := d.update fun ni => (ni.setBackup backup).setMappingBlocks backup.2
              (true, nmbmEraseRange g chip main.2 backup.1 d)

def nmbmRescueSingleInfoTable (d : Dev) : Bool × Dev :=
  match nmbmWriteInfoTable g chip d.ni.mgmtStartBa d.ni.mainTableBa d with
  | (some table, d) =>
      let d := d.update fun ni => nmbmMarkTablesClean ((ni.setBackup ni.main).setMain table)
      (true, nmbmEraseRange g chip table.2 d.ni.backupTableBa d)
  | (none, d) =>
      match reserveSpare g d.ni d.ni.mappingBlocksBa with
      | none => (false, d)
      | some writeBa =>
          match writeDownwards g chip d.ni.mappingBlocksBa writeBa d with
          | (none, d) => (false, d)
          | (some table, d) =>
              let d := nmbmEraseRange g chip d.ni.mappingBlocksBa table.1 d
              (true, d.update fun ni =>
                nmbmMarkTablesClean ((ni.setBackup table).setMappingBlocks table.2))

def nmbmUpdateSingleInfoTable (updateMainTable : Bool) (d : Dev) : Bool × Dev :=
  if updateMainTable then
    match nmbmWriteInfoTable g chip d.ni.mainTableBa d.ni.backupTableBa d with
    | (some table, d) => (true, d.update fun ni => nmbmMarkTablesClean (ni.setMain table))
    | (none, d) => nmbmRescueSingleInfoTable g chip (d.update Instance.backupToMain)
  else
    match nmbmWriteInfoTable g chip d.ni.backupTableBa d.ni.mappingBlocksTopBa d with
    | (some table, d) =>
        (true, d.update fun ni =>
          nmbmMarkTablesClean ((ni.setBackup table).setMappingBlocks table.2))
    | (none, d) =>
        (false, d.update fun ni =>
          (ni.setMappingBlocks ni.backupTableBa).setBackup noTable)

/-- The end of `nmbm_rescue_main_info_table`, when the new main table has grown
over the temporary one. -/
def rewriteBackup (main : Nat × Nat) (d : Dev) : Bool × Dev :=
  let d := d.update fun ni => ni.setMappingBlocks main.2
  match reserveSpare g d.ni main.2 with
  | none => (true, d.update fun ni => ni.setBackup noTable)
  | some writeBa =>
      match writeDownwards g chip main.2 writeBa d with
      | (none, d) => (true, d.update fun ni => ni.setBackup noTable)
      | (some table, d) =>
          let d := d.update fun ni => (ni.setBackup table).setMappingBlocks table.2
          (true, nmbmEraseRange g chip main.2 table.1 d)

def nmbmRescueMainInfoTable (d : Dev) : Bool × Dev :=
  match reserveSpare g d.ni d.ni.mappingBlocksBa with
  | none => (true, d.update Instance.backupToMain)
  | some writeBa =>
      match writeDownwards g chip d.ni.mappingBlocksBa writeBa d with
      | (none, d) => (true, d.update Instance.backupToMain)
      | (some tmp, d) =>
          let d := d.update fun ni => ni.setMappingBlocks tmp.2
          match nmbmWriteInfoTable g chip d.ni.mgmtStartBa tmp.1 d with
          | (none, d) =>
              (true, d.update fun ni =>
                nmbmMarkTablesClean ((ni.setMain tmp).setBackup noTable))
          | (some main, d) =>
              let d := d.update fun ni => nmbmMarkTablesClean (ni.setMain main)
              if main.2 ≤ tmp.1 then (true, d.update fun ni => ni.setBackup tmp)
              else rewriteBackup g chip main d

/-- From the label `write_main_table` on. -/
def writeMainTable (mainTableLimit : Nat) (d : Dev) : Bool × Dev :=
  if d.ni.mainTableBa = 0 then nmbmRebuildInfoTable g chip d
  else
    match nmbmWriteInfoTable g chip d.ni.mainTableBa mainTableLimit d with
    | (none, d) =>
        if d.ni.backupTableBa = 0 then nmbmRebuildInfoTable g chip d
        else nmbmRescueMainInfoTable g chip d
    | (some table, d) =>
        let d := d.update fun ni => ni.setMain table
        let d := if d.ni.backupTableBa = 0 then d.update fun ni => ni.setMappingBlocks table.2
          else d
        (true, d.update nmbmMarkTablesClean)

def nmbmUpdateInfoTableOnce (force : Bool) (d : Dev) : Bool × Dev :=
  match nmbmGenerateInfoTableCache d with
  | (changed, d) =>
      if !changed && !force then (true, d)
      else if d.ni.backupTableBa = 0 then writeMainTable g chip d.ni.mappingBlocksTopBa d
      else
        match nmbmWriteInfoTable g chip d.ni.backupTableBa d.ni.mappingBlocksTopBa d with
        | (none, d) =>
            let d := d.update fun ni =>
              (ni.setMappingBlocks ni.backupTableBa).setBackup noTable
            writeMainTable g chip d.ni.mappingBlocksTopBa d
        | (some table, d) =>
            let d := d.update fun ni =>
              nmbmMarkTablesClean ((ni.setBackup table).setMappingBlocks table.2)
            writeMainTable g chip d.ni.backupTableBa d

/-- The loop of `nmbm_update_info_table`.  Every round but the last finds a new bad
block; `fuel` bounds the rounds. -/
def updateRounds : Nat -> Dev -> Bool × Dev
  | 0, d => (true, d)
  | fuel + 1, d =>
      if d.ni.blockStateChanged ≠ 0 ∨ d.ni.blockMappingChanged ≠ 0 then
        match nmbmUpdateInfoTableOnce g chip false d with
        | (false, d) => (false, d)
        | (true, d) => updateRounds fuel d
      else (true, d)

def nmbmUpdateInfoTable (fuel : Nat) (d : Dev) : Bool × Dev :=
  if d.ni.isProtected then (true, d) else updateRounds g chip fuel d

end Nmbm
end Hlk7621
