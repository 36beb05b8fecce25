import Hlk7621.Lib.Flash
import Hlk7621.Lib.GoodBlocks

/-!
# Flash access of the environment tools

Model of `flash_read_buf` and `flash_write_buf` of `tools/env/fw_env.c`.  On NAND both
go block by block and skip bad blocks; on the other devices they are done in one
step, and the step of the writer is as long as the configured sectors.

`lseek`, `read`, `write` and the `ioctl`s on good blocks are taken to succeed on the
whole range; `MEMGETBADBLOCK` can fail.
-/

namespace Hlk7621
namespace Env
namespace Fwenv

/-!
## The code
-/

/-- The types of devices that `check_device_config` admits. -/
inductive MtdType where
  | absent | norflash | nandflash | dataflash | ubivolume
  deriving DecidableEq, Repr

/-- `struct envdev_s`: `DEVOFFSET`, `DEVESIZE`, `ENVSECTORS` and `DEVTYPE`. -/
structure EnvDev where
  devoff : Nat
  eraseSize : Nat
  envSectors : Nat
  mtdType : MtdType

def environmentEnd (dev : EnvDev) : Nat := dev.devoff + dev.envSectors * dev.eraseSize

section

variable (dev : EnvDev) (getBadBlock : Nat -> Int)

/-- `flash_bad_block`: negative if the test fails, positive for a bad block. -/
def flashBadBlock (blockstart : Nat) : Int :=
  if dev.mtdType = .nandflash then getBadBlock blockstart else 0

def flashReadLoop (mem : Nat -> UInt8) (count blocklen : Nat) :
    Nat -> Nat -> Nat -> Nat -> Nat -> Option Bytes
  | 0, _, _, _, _ => none
  | fuel + 1, processed, readlen, blockSeek, blockstart =>
      if processed < count then
        let rc := flashBadBlock dev getBadBlock blockstart
        if rc < 0 then none
        else if environmentEnd dev < blockstart + blockSeek + readlen then none
        else if rc ≠ 0 then
          flashReadLoop mem count blocklen fuel processed readlen blockSeek
            (blockstart + blocklen)
        else
          (flashReadLoop mem count blocklen fuel (processed + readlen)
            (min blocklen (count - (processed + readlen))) 0 (blockstart + blocklen)).map
              (window mem (blockstart + blockSeek) readlen ++ ·)
      else some []

def flashReadBuf (mem : Nat -> UInt8) (count offset : Nat) : Option Bytes :=
  let blockstart := offset / dev.eraseSize * dev.eraseSize
  let blockSeek := offset - blockstart
  let blocklen := if dev.mtdType = .nandflash then dev.eraseSize else 0
  let readlen := if dev.mtdType = .nandflash then min (blocklen - blockSeek) count else count
  flashReadLoop dev getBadBlock mem count blocklen (dev.envSectors + 2) 0 readlen blockSeek
    blockstart

/-- What is done to the device; the source of a write is an offset in the buffer. -/
inductive FlashOp where
  | erase (start length : Nat)
  | write (start source length : Nat)
  deriving DecidableEq, Repr

def FlashOp.start : FlashOp -> Nat
  | .erase start _ => start
  | .write start _ _ => start

def FlashOp.length : FlashOp -> Nat
  | .erase _ length => length
  | .write _ _ length => length

def blockOps (blockstart erasesize processed : Nat) : List FlashOp :=
  (if dev.mtdType = .absent ∨ dev.mtdType = .dataflash then []
    else [.erase blockstart erasesize]) ++ [.write blockstart processed erasesize]

/-- The loop of `flash_write_buf`: the return value, if it is not an error, and the
operations. -/
def flashWriteLoop (erasesize writeTotal : Nat) :
    Nat -> Nat -> Nat -> Option Nat × List FlashOp
  | 0, _, _ => (none, [])
  | fuel + 1, processed, blockstart =>
      if processed < writeTotal then
        let rc := flashBadBlock dev getBadBlock blockstart
        if rc < 0 then (none, [])
        else if environmentEnd dev < blockstart + erasesize then (none, [])
        else if rc ≠ 0 then
          flashWriteLoop erasesize writeTotal fuel processed (blockstart + erasesize)
        else
          let r := flashWriteLoop erasesize writeTotal fuel (processed + erasesize)
            (blockstart + erasesize)
          (r.1, blockOps dev blockstart erasesize processed ++ r.2)
      else (some processed, [])

/-- The memory of the device behind an operation; flash memory is programmed, and a
plain file and dataflash are overwritten. -/
def FlashOp.run (data : Nat -> UInt8) (mem : Nat -> UInt8) : FlashOp -> Nat -> UInt8
  | .erase start length => Flash.erase mem start length
  | .write start source length =>
      if dev.mtdType = .absent ∨ dev.mtdType = .dataflash then
        overwrite mem start (window data source length)
      else Flash.program mem start (window data source length)

def runOps (data : Nat -> UInt8) (mem : Nat -> UInt8) (ops : List FlashOp) : Nat -> UInt8 :=
  ops.foldl (FlashOp.run dev data) mem

def roundUp (x y : Nat) : Nat := (x + y - 1) / y * y

/-- Result of `flash_write_buf`, with the length of the buffer that it writes from,
its operations and the memory behind them. -/
structure FlashWritten where
  ret : Option Nat
  prepared : Nat
  ops : List FlashOp
  mem : Nat -> UInt8

/-- `erasesize`: one block on NAND, the whole area on the other devices. -/
def eraseLength (count : Nat) : Nat :=
  match dev.mtdType with
  | .absent => count
  | .nandflash => dev.eraseSize
  | _ => environmentEnd dev - dev.devoff

def writeTotal (count : Nat) : Nat :=
  if dev.mtdType = .absent then count else roundUp count dev.eraseSize

def source (data : Bytes) (behind : Nat -> UInt8) (i : Nat) : UInt8 :=
  if i < data.length then data.getD i 0 else behind i

/-- `flash_write_buf` of `buf`; `behind` is the memory behind the buffer that it writes
from.  The environment starts at the start of a block, so `block_seek` is zero. -/
def flashWriteBuf (mem : Nat -> UInt8) (buf : Bytes) (behind : Nat -> UInt8) : FlashWritten :=
  let total := writeTotal dev buf.length
  let prepared :=
    if buf.length < total then
      (flashReadBuf dev getBadBlock mem total dev.devoff).map (splice · 0 buf)
    else some buf
  match prepared with
  | none => ⟨none, 0, [], mem⟩
  | some data =>
      let r := flashWriteLoop dev getBadBlock (eraseLength dev buf.length) total
        (dev.envSectors + 2) 0 dev.devoff
      ⟨r.1, data.length, r.2, runOps dev (source data behind) mem r.2⟩

end

/-!
## Whole blocks
-/

def blocksFor (size count : Nat) : Nat := (count + size - 1) / size

theorem blocksFor_zero {size : Nat} (hsize : 0 < size) : blocksFor size 0 = 0 :=
  Nat.div_eq_of_lt (by lia)

theorem blocksFor_step {size count : Nat} (hsize : 0 < size) (hcount : 0 < count) :
    blocksFor size count = blocksFor size (count - min size count) + 1 := by
  unfold blocksFor
  rw [<- Nat.add_div_right _ hsize]
  rcases Nat.le_total size count with h | h
  · rw [Nat.min_eq_left h]
    congr 1
    lia
  · rw [Nat.min_eq_right h, Nat.sub_self]
    rw [Nat.div_eq_of_lt_le (k := 1) (by lia) (by lia),
      Nat.div_eq_of_lt_le (k := 1) (by lia) (by lia)]

theorem blocksFor_mul {size : Nat} (hsize : 0 < size) (need : Nat) :
    blocksFor size (need * size) = need := by
  unfold blocksFor
  rw [Nat.add_sub_assoc hsize, Nat.mul_comm, Nat.mul_add_div hsize,
    Nat.div_eq_of_lt (by lia), Nat.add_zero]

theorem le_roundUp {size : Nat} (hsize : 0 < size) (count : Nat) :
    count ≤ roundUp count size := by
  have h := Nat.div_add_mod (count + size - 1) size
  have hmod := Nat.mod_lt (count + size - 1) hsize
  rw [Nat.mul_comm] at h
  unfold roundUp
  lia

theorem roundUp_le {size count n : Nat} (hsize : 0 < size) (h : count ≤ n * size) :
    roundUp count size ≤ n * size := by
  unfold roundUp
  refine Nat.mul_le_mul_right size ?_
  rw [Nat.div_le_iff_le_mul_add_pred hsize]
  rw [Nat.mul_comm] at h
  lia

theorem roundUp_eq (count size : Nat) : roundUp count size = blocksFor size count * size := rfl

theorem splice_front {old buf : Bytes} (h : buf.length ≤ old.length) :
    splice old 0 buf = buf ++ old.drop buf.length := by
  have hlen : old.length = buf.length + (old.drop buf.length).length := by
    rw [List.length_drop]
    lia
  unfold splice
  rw [hlen, window_append, window_overwrite_self, Nat.zero_add]
  congr 1
  rw [window_eq_iff]
  intro i hi
  rw [overwrite_of_ge (by lia), List.getElem_drop, List.getD_eq_getElem]

section

variable {dev : EnvDev} {getBadBlock : Nat -> Int} {mem : Nat -> UInt8}

def badStatus (dev : EnvDev) (getBadBlock : Nat -> Int) (blockstart : Nat) : Option Bool :=
  let rc := flashBadBlock dev getBadBlock blockstart
  if rc < 0 then none else some (decide (rc ≠ 0))

/-!
## Reading
-/

theorem window_take (mem : Nat -> UInt8) (off len count : Nat) :
    (window mem off len).take count = window mem off (min len count) := by
  rcases Nat.le_total count len with h | h
  · rw [Nat.min_eq_right h]
    exact window_slice mem off (i := 0) (by lia)
  · rw [Nat.min_eq_left h, List.take_of_length_le (by rwa [window_length])]

theorem flashReadLoop_nand {count n fuel processed blockstart : Nat} (hsize : 0 < dev.eraseSize)
    (hend : blockstart + n * dev.eraseSize = environmentEnd dev) (hfuel : n < fuel)
    (hle : processed ≤ count) :
    flashReadLoop dev getBadBlock mem count dev.eraseSize fuel processed
        (min dev.eraseSize (count - processed)) 0 blockstart =
      (GoodBlocks.pick dev.eraseSize (badStatus dev getBadBlock) n blockstart
        (blocksFor dev.eraseSize (count - processed))).map fun blocks =>
          (GoodBlocks.gather dev.eraseSize mem blocks).take (count - processed) := by
  induction n generalizing fuel processed blockstart with
  | zero =>
      cases fuel with
      | zero => lia
      | succ fuel =>
          rw [flashReadLoop]
          dsimp only
          by_cases hmore : processed < count
          · have hleft : 0 < count - processed := Nat.sub_pos_of_lt hmore
            have hover : environmentEnd dev <
                blockstart + 0 + min dev.eraseSize (count - processed) := by lia
            rw [if_pos hmore, blocksFor_step hsize hleft, if_pos hover]
            split <;> rfl
          · rw [if_neg hmore, show count - processed = 0 by lia, blocksFor_zero hsize]
            rfl
  | succ n ih =>
      cases fuel with
      | zero => lia
      | succ fuel =>
          rw [flashReadLoop]
          dsimp only
          by_cases hmore : processed < count
          · have hleft : 0 < count - processed := Nat.sub_pos_of_lt hmore
            have hmul := Nat.succ_mul n dev.eraseSize
            have hfits : ¬ environmentEnd dev <
                blockstart + 0 + min dev.eraseSize (count - processed) := by lia
            have hend' : blockstart + dev.eraseSize + n * dev.eraseSize = environmentEnd dev := by
              lia
            rw [if_pos hmore, if_neg hfits]
            by_cases hfails : flashBadBlock dev getBadBlock blockstart < 0
            · have hstatus : badStatus dev getBadBlock blockstart = none := if_pos hfails
              rw [if_pos hfails, blocksFor_step hsize hleft, GoodBlocks.pick, hstatus]
              rfl
            · rw [if_neg hfails]
              by_cases hbad : flashBadBlock dev getBadBlock blockstart ≠ 0
              · have hstatus : badStatus dev getBadBlock blockstart = some true := by
                  simp [badStatus, hfails, hbad]
                rw [if_pos hbad, ih hend' (by lia) hle, blocksFor_step hsize hleft]
                rw [GoodBlocks.pick, hstatus]
              · have hstatus : badStatus dev getBadBlock blockstart = some false := by
                  simp [badStatus, hfails, hbad]
                have hrest : count - (processed + min dev.eraseSize (count - processed)) =
                    count - processed - min dev.eraseSize (count - processed) :=
                  Nat.sub_add_eq _ _ _
                have hdrop : count - processed - dev.eraseSize =
                    count - processed - min dev.eraseSize (count - processed) := by omega
                have hle' : processed + min dev.eraseSize (count - processed) ≤ count := by
                  omega
                rw [if_neg hbad, ih hend' (by lia) hle', blocksFor_step hsize hleft,
                  GoodBlocks.pick, hstatus, hrest, Option.map_map, Option.map_map]
                refine congrArg (Option.map · _) (funext fun blocks => ?_)
                show window mem (blockstart + 0) (min dev.eraseSize (count - processed)) ++
                  (GoodBlocks.gather dev.eraseSize mem blocks).take _ =
                    (GoodBlocks.gather dev.eraseSize mem (blockstart :: blocks)).take _
                rw [GoodBlocks.gather_cons, List.take_append, window_take, window_length, hdrop]
                rfl
          · rw [if_neg hmore, show count - processed = 0 by lia, blocksFor_zero hsize,
              GoodBlocks.pick_zero]
            rfl

theorem flashReadBuf_nand (getBadBlock : Nat -> Int) (mem : Nat -> UInt8)
    (hnand : dev.mtdType = .nandflash) (hsize : 0 < dev.eraseSize)
    (haligned : dev.eraseSize ∣ dev.devoff) (count : Nat) :
    flashReadBuf dev getBadBlock mem count dev.devoff =
      (GoodBlocks.pick dev.eraseSize (badStatus dev getBadBlock) dev.envSectors dev.devoff
        (blocksFor dev.eraseSize count)).map fun blocks =>
          (GoodBlocks.gather dev.eraseSize mem blocks).take count := by
  unfold flashReadBuf
  dsimp only
  rw [if_pos hnand, if_pos hnand, Nat.div_mul_cancel haligned, Nat.sub_self, Nat.sub_zero]
  exact flashReadLoop_nand hsize rfl (by lia) (Nat.zero_le count)

theorem flashReadBuf_other (getBadBlock : Nat -> Int) (mem : Nat -> UInt8)
    (hother : dev.mtdType ≠ .nandflash) (haligned : dev.eraseSize ∣ dev.devoff) {count : Nat}
    (hfits : count ≤ dev.envSectors * dev.eraseSize) :
    flashReadBuf dev getBadBlock mem count dev.devoff =
      some (window mem dev.devoff count) := by
  have hgood : flashBadBlock dev getBadBlock dev.devoff = 0 := if_neg hother
  have hfits' : ¬ environmentEnd dev < dev.devoff + 0 + count := by
    unfold environmentEnd
    lia
  unfold flashReadBuf
  dsimp only
  rw [if_neg hother, if_neg hother, Nat.div_mul_cancel haligned, Nat.sub_self, flashReadLoop]
  dsimp only
  by_cases hpos : 0 < count
  · rw [if_pos hpos, hgood, if_neg (by decide), if_neg hfits', if_neg (by decide),
      flashReadLoop, if_neg (by lia), Option.map_some, List.append_nil]
    rfl
  · rw [if_neg hpos, show count = 0 by lia]
    rfl

/-!
## Writing
-/

theorem run_outside {data : Nat -> UInt8} {op : FlashOp} {a : Nat}
    (h : a < op.start ∨ op.start + op.length ≤ a) : op.run dev data mem a = mem a := by
  cases op with
  | erase start length => exact Flash.erase_outside h
  | write start source length =>
      have h' : a < start ∨ start + (window data source length).length ≤ a := by
        rw [window_length]
        exact h
      unfold FlashOp.run
      dsimp only
      split
      · exact h'.elim overwrite_of_lt overwrite_of_ge
      · exact Flash.program_outside h'

theorem runOps_outside {data : Nat -> UInt8} {ops : List FlashOp} {a : Nat}
    (h : forall op, op ∈ ops -> a < op.start ∨ op.start + op.length ≤ a) :
    runOps dev data mem ops a = mem a := by
  induction ops generalizing mem with
  | nil => rfl
  | cons op ops ih =>
      rw [runOps, List.foldl_cons, <- runOps, ih fun x hx => h x (List.mem_cons_of_mem _ hx)]
      exact run_outside (h op List.mem_cons_self)

theorem runOps_block (data : Nat -> UInt8) (blockstart erasesize processed : Nat) :
    runOps dev data mem (blockOps dev blockstart erasesize processed) =
      overwrite mem blockstart (window data processed erasesize) := by
  unfold runOps blockOps
  by_cases hplain : dev.mtdType = .absent ∨ dev.mtdType = .dataflash
  · rw [if_pos hplain]
    show FlashOp.run dev data mem (.write ..) = _
    unfold FlashOp.run
    exact if_pos hplain
  · rw [if_neg hplain]
    show FlashOp.run dev data (FlashOp.run dev data mem (.erase ..)) (.write ..) = _
    unfold FlashOp.run
    dsimp only
    rw [if_neg hplain, Flash.program_erased]
    · funext a
      unfold overwrite
      rw [window_length]
      split
      · rfl
      · rename_i hout
        exact Flash.erase_outside (by lia)
    · intro a hle hlt
      rw [window_length] at hlt
      exact Flash.erase_inside hle hlt

theorem runOps_append (data : Nat -> UInt8) (ops ops' : List FlashOp) :
    runOps dev data mem (ops ++ ops') = runOps dev data (runOps dev data mem ops) ops' :=
  List.foldl_append

def blocksOps (dev : EnvDev) : List Nat -> Nat -> List FlashOp
  | [], _ => []
  | b :: blocks, processed =>
      blockOps dev b dev.eraseSize processed ++ blocksOps dev blocks (processed + dev.eraseSize)

theorem runOps_blocks (data : Nat -> UInt8) (blocks : List Nat) (processed : Nat) :
    runOps dev data mem (blocksOps dev blocks processed) =
      GoodBlocks.scatter dev.eraseSize data blocks processed mem := by
  induction blocks generalizing processed mem with
  | nil => rfl
  | cons b blocks ih =>
      rw [blocksOps, runOps_append, runOps_block, ih]
      rfl

theorem flashWriteLoop_nand (getBadBlock : Nat -> Int) {n : Nat} (need : Nat) {fuel : Nat}
    (processed : Nat) {blockstart : Nat} (hsize : 0 < dev.eraseSize)
    (hend : blockstart + n * dev.eraseSize = environmentEnd dev) (hfuel : n < fuel) :
    match GoodBlocks.pick dev.eraseSize (badStatus dev getBadBlock) n blockstart need with
    | some blocks =>
        flashWriteLoop dev getBadBlock dev.eraseSize (processed + need * dev.eraseSize) fuel
          processed blockstart =
            (some (processed + need * dev.eraseSize), blocksOps dev blocks processed)
    | none =>
        (flashWriteLoop dev getBadBlock dev.eraseSize (processed + need * dev.eraseSize) fuel
          processed blockstart).1 = none := by
  induction n generalizing fuel need processed blockstart with
  | zero =>
      cases fuel with
      | zero => lia
      | succ fuel =>
          rw [flashWriteLoop]
          cases need with
          | zero =>
              rw [GoodBlocks.pick_zero, Nat.zero_mul, Nat.add_zero, if_neg (Nat.lt_irrefl _)]
              rfl
          | succ need =>
              have hmul := Nat.succ_mul need dev.eraseSize
              have hover : environmentEnd dev < blockstart + dev.eraseSize := by lia
              rw [GoodBlocks.pick, if_pos (by lia)]
              dsimp only
              rw [if_pos hover]
              split <;> rfl
  | succ n ih =>
      cases fuel with
      | zero => lia
      | succ fuel =>
          rw [flashWriteLoop]
          cases need with
          | zero =>
              rw [GoodBlocks.pick_zero, Nat.zero_mul, Nat.add_zero, if_neg (Nat.lt_irrefl _)]
              rfl
          | succ need =>
              have hmul := Nat.succ_mul need dev.eraseSize
              have hmul' := Nat.succ_mul n dev.eraseSize
              have hfits : ¬ environmentEnd dev < blockstart + dev.eraseSize := by lia
              have hend' : blockstart + dev.eraseSize + n * dev.eraseSize =
                  environmentEnd dev := by
                lia
              have htotal : processed + (need + 1) * dev.eraseSize =
                  processed + dev.eraseSize + need * dev.eraseSize := by
                lia
              rw [GoodBlocks.pick, if_pos (by lia)]
              dsimp only
              rw [if_neg hfits]
              by_cases hfails : flashBadBlock dev getBadBlock blockstart < 0
              · have hstatus : badStatus dev getBadBlock blockstart = none := if_pos hfails
                rw [if_pos hfails, hstatus]
              · rw [if_neg hfails]
                by_cases hbad : flashBadBlock dev getBadBlock blockstart ≠ 0
                · have hstatus : badStatus dev getBadBlock blockstart = some true := by
                    simp [badStatus, hfails, hbad]
                  rw [if_pos hbad, hstatus]
                  exact ih _ _ hend' (by lia)
                · have hstatus : badStatus dev getBadBlock blockstart = some false := by
                    simp [badStatus, hfails, hbad]
                  rw [if_neg hbad, hstatus, htotal]
                  have hrest := ih need (processed + dev.eraseSize) hend' (show n < fuel by lia)
                  cases hpick : GoodBlocks.pick dev.eraseSize (badStatus dev getBadBlock) n
                      (blockstart + dev.eraseSize) need with
                  | none =>
                      rw [hpick] at hrest
                      exact hrest
                  | some blocks =>
                      rw [hpick] at hrest
                      show (_, _) = _
                      rw [hrest]
                      rfl

def FlashOp.InBuffer (prepared : Nat) : FlashOp -> Prop
  | .erase _ _ => True
  | .write _ source length => source + length ≤ prepared

structure OnGoodBlocks (dev : EnvDev) (getBadBlock : Nat -> Int) (op : FlashOp) : Prop where
  inside : dev.devoff ≤ op.start ∧ op.start + op.length ≤ environmentEnd dev
  good : forall b, dev.eraseSize ∣ b -> op.start < b + dev.eraseSize ->
    b < op.start + op.length -> flashBadBlock dev getBadBlock b = 0

theorem mem_blockOps {blockstart erasesize processed : Nat} {op : FlashOp}
    (h : op ∈ blockOps dev blockstart erasesize processed) :
    op.start = blockstart ∧ op.length = erasesize ∧
      forall {total}, processed + erasesize ≤ total -> op.InBuffer total := by
  rcases List.mem_append.mp h with h | h
  · split at h
    · cases h
    · rw [List.mem_singleton.mp h]
      exact ⟨rfl, rfl, fun _ => trivial⟩
  · rw [List.mem_singleton.mp h]
    exact ⟨rfl, rfl, fun hle => hle⟩

theorem aligned_unique {size a b : Nat} (ha : size ∣ a) (hb : size ∣ b)
    (h : a < b + size) (h' : b < a + size) : a = b := by
  rcases ha with ⟨i, rfl⟩
  rcases hb with ⟨j, rfl⟩
  rw [<- Nat.mul_succ] at h h'
  have hij := Nat.lt_of_mul_lt_mul_left h
  have hji := Nat.lt_of_mul_lt_mul_left h'
  have heq : i = j := by lia
  rw [heq]

/-- Also when it fails, the writer of NAND stays on the good blocks. -/
theorem flashWriteLoop_onGood {need fuel processed blockstart : Nat}
    (hdvd : dev.eraseSize ∣ blockstart) (hge : dev.devoff ≤ blockstart) {op : FlashOp}
    (h : op ∈ (flashWriteLoop dev getBadBlock dev.eraseSize (processed + need * dev.eraseSize) fuel
      processed blockstart).2) :
    OnGoodBlocks dev getBadBlock op ∧ op.InBuffer (processed + need * dev.eraseSize) := by
  induction fuel generalizing need processed blockstart with
  | zero => cases h
  | succ fuel ih =>
      have hdvd' : dev.eraseSize ∣ blockstart + dev.eraseSize :=
        Nat.dvd_add hdvd (Nat.dvd_refl _)
      rw [flashWriteLoop] at h
      dsimp only at h
      split at h
      · rename_i hmore
        split at h
        · cases h
        · split at h
          · cases h
          · rename_i hfits
            split at h
            · exact ih hdvd' (by lia) h
            · rename_i hgood
              cases need with
              | zero => lia
              | succ need =>
                  have hmul := Nat.succ_mul need dev.eraseSize
                  have htotal : processed + (need + 1) * dev.eraseSize =
                      processed + dev.eraseSize + need * dev.eraseSize := by
                    lia
                  rw [htotal] at h ⊢
                  rcases List.mem_append.mp h with h | h
                  · rcases mem_blockOps h with ⟨hstart, hlength, hsource⟩
                    refine ⟨⟨?_, ?_⟩, hsource (Nat.le_add_right _ _)⟩
                    · rw [hstart, hlength]
                      lia
                    · intro b hb hlt hgt
                      rw [hstart] at hlt hgt
                      rw [hlength] at hgt
                      rw [<- aligned_unique hdvd hb hlt hgt]
                      exact not_not.mp hgood
                  · exact ih hdvd' (by lia) h
      · cases h

theorem flashWriteLoop_other (hother : dev.mtdType ≠ .nandflash) {erasesize total fuel : Nat}
    (hle : total ≤ erasesize) (hfits : dev.devoff + erasesize ≤ environmentEnd dev) :
    flashWriteLoop dev getBadBlock erasesize total (fuel + 2) 0 dev.devoff =
      if total = 0 then (some 0, []) else
        (some erasesize, blockOps dev dev.devoff erasesize 0) := by
  have hgood : flashBadBlock dev getBadBlock dev.devoff = 0 := if_neg hother
  rw [flashWriteLoop]
  dsimp only
  by_cases hpos : 0 < total
  · rw [if_pos hpos, hgood, if_neg (by decide), if_neg (Nat.not_lt.mpr hfits),
      if_neg (by decide), flashWriteLoop, if_neg (by lia), if_neg (by lia)]
    simp
  · rw [if_neg hpos, if_pos (by lia)]

end

/-!
## Sound writes
-/

/-- What a write of `buf` promises: what succeeds can be read back, with the bytes
behind it in the last block as they were; nothing outside the environment and no bad
block is touched; every source is in the buffer; and too few good blocks make both
functions fail. -/
structure SoundWrite (dev : EnvDev) (getBadBlock : Nat -> Int) (mem : Nat -> UInt8) (buf : Bytes)
    (r : FlashWritten) : Prop where
  roundTrip : forall n, r.ret = some n ->
    flashReadBuf dev getBadBlock r.mem buf.length dev.devoff = some buf
  neighbours : forall n, r.ret = some n -> exists old,
    flashReadBuf dev getBadBlock mem (writeTotal dev buf.length) dev.devoff = some old ∧
      flashReadBuf dev getBadBlock r.mem (writeTotal dev buf.length) dev.devoff =
        some (buf ++ old.drop buf.length)
  outside : forall a, a < dev.devoff ∨ environmentEnd dev ≤ a -> r.mem a = mem a
  onGood : forall op, op ∈ r.ops -> OnGoodBlocks dev getBadBlock op
  sources : forall op, op ∈ r.ops -> op.InBuffer r.prepared
  tooFew : dev.mtdType = .nandflash ->
    (GoodBlocks.good dev.eraseSize (badStatus dev getBadBlock) dev.envSectors
      dev.devoff).length < blocksFor dev.eraseSize buf.length ->
    r.ret = none ∧ flashReadBuf dev getBadBlock mem buf.length dev.devoff = none

section

variable {dev : EnvDev} {getBadBlock : Nat -> Int} {mem behind : Nat -> UInt8} {buf : Bytes}

theorem window_source (data : Bytes) (behind : Nat -> UInt8) :
    window (source data behind) 0 data.length = data := by
  rw [window_eq_iff]
  intro i hi
  unfold source
  rw [Nat.zero_add, if_pos hi, List.getD_eq_getElem]

theorem flashWriteBuf_prepared (behind : Nat -> UInt8) {old : Bytes}
    (hold : flashReadBuf dev getBadBlock mem (writeTotal dev buf.length) dev.devoff = some old)
    (hlen : old.length = writeTotal dev buf.length) (hle : buf.length ≤ writeTotal dev buf.length) :
    exists data, data = buf ++ old.drop buf.length ∧
      data.length = writeTotal dev buf.length ∧
      flashWriteBuf dev getBadBlock mem buf behind =
        let r := flashWriteLoop dev getBadBlock (eraseLength dev buf.length)
          (writeTotal dev buf.length) (dev.envSectors + 2) 0 dev.devoff
        ⟨r.1, data.length, r.2, runOps dev (source data behind) mem r.2⟩ := by
  refine ⟨buf ++ old.drop buf.length, rfl, ?_, ?_⟩
  · rw [List.length_append, List.length_drop]
    lia
  · unfold flashWriteBuf
    dsimp only
    by_cases hlt : buf.length < writeTotal dev buf.length
    · rw [if_pos hlt, hold, Option.map_some, splice_front (by lia)]
    · rw [if_neg hlt, List.drop_of_length_le (by lia), List.append_nil]

theorem nand_confined (haligned : dev.eraseSize ∣ dev.devoff) {need fuel : Nat} {op : FlashOp}
    (h : op ∈ (flashWriteLoop dev getBadBlock dev.eraseSize (need * dev.eraseSize) fuel 0
      dev.devoff).2) :
    OnGoodBlocks dev getBadBlock op ∧ op.InBuffer (need * dev.eraseSize) := by
  have hz : need * dev.eraseSize = 0 + need * dev.eraseSize := (Nat.zero_add _).symm
  rw [hz] at h ⊢
  exact flashWriteLoop_onGood haligned (Nat.le_refl _) h

theorem runOps_confined {data : Nat -> UInt8} {ops : List FlashOp}
    (h : forall op, op ∈ ops -> OnGoodBlocks dev getBadBlock op) {a : Nat}
    (ha : a < dev.devoff ∨ environmentEnd dev ≤ a) : runOps dev data mem ops a = mem a := by
  refine runOps_outside fun op hop => ?_
  have hin := (h op hop).inside
  lia

theorem nand_sound (hnand : dev.mtdType = .nandflash) (hsize : 0 < dev.eraseSize)
    (haligned : dev.eraseSize ∣ dev.devoff) :
    SoundWrite dev getBadBlock mem buf (flashWriteBuf dev getBadBlock mem buf behind) := by
  have htotal : writeTotal dev buf.length = blocksFor dev.eraseSize buf.length * dev.eraseSize := by
    unfold writeTotal
    rw [if_neg (by rw [hnand]; decide), roundUp_eq]
  have herase : eraseLength dev buf.length = dev.eraseSize := by
    unfold eraseLength
    rw [hnand]
  have hle : buf.length ≤ writeTotal dev buf.length := by
    rw [htotal]
    exact le_roundUp hsize buf.length
  have hread := fun mem' => flashReadBuf_nand getBadBlock mem' hnand
    hsize haligned buf.length
  have hreadAll := fun mem' => flashReadBuf_nand getBadBlock mem' hnand
    hsize haligned (writeTotal dev buf.length)
  rw [htotal, blocksFor_mul hsize, <- htotal] at hreadAll
  have hloop := flashWriteLoop_nand getBadBlock (blocksFor dev.eraseSize buf.length) 0 hsize
    (show dev.devoff + dev.envSectors * dev.eraseSize = environmentEnd dev from rfl)
    (show dev.envSectors < dev.envSectors + 2 by lia)
  have hconfined := fun op => @nand_confined dev getBadBlock haligned
    (blocksFor dev.eraseSize buf.length) (dev.envSectors + 2) op
  cases hpick : GoodBlocks.pick dev.eraseSize (badStatus dev getBadBlock) dev.envSectors dev.devoff
      (blocksFor dev.eraseSize buf.length) with
  | none =>
      rw [hpick] at hloop
      simp only [hpick, Option.map_none] at hread hreadAll
      rw [Nat.zero_add, <- htotal] at hloop
      unfold flashWriteBuf
      dsimp only
      by_cases hlt : buf.length < writeTotal dev buf.length
      · rw [if_pos hlt, hreadAll, Option.map_none]
        refine ⟨fun _ h => ?_, fun _ h => ?_, fun _ _ => rfl, fun _ h => ?_, fun _ h => ?_,
          fun _ _ => ⟨rfl, hread mem⟩⟩ <;> cases h
      · rw [if_neg hlt, herase]
        have hlen : buf.length = blocksFor dev.eraseSize buf.length * dev.eraseSize := by lia
        rw [<- htotal] at hconfined
        refine ⟨fun _ h => ?_, fun _ h => ?_,
          fun a ha => runOps_confined (fun op hop => (hconfined op hop).left) ha,
          fun op hop => (hconfined op hop).left, fun op hop => ?_, fun _ _ => ⟨hloop, hread mem⟩⟩
        · rw [hloop] at h
          cases h
        · rw [hloop] at h
          cases h
        · have hin := (hconfined op hop).right
          rw [htotal, <- hlen] at hin
          exact hin
  | some blocks =>
      rw [hpick] at hloop
      simp only [hpick, Option.map_some] at hread hreadAll
      rw [Nat.zero_add, <- htotal] at hloop
      have hlength := GoodBlocks.pick_length hpick
      have hgather : forall mem', (GoodBlocks.gather dev.eraseSize mem' blocks).length =
          writeTotal dev buf.length := by
        intro mem'
        rw [GoodBlocks.gather_length, hlength, htotal]
      rcases flashWriteBuf_prepared behind (hreadAll mem)
        (by rw [List.length_take, hgather, Nat.min_self]) hle with ⟨data, hdata, hdlen, hwrite⟩
      have hback : GoodBlocks.gather dev.eraseSize
          (GoodBlocks.scatter dev.eraseSize (source data behind) blocks 0 mem) blocks = data := by
        rw [GoodBlocks.gather_scatter _ hpick, <- htotal, <- hdlen, window_source]
      rw [hwrite, herase]
      dsimp only
      rw [hloop]
      dsimp only
      rw [runOps_blocks]
      have hops : (flashWriteLoop dev getBadBlock dev.eraseSize
          (blocksFor dev.eraseSize buf.length * dev.eraseSize) (dev.envSectors + 2) 0
          dev.devoff).2 = blocksOps dev blocks 0 := by
        rw [<- htotal, hloop]
      rw [hops, <- htotal, <- hdlen] at hconfined
      refine ⟨fun _ _ => ?_, fun _ _ => ⟨_, hreadAll mem, ?_⟩, fun a ha => ?_,
        fun op hop => (hconfined op hop).left, fun op hop => (hconfined op hop).right,
        fun _ hfew => ?_⟩
      · rw [hread, hback, hdata, List.take_left']
        rfl
      · rw [hreadAll, hback, List.take_of_length_le (Nat.le_of_eq hdlen), hdata]
      · rw [<- runOps_blocks]
        exact runOps_confined (fun op hop => (hconfined op hop).left) ha
      · exact absurd (GoodBlocks.pick_enough hpick) (Nat.not_le.mpr hfew)

/-- On other devices everything but the source of the write is as promised. -/
theorem other_sound_iff (hother : dev.mtdType ≠ .nandflash) (hsize : 0 < dev.eraseSize)
    (haligned : dev.eraseSize ∣ dev.devoff) (hfits : buf.length ≤ dev.envSectors * dev.eraseSize) :
    SoundWrite dev getBadBlock mem buf (flashWriteBuf dev getBadBlock mem buf behind) <->
      buf = [] ∨ eraseLength dev buf.length ≤ writeTotal dev buf.length := by
  have hle : buf.length ≤ writeTotal dev buf.length := by
    unfold writeTotal
    split
    · exact Nat.le_refl _
    · exact le_roundUp hsize buf.length
  have htotal : writeTotal dev buf.length ≤ dev.envSectors * dev.eraseSize := by
    unfold writeTotal
    split
    · exact hfits
    · exact roundUp_le hsize hfits
  have herase : writeTotal dev buf.length ≤ eraseLength dev buf.length ∧
      dev.devoff + eraseLength dev buf.length ≤ environmentEnd dev := by
    unfold eraseLength environmentEnd
    split
    · rename_i habsent
      unfold writeTotal
      rw [if_pos habsent]
      exact ⟨Nat.le_refl _, by lia⟩
    · rename_i hnand
      exact absurd hnand hother
    · exact ⟨by lia, by lia⟩
  have hread := fun mem' => flashReadBuf_other getBadBlock mem' hother
    haligned hfits
  have hreadAll := fun mem' => flashReadBuf_other getBadBlock mem' hother
    haligned htotal
  rcases flashWriteBuf_prepared behind (hreadAll mem) (window_length _ _ _) hle with
    ⟨data, hdata, hdlen, hwrite⟩
  rw [hwrite]
  dsimp only
  rw [flashWriteLoop_other hother herase.left herase.right]
  by_cases hzero : writeTotal dev buf.length = 0
  · have hnil : buf = [] := List.length_eq_zero_iff.mp (by lia)
    rw [if_pos hzero]
    refine ⟨fun _ => Or.inl hnil, fun _ => ?_⟩
    refine ⟨fun _ _ => ?_, fun _ _ => ⟨_, hreadAll mem, ?_⟩, fun _ _ => rfl,
      fun _ h => (by cases h), fun _ h => (by cases h), fun hnand _ => absurd hnand hother⟩
    · rw [hread, hnil]
      rfl
    · rw [hreadAll, hzero, hnil]
      rfl
  · rw [if_neg hzero]
    dsimp only
    have hne : buf ≠ [] := by
      rintro rfl
      refine hzero ?_
      unfold writeTotal
      split
      · rfl
      · rw [roundUp_eq, List.length_nil, blocksFor_zero hsize, Nat.zero_mul]
    have hback : window (overwrite mem dev.devoff
        (window (source data behind) 0 (eraseLength dev buf.length))) dev.devoff
          (writeTotal dev buf.length) = data := by
      have hself := window_overwrite_self mem dev.devoff
        (window (source data behind) 0 (eraseLength dev buf.length))
      rw [window_length] at hself
      have hfront := congrArg (List.take (writeTotal dev buf.length)) hself
      rw [window_take, window_take, Nat.min_eq_right herase.left, <- hdlen, window_source] at hfront
      rw [<- hdlen]
      exact hfront
    have hmem : forall op, op ∈ blockOps dev dev.devoff (eraseLength dev buf.length) 0 ->
        OnGoodBlocks dev getBadBlock op := by
      intro op hop
      rcases mem_blockOps hop with ⟨hstart, hlength, _⟩
      exact ⟨by rw [hstart, hlength]; exact ⟨Nat.le_refl _, herase.right⟩,
        fun b _ _ _ => if_neg hother⟩
    constructor
    · intro h
      have hin := h.sources (.write dev.devoff 0 (eraseLength dev buf.length))
        (List.mem_append_right _ List.mem_cons_self)
      refine Or.inr ?_
      unfold FlashOp.InBuffer at hin
      lia
    · intro h
      have hlong := h.resolve_left hne
      refine ⟨fun _ _ => ?_, fun _ _ => ⟨_, hreadAll mem, ?_⟩, fun a ha => runOps_confined hmem ha,
        hmem, fun op hop => ?_, fun hnand _ => absurd hnand hother⟩
      · rw [hread, runOps_block]
        have hfront := congrArg (List.take buf.length) hback
        rw [window_take, Nat.min_eq_right hle, hdata, List.take_left'] at hfront
        · rw [hdata, hfront]
        · rfl
      · rw [hreadAll, runOps_block, hback, hdata]
      · exact (mem_blockOps hop).2.2 (by lia)

end

/-- For an environment at the start of a block that fits into the configured sectors,
a write is sound on NAND and on plain files, and on other devices exactly if there
are no more sectors than the environment needs. -/
theorem flash_write_sound_iff (dev : EnvDev) (getBadBlock : Nat -> Int)
    (mem behind : Nat -> UInt8) (buf : Bytes) (hsize : 0 < dev.eraseSize)
    (haligned : dev.eraseSize ∣ dev.devoff)
    (hfits : buf.length ≤ dev.envSectors * dev.eraseSize) :
    SoundWrite dev getBadBlock mem buf (flashWriteBuf dev getBadBlock mem buf behind) <->
      dev.mtdType = .nandflash ∨ dev.mtdType = .absent ∨ buf = [] ∨
        dev.envSectors = blocksFor dev.eraseSize buf.length := by
  by_cases hnand : dev.mtdType = .nandflash
  · exact ⟨fun _ => Or.inl hnand, fun _ => nand_sound hnand hsize haligned⟩
  · rw [other_sound_iff hnand hsize haligned hfits]
    by_cases habsent : dev.mtdType = .absent
    · refine ⟨fun _ => Or.inr (Or.inl habsent), fun _ => Or.inr ?_⟩
      unfold eraseLength writeTotal
      rw [habsent]
      exact Nat.le_refl _
    · have herase : eraseLength dev buf.length = dev.envSectors * dev.eraseSize := by
        unfold eraseLength environmentEnd
        split
        · rename_i h
          exact absurd h habsent
        · rename_i h
          exact absurd h hnand
        · exact Nat.add_sub_cancel_left _ _
      have htotal : writeTotal dev buf.length =
          blocksFor dev.eraseSize buf.length * dev.eraseSize := if_neg habsent
      have hup := roundUp_le hsize hfits
      rw [roundUp_eq] at hup
      have hblocks := Nat.le_of_mul_le_mul_right hup hsize
      rw [herase, htotal]
      constructor
      · rintro (h | h)
        · exact Or.inr (Or.inr (Or.inl h))
        · have hge := Nat.le_of_mul_le_mul_right h hsize
          exact Or.inr (Or.inr (Or.inr (by lia)))
      · rintro (h | h | h | h)
        · exact absurd h hnand
        · exact absurd h habsent
        · exact Or.inl h
        · rw [<- h]
          exact Or.inr (Nat.le_refl _)

/-- NAND with a spare block, of which the first is bad. -/
theorem flash_write_sound_nand :
    SoundWrite ⟨0, 4, 2, .nandflash⟩ (fun b => if b = 0 then 1 else 0) (fun _ => 7) [1, 2, 3]
        (flashWriteBuf ⟨0, 4, 2, .nandflash⟩ (fun b => if b = 0 then 1 else 0) (fun _ => 7)
          [1, 2, 3] fun _ => 9) <->
      MtdType.nandflash = .nandflash ∨ MtdType.nandflash = .absent ∨
        ([1, 2, 3] : Bytes) = [] ∨ 2 = blocksFor 4 ([1, 2, 3] : Bytes).length :=
  flash_write_sound_iff ⟨0, 4, 2, .nandflash⟩ _ _ _ [1, 2, 3] (by decide) (by decide) (by decide)

def spareSector : FlashWritten :=
  flashWriteBuf ⟨0, 4, 2, .norflash⟩ (fun _ => 0) (fun _ => 7) [1, 2, 3] fun _ => 9

theorem flash_write_beyond_buffer :
    (spareSector.ret, spareSector.prepared, spareSector.ops, window spareSector.mem 0 8) =
        (some 8, 4, [.erase 0 8, .write 0 0 8], [1, 2, 3, 7, 9, 9, 9, 9]) ∧
      ¬ SoundWrite ⟨0, 4, 2, .norflash⟩ (fun _ => 0) (fun _ => 7) [1, 2, 3] spareSector := by
  have hrun : (spareSector.ret, spareSector.prepared, spareSector.ops,
      window spareSector.mem 0 8) =
        (some 8, 4, [.erase 0 8, .write 0 0 8], [1, 2, 3, 7, 9, 9, 9, 9]) := by
    decide +kernel
  refine ⟨hrun, fun h => ?_⟩
  simp only [Prod.mk.injEq] at hrun
  have hin := h.sources (.write 0 0 8) (by rw [hrun.2.2.1]; decide)
  rw [hrun.2.1] at hin
  exact absurd hin (show ¬ 0 + 8 ≤ 4 by decide)

end Fwenv
end Env
end Hlk7621
