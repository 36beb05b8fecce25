import Hlk7621.Lib.Bytes

/-!
# The block-remapping layer

`mtk_bmt_read`, `mtk_bmt_write` and `mtk_bmt_mtd_erase`: a request is cut at block
boundaries, every piece goes to the block that the mapping gives, and a piece that fails
is tried again after the block was remapped.  The chip below and the mapping are the
operations of a `Layer`; what they do to the state `W` is up to them.

Requests are for data only.  The loops have fuel, as a layer whose chip reports success
without any progress does not come to an end.
-/

namespace Hlk7621
namespace Bmt

def EIO : Int := 5
def EUCLEAN : Int := 117

/-- `bmtd`, with the operations of the chip and of the mapping. -/
structure Layer (W : Type) where
  blkShift : Nat
  /-- `mtd->bitflip_threshold`. -/
  bitflipThreshold : Nat
  /-- `mediatek,bmt-remap-range`. -/
  remapRange : List (Nat × Nat)
  getMappingBlock : W -> Nat -> Int
  remapBlock : Nat -> Nat -> Nat -> W -> Bool × W
  /-- The code and the data of `_read_oob`. -/
  readOob : Nat -> Nat -> W -> (Int × Bytes) × W
  /-- The code and the `retlen` of `_write_oob`. -/
  writeOob : Nat -> Bytes -> W -> (Int × Nat) × W
  erase : Nat -> Nat -> W -> Int × W

/-- The code that a request returns, and its data or the length that was written. -/
structure Answer (α : Type) where
  code : Int
  got : α
  deriving DecidableEq

namespace Layer

variable {W : Type} (L : Layer W)

def blkSize : Nat := 2 ^ L.blkShift

def mappingBlockInRange (block : Nat) : Bool :=
  L.remapRange.isEmpty ||
    L.remapRange.any fun r => r.1 ≤ u32 (block <<< L.blkShift) && u32 (block <<< L.blkShift) < r.2

def mtkBmtRemapBlock (block mapped copyLen : Nat) (w : W) : Bool × W :=
  if L.mappingBlockInRange block then L.remapBlock block mapped copyLen w else (false, w)

/-!
## mtk_bmt_read
-/

structure Reading where
  pos : Nat
  data : Bytes
  ret : Int
  maxBitflips : Int
  retry : Nat

/-- The end of `mtk_bmt_read`. -/
def Reading.out (s : Reading) : Answer Bytes :=
  { code := if s.ret < 0 then s.ret else s.maxBitflips, got := s.data }

def readLoop (len : Nat) : Nat -> Reading -> W -> Option (Answer Bytes × W)
  | 0, _, _ => none
  | fuel + 1, s, w =>
      if s.data.length < len then
        let offset := s.pos &&& (L.blkSize - 1)
        let block := u32 (s.pos >>> L.blkShift)
        let mapped := L.getMappingBlock w block
        if mapped < 0 then
          some ({ code := - EIO, got := s.data }, w)
        else
          let curLen := min (L.blkSize - offset) (u32 (len - s.data.length))
          let r := L.readOob ((mapped.toNat <<< L.blkShift) + offset) curLen w
          let ret := if r.1.1 < 0 then r.1.1 else s.ret
          let maxBitflips := if r.1.1 < 0 then s.maxBitflips else max s.maxBitflips r.1.1
          if r.1.1 < 0 ∧ r.1.1 ≠ -EUCLEAN then
            let m := L.mtkBmtRemapBlock block mapped.toNat L.blkSize r.2
            if m.1 ∧ s.retry < 10 then
              readLoop len fuel { s with ret, maxBitflips, retry := s.retry + 1 } m.2
            else
              some (Reading.out { s with ret, maxBitflips }, m.2)
          else
            let w :=
              -- The threshold is unsigned, and the code is compared with it as such.
              if L.bitflipThreshold ≠ 0 ∧ (L.bitflipThreshold : Int) ≤ r.1.1 % 2 ^ 32 then
                (L.mtkBmtRemapBlock block mapped.toNat L.blkSize r.2).2
              else
                r.2
            readLoop len fuel
              { pos := s.pos + (if curLen = 0 then L.blkSize - offset else curLen)
                data := s.data ++ r.1.2
                ret, maxBitflips
                retry := 0 } w
      else
        some (s.out, w)

def mtkBmtRead (fuel src len : Nat) (w : W) : Option (Answer Bytes × W) :=
  L.readLoop len fuel { pos := src, data := [], ret := 0, maxBitflips := 0, retry := 0 } w

/-!
## mtk_bmt_write
-/

structure Writing where
  pos : Nat
  /-- `ops->retlen`. -/
  retlen : Nat
  /-- What `cur_ops.datbuf` points to. -/
  data : Bytes
  retry : Nat

def writeLoop (len : Nat) : Nat -> Writing -> W -> Option (Answer Nat × W)
  | 0, _, _ => none
  | fuel + 1, s, w =>
      if s.retlen < len then
        let offset := s.pos &&& (L.blkSize - 1)
        let block := u32 (s.pos >>> L.blkShift)
        let mapped := L.getMappingBlock w block
        if mapped < 0 then
          some ({ code := - EIO, got := s.retlen }, w)
        else
          let curLen := min (L.blkSize - offset) (u32 (len - s.retlen))
          let r := L.writeOob ((mapped.toNat <<< L.blkShift) + offset) (s.data.take curLen) w
          if r.1.1 < 0 then
            let m := L.mtkBmtRemapBlock block mapped.toNat offset r.2
            if m.1 ∧ s.retry < 10 then
              writeLoop len fuel { s with retry := s.retry + 1 } m.2
            else
              some ({ code := r.1.1, got := s.retlen }, m.2)
          else
            writeLoop len fuel
              { pos := s.pos + (if curLen = 0 then L.blkSize - offset else curLen)
                retlen := s.retlen + r.1.2
                data := s.data.drop r.1.2
                retry := 0 } r.2
      else
        some ({ code := 0, got := s.retlen }, w)

def mtkBmtWrite (fuel dest : Nat) (data : Bytes) (w : W) : Option (Answer Nat × W) :=
  L.writeLoop data.length fuel { pos := dest, retlen := 0, data := data, retry := 0 } w

/-!
## mtk_bmt_mtd_erase
-/

/-- `ret` has no value until the first block was erased; the block number is a `u16`. -/
def eraseLoop (stop : Nat) : Nat -> Nat -> Int -> Nat -> W -> Option (Answer Unit × W)
  | 0, _, _, _, _ => none
  | fuel + 1, start, ret, retry, w =>
      if start < stop then
        let block := (start >>> L.blkShift) % 2 ^ 16
        let mapped := L.getMappingBlock w block
        if mapped < 0 then
          some ({ code := - EIO, got := () }, w)
        else
          let r := L.erase (mapped.toNat <<< L.blkShift) L.blkSize w
          if r.1 ≠ 0 then
            let m := L.mtkBmtRemapBlock block mapped.toNat 0 r.2
            if m.1 ∧ retry < 10 then
              eraseLoop stop fuel start r.1 (retry + 1) m.2
            else
              some ({ code := r.1, got := () }, m.2)
          else
            eraseLoop stop fuel (start + L.blkSize) r.1 0 r.2
      else
        some ({ code := ret, got := () }, w)

/-- `~mtd->erasesize_mask` is an `unsigned int`, so it also clears the upper half of the
address.  `junk` is what the variable `ret` holds at the start. -/
def mtkBmtMtdErase (fuel : Nat) (junk : Int) (addr len : Nat) (w : W) :
    Option (Answer Unit × W) :=
  L.eraseLoop (addr + len) fuel (u32 addr - u32 addr % L.blkSize) junk 0 w

end Layer

end Bmt
end Hlk7621
