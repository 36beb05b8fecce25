import Hlk7621.Lib.Regions

/-!
# Logical memory blocks

The region lists of `lib/lmb.c`.  Physical addresses, sizes and `ulong` have `W`
bits, and every sum and difference of them wraps.  Lists grow without failing,
and no EFI loader is there to be notified: `lmb_map_update_notify` returns zero.
-/

namespace Hlk7621
namespace Memory

abbrev LmbRegion := Regions.Region Nat

def LMB_ALLOC_ANYWHERE : Nat := 0
def LMB_NONE : Nat := 0
def LMB_NOOVERWRITE : Nat := 4

def EEXIST : Int := 17
def EINVAL : Int := 22

variable (W : Nat)

def add (a b : Nat) : Nat := (a + b) % 2 ^ W

def sub (a b : Nat) : Nat := (a + (2 ^ W - b % 2 ^ W)) % 2 ^ W

/-- `ALIGN_DOWN`, with the mask `a - 1`. -/
def alignDown (x a : Nat) : Nat :=
  let mask := sub W (a % 2 ^ W) 1
  add W (sub W x mask) mask &&& (2 ^ W - 1 - mask)

/-!
## Region lists
-/

def lmbAddrsOverlap (base1 size1 base2 size2 : Nat) : Bool :=
  base1 ≤ sub W (add W base2 size2) 1 && base2 ≤ sub W (add W base1 size1) 1

def lmbAddrsAdjacent (base1 size1 base2 size2 : Nat) : Int :=
  if base2 = add W base1 size1 then 1
  else if base1 = add W base2 size2 then -1
  else 0

inductive RegionsCheck where
  | overlap
  | adjacent
  | neither
deriving DecidableEq, Repr

def lmbRegionsCheck (r1 r2 : LmbRegion) : RegionsCheck :=
  if r1.flags ≠ r2.flags then .neither
  else if lmbAddrsOverlap W r1.base r1.size r2.base r2.size then .overlap
  else if lmbAddrsAdjacent W r1.base r1.size r2.base r2.size ≠ 0 then .adjacent
  else .neither

def lmbRemoveRegion (l : List LmbRegion) (r : Nat) : List LmbRegion :=
  l.eraseIdx r

def lmbCoalesceRegions (l : List LmbRegion) (r1 : Nat) (x1 x2 : LmbRegion) :
    List LmbRegion :=
  lmbRemoveRegion (l.set r1 { x1 with size := add W x1.size x2.size }) (r1 + 1)

/-- The first loop of `lmb_resize_regions`, over the regions from index `idx`
on: how many of them overlap the request and the index of the last one, or
nothing when one of them has flags. -/
def resizeScan (base size : Nat) : List LmbRegion -> Nat -> Nat -> Nat ->
    Option (Nat × Nat)
  | [], _, rgnCnt, idxEnd => some (rgnCnt, idxEnd)
  | r :: rest, idx, rgnCnt, idxEnd =>
      if lmbAddrsOverlap W base size r.base r.size then
        if r.flags ≠ LMB_NONE then none
        else resizeScan base size rest (idx + 1) (rgnCnt + 1) idx
      else resizeScan base size rest (idx + 1) rgnCnt idxEnd

def removeMerged (l : List LmbRegion) (r : Nat) : Nat -> List LmbRegion
  | 0 => l
  | n + 1 => removeMerged (lmbRemoveRegion l r) r n

/-- `lmb_resize_regions`: nothing stands for the result -1, which leaves the
list as it is.  The request overlaps the region at `idxStart`, so that the count
of the second loop starts from at least one. -/
def lmbResizeRegions (l : List LmbRegion) (idxStart base size : Nat) :
    Option (List LmbRegion) := do
  let (rgnCnt, idxEnd) <- resizeScan W base size (l.drop idxStart) idxStart 0 idxStart
  let first <- l[idxStart]?
  let last <- l[idxEnd]?
  let mergebase := min base first.base
  let mergeend := max (add W last.base last.size) (add W base size)
  let merged := { first with base := mergebase, size := sub W mergeend mergebase }
  pure (removeMerged (l.set idxStart merged) (idxStart + 1) (rgnCnt - 1))

/-- The loop of `lmb_add_region_flags` that looks for a region to unite the
request with, over the regions of `l` from index `i` on: the list, the index at
which the loop is left and the number of regions united. -/
def coalesceLoop (l : List LmbRegion) (base size flags : Nat) :
    List LmbRegion -> Nat -> Option (List LmbRegion × Nat × Nat)
  | [], i => some (l, i, 0)
  | r :: rest, i =>
      let ret := lmbAddrsAdjacent W base size r.base r.size
      if ret > 0 then
        if flags ≠ r.flags then some (l, i, 0)
        else some (l.set i
          { r with base := sub W r.base size, size := add W r.size size }, i, 1)
      else if ret < 0 then
        if flags ≠ r.flags then coalesceLoop l base size flags rest (i + 1)
        else some (l.set i { r with size := add W r.size size }, i, 1)
      else if lmbAddrsOverlap W base size r.base r.size then
        match lmbResizeRegions W l i base size with
        | none => none
        | some l' => some (l', i, 1)
      else coalesceLoop l base size flags rest (i + 1)

/-- The second part of `lmb_add_region_flags`: the region at which the loop was
left is united with the next one, if their flags agree.  The list comes with the
number of regions united, or with nothing when the function returns -1. -/
def fixNeighbour (l : List LmbRegion) (i coalesced : Nat) :
    List LmbRegion × Option Nat :=
  match l[i]?, l[i + 1]? with
  | some r1, some r2 =>
      match lmbRegionsCheck W r1 r2 with
      | .adjacent => (lmbCoalesceRegions W l i r1 r2, some (coalesced + 1))
      | .overlap =>
          match lmbResizeRegions W l i r1.base r1.size with
          | none => (l, none)
          | some l' => (l', some (coalesced + 1))
      | .neither => (l, some coalesced)
  | _, _ => (l, some coalesced)

/-- The index at which the loop from the end of the table puts a region. -/
def insertIndex (l : List LmbRegion) (base : Nat) : Nat -> Nat
  | 0 => 0
  | i + 1 =>
      match l[i]? with
      | some r => if base < r.base then insertIndex l base i else i + 1
      | none => i + 1

def lmbAddRegionFlags (l : List LmbRegion) (base size flags : Nat) :
    Int × List LmbRegion :=
  match coalesceLoop W l base size flags l 0 with
  | none => (-1, l)
  | some (l1, i, coalesced) =>
      match fixNeighbour W l1 i coalesced with
      | (l2, none) => (-1, l2)
      | (l2, some coalesced) =>
          if coalesced ≠ 0 then (0, l2)
          else
            (0, l2.insertIdx (insertIndex l2 base l2.length)
              { base := base, size := size, flags := flags })

/-- `_lmb_free`: `l` without the range, and the code that is returned. -/
def lmbFreeRegion (l : List LmbRegion) (base size : Nat) : Int × List LmbRegion :=
  let stop := sub W (add W base size) 1
  let rgnend := fun r : LmbRegion => sub W (add W r.base r.size) 1
  let i := l.findIdx (fun r => r.base ≤ base && stop ≤ rgnend r)
  match l[i]? with
  | none => (-1, l)
  | some r =>
      if r.base = base ∧ rgnend r = stop then (0, lmbRemoveRegion l i)
      else if r.base = base then
        (0, l.set i { r with base := add W stop 1, size := sub W r.size size })
      else if rgnend r = stop then (0, l.set i { r with size := sub W r.size size })
      else
        lmbAddRegionFlags W (l.set i { r with size := sub W base r.base })
          (add W stop 1) (sub W (rgnend r) stop) r.flags

/-- `lmb_overlap_checks`: the index of a region that stands in the way. -/
def lmbOverlapChecks (l : List LmbRegion) (base size flags : Nat) (alloc : Bool) :
    Option Nat :=
  l.findIdx? (fun r => lmbAddrsOverlap W base size r.base r.size &&
    (alloc || flags ≠ LMB_NONE || flags ≠ r.flags))

/-!
## The memory map
-/

structure Lmb where
  availableMem : List LmbRegion
  usedMem : List LmbRegion
deriving DecidableEq, Repr

def Lmb.empty : Lmb := { availableMem := [], usedMem := [] }

def lmbReserve (base size flags : Nat) (lmb : Lmb) : Int × Lmb :=
  match lmbOverlapChecks W lmb.usedMem base size flags false with
  | some _ => (-EEXIST, lmb)
  | none =>
      let r := lmbAddRegionFlags W lmb.usedMem base size flags
      (r.1, { lmb with usedMem := r.2 })

def lmbAdd (base size : Nat) (lmb : Lmb) : Int × Lmb :=
  let r := lmbAddRegionFlags W lmb.availableMem base size LMB_NONE
  (r.1, { lmb with availableMem := r.2 })

def lmbFree (base size : Nat) (lmb : Lmb) : Int × Lmb :=
  let r := lmbFreeRegion W lmb.usedMem base size
  (r.1, { lmb with usedMem := r.2 })

/-- The inner loop of `_lmb_alloc_base`: the base of a range above `lmbbase`
that is not reserved.  Every round lowers `base`, so that `base` rounds are
enough. -/
def allocWalk (used : List LmbRegion) (size align lmbbase : Nat) :
    Nat -> Nat -> Option Nat
  | 0, _ => none
  | fuel + 1, base =>
      if base = 0 ∨ base < lmbbase then none
      else
        match lmbOverlapChecks W used base size LMB_NOOVERWRITE true with
        | none => some base
        | some rgn =>
            match used[rgn]? with
            | none => none
            | some r =>
                if r.base < size then none
                else
                  allocWalk used size align lmbbase fuel
                    (alignDown W (sub W r.base size) align)

def allocStart (size align maxAddr : Nat) (m : LmbRegion) : Option Nat :=
  if m.size < size then none
  else if maxAddr = LMB_ALLOC_ANYWHERE then
    some (alignDown W (sub W (add W m.base m.size) size) align)
  else if m.base < maxAddr then
    let base := add W m.base m.size
    let base := if base < m.base then 2 ^ W - 1 else base
    some (alignDown W (sub W (min base maxAddr) size) align)
  else none

/-- The outer loop, over the memory regions from the last one down. -/
def allocSearch (used : List LmbRegion) (size align maxAddr : Nat) :
    List LmbRegion -> Option Nat
  | [] => none
  | m :: rest =>
      match allocStart W size align maxAddr m with
      | none => allocSearch used size align maxAddr rest
      | some start =>
          match allocWalk W used size align m.base start start with
          | some base => some base
          | none => allocSearch used size align maxAddr rest

/-- `_lmb_alloc_base`: the result, the new value of `*addr` and the map. -/
def lmbAllocBase (size align addr flags : Nat) (lmb : Lmb) : Int × Nat × Lmb :=
  match allocSearch W lmb.usedMem size align addr lmb.availableMem.reverse with
  | none => (-1, addr, lmb)
  | some base =>
      let r := lmbAddRegionFlags W lmb.usedMem base size flags
      if r.1 ≠ 0 then (0, addr, { lmb with usedMem := r.2 })
      else (0, base, { lmb with usedMem := r.2 })

def lmbAllocAddr (base size flags : Nat) (lmb : Lmb) : Int × Lmb :=
  match lmbOverlapChecks W lmb.availableMem base size LMB_NOOVERWRITE true with
  | none => (-EINVAL, lmb)
  | some rgn =>
      match lmb.availableMem[rgn]? with
      | none => (-EINVAL, lmb)
      | some m =>
          if lmbAddrsOverlap W m.base m.size (sub W (add W base size) 1) 1 then
            lmbReserve W base size flags lmb
          else (-EINVAL, lmb)

inductive LmbMemType where
  | allocAddr
  | allocAny
  | allocMax
deriving DecidableEq, Repr

/-- `lmb_alloc_mem`: the result, the new value of `*addr` and the map. -/
def lmbAllocMem (type : LmbMemType) (align addr size flags : Nat) (lmb : Lmb) :
    Int × Nat × Lmb :=
  if size = 0 then (0, addr, lmb)
  else
    match type with
    | .allocAny => lmbAllocBase W size align LMB_ALLOC_ANYWHERE flags lmb
    | .allocMax => lmbAllocBase W size align addr flags lmb
    | .allocAddr =>
        let r := lmbAllocAddr W addr size flags lmb
        (r.1, addr, r.2)

/-!
## Calls
-/

inductive Call where
  | add (base size : Nat)
  | alloc (type : LmbMemType) (align addr size flags : Nat)
  | free (base size flags : Nat)
deriving DecidableEq, Repr

def Call.run : Call -> Lmb -> Int × Nat × Lmb
  | .add base size, lmb =>
      let r := lmbAdd W base size lmb
      (r.1, base, r.2)
  | .alloc type align addr size flags, lmb =>
      lmbAllocMem W type align addr size flags lmb
  | .free base size _, lmb =>
      let r := lmbFree W base size lmb
      (r.1, base, r.2)

def step (lmb : Lmb) (call : Call) : Lmb := (call.run W lmb).2.2

def run (lmb : Lmb) (calls : List Call) : Lmb := calls.foldl (step W) lmb

end Memory
end Hlk7621
