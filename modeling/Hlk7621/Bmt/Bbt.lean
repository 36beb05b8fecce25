import Hlk7621.Lib.Bytes
import Hlk7621.Lib.StablePartition

/-!
# The bad block table of the BBT variant

Model of `mapping_block_in_range` from `mtk_bmt.c` and of `get_mapping_block_index_bbt`
with its bitmap from `mtk_bmt_bbt.c`.  The bounds of a range are bytes where the range
is configured, and blocks where none is: the mapping takes both for bytes.
-/

namespace Hlk7621
namespace Bmt
namespace Bbt

open StablePartition

/-- The part of `bmtd` that the mapping reads.  Block numbers have 16 bits, the cells of
the device tree 32. -/
structure Desc where
  blkShift : Nat
  totalBlks : Nat
  /-- The pairs of cells of `mediatek,bmt-remap-range`. -/
  remapRange : List (Nat × Nat)
  total_lt : totalBlks < 2 ^ 16
  cells_lt : forall r, r ∈ remapRange -> r.1 < 2 ^ 32 ∧ r.2 < 2 ^ 32

/-- An `int` with the bits of the 32-bit number `n`. -/
def toInt (n : Nat) : Int := if n < 2 ^ 31 then n else (n : Int) - 2 ^ 32

def u16 (i : Int) : Nat := (i % 2 ^ 16).toNat

theorem toInt_of_lt {n : Nat} (h : n < 2 ^ 31) : toInt n = n := if_pos h

/-- Two bits for every block. -/
abbrev Table := Nat -> UInt8

def bbtMask (block : Nat) : UInt8 := UInt8.ofNat (3 <<< (block % 4 * 2))

def bbtBlockIsBad (buf : Table) (block : Nat) : Bool :=
  buf (block / 4) &&& bbtMask block != 0

def badAt (buf : Table) (i : Int) : Bool := bbtBlockIsBad buf (u16 i)

/-- The table after `bbt_set_block_state`. -/
def bbtSetState (block : Nat) (bad : Bool) (buf : Table) : Table :=
  Function.update buf (block / 4)
    (if bad then buf (block / 4) ||| bbtMask block else buf (block / 4) &&& ~~~ bbtMask block)

/-!
## The mapping
-/

namespace Desc

variable (D : Desc)

def mappingBlockInRange (block : Nat) : Option (Int × Int) :=
  if D.remapRange = [] then some (0, D.totalBlks)
  else
    let addr := u32 (block <<< D.blkShift)
    (D.remapRange.find? fun r => r.1 ≤ addr ∧ addr < r.2).map fun r => (toInt r.1, toInt r.2)

/-- The first loop: `i`, `ofs` and `bad_blocks` where it ends. -/
def upScan (bad : Int -> Bool) (stop : Int) : Nat -> Int -> Int -> Int -> Int × Int × Int
  | 0, i, ofs, badBlocks => (i, ofs, badBlocks)
  | n + 1, i, ofs, badBlocks =>
      if i < stop then
        if bad i then upScan bad stop n (i + 1) ofs (badBlocks + 1)
        else if ofs ≠ 0 then upScan bad stop n (i + 1) (ofs - 1) badBlocks
        else (i, ofs, badBlocks)
      else (i, ofs, badBlocks)

/-- The second loop; it does not pass the lowest bad block that the first one counted. -/
def downScan (bad : Int -> Bool) (ofs : Int) : Nat -> Int -> Int -> Option Int
  | 0, _, _ => none
  | n + 1, i, badBlocks =>
      if badBlocks > 0 then
        if bad i then
          if badBlocks - 1 ≤ ofs then some i else downScan bad ofs n (i - 1) (badBlocks - 1)
        else downScan bad ofs n (i - 1) badBlocks
      else none

def getMappingBlockIndexBbt (buf : Table) (block : Nat) : Int :=
  match D.mappingBlockInRange block with
  | none => block
  | some (start, stop) =>
      let start := start >>> D.blkShift
      let stop := stop >>> D.blkShift
      let blocks := (stop - start).toNat
      match upScan (badAt buf) stop blocks start (block - start) 0 with
      | (i, ofs, badBlocks) =>
          if i < stop then i
          else (downScan (badAt buf) ofs blocks (stop - 1) badBlocks).getD block

end Desc

/-!
## The two loops
-/

section

variable {isBad : Nat -> Bool}

theorem upScan_good (isBad : Nat -> Bool) (bad : Int -> Bool) (badBlocks : Int)
    {a n ofs g : Nat} {stop : Int}
    (hstop : stop = a + n) (hbad : forall i : Nat, i < a + n -> bad i = isBad i)
    (hg : ((List.range' a n).filter fun i => !isBad i)[ofs]? = some g) :
    (Desc.upScan bad stop n a ofs badBlocks).1 = g := by
  induction n generalizing a ofs badBlocks with
  | zero => cases hg
  | succ n ih =>
      have hlt : (a : Int) < stop := by lia
      have hnext : forall (ofs' : Nat) (b : Int),
          ((List.range' (a + 1) n).filter fun i => !isBad i)[ofs']? = some g ->
          (Desc.upScan bad stop n (a + 1 : Int) ofs' b).1 = g := by
        intro ofs' b h
        exact ih b (by push_cast; lia) (fun i hi => hbad i (by lia)) h
      rw [Desc.upScan, if_pos hlt, hbad a (by lia)]
      rw [List.range'_succ] at hg
      cases hb : isBad a with
      | true =>
          rw [List.filter_cons_of_neg (by rw [hb]; decide)] at hg
          exact hnext ofs _ hg
      | false =>
          rw [List.filter_cons_of_pos (by rw [hb]; rfl)] at hg
          rw [if_neg Bool.false_ne_true]
          cases ofs with
          | zero =>
              cases hg
              rw [if_neg (by simp)]
          | succ ofs =>
              rw [if_pos (by lia), show ((ofs + 1 : Nat) : Int) - 1 = (ofs : Int) by lia]
              exact hnext ofs _ hg

theorem upScan_end (isBad : Nat -> Bool) (bad : Int -> Bool) (c : Int) {a n ofs : Nat}
    {i stop badBlocks : Int}
    (hi : i = c + a) (hstop : stop = c + a + n)
    (hbad : forall j : Nat, j < a + n -> bad (c + j) = isBad j)
    (hofs : ((List.range' a n).filter fun i => !isBad i).length ≤ ofs) :
    Desc.upScan bad stop n i ofs badBlocks =
      (stop, (ofs : Int) - ((List.range' a n).filter fun i => !isBad i).length,
        badBlocks + ((List.range' a n).filter isBad).length) := by
  induction n generalizing a i ofs badBlocks with
  | zero => simp [Desc.upScan, hi, hstop]
  | succ n ih =>
      have hlt : i < stop := by lia
      have hnext : forall (ofs' : Nat) (b : Int),
          ((List.range' (a + 1) n).filter fun i => !isBad i).length ≤ ofs' ->
          Desc.upScan bad stop n (i + 1) ofs' b =
            (stop, (ofs' : Int) - ((List.range' (a + 1) n).filter fun i => !isBad i).length,
              b + ((List.range' (a + 1) n).filter isBad).length) := by
        intro ofs' b h
        exact ih (by push_cast; lia) (by push_cast; lia) (fun j hj => hbad j (by lia)) h
      rw [Desc.upScan, if_pos hlt, show bad i = isBad a by rw [hi, hbad a (by lia)]]
      rw [List.range'_succ] at hofs ⊢
      cases hb : isBad a with
      | true =>
          rw [List.filter_cons_of_neg (by rw [hb]; decide)] at hofs ⊢
          rw [List.filter_cons_of_pos hb, List.length_cons, if_pos rfl, hnext ofs _ hofs]
          push_cast
          rw [Int.add_assoc, Int.add_comm 1]
      | false =>
          rw [List.filter_cons_of_pos (by rw [hb]; rfl), List.length_cons] at hofs
          rw [List.filter_cons_of_pos (by rw [hb]; rfl),
            List.filter_cons_of_neg (by rw [hb]; decide), List.length_cons,
            if_neg Bool.false_ne_true, if_pos (by lia)]
          have hsub : (ofs : Int) - 1 = ((ofs - 1 : Nat) : Int) := by lia
          rw [hsub, hnext (ofs - 1) _ (by lia)]
          congr 2
          push_cast
          lia

theorem downScan_eq (isBad : Nat -> Bool) (bad : Int -> Bool) (c : Int) {a n : Nat} (ofs : Nat)
    (hbad : forall j : Nat, j < a + n -> bad (c + j) = isBad j) :
    Desc.downScan bad ofs n (c + (a + n : Nat) - 1)
        ((List.range' a n).filter isBad).length =
      (if ofs < ((List.range' a n).filter isBad).length then
        ((List.range' a n).filter isBad)[ofs]? else ((List.range' a n).filter isBad).getLast?).map
        fun b : Nat => c + b := by
  induction n with
  | zero => rfl
  | succ n ih =>
      have hih := ih fun i hi => hbad i (by lia)
      have hlast : c + ((a + (n + 1) : Nat) : Int) - 1 = c + ((a + n : Nat) : Int) := by lia
      have hconcat : List.range' a (n + 1) = List.range' a n ++ [a + n] := by
        rw [List.range'_concat, Nat.one_mul]
      rw [Desc.downScan, hlast, hbad (a + n) (by lia), hconcat, List.filter_append]
      cases hb : isBad (a + n) with
      | false =>
          rw [List.filter_cons_of_neg (by rw [hb]; decide), List.filter_nil, List.append_nil,
            if_neg Bool.false_ne_true, hih]
          by_cases hpos : ((List.range' a n).filter isBad).length = 0
          · rw [if_neg (by lia), List.length_eq_zero_iff.mp hpos]
            rfl
          · rw [if_pos (by lia)]
      | true =>
          rw [List.filter_cons_of_pos hb, List.filter_nil, if_pos rfl, List.length_append,
            List.length_singleton, List.getLast?_append_of_ne_nil _ (List.cons_ne_nil _ _)]
          generalize (List.range' a n).filter isBad = bads at hih ⊢
          rw [if_pos (by lia)]
          by_cases hle : ((bads.length + 1 : Nat) : Int) - 1 ≤ ofs
          · rw [if_pos hle]
            by_cases heq : ofs < bads.length + 1
            · have : ofs = bads.length := by lia
              rw [if_pos heq, this]
              simp
            · rw [if_neg heq]
              rfl
          · have hlt : ofs < bads.length := by lia
            rw [if_neg hle, show ((bads.length + 1 : Nat) : Int) - 1 = bads.length by lia, hih,
              if_pos hlt, if_pos (by lia), List.getElem?_append_left hlt]

end

/-!
## The image of a block
-/

/-- Where the scan of `[a, z)` sends a block: to the blocks of the range in order, good
ones first, and behind their number to the last bad one. -/
def image (isBad : Nat -> Bool) (a z block : Nat) : Nat :=
  ((ordered (fun i => !isBad i) (List.range' a (z - a)))[block - a]?).getD
    ((((List.range' a (z - a)).filter isBad).getLast?).getD block)

def AllGood (bad : Int -> Bool) (start stop : Int) : Prop :=
  forall i, start ≤ i -> i < stop -> bad i = false

section

variable {bad : Int -> Bool} {start stop : Int}

end

section

variable {D : Desc} {buf : Table} {block : Nat}

theorem getMapping_eq {s e : Nat}
    (h : D.mappingBlockInRange block = some ((s : Int), (e : Int)))
    (hle : s >>> D.blkShift ≤ e >>> D.blkShift) (hb : s >>> D.blkShift ≤ block) :
    D.getMappingBlockIndexBbt buf block =
      image (fun i => badAt buf i) (s >>> D.blkShift) (e >>> D.blkShift) block := by
  have hs : (s : Int) >>> D.blkShift = ((s >>> D.blkShift : Nat) : Int) := rfl
  have he : (e : Int) >>> D.blkShift = ((e >>> D.blkShift : Nat) : Int) := rfl
  unfold Desc.getMappingBlockIndexBbt image
  rw [h]
  dsimp only
  rw [hs, he]
  generalize s >>> D.blkShift = a at *
  generalize e >>> D.blkShift = z at *
  have hn : ((z : Int) - a).toNat = z - a := by lia
  have hofs : (block : Int) - a = ((block - a : Nat) : Int) := by lia
  have hstop : (z : Int) = a + (z - a : Nat) := by lia
  have hneg : (List.range' a (z - a)).filter (fun i : Nat => !!badAt buf i) =
      (List.range' a (z - a)).filter fun i : Nat => badAt buf i :=
    List.filter_congr fun i _ => Bool.not_not _
  rw [hn, hofs]
  cases hg : ((List.range' a (z - a)).filter fun i : Nat => !badAt buf i)[block - a]? with
  | some g =>
      have hi := upScan_good (fun i => badAt buf i) (badAt buf) 0 hstop
        (fun _ _ => rfl) hg
      have hmem := (List.mem_filter.mp (List.mem_of_getElem? hg)).1
      rw [List.mem_range'_1] at hmem
      rw [if_pos (by rw [hi]; lia), hi,
        ordered_front (List.getElem?_eq_some_iff.mp hg).1, hg, Option.getD_some]
  | none =>
      have hlen := List.getElem?_eq_none_iff.mp hg
      have hbad : forall j : Nat, j < a + (z - a) -> badAt buf (0 + j) = badAt buf j :=
        fun j _ => by rw [Int.zero_add]
      rw [upScan_end (fun i => badAt buf i) (badAt buf) 0 (Int.zero_add _).symm
        (by rw [Int.zero_add, hstop]) hbad hlen]
      dsimp only
      rw [if_neg (Int.lt_irrefl _), Int.zero_add, ordered_back hlen, hneg]
      have hrest : ((block - a : Nat) : Int) -
          ((List.range' a (z - a)).filter fun i : Nat => !badAt buf i).length =
          ((block - a -
            ((List.range' a (z - a)).filter fun i : Nat => !badAt buf i).length : Nat) : Int) := by
        lia
      have hdown := downScan_eq (fun i => badAt buf i) (badAt buf) 0 (a := a) (n := z - a)
        (block - a - ((List.range' a (z - a)).filter fun i : Nat => !badAt buf i).length) hbad
      rw [Nat.add_sub_cancel' hle, Int.zero_add] at hdown
      rw [hrest, hdown]
      generalize (List.range' a (z - a)).filter (fun i : Nat => badAt buf i) = bads
      generalize block - a - _ = k
      by_cases hk : k < bads.length
      · rw [if_pos hk, List.getElem?_eq_getElem hk, Option.map_some, Option.getD_some,
          Option.getD_some, Int.zero_add]
      · rw [if_neg hk, List.getElem?_eq_none (by lia)]
        cases bads.getLast? with
        | none => rfl
        | some b => exact Int.zero_add _

end

/-!
## Remap ranges
-/

/-- A range of the device tree, found before every other one that shares an address with
it. -/
structure Configured (D : Desc) where
  before : List (Nat × Nat)
  cells : Nat × Nat
  after : List (Nat × Nat)
  split : D.remapRange = before ++ cells :: after
  apart : forall r, r ∈ before -> forall addr, cells.1 ≤ addr -> addr < cells.2 ->
    ¬ (r.1 ≤ addr ∧ addr < r.2)

/-- The ranges that `mapping_block_in_range` provides: the whole chip where none is
configured. -/
inductive Range (D : Desc) where
  | whole (h : D.remapRange = [])
  | configured (c : Configured D)

def blocksBelow (shift addr : Nat) : Nat := (addr + 2 ^ shift - 1) / 2 ^ shift

theorem blocksBelow_le_iff (shift addr b : Nat) :
    blocksBelow shift addr ≤ b <-> addr ≤ b * 2 ^ shift := by
  have hpos : 0 < 2 ^ shift := Nat.two_pow_pos shift
  unfold blocksBelow
  rw [<- Nat.lt_succ_iff, Nat.div_lt_iff_lt_mul hpos, Nat.succ_mul]
  lia

theorem lt_blocksBelow_iff (shift addr b : Nat) :
    b < blocksBelow shift addr <-> b * 2 ^ shift < addr := by
  rw [<- Nat.not_le, blocksBelow_le_iff, Nat.not_le]

theorem shiftRight_le_blocksBelow (shift addr : Nat) : addr >>> shift ≤ blocksBelow shift addr := by
  rw [Nat.shiftRight_eq_div_pow]
  unfold blocksBelow
  exact Nat.div_le_div_right (by have := Nat.two_pow_pos shift; lia)

theorem blocksBelow_le (shift addr : Nat) : blocksBelow shift addr ≤ addr >>> shift + 1 := by
  have hpos : 0 < 2 ^ shift := Nat.two_pow_pos shift
  rw [blocksBelow_le_iff, Nat.shiftRight_eq_div_pow, Nat.succ_mul]
  have hdm := Nat.div_add_mod addr (2 ^ shift)
  have hmod := Nat.mod_lt addr hpos
  rw [Nat.mul_comm] at hdm
  lia

namespace Range

variable {D : Desc}

/-- What the code takes for the byte addresses of the range. -/
def start : Range D -> Nat
  | whole _ => 0
  | configured c => c.cells.1

def stop : Range D -> Nat
  | whole _ => D.totalBlks
  | configured c => c.cells.2

def lo : Range D -> Nat
  | whole _ => 0
  | configured c => blocksBelow D.blkShift c.cells.1

def hi : Range D -> Nat
  | whole _ => D.totalBlks
  | configured c => blocksBelow D.blkShift c.cells.2

/-- The blocks that the loops look at, where the bounds are `int` values. -/
def scanLo (r : Range D) : Int := toInt r.start >>> D.blkShift

def scanHi (r : Range D) : Int := toInt r.stop >>> D.blkShift

theorem stop_lt (r : Range D) : r.stop < 2 ^ 32 := by
  cases r with
  | whole h => exact D.total_lt.trans (by decide)
  | configured c =>
      refine (D.cells_lt c.cells ?_).2
      rw [c.split]
      exact List.mem_append_right _ List.mem_cons_self

theorem lo_bounds (r : Range D) :
    r.start >>> D.blkShift ≤ r.lo ∧ r.lo ≤ r.start >>> D.blkShift + 1 := by
  cases r with
  | whole h => exact ⟨Nat.le_of_eq (Nat.zero_shiftRight _), Nat.zero_le _⟩
  | configured c => exact ⟨shiftRight_le_blocksBelow _ _, blocksBelow_le _ _⟩

theorem start_le_stop (r : Range D) (h : r.lo < r.hi) : r.start ≤ r.stop := by
  cases r with
  | whole h => exact Nat.zero_le _
  | configured c =>
      have hstart := (blocksBelow_le_iff D.blkShift c.cells.1 _).mp (Nat.le_refl _)
      have hstop := (lt_blocksBelow_iff _ _ _).mp h
      exact Nat.le_of_lt (Nat.lt_of_le_of_lt hstart hstop)

theorem inRange (r : Range D) {block : Nat} (hlo : r.lo ≤ block) (hhi : block < r.hi) :
    D.mappingBlockInRange block = some (toInt r.start, toInt r.stop) := by
  cases r with
  | whole h =>
      have htotal : toInt D.totalBlks = D.totalBlks := toInt_of_lt (D.total_lt.trans (by decide))
      unfold start stop
      rw [htotal]
      exact if_pos h
  | configured c =>
      have hne : D.remapRange ≠ [] := by
        rw [c.split]
        exact List.append_ne_nil_of_right_ne_nil _ (List.cons_ne_nil _ _)
      have hstart := (blocksBelow_le_iff _ _ _).mp hlo
      have hstop := (lt_blocksBelow_iff _ _ _).mp hhi
      have hbefore : c.before.find? (fun r => decide (r.1 ≤ block * 2 ^ D.blkShift ∧
          block * 2 ^ D.blkShift < r.2)) = none := by
        rw [List.find?_eq_none]
        intro r hr hin
        exact c.apart r hr _ hstart hstop (of_decide_eq_true hin)
      have haddr : u32 (block <<< D.blkShift) = block * 2 ^ D.blkShift := by
        rw [Nat.shiftLeft_eq]
        exact u32_of_lt (hstop.trans (stop_lt (configured c)))
      unfold Desc.mappingBlockInRange
      rw [if_neg hne]
      dsimp only
      rw [haddr, c.split, List.find?_append, hbefore, Option.none_or,
        List.find?_cons, decide_eq_true (And.intro hstart hstop), Option.map_some]
      rfl

theorem mapping_eq (r : Range D) (hstop : r.stop < 2 ^ 31) (buf : Table) {block : Nat}
    (hlo : r.lo ≤ block) (hhi : block < r.hi) :
    D.getMappingBlockIndexBbt buf block =
      image (fun i => badAt buf i) (r.start >>> D.blkShift) (r.stop >>> D.blkShift) block := by
  have hss := r.start_le_stop (Nat.lt_of_le_of_lt hlo hhi)
  have hin := r.inRange hlo hhi
  rw [toInt_of_lt hstop, toInt_of_lt (Nat.lt_of_le_of_lt hss hstop)] at hin
  refine getMapping_eq hin ?_ (r.lo_bounds.1.trans hlo)
  rw [Nat.shiftRight_eq_div_pow, Nat.shiftRight_eq_div_pow]
  exact Nat.div_le_div_right hss

/-- The range is mapped as it should be: it has no block; or the loops look at its blocks,
or at one block in front of them that is mapped to itself; or they look at other blocks,
all of them good, and no good block of the range is behind a bad one. -/
def Sound (r : Range D) (bad : Int -> Bool) : Prop :=
  r.hi ≤ r.lo ∨
    if r.scanHi = r.hi then
      r.scanLo = r.lo ∨ bad r.scanLo = false ∨
        forall i, r.scanLo ≤ i -> i < r.scanHi -> bad i = true
    else
      AllGood bad r.scanLo r.scanHi ∧
        forall i j : Nat, r.lo ≤ i -> i < j -> j < r.hi -> bad i = true -> bad j = true

end Range

section

variable {isBad : Nat -> Bool} {f : Nat -> Int} {a z lo hi : Nat}

theorem image_inside (isBad : Nat -> Bool) {b : Nat} (ha : a ≤ b) (hz : b < z) :
    (ordered (fun i => !isBad i) (List.range' a (z - a)))[b - a]? =
      some (image isBad a z b) := by
  have hlt : b - a < (ordered (fun i => !isBad i) (List.range' a (z - a))).length := by
    rw [ordered_length, List.length_range']
    lia
  unfold image
  rw [List.getElem?_eq_getElem hlt, Option.getD_some]

end

section

variable {D : Desc} {buf : Table}

theorem inRange_some {block : Nat} {start stop : Int} (hne : D.remapRange ≠ [])
    (h : D.mappingBlockInRange block = some (start, stop)) :
    exists r, r ∈ D.remapRange ∧ r.1 ≤ u32 (block <<< D.blkShift) ∧
      u32 (block <<< D.blkShift) < r.2 ∧ toInt r.2 = stop := by
  unfold Desc.mappingBlockInRange at h
  rw [if_neg hne] at h
  dsimp only at h
  rw [Option.map_eq_some_iff] at h
  rcases h with ⟨r, hr, heq⟩
  have hin := List.find?_some hr
  rw [decide_eq_true_iff] at hin
  exact ⟨r, List.mem_of_find?_eq_some hr, hin.1, hin.2, (Prod.mk.inj heq).2⟩

end

end Bbt
end Bmt
end Hlk7621
