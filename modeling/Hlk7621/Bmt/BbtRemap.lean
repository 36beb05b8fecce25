import Hlk7621.Bmt.Bbt
import Hlk7621.Bmt.Copy
import Mathlib.Data.List.Pairwise

/-!
# Remapping a block in the BBT variant

Model of `bbt_set_block_state` and `remap_block_bbt` from `mtk_bmt_bbt.c` on a chip whose
erases and writes succeed.  The mapping counts good blocks, so that marking one of them
moves the logical blocks behind it, whose data stays where it is.
-/

namespace Hlk7621
namespace Bmt
namespace Bbt

open StablePartition

abbrev Pages := Nat -> Nat -> Nat -> UInt8

/-- The chip under the driver.  The last four blocks are taken off the size of the
device; the table is in one block. -/
structure Device extends Desc where
  pgShift : Nat
  bmtBlkIdx : Nat
  readable : Nat -> Nat -> Bool
  page_le : pgShift ≤ blkShift
  table_fits : totalBlks / 4 ≤ 2 ^ blkShift

structure State where
  buf : Table
  pages : Pages

namespace Device

variable (P : Device)

def pgSize : Nat := 2 ^ P.pgShift

def pagesPerBlk : Nat := 2 ^ P.blkShift >>> P.pgShift

theorem pagesPerBlk_pos : 0 < P.pagesPerBlk := by
  unfold pagesPerBlk
  rw [Nat.shiftRight_eq_div_pow]
  exact Nat.div_pos (Nat.pow_le_pow_right (by decide) P.page_le) (Nat.two_pow_pos _)

def bmtPgs : Nat :=
  (P.totalBlks / 4 + 2 ^ P.blkShift - 1) / 2 ^ P.blkShift * 2 ^ P.blkShift / P.pgSize

def bbtNandErase (block : Nat) (pages : Pages) : Pages :=
  Function.update pages block fun _ _ => 0xff

def writeBmt (block : Nat) (buf : Table) (pages : Pages) : Pages :=
  Function.update pages block fun i =>
    if i < P.bmtPgs then fun k => buf (i * P.pgSize + k) else pages block i

def bbtSetBlockState (block : Nat) (bad : Bool) (s : State) : State :=
  { buf := bbtSetState block bad s.buf
    pages := P.writeBmt P.bmtBlkIdx (bbtSetState block bad s.buf)
      (bbtNandErase P.bmtBlkIdx s.pages) }

def bbtNandCopy (destBlk srcBlk : Nat) (maxOffset : Int) (pages : Pages) : Pages :=
  Function.update pages destBlk
    (nandCopy (P.readable srcBlk) P.pgSize maxOffset (pages srcBlk) P.pagesPerBlk 0
      (pages destBlk))

def remapBlockBbt (block mappedBlk : Nat) (copyLen : Int) (s : State) : Bool × State :=
  match P.mappingBlockInRange block with
  | none => (false, s)
  | some _ =>
      let s := P.bbtSetBlockState mappedBlk true s
      let newBlk := u16 (P.getMappingBlockIndexBbt s.buf block)
      let pages := bbtNandErase newBlk s.pages
      let pages := if 0 < copyLen then P.bbtNandCopy newBlk mappedBlk copyLen pages else pages
      (true, { s with pages := pages })

/-- A byte of a logical block; where its place is negative, `mtk_bmt_read` fails. -/
def read (s : State) (block i k : Nat) : Option UInt8 :=
  let curBlock := P.getMappingBlockIndexBbt s.buf block
  if curBlock < 0 then none else some (s.pages curBlock.toNat i k)

def Kept (s s' : State) (block : Nat) : Prop :=
  forall i k, i < P.pagesPerBlk -> k < P.pgSize -> P.read s' block i k = P.read s block i k

end Device

/-!
## The bitmap
-/

theorem badAt_of_lt (buf : Table) {i : Nat} (h : i < 2 ^ 16) :
    badAt buf i = bbtBlockIsBad buf i := by
  have hu : u16 i = i := by
    unfold u16
    lia
  unfold badAt
  rw [hu]

section

variable {isBad isBad' : Nat -> Bool} {a z : Nat}

theorem image_mem (isBad : Nat -> Bool) {b : Nat} (ha : a ≤ b) (hz : b < z) :
    a ≤ image isBad a z b ∧ image isBad a z b < z := by
  have hmem := List.mem_of_getElem? (image_inside isBad ha hz)
  rw [mem_ordered, List.mem_range'_1] at hmem
  lia

theorem image_congr {b : Nat} (h : forall i, a ≤ i -> i < z -> isBad' i = isBad i) :
    image isBad' a z b = image isBad a z b := by
  have hmem : forall i, i ∈ List.range' a (z - a) -> isBad' i = isBad i := by
    intro i hi
    rw [List.mem_range'_1] at hi
    exact h i hi.1 (by lia)
  have hgood : (List.range' a (z - a)).filter (fun i => !isBad' i) =
      (List.range' a (z - a)).filter fun i => !isBad i :=
    List.filter_congr fun i hi => by rw [hmem i hi]
  have hbad : (List.range' a (z - a)).filter (fun i => !!isBad' i) =
      (List.range' a (z - a)).filter fun i => !!isBad i :=
    List.filter_congr fun i hi => by rw [hmem i hi]
  unfold image ordered
  rw [hgood, hbad, List.filter_congr hmem]

variable {m block : Nat} (hm : isBad m = false)
  (hmark : forall i, isBad' i = (decide (i = m) || isBad i)) (ha : a ≤ block) (hz : block < z)
  (hblock : image isBad a z block = m)

include hm hmark ha hz hblock

end

/-!
## Ranges of whole blocks
-/

/-- The ranges are configured as whole blocks of the chip below 2 GiB, none of them
shared, and the addresses of the chip have 32 bits. -/
structure WholeBlocks (D : Desc) : Prop where
  configured : D.remapRange ≠ []
  whole : forall r, r ∈ D.remapRange -> 2 ^ D.blkShift ∣ r.1 ∧ 2 ^ D.blkShift ∣ r.2
  inside : forall r, r ∈ D.remapRange -> r.2 ≤ D.totalBlks * 2 ^ D.blkShift
  below : forall r, r ∈ D.remapRange -> r.2 < 2 ^ 31
  size : D.totalBlks * 2 ^ D.blkShift ≤ 2 ^ 32
  apart : D.remapRange.Pairwise fun r r' => r.2 ≤ r'.1 ∨ r'.2 ≤ r.1

def first (D : Desc) (r : Nat × Nat) : Nat := r.1 / 2 ^ D.blkShift

def last (D : Desc) (r : Nat × Nat) : Nat := r.2 / 2 ^ D.blkShift

namespace WholeBlocks

variable {D : Desc} {r : Nat × Nat} {b : Nat}

theorem mem_iff (h : WholeBlocks D) (hr : r ∈ D.remapRange) :
    (r.1 ≤ b * 2 ^ D.blkShift ∧ b * 2 ^ D.blkShift < r.2) <-> first D r ≤ b ∧ b < last D r := by
  have hpos : 0 < 2 ^ D.blkShift := Nat.two_pow_pos _
  rcases h.whole r hr with ⟨⟨s, hs⟩, ⟨e, he⟩⟩
  unfold first last
  rw [hs, he, Nat.mul_div_cancel_left _ hpos, Nat.mul_div_cancel_left _ hpos,
    Nat.mul_comm b, Nat.mul_le_mul_left_iff hpos, Nat.mul_lt_mul_left hpos]

theorem last_le (h : WholeBlocks D) (hr : r ∈ D.remapRange) : last D r ≤ D.totalBlks :=
  Nat.div_le_of_le_mul (by rw [Nat.mul_comm]; exact h.inside r hr)

theorem exists_configured (h : WholeBlocks D) (hr : r ∈ D.remapRange) :
    exists c : Configured D, c.cells = r := by
  rcases List.append_of_mem hr with ⟨before, after, hsplit⟩
  have hapart := h.apart
  rw [hsplit, List.pairwise_append] at hapart
  refine ⟨⟨before, r, after, hsplit, ?_⟩, rfl⟩
  intro r' hr' addr hstart hstop hin
  rcases hapart.2.2 r' hr' r List.mem_cons_self with hlt | hlt
  · lia
  · lia

theorem mapping_eq (h : WholeBlocks D) (hr : r ∈ D.remapRange) (hlo : first D r ≤ b)
    (hhi : b < last D r) (buf : Table) :
    D.getMappingBlockIndexBbt buf b = image (bbtBlockIsBad buf) (first D r) (last D r) b := by
  rcases h.exists_configured hr with ⟨c, rfl⟩
  have hin := (h.mem_iff hr).mpr ⟨hlo, hhi⟩
  have hmap := (Range.configured c).mapping_eq (h.below _ hr) buf
    ((blocksBelow_le_iff _ _ _).mpr hin.1) ((lt_blocksBelow_iff _ _ _).mpr hin.2)
  rw [Nat.shiftRight_eq_div_pow, Nat.shiftRight_eq_div_pow] at hmap
  have hlast := h.last_le hr
  refine hmap.trans (congrArg _ (image_congr fun i _ hi => badAt_of_lt buf ?_))
  exact (Nat.lt_of_lt_of_le hi hlast).trans D.total_lt

theorem inRange (h : WholeBlocks D) (hr : r ∈ D.remapRange) (hlo : first D r ≤ b)
    (hhi : b < last D r) : D.mappingBlockInRange b ≠ none := by
  rcases h.exists_configured hr with ⟨c, rfl⟩
  have hin := (h.mem_iff hr).mpr ⟨hlo, hhi⟩
  rw [(Range.configured c).inRange ((blocksBelow_le_iff _ _ _).mpr hin.1)
    ((lt_blocksBelow_iff _ _ _).mpr hin.2)]
  exact Option.some_ne_none _

theorem inRange_none (h : WholeBlocks D) (hb : b < D.totalBlks) (hout : forall r,
      r ∈ D.remapRange -> ¬ (r.1 ≤ b * 2 ^ D.blkShift ∧ b * 2 ^ D.blkShift < r.2)) :
    D.mappingBlockInRange b = none := by
  have haddr : u32 (b <<< D.blkShift) = b * 2 ^ D.blkShift := by
    have hlt := (Nat.mul_lt_mul_right (Nat.two_pow_pos D.blkShift)).mpr hb
    rw [Nat.shiftLeft_eq]
    exact u32_of_lt (Nat.lt_of_lt_of_le hlt h.size)
  cases hin : D.mappingBlockInRange b with
  | none => rfl
  | some bounds =>
      rcases inRange_some h.configured hin with ⟨r, hr, hlo, hhi, _⟩
      rw [haddr] at hlo hhi
      exact absurd ⟨hlo, hhi⟩ (hout r hr)

/-- The other blocks are mapped outside the range, wherever its bad blocks are. -/
theorem outside (h : WholeBlocks D) (buf buf' : Table) (hr : r ∈ D.remapRange)
    (hb : b < D.totalBlks) (hout : ¬ (first D r ≤ b ∧ b < last D r))
    (hsame : forall i, ¬ (first D r ≤ i ∧ i < last D r) ->
      bbtBlockIsBad buf' i = bbtBlockIsBad buf i) :
    exists x : Nat, D.getMappingBlockIndexBbt buf b = x ∧ D.getMappingBlockIndexBbt buf' b = x ∧
      ¬ (first D r ≤ x ∧ x < last D r) := by
  by_cases hany : exists r', r' ∈ D.remapRange ∧
      r'.1 ≤ b * 2 ^ D.blkShift ∧ b * 2 ^ D.blkShift < r'.2
  · rcases hany with ⟨r', hr', hin⟩
    rw [h.mem_iff hr'] at hin
    have hne : r ≠ r' := by
      rintro rfl
      exact hout hin
    have hsymm : Std.Symm fun r r' : Nat × Nat => r.2 ≤ r'.1 ∨ r'.2 ≤ r.1 :=
      ⟨fun _ _ hor => hor.symm⟩
    have hapart : r.2 ≤ r'.1 ∨ r'.2 ≤ r.1 := h.apart.forall hr hr' hne
    have hdisjoint : forall i, first D r' ≤ i -> i < last D r' ->
        ¬ (first D r ≤ i ∧ i < last D r) := by
      intro i hi hi' hboth
      have hin := (h.mem_iff hr').mpr ⟨hi, hi'⟩
      have hin' := (h.mem_iff hr).mpr hboth
      lia
    refine ⟨_, h.mapping_eq hr' hin.1 hin.2 buf, ?_, ?_⟩
    · rw [h.mapping_eq hr' hin.1 hin.2 buf',
        image_congr fun i hi hi' => hsame i (hdisjoint i hi hi')]
    · have hmem := image_mem (bbtBlockIsBad buf) hin.1 hin.2
      exact hdisjoint _ hmem.1 hmem.2
  · have hnone := h.inRange_none hb fun r' hr' hin => hany ⟨r', hr', hin⟩
    refine ⟨b, ?_, ?_, hout⟩
    · unfold Desc.getMappingBlockIndexBbt
      rw [hnone]
    · unfold Desc.getMappingBlockIndexBbt
      rw [hnone]

end WholeBlocks

/-!
## The remapping
-/

section

variable {P : Device} {s : State} {buf : Table} {block m : Nat} {copyLen : Int}

def newBlk (P : Device) (buf : Table) (block m : Nat) : Nat :=
  u16 (P.getMappingBlockIndexBbt (bbtSetState m true buf) block)

def CopiesAll (P : Device) (m : Nat) (copyLen : Int) : Prop :=
  forall i, i < P.pagesPerBlk -> ((i * P.pgSize : Nat) : Int) < copyLen ∧ P.readable m i = true

theorem remap_buf (hrange : P.mappingBlockInRange block ≠ none) :
    (P.remapBlockBbt block m copyLen s).2.buf = bbtSetState m true s.buf := by
  unfold Device.remapBlockBbt
  cases hin : P.mappingBlockInRange block with
  | none => exact absurd hin hrange
  | some bounds => rfl

theorem remap_other (hrange : P.mappingBlockInRange block ≠ none) {b : Nat}
    (hb : b ≠ newBlk P s.buf block m) :
    (P.remapBlockBbt block m copyLen s).2.pages b = (P.bbtSetBlockState m true s).pages b := by
  unfold Device.remapBlockBbt
  cases hin : P.mappingBlockInRange block with
  | none => exact absurd hin hrange
  | some bounds =>
      unfold newBlk at hb
      have herase : forall pages : Pages, Device.bbtNandErase
          (u16 (P.getMappingBlockIndexBbt (bbtSetState m true s.buf) block)) pages b = pages b :=
        fun pages => Function.update_of_ne hb _ _
      by_cases hlen : 0 < copyLen
      · dsimp only
        rw [if_pos hlen]
        exact (Function.update_of_ne hb _ _).trans (herase _)
      · dsimp only
        rw [if_neg hlen]
        exact herase _

theorem remap_new (hrange : P.mappingBlockInRange block ≠ none) :
    (P.remapBlockBbt block m copyLen s).2.pages (newBlk P s.buf block m) =
      nandCopy (P.readable m) P.pgSize copyLen
        (Device.bbtNandErase (newBlk P s.buf block m) (P.bbtSetBlockState m true s).pages m)
        P.pagesPerBlk 0 fun _ _ => 0xff := by
  have herased : forall (new : Nat) (pages : Pages),
      Device.bbtNandErase new pages new = fun _ _ => 0xff :=
    fun new pages => Function.update_self _ _ _
  unfold Device.remapBlockBbt
  cases hin : P.mappingBlockInRange block with
  | none => exact absurd hin hrange
  | some bounds =>
      dsimp only
      by_cases hlen : 0 < copyLen
      · rw [if_pos hlen]
        refine (Function.update_self _ _ _).trans ?_
        rw [herased]
        rfl
      · rw [if_neg hlen]
        refine (herased _ _).trans ?_
        funext i
        rw [nandCopy_limit (by lia)]

theorem setBlockState_other {b : Nat} (hb : b ≠ P.bmtBlkIdx) :
    (P.bbtSetBlockState m true s).pages b = s.pages b :=
  (Function.update_of_ne hb _ _).trans (Function.update_of_ne hb _ _)

theorem setBlockState_table (buf : Table) : exists v : UInt8, forall pages : Pages,
    (P.bbtSetBlockState m true { buf := buf, pages := pages }).pages P.bmtBlkIdx 0 0 = v := by
  refine ⟨if 0 < P.bmtPgs then bbtSetState m true buf 0 else 0xff, ?_⟩
  intro pages
  unfold Device.bbtSetBlockState Device.writeBmt Device.bbtNandErase
  dsimp only
  rw [Function.update_self, Function.update_self]
  split
  · rw [Nat.zero_mul]
  · rfl

/-- The remapping leaves a logical block its data: its place stays the same and is not
written; or its data goes with that of `block`, and all of it is copied. -/
def Spared (P : Device) (buf : Table) (block m : Nat) (copyLen : Int) (b : Nat) : Prop :=
  let place := P.getMappingBlockIndexBbt buf b
  let place' := P.getMappingBlockIndexBbt (bbtSetState m true buf) b
  let new := newBlk P buf block m
  (place < 0 ∧ place' < 0) ∨
    (place' = place ∧ place ≠ new ∧ place ≠ P.bmtBlkIdx) ∨
      (place = m ∧ place' = new ∧ m ≠ new ∧ m ≠ P.bmtBlkIdx ∧ CopiesAll P m copyLen)

/-- Where the old block is not copied as a whole, a page of the new one stays erased. -/
theorem exists_erased (src : Nat -> Nat -> UInt8) (h : ¬ CopiesAll P m copyLen) :
    exists i, i < P.pagesPerBlk ∧
      nandCopy (P.readable m) P.pgSize copyLen src P.pagesPerBlk 0 (fun _ _ => 0xff) i =
        fun _ => 0xff := by
  unfold CopiesAll at h
  rw [not_forall] at h
  rcases h with ⟨i, h⟩
  rw [Classical.not_imp, not_and_or] at h
  rcases h with ⟨hi, hlimit | hread⟩
  · exact ⟨i, hi, by rw [nandCopy_limit (by lia)]⟩
  · refine ⟨i, hi, ?_⟩
    rw [nandCopy_behind (Nat.zero_le i) (Nat.le_refl i) (Bool.eq_false_of_not_eq_true hread)]

theorem kept_other_iff (buf : Table) (m : Nat) (copyLen : Int)
    (hrange : P.mappingBlockInRange block ≠ none) {x y : Nat}
    (hy : y ≠ newBlk P buf block m) :
    (forall pages i k, i < P.pagesPerBlk -> k < P.pgSize ->
      (P.remapBlockBbt block m copyLen { buf := buf, pages := pages }).2.pages y i k =
        pages x i k) <-> y = x ∧ x ≠ P.bmtBlkIdx := by
  constructor
  · intro h
    have hfirst : forall pages, (P.bbtSetBlockState m true { buf := buf, pages := pages }).pages
        y 0 0 = pages x 0 0 := by
      intro pages
      rw [<- h pages 0 0 P.pagesPerBlk_pos (Nat.two_pow_pos _),
        remap_other (s := { buf := buf, pages := pages }) hrange hy]
    have htable : y ≠ P.bmtBlkIdx := by
      rintro rfl
      rcases setBlockState_table (P := P) (m := m) buf with ⟨v, hv⟩
      have hbyte := hfirst fun _ _ _ => v + 1
      rw [hv] at hbyte
      simp at hbyte
    have hyx : y = x := by
      by_contra hne
      have hbyte := hfirst fun c _ _ => if c = x then 1 else 0
      rw [setBlockState_other htable] at hbyte
      dsimp only at hbyte
      rw [if_pos rfl, if_neg hne] at hbyte
      exact absurd hbyte (by decide)
    exact ⟨hyx, hyx ▸ htable⟩
  · rintro ⟨rfl, htable⟩ pages i k _ _
    rw [remap_other (s := { buf := buf, pages := pages }) hrange hy, setBlockState_other htable]

/-- The content of the new block: the source is erased or written before it is copied, or
the data is that of the old block. -/
theorem kept_new_iff (buf : Table) (m : Nat) (copyLen : Int)
    (hrange : P.mappingBlockInRange block ≠ none) {x : Nat} :
    (forall pages i k, i < P.pagesPerBlk -> k < P.pgSize ->
      (P.remapBlockBbt block m copyLen { buf := buf, pages := pages }).2.pages
        (newBlk P buf block m) i k = pages x i k) <->
      x = m ∧ m ≠ newBlk P buf block m ∧ m ≠ P.bmtBlkIdx ∧ CopiesAll P m copyLen := by
  have hnew : forall pages : Pages,
      (P.remapBlockBbt block m copyLen { buf := buf, pages := pages }).2.pages
          (newBlk P buf block m) =
        nandCopy (P.readable m) P.pgSize copyLen
          (Device.bbtNandErase (newBlk P buf block m)
            (P.bbtSetBlockState m true { buf := buf, pages := pages }).pages m)
          P.pagesPerBlk 0 fun _ _ => 0xff :=
    fun pages => remap_new hrange
  generalize newBlk P buf block m = new at hnew ⊢
  have hcopied : CopiesAll P m copyLen -> forall pages i, i < P.pagesPerBlk ->
      (P.remapBlockBbt block m copyLen { buf := buf, pages := pages }).2.pages new i =
        Device.bbtNandErase new
          (P.bbtSetBlockState m true { buf := buf, pages := pages }).pages m i := by
    intro hall pages i hi
    rw [hnew, nandCopy_of_readable (Nat.zero_le i) (by lia) (hall i hi).1
      fun k _ hk => (hall k (by lia)).2]
  have hpg : 0 < P.pgSize := Nat.two_pow_pos _
  constructor
  · intro h
    have hall : CopiesAll P m copyLen := by
      by_contra hno
      rcases exists_erased (Device.bbtNandErase new (P.bbtSetBlockState m true
        { buf := buf, pages := fun _ _ _ => 0 }).pages m) hno with ⟨i, hi, herased⟩
      have hbyte := h (fun _ _ _ => 0) i 0 hi hpg
      rw [hnew, herased] at hbyte
      exact absurd hbyte (by decide)
    have hfirst : forall pages, Device.bbtNandErase new
        (P.bbtSetBlockState m true { buf := buf, pages := pages }).pages m 0 0 =
          pages x 0 0 := by
      intro pages
      rw [<- h pages 0 0 P.pagesPerBlk_pos hpg, hcopied hall pages 0 P.pagesPerBlk_pos]
    have hmnew : m ≠ new := by
      rintro rfl
      have hbyte := hfirst fun _ _ _ => 0
      unfold Device.bbtNandErase at hbyte
      rw [Function.update_self] at hbyte
      exact absurd hbyte (by decide)
    have hsource : forall pages, (P.bbtSetBlockState m true { buf := buf, pages := pages }).pages
        m 0 0 = pages x 0 0 := by
      intro pages
      have hbyte := hfirst pages
      unfold Device.bbtNandErase at hbyte
      rwa [Function.update_of_ne hmnew] at hbyte
    have htable : m ≠ P.bmtBlkIdx := by
      intro hm
      rcases setBlockState_table (P := P) (m := m) buf with ⟨v, hv⟩
      have hbyte := hsource fun _ _ _ => v + 1
      rw [hm] at hbyte hv
      rw [hv] at hbyte
      simp at hbyte
    refine ⟨?_, hmnew, htable, hall⟩
    by_contra hne
    have hbyte := hsource fun c _ _ => if c = x then 1 else 0
    rw [setBlockState_other htable] at hbyte
    dsimp only at hbyte
    rw [if_pos rfl, if_neg (Ne.symm hne)] at hbyte
    exact absurd hbyte (by decide)
  · rintro ⟨rfl, hmnew, htable, hall⟩ pages i k hi _
    rw [hcopied hall pages i hi]
    unfold Device.bbtNandErase
    rw [Function.update_of_ne hmnew, setBlockState_other htable]

theorem kept_iff (buf : Table) (m : Nat) (copyLen : Int)
    (hrange : P.mappingBlockInRange block ≠ none) {b : Nat} :
    (forall pages, P.Kept { buf := buf, pages := pages }
      (P.remapBlockBbt block m copyLen { buf := buf, pages := pages }).2 b) <->
      Spared P buf block m copyLen b := by
  have hother := fun x y => kept_other_iff buf m copyLen hrange (x := x) (y := y)
  have hnew := fun x => kept_new_iff buf m copyLen hrange (x := x)
  unfold Spared Device.Kept Device.read
  dsimp only
  simp only [remap_buf hrange]
  generalize newBlk P buf block m = new at hother hnew ⊢
  generalize P.getMappingBlockIndexBbt buf b = x
  generalize P.getMappingBlockIndexBbt (bbtSetState m true buf) b = y
  by_cases hx : x < 0
  · by_cases hy : y < 0
    · simp only [if_pos hx, if_pos hy]
      exact iff_of_true (fun _ _ _ _ _ => trivial) (Or.inl ⟨hx, hy⟩)
    · refine iff_of_false ?_ (by lia)
      intro h
      have hread := h (fun _ _ _ => 0) 0 0 P.pagesPerBlk_pos (Nat.two_pow_pos _)
      rw [if_pos hx, if_neg hy] at hread
      cases hread
  · by_cases hy : y < 0
    · refine iff_of_false ?_ (by lia)
      intro h
      have hread := h (fun _ _ _ => 0) 0 0 P.pagesPerBlk_pos (Nat.two_pow_pos _)
      rw [if_neg hx, if_pos hy] at hread
      cases hread
    · simp only [if_neg hx, if_neg hy, Option.some.injEq]
      rcases Int.eq_ofNat_of_zero_le (Int.not_lt.mp hx) with ⟨x, rfl⟩
      rcases Int.eq_ofNat_of_zero_le (Int.not_lt.mp hy) with ⟨y, rfl⟩
      rw [Int.toNat_natCast, Int.toNat_natCast]
      by_cases heq : y = new
      · rw [heq, hnew x]
        lia
      · rw [hother x y heq]
        lia

end

end Bbt
end Bmt
end Hlk7621
