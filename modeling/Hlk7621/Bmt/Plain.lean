import Hlk7621.Bmt.Layer

/-!
# Remapped blocks as a plain NAND

A plain NAND is addressed linearly.  Over a chip whose operations succeed, requests to the
remapping layer give what a plain NAND gives whose byte `a` is the byte of the chip that
the mapping assigns to it.
-/

namespace Hlk7621
namespace Bmt

/-!
## Chips
-/

/-- How a chip of this kind reads and programs: the number of corrected bits where an address
is read, and what programming a byte over another gives. -/
structure Cells where
  flips : Nat -> Nat
  program : UInt8 -> UInt8 -> UInt8

def worst (flips : Nat -> Nat) (pos : Nat) : Nat -> Nat
  | 0 => 0
  | len + 1 => max (worst flips pos len) (flips (pos + len))

def programmed (program : UInt8 -> UInt8 -> UInt8) (mem : Nat -> UInt8) (pos : Nat) (data : Bytes) :
    Nat -> UInt8 :=
  overwrite mem pos (List.zipWith program (window mem pos data.length) data)

/-- The chip below the layer, with the ranges of the operations on it. -/
structure Phys where
  mem : Nat -> UInt8
  touched : List (Nat × Nat)

def overChip (C : Cells) (blkShift bitflipThreshold : Nat) (remapRange : List (Nat × Nat))
    (map : Nat -> Nat) (remapBlock : Nat -> Nat -> Nat -> Phys -> Bool × Phys) : Layer Phys where
  blkShift := blkShift
  bitflipThreshold := bitflipThreshold
  remapRange := remapRange
  getMappingBlock := fun _ b => map b
  remapBlock := remapBlock
  readOob := fun pos len w =>
    (((worst C.flips pos len : Nat), window w.mem pos len),
      { w with touched := (pos, len) :: w.touched })
  writeOob := fun pos data w =>
    ((0, data.length),
      { mem := programmed C.program w.mem pos data, touched := (pos, data.length) :: w.touched })
  erase := fun pos len w =>
    (0,
      { mem := overwrite w.mem pos (List.replicate len 0xff)
        touched := (pos, len) :: w.touched })

/-!
## The plain NAND
-/

inductive Request where
  | read (pos len : Nat)
  | write (pos : Nat) (data : Bytes)
  | erase (addr len : Nat)

inductive Reply where
  | read (code : Int) (data : Bytes)
  | write (code : Int) (retlen : Nat)
  | erase (code : Int)
  deriving DecidableEq

def blanked (blkSize : Nat) (mem : Nat -> UInt8) (addr len a : Nat) : UInt8 :=
  if 0 < len ∧ addr / blkSize ≤ a / blkSize ∧ a / blkSize ≤ (addr + len - 1) / blkSize then 0xff
  else mem a

def plain (C : Cells) (blkSize : Nat) : Request -> (Nat -> UInt8) -> Reply × (Nat -> UInt8)
  | .read pos len, mem => (.read (worst C.flips pos len : Nat) (window mem pos len), mem)
  | .write pos data, mem => (.write 0 data.length, programmed C.program mem pos data)
  | .erase addr len, mem => (.erase 0, blanked blkSize mem addr len)

def Layer.serve {W : Type} (L : Layer W) (fuel : Nat) (junk : Int) :
    Request -> W -> Option (Reply × W)
  | .read pos len, w =>
      (L.mtkBmtRead fuel pos len w).map fun r => (.read r.1.code r.1.got, r.2)
  | .write pos data, w =>
      (L.mtkBmtWrite fuel pos data w).map fun r => (.write r.1.code r.1.got, r.2)
  | .erase addr len, w =>
      (L.mtkBmtMtdErase fuel junk addr len w).map fun r => (.erase r.1.code, r.2)

def Request.Inside (size : Nat) : Request -> Prop
  | .read pos len => pos + len ≤ size
  | .write pos data => pos + data.length ≤ size
  | .erase addr len => addr + len ≤ size

/-- Lengths of 32 bits, and erases of at least a byte below 4 GiB. -/
def Request.Ordinary : Request -> Prop
  | .read _ len => len < 2 ^ 32
  | .write _ data => data.length < 2 ^ 32
  | .erase addr len => 0 < len ∧ addr < 2 ^ 32

/-!
## Places
-/

section

variable {shift blocks : Nat} {map : Nat -> Nat}

def place (shift : Nat) (map : Nat -> Nat) (a : Nat) : Nat :=
  map (a / 2 ^ shift) * 2 ^ shift + a % 2 ^ shift

/-- Logical blocks have blocks of their own, as many as a block number of 16 bits tells apart. -/
structure Mapping (shift blocks : Nat) (map : Nat -> Nat) : Prop where
  injective : forall b c, b < blocks -> c < blocks -> map b = map c -> b = c
  short : blocks ≤ 2 ^ 16

theorem place_div (a : Nat) : place shift map a / 2 ^ shift = map (a / 2 ^ shift) := by
  unfold place
  rw [Nat.mul_comm, Nat.mul_add_div (Nat.two_pow_pos shift),
    Nat.div_eq_of_lt (Nat.mod_lt _ (Nat.two_pow_pos shift)), Nat.add_zero]

theorem place_mod (a : Nat) : place shift map a % 2 ^ shift = a % 2 ^ shift := by
  unfold place
  rw [Nat.mul_comm, Nat.mul_add_mod, Nat.mod_mod]

theorem div_lt_blocks {a : Nat} (h : a < blocks * 2 ^ shift) : a / 2 ^ shift < blocks :=
  Nat.div_lt_of_lt_mul (by rw [Nat.mul_comm]; exact h)

theorem Mapping.place_injective (hmap : Mapping shift blocks map) {a c : Nat}
    (ha : a < blocks * 2 ^ shift) (hc : c < blocks * 2 ^ shift)
    (h : place shift map a = place shift map c) : a = c := by
  have hdiv : map (a / 2 ^ shift) = map (c / 2 ^ shift) := by
    have := congrArg (· / 2 ^ shift) h
    simpa only [place_div] using this
  have hmod : a % 2 ^ shift = c % 2 ^ shift := by
    have := congrArg (· % 2 ^ shift) h
    simpa only [place_mod] using this
  have hblock := hmap.injective _ _ (div_lt_blocks ha) (div_lt_blocks hc) hdiv
  rw [← Nat.div_add_mod a (2 ^ shift), ← Nat.div_add_mod c (2 ^ shift), hblock, hmod]

theorem place_add {a i : Nat} (h : a % 2 ^ shift + i < 2 ^ shift) :
    place shift map (a + i) = place shift map a + i := by
  have hdm := Nat.div_add_mod a (2 ^ shift)
  have hdiv : (a + i) / 2 ^ shift = a / 2 ^ shift := by
    rw [← hdm, Nat.add_assoc, Nat.mul_add_div (Nat.two_pow_pos shift), Nat.div_eq_of_lt h,
      Nat.mul_add_div (Nat.two_pow_pos shift),
      Nat.div_eq_of_lt (Nat.mod_lt _ (Nat.two_pow_pos shift))]
  have hmod : (a + i) % 2 ^ shift = a % 2 ^ shift + i := by
    rw [← hdm, Nat.add_assoc, Nat.mul_add_mod, Nat.mod_eq_of_lt h, Nat.mul_add_mod, Nat.mod_mod]
  unfold place
  rw [hdiv, hmod, Nat.add_assoc]

/-!
## Pieces
-/

/-- The logical contents are those of the mapped blocks. -/
def Agree (shift blocks : Nat) (map : Nat -> Nat) (mem phys : Nat -> UInt8) : Prop :=
  forall a, a < blocks * 2 ^ shift -> mem a = phys (place shift map a)

def InBlock (shift blocks : Nat) (map : Nat -> Nat) (r : Nat × Nat) : Prop :=
  exists b, b < blocks ∧ map b * 2 ^ shift ≤ r.1 ∧ r.1 + r.2 ≤ map b * 2 ^ shift + 2 ^ shift

variable {mem phys : Nat -> UInt8} {pos len : Nat}

structure Piece (shift blocks pos len : Nat) : Prop where
  block : pos % 2 ^ shift + len ≤ 2 ^ shift
  inside : pos + len ≤ blocks * 2 ^ shift

theorem Piece.inBlock (h : Piece shift blocks pos len) (hpos : 0 < len) :
    InBlock shift blocks map (place shift map pos, len) := by
  have hblock := h.block
  refine ⟨pos / 2 ^ shift, div_lt_blocks (by have := h.inside; lia), ?_, ?_⟩
  · exact Nat.le_add_right _ _
  · show place shift map pos + len ≤ _
    unfold place
    lia

theorem Agree.window (h : Agree shift blocks map mem phys) (hp : Piece shift blocks pos len) :
    window phys (place shift map pos) len = window mem pos len := by
  have hblock := hp.block
  have hin := hp.inside
  apply List.map_congr_left
  intro i hi
  have hlt := List.mem_range.mp hi
  rw [h _ (by lia), place_add (by lia)]

theorem Agree.overwrite (hmap : Mapping shift blocks map) (h : Agree shift blocks map mem phys)
    {data : Bytes} (hp : Piece shift blocks pos data.length) :
    Agree shift blocks map (overwrite mem pos data)
      (overwrite phys (place shift map pos) data) := by
  have hblock := hp.block
  have hin := hp.inside
  intro a ha
  by_cases hhit : pos ≤ a ∧ a < pos + data.length
  · have hplace : place shift map a = place shift map pos + (a - pos) := by
      rw [← place_add (by lia), Nat.add_sub_cancel' hhit.1]
    unfold Hlk7621.overwrite
    rw [if_pos hhit, hplace, if_pos (by lia), Nat.add_sub_cancel_left]
  · have hmiss : ¬ (place shift map pos ≤ place shift map a ∧
        place shift map a < place shift map pos + data.length) := by
      rintro ⟨hle, hlt⟩
      have hsame : place shift map (pos + (place shift map a - place shift map pos)) =
          place shift map a := by
        rw [place_add (by lia)]
        lia
      have := hmap.place_injective (by lia) ha hsame
      lia
    unfold Hlk7621.overwrite
    rw [if_neg hhit, if_neg hmiss]
    exact h a ha

theorem Agree.programmed (hmap : Mapping shift blocks map) (h : Agree shift blocks map mem phys)
    (program : UInt8 -> UInt8 -> UInt8) {data : Bytes} (hp : Piece shift blocks pos data.length) :
    Agree shift blocks map (programmed program mem pos data)
      (programmed program phys (place shift map pos) data) := by
  unfold Bmt.programmed
  rw [h.window hp]
  refine h.overwrite hmap ?_
  rw [List.length_zipWith, window_length, Nat.min_self]
  exact hp

theorem programmed_append (program : UInt8 -> UInt8 -> UInt8) (mem : Nat -> UInt8) (pos : Nat)
    (xs ys : Bytes) :
    programmed program (programmed program mem pos xs) (pos + xs.length) ys =
      programmed program mem pos (xs ++ ys) := by
  have hlen : (List.zipWith program (window mem pos xs.length) xs).length = xs.length := by
    simp
  have hrest : window (programmed program mem pos xs) (pos + xs.length) ys.length =
      window mem (pos + xs.length) ys.length := by
    apply window_congr
    intro a hlo _
    exact overwrite_of_ge (by rw [hlen]; exact hlo)
  have happ := overwrite_append mem pos (List.zipWith program (window mem pos xs.length) xs)
    (List.zipWith program (window mem (pos + xs.length) ys.length) ys)
  rw [hlen] at happ
  unfold programmed at hrest ⊢
  rw [hrest, happ, List.length_append, window_append, List.zipWith_append (by simp)]

theorem worst_add (flips : Nat -> Nat) (pos a b : Nat) :
    worst flips pos (a + b) = max (worst flips pos a) (worst flips (pos + a) b) := by
  induction b with
  | zero => simp [worst]
  | succ b ih => rw [← Nat.add_assoc, worst, ih, worst, Nat.max_assoc, Nat.add_assoc]

theorem worst_place (flips : Nat -> Nat) (hblock : pos % 2 ^ shift + len ≤ 2 ^ shift) :
    worst flips (place shift map pos) len = worst (fun a => flips (place shift map a)) pos len := by
  induction len with
  | zero => rfl
  | succ len ih => rw [worst, worst, ih (by lia), place_add (by lia)]

theorem worst_lt {flips : Nat -> Nat} {bound : Nat} (h : forall a, flips a < bound) (pos len : Nat)
    (hpos : 0 < bound) : worst flips pos len < bound := by
  induction len with
  | zero => exact hpos
  | succ len ih => exact Nat.max_lt.mpr ⟨ih, h _⟩

end

end Bmt
end Hlk7621
