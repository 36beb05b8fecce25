import Hlk7621.Bmt.Plain

/-!
# The remapping layer refines a plain NAND

One turn of each loop is an operation on a piece that lies in one block, and the pieces of
a request follow each other.  The relation between the logical and the physical contents
goes through every request, and so through every sequence of requests.
-/

namespace Hlk7621
namespace Bmt

/-- A chip whose reads stay below the threshold for bit flips. -/
def Reliable (C : Cells) (bitflipThreshold : Nat) : Prop :=
  bitflipThreshold = 0 ∨ forall a, C.flips a < bitflipThreshold

/-- The cells of the plain NAND: what is read at `a` is read at its place. -/
def Cells.at (C : Cells) (shift : Nat) (map : Nat -> Nat) : Cells :=
  { C with flips := fun a => C.flips (place shift map a) }

section

variable {C : Cells} {shift threshold blocks : Nat} {ranges : List (Nat × Nat)} {map : Nat -> Nat}
  {remap : Nat -> Nat -> Nat -> Phys -> Bool × Phys}

def Touches (shift blocks : Nat) (map : Nat -> Nat) (w w' : Phys) : Prop :=
  forall r, r ∈ w'.touched -> r ∈ w.touched ∨ InBlock shift blocks map r

theorem Touches.refl (w : Phys) : Touches shift blocks map w w := fun _ h => Or.inl h

theorem Touches.trans {w w' w'' : Phys} (h : Touches shift blocks map w w')
    (h' : Touches shift blocks map w' w'') : Touches shift blocks map w w'' := by
  intro r hr
  rcases h' r hr with hr' | hin
  · exact h r hr'
  · exact Or.inr hin

theorem Touches.cons {w w' : Phys} {r : Nat × Nat} (htouched : w'.touched = r :: w.touched)
    (hin : InBlock shift blocks map r) : Touches shift blocks map w w' := by
  intro x hx
  rw [htouched] at hx
  rcases List.mem_cons.mp hx with rfl | hold
  · exact Or.inr hin
  · exact Or.inl hold

/-!
## Reading
-/

theorem next_piece {pos rem : Nat} (hrem : 0 < rem) (hin : pos + rem ≤ blocks * 2 ^ shift) :
    0 < min (2 ^ shift - pos % 2 ^ shift) rem ∧
      Piece shift blocks pos (min (2 ^ shift - pos % 2 ^ shift) rem) := by
  have hmod := Nat.mod_lt pos (Nat.two_pow_pos shift)
  exact ⟨by lia, ⟨by lia, by lia⟩⟩

theorem u32_block {pos : Nat} (hmap : Mapping shift blocks map) (h : pos < blocks * 2 ^ shift) :
    u32 (pos / 2 ^ shift) = pos / 2 ^ shift := by
  have := div_lt_blocks h
  have := hmap.short
  exact u32_of_lt (by lia)

theorem chip_place (pos : Nat) :
    (map (pos / 2 ^ shift) <<< shift) + pos % 2 ^ shift = place shift map pos := by
  unfold place
  rw [Nat.shiftLeft_eq]

theorem readLoop_turn (hmap : Mapping shift blocks map) (hrel : Reliable C threshold)
    {len fuel c : Nat} {s : Layer.Reading} {w : Phys} (hlen : len < 2 ^ 32)
    (hmore : s.data.length < len) (hin : s.pos < blocks * 2 ^ shift)
    (hc : c = min (2 ^ shift - s.pos % 2 ^ shift) (len - s.data.length)) :
    (overChip C shift threshold ranges map remap).readLoop len (fuel + 1) s w =
      (overChip C shift threshold ranges map remap).readLoop len fuel
        { pos := s.pos + c
          data := s.data ++ window w.mem (place shift map s.pos) c
          ret := s.ret
          maxBitflips := max s.maxBitflips (worst C.flips (place shift map s.pos) c : Nat)
          retry := 0 }
        { w with touched := (place shift map s.pos, c) :: w.touched } := by
  have hmod := Nat.mod_lt s.pos (Nat.two_pow_pos shift)
  have hcode : ¬ ((worst C.flips (place shift map s.pos) c : Nat) : Int) < 0 := by lia
  have hbelow : ¬ (threshold ≠ 0 ∧ (threshold : Int) ≤
      ((worst C.flips (place shift map s.pos) c : Nat) : Int) % 2 ^ 32) := by
    rintro ⟨hne, hle⟩
    rcases hrel with hz | hall
    · exact hne hz
    · have hlt := worst_lt hall (place shift map s.pos) c (Nat.pos_of_ne_zero hne)
      lia
  conv_lhs => unfold Layer.readLoop
  rw [if_pos hmore]
  simp only [overChip, Layer.blkSize, Nat.and_two_pow_sub_one_eq_mod, Nat.shiftRight_eq_div_pow,
    u32_block hmap hin, Int.toNat_natCast, u32_of_lt (show len - s.data.length < 2 ^ 32 by lia),
    chip_place, ← hc]
  rw [if_neg (by lia), if_neg hcode, if_neg hcode, if_neg (fun h => hcode h.1), if_neg hbelow,
    if_neg (by lia)]

theorem readLoop_eq (hmap : Mapping shift blocks map) (hrel : Reliable C threshold)
    {len fuel flips : Nat} {s : Layer.Reading} {w : Phys} {mem : Nat -> UInt8}
    (hlen : len < 2 ^ 32) (hdata : s.data.length ≤ len)
    (hin : s.pos + (len - s.data.length) ≤ blocks * 2 ^ shift)
    (hfuel : len - s.data.length < fuel) (hret : s.ret = 0) (hflips : s.maxBitflips = (flips : Nat))
    (hagree : Agree shift blocks map mem w.mem) :
    exists w', (overChip C shift threshold ranges map remap).readLoop len fuel s w =
        some
          ({ code := (max flips (worst (C.at shift map).flips s.pos (len - s.data.length)) : Nat),
             got := s.data ++ window mem s.pos (len - s.data.length) }, w') ∧
      w'.mem = w.mem ∧ Touches shift blocks map w w' := by
  induction fuel generalizing s w flips with
  | zero => exact absurd hfuel (Nat.not_lt_zero _)
  | succ fuel ih =>
      by_cases hmore : s.data.length < len
      · have hrem : 0 < len - s.data.length := by lia
        rcases next_piece hrem hin with ⟨hpos, hpiece⟩
        generalize hc : min (2 ^ shift - s.pos % 2 ^ shift) (len - s.data.length) = c at hpos hpiece
        have hcle : c ≤ len - s.data.length := by lia
        rw [readLoop_turn hmap hrel hlen hmore (by lia) hc.symm]
        have hwin := hagree.window hpiece
        have hnext := @ih (max flips (worst C.flips (place shift map s.pos) c))
          { pos := s.pos + c
            data := s.data ++ window w.mem (place shift map s.pos) c
            ret := s.ret
            maxBitflips := max s.maxBitflips (worst C.flips (place shift map s.pos) c : Nat)
            retry := 0 }
          { w with touched := (place shift map s.pos, c) :: w.touched }
          (by simp; lia) (by simp; lia) (by simp; lia) hret (by simp only [hflips]; lia) hagree
        rcases hnext with ⟨w', hrun, hmem, htouch⟩
        refine ⟨w', ?_, hmem, Touches.trans (Touches.cons rfl (hpiece.inBlock hpos)) htouch⟩
        have hsplit : len - s.data.length = c + (len - s.data.length - c) := by lia
        rw [hrun]
        simp only [List.length_append, window_length, ← Nat.sub_sub]
        rw [hwin, worst_place C.flips hpiece.block, hsplit, worst_add, window_append,
          List.append_assoc, Nat.max_assoc, Nat.add_sub_cancel_left]
        rfl
      · have hzero : len - s.data.length = 0 := by lia
        unfold Layer.readLoop
        rw [if_neg hmore, hzero]
        refine ⟨w, ?_, rfl, Touches.refl w⟩
        simp [Layer.Reading.out, hret, hflips, worst]

/-!
## Writing
-/

theorem writeLoop_turn (hmap : Mapping shift blocks map) {len fuel c : Nat} {s : Layer.Writing}
    {w : Phys} (hlen : len < 2 ^ 32) (hmore : s.retlen < len) (hin : s.pos < blocks * 2 ^ shift)
    (hc : c = min (2 ^ shift - s.pos % 2 ^ shift) (len - s.retlen))
    (hdata : s.data.length = len - s.retlen) :
    (overChip C shift threshold ranges map remap).writeLoop len (fuel + 1) s w =
      (overChip C shift threshold ranges map remap).writeLoop len fuel
        { pos := s.pos + c, retlen := s.retlen + c, data := s.data.drop c, retry := 0 }
        { mem := programmed C.program w.mem (place shift map s.pos) (s.data.take c)
          touched := (place shift map s.pos, c) :: w.touched } := by
  have hmod := Nat.mod_lt s.pos (Nat.two_pow_pos shift)
  have htake : (s.data.take c).length = c := by
    rw [List.length_take]
    lia
  conv_lhs => unfold Layer.writeLoop
  rw [if_pos hmore]
  simp only [overChip, Layer.blkSize, Nat.and_two_pow_sub_one_eq_mod, Nat.shiftRight_eq_div_pow,
    u32_block hmap hin, Int.toNat_natCast, u32_of_lt (show len - s.retlen < 2 ^ 32 by lia),
    chip_place, ← hc, htake]
  rw [if_neg (by lia), if_neg (by decide), if_neg (by lia)]

theorem writeLoop_eq (C : Cells) (threshold : Nat) (ranges : List (Nat × Nat))
    (remap : Nat -> Nat -> Nat -> Phys -> Bool × Phys) (hmap : Mapping shift blocks map)
    {len fuel : Nat} {s : Layer.Writing} {w : Phys} {mem : Nat -> UInt8} (hlen : len < 2 ^ 32)
    (hdata : s.data.length + s.retlen = len)
    (hin : s.pos + s.data.length ≤ blocks * 2 ^ shift) (hfuel : s.data.length < fuel)
    (hagree : Agree shift blocks map mem w.mem) :
    exists w', (overChip C shift threshold ranges map remap).writeLoop len fuel s w =
        some ({ code := 0, got := len }, w') ∧
      Agree shift blocks map (programmed C.program mem s.pos s.data) w'.mem ∧
      Touches shift blocks map w w' := by
  induction fuel generalizing s w mem with
  | zero => exact absurd hfuel (Nat.not_lt_zero _)
  | succ fuel ih =>
      by_cases hmore : s.retlen < len
      · have hrem : 0 < len - s.retlen := by lia
        rcases next_piece hrem (show s.pos + (len - s.retlen) ≤ blocks * 2 ^ shift by lia) with
          ⟨hpos, hpiece⟩
        generalize hc : min (2 ^ shift - s.pos % 2 ^ shift) (len - s.retlen) = c at hpos hpiece
        have hcle : c ≤ s.data.length := by lia
        have htake : (s.data.take c).length = c := by
          rw [List.length_take]
          lia
        rw [writeLoop_turn hmap hlen hmore (by lia) hc.symm (by lia)]
        have hpiece' : Piece shift blocks s.pos (s.data.take c).length := by
          rw [htake]
          exact hpiece
        rcases @ih
          { pos := s.pos + c, retlen := s.retlen + c, data := s.data.drop c, retry := 0 }
          { mem := programmed C.program w.mem (place shift map s.pos) (s.data.take c)
            touched := (place shift map s.pos, c) :: w.touched }
          (programmed C.program mem s.pos (s.data.take c))
          (by simp; lia) (by simp; lia) (by simp; lia)
          (hagree.programmed hmap C.program hpiece') with
          ⟨w', hrun, hagree', htouch⟩
        refine ⟨w', hrun, ?_, Touches.trans (Touches.cons rfl (hpiece.inBlock hpos)) htouch⟩
        have happ := programmed_append C.program mem s.pos (s.data.take c) (s.data.drop c)
        rw [htake, List.take_append_drop] at happ
        rw [← happ]
        exact hagree'
      · have hnil : s.data = [] := List.length_eq_zero_iff.mp (by lia)
        have hall : s.retlen = len := by lia
        unfold Layer.writeLoop
        rw [if_neg hmore, hall]
        refine ⟨w, rfl, ?_, Touches.refl w⟩
        rw [hnil]
        have hsame : programmed C.program mem s.pos [] = mem := by
          unfold programmed
          exact overwrite_nil mem s.pos
        rw [hsame]
        exact hagree

/-!
## Erasing
-/

/-- The contents with the blocks from `b` on blank that start below `stop`. -/
def wiped (blkSize : Nat) (mem : Nat -> UInt8) (b stop a : Nat) : UInt8 :=
  if b ≤ a / blkSize ∧ a / blkSize * blkSize < stop then 0xff else mem a

theorem wiped_stop {blkSize b stop : Nat} {mem : Nat -> UInt8} (h : stop ≤ b * blkSize) :
    wiped blkSize mem b stop = mem := by
  funext a
  unfold wiped
  rw [if_neg]
  rintro ⟨hle, hlt⟩
  have := Nat.mul_le_mul_right blkSize hle
  lia

theorem wiped_step {blkSize b stop : Nat} (mem : Nat -> UInt8) (hpos : 0 < blkSize)
    (h : b * blkSize < stop) :
    wiped blkSize (overwrite mem (b * blkSize) (List.replicate blkSize 0xff)) (b + 1) stop =
      wiped blkSize mem b stop := by
  funext a
  have hdm := Nat.div_add_mod a blkSize
  have hmod := Nat.mod_lt a hpos
  rw [Nat.mul_comm] at hdm
  unfold wiped overwrite
  rw [List.length_replicate]
  rcases Nat.lt_trichotomy (a / blkSize) b with hlt | heq | hgt
  · have := Nat.mul_le_mul_right blkSize (Nat.succ_le_of_lt hlt)
    rw [Nat.succ_mul] at this
    rw [if_neg (by lia), if_neg (by lia), if_neg (by lia)]
  · rw [heq] at hdm ⊢
    rw [if_neg (by lia), if_pos (by lia), if_pos ⟨Nat.le_refl b, h⟩,
      List.getD_eq_getElem _ _ (by rw [List.length_replicate]; lia), List.getElem_replicate]
  · have := Nat.mul_le_mul_right blkSize (Nat.succ_le_of_lt hgt)
    rw [Nat.succ_mul] at this
    have hmiss : ¬ (b * blkSize ≤ a ∧ a < b * blkSize + blkSize) := by lia
    rw [if_neg hmiss]
    by_cases hstop : a / blkSize * blkSize < stop
    · rw [if_pos ⟨hgt, hstop⟩, if_pos ⟨by lia, hstop⟩]
    · rw [if_neg (fun hh => hstop hh.2), if_neg (fun hh => hstop hh.2)]

theorem place_block (b : Nat) : place shift map (b * 2 ^ shift) = map b * 2 ^ shift := by
  unfold place
  rw [Nat.mul_div_cancel b (Nat.two_pow_pos shift), Nat.mul_mod_left, Nat.add_zero]

theorem eraseLoop_turn (hmap : Mapping shift blocks map) {stop fuel b retry : Nat} {ret : Int}
    {w : Phys} (hb : b < blocks) (hmore : b * 2 ^ shift < stop) :
    (overChip C shift threshold ranges map remap).eraseLoop stop (fuel + 1) (b * 2 ^ shift) ret
        retry w =
      (overChip C shift threshold ranges map remap).eraseLoop stop fuel ((b + 1) * 2 ^ shift) 0 0
        { mem := overwrite w.mem (map b * 2 ^ shift) (List.replicate (2 ^ shift) 0xff)
          touched := (map b * 2 ^ shift, 2 ^ shift) :: w.touched } := by
  have hshort := hmap.short
  conv_lhs => unfold Layer.eraseLoop
  rw [if_pos hmore]
  simp only [overChip, Layer.blkSize, Nat.shiftRight_eq_div_pow,
    Nat.mul_div_cancel b (Nat.two_pow_pos shift), Nat.mod_eq_of_lt (show b < 2 ^ 16 by lia),
    Int.toNat_natCast, Nat.shiftLeft_eq]
  rw [if_neg (by lia), if_neg (by decide), Nat.succ_mul]

theorem eraseLoop_eq (C : Cells) (threshold : Nat) (ranges : List (Nat × Nat))
    (remap : Nat -> Nat -> Nat -> Phys -> Bool × Phys) (hmap : Mapping shift blocks map)
    {stop fuel b retry : Nat} {ret : Int} {w : Phys} {mem : Nat -> UInt8}
    (hstop : stop ≤ blocks * 2 ^ shift)
    (hfuel : blocks - b < fuel) (hret : ret = 0 ∨ b * 2 ^ shift < stop)
    (hagree : Agree shift blocks map mem w.mem) :
    exists w', (overChip C shift threshold ranges map remap).eraseLoop stop fuel (b * 2 ^ shift) ret
          retry w = some ({ code := 0, got := () }, w') ∧
      Agree shift blocks map (wiped (2 ^ shift) mem b stop) w'.mem ∧
      Touches shift blocks map w w' := by
  induction fuel generalizing b ret retry w mem with
  | zero => exact absurd hfuel (Nat.not_lt_zero _)
  | succ fuel ih =>
      by_cases hmore : b * 2 ^ shift < stop
      · have hb : b < blocks := Nat.lt_of_mul_lt_mul_right (Nat.lt_of_lt_of_le hmore hstop)
        have hpiece : Piece shift blocks (b * 2 ^ shift) (2 ^ shift) := by
          refine ⟨Nat.le_of_eq (by rw [Nat.mul_mod_left, Nat.zero_add]), ?_⟩
          rw [← Nat.succ_mul]
          exact Nat.mul_le_mul_right _ hb
        have hpiece' : Piece shift blocks (b * 2 ^ shift)
            (List.replicate (2 ^ shift) (0xff : UInt8)).length := by
          rw [List.length_replicate]
          exact hpiece
        have hwrite := hagree.overwrite hmap hpiece'
        rw [place_block] at hwrite
        have htouch : InBlock shift blocks map (place shift map (b * 2 ^ shift), 2 ^ shift) :=
          hpiece.inBlock (Nat.two_pow_pos shift)
        rw [place_block] at htouch
        rw [eraseLoop_turn hmap hb hmore]
        rcases @ih (b + 1) 0 0
          { mem := overwrite w.mem (map b * 2 ^ shift) (List.replicate (2 ^ shift) 0xff)
            touched := (map b * 2 ^ shift, 2 ^ shift) :: w.touched }
          (overwrite mem (b * 2 ^ shift) (List.replicate (2 ^ shift) 0xff))
          (by lia) (Or.inl rfl) hwrite with ⟨w', hrun, hagree', hrest⟩
        rw [wiped_step mem (Nat.two_pow_pos shift) hmore] at hagree'
        exact ⟨w', hrun, hagree', Touches.trans (Touches.cons rfl htouch) hrest⟩
      · have hzero : ret = 0 := by
          rcases hret with hz | hlt
          · exact hz
          · exact absurd hlt hmore
        unfold Layer.eraseLoop
        rw [if_neg hmore, hzero]
        refine ⟨w, rfl, ?_, Touches.refl w⟩
        rw [wiped_stop (Nat.le_of_not_lt hmore)]
        exact hagree

/-!
## Requests
-/

theorem wiped_eq_blanked {blkSize addr len : Nat} (mem : Nat -> UInt8) (hpos : 0 < blkSize)
    (hlen : 0 < len) :
    wiped blkSize mem (addr / blkSize) (addr + len) = blanked blkSize mem addr len := by
  funext a
  have hiff : a / blkSize * blkSize < addr + len <-> a / blkSize ≤ (addr + len - 1) / blkSize := by
    rw [Nat.le_div_iff_mul_le hpos]
    lia
  unfold wiped blanked
  simp only [hiff, hlen, true_and]

theorem serve_eq (hmap : Mapping shift blocks map) (hrel : Reliable C threshold) {fuel : Nat}
    {junk : Int} {q : Request} {w : Phys} {mem : Nat -> UInt8}
    (hin : q.Inside (blocks * 2 ^ shift)) (hord : q.Ordinary) (hfuel : blocks * 2 ^ shift < fuel)
    (hagree : Agree shift blocks map mem w.mem) :
    exists w', (overChip C shift threshold ranges map remap).serve fuel junk q w =
        some ((plain (C.at shift map) (2 ^ shift) q mem).1, w') ∧
      Agree shift blocks map (plain (C.at shift map) (2 ^ shift) q mem).2 w'.mem ∧
      Touches shift blocks map w w' := by
  cases q with
  | read pos len =>
      have hle : pos + len ≤ blocks * 2 ^ shift := hin
      rcases readLoop_eq (s := { pos := pos, data := [], ret := 0, maxBitflips := 0, retry := 0 })
        hmap hrel hord (Nat.zero_le len) hle (show len < fuel by lia) rfl rfl
        hagree with ⟨w', hrun, hmem, htouch⟩
      refine ⟨w', ?_, ?_, htouch⟩
      · unfold Layer.serve Layer.mtkBmtRead plain
        simp only
        rw [hrun]
        simp
      · rw [hmem]
        exact hagree
  | write pos data =>
      have hle : pos + data.length ≤ blocks * 2 ^ shift := hin
      have hlen : data.length < 2 ^ 32 := hord
      have hroom : data.length < fuel := by lia
      rcases writeLoop_eq C threshold ranges remap
        (s := { pos := pos, retlen := 0, data := data, retry := 0 }) hmap hlen rfl hle hroom hagree
        with ⟨w', hrun, hagree', htouch⟩
      refine ⟨w', ?_, hagree', htouch⟩
      unfold Layer.serve Layer.mtkBmtWrite plain
      simp only
      rw [hrun]
      simp
  | erase addr len =>
      have hle : addr + len ≤ blocks * 2 ^ shift := hin
      rcases hord with ⟨hlen, haddr⟩
      have hpow := Nat.two_pow_pos shift
      have hdm := Nat.div_add_mod addr (2 ^ shift)
      rw [Nat.mul_comm] at hdm
      have hstart : u32 addr - u32 addr % 2 ^ shift = addr / 2 ^ shift * 2 ^ shift := by
        rw [u32_of_lt haddr]
        lia
      have hblocks : blocks ≤ blocks * 2 ^ shift := Nat.le_mul_of_pos_right blocks hpow
      have hturns : blocks - addr / 2 ^ shift < fuel := by lia
      have hfirst : junk = 0 ∨ addr / 2 ^ shift * 2 ^ shift < addr + len := Or.inr (by lia)
      rcases eraseLoop_eq C threshold ranges remap hmap hle hturns hfirst hagree with
        ⟨w', hrun, hagree', htouch⟩
      rw [wiped_eq_blanked mem hpow hlen] at hagree'
      refine ⟨w', ?_, hagree', htouch⟩
      unfold Layer.serve Layer.mtkBmtMtdErase plain
      simp only [overChip, Layer.blkSize] at hrun ⊢
      rw [hstart, hrun]
      rfl

end

/-!
## Sequences of requests
-/

def Layer.serveAll {W : Type} (L : Layer W) (fuel : Nat) (junk : Int) :
    List Request -> W -> Option (List Reply × W)
  | [], w => some ([], w)
  | q :: qs, w =>
      match L.serve fuel junk q w with
      | none => none
      | some (reply, w') =>
          match L.serveAll fuel junk qs w' with
          | none => none
          | some (replies, w'') => some (reply :: replies, w'')

def plainAll (C : Cells) (blkSize : Nat) :
    List Request -> (Nat -> UInt8) -> List Reply × (Nat -> UInt8)
  | [], mem => ([], mem)
  | q :: qs, mem =>
      let r := plain C blkSize q mem
      let rest := plainAll C blkSize qs r.2
      (r.1 :: rest.1, rest.2)

/-- Over a chip whose operations succeed, the layer is a plain NAND for ordinary requests inside
the logical size, and touches blocks of the mapping only. -/
theorem serveAll_eq_plainAll {C : Cells} {shift threshold blocks fuel : Nat}
    {ranges : List (Nat × Nat)} {map : Nat -> Nat}
    {remap : Nat -> Nat -> Nat -> Phys -> Bool × Phys} {junk : Int} {qs : List Request}
    {mem phys : Nat -> UInt8} (hmap : Mapping shift blocks map) (hrel : Reliable C threshold)
    (hin : forall q, q ∈ qs -> q.Inside (blocks * 2 ^ shift))
    (hord : forall q, q ∈ qs -> q.Ordinary) (hfuel : blocks * 2 ^ shift < fuel)
    (hagree : Agree shift blocks map mem phys) :
    exists w, (overChip C shift threshold ranges map remap).serveAll fuel junk qs
          { mem := phys, touched := [] } =
        some ((plainAll (C.at shift map) (2 ^ shift) qs mem).1, w) ∧
      Agree shift blocks map (plainAll (C.at shift map) (2 ^ shift) qs mem).2 w.mem ∧
      forall r, r ∈ w.touched -> InBlock shift blocks map r := by
  have hrun : forall (w : Phys) (mem : Nat -> UInt8), Agree shift blocks map mem w.mem ->
      exists w', (overChip C shift threshold ranges map remap).serveAll fuel junk qs w =
          some ((plainAll (C.at shift map) (2 ^ shift) qs mem).1, w') ∧
        Agree shift blocks map (plainAll (C.at shift map) (2 ^ shift) qs mem).2 w'.mem ∧
        Touches shift blocks map w w' := by
    induction qs with
    | nil => exact fun w mem hw => ⟨w, rfl, hw, Touches.refl w⟩
    | cons q qs ih =>
        intro w mem hw
        rcases serve_eq hmap hrel (hin q List.mem_cons_self) (hord q List.mem_cons_self) hfuel hw
          with ⟨w', hserve, hw', htouch⟩
        rcases ih (fun x hx => hin x (List.mem_cons_of_mem _ hx))
          (fun x hx => hord x (List.mem_cons_of_mem _ hx)) w' _ hw' with ⟨w'', hrest, hw'', htouch'⟩
        refine ⟨w'', ?_, hw'', htouch.trans htouch'⟩
        unfold Layer.serveAll
        rw [hserve]
        simp only
        rw [hrest]
        rfl
  rcases hrun { mem := phys, touched := [] } mem hagree with ⟨w, hserve, hw, htouch⟩
  refine ⟨w, hserve, hw, ?_⟩
  intro r hr
  rcases htouch r hr with hnil | hblock
  · exact absurd hnil List.not_mem_nil
  · exact hblock

def quiet : Cells := { flips := fun _ => 0, program := fun old new => old &&& new }

/-- Two blocks of two bytes in reverse order. -/
theorem serveAll_swapped :
    exists w, (overChip quiet 1 1 [] (fun b => 3 - b) fun _ _ _ w => (false, w)).serveAll 10 7
          [.erase 0 4, .write 1 [1, 2], .read 0 4] { mem := fun _ => 0, touched := [] } =
        some ([.erase 0, .write 0 2, .read 0 [0xff, 1, 2, 0xff]], w) ∧
      forall r, r ∈ w.touched -> InBlock 1 2 (fun b => 3 - b) r := by
  have hmap : Mapping 1 2 (fun b => 3 - b) := by
    refine ⟨?_, by decide⟩
    intro b c hb hc heq
    lia
  have hin : forall q, q ∈ [Request.erase 0 4, .write 1 [1, 2], .read 0 4] ->
      q.Inside (2 * 2 ^ 1) := by
    intro q hq
    simp only [List.mem_cons, List.not_mem_nil, or_false] at hq
    rcases hq with rfl | rfl | rfl <;> simp [Request.Inside]
  have hord : forall q, q ∈ [Request.erase 0 4, .write 1 [1, 2], .read 0 4] -> q.Ordinary := by
    intro q hq
    simp only [List.mem_cons, List.not_mem_nil, or_false] at hq
    rcases hq with rfl | rfl | rfl <;> simp [Request.Ordinary]
  rcases @serveAll_eq_plainAll quiet 1 1 2 10 [] (fun b => 3 - b) (fun _ _ _ w => (false, w)) 7 _
    (fun _ => 0) (fun _ => 0) hmap (Or.inr fun _ => Nat.zero_lt_one) hin hord (by decide)
    (fun _ _ => rfl) with ⟨w, hserve, _, htouch⟩
  exact ⟨w, hserve, htouch⟩

/-- Erasing nothing returns what was in the variable, and erasing at 4 GiB starts at the first
block. -/
theorem serveAll_not_plain :
    (exists w, (overChip quiet 1 1 [] (fun b => b) fun _ _ _ w => (false, w)).serveAll 10 1
        [.erase 0 0] { mem := fun _ => 0, touched := [] } = some ([.erase 1], w)) ∧
    (plainAll quiet (2 ^ 1) [.erase 0 0] fun _ => 0).1 = [.erase 0] ∧
    (exists w, (overChip quiet 31 1 [] (fun b => b) fun _ _ _ w => (false, w)).serve
        (3 * 2 ^ 31 + 1) 0 (.erase (2 ^ 32) 1) { mem := fun _ => 0, touched := [] } =
          some (.erase 0, w) ∧ w.mem 0 = 0xff) ∧
    (plain quiet (2 ^ 31) (.erase (2 ^ 32) 1) fun _ => 0).2 0 = 0 := by
  refine ⟨⟨_, rfl⟩, rfl, ?_, by decide⟩
  have hmap : Mapping 31 3 (fun b => b) := ⟨fun _ _ _ _ h => h, by decide⟩
  have hagree : Agree 31 3 (fun b => b) (fun _ => 0) (fun _ => 0) := fun _ _ => rfl
  have hturns : 3 - 0 < 3 * 2 ^ 31 + 1 := by decide
  rcases @eraseLoop_eq 31 3 (fun b => b) quiet 1 [] (fun _ _ _ w => (false, w)) hmap (2 ^ 32 + 1)
    (3 * 2 ^ 31 + 1) 0 0 0 { mem := fun _ => 0, touched := [] } (fun _ => 0) (by decide) hturns
    (Or.inl rfl) hagree with ⟨w, hrun, hw, _⟩
  refine ⟨w, ?_, ?_⟩
  · unfold Layer.serve Layer.mtkBmtMtdErase
    have hstart : u32 (2 ^ 32) - u32 (2 ^ 32) % (overChip quiet 31 1 [] (fun b => b)
        fun _ _ _ w => (false, w)).blkSize = 0 * 2 ^ 31 := by
      unfold u32
      decide
    simp only
    rw [hstart, hrun]
    rfl
  · have hzero := hw 0 (by decide)
    rw [show place 31 (fun b => b) 0 = 0 by decide] at hzero
    rw [← hzero]
    decide

end Bmt
end Hlk7621
