import Hlk7621.UBoot.SpiChip

/-!
# Banks and single transfers

The driver's idea of the bank register is right whenever it issues a command.  With the bank
selected a command with three address bytes acts on the flat memory, and either does so or
fails without effect.
-/

namespace Hlk7621
namespace UBoot
namespace SpiNor

variable {E : Type} {M : SpiMem E} {nor : Nor} {chip : E -> Chip} {faults : E -> Nat}

structure Settled (nor : Nor) (chip : E -> Chip) (s : Driver E) : Prop where
  idle : (chip s.dev).busy = 0
  bank : (chip s.dev).bank = s.bankCurr
  small : nor.size ≤ SZ_16M -> s.bankCurr = 0

structure AtRest (nor : Nor) (chip : E -> Chip) (s : Driver E) : Prop
    extends Settled nor chip s where
  zero : s.bankCurr = 0

structure Became (chip : E -> Chip) (faults : E -> Nat) (s s' : Driver E)
    (mem : Nat -> UInt8) (k : Nat) : Prop where
  mem_eq : (chip s'.dev).mem = mem
  faults_eq : faults s'.dev = faults s.dev + k

theorem Nor.erasesize_pos (nor : Nor) : 0 < nor.erasesize :=
  Nat.pos_of_dvd_of_pos nor.erasesize_dvd SZ_16M_pos

theorem Nor.pageSize_pos (nor : Nor) : 0 < nor.pageSize :=
  Nat.pos_of_dvd_of_pos nor.pageSize_dvd SZ_16M_pos

theorem bankSel_of_lt {offset : Nat} (h : offset < nor.size) :
    bankSel nor offset = offset / SZ_16M := by
  have hsize := nor.size_lt
  unfold bankSel
  rw [u32_of_lt (by omega), Nat.mod_eq_of_lt h]
  apply Nat.mod_eq_of_lt
  unfold SZ_16M
  omega

/-!
## The bank register
-/

section

variable (D : Datasheet M nor chip faults)

include D

theorem cleanBar_atRest {s : Driver E} (hs : Settled nor chip s) :
    (cleanBar M s).1 = 0 ∧ AtRest nor chip (cleanBar M s).2 ∧
      Became chip faults s (cleanBar M s).2 (chip s.dev).mem 0 := by
  unfold cleanBar
  by_cases hz : s.bankCurr = 0
  · rw [if_pos hz]
    exact ⟨rfl, ⟨hs, hz⟩, rfl, rfl⟩
  · rw [if_neg hz]
    dsimp only
    have hw := writeEnable_turned D hs.idle
    have hb := bankWrite_turned D (e := (writeEnable M s.dev).2) (b := 0)
      (by rw [hw.chip_eq]; exact hs.idle) (by rw [hw.chip_eq]) (by decide)
    rw [hw.chip_eq] at hb
    have hd := writeDisable_turned D
      (e := (writeReg M .bankWrite [UInt8.ofNat 0] (writeEnable M s.dev).2).2)
      (by rw [hb.chip_eq]; exact hs.idle)
    rw [hb.chip_eq] at hd
    have hret : ¬ (writeReg M .bankWrite [0] (writeEnable M s.dev).2).1 ≠ 0 :=
      not_not_intro hb.ret
    rw [if_neg hret]
    refine ⟨hd.ret, ⟨⟨?_, ?_, fun _ => rfl⟩, rfl⟩, ?_, ?_⟩
    · exact (congrArg Chip.busy hd.chip_eq).trans hs.idle
    · exact congrArg Chip.bank hd.chip_eq
    · exact (congrArg Chip.mem hd.chip_eq).trans rfl
    · exact (hd.faults_eq.trans hb.faults_eq).trans hw.faults_eq

theorem writeBar_settled {s : Driver E} (offset : Nat) (hs : Settled nor chip s) :
    (writeBar M nor offset s).1 = 0 ∧ Settled nor chip (writeBar M nor offset s).2 ∧
      (offset < nor.size -> (writeBar M nor offset s).2.bankCurr = offset / SZ_16M) ∧
      Became chip faults s (writeBar M nor offset s).2 (chip s.dev).mem 0 := by
  have hr := waitTillReady_turned D s.dev
  have hret : ¬ (waitTillReady M nor s.dev).1 ≠ 0 := not_not_intro hr.ret
  unfold writeBar
  dsimp only
  rw [if_neg hret]
  by_cases hsize : nor.size ≤ SZ_16M
  · rw [if_pos hsize]
    refine ⟨rfl, ⟨?_, ?_, hs.small⟩, fun hoff => ?_, ?_, hr.faults_eq⟩
    · exact congrArg Chip.busy hr.chip_eq
    · exact (congrArg Chip.bank hr.chip_eq).trans hs.bank
    · rw [Nat.div_eq_of_lt (Nat.lt_of_lt_of_le hoff hsize)]
      exact hs.small hsize
    · exact (congrArg Chip.mem hr.chip_eq).trans rfl
  · rw [if_neg hsize]
    by_cases hsel : bankSel nor offset = s.bankCurr
    · rw [if_pos hsel]
      refine ⟨rfl, ⟨?_, ?_, hs.small⟩, ?_, ?_, hr.faults_eq⟩
      · exact congrArg Chip.busy hr.chip_eq
      · exact (congrArg Chip.bank hr.chip_eq).trans hs.bank
      · exact fun hoff => hsel.symm.trans (bankSel_of_lt hoff)
      · exact (congrArg Chip.mem hr.chip_eq).trans rfl
    · rw [if_neg hsel]
      have hlt : bankSel nor offset < 256 := Nat.mod_lt _ (by decide)
      have hw := writeEnable_turned D (e := (waitTillReady M nor s.dev).2)
        (by rw [hr.chip_eq])
      rw [hr.chip_eq] at hw
      have hb := bankWrite_turned D (e := (writeEnable M (waitTillReady M nor s.dev).2).2)
        (by rw [hw.chip_eq]) (by rw [hw.chip_eq]) hlt
      rw [hw.chip_eq] at hb
      have hd := writeDisable_turned D
        (e := (writeReg M .bankWrite [UInt8.ofNat (bankSel nor offset)]
          (writeEnable M (waitTillReady M nor s.dev).2).2).2)
        (by rw [hb.chip_eq])
      rw [hb.chip_eq] at hd
      rw [if_neg (by rw [hb.ret]; decide)]
      refine ⟨hd.ret, ⟨?_, ?_, fun h => absurd h hsize⟩, bankSel_of_lt, ?_, ?_⟩
      · exact congrArg Chip.busy hd.chip_eq
      · exact congrArg Chip.bank hd.chip_eq
      · exact (congrArg Chip.mem hd.chip_eq).trans rfl
      · exact ((hd.faults_eq.trans hb.faults_eq).trans hw.faults_eq).trans hr.faults_eq

end

/-!
## Addresses
-/

theorem wire_size : 2 ^ (8 * ADDR_WIDTH) = SZ_16M := SZ_16M_eq.symm

theorem place_of_bank {c : Chip} {a : Nat} (h : a / SZ_16M = c.bank) :
    c.place (a % 2 ^ (8 * ADDR_WIDTH)) = a := by
  unfold Chip.place
  rw [wire_size, <- h, Nat.mul_comm]
  exact Nat.div_add_mod a SZ_16M

theorem place_add_of_bank {c : Chip} {a i : Nat} (h : c.bank * SZ_16M ≤ a)
    (hlt : a + i < c.bank * SZ_16M + SZ_16M) :
    c.place ((a % 2 ^ (8 * ADDR_WIDTH) + i) % SZ_16M) = a + i := by
  have hbank : (a + i) / SZ_16M = c.bank := by
    apply Nat.div_eq_of_lt_le (Nat.le_add_right_of_le h)
    rw [Nat.succ_mul]
    exact hlt
  rw [wire_size, Nat.mod_add_mod, <- wire_size]
  exact place_of_bank hbank

/-!
## Sizes
-/

section

variable (D : Datasheet M nor chip faults)

include D

theorem adjustOpSize_readOp (addr : Nat) {len : Nat} (hlen : 0 < len) :
    exists n, adjustOpSize M (readOp nor addr len) = .ok n ∧ 0 < n ∧ n ≤ len := by
  have hroom : ¬ (M.maxWriteSize ≠ 0 ∧
      M.maxWriteSize < 1 + ADDR_WIDTH + nor.readDummy * nor.readAddrNbits / 8) := by
    have := D.room
    omega
  unfold adjustOpSize readOp
  dsimp only
  rw [if_neg hroom, if_pos (Nat.ne_of_gt hlen)]
  by_cases hm : M.maxReadSize ≠ 0
  · have hpos : 0 < min len M.maxReadSize := by omega
    rw [if_pos hm, if_neg (Nat.ne_of_gt hpos)]
    exact ⟨_, rfl, hpos, Nat.min_le_left _ _⟩
  · rw [if_neg hm, if_neg (Nat.ne_of_gt hlen)]
    exact ⟨_, rfl, hlen, Nat.le_refl _⟩

theorem adjustOpSize_programOp (addr : Nat) {data : Bytes} (hdata : 0 < data.length) :
    exists n, adjustOpSize M (programOp addr data) = .ok n ∧ 0 < n ∧ n ≤ data.length := by
  have hroom : ¬ (M.maxWriteSize ≠ 0 ∧ M.maxWriteSize < 1 + ADDR_WIDTH + 0) := by
    have := D.room
    omega
  unfold adjustOpSize programOp
  dsimp only
  rw [if_neg hroom, if_neg (not_not_intro rfl)]
  by_cases hm : M.maxWriteSize ≠ 0
  · have hpos : 0 < min data.length (M.maxWriteSize - (1 + ADDR_WIDTH + 0)) := by
      have := D.room
      omega
    rw [if_pos hm, if_neg (Nat.ne_of_gt hpos)]
    exact ⟨_, rfl, hpos, Nat.min_le_left _ _⟩
  · rw [if_neg hm, if_neg (Nat.ne_of_gt hdata)]
    exact ⟨_, rfl, hdata, Nat.le_refl _⟩

/-!
## Reading within a bank
-/

omit D in
theorem step_readOp {n addr len : Nat} {c : Chip} (hidle : c.busy = 0)
    (hlow : c.bank * SZ_16M ≤ addr) (hhigh : addr + len ≤ c.bank * SZ_16M + SZ_16M) :
    Chip.step nor n (readOp nor addr len) c = (window c.mem addr len, c) := by
  have hbytes : forall i, i ∈ List.range len ->
      c.mem (c.place ((addr % 2 ^ (8 * ADDR_WIDTH) + i) % SZ_16M)) = c.mem (addr + i) := by
    intro i hi
    have hlt := Nat.add_lt_add_left (List.mem_range.mp hi) addr
    exact congrArg c.mem (place_add_of_bank hlow (Nat.lt_of_lt_of_le hlt hhigh))
  unfold Chip.step
  simp only [readOp, hidle, SpiMemOp.wire]
  rw [if_neg (not_not_intro rfl), List.map_congr_left hbytes, window]

theorem readOp_moved {addr len : Nat} {e : E} (hidle : (chip e).busy = 0)
    (hlow : (chip e).bank * SZ_16M ≤ addr)
    (hhigh : addr + len ≤ (chip e).bank * SZ_16M + SZ_16M) :
    let r := M.execOp (readOp nor addr len) e
    chip r.2.2 = chip e ∧
      (r.1 = 0 ∧ r.2.1 = window (chip e).mem addr len ∧ faults r.2.2 = faults e ∨
        r.1 < 0 ∧ faults r.2.2 = faults e + 1) := by
  dsimp only
  rcases (D.exec (readOp nor addr len) e).outcome with
    ⟨n, hret, hdata, hchip, hk⟩ | ⟨hret, hchip, hk⟩
  · rw [step_readOp hidle hlow hhigh] at hdata hchip
    exact ⟨hchip, Or.inl ⟨hret, hdata, hk⟩⟩
  · exact ⟨hchip, Or.inr ⟨hret, hk⟩⟩

theorem readDataLoop_moved {fuel addr remaining : Nat} {e : E} (hidle : (chip e).busy = 0)
    (hfuel : remaining ≤ fuel) (hlow : (chip e).bank * SZ_16M ≤ addr)
    (hhigh : addr + remaining ≤ (chip e).bank * SZ_16M + SZ_16M) :
    let r := readDataLoop M nor fuel addr remaining e
    chip r.2.2 = chip e ∧
      (r.1 = 0 ∧ r.2.1 = window (chip e).mem addr remaining ∧ faults r.2.2 = faults e ∨
        r.1 < 0 ∧ faults r.2.2 = faults e + 1) := by
  dsimp only
  induction fuel generalizing addr remaining e with
  | zero =>
      cases Nat.le_zero.mp hfuel
      exact ⟨rfl, Or.inl ⟨rfl, rfl, rfl⟩⟩
  | succ fuel ih =>
      unfold readDataLoop
      by_cases hz : remaining = 0
      · rw [if_pos hz, hz]
        exact ⟨rfl, Or.inl ⟨rfl, rfl, rfl⟩⟩
      · have hmin : 0 < min remaining UINT_MAX :=
          Nat.lt_min.mpr ⟨by omega, by unfold UINT_MAX; decide⟩
        obtain ⟨n, hn, hpos, hle⟩ := adjustOpSize_readOp D addr hmin
        have hn' : n ≤ remaining := Nat.le_trans hle (Nat.min_le_left _ _)
        rw [if_neg hz, hn]
        dsimp only
        have hfit : addr + n ≤ (chip e).bank * SZ_16M + SZ_16M := by omega
        obtain ⟨hchip, h⟩ := readOp_moved D hidle hlow hfit
        rcases h with ⟨hret, hdata, hk⟩ | ⟨hret, hk⟩
        · rw [if_neg (not_not_intro hret)]
          dsimp only
          have hrest := @ih (addr + n) (remaining - n) (M.execOp (readOp nor addr n) e).2.2
          rw [hchip, hk] at hrest
          replace hrest := hrest hidle (by omega) (by omega) (by omega)
          refine ⟨hrest.1, ?_⟩
          rcases hrest.2 with ⟨hret', hdata', hk'⟩ | hbad
          · refine Or.inl ⟨hret', ?_, hk'⟩
            rw [hdata, hdata', <- window_append]
            congr 1
            omega
          · exact Or.inr hbad
        · rw [if_pos (by omega)]
          exact ⟨hchip, Or.inr ⟨hret, hk⟩⟩

theorem readData_moved {addr len : Nat} {e : E} (hidle : (chip e).busy = 0)
    (hlow : (chip e).bank * SZ_16M ≤ addr)
    (hhigh : addr + len ≤ (chip e).bank * SZ_16M + SZ_16M) :
    let r := readData M nor addr len e
    chip r.2.2 = chip e ∧
      (r.1 = len ∧ r.2.1 = window (chip e).mem addr len ∧ faults r.2.2 = faults e ∨
        r.1 < 0 ∧ faults r.2.2 = faults e + 1) := by
  obtain ⟨hchip, h⟩ := readDataLoop_moved D hidle (Nat.le_refl len) hlow hhigh
  unfold readData
  dsimp only
  rcases h with ⟨hret, hdata, hk⟩ | ⟨hret, hk⟩
  · rw [if_neg (not_not_intro hret)]
    exact ⟨hchip, Or.inl ⟨rfl, hdata, hk⟩⟩
  · rw [if_pos (by omega)]
    exact ⟨hchip, Or.inr ⟨hret, hk⟩⟩

/-!
## Programming within a page and erasing a sector
-/

structure Worked (c c' : Chip) (mem : Nat -> UInt8) : Prop where
  mem_eq : c'.mem = mem
  bank_eq : c'.bank = c.bank

theorem writeData_moved {addr : Nat} {data : Bytes} {e : E} (hidle : (chip e).busy = 0)
    (hwel : (chip e).wel = true) (hdata : 0 < data.length)
    (hbank : addr / SZ_16M = (chip e).bank)
    (hpage : addr % nor.pageSize + data.length ≤ nor.pageSize) :
    let r := writeData M addr data e
    (exists n, 0 < n ∧ n ≤ data.length ∧ r.1 = (n : Int) ∧
        Worked (chip e) (chip r.2) (Flash.program (chip e).mem addr (data.take n)) ∧
        faults r.2 = faults e) ∨
      r.1 < 0 ∧ chip r.2 = chip e ∧ faults r.2 = faults e + 1 := by
  obtain ⟨n, hn, hpos, hle⟩ := adjustOpSize_programOp D addr hdata
  have hnbytes : (if data.length < n then data.length else n) = n := if_neg (by omega)
  unfold writeData
  rw [hn]
  dsimp only
  rw [hnbytes]
  rcases (D.exec (programOp addr (data.take n)) e).outcome with
    ⟨m, hret, -, hchip, hk⟩ | ⟨hret, hchip, hk⟩
  · rw [if_neg (not_not_intro hret)]
    refine Or.inl ⟨n, hpos, hle, rfl, ?_, hk⟩
    have hfit : addr % nor.pageSize + (data.take n).length ≤ nor.pageSize := by
      rw [List.length_take]
      omega
    have hstep : (Chip.step nor m (programOp addr (data.take n)) (chip e)).2 =
        { chip e with
          mem := Flash.program (chip e).mem addr (data.take n), wel := false, busy := m } := by
      simp only [Chip.step, programOp, hidle, hwel, ne_eq, not_true_eq_false, if_false, if_true,
        SpiMemOp.wire, place_of_bank hbank, Flash.programPage_fit hfit]
    rw [hstep] at hchip
    dsimp only
    rw [hchip]
    exact ⟨rfl, rfl⟩
  · rw [if_pos (by omega)]
    exact Or.inr ⟨hret, hchip, hk⟩

theorem eraseSector_moved {addr : Nat} {e : E} (hidle : (chip e).busy = 0)
    (hwel : (chip e).wel = true) (hbank : addr / SZ_16M = (chip e).bank)
    (halign : nor.erasesize ∣ addr) :
    let r := eraseSector M nor addr e
    (r.1 = nor.erasesize ∧
        Worked (chip e) (chip r.2) (Flash.erase (chip e).mem addr nor.erasesize) ∧
        faults r.2 = faults e) ∨
      r.1 < 0 ∧ chip r.2 = chip e ∧ faults r.2 = faults e + 1 := by
  unfold eraseSector
  dsimp only
  rcases (D.exec ⟨.erase, ADDR_WIDTH, addr, 0, 0, []⟩ e).outcome with
    ⟨m, hret, -, hchip, hk⟩ | ⟨hret, hchip, hk⟩
  · rw [if_neg (not_not_intro hret)]
    refine Or.inl ⟨rfl, ?_, hk⟩
    have hzero : addr % 2 ^ (8 * ADDR_WIDTH) % nor.erasesize = 0 := by
      rw [wire_size, Nat.mod_mod_of_dvd _ nor.erasesize_dvd]
      exact Nat.mod_eq_zero_of_dvd halign
    have hstep : (Chip.step nor m ⟨.erase, ADDR_WIDTH, addr, 0, 0, []⟩ (chip e)).2 =
        { chip e with
          mem := Flash.erase (chip e).mem addr nor.erasesize, wel := false, busy := m } := by
      simp only [Chip.step, hidle, hwel, ne_eq, not_true_eq_false, if_false, if_true,
        SpiMemOp.wire, hzero, Nat.sub_zero, place_of_bank hbank]
    rw [hstep] at hchip
    dsimp only
    rw [hchip]
    exact ⟨rfl, rfl⟩
  · rw [if_pos (by omega)]
    exact Or.inr ⟨hret, hchip, hk⟩

theorem eraseChip_moved {e : E} (hidle : (chip e).busy = 0) (hwel : (chip e).wel = true) :
    let r := eraseChip M nor e
    (r.1 = nor.size ∧
        Worked (chip e) (chip r.2) (Flash.erase (chip e).mem 0 nor.size) ∧
        faults r.2 = faults e) ∨
      r.1 < 0 ∧ chip r.2 = chip e ∧ faults r.2 = faults e + 1 := by
  unfold eraseChip
  dsimp only
  rcases (D.exec (regOp .chipErase 0 []) e).outcome with
    ⟨m, hret, -, hchip, hk⟩ | ⟨hret, hchip, hk⟩
  · rw [if_neg (not_not_intro hret)]
    refine Or.inl ⟨rfl, ?_, hk⟩
    have hstep : (Chip.step nor m (regOp .chipErase 0 []) (chip e)).2 =
        { chip e with
          mem := Flash.erase (chip e).mem 0 nor.size, wel := false, busy := m } := by
      simp only [Chip.step, regOp, hidle, hwel, ne_eq, not_true_eq_false, if_false, if_true]
    rw [hstep] at hchip
    dsimp only
    rw [hchip]
    exact ⟨rfl, rfl⟩
  · rw [if_pos (by omega)]
    exact Or.inr ⟨hret, hchip, hk⟩

end

end SpiNor
end UBoot
end Hlk7621
