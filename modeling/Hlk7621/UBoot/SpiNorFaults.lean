import Hlk7621.UBoot.SpiTransfer
import Mathlib.Data.Nat.Prime.Basic
import Mathlib.Algebra.Order.Group.Nat

/-!
# Reading, writing and erasing on a chip with faults

Each loop crosses pages, sectors and banks.  Up to the first command that fails it has the
effect of the whole request on the flat memory, and the chip is at rest after it.  Only the
code of an erase tells whether something has failed.
-/

namespace Hlk7621
namespace UBoot
namespace SpiNor

variable {E : Type} {M : SpiMem E} {nor : Nor} {chip : E -> Chip} {faults : E -> Nat}

theorem Became.trans {s t u : Driver E} {mem mem' : Nat -> UInt8} {j k : Nat}
    (h : Became chip faults s t mem j) (h' : Became chip faults t u mem' k) :
    Became chip faults s u mem' (j + k) where
  mem_eq := h'.mem_eq
  faults_eq := by rw [h'.faults_eq, h.faults_eq, Nat.add_assoc]

theorem Settled.follow {s : Driver E} {e : E} (hs : Settled nor chip s)
    (hidle : (chip e).busy = 0) (hbank : (chip e).bank = (chip s.dev).bank) :
    Settled nor chip { s with dev := e } where
  idle := hidle
  bank := hbank.trans hs.bank
  small := hs.small

theorem Became.follow {s t : Driver E} {e : E} {mem : Nat -> UInt8} {j k : Nat}
    (h : Became chip faults s t mem j) (hmem : (chip e).mem = (chip t.dev).mem)
    (hk : faults e = faults t.dev + k) :
    Became chip faults s { t with dev := e } mem (j + k) where
  mem_eq := hmem.trans h.mem_eq
  faults_eq := by rw [hk, h.faults_eq, Nat.add_assoc]

theorem Became.of {s t : Driver E} {e : E} {mem : Nat -> UInt8} {k : Nat}
    (hmem : (chip e).mem = mem) (hk : faults e = faults s.dev + k) :
    Became chip faults s { t with dev := e } mem k :=
  ⟨hmem, hk⟩

theorem program_take_add (mem : Nat -> UInt8) (addr m : Nat) {data : Bytes} {n : Nat}
    (h : n ≤ data.length) :
    Flash.program (Flash.program mem addr (data.take n)) (addr + n) ((data.drop n).take m) =
      Flash.program mem addr (data.take (n + m)) := by
  have happ := Flash.program_append mem addr (data.take n) ((data.drop n).take m)
  rw [List.length_take_of_le h, <- List.take_add] at happ
  exact happ

theorem Settled.low {s : Driver E} {a : Nat} (hs : Settled nor chip s)
    (h : s.bankCurr = a / SZ_16M) : (chip s.dev).bank * SZ_16M ≤ a := by
  rw [hs.bank, h]
  exact Nat.div_mul_le_self a SZ_16M

theorem Settled.high {s : Driver E} {a : Nat} (hs : Settled nor chip s)
    (h : s.bankCurr = a / SZ_16M) : a < (chip s.dev).bank * SZ_16M + SZ_16M := by
  rw [hs.bank, h]
  exact Nat.lt_div_mul_add SZ_16M_pos

theorem remBankLen_eq {src : Nat} (h : src < 2 ^ 31) :
    remBankLen src = src / SZ_16M * SZ_16M + SZ_16M - src := by
  unfold remBankLen
  dsimp only
  rw [u32_of_lt (by omega : src < 2 ^ 32), SZ_16M_eq, u32_of_lt (by omega)]
  unfold sub32
  omega

theorem pageOffset_eq (addr : Nat) : pageOffset nor addr = addr % nor.pageSize := by
  obtain ⟨k, -, hk⟩ := (Nat.dvd_prime_pow Nat.prime_two).mp
    (SZ_16M_eq ▸ nor.pageSize_dvd)
  unfold pageOffset
  split
  · rw [hk]
    exact Nat.and_two_pow_sub_one_eq_mod addr k
  · rfl

variable (D : Datasheet M nor chip faults)

include D

/-!
## Read
-/

omit D in
theorem readLoop_succ {fuel src len n : Nat} {s : Driver E} (hn : n ≠ 0) (hlen : len ≠ 0)
    (hn_eq : n = if len < remBankLen src then len else remBankLen src)
    (hbar : (writeBar M nor src s).1 = 0) :
    readLoop M nor (fuel + 1) src len s =
      let bar := (writeBar M nor src s).2
      let r := readData M nor src n bar.dev
      if r.1 = 0 then (.ok (- EIO), r.2.1, { bar with dev := r.2.2 })
      else if r.1 < 0 then (.ok r.1, r.2.1, { bar with dev := r.2.2 })
      else
        let t := readLoop M nor fuel (src + r.1.toNat) (len - r.1.toNat)
          { bar with dev := r.2.2 }
        (t.1, r.2.1 ++ t.2.1, t.2.2) := by
  have hnot : ¬ (writeBar M nor src s).1 < 0 := by
    rw [hbar]
    decide
  rw [readLoop, if_neg hlen]
  dsimp only
  rw [if_neg hnot, <- hn_eq, if_neg hn]

theorem readLoop_moved {fuel src len : Nat} {s : Driver E} (hs : Settled nor chip s)
    (hfuel : len ≤ fuel) (hfit : src + len ≤ nor.size) :
    let r := readLoop M nor fuel src len s
    (exists ret, r.1 = .ok ret) ∧ Settled nor chip r.2.2 ∧
      exists k, Became chip faults s r.2.2 (chip s.dev).mem k ∧
        (k = 0 -> r.2.1 = window (chip s.dev).mem src len) := by
  dsimp only
  induction fuel generalizing src len s with
  | zero =>
      cases Nat.le_zero.mp hfuel
      exact ⟨⟨0, rfl⟩, hs, 0, ⟨rfl, rfl⟩, fun _ => rfl⟩
  | succ fuel ih =>
      by_cases hz : len = 0
      · rw [readLoop, if_pos hz, hz]
        exact ⟨⟨0, rfl⟩, hs, 0, ⟨rfl, rfl⟩, fun _ => rfl⟩
      · have hsrc : src < nor.size := by omega
        obtain ⟨hret, hbar, hsel, hbecame⟩ := writeBar_settled D src hs
        have hcurr := hsel hsrc
        have hrem := remBankLen_eq (Nat.lt_trans hsrc nor.size_lt)
        have hlow := hbar.low hcurr
        have hhigh := hbar.high hcurr
        rw [hbar.bank, hcurr] at hlow hhigh
        obtain ⟨n, hn⟩ : exists n, n = if len < remBankLen src then len else remBankLen src :=
          ⟨_, rfl⟩
        have hpos : 0 < n := by rw [hn, hrem]; split <;> omega
        have hle : n ≤ len := by rw [hn]; split <;> omega
        have hend : src + n ≤ src / SZ_16M * SZ_16M + SZ_16M := by
          rw [hn, hrem]
          split <;> omega
        have hfuel' : len - n ≤ fuel := by omega
        have hfit' : src + n + (len - n) ≤ nor.size := by omega
        rw [readLoop_succ (Nat.ne_of_gt hpos) hz hn hret]
        dsimp only
        obtain ⟨hchip, h⟩ := readData_moved D hbar.idle (hbar.low hcurr)
          (by rw [hbar.bank, hcurr]; exact hend)
        have hsettled := hbar.follow (by rw [hchip]; exact hbar.idle) (congrArg Chip.bank hchip)
        have hmem := congrArg Chip.mem hchip
        rcases h with ⟨hread, hdata, hk⟩ | ⟨hread, hk⟩
        · rw [hread, if_neg (Int.ofNat_ne_zero.mpr (Nat.ne_of_gt hpos)),
            if_neg (Int.not_lt.mpr (Int.natCast_nonneg n)), Int.toNat_natCast]
          obtain ⟨hok, hset, k, hbec, hwin⟩ := @ih (src + n) (len - n) _ hsettled hfuel' hfit'
          dsimp only at hbec hwin
          rw [hmem, hbecame.mem_eq] at hbec hwin
          refine ⟨hok, hset, _, (hbecame.follow (k := 0) hmem hk).trans hbec, fun hzero => ?_⟩
          have hwindow := hwin (by omega)
          dsimp only
          rw [hdata, hwindow, hbecame.mem_eq, <- window_append, Nat.add_sub_of_le hle]
        · rw [if_neg (Int.ne_of_lt hread), if_pos hread]
          exact ⟨⟨_, rfl⟩, hsettled, 1, hbecame.follow hmem hk, fun h => by cases h⟩

/-- A read leaves the memory alone and returns 0 in any case; without a fault it delivers the
memory. -/
theorem spiNorRead_moved {src len : Nat} {s : Driver E} (hs : AtRest nor chip s)
    (hfit : src + len ≤ nor.size) :
    let r := spiNorRead M nor src len s
    r.1 = 0 ∧ AtRest nor chip r.2.2 ∧
      exists k, Became chip faults s r.2.2 (chip s.dev).mem k ∧
        (k = 0 -> r.2.1 = window (chip s.dev).mem src len) := by
  obtain ⟨⟨ret, hok⟩, hset, k, hbec, hwin⟩ :=
    readLoop_moved D hs.toSettled (Nat.le_refl len) hfit
  obtain ⟨hret, hrest, hclean⟩ := cleanBar_atRest D hset
  unfold spiNorRead
  dsimp only
  rw [hok]
  refine ⟨hret, hrest, k, ?_, hwin⟩
  have h := hbec.trans hclean
  rw [hbec.mem_eq] at h
  exact h

/-!
## Write
-/

omit D in
theorem writeLoop_succ {fuel addr : Nat} {data : Bytes} {s : Driver E} (hdata : data ≠ [])
    (hbar : (writeBar M nor addr s).1 = 0) :
    writeLoop M nor (fuel + 1) addr data s =
      let bar := (writeBar M nor addr s).2
      let page := min (nor.pageSize - addr % nor.pageSize) data.length
      let r := writeData M (u32 addr) (data.take page) (writeEnable M bar.dev).2
      if r.1 < 0 then (.ok r.1, 0, { bar with dev := r.2 })
      else
        let ready := waitTillReady M nor r.2
        if ready.1 ≠ 0 then (.ok ready.1, 0, { bar with dev := ready.2 })
        else
          let t := writeLoop M nor fuel (addr + r.1.toNat) (data.drop r.1.toNat)
            { bar with dev := ready.2 }
          (t.1, r.1.toNat + t.2.1, t.2.2) := by
  have hnot : ¬ (writeBar M nor addr s).1 < 0 := by
    rw [hbar]
    decide
  rw [writeLoop, if_neg hdata]
  dsimp only
  rw [if_neg hnot, pageOffset_eq]

theorem writeLoop_moved {fuel addr : Nat} {data : Bytes} {s : Driver E}
    (hs : Settled nor chip s) (hfuel : data.length ≤ fuel)
    (hfit : addr + data.length ≤ nor.size) :
    let r := writeLoop M nor fuel addr data s
    (exists ret, r.1 = .ok ret) ∧ Settled nor chip r.2.2 ∧ r.2.1 ≤ data.length ∧
      exists k, Became chip faults s r.2.2
          (Flash.program (chip s.dev).mem addr (data.take r.2.1)) k ∧
        (k = 0 <-> r.2.1 = data.length) := by
  dsimp only
  induction fuel generalizing addr data s with
  | zero =>
      cases List.length_eq_zero_iff.mp (Nat.le_zero.mp hfuel)
      exact ⟨⟨0, rfl⟩, hs, Nat.le_refl _, 0, ⟨(Flash.program_nil _ _).symm, rfl⟩,
        fun _ => rfl, fun _ => rfl⟩
  | succ fuel ih =>
      by_cases hz : data = []
      · rw [writeLoop, if_pos hz, hz]
        exact ⟨⟨0, rfl⟩, hs, Nat.le_refl _, 0, ⟨(Flash.program_nil _ _).symm, rfl⟩,
          fun _ => rfl, fun _ => rfl⟩
      · have hlen : 0 < data.length := List.length_pos_iff.mpr hz
        have haddr : addr < nor.size := by omega
        have haddr' : addr < 2 ^ 32 := by
          have := nor.size_lt
          omega
        obtain ⟨hret, hbar, hsel, hbecame⟩ := writeBar_settled D addr hs
        have hcurr := hsel haddr
        have hw := writeEnable_turned D hbar.idle
        have hmod := Nat.mod_lt addr nor.pageSize_pos
        rw [writeLoop_succ hz hret, u32_of_lt haddr']
        dsimp only
        generalize hpage : min (nor.pageSize - addr % nor.pageSize) data.length = page
        have hpage_le : page ≤ data.length := by omega
        have htake : (data.take page).length = page := List.length_take_of_le hpage_le
        have hpos : 0 < page := by omega
        have hfitPage : addr % nor.pageSize + page ≤ nor.pageSize := by omega
        have hidle' : (chip (writeEnable M (writeBar M nor addr s).2.dev).2).busy = 0 := by
          rw [hw.chip_eq]
          exact hbar.idle
        have hwel : (chip (writeEnable M (writeBar M nor addr s).2.dev).2).wel = true := by
          rw [hw.chip_eq]
        have hbank : addr / SZ_16M =
            (chip (writeEnable M (writeBar M nor addr s).2.dev).2).bank := by
          rw [hw.chip_eq]
          exact (hbar.bank.trans hcurr).symm
        have h := writeData_moved D hidle' hwel (htake.symm ▸ hpos) hbank
          (htake.symm ▸ hfitPage)
        have hmemw : (chip (writeEnable M (writeBar M nor addr s).2.dev).2).mem =
            (chip (writeBar M nor addr s).2.dev).mem := by
          rw [hw.chip_eq]
        have hbankw : (chip (writeEnable M (writeBar M nor addr s).2.dev).2).bank =
            (chip (writeBar M nor addr s).2.dev).bank := by
          rw [hw.chip_eq]
        rw [htake, hw.faults_eq] at h
        rcases h with ⟨n, hnpos, hle, hn, hworked, hk⟩ | ⟨hbad, hchip, hk⟩
        · have hr := waitTillReady_turned D (writeData M addr (data.take page)
            (writeEnable M (writeBar M nor addr s).2.dev).2).2
          have hset := hbar.follow (by rw [hr.chip_eq])
            ((congrArg Chip.bank hr.chip_eq).trans (hworked.bank_eq.trans hbankw))
          have hmem := (congrArg Chip.mem hr.chip_eq).trans hworked.mem_eq
          rw [List.take_take, Nat.min_eq_left hle, hmemw, hbecame.mem_eq] at hmem
          have hfaults := (hr.faults_eq.trans hk).trans hbecame.faults_eq
          have hdrop : (data.drop n).length = data.length - n := List.length_drop
          have hfuel' : (data.drop n).length ≤ fuel := by omega
          have hfit' : addr + n + (data.drop n).length ≤ nor.size := by omega
          have hnle : n ≤ data.length := by omega
          rw [hn, if_neg (Int.not_lt.mpr (Int.natCast_nonneg n)), if_neg (not_not_intro hr.ret),
            Int.toNat_natCast]
          obtain ⟨hok, hset', hle', k, hbec, hiff⟩ :=
            @ih (addr + n) (data.drop n) _ hset hfuel' hfit'
          rw [hmem, program_take_add _ _ _ hnle] at hbec
          generalize writeLoop M nor fuel (addr + n) (data.drop n) _ = t
            at hok hset' hle' hbec hiff ⊢
          have htotal : n + t.2.1 ≤ data.length := by omega
          have hiff' : 0 + k = 0 <-> n + t.2.1 = data.length := by omega
          exact ⟨hok, hset', htotal, _, (Became.of hmem hfaults).trans hbec, hiff'⟩
        · have hset := hbar.follow (by rw [hchip]; exact hidle')
            ((congrArg Chip.bank hchip).trans hbankw)
          have hmem := (congrArg Chip.mem hchip).trans (hmemw.trans hbecame.mem_eq)
          have hfaults : faults (writeData M addr (data.take page)
              (writeEnable M (writeBar M nor addr s).2.dev).2).2 = faults s.dev + 1 := by
            rw [hk, hbecame.faults_eq, Nat.add_zero]
          have hnone : 1 = 0 <-> 0 = data.length := by omega
          rw [if_pos hbad]
          refine ⟨⟨_, rfl⟩, hset, Nat.zero_le _, 1, ?_, hnone⟩
          rw [List.take_zero, Flash.program_nil]
          exact Became.of hmem hfaults

/-- A write returns 0 in any case.  What it has stored is the front of the data up to the
first fault. -/
theorem spiNorWrite_moved {dst : Nat} {data : Bytes} {s : Driver E} (hs : AtRest nor chip s)
    (hfit : dst + data.length ≤ nor.size) :
    let r := spiNorWrite M nor dst data s
    r.1 = 0 ∧ AtRest nor chip r.2.2 ∧ r.2.1 ≤ data.length ∧
      exists k, Became chip faults s r.2.2
          (Flash.program (chip s.dev).mem dst (data.take r.2.1)) k ∧
        (k = 0 <-> r.2.1 = data.length) := by
  by_cases hz : data = []
  · unfold spiNorWrite
    rw [if_pos hz, hz]
    exact ⟨rfl, hs, Nat.le_refl _, 0, ⟨(Flash.program_nil _ _).symm, rfl⟩, fun _ => rfl,
      fun _ => rfl⟩
  · obtain ⟨⟨ret, hok⟩, hset, hle, k, hbec, hiff⟩ :=
      writeLoop_moved D hs.toSettled (Nat.le_refl data.length) hfit
    obtain ⟨hret, hrest, hclean⟩ := cleanBar_atRest D hset
    unfold spiNorWrite
    rw [if_neg hz]
    dsimp only
    rw [hok]
    have h := hbec.trans hclean
    rw [hbec.mem_eq] at h
    exact ⟨hret, hrest, hle, k, h, hiff⟩

/-!
## Erase
-/

theorem eraseCommand_moved {addr len : Nat} {e : E} (hidle : (chip e).busy = 0)
    (hwel : (chip e).wel = true) (hbank : addr / SZ_16M = (chip e).bank)
    (halign : nor.erasesize ∣ addr) (hlen : nor.erasesize ∣ len) (hpos : 0 < len)
    (hfit : addr + len ≤ nor.size) :
    let r :=
      if len = nor.size ∧ nor.noOpChipErase = false then eraseChip M nor e
      else eraseSector M nor addr e
    (exists n : Nat, 0 < n ∧ n ≤ len ∧ nor.erasesize ∣ n ∧ r.1 = n ∧
        Worked (chip e) (chip r.2) (Flash.erase (chip e).mem addr n) ∧ faults r.2 = faults e) ∨
      r.1 < 0 ∧ chip r.2 = chip e ∧ faults r.2 = faults e + 1 := by
  dsimp only
  by_cases hmode : len = nor.size ∧ nor.noOpChipErase = false
  · rw [if_pos hmode]
    have hzero : addr = 0 := by omega
    rcases eraseChip_moved D hidle hwel with ⟨hret, hworked, hk⟩ | h
    · rw [<- hzero] at hworked
      exact Or.inl ⟨nor.size, nor.size_pos, by omega, nor.erasesize_dvd_size, hret, hworked, hk⟩
    · exact Or.inr h
  · rw [if_neg hmode]
    rcases eraseSector_moved D hidle hwel hbank halign with ⟨hret, hworked, hk⟩ | h
    · exact Or.inl ⟨nor.erasesize, nor.erasesize_pos, Nat.le_of_dvd hpos hlen, Nat.dvd_refl _,
        hret, hworked, hk⟩
    · exact Or.inr h

theorem eraseReady_turned (maxSize : Nat) (e : E) :
    Turned chip faults e { chip e with busy := 0 }
      (if maxSize = nor.size ∧ nor.noOpChipErase = false then
        eraseChipWaitTillReady M nor nor.size e
      else waitTillReady M nor e) := by
  split
  · exact eraseChipWaitTillReady_turned D nor.size e
  · exact waitTillReady_turned D e

omit D in
theorem eraseLoop_succ {maxSize fuel addr len : Nat} {ret : Int} {s : Driver E}
    (hlen : len ≠ 0) (hctrlc : (M.ctrlc s.dev).1 = false)
    (hbar : (writeBar M nor addr { s with dev := (M.ctrlc s.dev).2 }).1 = 0)
    (hw : (writeEnable M
      (writeBar M nor addr { s with dev := (M.ctrlc s.dev).2 }).2.dev).1 = 0) :
    eraseLoop M nor maxSize (fuel + 1) ret addr len s =
      let bar := (writeBar M nor addr { s with dev := (M.ctrlc s.dev).2 }).2
      let w := (writeEnable M bar.dev).2
      let r :=
        if len = nor.size ∧ nor.noOpChipErase = false then eraseChip M nor w
        else eraseSector M nor addr w
      if r.1 < 0 then (⟨r.1, addr, true⟩, { bar with dev := r.2 })
      else
        let ready :=
          if maxSize = nor.size ∧ nor.noOpChipErase = false then
            eraseChipWaitTillReady M nor nor.size r.2
          else waitTillReady M nor r.2
        if ready.1 ≠ 0 then
          (⟨ready.1, u32 (addr + r.1.toNat), true⟩, { bar with dev := ready.2 })
        else
          eraseLoop M nor maxSize fuel ready.1 (u32 (addr + r.1.toNat)) (len - r.1.toNat)
            { bar with dev := ready.2 } := by
  rw [eraseLoop, if_neg hlen]
  dsimp only
  rw [if_neg (by rw [hctrlc]; decide), if_neg (by rw [hbar]; decide),
    if_neg (by rw [hw]; decide)]

theorem eraseLoop_moved (maxSize : Nat) {fuel addr len : Nat} {ret : Int} {s : Driver E}
    (hs : Settled nor chip s) (hfuel : len ≤ fuel) (haddr : nor.erasesize ∣ addr)
    (hlen : nor.erasesize ∣ len) (hfit : addr + len ≤ nor.size) (hret : len = 0 -> ret = 0) :
    let r := eraseLoop M nor maxSize fuel ret addr len s
    Settled nor chip r.2 ∧
      exists n k, n ≤ len ∧ nor.erasesize ∣ n ∧
        Became chip faults s r.2 (Flash.erase (chip s.dev).mem addr n) k ∧
        (k = 0 <-> n = len) ∧ (r.1.ret = 0 <-> n = len) ∧
        (r.1.ret ≠ 0 -> r.1.addrKnown = true -> r.1.addr = addr + n) := by
  dsimp only
  induction fuel generalizing addr len ret s with
  | zero =>
      have hz := Nat.le_zero.mp hfuel
      refine ⟨hs, 0, 0, Nat.zero_le _, Nat.dvd_zero _,
        ⟨(Flash.erase_zero _ _).symm, rfl⟩, by omega, ?_, fun _ h => by cases h⟩
      exact ⟨fun _ => hz.symm, fun _ => hret hz⟩
  | succ fuel ih =>
      by_cases hz : len = 0
      · rw [eraseLoop, if_pos hz]
        refine ⟨hs, 0, 0, Nat.zero_le _, Nat.dvd_zero _,
          ⟨(Flash.erase_zero _ _).symm, rfl⟩, by omega, ?_, fun _ h => by cases h⟩
        exact ⟨fun _ => hz.symm, fun _ => hret hz⟩
      · have hpos : 0 < len := Nat.pos_of_ne_zero hz
        have hlt : addr < nor.size := by omega
        have hsize := nor.size_lt
        have hnone : 1 = 0 <-> 0 = len := by omega
        obtain ⟨hchipc, hkc⟩ := D.ctrlc s.dev
        have hsc : Settled nor chip { s with dev := (M.ctrlc s.dev).2 } :=
          hs.follow (by rw [hchipc]; exact hs.idle) (by rw [hchipc])
        by_cases hctrlc : (M.ctrlc s.dev).1 = true
        · rw [if_pos hctrlc] at hkc
          rw [eraseLoop, if_neg hz]
          dsimp only
          rw [if_pos hctrlc]
          refine ⟨hsc, 0, 1, Nat.zero_le _, Nat.dvd_zero _, ?_, hnone, ?_,
            fun _ h => by cases h⟩
          · rw [Flash.erase_zero]
            exact Became.of (congrArg Chip.mem hchipc) hkc
          · exact ⟨fun h => absurd h (show ¬ - EINTR = 0 by decide),
              fun h => absurd h.symm hz⟩
        · rw [if_neg hctrlc, Nat.add_zero] at hkc
          obtain ⟨hbarRet, hbar, hsel, hbecame⟩ := writeBar_settled D addr hsc
          have hcurr := hsel hlt
          clear hsel
          have hw := writeEnable_turned D hbar.idle
          rw [eraseLoop_succ hz (Bool.eq_false_iff.mpr hctrlc) hbarRet hw.ret]
          dsimp only
          generalize writeBar M nor addr { s with dev := (M.ctrlc s.dev).2 } = bar at *
          have hidle' : (chip (writeEnable M bar.2.dev).2).busy = 0 := by
            rw [hw.chip_eq]
            exact hbar.idle
          have hwel : (chip (writeEnable M bar.2.dev).2).wel = true := by
            rw [hw.chip_eq]
          have hbank : addr / SZ_16M = (chip (writeEnable M bar.2.dev).2).bank := by
            rw [hw.chip_eq]
            exact (hbar.bank.trans hcurr).symm
          have hmemw : (chip (writeEnable M bar.2.dev).2).mem = (chip s.dev).mem := by
            rw [hw.chip_eq]
            exact hbecame.mem_eq.trans (congrArg Chip.mem hchipc)
          have hbankw : (chip (writeEnable M bar.2.dev).2).bank = (chip bar.2.dev).bank := by
            rw [hw.chip_eq]
          have hfaultsw : faults (writeEnable M bar.2.dev).2 = faults s.dev := by
            rw [hw.faults_eq, hbecame.faults_eq, Nat.add_zero, hkc]
          have h := eraseCommand_moved D hidle' hwel hbank haddr hlen hpos hfit
          rw [hmemw, hfaultsw] at h
          generalize (if len = nor.size ∧ nor.noOpChipErase = false then
              eraseChip M nor (writeEnable M bar.2.dev).2
            else eraseSector M nor addr (writeEnable M bar.2.dev).2) = r at h ⊢
          rcases h with ⟨n, hnpos, hle, hdvd, hn, hworked, hk⟩ | ⟨hbad, hchip, hk⟩
          · have hr := eraseReady_turned D maxSize r.2
            generalize (if maxSize = nor.size ∧ nor.noOpChipErase = false then
                eraseChipWaitTillReady M nor nor.size r.2
              else waitTillReady M nor r.2) = ready at hr ⊢
            have hset := hbar.follow (by rw [hr.chip_eq])
              ((congrArg Chip.bank hr.chip_eq).trans (hworked.bank_eq.trans hbankw))
            have hmem := (congrArg Chip.mem hr.chip_eq).trans hworked.mem_eq
            have hfaults := hr.faults_eq.trans hk
            have hu32 : u32 (addr + n) = addr + n := u32_of_lt (by omega)
            rw [hn, if_neg (Int.not_lt.mpr (Int.natCast_nonneg n)), Int.toNat_natCast,
              if_neg (not_not_intro hr.ret), hr.ret, hu32]
            obtain ⟨hset', m, k, hmle, hmdvd, hbec, hiff, hretiff, hend⟩ :=
              @ih (addr + n) (len - n) 0 _ hset (by omega) (Nat.dvd_add haddr hdvd)
                (Nat.dvd_sub hlen hdvd) (by omega) (fun _ => rfl)
            dsimp only at hbec
            rw [hmem, Flash.erase_append] at hbec
            generalize eraseLoop M nor maxSize fuel 0 (addr + n) (len - n) _ = t
              at hset' hbec hretiff hend ⊢
            have hk0 : 0 + k = 0 <-> n + m = len := by omega
            have hlen' : n + m = len <-> m = len - n := by omega
            refine ⟨hset', n + m, 0 + k, by omega, Nat.dvd_add hdvd hmdvd,
              (Became.of hmem hfaults).trans hbec, hk0, hretiff.trans hlen'.symm, ?_⟩
            intro hne hknown
            rw [hend hne hknown, Nat.add_assoc]
          · have hset := hbar.follow (by rw [hchip]; exact hidle')
              ((congrArg Chip.bank hchip).trans hbankw)
            have hmem := (congrArg Chip.mem hchip).trans hmemw
            rw [if_pos hbad]
            refine ⟨hset, 0, 1, Nat.zero_le _, Nat.dvd_zero _, ?_, hnone, ?_, fun _ _ => rfl⟩
            · rw [Flash.erase_zero]
              exact Became.of hmem hk
            · exact ⟨fun h => absurd h (Int.ne_of_lt hbad), fun h => absurd h.symm hz⟩

omit D in
theorem EraseInfo.finish_failed (instr : EraseInfo) (addr : Nat) (known : Bool) {ret : Int}
    (h : ret ≠ 0) :
    (instr.finish ret addr known).state = .failed ∧
      (instr.finish ret addr known).failAddr =
        if known = true then (addr : Int) else MTD_FAIL_ADDR_UNKNOWN := by
  unfold EraseInfo.finish
  rw [if_pos h]
  exact ⟨rfl, rfl⟩

/-- An erase returns 0 exactly when no command has failed and the user has not interrupted it;
else it has erased the front of the range, and the failing address is behind that front. -/
theorem spiNorErase_moved {ret : Int} (instr : EraseInfo) {s : Driver E}
    (hs : AtRest nor chip s) (haddr : nor.erasesize ∣ instr.addr)
    (hlen : nor.erasesize ∣ instr.len) (hfit : instr.addr + instr.len ≤ nor.size)
    (hret : instr.len = 0 -> ret = 0) :
    let r := spiNorErase M nor ret instr s
    AtRest nor chip r.2.2 ∧
      exists n k, n ≤ instr.len ∧ nor.erasesize ∣ n ∧
        Became chip faults s r.2.2 (Flash.erase (chip s.dev).mem instr.addr n) k ∧
        (k = 0 <-> n = instr.len) ∧ (r.1 = 0 <-> n = instr.len) ∧
        (r.1 = 0 -> r.2.1.state = .done) ∧
        (r.1 ≠ 0 -> r.2.1.state = .failed ∧
          (r.2.1.failAddr = (instr.addr + n : Nat) ∨
            r.2.1.failAddr = MTD_FAIL_ADDR_UNKNOWN)) := by
  have hsize := nor.size_lt
  have hlen32 : u32 instr.len = instr.len := u32_of_lt (by omega)
  have haddr32 : u32 instr.addr = instr.addr := u32_of_lt (by omega)
  obtain ⟨hset, n, k, hle, hdvd, hbec, hiff, hretiff, hend⟩ :=
    eraseLoop_moved D instr.len hs.toSettled (Nat.le_refl instr.len) haddr hlen
      hfit hret
  obtain ⟨hcret, hrest, hclean⟩ := cleanBar_atRest D hset
  have hd := writeDisable_turned D hrest.idle
  unfold spiNorErase
  rw [if_neg (not_not_intro (Nat.mod_eq_zero_of_dvd hlen))]
  dsimp only
  rw [hlen32, haddr32]
  generalize eraseLoop M nor instr.len instr.len ret instr.addr instr.len s = r
    at hset hbec hretiff hend hcret hrest hclean hd ⊢
  generalize cleanBar M r.2 = c at hcret hrest hclean hd ⊢
  generalize writeDisable M c.2.dev = d at hd ⊢
  have hcode : (if (if r.1.ret = 0 then c.1 else r.1.ret) = 0 then d.1
      else if r.1.ret = 0 then c.1 else r.1.ret) = r.1.ret := by
    by_cases hz : r.1.ret = 0
    · rw [if_pos hz, if_pos hcret, hd.ret, hz]
    · rw [if_neg hz, if_neg hz]
  rw [hcode]
  have hboth := hbec.trans hclean
  rw [hbec.mem_eq] at hboth
  have hmem : (chip d.2).mem = (chip c.2.dev).mem := by rw [hd.chip_eq]
  have hrest' : AtRest nor chip { c.2 with dev := d.2 } :=
    ⟨hrest.follow (by rw [hd.chip_eq]; exact hrest.idle) (by rw [hd.chip_eq]), hrest.zero⟩
  refine ⟨hrest', n, k, hle, hdvd, hboth.follow (k := 0) hmem hd.faults_eq, hiff, hretiff,
    fun h => ?_, fun h => ?_⟩
  · rw [h]
    rfl
  · obtain ⟨hstate, hfail⟩ := EraseInfo.finish_failed { instr with state := .erasing } r.1.addr
      r.1.addrKnown h
    refine ⟨hstate, ?_⟩
    rw [hfail]
    by_cases hknown : r.1.addrKnown = true
    · rw [if_pos hknown, hend h hknown]
      exact Or.inl rfl
    · rw [if_neg hknown]
      exact Or.inr rfl

end SpiNor
end UBoot
end Hlk7621
