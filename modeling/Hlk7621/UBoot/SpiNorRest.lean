import Hlk7621.UBoot.SpiNorRuns

/-!
# Rest after every request

The driver also knows the bank when a request leaves the chip's range or is not aligned: an
offset is reduced modulo the size before it selects a bank.  So the chip is at rest after every
request, whatever the request is and whatever fails.
-/

namespace Hlk7621
namespace UBoot
namespace SpiNor

variable {E : Type} {M : SpiMem E} {nor : Nor} {chip : E -> Chip} {faults : E -> Nat}

/-!
## Single commands
-/

/-- Only the command that writes the bank register changes the bank. -/
theorem Chip.step_bank (n : Nat) (c : Chip) {op : SpiMemOp} (hop : op.opcode ≠ .bankWrite) :
    (Chip.step nor n op c).2.bank = c.bank := by
  rcases op with ⟨opcode, addrNbytes, addrVal, dummyNbytes, dataIn, dataOut⟩
  by_cases hbusy : c.busy = 0 <;> by_cases hwel : c.wel = true <;> cases opcode <;>
    first
      | exact absurd rfl hop
      | simp only [Chip.step, hbusy, hwel, ne_eq, not_true_eq_false, not_false_eq_true, if_true,
          if_false, Bool.false_eq_true]

theorem Chip.step_read (n : Nat) (c : Chip) {op : SpiMemOp} (hop : op.opcode = .read) :
    (Chip.step nor n op c).2 = c := by
  rcases op with ⟨opcode, addrNbytes, addrVal, dummyNbytes, dataIn, dataOut⟩
  cases hop
  by_cases hbusy : c.busy = 0 <;>
    simp only [Chip.step, hbusy, ne_eq, not_true_eq_false, not_false_eq_true, if_true, if_false]

/-- After a command an idle chip is in the same bank, and it is still idle if the command has
failed. -/
structure Left (c c' : Chip) (ret : Int) : Prop where
  bank_eq : c'.bank = c.bank
  idle : ret ≠ 0 -> c'.busy = 0

variable (D : Datasheet M nor chip faults)

include D

theorem execOp_left (op : SpiMemOp) {e : E} (hop : op.opcode ≠ .bankWrite)
    (hidle : (chip e).busy = 0) :
    Left (chip e) (chip (M.execOp op e).2.2) (M.execOp op e).1 := by
  rcases (D.exec op e).outcome with ⟨n, hret, -, hchip, -⟩ | ⟨hret, hchip, -⟩
  · rw [hchip]
    exact ⟨Chip.step_bank n _ hop, fun h => absurd hret h⟩
  · rw [hchip]
    exact ⟨rfl, fun _ => hidle⟩

theorem readOp_same (op : SpiMemOp) (e : E) (hop : op.opcode = .read) :
    chip (M.execOp op e).2.2 = chip e := by
  rcases (D.exec op e).outcome with ⟨n, -, -, hchip, -⟩ | ⟨-, hchip, -⟩
  · rw [hchip, Chip.step_read n _ hop]
  · exact hchip

theorem readDataLoop_same (fuel addr remaining : Nat) (e : E) :
    chip (readDataLoop M nor fuel addr remaining e).2.2 = chip e := by
  induction fuel generalizing addr remaining e with
  | zero => rfl
  | succ fuel ih =>
      unfold readDataLoop
      split
      · rfl
      · split
        · rfl
        · dsimp only
          split
          · exact readOp_same D _ e rfl
          · exact (ih _ _ _).trans (readOp_same D _ e rfl)

theorem readData_same (addr len : Nat) (e : E) :
    chip (readData M nor addr len e).2.2 = chip e := by
  unfold readData
  dsimp only
  split <;> exact readDataLoop_same D len addr len e

theorem writeData_left (addr : Nat) (data : Bytes) {e : E} (hidle : (chip e).busy = 0) :
    (chip (writeData M addr data e).2).bank = (chip e).bank ∧
      ((writeData M addr data e).1 < 0 -> (chip (writeData M addr data e).2).busy = 0) := by
  unfold writeData
  split
  · exact ⟨rfl, fun _ => hidle⟩
  · rename_i n hn
    dsimp only
    generalize (if data.length < n then data.length else n) = m
    have h := execOp_left D (programOp addr (data.take m)) (fun h => by cases h) hidle
    split
    · rename_i hret
      exact ⟨h.bank_eq, fun _ => h.idle hret⟩
    · exact ⟨h.bank_eq, fun hneg => absurd hneg (Int.not_lt.mpr (Int.natCast_nonneg _))⟩

theorem eraseCommand_left (addr len : Nat) {e : E} (hidle : (chip e).busy = 0) :
    let r :=
      if len = nor.size ∧ nor.noOpChipErase = false then eraseChip M nor e
      else eraseSector M nor addr e
    (chip r.2).bank = (chip e).bank ∧ (r.1 < 0 -> (chip r.2).busy = 0) := by
  dsimp only
  split
  · have h := execOp_left D (regOp .chipErase 0 []) (fun h => by cases h) hidle
    unfold eraseChip
    dsimp only
    split
    · rename_i hret
      exact ⟨h.bank_eq, fun _ => h.idle hret⟩
    · exact ⟨h.bank_eq, fun hneg => absurd hneg (Int.not_lt.mpr (Int.natCast_nonneg _))⟩
  · have h := execOp_left D ⟨.erase, ADDR_WIDTH, addr, 0, 0, []⟩ (fun h => by cases h) hidle
    unfold eraseSector
    dsimp only
    split
    · rename_i hret
      exact ⟨h.bank_eq, fun _ => h.idle hret⟩
    · exact ⟨h.bank_eq, fun hneg => absurd hneg (Int.not_lt.mpr (Int.natCast_nonneg _))⟩

/-!
## Loops
-/

omit D in
theorem remBankLen_pos (src : Nat) : 0 < remBankLen src := by
  have hlt := u32_lt src
  have hmod : u32 src = src % 2 ^ 32 := by
    unfold u32
    rfl
  unfold remBankLen
  dsimp only
  rw [hmod, SZ_16M_eq]
  unfold sub32 u32
  omega

theorem readLoop_rests (fuel src len : Nat) {s : Driver E} (hs : Settled nor chip s) :
    (exists ret, (readLoop M nor fuel src len s).1 = .ok ret) ∧
      Settled nor chip (readLoop M nor fuel src len s).2.2 := by
  induction fuel generalizing src len s with
  | zero => exact ⟨⟨0, rfl⟩, hs⟩
  | succ fuel ih =>
      by_cases hz : len = 0
      · rw [readLoop, if_pos hz]
        exact ⟨⟨0, rfl⟩, hs⟩
      · obtain ⟨hret, hbar, -, -⟩ := writeBar_settled D src hs
        have hrem := remBankLen_pos src
        obtain ⟨n, hn⟩ : exists n, n = if len < remBankLen src then len else remBankLen src :=
          ⟨_, rfl⟩
        have hne : n ≠ 0 := by
          rw [hn]
          split
          · exact hz
          · exact Nat.ne_of_gt hrem
        rw [readLoop_succ hne hz hn hret]
        dsimp only
        have hchip := readData_same D src n (writeBar M nor src s).2.dev
        have hset := hbar.follow (by rw [hchip]; exact hbar.idle) (congrArg Chip.bank hchip)
        split
        · exact ⟨⟨_, rfl⟩, hset⟩
        · split
          · exact ⟨⟨_, rfl⟩, hset⟩
          · exact ih _ _ hset

theorem writeLoop_rests (fuel addr : Nat) (data : Bytes) {s : Driver E}
    (hs : Settled nor chip s) :
    (exists ret, (writeLoop M nor fuel addr data s).1 = .ok ret) ∧
      Settled nor chip (writeLoop M nor fuel addr data s).2.2 := by
  induction fuel generalizing addr data s with
  | zero => exact ⟨⟨0, rfl⟩, hs⟩
  | succ fuel ih =>
      by_cases hz : data = []
      · rw [writeLoop, if_pos hz]
        exact ⟨⟨0, rfl⟩, hs⟩
      · obtain ⟨hret, hbar, -, -⟩ := writeBar_settled D addr hs
        have hw := writeEnable_turned D hbar.idle
        have hidle : (chip (writeEnable M (writeBar M nor addr s).2.dev).2).busy = 0 := by
          rw [hw.chip_eq]
          exact hbar.idle
        have hbank : (chip (writeEnable M (writeBar M nor addr s).2.dev).2).bank =
            (chip (writeBar M nor addr s).2.dev).bank := by
          rw [hw.chip_eq]
        rw [writeLoop_succ hz hret]
        dsimp only
        generalize data.take (min (nor.pageSize - addr % nor.pageSize) data.length) = page
        obtain ⟨hsame, hstill⟩ := writeData_left D (u32 addr) page hidle
        have hr := waitTillReady_turned D
          (writeData M (u32 addr) page (writeEnable M (writeBar M nor addr s).2.dev).2).2
        split
        · rename_i hneg
          exact ⟨⟨_, rfl⟩, hbar.follow (hstill hneg) (hsame.trans hbank)⟩
        · rw [if_neg (not_not_intro hr.ret)]
          exact ih _ _ (hbar.follow (by rw [hr.chip_eq])
            ((congrArg Chip.bank hr.chip_eq).trans (hsame.trans hbank)))

theorem eraseLoop_rests (maxSize fuel addr len : Nat) (ret : Int) {s : Driver E}
    (hs : Settled nor chip s) :
    Settled nor chip (eraseLoop M nor maxSize fuel ret addr len s).2 := by
  induction fuel generalizing addr len ret s with
  | zero => exact hs
  | succ fuel ih =>
      by_cases hz : len = 0
      · rw [eraseLoop, if_pos hz]
        exact hs
      · have hchipc := (D.ctrlc s.dev).1
        have hsc : Settled nor chip { s with dev := (M.ctrlc s.dev).2 } :=
          hs.follow (by rw [hchipc]; exact hs.idle) (by rw [hchipc])
        by_cases hctrlc : (M.ctrlc s.dev).1 = true
        · rw [eraseLoop, if_neg hz]
          dsimp only
          rw [if_pos hctrlc]
          exact hsc
        · obtain ⟨hret, hbar, -, -⟩ := writeBar_settled D addr hsc
          have hw := writeEnable_turned D hbar.idle
          rw [eraseLoop_succ hz (Bool.eq_false_iff.mpr hctrlc) hret hw.ret]
          dsimp only
          generalize writeBar M nor addr { s with dev := (M.ctrlc s.dev).2 } = bar at *
          have hidle : (chip (writeEnable M bar.2.dev).2).busy = 0 := by
            rw [hw.chip_eq]
            exact hbar.idle
          have hbank : (chip (writeEnable M bar.2.dev).2).bank = (chip bar.2.dev).bank := by
            rw [hw.chip_eq]
          obtain ⟨hsame, hstill⟩ := eraseCommand_left D addr len hidle
          generalize (if len = nor.size ∧ nor.noOpChipErase = false then
              eraseChip M nor (writeEnable M bar.2.dev).2
            else eraseSector M nor addr (writeEnable M bar.2.dev).2) = r at hsame hstill ⊢
          have hr := eraseReady_turned D maxSize r.2
          split
          · rename_i hneg
            exact hbar.follow (hstill hneg) (hsame.trans hbank)
          · rw [if_neg (not_not_intro hr.ret)]
            exact ih _ _ _ (hbar.follow (by rw [hr.chip_eq])
              ((congrArg Chip.bank hr.chip_eq).trans (hsame.trans hbank)))

/-!
## Requests
-/

theorem perform_rests (ret : Int) (req : Request) {s : Driver E} (hs : AtRest nor chip s) :
    AtRest nor chip (perform M nor ret req s).2 := by
  cases req with
  | read off len =>
      obtain ⟨⟨code, hok⟩, hset⟩ :=
        readLoop_rests D len off len hs.toSettled
      unfold perform spiFlashStdRead spiNorRead
      dsimp only
      rw [hok]
      exact (cleanBar_atRest D hset).2.1
  | write off data =>
      unfold perform spiFlashStdWrite spiNorWrite
      dsimp only
      split
      · exact hs
      · obtain ⟨⟨code, hok⟩, hset⟩ :=
          writeLoop_rests D data.length off data hs.toSettled
        rw [hok]
        exact (cleanBar_atRest D hset).2.1
  | erase off len =>
      unfold perform spiFlashStdErase
      dsimp only
      split
      · exact hs
      · unfold spiNorErase
        dsimp only
        split
        · exact hs
        · have hset := eraseLoop_rests D (u32 len) (u32 len) (u32 off) (u32 len) ret
            hs.toSettled
          have hrest := (cleanBar_atRest D hset).2.1
          have hd := writeDisable_turned D hrest.idle
          exact ⟨hrest.follow (by rw [hd.chip_eq]; exact hrest.idle) (by rw [hd.chip_eq]),
            hrest.zero⟩

theorem run_rests (ret : Int) (reqs : List Request) {s : Driver E} (hs : AtRest nor chip s) :
    AtRest nor chip (run M nor ret reqs s).2 := by
  induction reqs generalizing s with
  | nil => exact hs
  | cons req reqs ih => exact ih (perform_rests D ret req hs)

/-- After any requests, in the chip's range or not, and whatever has failed, the chip is idle
in bank 0, where the boot ROM looks for its loader. -/
theorem bank_zero_after_run (ret : Int) (reqs : List Request) {s : Driver E}
    (hs : AtRest nor chip s) :
    (chip (run M nor ret reqs s).2.dev).bank = 0 ∧
      (chip (run M nor ret reqs s).2.dev).busy = 0 := by
  have hrest := run_rests D ret reqs hs
  exact ⟨hrest.bank.trans hrest.zero, hrest.idle⟩

omit D in
theorem bank_zero_after_run_beyond :
    (run (simMem nor32) nor32 7 [.write 0x1fffff0 (List.replicate 32 0), .erase 5 5]
        (freshSim [false, true])).2.dev.chip.bank = 0 ∧
      (run (simMem nor32) nor32 7 [.write 0x1fffff0 (List.replicate 32 0), .erase 5 5]
        (freshSim [false, true])).2.dev.chip.busy = 0 :=
  bank_zero_after_run (datasheet_sim nor32) 7 _ (atRest_freshSim [false, true])

end SpiNor
end UBoot
end Hlk7621
