import Hlk7621.UBoot.SpiNor

/-!
# The chip behind the driver

A NOR flash as its datasheet describes it: a write enable latch, a bank register, pages in
which programming wraps around, and a status register that shows when the chip is busy.
`Datasheet` says that the world behind the SPI memory layer is such a chip.  Commands that
move data or erase may fail, and they have no effect then; the other ones succeed.
-/

namespace Hlk7621
namespace UBoot
namespace SpiNor

structure Chip where
  mem : Nat -> UInt8
  bank : Nat
  wel : Bool
  busy : Nat

/-- The three address bytes of a command. -/
def SpiMemOp.wire (op : SpiMemOp) : Nat := op.addrVal % 2 ^ (8 * op.addrNbytes)

def Chip.place (c : Chip) (a : Nat) : Nat := c.bank * SZ_16M + a

/-- The chip's answer to a command, and how the command leaves it; an erase or a page program
keeps it busy for `n` readings of the status. -/
def Chip.step (nor : Nor) (n : Nat) (op : SpiMemOp) (c : Chip) : Bytes × Chip :=
  match op.opcode with
  | .rdsr =>
      ([UInt8.ofNat ((if c.busy = 0 then 0 else SR_WIP) + (if c.wel = true then 2 else 0))],
        { c with busy := c.busy - 1 })
  | .rdfsr => ([UInt8.ofNat (if c.busy = 0 then FSR_READY else 0)], c)
  | opcode =>
      if c.busy ≠ 0 then (List.replicate op.dataIn 0xff, c)
      else
        match opcode with
        | .wren => ([], { c with wel := true })
        | .wrdi => ([], { c with wel := false })
        | .bankWrite =>
            if c.wel = true then
              ([], { c with bank := (op.dataOut.getD 0 0).toNat, wel := false })
            else ([], c)
        | .read =>
            ((List.range op.dataIn).map fun i => c.mem (c.place ((op.wire + i) % SZ_16M)), c)
        | .program =>
            if c.wel = true then
              ([], { c with
                mem := Flash.programPage c.mem nor.pageSize (c.place op.wire) op.dataOut
                wel := false
                busy := n })
            else ([], c)
        | .erase =>
            if c.wel = true then
              ([], { c with
                mem := Flash.erase c.mem (c.place (op.wire - op.wire % nor.erasesize))
                  nor.erasesize
                wel := false
                busy := n })
            else ([], c)
        | .chipErase =>
            if c.wel = true then
              ([], { c with mem := Flash.erase c.mem 0 nor.size, wel := false, busy := n })
            else ([], c)
        | _ => ([], c)

def Opcode.moves : Opcode -> Bool
  | .read | .program | .erase | .chipErase => true
  | _ => false

/-- What `execOp` may do with a command: the chip carries it out, or it fails without effect
and the number of faults goes up. -/
inductive Executes (nor : Nor) (op : SpiMemOp) (c : Chip) (faults : Nat) :
    Int -> Bytes -> Chip -> Nat -> Prop where
  | done (n : Nat) :
      Executes nor op c faults 0 (Chip.step nor n op c).1 (Chip.step nor n op c).2 faults
  | fault (ret : Int) (data : Bytes) (hmoves : op.opcode.moves = true) (hret : ret < 0) :
      Executes nor op c faults ret data c (faults + 1)

variable {E : Type}

/-- The world behind the memory layer, seen as a chip together with the number of faults so
far.  An interrupt by the user counts as a fault. -/
structure Datasheet (M : SpiMem E) (nor : Nor) (chip : E -> Chip) (faults : E -> Nat) :
    Prop where
  exec (op : SpiMemOp) (e : E) :
    Executes nor op (chip e) (faults e) (M.execOp op e).1 (M.execOp op e).2.1
      (chip (M.execOp op e).2.2) (faults (M.execOp op e).2.2)
  prompt (timeout : Nat) (e : E) :
    DEFAULT_READY_WAIT_JIFFIES ≤ timeout -> (chip e).busy < M.polls timeout e
  ctrlc (e : E) :
    chip (M.ctrlc e).2 = chip e ∧
      faults (M.ctrlc e).2 = faults e + if (M.ctrlc e).1 = true then 1 else 0
  room : M.maxWriteSize = 0 ∨
    1 + ADDR_WIDTH + nor.readDummy * nor.readAddrNbits / 8 < M.maxWriteSize

/-!
## Commands on an idle chip
-/

section

variable {M : SpiMem E} {nor : Nor} {chip : E -> Chip} {faults : E -> Nat}

theorem Executes.steady {op : SpiMemOp} {c c' : Chip} {k k' : Nat} {ret : Int} {data : Bytes}
    (h : Executes nor op c k ret data c' k') (hmoves : op.opcode.moves = false) :
    exists n, ret = 0 ∧ data = (Chip.step nor n op c).1 ∧ c' = (Chip.step nor n op c).2 ∧
      k' = k := by
  cases h with
  | done n => exact ⟨n, rfl, rfl, rfl, rfl⟩
  | fault ret data hm hret => rw [hmoves] at hm; cases hm

theorem Executes.outcome {op : SpiMemOp} {c c' : Chip} {k k' : Nat} {ret : Int} {data : Bytes}
    (h : Executes nor op c k ret data c' k') :
    (exists n, ret = 0 ∧ data = (Chip.step nor n op c).1 ∧ c' = (Chip.step nor n op c).2 ∧
      k' = k) ∨ ret < 0 ∧ c' = c ∧ k' = k + 1 := by
  cases h with
  | done n => exact Or.inl ⟨n, rfl, rfl, rfl, rfl⟩
  | fault ret data hmoves hret => exact Or.inr ⟨hret, rfl, rfl⟩

structure Turned (chip : E -> Chip) (faults : E -> Nat) (e : E) (c : Chip) (r : Int × E) :
    Prop where
  ret : r.1 = 0
  chip_eq : chip r.2 = c
  faults_eq : faults r.2 = faults e

variable (D : Datasheet M nor chip faults)

include D

theorem writeEnable_turned {e : E} (hidle : (chip e).busy = 0) :
    Turned chip faults e { chip e with wel := true } (writeEnable M e) := by
  obtain ⟨n, hret, -, hchip, hk⟩ := (D.exec (regOp .wren 0 []) e).steady rfl
  refine ⟨hret, ?_, hk⟩
  rw [writeEnable, writeReg, hchip]
  simp [Chip.step, regOp, hidle]

theorem writeDisable_turned {e : E} (hidle : (chip e).busy = 0) :
    Turned chip faults e { chip e with wel := false } (writeDisable M e) := by
  obtain ⟨n, hret, -, hchip, hk⟩ := (D.exec (regOp .wrdi 0 []) e).steady rfl
  refine ⟨hret, ?_, hk⟩
  rw [writeDisable, writeReg, hchip]
  simp [Chip.step, regOp, hidle]

theorem bankWrite_turned {e : E} {b : Nat} (hidle : (chip e).busy = 0)
    (hwel : (chip e).wel = true) (hb : b < 256) :
    Turned chip faults e { chip e with bank := b, wel := false }
      (writeReg M .bankWrite [UInt8.ofNat b] e) := by
  obtain ⟨n, hret, -, hchip, hk⟩ :=
    (D.exec (regOp .bankWrite 0 [UInt8.ofNat b]) e).steady rfl
  refine ⟨hret, ?_, hk⟩
  rw [writeReg, hchip]
  simp [Chip.step, regOp, hidle, hwel, Nat.mod_eq_of_lt hb]

/-!
## Waiting
-/

theorem readSr_turned (e : E) :
    (readSr M e).1 =
        ((if (chip e).busy = 0 then 0 else 1) + (if (chip e).wel = true then 2 else 0) : Nat) ∧
      chip (readSr M e).2 = { chip e with busy := (chip e).busy - 1 } ∧
      faults (readSr M e).2 = faults e := by
  obtain ⟨n, hret, hdata, hchip, hk⟩ := (D.exec (regOp .rdsr 1 []) e).steady rfl
  have hnot : ¬ (M.execOp (regOp .rdsr 1 []) e).1 < 0 := by rw [hret]; decide
  unfold readSr readStatus
  dsimp only
  rw [if_neg hnot]
  refine ⟨?_, ?_, hk⟩
  · dsimp only
    rw [hdata]
    by_cases hb : (chip e).busy = 0 <;> by_cases hw : (chip e).wel = true <;>
      simp [Chip.step, regOp, hb, hw, SR_WIP]
  · dsimp only
    rw [hchip]
    simp [Chip.step, regOp]

theorem readFsr_turned (e : E) :
    (readFsr M e).1 = (if (chip e).busy = 0 then FSR_READY else 0 : Nat) ∧
      chip (readFsr M e).2 = chip e ∧ faults (readFsr M e).2 = faults e := by
  obtain ⟨n, hret, hdata, hchip, hk⟩ := (D.exec (regOp .rdfsr 1 []) e).steady rfl
  have hnot : ¬ (M.execOp (regOp .rdfsr 1 []) e).1 < 0 := by rw [hret]; decide
  unfold readFsr readStatus
  dsimp only
  rw [if_neg hnot]
  refine ⟨?_, ?_, hk⟩
  · dsimp only
    rw [hdata]
    by_cases hb : (chip e).busy = 0 <;> simp [Chip.step, regOp, hb, FSR_READY]
  · dsimp only
    rw [hchip]
    simp [Chip.step, regOp]

theorem srReady_turned (e : E) :
    (srReady M nor e).1 = (if (chip e).busy = 0 then 1 else 0) ∧
      chip (srReady M nor e).2 = { chip e with busy := (chip e).busy - 1 } ∧
      faults (srReady M nor e).2 = faults e := by
  obtain ⟨hret, hchip, hk⟩ := readSr_turned D e
  have hbits : ((readSr M e).1.toNat &&& (SR_E_ERR ||| SR_P_ERR) = 0) ∧
      ((readSr M e).1.toNat &&& SR_WIP = 0 <-> (chip e).busy = 0) := by
    rw [hret]
    by_cases hb : (chip e).busy = 0 <;> by_cases hw : (chip e).wel = true <;>
      simp [hb, hw, SR_E_ERR, SR_P_ERR, SR_WIP]
  have hnot : ¬ (readSr M e).1 < 0 := by rw [hret]; lia
  unfold srReady
  dsimp only
  rw [if_neg hnot, if_neg (fun h => h.2 hbits.1)]
  refine ⟨?_, hchip, hk⟩
  dsimp only
  by_cases hb : (chip e).busy = 0
  · rw [if_pos (hbits.2.mpr hb), if_pos hb]
  · rw [if_neg (fun h => hb (hbits.2.mp h)), if_neg hb]

theorem fsrReady_turned (e : E) :
    ((fsrReady M e).1 = 0 <-> (chip e).busy ≠ 0) ∧ ¬ (fsrReady M e).1 < 0 ∧
      chip (fsrReady M e).2 = chip e ∧ faults (fsrReady M e).2 = faults e := by
  obtain ⟨hret, hchip, hk⟩ := readFsr_turned D e
  have hnot : ¬ (readFsr M e).1 < 0 := by rw [hret]; lia
  have hbits : (readFsr M e).1.toNat &&& (FSR_E_ERR ||| FSR_P_ERR) = 0 := by
    rw [hret]
    by_cases hb : (chip e).busy = 0 <;> simp [hb, FSR_E_ERR, FSR_P_ERR, FSR_READY]
  unfold fsrReady
  dsimp only
  rw [if_neg hnot, if_neg (fun h => h hbits)]
  refine ⟨?_, by dsimp only; lia, hchip, hk⟩
  dsimp only
  rw [hret]
  by_cases hb : (chip e).busy = 0 <;> simp [hb, FSR_READY]

theorem defaultReady_turned (e : E) :
    (defaultReady M nor e).1 = (if (chip e).busy = 0 then 1 else 0) ∧
      chip (defaultReady M nor e).2 = { chip e with busy := (chip e).busy - 1 } ∧
      faults (defaultReady M nor e).2 = faults e := by
  obtain ⟨hret, hchip, hk⟩ := srReady_turned D e
  obtain ⟨fret, fpos, fchip, fk⟩ := fsrReady_turned D (srReady M nor e).2
  rw [hchip] at fret fchip
  have hnot : ¬ (srReady M nor e).1 < 0 := by rw [hret]; split <;> decide
  unfold defaultReady
  dsimp only
  rw [if_neg hnot]
  by_cases hfsr : nor.useFsr = true
  · rw [if_pos hfsr, if_neg fpos]
    refine ⟨?_, fchip, fk.trans hk⟩
    dsimp only
    by_cases hb : (chip e).busy = 0
    · have hone : (fsrReady M (srReady M nor e).2).1 ≠ 0 := fun h => by
        simpa [hb] using fret.mp h
      simp [hret, hb, hone]
    · simp [hret, hb]
  · rw [if_neg hfsr, if_neg (by decide : ¬ (1 : Int) < 0)]
    refine ⟨?_, hchip, hk⟩
    by_cases hb : (chip e).busy = 0 <;> simp [hret, hb]

theorem readyLoop_turned {n : Nat} {e : E} (hn : (chip e).busy < n) :
    Turned chip faults e { chip e with busy := 0 } (readyLoop M nor n e) := by
  induction n generalizing e with
  | zero => lia
  | succ n ih =>
      obtain ⟨hret, hchip, hk⟩ := defaultReady_turned D e
      unfold readyLoop
      dsimp only
      by_cases hb : (chip e).busy = 0
      · rw [if_pos hb] at hret
        rw [hret, if_neg (by decide), if_pos (by decide)]
        refine ⟨rfl, ?_, hk⟩
        dsimp only
        rw [hchip, hb]
      · rw [if_neg hb] at hret
        rw [hret, if_neg (by decide), if_neg (by decide)]
        have hlt : (chip (defaultReady M nor e).2).busy < n := by
          rw [hchip]
          dsimp only
          lia
        have h := ih hlt
        refine ⟨h.ret, ?_, h.faults_eq.trans hk⟩
        rw [h.chip_eq, hchip]

theorem waitTillReady_turned (e : E) :
    Turned chip faults e { chip e with busy := 0 } (waitTillReady M nor e) :=
  readyLoop_turned D (D.prompt _ e (Nat.le_refl _))

theorem eraseChipWaitTillReady_turned (size : Nat) (e : E) :
    Turned chip faults e { chip e with busy := 0 } (eraseChipWaitTillReady M nor size e) :=
  readyLoop_turned D (D.prompt _ e (Nat.le_max_left _ _))

end

end SpiNor
end UBoot
end Hlk7621
