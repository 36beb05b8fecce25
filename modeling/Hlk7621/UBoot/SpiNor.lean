import Hlk7621.Lib.Flash

/-!
# The SPI NOR driver

Model of `drivers/mtd/spi/spi-nor-core.c` as it is built with `SPI_FLASH_BAR`: commands carry
three address bytes, and a bank register of the chip supplies the rest.  Behind the driver is
the SPI memory layer, `SpiMem`: it executes one command at a time.
-/

namespace Hlk7621
namespace UBoot
namespace SpiNor

def EINTR : Int := 4
def EIO : Int := 5
def EINVAL : Int := 22
def ETIMEDOUT : Int := 110

@[irreducible] def SZ_16M : Nat := 0x1000000
def SZ_2M : Nat := 0x200000
@[irreducible] def UINT_MAX : Nat := 2 ^ 32 - 1

theorem SZ_16M_eq : SZ_16M = 2 ^ 24 := by
  unfold SZ_16M
  rfl

theorem SZ_16M_pos : 0 < SZ_16M := by
  rw [SZ_16M_eq]
  decide

def SR_WIP : Nat := 1
def SR_E_ERR : Nat := 2 ^ 5
def SR_P_ERR : Nat := 2 ^ 6
def FSR_READY : Nat := 2 ^ 7
def FSR_E_ERR : Nat := 2 ^ 5
def FSR_P_ERR : Nat := 2 ^ 4

def DEFAULT_READY_WAIT_JIFFIES : Nat := 40000
def CHIP_ERASE_2MB_READY_WAIT_JIFFIES : Nat := 40000

/-!
## Commands
-/

/-- The commands.  Which byte stands for the last five of them is chosen when the chip is
probed. -/
inductive Opcode where
  | wren | wrdi | rdsr | rdfsr | clsr | clfsr
  | bankWrite | read | program | erase | chipErase
  deriving DecidableEq

/-- A command with its address, dummy bytes, and data in either direction. -/
structure SpiMemOp where
  opcode : Opcode
  addrNbytes : Nat
  addrVal : Nat
  dummyNbytes : Nat
  dataIn : Nat
  dataOut : Bytes
  deriving DecidableEq

/-- The SPI memory layer on a world `E`.  `polls` is the number of times that a timeout lets
the status be read. -/
structure SpiMem (E : Type) where
  execOp : SpiMemOp -> E -> Int × Bytes × E
  polls : Nat -> E -> Nat
  ctrlc : E -> Bool × E
  maxReadSize : Nat
  maxWriteSize : Nat

/-- What probing has found out about the chip.  Pages and sectors divide a bank. -/
structure Nor where
  size : Nat
  size_pos : 0 < size
  size_lt : size < 2 ^ 31
  erasesize : Nat
  erasesize_dvd : erasesize ∣ SZ_16M
  erasesize_dvd_size : erasesize ∣ size
  pageSize : Nat
  pageSize_dvd : pageSize ∣ SZ_16M
  readDummy : Nat
  readAddrNbits : Nat
  noOpChipErase : Bool
  useClsr : Bool
  useFsr : Bool

def ADDR_WIDTH : Nat := 3

def regOp (opcode : Opcode) (dataIn : Nat) (dataOut : Bytes) : SpiMemOp :=
  ⟨opcode, 0, 0, 0, dataIn, dataOut⟩

structure Driver (E : Type) where
  bankCurr : Nat
  dev : E

variable {E : Type} (M : SpiMem E) (nor : Nor)

/-!
## Registers
-/

def writeReg (opcode : Opcode) (buf : Bytes) (e : E) : Int × E :=
  let r := M.execOp (regOp opcode 0 buf) e
  (r.1, r.2.2)

def writeEnable (e : E) : Int × E := writeReg M .wren [] e

def writeDisable (e : E) : Int × E := writeReg M .wrdi [] e

/-- The common body of `read_sr` and `read_fsr`. -/
def readStatus (opcode : Opcode) (e : E) : Int × E :=
  let r := M.execOp (regOp opcode 1 []) e
  if r.1 < 0 then (r.1, r.2.2) else ((r.2.1.getD 0 0).toNat, r.2.2)

def readSr (e : E) : Int × E := readStatus M .rdsr e

def readFsr (e : E) : Int × E := readStatus M .rdfsr e

def srReady (e : E) : Int × E :=
  let sr := readSr M e
  if sr.1 < 0 then sr
  else if nor.useClsr = true ∧ sr.1.toNat &&& (SR_E_ERR ||| SR_P_ERR) ≠ 0 then
    (- EIO, (writeReg M .clsr [] sr.2).2)
  else (if sr.1.toNat &&& SR_WIP = 0 then 1 else 0, sr.2)

def fsrReady (e : E) : Int × E :=
  let fsr := readFsr M e
  if fsr.1 < 0 then fsr
  else if fsr.1.toNat &&& (FSR_E_ERR ||| FSR_P_ERR) ≠ 0 then
    (- EIO, (writeReg M .clfsr [] fsr.2).2)
  else ((fsr.1.toNat &&& FSR_READY : Nat), fsr.2)

def defaultReady (e : E) : Int × E :=
  let sr := srReady M nor e
  if sr.1 < 0 then sr
  else
    let fsr := if nor.useFsr = true then fsrReady M sr.2 else (1, sr.2)
    if fsr.1 < 0 then fsr
    else (if sr.1 ≠ 0 ∧ fsr.1 ≠ 0 then 1 else 0, fsr.2)

/-- The loop of `spi_nor_wait_till_ready_with_timeout`. -/
def readyLoop : Nat -> E -> Int × E
  | 0, e => (-ETIMEDOUT, e)
  | n + 1, e =>
      let r := defaultReady M nor e
      if r.1 < 0 then r
      else if r.1 ≠ 0 then (0, r.2)
      else readyLoop n r.2

def waitTillReadyWithTimeout (timeout : Nat) (e : E) : Int × E :=
  readyLoop M nor (M.polls timeout e) e

def waitTillReady (e : E) : Int × E :=
  waitTillReadyWithTimeout M nor DEFAULT_READY_WAIT_JIFFIES e

def eraseChipWaitTillReady (size : Nat) (e : E) : Int × E :=
  waitTillReadyWithTimeout M nor (max CHIP_ERASE_2MB_READY_WAIT_JIFFIES
    (CHIP_ERASE_2MB_READY_WAIT_JIFFIES * (size / SZ_2M))) e

/-!
## The bank register
-/

def cleanBar (s : Driver E) : Int × Driver E :=
  if s.bankCurr = 0 then (0, s)
  else
    let w := writeEnable M s.dev
    let r := writeReg M .bankWrite [0] w.2
    if r.1 ≠ 0 then (r.1, ⟨0, r.2⟩)
    else
      let d := writeDisable M r.2
      (d.1, ⟨0, d.2⟩)

def bankSel (offset : Nat) : Nat := u32 offset % nor.size / SZ_16M % 256

def writeBar (offset : Nat) (s : Driver E) : Int × Driver E :=
  let ready := waitTillReady M nor s.dev
  if ready.1 ≠ 0 then (1, { s with dev := ready.2 })
  else if nor.size ≤ SZ_16M then (0, { s with dev := ready.2 })
  else if bankSel nor offset = s.bankCurr then (0, { s with dev := ready.2 })
  else
    let w := writeEnable M ready.2
    let r := writeReg M .bankWrite [UInt8.ofNat (bankSel nor offset)] w.2
    if r.1 < 0 then (r.1, { s with dev := r.2 })
    else
      let d := writeDisable M r.2
      (d.1, ⟨bankSel nor offset, d.2⟩)

/-!
## Single transfers
-/

/-- `spi_mem_adjust_op_size` for a controller without operations of its own: the number of
bytes that one command can move. -/
def adjustOpSize (op : SpiMemOp) : Except Int Nat :=
  let len := 1 + op.addrNbytes + op.dummyNbytes
  if M.maxWriteSize ≠ 0 ∧ M.maxWriteSize < len then .error (-EINVAL)
  else
    let nbytes :=
      if op.dataIn ≠ 0 then
        if M.maxReadSize ≠ 0 then min op.dataIn M.maxReadSize else op.dataIn
      else if M.maxWriteSize ≠ 0 then min op.dataOut.length (M.maxWriteSize - len)
      else op.dataOut.length
    if nbytes = 0 then .error (-EINVAL) else .ok nbytes

def readOp (addr len : Nat) : SpiMemOp :=
  ⟨.read, ADDR_WIDTH, addr, nor.readDummy * nor.readAddrNbits / 8, len, []⟩

/-- The loop of `spi_nor_read_data`: the code, and what is at the front of the buffer.  Every
turn moves at least one byte. -/
def readDataLoop : Nat -> Nat -> Nat -> E -> Int × Bytes × E
  | 0, _, _, e => (0, [], e)
  | fuel + 1, addr, remaining, e =>
      if remaining = 0 then (0, [], e)
      else
        match adjustOpSize M (readOp nor addr (min remaining UINT_MAX)) with
        | .error ret => (ret, [], e)
        | .ok n =>
            let r := M.execOp (readOp nor addr n) e
            if r.1 ≠ 0 then r
            else
              let t := readDataLoop fuel (addr + n) (remaining - n) r.2.2
              (t.1, r.2.1 ++ t.2.1, t.2.2)

def readData (addr len : Nat) (e : E) : Int × Bytes × E :=
  let r := readDataLoop M nor len addr len e
  if r.1 ≠ 0 then r else (len, r.2)

def programOp (addr : Nat) (data : Bytes) : SpiMemOp := ⟨.program, ADDR_WIDTH, addr, 0, 0, data⟩

def writeData (addr : Nat) (data : Bytes) (e : E) : Int × E :=
  match adjustOpSize M (programOp addr data) with
  | .error ret => (ret, e)
  | .ok n =>
      let nbytes := if data.length < n then data.length else n
      let r := M.execOp (programOp addr (data.take nbytes)) e
      if r.1 ≠ 0 then (r.1, r.2.2) else (nbytes, r.2.2)

def eraseChip (e : E) : Int × E :=
  let r := M.execOp (regOp .chipErase 0 []) e
  if r.1 ≠ 0 then (r.1, r.2.2) else (nor.size, r.2.2)

def eraseSector (addr : Nat) (e : E) : Int × E :=
  let r := M.execOp ⟨.erase, ADDR_WIDTH, addr, 0, 0, []⟩ e
  if r.1 ≠ 0 then (r.1, r.2.2) else (nor.erasesize, r.2.2)

/-!
## Erase
-/

def MTD_FAIL_ADDR_UNKNOWN : Int := -1

inductive EraseState where
  | pending | erasing | done | failed
  deriving DecidableEq

structure EraseInfo where
  addr : Nat
  len : Nat
  failAddr : Int
  state : EraseState

structure EraseEnd where
  ret : Int
  addr : Nat
  addrKnown : Bool

/-- The loop of `spi_nor_erase` on `len` bytes from `addr` on.  The variable `ret` of the
function is not set before it. -/
def eraseLoop (maxSize : Nat) : Nat -> Int -> Nat -> Nat -> Driver E -> EraseEnd × Driver E
  | 0, ret, addr, _, s => (⟨ret, addr, false⟩, s)
  | fuel + 1, ret, addr, len, s =>
      if len = 0 then (⟨ret, addr, false⟩, s)
      else
        let c := M.ctrlc s.dev
        if c.1 = true then (⟨-EINTR, addr, false⟩, { s with dev := c.2 })
        else
          let bar := writeBar M nor addr { s with dev := c.2 }
          if bar.1 < 0 then (⟨bar.1, addr, true⟩, bar.2)
          else
            let w := writeEnable M bar.2.dev
            if w.1 < 0 then (⟨w.1, addr, true⟩, { bar.2 with dev := w.2 })
            else
              let r :=
                if len = nor.size ∧ nor.noOpChipErase = false then eraseChip M nor w.2
                else eraseSector M nor addr w.2
              if r.1 < 0 then (⟨r.1, addr, true⟩, { bar.2 with dev := r.2 })
              else
                let ready :=
                  if maxSize = nor.size ∧ nor.noOpChipErase = false then
                    eraseChipWaitTillReady M nor nor.size r.2
                  else waitTillReady M nor r.2
                if ready.1 ≠ 0 then
                  (⟨ready.1, u32 (addr + r.1.toNat), true⟩, { bar.2 with dev := ready.2 })
                else
                  eraseLoop maxSize fuel ready.1 (u32 (addr + r.1.toNat))
                    (len - r.1.toNat) { bar.2 with dev := ready.2 }

def EraseInfo.finish (instr : EraseInfo) (ret : Int) (addr : Nat) (addrKnown : Bool) :
    EraseInfo :=
  if ret ≠ 0 then
    { instr with
      failAddr := if addrKnown = true then addr else MTD_FAIL_ADDR_UNKNOWN
      state := .failed }
  else { instr with state := .done }

/-- `spi_nor_erase`.  The argument `ret` is what the local variable of that name holds at its
declaration. -/
def spiNorErase (ret : Int) (instr : EraseInfo) (s : Driver E) : Int × EraseInfo × Driver E :=
  if instr.len % nor.erasesize ≠ 0 then (-EINVAL, instr.finish (-EINVAL) 0 false, s)
  else
    let len := u32 instr.len
    let r := eraseLoop M nor len len ret (u32 instr.addr) len s
    let c := cleanBar M r.2
    let ret := if r.1.ret = 0 then c.1 else r.1.ret
    let d := writeDisable M c.2.dev
    let ret := if ret = 0 then d.1 else ret
    (ret, { instr with state := .erasing }.finish ret r.1.addr r.1.addrKnown,
      { c.2 with dev := d.2 })

/-!
## Read
-/

/-- What is left of the bank of `src`, in the arithmetic of `u32`. -/
def remBankLen (src : Nat) : Nat :=
  let bank := u32 src / SZ_16M
  sub32 (u32 (SZ_16M * (bank + 1))) src

/-- The loop of `spi_nor_read`.  The code is an error when the function returns from inside the
loop. -/
def readLoop : Nat -> Nat -> Nat -> Driver E -> Except Int Int × Bytes × Driver E
  | 0, _, _, s => (.ok 0, [], s)
  | fuel + 1, src, len, s =>
      if len = 0 then (.ok 0, [], s)
      else
        let bar := writeBar M nor src s
        if bar.1 < 0 then (.error bar.1, [], bar.2)
        else
          let readLen := if len < remBankLen src then len else remBankLen src
          if readLen = 0 then (.error (- EIO), [], bar.2)
          else
            let r := readData M nor src readLen bar.2.dev
            let s := { bar.2 with dev := r.2.2 }
            if r.1 = 0 then (.ok (- EIO), r.2.1, s)
            else if r.1 < 0 then (.ok r.1, r.2.1, s)
            else
              let t := readLoop fuel (src + r.1.toNat) (len - r.1.toNat) s
              (t.1, r.2.1 ++ t.2.1, t.2.2)

/-- `spi_nor_read`: the code, and what is at the front of the buffer. -/
def spiNorRead (src len : Nat) (s : Driver E) : Int × Bytes × Driver E :=
  let r := readLoop M nor len src len s
  match r.1 with
  | .error ret => (ret, r.2)
  | .ok _ =>
      let c := cleanBar M r.2.2
      (c.1, r.2.1, c.2)

/-!
## Write
-/

def isPowerOf2 (n : Nat) : Bool := n != 0 && n &&& (n - 1) == 0

def pageOffset (addr : Nat) : Nat :=
  if isPowerOf2 nor.pageSize = true then addr &&& (nor.pageSize - 1) else addr % nor.pageSize

/-- The loop of `spi_nor_write` on the data from offset `i` on.  The code is an error when the
function returns from inside the loop; the number counts the bytes written. -/
def writeLoop : Nat -> Nat -> Bytes -> Driver E -> Except Int Int × Nat × Driver E
  | 0, _, _, s => (.ok 0, 0, s)
  | fuel + 1, addr, data, s =>
      if data = [] then (.ok 0, 0, s)
      else
        let bar := writeBar M nor addr s
        if bar.1 < 0 then (.error bar.1, 0, bar.2)
        else
          let pageRemain := min (nor.pageSize - pageOffset nor addr) data.length
          let w := writeEnable M bar.2.dev
          let r := writeData M (u32 addr) (data.take pageRemain) w.2
          if r.1 < 0 then (.ok r.1, 0, { bar.2 with dev := r.2 })
          else
            let ready := waitTillReady M nor r.2
            let s := { bar.2 with dev := ready.2 }
            if ready.1 ≠ 0 then (.ok ready.1, 0, s)
            else
              let t := writeLoop fuel (addr + r.1.toNat) (data.drop r.1.toNat) s
              (t.1, r.1.toNat + t.2.1, t.2.2)

/-- `spi_nor_write`: the code, and the number of bytes that it counts as written. -/
def spiNorWrite (dst : Nat) (data : Bytes) (s : Driver E) : Int × Nat × Driver E :=
  if data = [] then (0, 0, s)
  else
    let r := writeLoop M nor data.length dst data s
    match r.1 with
    | .error ret => (ret, r.2)
    | .ok _ =>
        let c := cleanBar M r.2.2
        (c.1, r.2.1, c.2)

/-!
## The operations of the flash class
-/

def spiFlashStdRead (offset len : Nat) (s : Driver E) : Int × Bytes × Driver E :=
  spiNorRead M nor offset len s

def spiFlashStdWrite (offset : Nat) (data : Bytes) (s : Driver E) : Int × Driver E :=
  let r := spiNorWrite M nor offset data s
  (r.1, r.2.2)

def spiFlashStdErase (ret : Int) (offset len : Nat) (s : Driver E) : Int × Driver E :=
  if nor.erasesize = 0 ∨ offset % nor.erasesize ≠ 0 ∨ len % nor.erasesize ≠ 0 then
    (-EINVAL, s)
  else
    let r := spiNorErase M nor ret ⟨offset, len, 0, .pending⟩ s
    (r.1, r.2.2)

end SpiNor
end UBoot
end Hlk7621
