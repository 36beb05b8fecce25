import Hlk7621.UBoot.Crc32

/-!
# Data model of the recovery server

Types of `cmd/lwip/webflash.c`: the flash layout, the upload targets, the
flash job, the server context, and the world around it.  The world holds the
context, the RAM, and the state `E` of everything the server calls but does not
implement (the SPI flash driver, the TCP stack, the environment, the memory
map).  `E` is arbitrary, and a `Platform` says how it answers each call, so
that a result proved for every platform holds for every behaviour of these
parts.

Two records of what happened are kept beside the state and never read by the
program: `net` lists the calls made to the TCP stack and `log` the milestones of
uploads and flash jobs, newest first.
-/

namespace Hlk7621
namespace Webflash

abbrev Pcb := Nat

/-- `err_t` of lwIP. -/
inductive Err where
  | ok | mem | buf | timeout | rte | inprogress | val | wouldblock | use
  | already | isconn | conn | netif | abrt | rst | clsd | arg
  deriving DecidableEq, Repr

def EIO : Int := 5
def E2BIG : Int := 7
def ENOENT : Int := 2
def EACCES : Int := 13
def EBUSY : Int := 16
def ENODEV : Int := 19
def EINVAL : Int := 22
def EFBIG : Int := 27
def ENOSPC : Int := 28
def ERANGE : Int := 34
def ENOEXEC : Int := 8
def EBADMSG : Int := 74
def EOVERFLOW : Int := 75
def EPROTONOSUPPORT : Int := 93
def ENOTCONN : Int := 107

def HEADER_SIZE : Nat := 1536
def REPLY_SIZE : Nat := 1536
def BODY_SIZE : Nat := 512
def IO_SIZE : Nat := 64 * 1024
def STREAM_CHUNK : Nat := 1024
def IDLE_TIMEOUT_MS : Nat := 30000
def REBOOT_DELAY_MS : Nat := 5000
def BOOT_DELAY_MS : Nat := 1500
def FWTOOL_MAGIC : Nat := 0x46577830
def FWTOOL_INFO : Nat := 1
def SQUASHFS_MAGIC : Nat := 0x73717368
def SQUASHFS_SB_SIZE : Nat := 96
def EEPROM_OFFSET : Nat := 0x8000
def EEPROM_SIZE : Nat := 0x200

def PART_PROTECTED : Nat := 1
def PART_FIRMWARE : Nat := 2
def PART_ENV : Nat := 4
def PART_FACTORY : Nat := 8
def PART_UBOOT : Nat := 16
def PART_EEPROM : Nat := 32
def PART_RAM : Nat := 64

inductive RxState where
  | headers | upload | body | replied
  deriving DecidableEq, Repr

/-- `enum webflash_action`. -/
inductive BodyAction where
  | none | envSave
  deriving DecidableEq, Repr

inductive JobMode where
  | none | flash | eraseSettings
  deriving DecidableEq, Repr

inductive JobPhase where
  | idle | erasing | writing | verifying | done | error
  deriving DecidableEq, Repr

inductive ImageKind where
  | openwrt | openwrtOther | foreign
  deriving DecidableEq, Repr

structure Partition where
  name : Bytes
  filename : Bytes
  offset : Nat
  size : Nat
  flags : Nat
  deriving DecidableEq, Repr

/-- The test `part->flags & flag`. -/
def Partition.has (part : Partition) (flag : Nat) : Bool := part.flags &&& flag != 0

/-!
## The board

Offsets and sizes are `CONFIG_WEBFLASH_*` constants.  An `Extent` is a pair of
them whose end is a 32-bit flash address, so the sums that
`webflash_init_flash` forms from the constants are exact.
-/

structure Extent where
  offset : Nat
  size : Nat
  fits : offset + size < 2 ^ 32

structure Board where
  uboot : Extent
  env : Extent
  factory : Extent
  firmware : Extent
  /-- `CONFIG_ENV_SIZE`; `env_t` starts with a 32-bit CRC. -/
  configEnvSize : Nat
  configEnvSize_ge : 4 ≤ configEnvSize
  deviceId : Bytes
  productName : Bytes
  versionString : Bytes
  indexHtml : Bytes
  /-- `CONFIG_WATCHDOG`. -/
  watchdog : Bool
  ramBase : Nat
  ramSize : Nat
  flashSize : Nat
  /-- `spi_nor_scan` takes the size from its table of parts or as a power of
  two that fits the 32-bit `size` field. -/
  flashSize_le : flashSize ≤ 2 ^ 31
  sectorSize : Nat

namespace Board

variable (B : Board)

def ubootPartition : Partition where
  name := str "uboot"
  filename := str "hlk-7621a-uboot.bin"
  offset := B.uboot.offset
  size := B.uboot.size
  flags := PART_PROTECTED ||| PART_UBOOT

def envPartition : Partition where
  name := str "environment"
  filename := str "hlk-7621a-environment.bin"
  offset := B.env.offset
  size := B.env.size
  flags := PART_PROTECTED ||| PART_ENV

def factoryPartition : Partition where
  name := str "factory"
  filename := str "hlk-7621a-factory.bin"
  offset := B.factory.offset
  size := B.factory.size
  flags := PART_PROTECTED ||| PART_FACTORY

def firmwarePartition : Partition where
  name := str "firmware"
  filename := str "hlk-7621a-firmware.bin"
  offset := B.firmware.offset
  size := B.firmware.size
  flags := PART_FIRMWARE

def eepromPartition : Partition where
  name := str "eeprom"
  filename := []
  offset := u32 (B.factory.offset + EEPROM_OFFSET)
  size := EEPROM_SIZE
  flags := PART_PROTECTED ||| PART_EEPROM

def ramPartition : Partition where
  name := str "ram"
  filename := []
  offset := 0
  size := B.firmware.size
  flags := PART_RAM

/-- `webflash_partitions[]`. -/
def partitions : List Partition :=
  [B.ubootPartition, B.envPartition, B.factoryPartition, B.firmwarePartition]

def partitionFind (name : Bytes) : Option Partition :=
  if name = str "eeprom" then some B.eepromPartition
  else if name = str "ram" then some B.ramPartition
  else B.partitions.find? fun part => part.name = name

/-- The checks of `webflash_init_flash` on the probed flash. -/
def initFlash : Int :=
  if B.sectorSize = 0 ∨ B.firmware.offset + B.firmware.size > B.flashSize then
    -ENOSPC
  else if B.uboot.offset + B.uboot.size > B.env.offset ∨
      B.env.offset + B.env.size > B.factory.offset ∨
      B.factory.offset + B.factory.size > B.firmware.offset ∨
      B.env.size < B.configEnvSize ∨
      B.uboot.offset % B.sectorSize ≠ 0 ∨ B.uboot.size % B.sectorSize ≠ 0 ∨
      B.env.offset % B.sectorSize ≠ 0 ∨ B.env.size % B.sectorSize ≠ 0 ∨
      B.factory.offset % B.sectorSize ≠ 0 ∨
      B.factory.size % B.sectorSize ≠ 0 ∨
      B.firmware.offset % B.sectorSize ≠ 0 ∨
      B.firmware.size % B.sectorSize ≠ 0 then
    -EINVAL
  else 0

end Board

/-!
## Context
-/

/-- `struct webflash_job`; the source buffer is the copy it points to. -/
structure Job where
  mode : JobMode := .none
  phase : JobPhase := .idle
  part : Option Partition := none
  sourceAddr : Nat := 0
  sourceBuffer : Option Bytes := none
  eraseOffset : Nat := 0
  eraseSize : Nat := 0
  writeSize : Nat := 0
  processed : Nat := 0
  sourceCrc : BitVec 32 := 0#32
  verifyCrc : BitVec 32 := 0#32
  error : Bytes := []
  deriving DecidableEq, Repr

/-- `struct webflash_ctx`.  The header and body buffers are the bytes received
so far, without the terminating NUL, and `streamMemory` is the text that
`stream_memory` points to. -/
structure Ctx where
  client : Option Pcb := none
  uploadPart : Option Partition := none
  job : Job := {}
  loadAddr : Nat := 0
  uploadSize : Nat := 0
  contentLength : Nat := 0
  lastActivity : Nat := 0
  completedAddr : Nat := 0
  completedSize : Nat := 0
  replyPending : Nat := 0
  rebootStart : Nat := 0
  uploadCrc : BitVec 32 := 0#32
  imageKind : ImageKind := .openwrt
  streamOffset : Nat := 0
  streamRemaining : Nat := 0
  streamMemory : Bytes := []
  rxState : RxState := .headers
  action : BodyAction := .none
  uploadValid : Bool := false
  clientAborted : Bool := false
  outputPending : Bool := false
  closePending : Bool := false
  streamActive : Bool := false
  streamFromFlash : Bool := false
  rebootPending : Bool := false
  keepConfig : Bool := false
  bootPending : Bool := false
  bootAddr : Nat := 0
  bootStart : Nat := 0
  header : Bytes := []
  reply : Bytes := []
  body : Bytes := []
  factoryBuf : Bytes := []
  uploadDetail : Bytes := []
  deriving DecidableEq, Repr

/-!
## World
-/

inductive NetCall where
  | accepted (pcb : Pcb)
  | errored (pcb : Pcb)
  | write (pcb : Pcb) (data : Bytes) (err : Err)
  | output (pcb : Pcb) (err : Err)
  | close (pcb : Pcb) (err : Err)
  | abort (pcb : Pcb)
  deriving DecidableEq, Repr

/-- Milestones of uploads and jobs, and the accesses jobs make to the flash. -/
inductive Action where
  | uploadStarted (src : Pcb) (header : Bytes) (part : Partition) (size : Nat)
  | stored (src : Pcb) (offset : Nat) (data : Bytes)
  | validated (part : Partition) (body : Bytes)
  | factoryRead (data : Bytes)
  | flashStarted (part : Partition) (phrase : Bytes)
  | erase (mode : JobMode) (offset len : Nat) (ret : Int)
  | write (mode : JobMode) (offset : Nat) (data : Bytes) (ret : Int)
  | verify (mode : JobMode) (offset : Nat) (data : Bytes) (ret : Int)
  | envSave (ret : Int)
  | bootm (addr : Nat)
  | resetCpu
  deriving DecidableEq, Repr

/-- Reasons why the main loop runs no further: the CPU was reset, the RAM image
took over, or a NULL pointer was followed. -/
inductive Halt where
  | reset | booted | fault
  deriving DecidableEq, Repr

structure World (E : Type) where
  ctx : Ctx
  ram : Nat -> UInt8
  ext : E
  net : List NetCall := []
  log : List Action := []
  halted : Option Halt := none

/-- Answers of the code around the server.  A read that returns zero has filled
the buffer with the returned contents. -/
structure Platform (E : Type) extends Board where
  spiFlashErase : Nat -> Nat -> E -> Int × E
  spiFlashWrite : Nat -> Bytes -> E -> Int × E
  spiFlashRead : Nat -> Nat -> E -> Int × (Nat -> UInt8) × E
  tcpSndbuf : Pcb -> E -> UInt16
  tcpWrite : Pcb -> Bytes -> E -> Err × E
  tcpOutput : Pcb -> E -> Err × E
  tcpClose : Pcb -> E -> Err × E
  tcpAbort : Pcb -> E -> E
  envGet : Bytes -> E -> Option Bytes
  envSet : Bytes -> Option Bytes -> E -> Int × E
  envSetHex : Bytes -> Nat -> E -> Int × E
  envSetDefault : E -> E
  envSave : E -> Int × E
  lmbReadCheck : Nat -> Nat -> E -> Int × E
  /-- `bootm`: none when the image takes over, else memory and state after the
  command has failed. -/
  bootm : Nat -> (Nat -> UInt8) -> E -> Option ((Nat -> UInt8) × E)

/-- The callback invocation under way: the connection it was invoked for and
the reading of `get_timer(0)`. -/
structure Call where
  pcb : Pcb
  now : Nat

end Webflash
end Hlk7621
