import Hlk7621.Webflash.Server

/-!
# A sound NOR flash

`SoundFlash` is what a faultless SPI NOR flash promises: aligned erases set
bytes to `0xFF`, a write to erased bytes stores the data, and a read returns the
contents.  The rest of the platform may behave in any way.

`norPlatform` is such a device on a quiet network, `hlk7621a` the board it is
built for, with the layout of the shipped configuration.
-/

namespace Hlk7621
namespace Webflash

def erased (mem : Nat -> UInt8) (off len : Nat) (a : Nat) : UInt8 :=
  if off ≤ a ∧ a < off + len then 0xff else mem a

variable {E : Type}

structure SoundRead (P : Platform E) (contents : E -> Nat -> UInt8) : Prop where
  read (off len : Nat) (e : E) (hfit : off + len ≤ P.flashSize) :
    (P.spiFlashRead off len e).1 = 0 ∧
      window (P.spiFlashRead off len e).2.1 0 len = window (contents e) off len ∧
      contents (P.spiFlashRead off len e).2.2 = contents e

structure SoundFlash (P : Platform E) (contents : E -> Nat -> UInt8) : Prop
    extends SoundRead P contents where
  erase (off len : Nat) (e : E) (hoff : P.sectorSize ∣ off)
    (hlen : P.sectorSize ∣ len) (hfit : off + len ≤ P.flashSize) :
    (P.spiFlashErase off len e).1 = 0 ∧
      contents (P.spiFlashErase off len e).2 = erased (contents e) off len
  write (off : Nat) (data : Bytes) (e : E) (hfit : off + data.length ≤ P.flashSize)
    (hblank : forall a, off ≤ a -> a < off + data.length -> contents e a = 0xff) :
    (P.spiFlashWrite off data e).1 = 0 ∧
      contents (P.spiFlashWrite off data e).2 = overwrite (contents e) off data

/-!
## The reference device
-/

def hlk7621a : Board where
  uboot := ⟨0, 0x30000, by decide⟩
  env := ⟨0x30000, 0x10000, by decide⟩
  factory := ⟨0x40000, 0x10000, by decide⟩
  firmware := ⟨0x50000, 0x1fb0000, by decide⟩
  configEnvSize := 0x1000
  configEnvSize_ge := by decide
  deviceId := str "hilink,hlk-7621a-evb"
  productName := str "YJRQZ Boot"
  versionString := str "U-Boot 2026.07"
  indexHtml := str "<!doctype html>"
  watchdog := true
  ramBase := 0x80000000
  ramSize := 0x10000000
  flashSize := 0x2000000
  flashSize_le := by decide
  sectorSize := 0x1000

example : hlk7621a.initFlash = 0 := by decide

def norWrite (mem : Nat -> UInt8) (off : Nat) (data : Bytes) (a : Nat) : UInt8 :=
  if off ≤ a ∧ a < off + data.length then mem a &&& data.getD (a - off) 0
  else mem a

def norPlatform (B : Board) : Platform (Nat -> UInt8) where
  toBoard := B
  spiFlashErase off len mem := (0, erased mem off len)
  spiFlashWrite off data mem := (0, norWrite mem off data)
  spiFlashRead off _ mem := (0, fun i => mem (off + i), mem)
  tcpSndbuf _ _ := 2920
  tcpWrite _ _ mem := (.ok, mem)
  tcpOutput _ mem := (.ok, mem)
  tcpClose _ mem := (.ok, mem)
  tcpAbort _ mem := mem
  envGet _ _ := none
  envSet _ _ mem := (0, mem)
  envSetHex _ _ mem := (0, mem)
  envSetDefault mem := mem
  envSave mem := (0, mem)
  lmbReadCheck _ _ mem := (0, mem)
  bootm _ _ _ := none

theorem norWrite_erased {mem : Nat -> UInt8} {off : Nat} {data : Bytes}
    (hblank : forall a, off ≤ a -> a < off + data.length -> mem a = 0xff) :
    norWrite mem off data = overwrite mem off data := by
  funext a
  unfold norWrite overwrite
  by_cases h : off ≤ a ∧ a < off + data.length
  · rw [if_pos h, if_pos h, hblank a h.1 h.2]
    exact UInt8.toBitVec_inj.mp (BitVec.allOnes_and)
  · rw [if_neg h, if_neg h]

theorem soundFlash_norPlatform (B : Board) :
    SoundFlash (norPlatform B) (fun mem => mem) where
  erase _ _ _ _ _ _ := ⟨rfl, rfl⟩
  write _ _ _ _ hblank := ⟨rfl, norWrite_erased hblank⟩
  read off len e _ := by
    refine ⟨rfl, ?_, rfl⟩
    simp [norPlatform, window]

/-!
## Requests
-/

def httpRequest (line : String) (fields : List String) : Bytes :=
  str line ++ str " HTTP/1.1\r\n" ++
    (fields.map fun field => str field ++ str "\r\n").flatten ++ str "\r\n"

/-- A connection that carries one request: it is accepted, the request arrives
in one segment and the reply is acknowledged. -/
def exchange (pcb : Pcb) (request : Bytes) : List (Nat × Event) :=
  [(0, .accept pcb .ok), (0, .recv pcb (some [request]) .ok),
    (0, .sent pcb 65535)]

def foreignFlash : List (Nat × Event) :=
  exchange 1 (httpRequest "POST /api/upload/firmware" ["Content-Length: 4"] ++
      str "kern") ++
    exchange 2 (httpRequest "POST /api/flash"
      ["X-Safeboot-Confirm: FLASH-FOREIGN"])

def be32Bytes (n : Nat) : Bytes :=
  [n / 2 ^ 24, n / 2 ^ 16, n / 2 ^ 8, n].map UInt8.ofNat

def legacyHeader (hcrc size dcrc : Nat) : Bytes :=
  be32Bytes UBoot.IH_MAGIC ++ be32Bytes hcrc ++ be32Bytes 0 ++ be32Bytes size ++
    be32Bytes 0 ++ be32Bytes 0 ++ be32Bytes dcrc ++
    [UBoot.IH_OS_LINUX, UBoot.IH_ARCH_MIPS, UBoot.IH_TYPE_KERNEL, 0].map
      UInt8.ofNat ++ List.replicate 32 0

def legacyImage (payload : Bytes) : Bytes :=
  let dcrc := (UBoot.crc32 0#32 0 payload).toNat
  let hcrc := (UBoot.crc32 0#32 0 (legacyHeader 0 payload.length dcrc)).toNat
  legacyHeader hcrc payload.length dcrc ++ payload

def ramFlash : List (Nat × Event) :=
  exchange 1 (httpRequest "POST /api/upload/ram" ["Content-Length: 68"] ++
      legacyImage (str "kern")) ++
    exchange 2 (httpRequest "POST /api/flash"
      ["X-Safeboot-Confirm: FLASH-FIRMWARE"])

def hlk7621aStart : World (Nat -> UInt8) :=
  initial 0x83000000 (fun _ => 0) (fun _ => 0xff)

end Webflash
end Hlk7621
