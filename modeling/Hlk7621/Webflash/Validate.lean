import Hlk7621.UBoot.Image
import Hlk7621.Webflash.Types

/-!
# Upload validation

The classification of an uploaded image, as computations that read the RAM at
the load address.  `Scan` records every range read, so that the ranges over
which the image checks compute their CRCs are part of the model.
-/

namespace Hlk7621
namespace Webflash

/-!
## Metadata search
-/

/-- `webflash_memmem`: the text from the first occurrence of the needle on. -/
def memmem (needle : Bytes) : Bytes -> Option Bytes
  | [] => none
  | b :: rest =>
      if needle ≠ [] ∧ needle.isPrefixOf (b :: rest) then some (b :: rest)
      else memmem needle rest

/-- The raw characters of a JSON string and the text from its closing quote
on. -/
def jsonString : Bytes -> Bytes × Bytes
  | [] => ([], [])
  | 34 :: rest => ([], 34 :: rest)
  | 92 :: c :: rest =>
      let r := jsonString rest
      (92 :: c :: r.1, r.2)
  | c :: rest =>
      let r := jsonString rest
      (c :: r.1, r.2)

def jsonElements (value : Bytes) : Nat -> Bytes -> Bool
  | 0, _ => false
  | fuel + 1, p =>
      match p.dropWhile fun b => b ≠ 34 ∧ b ≠ 93 with
      | 34 :: start =>
          match jsonString start with
          | (_, []) => false
          | (raw, _ :: rest) => raw == value || jsonElements value fuel rest
      | _ => false

def jsonArrayHas (json key value : Bytes) : Bool :=
  match memmem key json with
  | none => false
  | some p =>
      match (p.drop key.length).dropWhile fun b => b ≠ 91 with
      | [] => false
      | _ :: rest => jsonElements value rest.length rest

/-!
## The fwtool trailer
-/

def scanBe32 (addr : Nat) : Scan Nat := do
  let bs <- Scan.bytes addr 4
  pure (beNat bs)

def scanLe16 (addr : Nat) : Scan Nat := do
  let bs <- Scan.bytes addr 2
  pure (leNat bs)

def scanLe32 (addr : Nat) : Scan Nat := do
  let bs <- Scan.bytes addr 4
  pure (leNat bs)

def checkFwtoolInfo (B : Board) (data dataLen : Nat) : Scan (Int × Bytes) :=
  if dataLen ≤ 8 then pure (-EINVAL, str "OpenWrt metadata is empty")
  else do
    let version <- Scan.bytes data 4
    if leNat version ≠ 0 then
      pure (-EPROTONOSUPPORT, str "bad metadata version")
    else do
      let json <- Scan.bytes (data + 8) (dataLen - 8)
      if !jsonArrayHas json (str "\"supported_devices\"") B.deviceId &&
          !jsonArrayHas json (str "\"new_supported_devices\"") B.deviceId then
        pure (-ENODEV, snprintf 96 (str "image does not support " ++ B.deviceId))
      else pure (0, [])

/-- The loop of `webflash_validate_fwtool`, from the last record backwards. -/
def validateFwtoolLoop (B : Board) (image : Nat) :
    Nat -> Nat -> Scan (Int × Bytes)
  | 0, _ => pure (-ENOENT, str "metadata not found")
  | depth + 1, cursor =>
      if cursor < 16 then pure (-ENOENT, str "metadata not found")
      else do
        let trailer := image + (cursor - 16)
        let magic <- scanBe32 trailer
        if magic ≠ FWTOOL_MAGIC then
          pure (-ENOENT, str "metadata not found")
        else do
          let recordSize <- scanBe32 (trailer + 12)
          if recordSize < 16 ∨ recordSize > cursor then
            pure (-EINVAL, str "bad metadata size")
          else do
            let front <- Scan.bytes image (cursor - 16)
            let stored <- scanBe32 (trailer + 4)
            if (UBoot.crc32NoComp 0xffffffff#32 image front).toNat ≠ stored then
              pure (-EBADMSG, str "metadata CRC mismatch")
            else do
              let type <- Scan.bytes (trailer + 8) 1
              if leNat type = FWTOOL_INFO then
                checkFwtoolInfo B (image + (cursor - recordSize))
                  (recordSize - 16)
              else validateFwtoolLoop B image depth (cursor - recordSize)

def validateFwtool (B : Board) (image imageSize : Nat) : Scan (Int × Bytes) :=
  validateFwtoolLoop B image 3 imageSize

/-!
## Per-target validation

A `Verdict` holds what the functions below assign: the return value, the image
class where one is assigned, and the detail text.
-/

structure Verdict where
  ret : Int
  kind : Option ImageKind := none
  detail : Bytes := []

def detail (text : Bytes) : Bytes := snprintf 128 text

/-- Magic number and header CRC; the size test comes first. -/
def headerValid (data size : Nat) : Scan Bool :=
  if size < UBoot.imageGetHeaderSize then pure false
  else do
    let magic <- UBoot.imageCheckMagic data
    if !magic then pure false
    else UBoot.imageCheckHcrc data

def kernelHeader (data : Nat) : Scan Bool := do
  let os <- UBoot.imageCheckOs data UBoot.IH_OS_LINUX
  if !os then pure false
  else do
    let arch <- UBoot.imageCheckArch data UBoot.IH_ARCH_MIPS
    if !arch then pure false
    else UBoot.imageCheckType data UBoot.IH_TYPE_KERNEL

def foreign (text : String) : Verdict where
  ret := 0
  kind := some .foreign
  detail := detail (str text)

def fwtoolVerdict (B : Board) (r : Int × Bytes) : Verdict :=
  if r.1 = 0 then
    { ret := 0, kind := some .openwrt,
      detail := detail (str "OpenWrt image verified for " ++ B.deviceId) }
  else if r.1 = -ENOENT then
    foreign "not an OpenWrt image: no fwtool metadata"
  else if r.1 = -ENODEV then
    { ret := 0, kind := some .openwrtOther,
      detail := detail
        (str "OpenWrt image for another device, not " ++ B.deviceId) }
  else
    { ret := 0, kind := some .openwrtOther,
      detail := detail (str "OpenWrt metadata rejected: " ++ r.2) }

def validateFirmware (B : Board) (data size : Nat) : Scan Verdict := do
  let valid <- headerValid data size
  if !valid then
    pure (foreign "not a uImage: no valid legacy image header")
  else do
    let imageSize <- UBoot.imageGetImageSize data
    if imageSize > size then pure (foreign "not a complete uImage")
    else do
      let kernel <- kernelHeader data
      if !kernel then pure (foreign "not a MIPS Linux kernel uImage")
      else do
        let dcrc <- UBoot.imageCheckDcrc B.watchdog data
        if !dcrc then pure (foreign "uImage data CRC mismatch")
        else do
          let r <- validateFwtool B data size
          pure (fwtoolVerdict B r)

def bufferUniformLoop (data : Nat) (value : UInt8) :
    Nat -> Nat -> Scan Bool
  | 0, _ => pure true
  | n + 1, i => do
      let b <- Scan.bytes (data + i) 1
      if b ≠ [value] then pure false
      else bufferUniformLoop data value n (i + 1)

def bufferUniform (data size : Nat) : Scan Bool := do
  let b <- Scan.bytes data 1
  bufferUniformLoop data (b.headD 0) (size - 1) 1

def validateEeprom (data size : Nat) : Scan Verdict := do
  let chipId <- scanLe16 data
  let pciId <- scanLe16 (data + 0x0a)
  if size ≠ EEPROM_SIZE ∨ (chipId ≠ 0x7612 ∧ chipId ≠ 0x7662 ∧
      pciId ≠ 0x7612 ∧ pciId ≠ 0x7662) then
    pure { ret := -EINVAL
           detail := detail (str "bad EEPROM: chip=" ++ fmtHex 4 chipId ++
             str " pci=" ++ fmtHex 4 pciId) }
  else do
    let uniform <- bufferUniform data size
    if uniform then
      pure { ret := -EINVAL, detail := detail (str "EEPROM is uniform") }
    else pure { ret := 0, detail := detail (str "MT7612 EEPROM verified") }

/-- The RAM target checks the payload CRC without comparing the size in the
header with the size of the upload. -/
def validateRam (B : Board) (data size : Nat) : Scan Verdict := do
  let valid <- headerValid data size
  let kernel <- if valid then kernelHeader data else pure false
  if !kernel then
    pure { ret := -ENOEXEC, detail := detail (str "not a MIPS Linux uImage") }
  else do
    let dcrc <- UBoot.imageCheckDcrc B.watchdog data
    if !dcrc then
      pure { ret := -EBADMSG, detail := detail (str "uImage data CRC mismatch") }
    else pure { ret := 0, detail := detail (str "RAM boot image verified") }

/-- The `protected_error` exit. -/
def protectedError (part : Partition) : Verdict where
  ret := -EINVAL
  detail := detail (str "raw " ++ part.name ++ str " invalid")

def validateEnv (B : Board) (part : Partition) (data size : Nat) :
    Scan Verdict :=
  if size < B.configEnvSize then pure (protectedError part)
  else do
    let stored <- scanLe32 data
    let body <- Scan.bytes (data + 4) (B.configEnvSize - 4)
    if stored ≠ (UBoot.crc32 0#32 (data + 4) body).toNat then
      pure { ret := -EBADMSG
             detail := detail (str "environment CRC mismatch") }
    else pure { ret := 0, detail := detail (str "env partition verified") }

def validateRaw (part : Partition) (data size : Nat) : Scan Verdict := do
  let uniform <- bufferUniform data size
  if uniform then pure (protectedError part)
  else do
    let known <-
      if !part.has PART_UBOOT then pure true
      else if size < 0x44 then pure false
      else do
        let tag <- Scan.bytes (data + 0x40) 4
        pure (tag == str "7621")
    if !known then
      pure { ret := -ENOEXEC, detail := detail (str "not MT7621 U-Boot") }
    else
      pure { ret := 0
             detail := detail (str "raw " ++ part.name ++ str " accepted") }

def validateTarget (B : Board) (part : Partition) (data size : Nat) :
    Scan Verdict :=
  if part.has PART_EEPROM then validateEeprom data size
  else if part.has PART_RAM then validateRam B data size
  else if part.has PART_FIRMWARE then validateFirmware B data size
  else if part.has PART_ENV then validateEnv B part data size
  else validateRaw part data size

/-- All reads of `webflash_validate_upload`: the CRC of the upload, then the
checks of its target. -/
def validateScan (B : Board) (part : Partition) (data size : Nat) :
    Scan (BitVec 32 × Verdict) := do
  let crc <- UBoot.crc32Wd B.watchdog 0#32 data size (64 * 1024)
  let verdict <- validateTarget B part data size
  pure (crc, verdict)

end Webflash
end Hlk7621
