import Hlk7621.Webflash.Job

/-!
# Factory reset

The search for the root filesystem in the firmware partition, and the job that
erases everything behind it.
-/

namespace Hlk7621
namespace Webflash

/-!
## Superblock test
-/

/-- The tests on the 96 bytes `sb` at flash address `p`: the start of the
overlay, when they are an acceptable SquashFS 4.0 superblock.  The end of the
filesystem is a 64-bit sum that is narrowed to 32 bits. -/
def overlayCandidate (sectorSize stop p : Nat) (sb : Bytes) : Option Nat :=
  let bytesUsed := leNat ((sb.drop 40).take 8)
  let rootfsEnd := (p + bytesUsed) % 2 ^ 64
  let candidate := roundup32 (u32 rootfsEnd) sectorSize
  if leNat (sb.take 4) ≠ SQUASHFS_MAGIC then none
  else if leNat ((sb.drop 28).take 2) ≠ 4 ∨ leNat ((sb.drop 30).take 2) ≠ 0 then
    none
  else if bytesUsed < SQUASHFS_SB_SIZE then none
  else if rootfsEnd ≥ stop then none
  else if candidate < stop then some candidate
  else none

@[irreducible] def windowCount (readLen : Nat) : Nat :=
  readLen + 1 - SQUASHFS_SB_SIZE

/-- The inner loop over the positions `i` of a window read from address `pos`:
the address of the superblock and the overlay start. -/
def scanWindow (sectorSize stop pos : Nat) (buf : Nat -> UInt8) :
    Nat -> Nat -> Option (Nat × Nat)
  | 0, _ => none
  | n + 1, i =>
      match overlayCandidate sectorSize stop (pos + i)
          (window buf i SQUASHFS_SB_SIZE) with
      | some candidate => some (pos + i, candidate)
      | none => scanWindow sectorSize stop pos buf n (i + 1)

variable {E : Type} (P : Platform E)

def overlayStop : Nat := u32 (P.firmware.offset + P.firmware.size)

/-- The outer loop of `webflash_find_overlay`.  Windows overlap by one byte
less than a superblock. -/
def findOverlayLoop : Nat -> Nat -> E -> Except Int (Nat × Nat) × E
  | 0, _, e => (.error (-ENOENT), e)
  | fuel + 1, pos, e =>
      if u32 (pos + SQUASHFS_SB_SIZE) ≤ overlayStop P then
        let readLen := min IO_SIZE (sub32 (overlayStop P) pos)
        let r := P.spiFlashRead pos readLen e
        if r.1 ≠ 0 then (.error r.1, r.2.2)
        else
          match scanWindow P.sectorSize (overlayStop P) pos r.2.1
              (windowCount readLen) 0 with
          | some found => (.ok found, r.2.2)
          | none =>
              findOverlayLoop fuel
                (u32 (pos + (IO_SIZE - (SQUASHFS_SB_SIZE - 1)))) r.2.2
      else (.error (-ENOENT), e)

/-- `webflash_find_overlay`, with the address of the superblock it selected. -/
def findOverlay (e : E) : Except Int (Nat × Nat) × E :=
  findOverlayLoop P (P.firmware.size + 1) P.firmware.offset e

/-!
## Starting the reset
-/

def resetJob (overlay : Nat) : Job where
  mode := .eraseSettings
  phase := .erasing
  part := some P.firmwarePartition
  eraseOffset := overlay
  eraseSize := sub32 (u32 (P.firmware.offset + P.firmware.size)) overlay

def factoryReset (w : World E) : Int × World E :=
  if operationBlocked w.ctx then
    (-EBUSY, error P "409 Conflict" "device busy" w)
  else
    let c := checkConfirmation P (str "ERASE-SETTINGS") w
    if c.1 ≠ 0 then (-EACCES, c.2)
    else
      let r := findOverlay P c.2.ext
      let w1 : World E := { c.2 with ext := r.2 }
      match r.1 with
      | .error ret =>
          (ret, error P "422 Unprocessable Content" "rootfs_data not found" w1)
      | .ok (_, overlay) =>
          replyText P (str "202 Accepted")
            (str "\x7b\"ok\":true,\"phase\":\"erasing\",\"offset\":\"0x" ++
              fmtHex 8 overlay ++ str "\"\x7d")
            (setJob (resetJob P overlay) w1)

end Webflash
end Hlk7621
