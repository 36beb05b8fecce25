import Hlk7621.UBoot.Crc32

/-!
# Legacy image headers

The checks of `include/image.h` and `boot/image.c` that the recovery server
applies to an uploaded image, as computations that read the memory at the
address of the header.  All multi-byte fields are big-endian.
-/

namespace Hlk7621
namespace UBoot

def IH_MAGIC : Nat := 0x27051956
def IH_OS_LINUX : Nat := 5
def IH_ARCH_MIPS : Nat := 5
def IH_TYPE_KERNEL : Nat := 2
def CHUNKSZ_CRC32 : Nat := 64 * 1024

def imageGetHeaderSize : Nat := 64

/-- A 32-bit field at byte `field` of the header. -/
def imageGetL (hdr field : Nat) : Scan Nat := do
  let bs <- Scan.bytes (hdr + field) 4
  pure (beNat bs)

def imageGetB (hdr field : Nat) : Scan Nat := do
  let bs <- Scan.bytes (hdr + field) 1
  pure (beNat bs)

def imageGetMagic (hdr : Nat) : Scan Nat := imageGetL hdr 0
def imageGetHcrc (hdr : Nat) : Scan Nat := imageGetL hdr 4
def imageGetSize (hdr : Nat) : Scan Nat := imageGetL hdr 12
def imageGetDcrc (hdr : Nat) : Scan Nat := imageGetL hdr 24
def imageGetOs (hdr : Nat) : Scan Nat := imageGetB hdr 28
def imageGetArch (hdr : Nat) : Scan Nat := imageGetB hdr 29
def imageGetType (hdr : Nat) : Scan Nat := imageGetB hdr 30

def imageGetData (hdr : Nat) : Nat := u32 (hdr + imageGetHeaderSize)

/-- `image_get_image_size`: the sum is a 32-bit one. -/
def imageGetImageSize (hdr : Nat) : Scan Nat := do
  let size <- imageGetSize hdr
  pure (u32 (size + imageGetHeaderSize))

def imageCheckMagic (hdr : Nat) : Scan Bool := do
  let magic <- imageGetMagic hdr
  pure (magic == IH_MAGIC)

/-- The header is copied and its CRC field blanked before the CRC is taken. -/
def imageCheckHcrc (hdr : Nat) : Scan Bool := do
  let header <- Scan.bytes hdr imageGetHeaderSize
  let blanked := header.take 4 ++ [0, 0, 0, 0] ++ header.drop 8
  let stored <- imageGetHcrc hdr
  pure ((crc32 0#32 0 blanked).toNat == stored)

def imageCheckDcrc (watchdog : Bool) (hdr : Nat) : Scan Bool := do
  let len <- imageGetSize hdr
  let dcrc <- crc32Wd watchdog 0#32 (imageGetData hdr) len CHUNKSZ_CRC32
  let stored <- imageGetDcrc hdr
  pure (dcrc.toNat == stored)

def imageCheckOs (hdr os : Nat) : Scan Bool := do
  let value <- imageGetOs hdr
  pure (value == os)

def imageCheckArch (hdr arch : Nat) : Scan Bool := do
  let value <- imageGetArch hdr
  pure (value == arch)

def imageCheckType (hdr type : Nat) : Scan Bool := do
  let value <- imageGetType hdr
  pure (value == type)

end UBoot
end Hlk7621
