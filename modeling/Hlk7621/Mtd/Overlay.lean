import Hlk7621.Mtd.Split
import Hlk7621.Webflash.Reset

/-!
# The overlay in U-Boot and in Linux

Linux follows the image header to the root filesystem; the recovery server takes the
first place in the partition that looks like a superblock.  They agree unless there
is such a place in front of the root filesystem.
-/

namespace Hlk7621
namespace Mtd

open Webflash

/-!
## Rounding
-/

section

variable {x y k a b : Nat}

theorem multiple_unique (ha : y ∣ a) (hb : y ∣ b) (hxa : x ≤ a) (hax : a < x + y) (hxb : x ≤ b)
    (hbx : b < x + y) : a = b := by
  rcases ha with ⟨i, rfl⟩
  rcases hb with ⟨j, rfl⟩
  have hij : i = j := by
    rcases Nat.lt_trichotomy i j with hlt | heq | hgt
    · have := Nat.mul_le_mul_left y hlt
      rw [Nat.mul_succ] at this
      lia
    · exact heq
    · have := Nat.mul_le_mul_left y hgt
      rw [Nat.mul_succ] at this
      lia
  rw [hij]

theorem mtdRoundupToEb_eq (hy : 0 < y) (hx : x + y ≤ 2 ^ 32) :
    mtdRoundupToEb x y = roundup32 x y := by
  rcases roundup32_spec hy hx with ⟨_, hge, hlt, hdvd⟩
  unfold mtdRoundupToEb
  have hmod := Nat.mod_lt x hy
  have hdm := Nat.div_add_mod x y
  rw [Nat.mul_comm] at hdm
  split
  · rename_i hzero
    exact multiple_unique (Nat.dvd_of_mod_eq_zero hzero) hdvd (Nat.le_refl x) (by lia) hge hlt
  · rename_i hne
    have hval : (x / y + 1) * y = x / y * y + y := Nat.succ_mul _ _
    rw [u32_of_lt (by lia)]
    exact multiple_unique (Nat.dvd_mul_left _ _) hdvd (by lia) (by lia) hge hlt

theorem mtdRounddownToEb_of_dvd (h : y ∣ x) : mtdRounddownToEb x y = x := by
  unfold mtdRounddownToEb
  rw [if_pos (Nat.mod_eq_zero_of_dvd h)]

theorem roundup32_shift (hy : 0 < y) (hk : y ∣ k) (hx : k + x + y ≤ 2 ^ 32) :
    roundup32 (k + x) y = k + roundup32 x y := by
  rcases roundup32_spec hy (by lia : k + x + y ≤ 2 ^ 32) with ⟨_, hge, hlt, hdvd⟩
  rcases roundup32_spec hy (by lia : x + y ≤ 2 ^ 32) with ⟨_, hge', hlt', hdvd'⟩
  exact multiple_unique hdvd (Nat.dvd_add hk hdvd') hge hlt (by lia) (by lia)

theorem sub64_of_le (h : b ≤ a) (ha : a < 2 ^ 64) : sub64 a b = a - b := by
  unfold sub64
  lia

end

/-!
## The splitters
-/

/-- The device shows the flash from `offset` on: `mtd_read` returns its bytes, and fails
behind the end of the device. -/
structure Views (mem : Nat -> UInt8) (offset : Nat) (mtd : MtdInfo) : Prop where
  inside (a n : Nat) (h : a + n ≤ mtd.size) : mtd.read a n = some (window mem (offset + a) n)
  outside (a n : Nat) (h : mtd.size < a + n) : mtd.read a n = none

/-- The splitters find an image at the start of the firmware partition, a SquashFS 4.0
behind it and a `rootfs_data` that is not empty.  The offset of the root filesystem is
one in the firmware partition or one in the flash. -/
structure Splits (B : Board) (mem : Nat -> UInt8) (dt : UimageDt) (fw rootfs : MtdInfo)
    (partOffset : Nat) (parts : UimageParts) (data : MtdPartition) : Prop where
  fw_size : fw.size = B.firmware.size
  fw_erasesize : fw.erasesize = B.sectorSize
  fw_view : Views mem B.firmware.offset fw
  parsed : mtdsplitParseUimage fw dt = .ok parts
  kernel_first : parts.kernel.offset = 0
  squashfs : parts.type = .squashfs
  version : leNat (window mem (B.firmware.offset + parts.rootfs.offset + 28) 2) = 4 ∧
    leNat (window mem (B.firmware.offset + parts.rootfs.offset + 30) 2) = 0
  rootfs_size : rootfs.size = parts.rootfs.size
  rootfs_erasesize : rootfs.erasesize = B.sectorSize
  rootfs_view : Views mem (B.firmware.offset + parts.rootfs.offset) rootfs
  part_offset : partOffset = parts.rootfs.offset ∨
    partOffset = B.firmware.offset + parts.rootfs.offset
  split : mtdsplitParseSquashfs rootfs partOffset = .ok data
  nonempty : 0 < data.size

theorem mtdFindRootfsFrom_lt {mtd : MtdInfo} {limit fuel offset r : Nat} {type : PartType}
    (h : mtdFindRootfsFrom mtd limit fuel offset = .ok (r, type)) : r < limit := by
  induction fuel generalizing offset with
  | zero => cases h
  | succ fuel ih =>
      rw [mtdFindRootfsFrom] at h
      split at h
      · split at h
        · exact ih h
        · cases h
          assumption
      · cases h

theorem mtdsplitParseUimage_rootfs {fw : MtdInfo} {dt : UimageDt} {parts : UimageParts}
    (hsize : fw.size < 2 ^ 32) (h : mtdsplitParseUimage fw dt = .ok parts)
    (hfirst : parts.kernel.offset = 0) :
    parts.rootfs.offset < fw.size ∧ parts.rootfs.size = fw.size - parts.rootfs.offset := by
  unfold mtdsplitParseUimage at h
  dsimp only at h
  split at h
  · cases h
  · split at h
    · cases h
    · rename_i rootfsOffset rootfsSize uimageSize type hfound
      split at h
      · cases h
      · cases h
        have hzero : (findUimage fw dt (fw.size + 1) 0 0).1 = 0 := hfirst
        rw [if_pos hzero] at hfound
        split at hfound
        · cases hfound
        · rename_i hrootfs
          cases hfound
          have hlt := mtdFindRootfsFrom_lt hrootfs
          rw [u32_of_lt hsize] at hlt
          exact ⟨hlt, u32_of_lt (by lia)⟩

theorem mtdGetSquashfsLen_ok {mem : Nat -> UInt8} {offset len : Nat} {rootfs : MtdInfo}
    (hview : Views mem offset rootfs)
    (h : mtdGetSquashfsLen rootfs 0 = .ok len) :
    leNat (window mem offset 4) = SQUASHFS_MAGIC ∧
      len = u32 (leNat (window mem (offset + 40) 8)) ∧ 0 < len ∧ len ≤ rootfs.size := by
  unfold mtdGetSquashfsLen at h
  rcases Nat.lt_or_ge rootfs.size (0 + superBlockSize) with hshort | hlong
  · rw [hview.outside _ _ hshort] at h
    cases h
  · rw [hview.inside _ _ hlong, Nat.add_zero] at h
    dsimp only at h
    have htake : (window mem offset superBlockSize).take 4 = window mem offset 4 := by
      have hslice := window_slice mem offset (show 0 + 4 ≤ superBlockSize by decide)
      rwa [List.drop_zero, Nat.add_zero] at hslice
    rw [htake, window_slice mem offset (show 40 + 8 ≤ superBlockSize by decide)] at h
    split at h
    · cases h
    · rename_i hmagic
      split at h
      · cases h
      · rename_i hne
        split at h
        · cases h
        · rename_i hle
          cases h
          rw [Nat.zero_add, u32_of_lt (u32_lt _)] at hle
          exact ⟨Decidable.not_not.mp hmagic, rfl, Nat.pos_of_ne_zero hne,
            Nat.le_of_not_lt hle⟩

section

variable {B : Board} {mem : Nat -> UInt8} {dt : UimageDt} {fw rootfs : MtdInfo}
variable {partOffset : Nat} {parts : UimageParts} {data : MtdPartition}

def rootfsStart (B : Board) (parts : UimageParts) : Nat :=
  B.firmware.offset + parts.rootfs.offset

def overlayStart (B : Board) (parts : UimageParts) (data : MtdPartition) : Nat :=
  rootfsStart B parts + data.offset

/-- The overlay of Linux is what is left of the partition behind the root
filesystem. -/
theorem Splits.overlay (h : Splits B mem dt fw rootfs partOffset parts data) (hl : Layout B) :
    exists len, leNat (window mem (rootfsStart B parts) 4) = SQUASHFS_MAGIC ∧
      len = u32 (bytesUsed mem (rootfsStart B parts)) ∧ 0 < len ∧
      overlayStart B parts data = roundup32 (rootfsStart B parts + len) B.sectorSize ∧
      rootfsStart B parts + len ≤ overlayStart B parts data ∧
      overlayStart B parts data < B.firmware.offset + B.firmware.size ∧
      overlayStart B parts data + data.size = B.firmware.offset + B.firmware.size := by
  have hfits := B.firmware.fits
  have hflash := hl.firmware_end
  have hflashSize := B.flashSize_le
  have hsector := hl.sector_le
  have hpos := hl.sector_pos
  rcases hl.aligned B.firmwarePartition (by simp [Board.partitions]) with ⟨halign, halign'⟩
  have hend : B.sectorSize ∣ B.firmware.offset + B.firmware.size := Nat.dvd_add halign halign'
  rcases mtdsplitParseUimage_rootfs (by rw [h.fw_size]; lia) h.parsed h.kernel_first with
    ⟨hr, hrsize⟩
  rw [h.fw_size] at hr hrsize
  have hrootfs := h.rootfs_size
  have hsplit := h.split
  unfold mtdsplitParseSquashfs at hsplit
  cases hlen : mtdGetSquashfsLen rootfs 0 with
  | error ret => simp [hlen] at hsplit
  | ok len =>
      rw [hlen] at hsplit
      dsimp only at hsplit
      rcases mtdGetSquashfsLen_ok h.rootfs_view hlen with ⟨hmagic, hused, hlpos, hle⟩
      have hused' : bytesUsed mem (rootfsStart B parts) =
          leNat (window mem (rootfsStart B parts + 40) 8) := by
        unfold bytesUsed
        rw [window_slice mem _ (show 40 + 8 ≤ SQUASHFS_SB_SIZE by decide)]
      have hsum : rootfsStart B parts + len ≤ B.firmware.offset + B.firmware.size := by
        unfold rootfsStart
        lia
      have hround : roundup32 (rootfsStart B parts + len) B.sectorSize =
          rootfsStart B parts - partOffset + roundup32 (partOffset + len) B.sectorSize := by
        have hshift : B.sectorSize ∣ rootfsStart B parts - partOffset ∧
            partOffset ≤ rootfsStart B parts := by
          unfold rootfsStart
          rcases h.part_offset with hp | hp
          · rw [hp, Nat.add_sub_cancel]
            exact ⟨halign, Nat.le_add_left _ _⟩
          · rw [hp, Nat.sub_self]
            exact ⟨Nat.dvd_zero _, Nat.le_refl _⟩
        have hsum' : rootfsStart B parts + len =
            rootfsStart B parts - partOffset + (partOffset + len) := by
          lia
        rw [hsum', roundup32_shift hpos hshift.left (by lia)]
      have hpart : partOffset ≤ rootfsStart B parts := by
        unfold rootfsStart
        rcases h.part_offset with hp | hp <;> lia
      rcases roundup32_spec hpos (by lia : rootfsStart B parts + len + B.sectorSize ≤ 2 ^ 32) with
        ⟨_, hge, _, hdvd⟩
      rcases roundup32_spec hpos (by lia : partOffset + len + B.sectorSize ≤ 2 ^ 32) with
        ⟨_, hge', _, _⟩
      have hle' := roundup32_le hpos
        (by lia : rootfsStart B parts + len + B.sectorSize ≤ 2 ^ 32) hsum hend
      rw [h.rootfs_erasesize, u32_of_lt (by lia), mtdRoundupToEb_eq hpos (by lia),
        sub64_of_le (by lia) (by lia)] at hsplit
      have hoffset : rootfsStart B parts +
          (roundup32 (partOffset + len) B.sectorSize - partOffset) =
            roundup32 (rootfsStart B parts + len) B.sectorSize := by
        lia
      have hfwd : roundup32 (partOffset + len) B.sectorSize - partOffset ≤ rootfs.size := by
        unfold rootfsStart at *
        lia
      have hrest : rootfs.size - (roundup32 (partOffset + len) B.sectorSize - partOffset) =
          B.firmware.offset + B.firmware.size -
            roundup32 (rootfsStart B parts + len) B.sectorSize := by
        unfold rootfsStart at *
        lia
      rw [sub64_of_le hfwd (by lia), hrest, mtdRounddownToEb_of_dvd (Nat.dvd_sub hend hdvd)]
        at hsplit
      cases hsplit
      have hnonempty := h.nonempty
      refine ⟨len, hmagic, by rw [hused']; exact hused, hlpos, hoffset, ?_, ?_, ?_⟩
      · show _ ≤ _ + (_ - _)
        rw [hoffset]
        exact hge
      · show _ + (_ - _) < _
        rw [hoffset]
        lia
      · show _ + (_ - _) + _ = _
        rw [hoffset]
        lia

/-- The superblock of the root filesystem says a length that can be read with 32 bits
and is not shorter than the superblock. -/
def PlainLength (mem : Nat -> UInt8) (p : Nat) : Prop :=
  SQUASHFS_SB_SIZE ≤ bytesUsed mem p ∧ bytesUsed mem p < 2 ^ 32

/-- The recovery server accepts the superblock that Linux has found. -/
theorem Splits.accepted (h : Splits B mem dt fw rootfs partOffset parts data) (hl : Layout B)
    (hplain : PlainLength mem (rootfsStart B parts)) :
    candidateAt B mem (rootfsStart B parts) = some (overlayStart B parts data) := by
  rcases h.overlay hl with ⟨len, hmagic, hlen, _, hround, hge, hlt, _⟩
  have hfits := B.firmware.fits
  rw [u32_of_lt hplain.right] at hlen
  have hslice : forall i n, i + n ≤ SQUASHFS_SB_SIZE ->
      ((window mem (rootfsStart B parts) SQUASHFS_SB_SIZE).drop i).take n =
        window mem (rootfsStart B parts + i) n :=
    fun i n hi => window_slice mem _ hi
  have htake := hslice 0 4 (by decide)
  rw [List.drop_zero, Nat.add_zero] at htake
  have hbytes : bytesUsed mem (rootfsStart B parts) =
      leNat (window mem (rootfsStart B parts + 40) 8) := by
    unfold bytesUsed
    rw [hslice 40 8 (by decide)]
  unfold candidateAt overlayCandidate
  rw [htake, hslice 40 8 (by decide), hslice 28 2 (by decide), hslice 30 2 (by decide), <- hbytes,
    <- hlen]
  dsimp only
  rw [Nat.mod_eq_of_lt (by lia), u32_of_lt (by lia), <- hround]
  have hversion : ¬ (leNat (window mem (rootfsStart B parts + 28) 2) ≠ 4 ∨
      leNat (window mem (rootfsStart B parts + 30) 2) ≠ 0) := by
    rintro (hne | hne)
    · exact hne h.version.left
    · exact hne h.version.right
  have hmagic' : leNat (window mem (rootfsStart B parts) 4) = Webflash.SQUASHFS_MAGIC := hmagic
  rw [if_neg (not_not.mpr hmagic'), if_neg hversion,
    if_neg (Nat.not_lt.mpr (by rw [hlen]; exact hplain.left)), if_neg (by lia), if_pos hlt]

theorem candidateAt_fits {p overlay : Nat} (h : candidateAt B mem p = some overlay)
    (hwrap : p + bytesUsed mem p < 2 ^ 64) :
    p + SQUASHFS_SB_SIZE ≤ B.firmware.offset + B.firmware.size := by
  rcases candidateAt_some h with ⟨hused, hend, _, _⟩
  rw [Nat.mod_eq_of_lt hwrap] at hend
  lia

theorem exists_firstSuperblock {p overlay : Nat} (hstart : B.firmware.offset ≤ p)
    (hfits : p + SQUASHFS_SB_SIZE ≤ B.firmware.offset + B.firmware.size)
    (h : candidateAt B mem p = some overlay) :
    exists q x, FirstSuperblock B mem q x ∧ q ≤ p := by
  induction p using Nat.strongRecOn generalizing overlay with
  | ind p ih =>
      by_cases hearlier : exists q x, B.firmware.offset ≤ q ∧ q < p ∧ candidateAt B mem q = some x
      · rcases hearlier with ⟨q, x, hq, hqp, hx⟩
        rcases ih q hqp hq (by lia) hx with ⟨q', x', hfirst, hle⟩
        exact ⟨q', x', hfirst, by lia⟩
      · refine ⟨p, overlay, ⟨hstart, hfits, h, ?_⟩, Nat.le_refl p⟩
        intro q hq hqp
        cases hx : candidateAt B mem q with
        | none => rfl
        | some x => exact absurd ⟨q, x, hq, hqp, hx⟩ hearlier

/-- The lowest place in front of the root filesystem that is accepted, if there is one,
has the same overlay.  If the superblock of the root filesystem itself is not
accepted, there has to be another one that has. -/
def NoDecoy (B : Board) (mem : Nat -> UInt8) (parts : UimageParts) (data : MtdPartition) : Prop :=
  (PlainLength mem (rootfsStart B parts) -> forall q x, FirstSuperblock B mem q x ->
    q < rootfsStart B parts -> x = overlayStart B parts data) ∧
  (¬ PlainLength mem (rootfsStart B parts) ->
    exists q, FirstSuperblock B mem q (overlayStart B parts data))

theorem Splits.first_iff (h : Splits B mem dt fw rootfs partOffset parts data) (hl : Layout B) :
    (exists q, FirstSuperblock B mem q (overlayStart B parts data)) <->
      NoDecoy B mem parts data := by
  constructor
  · rintro ⟨q, hq⟩
    exact ⟨fun _ q' x hx _ => (hx.unique hq).right, fun _ => ⟨q, hq⟩⟩
  · rintro ⟨hplain, hother⟩
    by_cases hlen : PlainLength mem (rootfsStart B parts)
    · have haccepted := h.accepted hl hlen
      have hfits := B.firmware.fits
      rcases h.overlay hl with ⟨len, _, hused, _, _, hge, hlt, _⟩
      rw [u32_of_lt hlen.right] at hused
      have hroom : rootfsStart B parts + SQUASHFS_SB_SIZE ≤
          B.firmware.offset + B.firmware.size :=
        candidateAt_fits haccepted (by lia)
      have hstart : B.firmware.offset ≤ rootfsStart B parts := Nat.le_add_right _ _
      rcases exists_firstSuperblock hstart hroom haccepted with
        ⟨q, x, hfirst, hle⟩
      rcases Nat.eq_or_lt_of_le hle with heq | hbefore
      · have hx := hfirst.accepted
        rw [heq, haccepted] at hx
        cases hx
        exact ⟨q, hfirst⟩
      · rw [hplain hlen q x hfirst hbefore] at hfirst
        exact ⟨q, hfirst⟩
    · exact hother hlen

end

/-- If the splitters of Linux succeed on the firmware partition, the recovery server
finds the same overlay, and a factory reset erases just the partition `rootfs_data`,
exactly if no other superblock is in front of the one that Linux finds. -/
theorem overlay_agrees_iff {E : Type} (P : Platform E) (contents : E -> Nat -> UInt8)
    (hread : SoundRead P contents) (hlayout : P.initFlash = 0) (e : E) (dt : UimageDt)
    (fw rootfs : MtdInfo) (partOffset : Nat) (parts : UimageParts) (data : MtdPartition)
    (hsplits : Splits P.toBoard (contents e) dt fw rootfs partOffset parts data) :
    ((exists q, (findOverlay P e).1 = .ok (q, overlayStart P.toBoard parts data)) ∧
      (resetJob P (overlayStart P.toBoard parts data)).eraseOffset =
        P.firmware.offset + parts.rootfs.offset + data.offset ∧
      (resetJob P (overlayStart P.toBoard parts data)).eraseSize = data.size) <->
      NoDecoy P.toBoard (contents e) parts data := by
  have hl := layout_of_initFlash hlayout
  have hfits := P.firmware.fits
  rcases hsplits.overlay hl with ⟨_, _, _, _, _, _, hlt, hend⟩
  have herase : (resetJob P (overlayStart P.toBoard parts data)).eraseSize = data.size := by
    show sub32 (u32 (P.firmware.offset + P.firmware.size)) _ = _
    rw [u32_of_lt hfits, sub32_of_le (Nat.le_of_lt hlt) hfits]
    lia
  rw [<- hsplits.first_iff hl]
  constructor
  · rintro ⟨⟨q, hq⟩, _⟩
    exact ⟨q, (findOverlay_iff hread hl).mp hq⟩
  · rintro ⟨q, hq⟩
    exact ⟨⟨q, (findOverlay_iff hread hl).mpr hq⟩, rfl, herase⟩

/-!
## Two firmware partitions
-/

def firmwareFlash (kernel : Bytes) : Nat -> UInt8 :=
  overwrite (fun _ => 0xff) 0x50000 (legacyImage kernel ++ superblock 0x200)

def flashMtd (mem : Nat -> UInt8) (r : Nat) : MtdInfo where
  size := 0x1fb0000 - r
  erasesize := 0x1000
  read a n := if a + n ≤ 0x1fb0000 - r then some (window mem (0x50000 + r + a) n) else none

theorem views_flashMtd (mem : Nat -> UInt8) (r : Nat) :
    Views mem (0x50000 + r) (flashMtd mem r) :=
  ⟨fun _ _ h => if_pos h, fun _ _ h => if_neg (Nat.not_le.mpr h)⟩

def flashParts (r : Nat) : UimageParts :=
  ⟨⟨"kernel", 0, r⟩, ⟨"rootfs", r, 0x1fb0000 - r⟩, .squashfs⟩

def flashData (r : Nat) : MtdPartition := ⟨"rootfs_data", 0x1000 - r, 0x1faf000⟩

theorem splits_firmwareFlash (kernel : Bytes) (r : Nat)
    (hparsed : mtdsplitParseUimage (flashMtd (firmwareFlash kernel) 0) {} = .ok (flashParts r))
    (hversion : leNat (window (firmwareFlash kernel) (0x50000 + r + 28) 2) = 4 ∧
      leNat (window (firmwareFlash kernel) (0x50000 + r + 30) 2) = 0)
    (hsplit : mtdsplitParseSquashfs (flashMtd (firmwareFlash kernel) r) r =
      .ok (flashData r)) :
    Splits hlk7621a (firmwareFlash kernel) {} (flashMtd (firmwareFlash kernel) 0)
      (flashMtd (firmwareFlash kernel) r) r (flashParts r) (flashData r) := by
  have hsize : 0 < (flashData r).size := show 0 < 0x1faf000 by decide
  exact ⟨rfl, rfl, views_flashMtd _ 0, hparsed, rfl, rfl, hversion, rfl, rfl,
    views_flashMtd _ r, Or.inl rfl, hsplit, hsize⟩

theorem header_rejected (kernel : Bytes)
    (h : forall i, i < 64 -> candidateAt hlk7621a (firmwareFlash kernel) (0x50000 + i) = none)
    {q x : Nat} (hfirst : FirstSuperblock hlk7621a (firmwareFlash kernel) q x) :
    0x50040 ≤ q := by
  by_contra hlt
  have hstart : 0x50000 ≤ q := hfirst.start
  have hnone := h (q - 0x50000) (by lia)
  rw [show 0x50000 + (q - 0x50000) = q by lia, hfirst.accepted] at hnone
  cases hnone

theorem emptyKernel_overlay_agrees :
    exists q, (findOverlay (norPlatform hlk7621a) (firmwareFlash [])).1 = .ok (q, 0x51000) := by
  have hsplits := splits_firmwareFlash [] 64 (by decide +kernel)
    (by decide +kernel) (by decide +kernel)
  refine ((overlay_agrees_iff (norPlatform hlk7621a) (fun mem => mem)
    (soundFlash_norPlatform hlk7621a).toSoundRead (by decide) (firmwareFlash []) _ _ _ _ _ _
    hsplits).mpr ⟨?_, ?_⟩).left
  · intro _ q x hfirst hlt
    have hge := header_rejected [] (by decide +kernel) hfirst
    exact absurd hlt (Nat.not_lt.mpr hge)
  · intro h
    exact absurd ⟨by decide +kernel, by decide +kernel⟩ h

/-- A kernel whose data look like the superblock of a filesystem of `0x2000` bytes: Linux
finds the overlay at `0x51000`, behind the root filesystem at `0x500a0`, and the recovery
server at `0x53000`. -/
theorem superblock_in_kernel :
    Splits hlk7621a (firmwareFlash (superblock 0x2000)) {}
      (flashMtd (firmwareFlash (superblock 0x2000)) 0)
      (flashMtd (firmwareFlash (superblock 0x2000)) 160) 160 (flashParts 160) (flashData 160) ∧
    overlayStart hlk7621a (flashParts 160) (flashData 160) = 0x51000 ∧
    (findOverlay (norPlatform hlk7621a) (firmwareFlash (superblock 0x2000))).1 =
      .ok (0x50040, 0x53000) := by
  refine ⟨splits_firmwareFlash _ 160 (by decide +kernel) (by decide +kernel) (by decide +kernel),
    by decide, ?_⟩
  have hheader : forall i, i < 64 ->
      candidateAt hlk7621a (firmwareFlash (superblock 0x2000)) (0x50000 + i) = none := by
    decide +kernel
  refine (findOverlay_iff (soundFlash_norPlatform hlk7621a).toSoundRead
    (layout_of_initFlash (by decide))).mpr ⟨by decide, by decide, by decide +kernel, ?_⟩
  intro q hq hlt
  have hstart : 0x50000 ≤ q := hq
  have hnone := hheader (q - 0x50000) (by lia)
  rwa [show 0x50000 + (q - 0x50000) = q by lia] at hnone

end Mtd
end Hlk7621
