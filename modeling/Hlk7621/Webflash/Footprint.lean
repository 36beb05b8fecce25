import Hlk7621.Webflash.FlashJobs
import Hlk7621.Webflash.Nor

/-!
# What validation reads

Every check of an uploaded image reads inside the upload, with one exception:
the payload CRC of a legacy image covers as many bytes as its header says.  The
firmware target compares that size with the upload, in 32-bit arithmetic; the
RAM target does not.
-/

namespace Hlk7621
namespace Webflash

def Inside (data size a : Nat) : Prop := data ≤ a ∧ a < data + size

section

variable {data size : Nat} (hend : data + size < 2 ^ 32) (m : Nat -> UInt8)

include hend

theorem bytes_inside {addr len : Nat} (hlo : data ≤ addr)
    (hhi : addr + len ≤ data + size) :
    (Scan.bytes addr len).Within m (Inside data size) := by
  rw [Scan.within_bytes]
  intro i hi
  rw [u32_of_lt (by lia)]
  exact ⟨by lia, by lia⟩

theorem imageGetL_inside {field : Nat} (h : field + 4 ≤ size) :
    (UBoot.imageGetL data field).Within m (Inside data size) := by
  unfold UBoot.imageGetL
  rw [Scan.within_bind]
  exact ⟨bytes_inside hend m (by lia) (by lia), Scan.within_pure _ _ _⟩

theorem imageGetB_inside {field : Nat} (h : field + 1 ≤ size) :
    (UBoot.imageGetB data field).Within m (Inside data size) := by
  unfold UBoot.imageGetB
  rw [Scan.within_bind]
  exact ⟨bytes_inside hend m (by lia) (by lia), Scan.within_pure _ _ _⟩

theorem headerValid_inside : (headerValid data size).Within m (Inside data size) := by
  unfold headerValid UBoot.imageGetHeaderSize
  split
  · exact Scan.within_pure _ _ _
  · rename_i hsize
    rw [Scan.within_bind]
    constructor
    · unfold UBoot.imageCheckMagic UBoot.imageGetMagic
      rw [Scan.within_bind]
      exact ⟨imageGetL_inside hend m (by lia), Scan.within_pure _ _ _⟩
    · split
      · exact Scan.within_pure _ _ _
      · unfold UBoot.imageCheckHcrc UBoot.imageGetHcrc UBoot.imageGetHeaderSize
        rw [Scan.within_bind, Scan.within_bind]
        exact ⟨bytes_inside hend m (by lia) (by lia),
          imageGetL_inside hend m (by lia), Scan.within_pure _ _ _⟩

theorem kernelHeader_inside (h : 64 ≤ size) :
    (kernelHeader data).Within m (Inside data size) := by
  have hfield : forall field, field < 64 ->
      (UBoot.imageGetB data field).Within m (Inside data size) :=
    fun field hlt => imageGetB_inside hend m (by lia)
  unfold kernelHeader UBoot.imageCheckOs UBoot.imageCheckArch UBoot.imageCheckType
    UBoot.imageGetOs UBoot.imageGetArch UBoot.imageGetType
  rw [Scan.within_bind, Scan.within_bind]
  refine ⟨⟨hfield 28 (by decide), Scan.within_pure _ _ _⟩, ?_⟩
  split
  · exact Scan.within_pure _ _ _
  · rw [Scan.within_bind, Scan.within_bind]
    refine ⟨⟨hfield 29 (by decide), Scan.within_pure _ _ _⟩, ?_⟩
    split
    · exact Scan.within_pure _ _ _
    · rw [Scan.within_bind]
      exact ⟨hfield 30 (by decide), Scan.within_pure _ _ _⟩

theorem crc32Wd_inside (watchdog : Bool) (crc : BitVec 32) {chunk : Nat}
    (hchunk : 0 < chunk) :
    (UBoot.crc32Wd watchdog crc data size chunk).Within m (Inside data size) := by
  rw [UBoot.crc32Wd_within watchdog crc hchunk (by lia) (by lia)]
  right
  intro i hi
  rw [u32_of_lt (by lia)]
  exact ⟨by lia, by lia⟩

/-- The payload CRC stays inside the upload if the payload does, or if its end
wraps around and the watchdog loop sees no payload at all. -/
theorem imageCheckDcrc_inside_iff (watchdog : Bool) (h : 64 ≤ size) :
    (UBoot.imageCheckDcrc watchdog data).Within m (Inside data size) <->
      (watchdog = true ∧ 2 ^ 32 ≤ data + 64 + (UBoot.imageGetSize data).val m) ∨
        64 + (UBoot.imageGetSize data).val m ≤ size := by
  have hsize : (UBoot.imageGetSize data).Within m (Inside data size) :=
    imageGetL_inside hend m (by lia)
  have hdcrc : (UBoot.imageGetDcrc data).Within m (Inside data size) :=
    imageGetL_inside hend m (by lia)
  have hlen : (UBoot.imageGetSize data).val m < 2 ^ 32 := by
    have hlt := leNat_lt (window (fun a => m (u32 a)) (data + 12) 4).reverse
    rw [List.length_reverse, window_length] at hlt
    exact hlt
  unfold UBoot.imageCheckDcrc
  simp only [Scan.within_bind, Scan.within_pure, and_true, hsize, hdcrc, true_and]
  generalize (UBoot.imageGetSize data).val m = len at hlen
  have hdata : UBoot.imageGetData data = data + 64 := u32_of_lt (by
    unfold UBoot.imageGetHeaderSize
    lia)
  rw [hdata, UBoot.crc32Wd_within watchdog _ (by decide) (by lia) hlen]
  refine or_congr_right ?_
  constructor
  · intro hall
    by_contra hlong
    have hout := hall (size - 64) (by lia)
    rw [u32_of_lt (by lia)] at hout
    have := hout.2
    lia
  · intro hfits i hi
    rw [u32_of_lt (by lia)]
    exact ⟨by lia, by lia⟩

/-!
## The fwtool trailer
-/

theorem checkFwtoolInfo_inside (B : Board) {addr len : Nat} (hlo : data ≤ addr)
    (hhi : addr + len ≤ data + size) :
    (checkFwtoolInfo B addr len).Within m (Inside data size) := by
  unfold checkFwtoolInfo
  split
  · exact Scan.within_pure _ _ _
  · rename_i hlen
    rw [Scan.within_bind]
    refine ⟨bytes_inside hend m hlo (by lia), ?_⟩
    split
    · exact Scan.within_pure _ _ _
    · rw [Scan.within_bind]
      refine ⟨bytes_inside hend m (by lia) (by lia), ?_⟩
      split
      · exact Scan.within_pure _ _ _
      · exact Scan.within_pure _ _ _

theorem validateFwtoolLoop_inside (B : Board) (depth : Nat) {cursor : Nat}
    (hcursor : cursor ≤ size) :
    (validateFwtoolLoop B data depth cursor).Within m (Inside data size) := by
  induction depth generalizing cursor with
  | zero => exact Scan.within_pure _ _ _
  | succ depth ih =>
      rw [validateFwtoolLoop]
      split
      · exact Scan.within_pure _ _ _
      · rename_i htrailer
        have hfield : forall off len, off + len ≤ 16 ->
            (Scan.bytes (data + (cursor - 16) + off) len).Within m
              (Inside data size) :=
          fun off len h => bytes_inside hend m (by lia) (by lia)
        unfold scanBe32
        rw [Scan.within_bind, Scan.within_bind]
        refine ⟨⟨hfield 0 4 (by decide), Scan.within_pure _ _ _⟩, ?_⟩
        split
        · exact Scan.within_pure _ _ _
        · rw [Scan.within_bind, Scan.within_bind]
          refine ⟨⟨hfield 12 4 (by decide), Scan.within_pure _ _ _⟩, ?_⟩
          split
          · exact Scan.within_pure _ _ _
          · rename_i hrecord
            rw [Scan.within_bind, Scan.within_bind, Scan.within_bind]
            refine ⟨bytes_inside hend m (Nat.le_refl _) (by lia),
              ⟨hfield 4 4 (by decide), Scan.within_pure _ _ _⟩, ?_⟩
            split
            · exact Scan.within_pure _ _ _
            · rw [Scan.within_bind]
              refine ⟨hfield 8 1 (by decide), ?_⟩
              split
              · exact checkFwtoolInfo_inside hend m B (by lia) (by lia)
              · exact ih (by lia)

/-!
## Targets that are read as they are
-/

theorem bufferUniformLoop_inside (value : UInt8) (n : Nat) {i : Nat}
    (h : i + n ≤ size) :
    (bufferUniformLoop data value n i).Within m (Inside data size) := by
  induction n generalizing i with
  | zero => exact Scan.within_pure _ _ _
  | succ n ih =>
      rw [bufferUniformLoop, Scan.within_bind]
      refine ⟨bytes_inside hend m (by lia) (by lia), ?_⟩
      split
      · exact Scan.within_pure _ _ _
      · exact ih (by lia)

theorem bufferUniform_inside (hpos : 0 < size) :
    (bufferUniform data size).Within m (Inside data size) := by
  unfold bufferUniform
  rw [Scan.within_bind]
  exact ⟨bytes_inside hend m (Nat.le_refl _) (by lia),
    bufferUniformLoop_inside hend m _ _ (by lia)⟩

theorem validateEeprom_inside (hsize : size = EEPROM_SIZE) :
    (validateEeprom data size).Within m (Inside data size) := by
  unfold EEPROM_SIZE at hsize
  unfold validateEeprom scanLe16
  simp only [Scan.within_bind, Scan.within_pure, and_true]
  refine ⟨bytes_inside hend m (Nat.le_refl _) (by lia),
    bytes_inside hend m (by lia) (by lia), ?_⟩
  split
  · exact Scan.within_pure _ _ _
  · rw [Scan.within_bind]
    refine ⟨bufferUniform_inside hend m (by lia), ?_⟩
    split
    · exact Scan.within_pure _ _ _
    · exact Scan.within_pure _ _ _

theorem validateEnv_inside (B : Board) (part : Partition) :
    (validateEnv B part data size).Within m (Inside data size) := by
  have henv := B.configEnvSize_ge
  unfold validateEnv scanLe32
  split
  · exact Scan.within_pure _ _ _
  · rename_i hsize
    rw [Scan.within_bind, Scan.within_bind, Scan.within_bind]
    refine ⟨⟨bytes_inside hend m (Nat.le_refl _) (by lia), Scan.within_pure _ _ _⟩,
      bytes_inside hend m (by lia) (by lia), ?_⟩
    split
    · exact Scan.within_pure _ _ _
    · exact Scan.within_pure _ _ _

theorem validateRaw_inside (part : Partition) (hpos : 0 < size) :
    (validateRaw part data size).Within m (Inside data size) := by
  unfold validateRaw
  rw [Scan.within_bind]
  refine ⟨bufferUniform_inside hend m hpos, ?_⟩
  split
  · exact Scan.within_pure _ _ _
  · have hlast : forall (known : Bool) (a b : Verdict),
        (if (!known) = true then pure a else pure b : Scan Verdict).Within m
          (Inside data size) := by
      intro known a b
      split
      · exact Scan.within_pure _ _ _
      · exact Scan.within_pure _ _ _
    dsimp only
    split
    · exact hlast _ _ _
    · split
      · exact hlast _ _ _
      · rw [Scan.within_bind]
        exact ⟨bytes_inside hend m (by lia) (by lia), hlast _ _ _⟩

end

/-!
## Legacy images
-/

/-- The payload of the legacy image at `data` ends behind the upload, and the
CRC is computed over it: the watchdog loop stops at once if the end of the
payload wraps around. -/
def payloadOutside (B : Board) (data size : Nat) (m : Nat -> UInt8) : Bool :=
  let len := (UBoot.imageGetSize data).val m
  decide (size < 64 + len) && (!B.watchdog || decide (data + 64 + len < 2 ^ 32))

/-- Validation computes the CRC of a payload that ends behind the upload. -/
def overreads (B : Board) (part : Partition) (data size : Nat) (m : Nat -> UInt8) :
    Bool :=
  (part.has PART_RAM || part.has PART_FIRMWARE &&
    decide ((UBoot.imageGetImageSize data).val m ≤ size)) &&
  (headerValid data size).val m && (kernelHeader data).val m &&
  payloadOutside B data size m

section

variable {data size : Nat} (hend : data + size < 2 ^ 32) (m : Nat -> UInt8)

theorem headerValid_size {m : Nat -> UInt8} (h : (headerValid data size).val m = true) :
    64 ≤ size := by
  by_contra hlt
  have hval : headerValid data size = pure false := if_pos (Nat.lt_of_not_le hlt)
  rw [hval] at h
  cases h

include hend

theorem imageCheckDcrc_inside (B : Board) (h : 64 ≤ size) :
    (UBoot.imageCheckDcrc B.watchdog data).Within m (Inside data size) <->
      payloadOutside B data size m = false := by
  rw [imageCheckDcrc_inside_iff hend m B.watchdog h]
  unfold payloadOutside
  cases B.watchdog with
  | true =>
      simp
      lia
  | false => simp

theorem validateRam_inside (B : Board) :
    (validateRam B data size).Within m (Inside data size) <->
      ((headerValid data size).val m && (kernelHeader data).val m &&
        payloadOutside B data size m) = false := by
  have hrest : forall kernel : Bool, (64 ≤ size ∨ kernel = false) ->
      ((if (!kernel) = true then
          pure { ret := -ENOEXEC, detail := detail (str "not a MIPS Linux uImage") }
        else do
          let dcrc <- UBoot.imageCheckDcrc B.watchdog data
          if !dcrc then
            pure { ret := -EBADMSG
                   detail := detail (str "uImage data CRC mismatch") }
          else
            pure { ret := 0, detail := detail (str "RAM boot image verified") } :
          Scan Verdict).Within m (Inside data size) <->
        (kernel && payloadOutside B data size m) = false) := by
    intro kernel hsize
    cases kernel with
    | false => simp
    | true =>
        have h64 : 64 ≤ size := by simpa using hsize
        rw [if_neg (by simp), Scan.within_bind, imageCheckDcrc_inside hend m B h64,
          Bool.true_and]
        refine and_iff_left ?_
        split
        · exact Scan.within_pure _ _ _
        · exact Scan.within_pure _ _ _
  unfold validateRam
  rw [Scan.within_bind, and_iff_right (headerValid_inside hend m)]
  cases hvalid : (headerValid data size).val m with
  | false =>
      rw [Bool.false_and, Bool.false_and]
      simp
  | true =>
      have h64 := headerValid_size hvalid
      have hkernel := kernelHeader_inside hend m h64
      rw [Bool.true_and]
      have hk := hrest ((kernelHeader data).val m) (Or.inl h64)
      rw [<- hk]
      simp only [if_true]
      rw [Scan.within_bind, and_iff_right hkernel]

theorem validateFirmware_inside (B : Board) :
    (validateFirmware B data size).Within m (Inside data size) <->
      (decide ((UBoot.imageGetImageSize data).val m ≤ size) &&
        (headerValid data size).val m && (kernelHeader data).val m &&
        payloadOutside B data size m) = false := by
  unfold validateFirmware
  rw [Scan.within_bind, and_iff_right (headerValid_inside hend m)]
  cases hvalid : (headerValid data size).val m with
  | false => simp
  | true =>
      have h64 := headerValid_size hvalid
      have hlength : (UBoot.imageGetImageSize data).Within m (Inside data size) := by
        unfold UBoot.imageGetImageSize UBoot.imageGetSize
        rw [Scan.within_bind]
        exact ⟨imageGetL_inside hend m (by lia), Scan.within_pure _ _ _⟩
      rw [if_neg (by simp), Scan.within_bind, and_iff_right hlength]
      by_cases hle : (UBoot.imageGetImageSize data).val m ≤ size
      · rw [if_neg (Nat.not_lt.mpr hle), Scan.within_bind,
          and_iff_right (kernelHeader_inside hend m h64)]
        cases hkernel : (kernelHeader data).val m with
        | false => simp
        | true =>
            rw [if_neg (by simp), Scan.within_bind, imageCheckDcrc_inside hend m B h64]
            simp only [hle, decide_true, Bool.true_and]
            refine and_iff_left ?_
            split
            · exact Scan.within_pure _ _ _
            · rw [Scan.within_bind]
              exact ⟨validateFwtoolLoop_inside hend m B 3 (Nat.le_refl _),
                Scan.within_pure _ _ _⟩
      · rw [if_pos (Nat.lt_of_not_le hle)]
        simp [hle]

end

/-!
## All targets
-/

theorem validateTarget_inside {B : Board} {header : Bytes} {part : Partition}
    {data size : Nat} (htarget : uploadTarget B header = some part)
    (hsize : uploadSizeOk part size = true) (hend : data + size < 2 ^ 32)
    (m : Nat -> UInt8) :
    (validateTarget B part data size).Within m (Inside data size) <->
      overreads B part data size m = false := by
  have hpos : 0 < size := (uploadSizeOk_le hsize).1
  unfold validateTarget overreads
  rcases uploadTarget_mem htarget with rfl | rfl | rfl | rfl | rfl | rfl
  · simpa [firmwarePartition_has, PART_EEPROM, PART_RAM, PART_FIRMWARE]
      using validateFirmware_inside hend m B
  · simpa [ubootPartition_has, PART_EEPROM, PART_RAM, PART_FIRMWARE, PART_ENV]
      using validateRaw_inside hend m B.ubootPartition hpos
  · simpa [envPartition_has, PART_EEPROM, PART_RAM, PART_FIRMWARE, PART_ENV]
      using validateEnv_inside hend m B B.envPartition
  · simpa [factoryPartition_has, PART_EEPROM, PART_RAM, PART_FIRMWARE, PART_ENV]
      using validateRaw_inside hend m B.factoryPartition hpos
  · have heq : size = EEPROM_SIZE := uploadSizeOk_protected hsize (by
      rw [eepromPartition_has]
      decide)
    simpa [eepromPartition_has, PART_EEPROM, PART_RAM, PART_FIRMWARE]
      using validateEeprom_inside hend m heq
  · simpa [ramPartition_has, PART_EEPROM, PART_RAM, PART_FIRMWARE]
      using validateRam_inside hend m B

theorem uploadTarget_size {B : Board} {header : Bytes} {part : Partition}
    (h : uploadTarget B header = some part) : part.size < 2 ^ 32 := by
  have huboot := B.uboot.fits
  have henv := B.env.fits
  have hfactory := B.factory.fits
  have hfirmware := B.firmware.fits
  rcases uploadTarget_mem h with rfl | rfl | rfl | rfl | rfl | rfl
  · show B.firmware.size < _
    lia
  · show B.uboot.size < _
    lia
  · show B.env.size < _
    lia
  · show B.factory.size < _
    lia
  · show EEPROM_SIZE < _
    decide
  · show B.firmware.size < _
    lia

variable {E : Type}

/-- For every target, every length it admits and every content: the validation
of an upload reads inside the upload, and so its result is a function of the
upload alone, if and only if no payload CRC runs over the end of the upload. -/
theorem validation_inside_iff (P : Platform E) (w : World E) (header : Bytes)
    (part : Partition) (htarget : uploadTarget P.toBoard header = some part)
    (hpart : w.ctx.uploadPart = some part)
    (hsize : uploadSizeOk part w.ctx.completedSize = true)
    (haddr : w.ctx.completedAddr < 2 ^ 32)
    (hram : rangeInRam P w.ctx.completedAddr w.ctx.completedSize = true) :
    ((validateScan P.toBoard part w.ctx.completedAddr w.ctx.completedSize).Within
        w.ram (Inside w.ctx.completedAddr w.ctx.completedSize) ∧
      forall ram,
        window ram w.ctx.completedAddr w.ctx.completedSize =
          window w.ram w.ctx.completedAddr w.ctx.completedSize ->
        (validateUpload P { w with ram := ram }).2.ctx =
          (validateUpload P w).2.ctx) <->
    overreads P.toBoard part w.ctx.completedAddr w.ctx.completedSize w.ram =
      false := by
  have hle := (uploadSizeOk_le hsize).2
  have hpartSize := uploadTarget_size htarget
  have hend := rangeInRam_lt (by lia) haddr hram
  have hscan : (validateScan P.toBoard part w.ctx.completedAddr
      w.ctx.completedSize).Within w.ram
        (Inside w.ctx.completedAddr w.ctx.completedSize) <->
      overreads P.toBoard part w.ctx.completedAddr w.ctx.completedSize w.ram =
        false := by
    unfold validateScan
    rw [Scan.within_bind, and_iff_right (crc32Wd_inside hend _ _ _ (by decide)),
      Scan.within_bind, and_iff_left (Scan.within_pure _ _ _)]
    exact validateTarget_inside htarget hsize hend w.ram
  rw [hscan]
  refine and_iff_left_of_imp ?_
  intro hinside ram hsame
  have hagree : forall a, Inside w.ctx.completedAddr w.ctx.completedSize a ->
      ram a = w.ram a := by
    rintro a ⟨hlo, hhi⟩
    have hbyte := window_inside hsame
      (show a - w.ctx.completedAddr + 1 ≤ w.ctx.completedSize by lia)
    rw [Nat.add_sub_cancel' hlo] at hbyte
    simpa [window] using hbyte
  have hval := Scan.val_eq_of_within (hscan.mpr hinside) hagree
  unfold validateUpload
  simp only [hpart, hval]

def ramUpload (size : Nat) (ram : Nat -> UInt8) : World (Nat -> UInt8) :=
  { initial 0x83000000 ram (fun _ => 0xff) with
    ctx :=
      { uploadPart := some hlk7621a.ramPartition
        completedAddr := 0x83000000
        completedSize := size } }

theorem ramUpload_inside :
    let w := ramUpload 68 (overwrite (fun _ => 0) 0x83000000 (legacyImage (str "kern")))
    (validateScan hlk7621a hlk7621a.ramPartition 0x83000000 68).Within w.ram
      (Inside 0x83000000 68) :=
  ((validation_inside_iff (norPlatform hlk7621a)
    (ramUpload 68 (overwrite (fun _ => 0) 0x83000000 (legacyImage (str "kern"))))
    (httpRequest "POST /api/upload/ram" []) hlk7621a.ramPartition (by decide +kernel)
    rfl (by decide +kernel) (by decide) (by decide +kernel)).mpr
      (by decide +kernel)).1

def truncatedImage : List (Nat × Event) :=
  exchange 1 (httpRequest "POST /api/upload/ram" ["Content-Length: 64"] ++
    (legacyImage (str "kern")).take 64)

/-- Whether the upload is valid depends on the bytes behind it. -/
theorem truncatedImage_depends_on_ram :
    let blank := run (norPlatform hlk7621a)
      (initial 0x83000000 (fun _ => 0) (fun _ => 0xff)) truncatedImage
    let stale := run (norPlatform hlk7621a)
      (initial 0x83000000 (overwrite (fun _ => 0) 0x83000040 (str "kern"))
        (fun _ => 0xff)) truncatedImage
    blank.ctx.completedSize = 64 ∧ stale.ctx.completedSize = 64 ∧
    window blank.ram blank.ctx.completedAddr 64 =
      window stale.ram stale.ctx.completedAddr 64 ∧
    blank.ctx.uploadValid = false ∧ stale.ctx.uploadValid = true := by
  decide +kernel

end Webflash
end Hlk7621
