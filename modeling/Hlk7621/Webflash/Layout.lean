import Hlk7621.Webflash.Job

/-!
# The accepted flash layout

What the checks of `webflash_init_flash` say about the partitions: they follow
each other in the flash, they end inside it, and their bounds are multiples of
the sector size.
-/

namespace Hlk7621
namespace Webflash

/-!
## Flags

A target has the flags it is declared with and no others.
-/

section

variable (B : Board) (flag : Nat)

theorem ubootPartition_has : B.ubootPartition.has flag = (17 &&& flag != 0) := rfl

theorem envPartition_has : B.envPartition.has flag = (5 &&& flag != 0) := rfl

theorem factoryPartition_has : B.factoryPartition.has flag = (9 &&& flag != 0) := rfl

theorem firmwarePartition_has : B.firmwarePartition.has flag = (2 &&& flag != 0) := rfl

theorem eepromPartition_has : B.eepromPartition.has flag = (33 &&& flag != 0) := rfl

theorem ramPartition_has : B.ramPartition.has flag = (64 &&& flag != 0) := rfl

end

/-!
## Order and alignment
-/

structure Layout (B : Board) : Prop where
  sector_pos : 0 < B.sectorSize
  uboot_end : B.uboot.offset + B.uboot.size ≤ B.env.offset
  env_end : B.env.offset + B.env.size ≤ B.factory.offset
  factory_end : B.factory.offset + B.factory.size ≤ B.firmware.offset
  firmware_end : B.firmware.offset + B.firmware.size ≤ B.flashSize
  env_size : B.configEnvSize ≤ B.env.size
  aligned : forall part, part ∈ B.partitions ->
    B.sectorSize ∣ part.offset ∧ B.sectorSize ∣ part.size

theorem layout_of_initFlash {B : Board} (h : B.initFlash = 0) : Layout B := by
  unfold Board.initFlash at h
  split at h
  · cases h
  · rename_i hfit
    split at h
    · cases h
    · rename_i hparts
      simp only [not_or, Nat.not_lt, gt_iff_lt, Decidable.not_not] at hfit hparts
      rcases hparts with
        ⟨huboot, henv, hfactory, hsize, ho1, hs1, ho2, hs2, ho3, hs3, ho4, hs4⟩
      refine ⟨Nat.pos_of_ne_zero hfit.1, huboot, henv, hfactory, hfit.2, hsize, ?_⟩
      intro part hpart
      simp only [Board.partitions, List.mem_cons, List.not_mem_nil, or_false] at hpart
      rcases hpart with rfl | rfl | rfl | rfl
      · exact ⟨Nat.dvd_of_mod_eq_zero ho1, Nat.dvd_of_mod_eq_zero hs1⟩
      · exact ⟨Nat.dvd_of_mod_eq_zero ho2, Nat.dvd_of_mod_eq_zero hs2⟩
      · exact ⟨Nat.dvd_of_mod_eq_zero ho3, Nat.dvd_of_mod_eq_zero hs3⟩
      · exact ⟨Nat.dvd_of_mod_eq_zero ho4, Nat.dvd_of_mod_eq_zero hs4⟩

namespace Layout

variable {B : Board} {part : Partition}

theorem partition_end (hl : Layout B) (hpart : part ∈ B.partitions) :
    part.offset + part.size ≤ B.flashSize := by
  have h1 := hl.uboot_end
  have h2 := hl.env_end
  have h3 := hl.factory_end
  have h4 := hl.firmware_end
  simp only [Board.partitions, List.mem_cons, List.not_mem_nil, or_false] at hpart
  rcases hpart with rfl | rfl | rfl | rfl
  · show B.uboot.offset + B.uboot.size ≤ B.flashSize
    lia
  · show B.env.offset + B.env.size ≤ B.flashSize
    lia
  · show B.factory.offset + B.factory.size ≤ B.flashSize
    lia
  · exact h4

theorem sector_le (hl : Layout B) : B.sectorSize ≤ B.firmware.offset := by
  have henv : B.sectorSize ∣ B.env.size :=
    (hl.aligned B.envPartition (by simp [Board.partitions])).2
  have hpos : 0 < B.env.size :=
    Nat.lt_of_lt_of_le (by decide) (Nat.le_trans B.configEnvSize_ge hl.env_size)
  have hle := Nat.le_of_dvd hpos henv
  have h2 := hl.env_end
  have h3 := hl.factory_end
  lia

/-- What a job erases for an image of `size` bytes: whole sectors that hold the
image and lie in the partition. -/
theorem eraseSize {E : Type} {P : Platform E} (hl : Layout P.toBoard)
    (hpart : part ∈ P.partitions) {size : Nat} (hsize : size ≤ part.size)
    (keep : Bool) :
    let n := if part.has PART_FIRMWARE then firmwareEraseSize P part size keep
      else part.size
    size ≤ n ∧ n ≤ part.size ∧ P.sectorSize ∣ n := by
  have hdvd := (hl.aligned part hpart).2
  dsimp only
  split
  · rename_i hfirmware
    have hend := hl.partition_end hpart
    have hflash := P.flashSize_le
    have hsector : P.sectorSize ≤ part.offset := by
      simp only [Board.partitions, List.mem_cons, List.not_mem_nil, or_false] at hpart
      rcases hpart with rfl | rfl | rfl | rfl
      · exact absurd hfirmware (by rw [ubootPartition_has]; decide)
      · exact absurd hfirmware (by rw [envPartition_has]; decide)
      · exact absurd hfirmware (by rw [factoryPartition_has]; decide)
      · exact hl.sector_le
    have hbound : size + P.sectorSize ≤ 2 ^ 32 := by lia
    have hle := roundup32_le hl.sector_pos hbound hsize hdvd
    rcases roundup32_spec hl.sector_pos hbound with ⟨_, hge, _, hneed⟩
    unfold firmwareEraseSize
    dsimp only
    split
    · exact ⟨hge, hle, hneed⟩
    · rcases Nat.eq_zero_or_pos part.size with hzero | hpos
      · rw [hzero, Nat.zero_min]
        exact ⟨by lia, Nat.le_refl 0, Nat.dvd_zero _⟩
      · rw [u32_of_lt (by lia)]
        refine ⟨by lia, Nat.min_le_left _ _, ?_⟩
        rcases Nat.le_total part.size
          (roundup32 size P.sectorSize + 2 * P.sectorSize) with h | h
        · rw [Nat.min_eq_left h]
          exact hdvd
        · rw [Nat.min_eq_right h]
          exact Nat.dvd_add hneed (Nat.dvd_mul_left _ _)
  · exact ⟨hsize, Nat.le_refl _, hdvd⟩

end Layout

end Webflash
end Hlk7621
