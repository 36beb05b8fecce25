import Hlk7621.Mtd.Split

/-!
# The parts of the firmware partition

What `__mtdsplit_parse_uimage` makes of a partition.  Behind an image at its start
everything up to the root filesystem belongs to the kernel.  Behind a root filesystem
the kernel is the image alone, and what follows the image belongs to no part.  The sums
of the code are those of 32 bits, and behind its last round the search leaves the size
of an image that does not fit.
-/

namespace Hlk7621
namespace Mtd

/-!
## Images
-/

/-- The size of an image, with its header, what stands before it and its padding. -/
def imageSize (dt : UimageDt) (header : Bytes) : Nat :=
  uimageHeaderSize + beNat ((header.drop 12).take 4) + dt.headerOffset + dt.extralen

def imageAt (master : MtdInfo) (dt : UimageDt) (offset : Nat) : Option Nat :=
  match master.read offset (uimageHeaderSize + dt.headerOffset) with
  | none => none
  | some buf =>
      if dt.headerOffset ≠ 0 ∧ dt.partMagic ≠ 0 ∧ beNat (buf.take 4) ≠ dt.partMagic then
        none
      else if uimageVerifyDefault dt (buf.drop dt.headerOffset) then
        some (imageSize dt (buf.drop dt.headerOffset))
      else none

section

variable {master : MtdInfo} {dt : UimageDt}

/-- Behind a block that begins inside the partition, the next one begins there or at its
end. -/
theorem block_fits {erasesize size offset : Nat} (hsize : erasesize ∣ size)
    (hoffset : erasesize ∣ offset) (hlt : offset < size) : offset + erasesize ≤ size := by
  have := Nat.le_of_dvd (by lia) (Nat.dvd_sub hsize hoffset)
  lia

theorem findUimage_succ (master : MtdInfo) (dt : UimageDt) (fuel : Nat) {offset : Nat}
    (uimageSize : Nat) (hlt : offset < master.size) :
    findUimage master dt (fuel + 1) offset uimageSize =
      match imageAt master dt offset with
      | none => findUimage master dt fuel (u32 (offset + master.erasesize)) 0
      | some n =>
          if u32 (offset + u32 n) > master.size then
            findUimage master dt fuel (u32 (offset + master.erasesize)) (u32 n)
          else (offset, u32 n) := by
  rw [findUimage, if_pos hlt]
  unfold imageAt
  cases master.read offset (uimageHeaderSize + dt.headerOffset) with
  | none => rfl
  | some buf =>
      dsimp only
      split
      · rfl
      · split
        · rfl
        · rfl

def SeemsToFit (master : MtdInfo) (dt : UimageDt) (offset n : Nat) : Prop :=
  imageAt master dt offset = some n ∧ u32 (offset + u32 n) ≤ master.size

def NoneFits (master : MtdInfo) (dt : UimageDt) (first last : Nat) : Prop :=
  forall offset n, master.erasesize ∣ offset -> first ≤ offset -> offset < last ->
    ¬ SeemsToFit master dt offset n

theorem NoneFits.cons {first last : Nat} (hfirst : master.erasesize ∣ first)
    (h : NoneFits master dt (first + master.erasesize) last)
    (hnot : forall n, ¬ SeemsToFit master dt first n) : NoneFits master dt first last := by
  intro offset n hdvd hle hlt
  by_cases heq : offset = first
  · rw [heq]
    exact hnot n
  · exact h offset n hdvd (block_fits hdvd hfirst (by lia)) hlt

/-- A search from `first` on has stopped at the first image that seems to fit, or at the
end with what the last block has left. -/
def Stops (master : MtdInfo) (dt : UimageDt) (first : Nat) (r : Nat × Nat) : Prop :=
  (r.1 < master.size ∧ master.erasesize ∣ r.1 ∧ NoneFits master dt first r.1 ∧
      exists n, SeemsToFit master dt r.1 n ∧ r.2 = u32 n) ∨
    (NoneFits master dt first master.size ∧
      (r.2 = 0 ∨ imageAt master dt (master.size - master.erasesize) ≠ none))

theorem Stops.cons {first : Nat} {r : Nat × Nat} (hfirst : master.erasesize ∣ first)
    (h : Stops master dt (first + master.erasesize) r)
    (hnot : forall n, ¬ SeemsToFit master dt first n) : Stops master dt first r := by
  rcases h with ⟨hlt, hblock, hnone, hfits⟩ | ⟨hnone, hleft⟩
  · exact Or.inl ⟨hlt, hblock, hnone.cons hfirst hnot, hfits⟩
  · exact Or.inr ⟨hnone.cons hfirst hnot, hleft⟩

theorem findUimage_stops (hsize : master.size < 2 ^ 32) (herase : 0 < master.erasesize)
    (hdvd : master.erasesize ∣ master.size) {fuel offset uimageSize : Nat}
    (hoffset : master.erasesize ∣ offset) (hle : offset ≤ master.size)
    (hfuel : master.size - offset < fuel)
    (hleft : uimageSize = 0 ∨ imageAt master dt (offset - master.erasesize) ≠ none) :
    Stops master dt offset (findUimage master dt fuel offset uimageSize) := by
  induction fuel generalizing offset uimageSize with
  | zero => lia
  | succ fuel ih =>
      by_cases hlt : offset < master.size
      · have hnext := block_fits hdvd hoffset hlt
        have hback : offset + master.erasesize - master.erasesize = offset :=
          Nat.add_sub_cancel _ _
        have hblock := Nat.dvd_add hoffset (Nat.dvd_refl master.erasesize)
        rw [findUimage_succ master dt fuel uimageSize hlt, u32_of_lt (by lia)]
        cases himage : imageAt master dt offset with
        | none =>
            refine (ih hblock hnext (by lia) (Or.inl rfl)).cons hoffset fun n h => ?_
            have hsome := h.left
            rw [himage] at hsome
            cases hsome
        | some n =>
            dsimp only
            by_cases hexceeds : u32 (offset + u32 n) > master.size
            · rw [if_pos hexceeds]
              have hleft : imageAt master dt (offset + master.erasesize - master.erasesize) ≠
                  none := by
                rw [hback, himage]
                simp
              refine (ih hblock hnext (by lia) (Or.inr hleft)).cons hoffset fun n' h => ?_
              have hsome := h.left
              rw [himage] at hsome
              cases hsome
              exact absurd h.right (Nat.not_le_of_lt hexceeds)
            · rw [if_neg hexceeds]
              exact Or.inl ⟨hlt, hoffset, fun a _ _ hle hlt => by lia,
                n, ⟨himage, Nat.le_of_not_lt hexceeds⟩, rfl⟩
      · rw [findUimage, if_neg hlt]
        have hend : offset = master.size := by lia
        exact Or.inr ⟨fun a _ _ hle hlt => by lia, hend ▸ hleft⟩

theorem mtdFindRootfsFrom_spec (hsize : master.size < 2 ^ 32)
    (hdvd : master.erasesize ∣ master.size) {fuel offset r : Nat} {type : PartType}
    (h : mtdFindRootfsFrom master master.size fuel offset = .ok (r, type)) :
    offset ≤ r ∧ r < master.size ∧ mtdCheckRootfsMagic master r = .ok type := by
  induction fuel generalizing offset with
  | zero => cases h
  | succ fuel ih =>
      rw [mtdFindRootfsFrom] at h
      split at h
      · rename_i hlt
        split at h
        · rcases ih h with ⟨hle, hrest⟩
          refine ⟨Nat.le_trans ?_ hle, hrest⟩
          have hdown : mtdRounddownToEb offset master.erasesize =
              offset / master.erasesize * master.erasesize := by
            unfold mtdRounddownToEb
            split
            · rename_i hzero
              exact (Nat.div_mul_cancel (Nat.dvd_of_mod_eq_zero hzero)).symm
            · have := Nat.div_mul_le_self offset master.erasesize
              exact u32_of_lt (by lia)
          have hle := Nat.div_mul_le_self offset master.erasesize
          have hnext := block_fits hdvd (Nat.dvd_mul_left _ (offset / master.erasesize))
            (Nat.lt_of_le_of_lt hle hlt)
          have hmod := Nat.div_add_mod' offset master.erasesize
          have hlast : offset % master.erasesize < master.erasesize := by
            refine Nat.mod_lt _ (Nat.pos_of_ne_zero fun hzero => ?_)
            rw [hzero, Nat.zero_dvd] at hdvd
            lia
          unfold mtdNextEb
          rw [hdown, u32_of_lt (by lia)]
          lia
        · rename_i hmagic
          cases h
          exact ⟨Nat.le_refl _, hlt, hmagic⟩
      · cases h

end

/-!
## Parts
-/

def Covers (master : MtdInfo) (parts : UimageParts) : Prop :=
  forall a, a < master.size ->
    (parts.kernel.offset ≤ a ∧ a < parts.kernel.offset + parts.kernel.size) ∨
      (parts.rootfs.offset ≤ a ∧ a < parts.rootfs.offset + parts.rootfs.size)

/-- The parts are inside the partition and disjoint, the kernel holds an image from its
start on and the root filesystem begins with a magic number. -/
structure Sound (master : MtdInfo) (dt : UimageDt) (parts : UimageParts) : Prop where
  kernel_inside : parts.kernel.offset + parts.kernel.size ≤ master.size
  rootfs_inside : parts.rootfs.offset + parts.rootfs.size ≤ master.size
  disjoint : parts.kernel.offset + parts.kernel.size ≤ parts.rootfs.offset ∨
    parts.rootfs.offset + parts.rootfs.size ≤ parts.kernel.offset
  image : exists n, imageAt master dt parts.kernel.offset = some n ∧ n ≤ parts.kernel.size
  magic : mtdCheckRootfsMagic master parts.rootfs.offset = .ok parts.type

/-- A root filesystem in front of the kernel ends where the image begins, and the kernel
is the image. -/
structure RootfsFirst (master : MtdInfo) (dt : UimageDt) (parts : UimageParts) : Prop where
  start : parts.rootfs.offset = 0
  joined : parts.rootfs.size = parts.kernel.offset
  image : imageAt master dt parts.kernel.offset = some parts.kernel.size

section

variable {master : MtdInfo} {dt : UimageDt} {parts : UimageParts}

def NoWrap (master : MtdInfo) (dt : UimageDt) : Prop :=
  forall offset n, offset < master.size -> master.erasesize ∣ offset ->
    NoneFits master dt 0 offset -> SeemsToFit master dt offset n -> offset + n < 2 ^ 32

def NoLeftOver (master : MtdInfo) (dt : UimageDt) : Prop :=
  NoneFits master dt 0 master.size ->
    imageAt master dt (master.size - master.erasesize) = none

theorem findUimage_image (hsize : master.size < 2 ^ 32) (herase : 0 < master.erasesize)
    (hdvd : master.erasesize ∣ master.size) (hwrap : NoWrap master dt)
    (hlast : NoLeftOver master dt)
    (hfound : (findUimage master dt (master.size + 1) 0 0).2 ≠ 0) :
    let r := findUimage master dt (master.size + 1) 0 0
    r.1 + r.2 ≤ master.size ∧ r.1 < master.size ∧ imageAt master dt r.1 = some r.2 := by
  have hspec := findUimage_stops hsize herase hdvd (Nat.dvd_zero _) (Nat.zero_le _)
    (show master.size - 0 < master.size + 1 by lia)
    (show 0 = 0 ∨ imageAt master dt (0 - master.erasesize) ≠ none from Or.inl rfl)
  dsimp only at hfound ⊢
  generalize findUimage master dt (master.size + 1) 0 0 = r at hspec hfound ⊢
  rcases hspec with ⟨hlt, hblock, hnone, n, hfits, hn⟩ | ⟨hnone, hzero | hsome⟩
  · have hsmall := hwrap r.1 n hlt hblock hnone hfits
    have hend := hfits.right
    rw [u32_of_lt (show n < 2 ^ 32 by lia)] at hn hend
    rw [u32_of_lt hsmall] at hend
    rw [hn]
    exact ⟨hend, hlt, hfits.left⟩
  · exact absurd hzero hfound
  · exact absurd (hlast hnone) hsome

/-- The parts of a partition: sound, and without a gap behind a kernel at its start. -/
theorem uimage_parts (hsize : master.size < 2 ^ 32) (herase : 0 < master.erasesize)
    (hdvd : master.erasesize ∣ master.size) (hwrap : NoWrap master dt)
    (hlast : NoLeftOver master dt) (h : mtdsplitParseUimage master dt = .ok parts) :
    Sound master dt parts ∧ (parts.kernel.offset = 0 -> Covers master parts) ∧
      (parts.kernel.offset ≠ 0 -> RootfsFirst master dt parts) := by
  unfold mtdsplitParseUimage at h
  dsimp only at h
  split at h
  · cases h
  · rename_i hfound
    rcases findUimage_image hsize herase hdvd hwrap hlast hfound with ⟨hend, hlt, himage⟩
    generalize findUimage master dt (master.size + 1) 0 0 = r at h hend hlt himage
    split at h
    · cases h
    · rename_i rootfsOffset rootfsSize uimageSize type hparts
      split at h
      · cases h
      · cases h
        by_cases hzero : r.1 = 0
        · rw [if_pos hzero, u32_of_lt hsize, u32_of_lt (by lia)] at hparts
          split at hparts
          · cases hparts
          · rename_i hrootfs
            cases hparts
            rcases mtdFindRootfsFrom_spec hsize hdvd hrootfs with ⟨hfrom, hrlt, hmagic⟩
            rw [u32_of_lt (by lia)]
            refine ⟨⟨?_, ?_, Or.inl ?_, ⟨r.2, himage, ?_⟩, hmagic⟩, fun _ a ha => ?_,
              fun hne => absurd hzero hne⟩
            · show r.1 + (rootfsOffset - r.1) ≤ master.size
              lia
            · show rootfsOffset + (master.size - rootfsOffset) ≤ master.size
              lia
            · show r.1 + (rootfsOffset - r.1) ≤ rootfsOffset
              lia
            · show r.2 ≤ rootfsOffset - r.1
              lia
            · show (r.1 ≤ a ∧ a < r.1 + (rootfsOffset - r.1)) ∨
                (rootfsOffset ≤ a ∧ a < rootfsOffset + (master.size - rootfsOffset))
              lia
        · rw [if_neg hzero] at hparts
          split at hparts
          · cases hparts
          · rename_i hmagic
            cases hparts
            refine ⟨⟨hend, ?_, Or.inr ?_, ⟨r.2, himage, Nat.le_refl _⟩, hmagic⟩,
              fun hz => absurd hz hzero, fun _ => ⟨rfl, rfl, himage⟩⟩
            · show 0 + r.1 ≤ master.size
              lia
            · show 0 + r.1 ≤ r.1
              lia

end

/-!
## A kernel behind a root filesystem
-/

def shortHeader : Bytes :=
  [0x27, 0x05, 0x19, 0x56] ++ List.replicate 8 0 ++ [0, 0, 0, 16] ++ List.replicate 12 0 ++
    [5, 5, 2, 0] ++ List.replicate 32 0

def rootfsFirst : Bytes :=
  str "hsqs" ++ List.replicate 124 0 ++ shortHeader ++ List.replicate 192 0xff

def rootfsFirstMtd : MtdInfo where
  size := 384
  erasesize := 128
  read a n := if a + n ≤ 384 then some ((rootfsFirst.drop a).take n) else none

def rootfsFirstParts : UimageParts :=
  ⟨⟨"kernel", 128, 80⟩, ⟨"rootfs", 0, 128⟩, .squashfs⟩

theorem parse_rootfsFirst : mtdsplitParseUimage rootfsFirstMtd {} = .ok rootfsFirstParts := by
  decide +kernel

theorem noWrap_rootfsFirst : NoWrap rootfsFirstMtd {} := by
  have hsmall : forall offset, offset < 384 ->
      (imageAt rootfsFirstMtd {} offset).all (fun n => offset + n < 1000) = true := by
    decide +kernel
  intro offset n hlt _ _ hfits
  have h := hsmall offset hlt
  rw [hfits.left] at h
  have hn : offset + n < 1000 := of_decide_eq_true h
  lia

theorem uimage_parts_rootfsFirst :
    Sound rootfsFirstMtd {} rootfsFirstParts ∧
      (rootfsFirstParts.kernel.offset = 0 -> Covers rootfsFirstMtd rootfsFirstParts) ∧
      (rootfsFirstParts.kernel.offset ≠ 0 ->
        RootfsFirst rootfsFirstMtd {} rootfsFirstParts) := by
  exact uimage_parts (by decide) (by decide) (by decide) noWrap_rootfsFirst
    (fun _ => by decide +kernel) parse_rootfsFirst

/-- What follows the image is in no part. -/
theorem rootfsFirst_not_covered :
    mtdsplitParseUimage rootfsFirstMtd {} = .ok rootfsFirstParts ∧
      ¬ Covers rootfsFirstMtd rootfsFirstParts := by
  refine ⟨parse_rootfsFirst, fun h => ?_⟩
  rcases h 300 (by decide) with ⟨_, hlt⟩ | ⟨_, hlt⟩
  · exact absurd hlt (by decide)
  · exact absurd hlt (by decide)

end Mtd
end Hlk7621
