import Hlk7621.Webflash.Exclusion
import Hlk7621.Webflash.Layout

/-!
# Factory reset

`webflash_find_overlay` selects the lowest acceptable superblock of the firmware
partition.  What it returns lies behind the root filesystem exactly if the end
of that filesystem, the 64-bit sum of the address of the superblock and its
`bytes_used` field, does not wrap around.
-/

namespace Hlk7621
namespace Webflash

/-- The `bytes_used` field of a superblock at flash address `p`. -/
def bytesUsed (mem : Nat -> UInt8) (p : Nat) : Nat :=
  leNat (((window mem p SQUASHFS_SB_SIZE).drop 40).take 8)

section

variable (B : Board) (mem : Nat -> UInt8)

def candidateAt (p : Nat) : Option Nat :=
  overlayCandidate B.sectorSize (B.firmware.offset + B.firmware.size) p
    (window mem p SQUASHFS_SB_SIZE)

structure FirstSuperblock (p overlay : Nat) : Prop where
  start : B.firmware.offset ≤ p
  fits : p + SQUASHFS_SB_SIZE ≤ B.firmware.offset + B.firmware.size
  accepted : candidateAt B mem p = some overlay
  first : forall q, B.firmware.offset ≤ q -> q < p -> candidateAt B mem q = none

variable {B mem}

theorem FirstSuperblock.unique {p q overlay overlay' : Nat}
    (h : FirstSuperblock B mem p overlay) (h' : FirstSuperblock B mem q overlay') :
    p = q ∧ overlay = overlay' := by
  have hpq : p = q := by
    rcases Nat.lt_trichotomy p q with hlt | heq | hgt
    · cases (h'.first p h.start hlt).symm.trans h.accepted
    · exact heq
    · cases (h.first q h'.start hgt).symm.trans h'.accepted
  subst hpq
  exact ⟨rfl, Option.some.inj (h.accepted.symm.trans h'.accepted)⟩

theorem candidateAt_some {p overlay : Nat} (h : candidateAt B mem p = some overlay) :
    SQUASHFS_SB_SIZE ≤ bytesUsed mem p ∧
      (p + bytesUsed mem p) % 2 ^ 64 < B.firmware.offset + B.firmware.size ∧
      overlay = roundup32 (u32 ((p + bytesUsed mem p) % 2 ^ 64)) B.sectorSize ∧
      overlay < B.firmware.offset + B.firmware.size := by
  simp only [candidateAt, overlayCandidate] at h
  split at h
  · cases h
  · split at h
    · cases h
    · split at h
      · cases h
      · rename_i hused
        split at h
        · cases h
        · rename_i hend
          split at h
          · rename_i hlt
            cases h
            exact ⟨Nat.le_of_not_lt hused, Nat.lt_of_not_le hend, rfl, hlt⟩
          · cases h

end

/-!
## The search
-/

section

variable {sectorSize stop pos : Nat} {buf : Nat -> UInt8}

theorem scanWindow_some {n i q c : Nat}
    (h : scanWindow sectorSize stop pos buf n i = some (q, c)) :
    exists j, i ≤ j ∧ j < i + n ∧ q = pos + j ∧
      overlayCandidate sectorSize stop (pos + j)
        (window buf j SQUASHFS_SB_SIZE) = some c ∧
      forall k, i ≤ k -> k < j ->
        overlayCandidate sectorSize stop (pos + k)
          (window buf k SQUASHFS_SB_SIZE) = none := by
  induction n generalizing i with
  | zero => cases h
  | succ n ih =>
      rw [scanWindow] at h
      split at h
      · rename_i c' hc
        cases h
        exact ⟨i, Nat.le_refl i, by lia, rfl, hc, fun k hik hki => by lia⟩
      · rename_i hnone
        rcases ih h with ⟨j, hij, hj, hq, hc, hfirst⟩
        refine ⟨j, by lia, by lia, hq, hc, ?_⟩
        intro k hik hkj
        rcases Nat.eq_or_lt_of_le hik with heq | hlt
        · rw [<- heq]
          exact hnone
        · exact hfirst k hlt hkj

theorem scanWindow_none {n i : Nat}
    (h : scanWindow sectorSize stop pos buf n i = none) {j : Nat} (hij : i ≤ j)
    (hj : j < i + n) :
    overlayCandidate sectorSize stop (pos + j)
      (window buf j SQUASHFS_SB_SIZE) = none := by
  induction n generalizing i with
  | zero => lia
  | succ n ih =>
      rw [scanWindow] at h
      split at h
      · cases h
      · rename_i hnone
        rcases Nat.eq_or_lt_of_le hij with heq | hlt
        · rw [<- heq]
          exact hnone
        · exact ih h hlt (by lia)

end

variable {E : Type} {P : Platform E} {contents : E -> Nat -> UInt8}

theorem overlayStop_eq : overlayStop P = P.firmware.offset + P.firmware.size :=
  u32_of_lt P.firmware.fits

/-- The outcome of the search from address `pos`, in front of which there is no
acceptable superblock: the first one, or none in the whole partition. -/
def Searched (B : Board) (mem : Nat -> UInt8) (r : Except Int (Nat × Nat)) : Prop :=
  (exists p overlay, r = .ok (p, overlay) ∧ FirstSuperblock B mem p overlay) ∨
    r = .error (-ENOENT) ∧ forall q, B.firmware.offset ≤ q ->
      q + SQUASHFS_SB_SIZE ≤ B.firmware.offset + B.firmware.size ->
      candidateAt B mem q = none

theorem searched_findOverlayLoop (hread : SoundRead P contents)
    (hl : Layout P.toBoard) {fuel pos : Nat} {e : E}
    (hfuel : P.firmware.offset + P.firmware.size < pos + fuel)
    (hstart : P.firmware.offset ≤ pos)
    (hle : pos ≤ P.firmware.offset + P.firmware.size + IO_SIZE)
    (hbefore : forall q, P.firmware.offset ≤ q -> q < pos ->
      q + SQUASHFS_SB_SIZE ≤ P.firmware.offset + P.firmware.size ->
      candidateAt P.toBoard (contents e) q = none) :
    Searched P.toBoard (contents e) (findOverlayLoop P fuel pos e).1 := by
  have hflash := hl.firmware_end
  have hsize := P.flashSize_le
  induction fuel generalizing pos e with
  | zero =>
      refine Or.inr ⟨rfl, fun q hq hfit => hbefore q hq ?_ hfit⟩
      unfold SQUASHFS_SB_SIZE at hfit
      lia
  | succ fuel ih =>
      rw [findOverlayLoop, overlayStop_eq]
      have hpos : u32 (pos + SQUASHFS_SB_SIZE) = pos + SQUASHFS_SB_SIZE :=
        u32_of_lt (by unfold SQUASHFS_SB_SIZE IO_SIZE at *; lia)
      rw [hpos]
      split
      · rename_i hfits
        rw [sub32_of_le (by lia) P.firmware.fits]
        generalize hlen : min IO_SIZE (P.firmware.offset + P.firmware.size - pos) =
          readLen
        rcases hread.read pos readLen e (by lia) with ⟨hret, hdata, hkept⟩
        dsimp only
        rw [if_neg (by simp [hret])]
        -- A position of the window is an address of the flash.
        have hsame : forall j, j + SQUASHFS_SB_SIZE ≤ readLen ->
            overlayCandidate P.sectorSize (P.firmware.offset + P.firmware.size)
              (pos + j) (window (P.spiFlashRead pos readLen e).2.1 j
                SQUASHFS_SB_SIZE) =
            candidateAt P.toBoard (contents e) (pos + j) := by
          intro j hj
          have hwin := window_inside hdata hj
          rw [Nat.zero_add] at hwin
          unfold candidateAt
          rw [hwin]
        have hcount : forall j, j < windowCount readLen -> j + SQUASHFS_SB_SIZE ≤ readLen := by
          intro j hj
          unfold windowCount at hj
          lia
        split
        · rename_i found hfound
          rcases found with ⟨p, overlay⟩
          rcases scanWindow_some hfound with ⟨j, _, hj, rfl, hc, hfirst⟩
          have hfit := hcount j (by lia)
          rw [hsame j hfit] at hc
          refine Or.inl ⟨pos + j, overlay, rfl, by lia, by lia, hc, ?_⟩
          intro q hq hqp
          by_cases hqpos : q < pos
          · exact hbefore q hq hqpos (by lia)
          · have hk := hfirst (q - pos) (Nat.zero_le _) (by lia)
            rw [hsame (q - pos) (by lia)] at hk
            rw [show q = pos + (q - pos) by lia]
            exact hk
        · rename_i hnone
          have hnext : u32 (pos + (IO_SIZE - (SQUASHFS_SB_SIZE - 1))) =
              pos + (IO_SIZE - (SQUASHFS_SB_SIZE - 1)) :=
            u32_of_lt (by unfold SQUASHFS_SB_SIZE IO_SIZE at *; lia)
          rw [hnext, <- hkept]
          refine ih ?_ (by lia) ?_ ?_
          · unfold SQUASHFS_SB_SIZE IO_SIZE at *
            lia
          · unfold SQUASHFS_SB_SIZE IO_SIZE at *
            lia
          · rw [hkept]
            intro q hq hqnext hqfit
            by_cases hqpos : q < pos
            · exact hbefore q hq hqpos hqfit
            · have hj : q - pos < windowCount readLen := by
                unfold windowCount SQUASHFS_SB_SIZE IO_SIZE at *
                lia
              have hk := scanWindow_none hnone (Nat.zero_le (q - pos)) (by lia)
              rw [hsame (q - pos) (hcount _ hj)] at hk
              rw [show q = pos + (q - pos) by lia]
              exact hk
      · rename_i hover
        refine Or.inr ⟨rfl, fun q hq hfit => hbefore q hq ?_ hfit⟩
        lia

theorem findOverlay_iff (hread : SoundRead P contents) (hl : Layout P.toBoard)
    {e : E} {p overlay : Nat} :
    (findOverlay P e).1 = .ok (p, overlay) <->
      FirstSuperblock P.toBoard (contents e) p overlay := by
  have hsearch : Searched P.toBoard (contents e) (findOverlay P e).1 :=
    searched_findOverlayLoop hread hl (by lia) (Nat.le_refl _) (by lia)
      (fun q hq hlt _ => by lia)
  rcases hsearch with ⟨p', overlay', hok, hfirst⟩ | ⟨herror, hnone⟩
  · rw [hok]
    constructor
    · intro h
      cases h
      exact hfirst
    · intro h
      rcases h.unique hfirst with ⟨rfl, rfl⟩
      rfl
  · rw [herror]
    constructor
    · intro h
      cases h
    · intro h
      cases (hnone p h.start h.fits).symm.trans h.accepted

/-!
## The job
-/

def ErasesWithin (lo hi : Nat) (a : Action) : Prop :=
  exists off len ret, a = .erase .eraseSettings off len ret ∧ lo ≤ off ∧
    off + len ≤ hi

structure Resetting (P : Platform E) (overlay : Nat) (w : World E) : Prop where
  task : w.ctx.job.task = (resetJob P overlay).task
  erasing : jobActive w.ctx = true ->
    w.ctx.job.phase = .erasing ∧ w.ctx.job.processed ≤ w.ctx.job.eraseSize

variable {w : World E} {overlay : Nat}

theorem Resetting.fields (hw : Resetting P overlay w)
    (hover : overlay < P.firmware.offset + P.firmware.size) :
    w.ctx.job.mode = .eraseSettings ∧ w.ctx.job.part = some P.firmwarePartition ∧
      w.ctx.job.eraseOffset = overlay ∧
      w.ctx.job.eraseSize = P.firmware.offset + P.firmware.size - overlay := by
  have hsize : (resetJob P overlay).eraseSize =
      P.firmware.offset + P.firmware.size - overlay := by
    show sub32 (u32 _) overlay = _
    rw [u32_of_lt P.firmware.fits, sub32_of_le (Nat.le_of_lt hover) P.firmware.fits]
  exact ⟨congrArg Job.mode hw.task, congrArg Job.part hw.task,
    congrArg Job.eraseOffset hw.task, (congrArg Job.eraseSize hw.task).trans hsize⟩

theorem Resetting.jobStep (now : Nat) (hw : Resetting P overlay w)
    (hover : overlay < P.firmware.offset + P.firmware.size) :
    Resetting P overlay (jobStep P now w) ∧
      Extends (ErasesWithin overlay (P.firmware.offset + P.firmware.size)) w.log
        (jobStep P now w).log := by
  have hround := jobRound_jobStep P now w
  have htask := hround.trace.task.trans hw.task
  have hmove : JobMove P now w (Webflash.jobStep P now w) := jobMove_jobStep
  generalize Webflash.jobStep P now w = v at htask hmove
  rcases hw.fields hover with ⟨hmode, hpart, hoffset, hsize⟩
  have hfits := P.firmware.fits
  -- The range erased next.
  have hrange : w.ctx.job.phase = .erasing -> forall ret,
      w.ctx.job.processed + eraseChunk P w.ctx.job ≤ w.ctx.job.eraseSize ∧
      ErasesWithin overlay (P.firmware.offset + P.firmware.size)
        (.erase w.ctx.job.mode (eraseAddr w.ctx.job) (eraseChunk P w.ctx.job)
          ret) := by
    intro hphase ret
    have hle := (hw.erasing (by simp [jobActive, hphase])).2
    have hnext := eraseChunk_le (P := P) (by lia) hle
    refine ⟨hnext, _, _, ret, by rw [hmode], ?_, ?_⟩
    · unfold eraseAddr
      rw [hoffset, u32_of_lt (by lia)]
      lia
    · unfold eraseAddr
      rw [hoffset, u32_of_lt (by lia)]
      lia
  -- Nothing is written or verified.
  have hactive : forall {phase}, w.ctx.job.phase = phase -> phase ≠ .erasing ->
      jobActive w.ctx = true -> Resetting P overlay v ∧
        Extends (ErasesWithin overlay (P.firmware.offset + P.firmware.size))
          w.log v.log := by
    intro phase hphase hne hjob
    exact absurd (hphase.symm.trans (hw.erasing hjob).1) hne
  cases hmove with
  | idle inactive => exact ⟨hw, .refl _⟩
  | fault part => cases part.symm.trans hpart
  | eraseFailed ret ext phase dev failed =>
      exact ⟨⟨htask, fun h => by cases h⟩, .cons (hrange phase ret).2⟩
  | erased ext phase dev more =>
      refine ⟨⟨htask, fun _ => ⟨phase, ?_⟩⟩, .cons (hrange phase 0).2⟩
      have hnext := (hrange phase 0).1
      show u32 (w.ctx.job.processed + eraseChunk P w.ctx.job) ≤ w.ctx.job.eraseSize
      rw [u32_of_lt (by lia)]
      exact hnext
  | erasedAll ext phase dev full mode => exact absurd hmode mode
  | settingsErased ext phase dev full mode =>
      exact ⟨⟨htask, fun h => by cases h⟩, .cons (hrange phase 0).2⟩
  | writeFailed part ret ext phase hpart dev failed =>
      exact hactive phase (by decide) (by simp [jobActive, phase])
  | written part ext phase hpart dev more =>
      exact hactive phase (by decide) (by simp [jobActive, phase])
  | writtenAll part ext phase hpart dev full =>
      exact hactive phase (by decide) (by simp [jobActive, phase])
  | readFailed part ret data ext phase hpart dev failed =>
      exact hactive phase (by decide) (by simp [jobActive, phase])
  | read part data ext phase hpart dev more =>
      exact hactive phase (by decide) (by simp [jobActive, phase])
  | mismatch part data ext phase hpart dev full crc =>
      exact hactive phase (by decide) (by simp [jobActive, phase])
  | readAll part data ext phase hpart dev full crc =>
      exact hactive phase (by decide) (by simp [jobActive, phase])

theorem Resetting.step {e : Nat × Event} (hw : Resetting P overlay w)
    (hover : overlay < P.firmware.offset + P.firmware.size) (hexcl : Exclusive w)
    (hactive : jobActive w.ctx = true) :
    Resetting P overlay (step P w e) ∧
      Extends (ErasesWithin overlay (P.firmware.offset + P.firmware.size)) w.log
        (step P w e).log := by
  by_cases hjob : e.2 = .jobStep
  · rcases e with ⟨now, e⟩
    cases hjob
    unfold Webflash.step
    split
    · exact ⟨hw, .refl _⟩
    · exact hw.jobStep now hover
  · have hstep := step_undisturbed (P := P) hexcl hactive hjob
    refine ⟨⟨by rw [hstep.job]; exact hw.task, ?_⟩, by rw [hstep.log]; exact .refl _⟩
    intro _
    rw [hstep.job]
    exact hw.erasing hactive

/-- As long as the job is active, whatever else happens, it erases behind
`overlay` only. -/
theorem Resetting.run {events : List (Nat × Event)} (hw : Resetting P overlay w)
    (hover : overlay < P.firmware.offset + P.firmware.size) (hexcl : Exclusive w)
    (hactive : Runs.Along (Webflash.step P) (fun v _ => jobActive v.ctx = true) w
      events) :
    Extends (ErasesWithin overlay (P.firmware.offset + P.firmware.size)) w.log
      (run P w events).log := by
  induction events generalizing w with
  | nil => exact .refl _
  | cons e events ih =>
      rcases hw.step (e := e) hover hexcl hactive.left with ⟨hnext, hlog⟩
      have hexcl' : Exclusive (Webflash.step P w e) := exclusive_run hexcl [e]
      exact hlog.trans (ih hnext hexcl' hactive.right)

/-!
## Behind the root filesystem
-/

/-- The overlay start `overlay`, found in a flash with contents `mem` through the
superblock at `p`, is a sector behind the root filesystem and in the firmware
partition, and the job that erases from there leaves alone what is in front of
it. -/
structure BehindRootfs (P : Platform E) (mem : Nat -> UInt8) (p overlay : Nat) :
    Prop where
  aligned : P.sectorSize ∣ overlay
  behind : p + bytesUsed mem p ≤ overlay
  inside : P.firmware.offset ≤ overlay ∧
    overlay < P.firmware.offset + P.firmware.size
  erases : forall loadAddr ram ext before during,
    (run P (initial loadAddr ram ext) before).ctx.job = resetJob P overlay ->
    Runs.Along (step P) (fun v _ => jobActive v.ctx = true)
      (run P (initial loadAddr ram ext) before) during ->
    Extends (ErasesWithin overlay (P.firmware.offset + P.firmware.size))
      (run P (initial loadAddr ram ext) before).log
      (run P (run P (initial loadAddr ram ext) before) during).log

theorem factoryReset_job {p overlay : Nat}
    (hfound : (findOverlay P w.ext).1 = .ok (p, overlay)) :
    (factoryReset P w).2.ctx.job = w.ctx.job ∨
      (factoryReset P w).2.ctx.job = resetJob P overlay := by
  unfold factoryReset
  split
  · exact Or.inl (netStep_error P _ _ w).job
  · dsimp only
    split
    · exact Or.inl (netStep_checkConfirmation _).job
    · rename_i hconf
      rcases checkConfirmation_zero (by simpa using hconf) with ⟨hsame, _⟩
      simp only [hsame, hfound]
      exact Or.inr (netStep_replyText P _ _ _).job

theorem behindRootfs_of_first (hl : Layout P.toBoard) {mem : Nat -> UInt8}
    {p overlay : Nat} (hfirst : FirstSuperblock P.toBoard mem p overlay)
    (hwrap : p + bytesUsed mem p < 2 ^ 64) : BehindRootfs P mem p overlay := by
  rcases candidateAt_some hfirst.accepted with ⟨_, hend, hround, hover⟩
  rw [Nat.mod_eq_of_lt hwrap] at hend hround
  have hsector := hl.sector_le
  have hflash := hl.firmware_end
  have hsize := P.flashSize_le
  rw [u32_of_lt (by lia)] at hround
  rcases roundup32_spec (x := p + bytesUsed mem p) hl.sector_pos (by lia) with
    ⟨_, hge, _, hdvd⟩
  rw [<- hround] at hge hdvd
  have hstart := hfirst.start
  refine ⟨hdvd, hge, ⟨by lia, hover⟩, ?_⟩
  intro loadAddr ram ext before during hjob hactive
  refine Resetting.run ⟨by rw [hjob], ?_⟩ hover
    (exclusive_run (exclusive_initial loadAddr ram ext) before) hactive
  rw [hjob]
  exact fun _ => ⟨rfl, Nat.zero_le _⟩

/-- On an accepted layout and for every contents of the flash, the overlay that
the search finds lies behind the root filesystem if and only if at the lowest
acceptable superblock the end of the root filesystem is below `2 ^ 64`. -/
theorem overlay_behind_rootfs_iff (P : Platform E) (contents : E -> Nat -> UInt8)
    (hread : SoundRead P contents) (hlayout : P.initFlash = 0) (e : E) :
    (forall p overlay, (findOverlay P e).1 = .ok (p, overlay) ->
      BehindRootfs P (contents e) p overlay ∧
      forall w : World E, w.ext = e ->
        (factoryReset P w).2.ctx.job = w.ctx.job ∨
          (factoryReset P w).2.ctx.job = resetJob P overlay) <->
    forall p overlay, FirstSuperblock P.toBoard (contents e) p overlay ->
      p + bytesUsed (contents e) p < 2 ^ 64 := by
  have hl := layout_of_initFlash hlayout
  constructor
  · intro h p overlay hfirst
    have hbehind := (h p overlay ((findOverlay_iff hread hl).mpr hfirst)).1
    have hinside := hbehind.inside.2
    have hfits := P.firmware.fits
    exact Nat.lt_of_le_of_lt hbehind.behind (by lia)
  · intro h p overlay hfound
    have hfirst := (findOverlay_iff hread hl).mp hfound
    refine ⟨behindRootfs_of_first hl hfirst (h p overlay hfirst), ?_⟩
    rintro w rfl
    exact factoryReset_job hfound

/-!
## Two root filesystems
-/

def superblock (used : Nat) : Bytes :=
  (be32Bytes SQUASHFS_MAGIC).reverse ++ List.replicate 24 0 ++ [4, 0, 0, 0] ++
    List.replicate 8 0 ++ (be32Bytes (used % 2 ^ 32)).reverse ++
    (be32Bytes (used / 2 ^ 32)).reverse ++ List.replicate 48 0

def rootfs (used : Nat) : Nat -> UInt8 :=
  overwrite (fun _ => 0xff) 0x50000 (superblock used)

theorem firstSuperblock_rootfs {used overlay : Nat}
    (h : candidateAt hlk7621a (rootfs used) 0x50000 = some overlay) :
    FirstSuperblock hlk7621a (rootfs used) 0x50000 overlay :=
  ⟨Nat.le_refl _, by decide, h, fun q hq hlt => absurd hlt (Nat.not_lt.mpr hq)⟩

theorem rootfs_overlay_behind :
    BehindRootfs (norPlatform hlk7621a) (rootfs 0x200) 0x50000 0x51000 := by
  have hfirst : FirstSuperblock hlk7621a (rootfs 0x200) 0x50000 0x51000 :=
    firstSuperblock_rootfs (by decide +kernel)
  have hread := (soundFlash_norPlatform hlk7621a).toSoundRead
  have hbehind := overlay_behind_rootfs_iff (norPlatform hlk7621a) (fun mem => mem)
    hread (by decide) (rootfs 0x200)
  refine (hbehind.mpr ?_ 0x50000 0x51000 ?_).1
  · intro p overlay h
    rw [(h.unique hfirst).1]
    decide +kernel
  · exact (findOverlay_iff hread (layout_of_initFlash (by decide))).mpr hfirst

/-- `bytes_used` close to `2 ^ 64` moves the overlay into the U-Boot partition. -/
theorem wrapped_rootfs_overlay_in_uboot :
    let used := 2 ^ 64 - 0x50000 + 0x10
    hlk7621a.initFlash = 0 ∧
    (findOverlay (norPlatform hlk7621a) (rootfs used)).1 = .ok (0x50000, 0x1000) ∧
    ¬ BehindRootfs (norPlatform hlk7621a) (rootfs used) 0x50000 0x1000 := by
  have hread := (soundFlash_norPlatform hlk7621a).toSoundRead
  refine ⟨by decide, ?_, fun h => absurd h.inside.1 (by decide)⟩
  exact (findOverlay_iff hread (layout_of_initFlash (by decide))).mpr
    (firstSuperblock_rootfs (by decide +kernel))

end Webflash
end Hlk7621
