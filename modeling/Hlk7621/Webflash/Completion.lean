import Hlk7621.Webflash.FlashJobs
import Hlk7621.Webflash.Nor

/-!
# Flash jobs on a sound device

On a sound NOR flash and an accepted layout the job for a validated upload runs
through its three phases without an error.  `Stage` says what the flash holds in
the middle of each phase; a round leads from stage to stage and comes closer to
the end of the job.
-/

namespace Hlk7621
namespace Webflash

variable {E : Type} (P : Platform E) (contents : E -> Nat -> UInt8)

/-- The write of `image` to a partition of the flash: the job that does it, and
the contents of the flash before it. -/
structure Write where
  part : Partition
  image : Bytes
  eraseSize : Nat
  base : Nat -> UInt8

namespace Write

variable (W : Write)

def erasing (n : Nat) : Nat -> UInt8 := erased W.base W.part.offset n

def writing (n : Nat) : Nat -> UInt8 :=
  overwrite (erased W.base W.part.offset W.eraseSize) W.part.offset (W.image.take n)

structure Fits (B : Board) : Prop where
  sector : 0 < B.sectorSize
  offset : B.sectorSize ∣ W.part.offset
  erase : B.sectorSize ∣ W.eraseSize
  nonempty : W.image ≠ []
  image_le : W.image.length ≤ W.eraseSize
  erase_le : W.eraseSize ≤ W.part.size
  flash : W.part.offset + W.part.size ≤ B.flashSize

structure Assigned (w : World E) : Prop where
  mode : w.ctx.job.mode = .flash
  part : w.ctx.job.part = some W.part
  buffer : w.ctx.job.sourceBuffer = none
  eraseOffset : w.ctx.job.eraseOffset = W.part.offset
  eraseSize : w.ctx.job.eraseSize = W.eraseSize
  writeSize : w.ctx.job.writeSize = W.image.length
  crc : w.ctx.job.sourceCrc = UBoot.crcOf 0#32 W.image
  addr : w.ctx.job.sourceAddr + W.image.length < 2 ^ 32
  source : window w.ram w.ctx.job.sourceAddr W.image.length = W.image

inductive Source (job : Job) (ram : Nat -> UInt8) : Prop where
  | memory (buffer : job.sourceBuffer = none)
      (addr : job.sourceAddr + W.image.length < 2 ^ 32)
      (source : window ram job.sourceAddr W.image.length = W.image)
  | buffer (buffer : job.sourceBuffer = some W.image)

structure Carried (w : World E) : Prop where
  mode : w.ctx.job.mode = .flash
  part : w.ctx.job.part = some W.part
  eraseOffset : w.ctx.job.eraseOffset = W.part.offset
  eraseSize : w.ctx.job.eraseSize = W.eraseSize
  writeSize : w.ctx.job.writeSize = W.image.length
  crc : w.ctx.job.sourceCrc = UBoot.crcOf 0#32 W.image
  source : W.Source w.ctx.job w.ram

inductive Stage (w : World E) : Prop where
  | erasing (phase : w.ctx.job.phase = .erasing)
      (aligned : P.sectorSize ∣ w.ctx.job.processed)
      (more : w.ctx.job.processed < W.eraseSize)
      (flash : contents w.ext = W.erasing w.ctx.job.processed)
  | writing (phase : w.ctx.job.phase = .writing)
      (more : w.ctx.job.processed < W.image.length)
      (flash : contents w.ext = W.writing w.ctx.job.processed)
  | verifying (phase : w.ctx.job.phase = .verifying)
      (more : w.ctx.job.processed < W.image.length)
      (flash : contents w.ext = W.writing W.image.length)
      (crc : w.ctx.job.verifyCrc =
        UBoot.crcOf 0#32 (W.image.take w.ctx.job.processed))
  | done (phase : w.ctx.job.phase = .done)
      (flash : contents w.ext = W.writing W.image.length)

def remaining (w : World E) : Nat :=
  match w.ctx.job.phase with
  | .erasing => W.eraseSize - w.ctx.job.processed + 2 * W.image.length
  | .writing => W.image.length - w.ctx.job.processed + W.image.length
  | .verifying => W.image.length - w.ctx.job.processed
  | _ => 0

end Write

/-!
## Chunks
-/

theorem jobChunk_erase {sectorSize remaining : Nat} (hsector : 0 < sectorSize)
    (hdvd : sectorSize ∣ remaining) (hpos : 0 < remaining) :
    0 < jobChunk sectorSize remaining true ∧
      sectorSize ∣ jobChunk sectorSize remaining true := by
  have hle : sectorSize ≤ remaining := Nat.le_of_dvd hpos hdvd
  have hmin : min remaining sectorSize = sectorSize := Nat.min_eq_right hle
  unfold jobChunk
  dsimp only
  split
  · rename_i h
    cases h
  · split
    · rw [hmin]
      exact ⟨hsector, Nat.dvd_refl _⟩
    · split
      · rename_i hdown
        exact ⟨Nat.pos_of_ne_zero hdown, Nat.dvd_sub_mod _⟩
      · rw [hmin]
        exact ⟨hsector, Nat.dvd_refl _⟩

theorem jobChunk_data {sectorSize remaining : Nat} (hpos : 0 < remaining) :
    0 < jobChunk sectorSize remaining false := by
  unfold jobChunk IO_SIZE
  simp only [Bool.not_false, if_true]
  lia

/-!
## Rounds
-/

theorem erased_append (mem : Nat -> UInt8) (off n k : Nat) :
    erased (erased mem off n) (off + n) k = erased mem off (n + k) := by
  funext a
  unfold erased
  by_cases hk : off + n ≤ a ∧ a < off + n + k
  · rw [if_pos hk, if_pos (by lia)]
  · rw [if_neg hk]
    by_cases hn : off ≤ a ∧ a < off + n
    · rw [if_pos hn, if_pos (by lia)]
    · rw [if_neg hn, if_neg (by lia)]

namespace Write

variable {P} {contents} {W : Write} {w : World E}

theorem Fits.end_lt (hf : W.Fits P.toBoard) :
    W.part.offset + W.eraseSize ≤ P.flashSize ∧ P.flashSize ≤ 2 ^ 31 := by
  have h1 := hf.erase_le
  have h2 := hf.flash
  exact ⟨by lia, P.flashSize_le⟩

theorem Carried.erase (ha : W.Carried w) (hf : W.Fits P.toBoard)
    (hs : SoundFlash P contents) {ret : Int} {ext : E}
    (haligned : P.sectorSize ∣ w.ctx.job.processed)
    (hmore : w.ctx.job.processed < W.eraseSize)
    (hflash : contents w.ext = W.erasing w.ctx.job.processed)
    (hdev : P.spiFlashErase (eraseAddr w.ctx.job) (eraseChunk P w.ctx.job) w.ext =
      (ret, ext)) :
    ret = 0 ∧ contents ext = W.erasing (w.ctx.job.processed + eraseChunk P w.ctx.job) ∧
      0 < eraseChunk P w.ctx.job ∧ P.sectorSize ∣ eraseChunk P w.ctx.job ∧
      w.ctx.job.processed + eraseChunk P w.ctx.job ≤ W.eraseSize := by
  have hend := hf.end_lt
  have hle := eraseChunk_le (P := P) (by rw [ha.eraseSize]; lia)
    (by rw [ha.eraseSize]; exact Nat.le_of_lt hmore)
  rw [ha.eraseSize] at hle
  have hchunk := jobChunk_erase hf.sector
    (Nat.dvd_sub hf.erase haligned) (Nat.sub_pos_of_lt hmore)
  have hsub : sub32 w.ctx.job.eraseSize w.ctx.job.processed =
      W.eraseSize - w.ctx.job.processed := by
    rw [ha.eraseSize]
    exact sub32_of_le (Nat.le_of_lt hmore) (by lia)
  rw [<- hsub] at hchunk
  have haddr : eraseAddr w.ctx.job = W.part.offset + w.ctx.job.processed := by
    unfold eraseAddr
    rw [ha.eraseOffset, u32_of_lt (by lia)]
  have herase := hs.erase (eraseAddr w.ctx.job) (eraseChunk P w.ctx.job) w.ext
    (by rw [haddr]; exact Nat.dvd_add hf.offset haligned) hchunk.2
    (by rw [haddr]; lia)
  rw [hdev, hflash, haddr] at herase
  refine ⟨herase.1, ?_, hchunk.1, hchunk.2, hle⟩
  rw [herase.2]
  exact erased_append _ _ _ _

def slice (W : Write) (n chunk : Nat) : Bytes := (W.image.drop n).take chunk

theorem take_slice (n chunk : Nat) :
    W.image.take n ++ W.slice n chunk = W.image.take (n + chunk) :=
  List.take_add.symm

theorem slice_length {n chunk : Nat} (h : n + chunk ≤ W.image.length) :
    (W.slice n chunk).length = chunk := by
  simp [slice]
  lia

theorem Carried.chunk (ha : W.Carried w) (hf : W.Fits P.toBoard)
    (hmore : w.ctx.job.processed < W.image.length) :
    0 < dataChunk P w.ctx.job ∧
      w.ctx.job.processed + dataChunk P w.ctx.job ≤ W.image.length ∧
      dataAddr W.part w.ctx.job = W.part.offset + w.ctx.job.processed := by
  have hend := hf.end_lt
  have himage := hf.image_le
  have hle := dataChunk_le (P := P) (by rw [ha.writeSize]; lia)
    (by rw [ha.writeSize]; exact Nat.le_of_lt hmore)
  rw [ha.writeSize] at hle
  refine ⟨?_, hle, u32_of_lt (by lia)⟩
  unfold dataChunk
  rw [ha.writeSize, sub32_of_le (Nat.le_of_lt hmore) (by lia)]
  exact jobChunk_data (Nat.sub_pos_of_lt hmore)

theorem Carried.jobSource (ha : W.Carried w) {chunk : Nat}
    (hle : w.ctx.job.processed + chunk ≤ W.image.length) :
    jobSource w.ctx.job w.ram chunk = W.slice w.ctx.job.processed chunk := by
  unfold Webflash.jobSource slice
  cases ha.source with
  | memory buffer addr source =>
      rw [buffer]
      dsimp only
      rw [u32_of_lt (by lia), <- window_slice w.ram w.ctx.job.sourceAddr hle, source]
  | buffer buffer =>
      rw [buffer]
      have hself : window (fun i => W.image.getD i 0) 0 W.image.length = W.image := by
        rw [window_eq_iff]
        intro i hi
        rw [Nat.zero_add, List.getD_eq_getElem _ _ hi]
      have hslice := window_slice (fun i => W.image.getD i 0) 0 hle
      rw [hself, Nat.zero_add] at hslice
      exact hslice.symm

theorem Carried.write (ha : W.Carried w) (hf : W.Fits P.toBoard)
    (hs : SoundFlash P contents) {ret : Int} {ext : E}
    (hmore : w.ctx.job.processed < W.image.length)
    (hflash : contents w.ext = W.writing w.ctx.job.processed)
    (hdev : P.spiFlashWrite (dataAddr W.part w.ctx.job)
      (Webflash.jobSource w.ctx.job w.ram (dataChunk P w.ctx.job)) w.ext =
        (ret, ext)) :
    ret = 0 ∧ contents ext =
      W.writing (w.ctx.job.processed + dataChunk P w.ctx.job) := by
  rcases ha.chunk hf hmore with ⟨_, hle, haddr⟩
  have hend := hf.end_lt
  have himage := hf.image_le
  have hlength := slice_length hle
  have htake : (W.image.take w.ctx.job.processed).length = w.ctx.job.processed := by
    simp
    lia
  rw [ha.jobSource hle, haddr] at hdev
  have hwrite := hs.write (W.part.offset + w.ctx.job.processed)
    (W.slice w.ctx.job.processed (dataChunk P w.ctx.job)) w.ext
    (by rw [hlength]; lia) (by
      intro a hlo hhi
      rw [hlength] at hhi
      rw [hflash]
      unfold writing
      rw [overwrite_of_ge (by rw [htake]; exact hlo)]
      unfold erased
      rw [if_pos (by lia)])
  rw [hdev, hflash] at hwrite
  refine ⟨hwrite.1, ?_⟩
  rw [hwrite.2]
  unfold writing
  have happend := overwrite_append (erased W.base W.part.offset W.eraseSize)
    W.part.offset (W.image.take w.ctx.job.processed)
    (W.slice w.ctx.job.processed (dataChunk P w.ctx.job))
  rw [htake, take_slice] at happend
  exact happend

theorem Carried.read (ha : W.Carried w) (hf : W.Fits P.toBoard)
    (hs : SoundFlash P contents) {ret : Int} {data : Nat -> UInt8} {ext : E}
    (hmore : w.ctx.job.processed < W.image.length)
    (hflash : contents w.ext = W.writing W.image.length)
    (hdev : P.spiFlashRead (dataAddr W.part w.ctx.job) (dataChunk P w.ctx.job)
      w.ext = (ret, data, ext)) :
    ret = 0 ∧ contents ext = W.writing W.image.length ∧
      window data 0 (dataChunk P w.ctx.job) =
        W.slice w.ctx.job.processed (dataChunk P w.ctx.job) := by
  rcases ha.chunk hf hmore with ⟨_, hle, haddr⟩
  have hend := hf.end_lt
  have himage := hf.image_le
  rw [haddr] at hdev
  have hread := hs.read (W.part.offset + w.ctx.job.processed)
    (dataChunk P w.ctx.job) w.ext (by lia)
  rw [hdev, hflash] at hread
  refine ⟨hread.1, hread.2.2, hread.2.1.trans ?_⟩
  unfold writing slice
  rw [List.take_length, <- window_slice _ W.part.offset hle, window_overwrite_self]

/-!
## Stages
-/

theorem Assigned.carried (ha : W.Assigned w) : W.Carried w :=
  ⟨ha.mode, ha.part, ha.eraseOffset, ha.eraseSize, ha.writeSize, ha.crc,
    .memory ha.buffer ha.addr ha.source⟩

theorem Carried.congr {v : World E} (ha : W.Carried w)
    (htask : v.ctx.job.task = w.ctx.job.task) (hram : v.ram = w.ram) :
    W.Carried v := by
  have haddr : v.ctx.job.sourceAddr = w.ctx.job.sourceAddr := by
    have h := congrArg Job.sourceAddr htask
    exact h
  have hbuffer : v.ctx.job.sourceBuffer = w.ctx.job.sourceBuffer := by
    have h := congrArg Job.sourceBuffer htask
    exact h
  refine ⟨(congrArg Job.mode htask).trans ha.mode,
    (congrArg Job.part htask).trans ha.part,
    (congrArg Job.eraseOffset htask).trans ha.eraseOffset,
    (congrArg Job.eraseSize htask).trans ha.eraseSize,
    (congrArg Job.writeSize htask).trans ha.writeSize,
    (congrArg Job.sourceCrc htask).trans ha.crc, ?_⟩
  cases ha.source with
  | memory buffer addr source =>
      refine .memory (hbuffer.trans buffer) ?_ ?_
      · rw [haddr]
        exact addr
      · rw [haddr, hram]
        exact source
  | buffer buffer => exact .buffer (hbuffer.trans buffer)

theorem Stage.of_erasing (h : W.Stage P contents w)
    (hphase : w.ctx.job.phase = .erasing) :
    P.sectorSize ∣ w.ctx.job.processed ∧ w.ctx.job.processed < W.eraseSize ∧
      contents w.ext = W.erasing w.ctx.job.processed := by
  cases h with
  | erasing phase aligned more flash => exact ⟨aligned, more, flash⟩
  | writing phase more flash => cases hphase.symm.trans phase
  | verifying phase more flash crc => cases hphase.symm.trans phase
  | done phase flash => cases hphase.symm.trans phase

theorem Stage.of_writing (h : W.Stage P contents w)
    (hphase : w.ctx.job.phase = .writing) :
    w.ctx.job.processed < W.image.length ∧
      contents w.ext = W.writing w.ctx.job.processed := by
  cases h with
  | writing phase more flash => exact ⟨more, flash⟩
  | erasing phase aligned more flash => cases hphase.symm.trans phase
  | verifying phase more flash crc => cases hphase.symm.trans phase
  | done phase flash => cases hphase.symm.trans phase

theorem Stage.of_verifying (h : W.Stage P contents w)
    (hphase : w.ctx.job.phase = .verifying) :
    w.ctx.job.processed < W.image.length ∧
      contents w.ext = W.writing W.image.length ∧
      w.ctx.job.verifyCrc =
        UBoot.crcOf 0#32 (W.image.take w.ctx.job.processed) := by
  cases h with
  | verifying phase more flash crc => exact ⟨more, flash, crc⟩
  | erasing phase aligned more flash => cases hphase.symm.trans phase
  | writing phase more flash => cases hphase.symm.trans phase
  | done phase flash => cases hphase.symm.trans phase

theorem Stage.phase (h : W.Stage P contents w) :
    jobActive w.ctx = true ∨ w.ctx.job.phase = .done := by
  cases h with
  | erasing phase aligned more flash => exact Or.inl (by simp [jobActive, phase])
  | writing phase more flash => exact Or.inl (by simp [jobActive, phase])
  | verifying phase more flash crc => exact Or.inl (by simp [jobActive, phase])
  | done phase flash => exact Or.inr phase

theorem Carried.verify (ha : W.Carried w) (hf : W.Fits P.toBoard)
    (hs : SoundFlash P contents) {ret : Int} {data : Nat -> UInt8} {ext : E}
    (hstage : W.Stage P contents w) (hphase : w.ctx.job.phase = .verifying)
    (hdev : P.spiFlashRead (dataAddr W.part w.ctx.job) (dataChunk P w.ctx.job)
      w.ext = (ret, data, ext)) :
    ret = 0 ∧ contents ext = W.writing W.image.length ∧
      UBoot.crc32 w.ctx.job.verifyCrc 0 (window data 0 (dataChunk P w.ctx.job)) =
        UBoot.crcOf 0#32
          (W.image.take (w.ctx.job.processed + dataChunk P w.ctx.job)) := by
  rcases hstage.of_verifying hphase with ⟨hmore, hflash, hcrc⟩
  rcases ha.read hf hs hmore hflash hdev with ⟨hret, hkept, hdata⟩
  refine ⟨hret, hkept, ?_⟩
  rw [UBoot.crc32_eq_crcOf, hdata, hcrc, UBoot.crcOf_append, take_slice]

/-- A round leads to a stage, and unless the job is done closer to its end. -/
theorem Stage.next (hstage : W.Stage P contents w) (ha : W.Carried w)
    (hf : W.Fits P.toBoard) (hs : SoundFlash P contents) (now : Nat) :
    W.Stage P contents (jobStep P now w) ∧
      (w.ctx.job.phase ≠ .done -> W.remaining (jobStep P now w) < W.remaining w) := by
  have hend := hf.end_lt
  have himage := hf.image_le
  have hnonempty : 0 < W.image.length := List.length_pos_of_ne_nil hf.nonempty
  have hmove : JobMove P now w (jobStep P now w) := jobMove_jobStep
  generalize jobStep P now w = v at hmove
  have hpart : forall {part}, w.ctx.job.part = some part -> part = W.part :=
    fun h => Option.some.inj (h.symm.trans ha.part)
  cases hmove with
  | idle inactive =>
      refine ⟨hstage, fun hne => ?_⟩
      rcases hstage.phase with hactive | hdone
      · cases inactive.symm.trans hactive
      · exact absurd hdone hne
  | fault part => cases part.symm.trans ha.part
  | eraseFailed ret ext phase dev failed =>
      rcases hstage.of_erasing phase with ⟨haligned, hmore, hflash⟩
      exact absurd (ha.erase hf hs haligned hmore hflash dev).1 failed
  | erased ext phase dev more =>
      rcases hstage.of_erasing phase with ⟨haligned, hmore, hflash⟩
      rcases ha.erase hf hs haligned hmore hflash dev with ⟨_, hnew, hpos, hdvd, hle⟩
      rw [ha.eraseSize, u32_of_lt (by lia)] at more
      refine ⟨.erasing phase ?_ ?_ ?_, fun _ => ?_⟩
      all_goals simp only [setJob, accessed, remaining, phase]
      all_goals rw [u32_of_lt (by lia)]
      · exact Nat.dvd_add haligned hdvd
      · exact Nat.lt_of_le_of_ne hle more
      · exact hnew
      · lia
  | erasedAll ext phase dev full mode =>
      rcases hstage.of_erasing phase with ⟨haligned, hmore, hflash⟩
      rcases ha.erase hf hs haligned hmore hflash dev with ⟨_, hnew, _, _, hle⟩
      rw [ha.eraseSize, u32_of_lt (by lia)] at full
      refine ⟨.writing rfl hnonempty ?_, fun _ => ?_⟩
      · show contents ext = W.writing 0
        rw [hnew, full]
        exact (overwrite_nil _ _).symm
      · simp only [setJob, accessed, remaining, phase]
        lia
  | settingsErased ext phase dev full mode => cases ha.mode.symm.trans mode
  | writeFailed part ret ext phase part' dev failed =>
      rcases hstage.of_writing phase with ⟨hmore, hflash⟩
      cases hpart part'
      exact absurd (ha.write hf hs hmore hflash dev).1 failed
  | written part ext phase part' dev more =>
      rcases hstage.of_writing phase with ⟨hmore, hflash⟩
      cases hpart part'
      rcases ha.chunk hf hmore with ⟨hpos, hle, _⟩
      have hnew := (ha.write hf hs hmore hflash dev).2
      rw [ha.writeSize, u32_of_lt (by lia)] at more
      refine ⟨.writing phase ?_ ?_, fun _ => ?_⟩
      all_goals simp only [setJob, accessed, remaining, phase]
      all_goals rw [u32_of_lt (by lia)]
      · exact Nat.lt_of_le_of_ne hle more
      · exact hnew
      · lia
  | writtenAll part ext phase part' dev full =>
      rcases hstage.of_writing phase with ⟨hmore, hflash⟩
      cases hpart part'
      rcases ha.chunk hf hmore with ⟨_, hle, _⟩
      have hnew := (ha.write hf hs hmore hflash dev).2
      rw [ha.writeSize, u32_of_lt (by lia)] at full
      rw [full] at hnew
      refine ⟨.verifying rfl hnonempty hnew (UBoot.crcOf_nil _).symm, fun _ => ?_⟩
      simp only [setJob, accessed, remaining, phase]
      lia
  | readFailed part ret data ext phase part' dev failed =>
      cases hpart part'
      exact absurd (ha.verify hf hs hstage phase dev).1 failed
  | read part data ext phase part' dev more =>
      rcases hstage.of_verifying phase with ⟨hmore, _, _⟩
      cases hpart part'
      rcases ha.chunk hf hmore with ⟨hpos, hle, _⟩
      rcases ha.verify hf hs hstage phase dev with ⟨_, hnew, hcrc⟩
      rw [ha.writeSize, u32_of_lt (by lia)] at more
      refine ⟨.verifying phase ?_ hnew ?_, fun _ => ?_⟩
      all_goals simp only [setJob, accessed, verified, remaining, phase]
      all_goals rw [u32_of_lt (by lia)]
      · exact Nat.lt_of_le_of_ne hle more
      · exact hcrc
      · lia
  | mismatch part data ext phase part' dev full crc =>
      rcases hstage.of_verifying phase with ⟨hmore, _, _⟩
      cases hpart part'
      rcases ha.chunk hf hmore with ⟨_, hle, _⟩
      have hcrc := (ha.verify hf hs hstage phase dev).2.2
      rw [ha.writeSize, u32_of_lt (by lia)] at full
      rw [full, List.take_length, <- ha.crc] at hcrc
      exact absurd hcrc crc
  | readAll part data ext phase part' dev full crc =>
      rcases hstage.of_verifying phase with ⟨hmore, _, _⟩
      cases hpart part'
      have hnew := (ha.verify hf hs hstage phase dev).2.1
      refine ⟨.done rfl hnew, fun _ => ?_⟩
      simp only [scheduleReboot, setJob, accessed, remaining, phase]
      lia

/-- From its first stage on the job reaches DONE, no round ends in ERROR, and then
the image is written. -/
theorem rounds_complete {start : World E} (ha : W.Carried start)
    (hstage : W.Stage P contents start) (hf : W.Fits P.toBoard)
    (hs : SoundFlash P contents) (now : Nat -> Nat) :
    let rounds := Runs.states (fun v t => jobStep P t v) start now
    (forall n, (rounds n).ctx.job.phase ≠ .error) ∧
      exists n, (rounds n).ctx.job.phase = .done ∧
        contents (rounds n).ext =
          overwrite (erased W.base W.part.offset W.eraseSize) W.part.offset W.image := by
  have hkeep : forall v t, W.Carried v ∧ W.Stage P contents v ->
      W.Carried (jobStep P t v) ∧ W.Stage P contents (jobStep P t v) := by
    intro v t hv
    have htrace := (jobRound_jobStep P t v).trace
    exact ⟨hv.1.congr htrace.task htrace.ram, (hv.2.next hv.1 hf hs t).1⟩
  have hstart := And.intro ha hstage
  constructor
  · intro k herror
    have hk := (Runs.states_invariant hkeep hstart now k).2.phase
    unfold jobActive at hk
    rw [herror] at hk
    simp at hk
  · rcases Runs.states_reach (fun v => v.ctx.job.phase = .done) W.remaining hkeep
      (fun v t hv hne => (hv.2.next hv.1 hf hs t).2 hne) hstart now with ⟨k, hk⟩
    refine ⟨k, hk, ?_⟩
    have hflash := (Runs.states_invariant hkeep hstart now k).2
    cases hflash with
    | done phase flash =>
        rw [flash]
        unfold Write.writing
        rw [List.take_length]
    | erasing phase aligned more flash => cases hk.symm.trans phase
    | writing phase more flash => cases hk.symm.trans phase
    | verifying phase more flash crc => cases hk.symm.trans phase

end Write

/-!
## Validated uploads
-/

variable {P} {contents}

theorem partition_plain {B : Board} {part : Partition} (h : part ∈ B.partitions) :
    part.has PART_RAM = false ∧ part.has PART_EEPROM = false := by
  simp only [Board.partitions, List.mem_cons, List.not_mem_nil, or_false] at h
  rcases h with rfl | rfl | rfl | rfl
  · rw [ubootPartition_has, ubootPartition_has]
    decide
  · rw [envPartition_has, envPartition_has]
    decide
  · rw [factoryPartition_has, factoryPartition_has]
    decide
  · rw [firmwarePartition_has, firmwarePartition_has]
    decide

def uploadWrite (contents : E -> Nat -> UInt8) (part : Partition) (eraseSize : Nat)
    (w : World E) : Write :=
  ⟨part, window w.ram w.ctx.completedAddr w.ctx.completedSize, eraseSize,
    contents w.ext⟩

theorem startFlashJob_plain {part : Partition} {w : World E}
    (h : part.has PART_EEPROM = false) :
    startFlashJob P part w =
      (0, { w with ctx := { w.ctx with job := plainJob P part w.ctx } }) := by
  rcases startFlashJob_cases (P := P) (w := w) part with ⟨_, hs⟩ | ⟨hp, _⟩ | ⟨hp, _⟩
  · exact hs
  · cases h.symm.trans hp
  · cases h.symm.trans hp

theorem Ready.assigned (contents : E -> Nat -> UInt8) {w : World E} {u : Upload} {part : Partition}
    {n : Nat} (hu : Ready P w u) (hl : Layout P.toBoard) (hpart : part ∈ P.partitions)
    (hupload : w.ctx.uploadPart = some part)
    (hn : n = (plainJob P part w.ctx).eraseSize) :
    (uploadWrite contents part n w).Fits P.toBoard ∧
      (uploadWrite contents part n w).Assigned (startFlashJob P part w).2 ∧
      (uploadWrite contents part n w).Stage P contents (startFlashJob P part w).2 := by
  rcases partition_plain hpart with ⟨hram, heeprom⟩
  have hsame : u.part = part := Option.some.inj (hu.part.symm.trans hupload)
  have hbody := hu.intact (Or.inl (by rw [hsame]; exact hram))
  have hok := hu.announced.sizeOk
  rw [hsame] at hok
  rcases uploadSizeOk_le hok with ⟨hpos, hle⟩
  have hsize := hu.size
  have haddr := hu.addr
  have hend := hu.announced.inRam
  have herase := hl.eraseSize hpart
    (show w.ctx.completedSize ≤ part.size by lia) w.ctx.keepConfig
  rw [show (if part.has PART_FIRMWARE then
      firmwareEraseSize P part w.ctx.completedSize w.ctx.keepConfig
    else part.size) = n from hn.symm] at herase
  rw [startFlashJob_plain heeprom]
  have hlength : (window w.ram w.ctx.completedAddr w.ctx.completedSize).length =
      w.ctx.completedSize := window_length _ _ _
  refine ⟨⟨hl.sector_pos, (hl.aligned part hpart).1, herase.2.2, ?_, ?_, herase.2.1,
    hl.partition_end hpart⟩, ⟨rfl, rfl, rfl, rfl, hn.symm, hlength.symm, ?_, ?_, ?_⟩,
    .erasing rfl (Nat.dvd_zero _) ?_ ?_⟩
  · intro hnil
    have hzero := congrArg List.length hnil
    rw [show (uploadWrite contents part n w).image =
      window w.ram w.ctx.completedAddr w.ctx.completedSize from rfl, hlength] at hzero
    exact absurd hzero (by simp; lia)
  · show (window w.ram w.ctx.completedAddr w.ctx.completedSize).length ≤ n
    rw [hlength]
    exact herase.1
  · show w.ctx.uploadCrc = UBoot.crcOf 0#32 (window _ _ _)
    rw [hbody]
    exact hu.crc
  · show w.ctx.completedAddr + (window _ _ _).length < 2 ^ 32
    rw [hlength]
    lia
  · show window w.ram w.ctx.completedAddr (window _ _ _).length = window _ _ _
    rw [hlength]
  · show 0 < n
    lia
  · show contents w.ext = erased (contents w.ext) part.offset 0
    funext a
    exact (if_neg (by lia)).symm

/-- On a sound device with an accepted layout, from every reachable world with a
valid upload to a partition of the flash, and with either value of
`keep_config`: the job reaches DONE, no round ends in ERROR, and then the flash
holds the upload at the start of the partition, `0xFF` in the rest of the erased
range, and its former contents elsewhere. -/
theorem flash_job_completes (P : Platform E) (contents : E -> Nat -> UInt8)
    (hsound : SoundFlash P contents) (hlayout : P.initFlash = 0) (loadAddr : Nat)
    (ram : Nat -> UInt8) (ext : E) (events : List (Nat × Event)) (part : Partition)
    (hpart : part ∈ P.partitions)
    (hupload : (run P (initial loadAddr ram ext) events).ctx.uploadPart = some part)
    (hvalid : (run P (initial loadAddr ram ext) events).ctx.uploadValid = true)
    (keep : Bool) (now : Nat -> Nat) :
    let w := run P (initial loadAddr ram ext) events
    let body := window w.ram w.ctx.completedAddr w.ctx.completedSize
    let start :=
      (startFlashJob P part { w with ctx := { w.ctx with keepConfig := keep } }).2
    let rounds := Runs.states (fun v t => jobStep P t v) start now
    let eraseSize := start.ctx.job.eraseSize
    body.length ≤ eraseSize ∧ eraseSize ≤ part.size ∧
    (forall n, (rounds n).ctx.job.phase ≠ .error) ∧
    exists n, (rounds n).ctx.job.phase = .done ∧
      contents (rounds n).ext = overwrite
        (erased (contents w.ext) part.offset eraseSize) part.offset body := by
  have hl := layout_of_initFlash hlayout
  have hinv : UploadInv P (run P (initial loadAddr ram ext) events) :=
    uploadInv_run (uploadInv_initial loadAddr ram ext) events
  rcases hinv.ready hvalid with ⟨u, hu⟩
  generalize run P (initial loadAddr ram ext) events = w at hupload hu
  dsimp only
  generalize hw : ({ w with ctx := { w.ctx with keepConfig := keep } } : World E) = w'
  have hready : Ready P w' u := by
    subst hw
    exact hu.congr rfl rfl (SameUploads.refl _)
  have hupload' : w'.ctx.uploadPart = some part := by
    subst hw
    exact hupload
  have hbody : window w.ram w.ctx.completedAddr w.ctx.completedSize =
      window w'.ram w'.ctx.completedAddr w'.ctx.completedSize := by
    subst hw
    rfl
  have hext : w.ext = w'.ext := by
    subst hw
    rfl
  have hjob : (startFlashJob P part w').2.ctx.job.eraseSize =
      (plainJob P part w'.ctx).eraseSize := by
    rw [startFlashJob_plain (partition_plain hpart).2]
  rw [hbody, hext]
  generalize hn : (startFlashJob P part w').2.ctx.job.eraseSize = n at hjob
  rcases hready.assigned contents hl hpart hupload' hjob with
    ⟨hfits, hassigned, hstage⟩
  generalize startFlashJob P part w' = start at hassigned hstage
  have hrounds := Write.rounds_complete hassigned.carried hstage hfits hsound now
  exact ⟨hfits.image_le, hfits.erase_le, hrounds.1, hrounds.2⟩

theorem foreignFlash_completes :
    let start := (startFlashJob (norPlatform hlk7621a) hlk7621a.firmwarePartition
      { run (norPlatform hlk7621a) (initial 0x83000000 (fun _ => 0) (fun _ => 0xff))
          foreignFlash with
        ctx := { (run (norPlatform hlk7621a)
            (initial 0x83000000 (fun _ => 0) (fun _ => 0xff)) foreignFlash).ctx with
          keepConfig := true } }).2
    exists n, (Runs.states (fun v t => jobStep (norPlatform hlk7621a) t v) start
      (fun t => t) n).ctx.job.phase = .done := by
  have hupload :
      let w := run (norPlatform hlk7621a)
        (initial 0x83000000 (fun _ => 0) (fun _ => 0xff)) foreignFlash
      w.ctx.uploadPart = some hlk7621a.firmwarePartition ∧ w.ctx.uploadValid = true := by
    decide +kernel
  rcases (flash_job_completes (norPlatform hlk7621a) (fun mem => mem)
    (soundFlash_norPlatform hlk7621a) (by decide) 0x83000000 (fun _ => 0)
    (fun _ => 0xff) foreignFlash hlk7621a.firmwarePartition
    (by simp [Board.partitions, norPlatform]) hupload.1 hupload.2
    true (fun t => t)).2.2.2 with ⟨n, hdone, _⟩
  exact ⟨n, hdone⟩

end Webflash
end Hlk7621
