import Hlk7621.Webflash.Moves

/-!
# Rounds of a flash job

One round of a job makes one access to the flash.  `JobMove` lists the outcomes
of a round with the access, its answer and the job that results, and
`jobMove_jobStep` shows that there are no others.
-/

namespace Hlk7621
namespace Webflash

variable {E : Type} (P : Platform E)

def eraseChunk (job : Job) : Nat :=
  jobChunk P.sectorSize (sub32 job.eraseSize job.processed) true

def dataChunk (job : Job) : Nat :=
  jobChunk P.sectorSize (sub32 job.writeSize job.processed) false

def eraseAddr (job : Job) : Nat := u32 (job.eraseOffset + job.processed)

def dataAddr (part : Partition) (job : Job) : Nat :=
  u32 (part.offset + job.processed)

def accessed (ext : E) (action : Action) (w : World E) : World E :=
  { w with ext := ext, log := action :: w.log }

def verified (data : Bytes) (job : Job) : Job :=
  { job with
    verifyCrc := UBoot.crc32 job.verifyCrc 0 data
    processed := u32 (job.processed + dataChunk P job) }

inductive JobMove (now : Nat) (w : World E) : World E -> Prop where
  | idle (inactive : jobActive w.ctx = false) : JobMove now w w
  | fault (part : w.ctx.job.part = none) :
      JobMove now w { w with halted := some .fault }
  | eraseFailed (ret : Int) (ext : E) (phase : w.ctx.job.phase = .erasing)
      (dev : P.spiFlashErase (eraseAddr w.ctx.job) (eraseChunk P w.ctx.job)
        w.ext = (ret, ext)) (failed : ret ≠ 0) :
      JobMove now w (jobFail "erase" ret (accessed ext
        (.erase w.ctx.job.mode (eraseAddr w.ctx.job) (eraseChunk P w.ctx.job) ret)
        w))
  | erased (ext : E) (phase : w.ctx.job.phase = .erasing)
      (dev : P.spiFlashErase (eraseAddr w.ctx.job) (eraseChunk P w.ctx.job)
        w.ext = (0, ext))
      (more : u32 (w.ctx.job.processed + eraseChunk P w.ctx.job) ≠
        w.ctx.job.eraseSize) :
      JobMove now w (setJob
        { w.ctx.job with
          processed := u32 (w.ctx.job.processed + eraseChunk P w.ctx.job) }
        (accessed ext
          (.erase w.ctx.job.mode (eraseAddr w.ctx.job) (eraseChunk P w.ctx.job) 0)
          w))
  | erasedAll (ext : E) (phase : w.ctx.job.phase = .erasing)
      (dev : P.spiFlashErase (eraseAddr w.ctx.job) (eraseChunk P w.ctx.job)
        w.ext = (0, ext))
      (full : u32 (w.ctx.job.processed + eraseChunk P w.ctx.job) =
        w.ctx.job.eraseSize) (mode : w.ctx.job.mode ≠ .eraseSettings) :
      JobMove now w (setJob { w.ctx.job with processed := 0, phase := .writing }
        (accessed ext
          (.erase w.ctx.job.mode (eraseAddr w.ctx.job) (eraseChunk P w.ctx.job) 0)
          w))
  | settingsErased (ext : E) (phase : w.ctx.job.phase = .erasing)
      (dev : P.spiFlashErase (eraseAddr w.ctx.job) (eraseChunk P w.ctx.job)
        w.ext = (0, ext))
      (full : u32 (w.ctx.job.processed + eraseChunk P w.ctx.job) =
        w.ctx.job.eraseSize) (mode : w.ctx.job.mode = .eraseSettings) :
      JobMove now w (scheduleReboot now
        (setJob { w.ctx.job with processed := 0, phase := .done }
          (accessed ext
            (.erase w.ctx.job.mode (eraseAddr w.ctx.job)
              (eraseChunk P w.ctx.job) 0)
            w)))
  | writeFailed (part : Partition) (ret : Int) (ext : E)
      (phase : w.ctx.job.phase = .writing) (hpart : w.ctx.job.part = some part)
      (dev : P.spiFlashWrite (dataAddr part w.ctx.job)
        (jobSource w.ctx.job w.ram (dataChunk P w.ctx.job)) w.ext = (ret, ext))
      (failed : ret ≠ 0) :
      JobMove now w (jobFail "write" ret (accessed ext
        (.write w.ctx.job.mode (dataAddr part w.ctx.job)
          (jobSource w.ctx.job w.ram (dataChunk P w.ctx.job)) ret) w))
  | written (part : Partition) (ext : E) (phase : w.ctx.job.phase = .writing)
      (hpart : w.ctx.job.part = some part)
      (dev : P.spiFlashWrite (dataAddr part w.ctx.job)
        (jobSource w.ctx.job w.ram (dataChunk P w.ctx.job)) w.ext = (0, ext))
      (more : u32 (w.ctx.job.processed + dataChunk P w.ctx.job) ≠
        w.ctx.job.writeSize) :
      JobMove now w (setJob
        { w.ctx.job with
          processed := u32 (w.ctx.job.processed + dataChunk P w.ctx.job) }
        (accessed ext
          (.write w.ctx.job.mode (dataAddr part w.ctx.job)
            (jobSource w.ctx.job w.ram (dataChunk P w.ctx.job)) 0) w))
  | writtenAll (part : Partition) (ext : E) (phase : w.ctx.job.phase = .writing)
      (hpart : w.ctx.job.part = some part)
      (dev : P.spiFlashWrite (dataAddr part w.ctx.job)
        (jobSource w.ctx.job w.ram (dataChunk P w.ctx.job)) w.ext = (0, ext))
      (full : u32 (w.ctx.job.processed + dataChunk P w.ctx.job) =
        w.ctx.job.writeSize) :
      JobMove now w (setJob
        { w.ctx.job with
          processed := 0, verifyCrc := 0#32, phase := .verifying }
        (accessed ext
          (.write w.ctx.job.mode (dataAddr part w.ctx.job)
            (jobSource w.ctx.job w.ram (dataChunk P w.ctx.job)) 0) w))
  | readFailed (part : Partition) (ret : Int) (data : Nat -> UInt8) (ext : E)
      (phase : w.ctx.job.phase = .verifying)
      (hpart : w.ctx.job.part = some part)
      (dev : P.spiFlashRead (dataAddr part w.ctx.job) (dataChunk P w.ctx.job)
        w.ext = (ret, data, ext)) (failed : ret ≠ 0) :
      JobMove now w (jobFail "verify read" ret (accessed ext
        (.verify w.ctx.job.mode (dataAddr part w.ctx.job)
          (window data 0 (dataChunk P w.ctx.job)) ret) w))
  | read (part : Partition) (data : Nat -> UInt8) (ext : E)
      (phase : w.ctx.job.phase = .verifying)
      (hpart : w.ctx.job.part = some part)
      (dev : P.spiFlashRead (dataAddr part w.ctx.job) (dataChunk P w.ctx.job)
        w.ext = (0, data, ext))
      (more : u32 (w.ctx.job.processed + dataChunk P w.ctx.job) ≠
        w.ctx.job.writeSize) :
      JobMove now w (setJob
        (verified P (window data 0 (dataChunk P w.ctx.job)) w.ctx.job)
        (accessed ext
          (.verify w.ctx.job.mode (dataAddr part w.ctx.job)
            (window data 0 (dataChunk P w.ctx.job)) 0) w))
  | mismatch (part : Partition) (data : Nat -> UInt8) (ext : E)
      (phase : w.ctx.job.phase = .verifying)
      (hpart : w.ctx.job.part = some part)
      (dev : P.spiFlashRead (dataAddr part w.ctx.job) (dataChunk P w.ctx.job)
        w.ext = (0, data, ext))
      (full : u32 (w.ctx.job.processed + dataChunk P w.ctx.job) =
        w.ctx.job.writeSize)
      (crc : UBoot.crc32 w.ctx.job.verifyCrc 0
        (window data 0 (dataChunk P w.ctx.job)) ≠ w.ctx.job.sourceCrc) :
      JobMove now w (jobFail "verify CRC" (-EBADMSG) (setJob
        (verified P (window data 0 (dataChunk P w.ctx.job)) w.ctx.job)
        (accessed ext
          (.verify w.ctx.job.mode (dataAddr part w.ctx.job)
            (window data 0 (dataChunk P w.ctx.job)) 0) w)))
  | readAll (part : Partition) (data : Nat -> UInt8) (ext : E)
      (phase : w.ctx.job.phase = .verifying)
      (hpart : w.ctx.job.part = some part)
      (dev : P.spiFlashRead (dataAddr part w.ctx.job) (dataChunk P w.ctx.job)
        w.ext = (0, data, ext))
      (full : u32 (w.ctx.job.processed + dataChunk P w.ctx.job) =
        w.ctx.job.writeSize)
      (crc : UBoot.crc32 w.ctx.job.verifyCrc 0
        (window data 0 (dataChunk P w.ctx.job)) = w.ctx.job.sourceCrc) :
      JobMove now w (scheduleReboot now (setJob
        { verified P (window data 0 (dataChunk P w.ctx.job)) w.ctx.job with
          phase := .done }
        (accessed ext
          (.verify w.ctx.job.mode (dataAddr part w.ctx.job)
            (window data 0 (dataChunk P w.ctx.job)) 0) w)))

variable {P} {now : Nat} {w w' : World E}

theorem jobMove_jobErase (hphase : w.ctx.job.phase = .erasing) :
    JobMove P now w (jobErase P now w) := by
  rcases hr : P.spiFlashErase (eraseAddr w.ctx.job) (eraseChunk P w.ctx.job)
    w.ext with ⟨ret, ext⟩
  have hr' := hr
  unfold eraseAddr eraseChunk at hr'
  unfold jobErase
  dsimp only
  rw [hr']
  by_cases hret : ret = 0
  · subst hret
    rw [if_neg (by simp)]
    split
    · rename_i hfull
      split
      · rename_i hmode
        exact .settingsErased ext hphase hr hfull hmode
      · rename_i hmode
        exact .erasedAll ext hphase hr hfull hmode
    · rename_i hmore
      exact .erased ext hphase hr hmore
  · rw [if_pos hret]
    exact .eraseFailed ret ext hphase hr hret

theorem jobMove_jobWrite (hphase : w.ctx.job.phase = .writing) :
    JobMove P now w (jobWrite P w) := by
  unfold jobWrite
  dsimp only
  split
  · rename_i hpart
    exact .fault hpart
  · rename_i part hpart
    rcases hr : P.spiFlashWrite (dataAddr part w.ctx.job)
      (jobSource w.ctx.job w.ram (dataChunk P w.ctx.job)) w.ext with ⟨ret, ext⟩
    have hr' := hr
    unfold dataAddr dataChunk at hr'
    rw [hr']
    by_cases hret : ret = 0
    · subst hret
      rw [if_neg (by simp)]
      split
      · rename_i hfull
        exact .writtenAll part ext hphase hpart hr hfull
      · rename_i hmore
        exact .written part ext hphase hpart hr hmore
    · rw [if_pos hret]
      exact .writeFailed part ret ext hphase hpart hr hret

theorem jobMove_jobVerify (hphase : w.ctx.job.phase = .verifying) :
    JobMove P now w (jobVerify P now w) := by
  unfold jobVerify
  dsimp only
  split
  · rename_i hpart
    exact .fault hpart
  · rename_i part hpart
    rcases hr : P.spiFlashRead (dataAddr part w.ctx.job)
      (dataChunk P w.ctx.job) w.ext with ⟨ret, data, ext⟩
    have hr' := hr
    unfold dataAddr dataChunk at hr'
    rw [hr']
    by_cases hret : ret = 0
    · subst hret
      rw [if_neg (by simp)]
      split
      · rename_i hfull
        split
        · rename_i hcrc
          exact .mismatch part data ext hphase hpart hr hfull hcrc
        · rename_i hcrc
          exact .readAll part data ext hphase hpart hr hfull
            (Decidable.not_not.mp hcrc)
      · rename_i hmore
        exact .read part data ext hphase hpart hr hmore
    · rw [if_pos hret]
      exact .readFailed part ret data ext hphase hpart hr hret

theorem jobMove_jobStep : JobMove P now w (jobStep P now w) := by
  unfold jobStep
  split
  · rename_i hphase
    exact jobMove_jobErase hphase
  · rename_i hphase
    exact jobMove_jobWrite hphase
  · rename_i hphase
    exact jobMove_jobVerify hphase
  · rename_i h1 h2 h3
    refine .idle ?_
    unfold jobActive
    simpa using ⟨⟨h1, h2⟩, h3⟩

/-!
## Chunks
-/

theorem jobChunk_le (sectorSize remaining : Nat) (erase : Bool) :
    jobChunk sectorSize remaining erase ≤ remaining := by
  unfold jobChunk
  dsimp only
  have hmin : min remaining IO_SIZE ≤ remaining := Nat.min_le_left _ _
  split
  · exact hmin
  · split
    · exact Nat.min_le_left _ _
    · split
      · exact Nat.le_trans (Nat.sub_le _ _) hmin
      · exact Nat.min_le_left _ _

theorem dataChunk_le {job : Job} (hlt : job.writeSize < 2 ^ 32)
    (hle : job.processed ≤ job.writeSize) :
    job.processed + dataChunk P job ≤ job.writeSize := by
  have hchunk := jobChunk_le P.sectorSize (sub32 job.writeSize job.processed) false
  rw [sub32_of_le hle hlt] at hchunk
  unfold dataChunk
  rw [sub32_of_le hle hlt]
  lia

theorem eraseChunk_le {job : Job} (hlt : job.eraseSize < 2 ^ 32)
    (hle : job.processed ≤ job.eraseSize) :
    job.processed + eraseChunk P job ≤ job.eraseSize := by
  have hchunk := jobChunk_le P.sectorSize (sub32 job.eraseSize job.processed) true
  rw [sub32_of_le hle hlt] at hchunk
  unfold eraseChunk
  rw [sub32_of_le hle hlt]
  lia

/-!
## Accesses
-/

theorem JobMove.access {a : Action} (h : JobMove P now w w')
    (hlog : w'.log = a :: w.log) :
    (w.ctx.job.phase = .erasing ∧ exists ret,
      a = .erase w.ctx.job.mode (eraseAddr w.ctx.job) (eraseChunk P w.ctx.job) ret ∧
      (ret ≠ 0 -> w'.ctx.job.phase = .error)) ∨
    (w.ctx.job.phase = .writing ∧ exists part ret, w.ctx.job.part = some part ∧
      a = .write w.ctx.job.mode (dataAddr part w.ctx.job)
        (jobSource w.ctx.job w.ram (dataChunk P w.ctx.job)) ret ∧
      (ret ≠ 0 -> w'.ctx.job.phase = .error)) ∨
    (w.ctx.job.phase = .verifying ∧ exists part data ret,
      w.ctx.job.part = some part ∧
      a = .verify w.ctx.job.mode (dataAddr part w.ctx.job) data ret ∧
      (ret ≠ 0 -> w'.ctx.job.phase = .error)) := by
  have hsame : w.log ≠ a :: w.log := by
    intro heq
    exact absurd (congrArg List.length heq) (by simp)
  have hhead : forall {b}, b :: w.log = a :: w.log -> a = b :=
    fun heq => (List.cons.inj heq).1.symm
  have hzero : forall {p : Prop}, (0 : Int) ≠ 0 -> p := fun h => absurd rfl h
  cases h with
  | idle inactive => exact absurd hlog hsame
  | fault part => exact absurd hlog hsame
  | eraseFailed ret ext phase dev failed =>
      exact Or.inl ⟨phase, ret, hhead hlog, fun _ => rfl⟩
  | erased ext phase dev more => exact Or.inl ⟨phase, 0, hhead hlog, hzero⟩
  | erasedAll ext phase dev full mode => exact Or.inl ⟨phase, 0, hhead hlog, hzero⟩
  | settingsErased ext phase dev full mode =>
      exact Or.inl ⟨phase, 0, hhead hlog, hzero⟩
  | writeFailed part ret ext phase hpart dev failed =>
      exact Or.inr (Or.inl ⟨phase, part, ret, hpart, hhead hlog, fun _ => rfl⟩)
  | written part ext phase hpart dev more =>
      exact Or.inr (Or.inl ⟨phase, part, 0, hpart, hhead hlog, hzero⟩)
  | writtenAll part ext phase hpart dev full =>
      exact Or.inr (Or.inl ⟨phase, part, 0, hpart, hhead hlog, hzero⟩)
  | readFailed part ret data ext phase hpart dev failed =>
      exact Or.inr (Or.inr ⟨phase, part, _, ret, hpart, hhead hlog, fun _ => rfl⟩)
  | read part data ext phase hpart dev more =>
      exact Or.inr (Or.inr ⟨phase, part, _, 0, hpart, hhead hlog, hzero⟩)
  | mismatch part data ext phase hpart dev full crc =>
      exact Or.inr (Or.inr ⟨phase, part, _, 0, hpart, hhead hlog, hzero⟩)
  | readAll part data ext phase hpart dev full crc =>
      exact Or.inr (Or.inr ⟨phase, part, _, 0, hpart, hhead hlog, hzero⟩)

theorem jobStep_inactive (h : jobActive w.ctx = false) :
    jobStep P now w = w := by
  unfold jobActive at h
  unfold jobStep
  split
  · rename_i hphase
    simp [hphase] at h
  · rename_i hphase
    simp [hphase] at h
  · rename_i hphase
    simp [hphase] at h
  · rfl

/-!
## What every round keeps
-/

/-- What a job is to do, without how far it has come. -/
def Job.task (job : Job) : Job :=
  { job with phase := .idle, processed := 0, verifyCrc := 0#32, error := [] }

def JobAccess : Action -> Prop
  | .erase .. | .write .. | .verify .. => True
  | _ => False

/-- Between `w` and `w'` only flash accesses were logged, and the RAM and the
task of the job were not changed. -/
structure JobTrace (w w' : World E) : Prop where
  task : w'.ctx.job.task = w.ctx.job.task
  ram : w'.ram = w.ram
  log : exists accesses, (forall a, a ∈ accesses -> JobAccess a) ∧
    w'.log = accesses ++ w.log

theorem JobTrace.refl (w : World E) : JobTrace w w :=
  ⟨rfl, rfl, [], by simp, rfl⟩

theorem JobTrace.trans {w'' : World E} (h : JobTrace w w')
    (h' : JobTrace w' w'') : JobTrace w w'' where
  task := h'.task.trans h.task
  ram := h'.ram.trans h.ram
  log := by
    rcases h.log with ⟨xs, hxs, hlog⟩
    rcases h'.log with ⟨ys, hys, hlog'⟩
    refine ⟨ys ++ xs, ?_, by rw [hlog', hlog, List.append_assoc]⟩
    intro a ha
    rcases List.mem_append.mp ha with hy | hx
    · exact hys a hy
    · exact hxs a hx

/-- A round changes the job, the device and the log, and at the end of the job
the reboot timer. -/
structure JobRound (w w' : World E) : Prop where
  ctx : w'.ctx = { w.ctx with
    job := w'.ctx.job
    rebootStart := w'.ctx.rebootStart
    rebootPending := w'.ctx.rebootPending }
  net : w'.net = w.net
  trace : JobTrace w w'
  reboot : jobActive w'.ctx = true ∨ w'.ctx.job.phase = .error ->
    w'.ctx.rebootPending = w.ctx.rebootPending

theorem JobRound.kept {α : Type} (h : JobRound w w') (f : Ctx -> α)
    (hf : forall ctx job start pending,
      f { ctx with job := job, rebootStart := start, rebootPending := pending } =
        f ctx) : f w'.ctx = f w.ctx := by
  rw [h.ctx, hf]

theorem JobTrace.access {a : Action} (hlog : w'.log = a :: w.log)
    (ha : JobAccess a) (htask : w'.ctx.job.task = w.ctx.job.task)
    (hram : w'.ram = w.ram) : JobTrace w w' := by
  refine ⟨htask, hram, [a], ?_, hlog⟩
  intro b hb
  rw [List.mem_singleton.mp hb]
  exact ha

theorem jobRound_of_move (h : JobMove P now w w') : JobRound w w' := by
  cases h with
  | idle inactive => exact ⟨rfl, rfl, JobTrace.refl w, fun _ => rfl⟩
  | fault part => exact ⟨rfl, rfl, ⟨rfl, rfl, [], by simp, rfl⟩, fun _ => rfl⟩
  | settingsErased ext phase dev full mode =>
      exact ⟨rfl, rfl, .access rfl trivial rfl rfl, fun h => by
        rcases h with h | h <;> cases h⟩
  | readAll part data ext phase hpart dev full crc =>
      exact ⟨rfl, rfl, .access rfl trivial rfl rfl, fun h => by
        rcases h with h | h <;> cases h⟩
  | _ => exact ⟨rfl, rfl, .access rfl trivial rfl rfl, fun _ => rfl⟩

variable (P now w)

theorem jobRound_jobStep : JobRound w (jobStep P now w) :=
  jobRound_of_move jobMove_jobStep

end Webflash
end Hlk7621
