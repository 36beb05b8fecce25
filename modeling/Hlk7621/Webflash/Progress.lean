import Hlk7621.Webflash.Nor
import Hlk7621.Webflash.JobMoves
import Hlk7621.Lib.Runs

/-!
# The reported progress

The percentage is put together from one division for each phase.  Each counts
its own bytes from 0 and gets its own part of the scale, and a phase ends when
its counter reaches its size, so that a counter below its size keeps the
percentage inside its part.
-/

namespace Hlk7621
namespace Webflash

/-!
## One part of the scale
-/

/-- The part `scale` of the percentage that `processed` of `size` bytes fill. -/
def portion (scale processed size : Nat) : Nat :=
  if size ≠ 0 then processed * scale / size else 0

def Partway (processed size : Nat) : Prop := processed = 0 ∨ processed < size

theorem portion_lt {scale processed size : Nat} (hscale : 0 < scale)
    (h : Partway processed size) : portion scale processed size < scale := by
  unfold portion
  split
  · rename_i hsize
    have hlt : processed < size := by
      rcases h with h | h
      · lia
      · exact h
    apply Nat.div_lt_of_lt_mul
    exact Nat.mul_lt_mul_of_pos_right hlt hscale
  · exact hscale

theorem portion_mono {scale processed processed' size : Nat}
    (h : processed ≤ processed') :
    portion scale processed size ≤ portion scale processed' size := by
  unfold portion
  split
  · exact Nat.div_le_div_right (Nat.mul_le_mul_right scale h)
  · exact Nat.le_refl 0

theorem partway_chunk {processed size chunk : Nat} (hsize : size < 2 ^ 32)
    (h : Partway processed size) (hchunk : chunk ≤ sub32 size processed) :
    processed ≤ u32 (processed + chunk) ∧
      (u32 (processed + chunk) ≠ size -> Partway (u32 (processed + chunk)) size) := by
  have hle : processed ≤ size := by
    rcases h with h | h <;> lia
  have hsub : sub32 size processed = size - processed := sub32_of_le hle hsize
  have hu : u32 (processed + chunk) = processed + chunk := u32_of_lt (by lia)
  rw [hu]
  constructor
  · lia
  · intro hne
    right
    lia

/-!
## The percentage of a job
-/

def Underway (job : Job) : Prop :=
  match job.phase with
  | .erasing => Partway job.processed job.eraseSize
  | .writing | .verifying =>
      job.mode ≠ .eraseSettings ∧ Partway job.processed job.writeSize
  | .done => True
  | .idle | .error => False

theorem jobProgress_done {job : Job} (h : job.phase = .done) : jobProgress job = 100 := by
  unfold jobProgress
  rw [if_pos h]

theorem jobProgress_settings {job : Job} (h : job.phase = .erasing)
    (hmode : job.mode = .eraseSettings) :
    jobProgress job = portion 100 job.processed job.eraseSize := by
  unfold jobProgress portion
  simp only [h, hmode, reduceCtorEq, if_false, or_self, if_true]

theorem jobProgress_erasing {job : Job} (h : job.phase = .erasing)
    (hmode : job.mode ≠ .eraseSettings) :
    jobProgress job = portion 35 job.processed job.eraseSize := by
  unfold jobProgress portion
  simp only [h, hmode, reduceCtorEq, if_false, or_self, if_true]

theorem jobProgress_writing {job : Job} (h : job.phase = .writing)
    (hmode : job.mode ≠ .eraseSettings) :
    jobProgress job = 35 + portion 40 job.processed job.writeSize := by
  unfold jobProgress portion
  simp only [h, hmode, reduceCtorEq, if_false, or_self, if_true]

theorem jobProgress_verifying {job : Job} (h : job.phase = .verifying)
    (hmode : job.mode ≠ .eraseSettings) :
    jobProgress job = 75 + portion 25 job.processed job.writeSize := by
  unfold jobProgress portion
  simp only [h, hmode, reduceCtorEq, if_false, or_self]

theorem jobProgress_lt {job : Job} (h : Underway job) (hdone : job.phase ≠ .done) :
    jobProgress job < 100 := by
  unfold Underway at h
  split at h
  · rename_i hphase
    by_cases hmode : job.mode = .eraseSettings
    · rw [jobProgress_settings hphase hmode]
      exact portion_lt (by lia) h
    · rw [jobProgress_erasing hphase hmode]
      have hlt := portion_lt (by decide : 0 < 35) h
      lia
  · rename_i hphase
    rw [jobProgress_writing hphase h.left]
    have hlt := portion_lt (by decide : 0 < 40) h.right
    lia
  · rename_i hphase
    rw [jobProgress_verifying hphase h.left]
    have hlt := portion_lt (by decide : 0 < 25) h.right
    lia
  · rename_i hphase
    exact absurd hphase hdone
  · exact h.elim
  · exact h.elim

theorem jobProgress_le {job : Job} (h : Underway job) : jobProgress job ≤ 100 := by
  by_cases hdone : job.phase = .done
  · exact Nat.le_of_eq (jobProgress_done hdone)
  · exact Nat.le_of_lt (jobProgress_lt h hdone)

theorem jobProgress_le_done {job job' : Job} (h : Underway job)
    (hdone : job'.phase = .done) : jobProgress job ≤ jobProgress job' := by
  rw [jobProgress_done hdone]
  exact jobProgress_le h

theorem jobProgress_mono {job job' : Job} (h : job.processed ≤ job'.processed)
    (hsame : job'.mode = job.mode ∧ job'.phase = job.phase ∧
      job'.eraseSize = job.eraseSize ∧ job'.writeSize = job.writeSize)
    (hphase : job.phase = .erasing ∨
      job.mode ≠ .eraseSettings ∧ (job.phase = .writing ∨ job.phase = .verifying)) :
    jobProgress job ≤ jobProgress job' := by
  rcases hsame with ⟨hmode', hphase', herase, hwrite⟩
  rcases hphase with hphase | ⟨hmode, hphase | hphase⟩
  · by_cases hmode : job.mode = .eraseSettings
    · rw [jobProgress_settings hphase hmode,
        jobProgress_settings (hphase'.trans hphase) (hmode'.trans hmode), herase]
      exact portion_mono h
    · rw [jobProgress_erasing hphase hmode,
        jobProgress_erasing (hphase'.trans hphase) (by rw [hmode']; exact hmode), herase]
      exact portion_mono h
  · rw [jobProgress_writing hphase hmode,
      jobProgress_writing (hphase'.trans hphase) (by rw [hmode']; exact hmode), hwrite]
    exact Nat.add_le_add_left (portion_mono h) 35
  · rw [jobProgress_verifying hphase hmode,
      jobProgress_verifying (hphase'.trans hphase) (by rw [hmode']; exact hmode), hwrite]
    exact Nat.add_le_add_left (portion_mono h) 75

/-!
## A round of the job
-/

section

variable {E : Type} {P : Platform E}

structure Steady (w : World E) : Prop where
  underway : Underway w.ctx.job
  erase : w.ctx.job.eraseSize < 2 ^ 32
  write : w.ctx.job.writeSize < 2 ^ 32

def Succeeds (P : Platform E) (w : World E) (now : Nat) : Prop :=
  (jobStep P now w).ctx.job.phase ≠ .error

instance : DecidableRel (Succeeds P) := fun _ _ => instDecidableNot

theorem Steady.step {w : World E} (hw : Steady w) (now : Nat) (hok : Succeeds P w now) :
    Steady (jobStep P now w) ∧
      jobProgress w.ctx.job ≤ jobProgress (jobStep P now w).ctx.job := by
  have hunder := hw.underway
  unfold Succeeds at hok
  generalize hv : jobStep P now w = v at hok ⊢
  have hmove : JobMove P now w v := hv ▸ jobMove_jobStep
  cases hmove with
  | idle _ => exact ⟨hw, Nat.le_refl _⟩
  | fault _ => exact ⟨⟨hunder, hw.erase, hw.write⟩, Nat.le_refl _⟩
  | eraseFailed => exact absurd rfl hok
  | writeFailed => exact absurd rfl hok
  | readFailed => exact absurd rfl hok
  | mismatch => exact absurd rfl hok
  | erased ext phase dev more =>
      simp only [Underway, phase] at hunder
      have hchunk := partway_chunk hw.erase hunder (jobChunk_le P.sectorSize _ true)
      refine ⟨⟨?_, hw.erase, hw.write⟩, ?_⟩
      · simp only [Underway, setJob, phase]
        exact hchunk.right more
      · exact jobProgress_mono hchunk.left ⟨rfl, rfl, rfl, rfl⟩ (.inl phase)
  | erasedAll ext phase dev full mode =>
      simp only [Underway, phase] at hunder
      refine ⟨⟨⟨mode, .inl rfl⟩, hw.erase, hw.write⟩, ?_⟩
      rw [jobProgress_erasing phase mode]
      have hlt := portion_lt (by decide : 0 < 35) hunder
      rw [jobProgress_writing (by rfl) (by exact mode)]
      lia
  | settingsErased ext phase dev full mode =>
      exact ⟨⟨trivial, hw.erase, hw.write⟩, jobProgress_le_done hunder rfl⟩
  | written part ext phase hpart dev more =>
      have hjob := hunder
      simp only [Underway, phase] at hjob
      have hchunk := partway_chunk hw.write hjob.right
        (jobChunk_le P.sectorSize _ false)
      refine ⟨⟨?_, hw.erase, hw.write⟩, ?_⟩
      · simp only [Underway, setJob, phase]
        exact ⟨hjob.left, hchunk.right more⟩
      · exact jobProgress_mono hchunk.left ⟨rfl, rfl, rfl, rfl⟩
          (.inr ⟨hjob.left, .inl phase⟩)
  | writtenAll part ext phase hpart dev full =>
      simp only [Underway, phase] at hunder
      refine ⟨⟨⟨hunder.left, .inl rfl⟩, hw.erase, hw.write⟩, ?_⟩
      rw [jobProgress_writing phase hunder.left]
      have hlt := portion_lt (by decide : 0 < 40) hunder.right
      rw [jobProgress_verifying (by rfl) (by exact hunder.left)]
      lia
  | read part data ext phase hpart dev more =>
      have hjob := hunder
      simp only [Underway, phase] at hjob
      have hchunk := partway_chunk hw.write hjob.right
        (jobChunk_le P.sectorSize _ false)
      refine ⟨⟨?_, hw.erase, hw.write⟩, ?_⟩
      · simp only [Underway, setJob, verified, phase]
        exact ⟨hjob.left, hchunk.right more⟩
      · exact jobProgress_mono hchunk.left ⟨rfl, rfl, rfl, rfl⟩
          (.inr ⟨hjob.left, .inr phase⟩)
  | readAll part data ext phase hpart dev full crc =>
      exact ⟨⟨trivial, hw.erase, hw.write⟩, jobProgress_le_done hunder rfl⟩

/-!
## A run of rounds
-/

def jobRun (P : Platform E) (w : World E) (times : List Nat) : World E :=
  times.foldl (fun w now => jobStep P now w) w

theorem Steady.run {w : World E} (hw : Steady w) {times : List Nat}
    (hok : Runs.Along (fun w now => jobStep P now w) (Succeeds P) w times) :
    Steady (jobRun P w times) ∧
      jobProgress w.ctx.job ≤ jobProgress (jobRun P w times).ctx.job := by
  induction times generalizing w with
  | nil => exact ⟨hw, Nat.le_refl _⟩
  | cons now times ih =>
      have hstep := hw.step now hok.left
      have hrest := ih hstep.left hok.right
      exact ⟨hrest.left, Nat.le_trans hstep.right hrest.right⟩

structure Begun (job : Job) : Prop where
  phase : job.phase = .erasing
  processed : job.processed = 0
  erase : job.eraseSize < 2 ^ 32
  write : job.writeSize < 2 ^ 32

theorem Begun.steady {w : World E} (h : Begun w.ctx.job) : Steady w where
  underway := by
    simp only [Underway, h.phase]
    exact .inl h.processed
  erase := h.erase
  write := h.write

/-- Over a run of successful rounds the reported percentage does not fall from
any point of the run to a later one, stays within 0 and 100, and is 100 only
when the job is done. -/
theorem progress_monotone (P : Platform E) {w : World E} (hw : Begun w.ctx.job)
    (times later : List Nat)
    (hok : Runs.Along (fun w now => jobStep P now w) (Succeeds P) w (times ++ later)) :
    jobProgress (jobRun P w times).ctx.job ≤
        jobProgress (jobRun P w (times ++ later)).ctx.job ∧
      jobProgress (jobRun P w (times ++ later)).ctx.job ≤ 100 ∧
      (jobProgress (jobRun P w (times ++ later)).ctx.job = 100 <->
        (jobRun P w (times ++ later)).ctx.job.phase = .done) := by
  rw [Runs.along_append] at hok
  have hfirst := hw.steady.run hok.left
  have hrest := hfirst.left.run hok.right
  unfold jobRun at hrest ⊢
  rw [List.foldl_append]
  refine ⟨hrest.right, jobProgress_le hrest.left.underway, ?_, jobProgress_done⟩
  intro h
  by_contra hdone
  have hlt := jobProgress_lt hrest.left.underway hdone
  lia

end

def smallJob : Job where
  mode := .flash
  phase := .erasing
  part := some hlk7621a.factoryPartition
  eraseOffset := 0x50000
  eraseSize := 0x20000
  writeSize := 4
  sourceCrc := UBoot.crc32 0#32 0 [0, 0, 0, 0]

theorem smallJob_progress :
    let run := fun times => (jobRun (norPlatform hlk7621a) (setJob smallJob hlk7621aStart)
      times).ctx.job
    [0, 1, 2, 3, 4].map (fun n => jobProgress (run (List.range n))) = [0, 17, 35, 75, 100] ∧
      jobProgress (run [0]) ≤ jobProgress (run ([0] ++ [1, 2, 3])) ∧
      jobProgress (run ([0] ++ [1, 2, 3])) ≤ 100 ∧
      (jobProgress (run ([0] ++ [1, 2, 3])) = 100 <->
        (run ([0] ++ [1, 2, 3])).phase = .done) := by
  have hbegun : Begun (setJob smallJob hlk7621aStart).ctx.job :=
    ⟨rfl, rfl, by decide, by decide⟩
  have hrun := progress_monotone (norPlatform hlk7621a) hbegun [0] [1, 2, 3]
    (by decide +kernel)
  exact ⟨by decide +kernel, hrun⟩

end Webflash
end Hlk7621
