import Hlk7621.Webflash.FlashJobs
import Hlk7621.Webflash.Nor

/-!
# Verification before the reboot

A FLASH job reaches `WEBFLASH_PHASE_DONE` only after the image has been read
back completely, in order and with the CRC of the upload, whatever the device
answers; and a failing access is the last one of its job.
-/

namespace Hlk7621
namespace Webflash

variable {E : Type} {P : Platform E} {w : World E}

def Failed (a : Action) : Prop := exists ret, flashRet a = some ret ∧ ret ≠ 0

/-- Between a failed access and the next access of a FLASH job, a job was
started. -/
def StopsOnFailure (log : List Action) : Prop :=
  forall newer b mid a older, log = newer ++ b :: (mid ++ a :: older) ->
    flashRet b ≠ none -> Failed a ->
    exists part phrase, .flashStarted part phrase ∈ mid

theorem clean_tail {mid older : List Action} {a : Action}
    (h : Clean (mid ++ a :: older)) (ha : Failed a) :
    exists part phrase, .flashStarted part phrase ∈ mid := by
  induction mid with
  | nil =>
      rcases ha with ⟨ret, hret, hne⟩
      cases a with
      | flashStarted part phrase => cases hret
      | _ =>
          rcases h.1 with hnone | hzero
          · rw [hnone] at hret
            cases hret
          · rw [hzero] at hret
            exact absurd (Option.some.inj hret).symm hne
  | cons b mid ih =>
      cases b with
      | flashStarted part phrase => exact ⟨part, phrase, List.mem_cons_self⟩
      | _ =>
          rcases ih h.2 with ⟨part, phrase, hmem⟩
          exact ⟨part, phrase, List.mem_cons_of_mem _ hmem⟩

theorem stopsOnFailure_of_accesses {log : List Action}
    (h : Accesses (fun older _ => Clean older) log) : StopsOnFailure log := by
  intro newer b mid a older hlog hb ha
  subst hlog
  exact clean_tail (accesses_split h hb) ha

theorem JobInv.clean {Good : Partition -> Prop} {now : Nat} {a : Action}
    (hw : JobInv P Good w)
    (hlog : (Webflash.jobStep P now w).log = a :: w.log) (ha : flashRet a ≠ none) :
    Clean w.log := by
  rcases hw.task (flashing_of_access hlog ha) with ⟨_, _, _, _, _, _, hp, _⟩
  exact hp.clean

theorem stopsOnFailure_run (loadAddr : Nat) (ram : Nat -> UInt8) (ext : E)
    (events : List (Nat × Event)) :
    StopsOnFailure (run P (initial loadAddr ram ext) events).log := by
  have hrun : JobInv P (fun _ => True) (run P (initial loadAddr ram ext) events) ∧
      Accesses (fun older _ => Clean older)
        (run P (initial loadAddr ram ext) events).log :=
    run_induct (fun cb => (preserves_jobInv cb).accesses) (fun _ _ _ => trivial)
      (fun h hw => ⟨hw.1.loop h, hw.2.loop h⟩)
      (fun now hw => ⟨hw.1.jobStep now, hw.2.jobStep (fun _ => hw.1.clean)⟩)
      ⟨jobInv_initial loadAddr ram ext, trivial⟩ events
  exact stopsOnFailure_of_accesses hrun.2

theorem step_failed {e : Nat × Event} {a : Action}
    (hlog : (step P w e).log = a :: w.log) (ha : Failed a) :
    (step P w e).ctx.job.phase = .error := by
  rcases ha with ⟨ret, hret, hne⟩
  by_cases he : e.2 = .jobStep
  · rcases e with ⟨now, e⟩
    cases he
    unfold step at hlog ⊢
    split
    · rename_i hhalted
      rw [if_pos hhalted] at hlog
      exact absurd (congrArg List.length hlog) (by simp)
    · rename_i hrunning
      rw [if_neg hrunning] at hlog
      have hmove : JobMove P now w (jobStep P now w) := jobMove_jobStep
      rcases hmove.access hlog with
        ⟨_, r, rfl, herr⟩ | ⟨_, part, r, _, rfl, herr⟩ | ⟨_, part, data, r, _, rfl, herr⟩
      · exact herr (by cases hm : w.ctx.job.mode <;> simp_all [flashRet])
      · exact herr (by cases hm : w.ctx.job.mode <;> simp_all [flashRet])
      · exact herr (by cases hm : w.ctx.job.mode <;> simp_all [flashRet])
  · rcases step_extends (P := P) (w := w) he with ⟨new, hnew, hkind⟩
    have hnone : forall b, b ∈ new -> flashRet b = none := by
      intro b hb
      exact (hkind b hb).elim RequestAction.flashRet TimerAction.flashRet
    rw [hlog] at hnew
    cases new with
    | nil => exact absurd (congrArg List.length hnew) (by simp)
    | cons b new =>
        have hab := (List.cons.inj hnew).1
        rw [hab, hnone b List.mem_cons_self] at hret
        cases hret

/-- `image` is what an upload of `body` to `target` writes to `entry`: the body,
or for an EEPROM upload the factory partition with the body merged into it. -/
def Written (B : Board) (log : List Action) (target : Partition) (body : Bytes)
    (entry : Partition) (image : Bytes) : Prop :=
  target.has PART_EEPROM = false ∧ entry = target ∧ image = body ∨
    target.has PART_EEPROM = true ∧ entry = B.factoryPartition ∧
      exists old, lastFactoryRead log = some old ∧ old.length = B.factory.size ∧
        image = splice old EEPROM_OFFSET body

/-- On every device: a FLASH job in phase DONE has read back exactly
`[part.offset, part.offset + write_size)`, in order, and the CRC accumulated over
the ranges read is that of the image validated before; a reboot is then pending.
A failing access puts the job into phase ERROR, and no FLASH job accesses the
flash after it unless another one is started. -/
theorem done_only_when_verified (P : Platform E) (loadAddr : Nat)
    (ram : Nat -> UInt8) (ext : E) (events : List (Nat × Event)) :
    let w := run P (initial loadAddr ram ext) events
    (w.ctx.job.mode = .flash -> w.ctx.job.phase = .done ->
      exists target phrase body entry image,
        lastStart w.log = some (target, phrase) ∧
        lastValidated w.log = some (target, body) ∧
        Written P.toBoard w.log target body entry image ∧
        w.ctx.job.part = some entry ∧ w.ctx.job.writeSize = image.length ∧
        InOrder entry.offset (readBack w.log) ∧
        (contents (readBack w.log)).length = w.ctx.job.writeSize ∧
        w.ctx.job.verifyCrc = UBoot.crcOf 0#32 (contents (readBack w.log)) ∧
        (forall addr, w.ctx.job.verifyCrc = UBoot.crc32 0#32 addr image) ∧
        w.ctx.rebootPending = true) ∧
    (forall e a, (step P w e).log = a :: w.log -> Failed a ->
      (step P w e).ctx.job.phase = .error) ∧
    StopsOnFailure w.log := by
  have hw : JobInv P (fun _ => True) (run P (initial loadAddr ram ext) events) :=
    jobInv_run (jobInv_initial loadAddr ram ext) events
  refine ⟨?_, fun e a => step_failed, stopsOnFailure_run loadAddr ram ext events⟩
  intro hmode hdone
  rcases hw.task ⟨Or.inr hdone, hmode⟩ with
    ⟨target, phrase, body, image, entry, ht, hp, _⟩
  rcases hp.done hdone with ⟨horder, hlength, hcrc, hsource⟩
  refine ⟨target, phrase, body, entry, image, ht.start, ht.validated, ht.merged,
    ht.part, ht.writeSize, horder, hlength, hcrc, ?_, hw.reboot hdone⟩
  intro addr
  rw [hsource, ht.sourceCrc, UBoot.crc32_eq_crcOf]

theorem foreignFlash_verified :
    let w := run (norPlatform hlk7621a)
      (initial 0x83000000 (fun _ => 0) (fun _ => 0xff))
      (foreignFlash ++ [(1, .jobStep), (2, .jobStep), (3, .jobStep)])
    w.ctx.job.mode = .flash ∧ w.ctx.job.phase = .done ∧
      exists target phrase body entry image,
        lastStart w.log = some (target, phrase) ∧
        lastValidated w.log = some (target, body) ∧
        Written hlk7621a w.log target body entry image ∧
        w.ctx.job.part = some entry ∧ w.ctx.job.writeSize = image.length ∧
        InOrder entry.offset (readBack w.log) ∧
        (contents (readBack w.log)).length = w.ctx.job.writeSize ∧
        w.ctx.job.verifyCrc = UBoot.crcOf 0#32 (contents (readBack w.log)) ∧
        (forall addr, w.ctx.job.verifyCrc = UBoot.crc32 0#32 addr image) ∧
        w.ctx.rebootPending = true := by
  have hdone :
      let w := run (norPlatform hlk7621a)
        (initial 0x83000000 (fun _ => 0) (fun _ => 0xff))
        (foreignFlash ++ [(1, .jobStep), (2, .jobStep), (3, .jobStep)])
      w.ctx.job.mode = .flash ∧ w.ctx.job.phase = .done := by
    decide +kernel
  exact ⟨hdone.1, hdone.2,
    (done_only_when_verified (norPlatform hlk7621a) 0x83000000 (fun _ => 0)
      (fun _ => 0xff) (foreignFlash ++ [(1, .jobStep), (2, .jobStep), (3, .jobStep)])).1
      hdone.1 hdone.2⟩

end Webflash
end Hlk7621
