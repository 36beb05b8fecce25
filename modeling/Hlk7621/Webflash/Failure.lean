import Hlk7621.Webflash.Exclusion

/-!
# Reboots after a failed job

`POST /api/reboot` is refused while the phase of the job is
`WEBFLASH_PHASE_ERROR`.  Two requests clear the job of a failed flash without
starting another one: an accepted upload, and the flashing of an EEPROM image
when the factory partition cannot be read.  As long as neither is made, no
reboot becomes pending until a job has succeeded.
-/

namespace Hlk7621
namespace Webflash

variable {E : Type} (P : Platform E)

def clearsJob (w : World E) : Bool :=
  acceptsUpload P w ||
    (confirmsFlash PART_EEPROM w &&
      (P.spiFlashRead P.factory.offset P.factory.size w.ext).1 != 0)

def keepsFailure (w : World E) (e : Event) : Bool :=
  match served w e with
  | none => true
  | some header =>
      w.ctx.job.phase != .error || !clearsJob P (withHeader header w)

structure Unfinished (w : World E) : Prop where
  exclusive : Exclusive w
  notIdle : w.ctx.job.phase ≠ .idle
  notDone : w.ctx.job.phase ≠ .done
  reboot : w.ctx.rebootPending = false

variable {P} {w w' : World E}

theorem Unfinished.error_of_inactive (hw : Unfinished w)
    (h : jobActive w.ctx = false) : w.ctx.job.phase = .error := by
  have hidle := hw.notIdle
  have hdone := hw.notDone
  unfold jobActive at h
  cases hp : w.ctx.job.phase <;> simp_all

theorem Unfinished.net (h : Quiet w w') (hw : Unfinished w) : Unfinished w' where
  exclusive := hw.exclusive.net h
  notIdle := by
    rw [h.job]
    exact hw.notIdle
  notDone := by
    rw [h.job]
    exact hw.notDone
  reboot := by
    rw [h.rebootPending]
    exact hw.reboot

theorem Unfinished.handler {cb : Call} (h : HandlerMove P cb w w')
    (hrx : w.ctx.rxState = .headers)
    (hok : w.ctx.job.phase = .error -> clearsJob P w = false)
    (hw : Unfinished w) : Unfinished w' := by
  have hexcl := hw.exclusive.handler h hrx
  -- Both clearing requests are made while no job is active.
  have hkept : operationBlocked w.ctx = false -> clearsJob P w = false := by
    intro hidle
    exact hok (hw.error_of_inactive (operationBlocked_eq_false.mp hidle).1)
  cases h with
  | quiet => exact hw
  | beginUpload part size ext h =>
      have hclear := hkept h.idle
      simp [clearsJob, h.acceptsUpload] at hclear
  | startFailed part keep h eeprom failed =>
      have hclear := hkept h.idle
      simp [clearsJob, h.confirmsFlash eeprom, failed] at hclear
  | beginBody size idle => exact ⟨hexcl, hw.notIdle, hw.notDone, hw.reboot⟩
  | startPlain part keep h plain =>
      exact ⟨hexcl, by simp [plainJob], by simp [plainJob], hw.reboot⟩
  | startFactory part keep old ext h eeprom length =>
      exact ⟨hexcl, by simp [factoryJob], by simp [factoryJob], hw.reboot⟩
  | startReset p overlay h found =>
      exact ⟨hexcl, by simp [setJob, resetJob], by simp [setJob, resetJob],
        hw.reboot⟩
  | saveEnv ret ext idle => exact ⟨hexcl, hw.notIdle, hw.notDone, hw.reboot⟩
  | bootRam part idle valid hpart ram => exact ⟨hexcl, hw.notIdle, hw.notDone, hw.reboot⟩
  | reboot path idle healthy fresh =>
      exact absurd (hw.error_of_inactive idle) healthy

theorem Unfinished.body {cb : Call} (h : BodyMove P cb w w')
    (hw : Unfinished w) : Unfinished w' := by
  cases h with
  | net h => exact hw.net h.toQuiet
  | stored data rx client fits =>
      exact ⟨hw.exclusive.congr rfl rfl rfl rfl, hw.notIdle, hw.notDone,
        hw.reboot⟩
  | exportFailed ext rx h =>
      exact Unfinished.net h.toQuiet ⟨hw.exclusive.congr rfl rfl rfl rfl,
        hw.notIdle, hw.notDone, hw.reboot⟩
  | validated ext rx full h answered =>
      refine Unfinished.net h.toQuiet ?_
      unfold validateUpload
      split
      · exact ⟨hw.exclusive.congr rfl rfl rfl rfl, hw.notIdle,
          hw.notDone, hw.reboot⟩
      · exact ⟨hw.exclusive.congr rfl rfl rfl rfl, hw.notIdle,
          hw.notDone, hw.reboot⟩
  | savedEnv ret ext rx h =>
      exact Unfinished.net h.toQuiet ⟨hw.exclusive.congr rfl rfl rfl rfl,
        hw.notIdle, hw.notDone, hw.reboot⟩

theorem Unfinished.loop {e : Event} (h : LoopMove e w w') (hw : Unfinished w) :
    Unfinished w' := by
  have hexcl := hw.exclusive.loop h
  cases h with
  | accepted cb err free => exact ⟨hexcl, hw.notIdle, hw.notDone, hw.reboot⟩
  | turnedAway cb err ext busy => exact hw.net (quiet_turnedAway ext _ w)
  | errored cb => exact hw.net (quiet_tcpError cb w)
  | booted pending => exact ⟨hexcl, hw.notIdle, hw.notDone, hw.reboot⟩
  | bootFailed ram ext pending =>
      exact ⟨hexcl, hw.notIdle, hw.notDone, hw.reboot⟩
  | reset pending => exact ⟨hexcl, hw.notIdle, hw.notDone, hw.reboot⟩

theorem preserves_unfinished (cb : Call) : Preserves P cb
    (fun w => w.ctx.job.phase = .error -> clearsJob P w = false) Unfinished where
  net h hw := hw.net h.toQuiet
  header _ hw := ⟨hw.exclusive.congr rfl rfl rfl rfl, hw.notIdle,
    hw.notDone, hw.reboot⟩
  handler h hrx _ hok hw := hw.handler h hrx hok
  body h hw := hw.body h

theorem Unfinished.jobStep {now : Nat} (hw : Unfinished w)
    (hdone : (jobStep P now w).ctx.job.phase ≠ .done) :
    Unfinished (jobStep P now w) := by
  have hexcl : Exclusive (Webflash.jobStep P now w) := hw.exclusive.jobStep now
  have hmove : JobMove P now w (Webflash.jobStep P now w) := jobMove_jobStep
  generalize Webflash.jobStep P now w = v at hdone hexcl hmove
  have hsame : v.ctx.job.phase ≠ .idle -> v.ctx.rebootPending = w.ctx.rebootPending ->
      Unfinished v := by
    intro hidle hreboot
    exact ⟨hexcl, hidle, hdone, hreboot.trans hw.reboot⟩
  cases hmove with
  | idle inactive => exact hw
  | settingsErased ext phase dev full mode => exact absurd rfl hdone
  | readAll part data ext phase hpart dev full crc => exact absurd rfl hdone
  | fault part => exact hsame hw.notIdle rfl
  | eraseFailed ret ext phase dev failed => exact hsame (by simp [jobFail]) rfl
  | erased ext phase dev more => exact hsame hw.notIdle rfl
  | erasedAll ext phase dev full mode => exact hsame (by simp [setJob]) rfl
  | writeFailed part ret ext phase hpart dev failed =>
      exact hsame (by simp [jobFail]) rfl
  | written part ext phase hpart dev more => exact hsame hw.notIdle rfl
  | writtenAll part ext phase hpart dev full => exact hsame (by simp [setJob]) rfl
  | readFailed part ret data ext phase hpart dev failed =>
      exact hsame (by simp [jobFail]) rfl
  | read part data ext phase hpart dev more => exact hsame hw.notIdle rfl
  | mismatch part data ext phase hpart dev full crc =>
      exact hsame (by simp [jobFail]) rfl

theorem Unfinished.step {e : Nat × Event} (hkeep : keepsFailure P w e.2 = true)
    (hdone : (step P w e).ctx.job.phase ≠ .done) (hw : Unfinished w) :
    Unfinished (step P w e) := by
  by_cases hjob : e.2 = .jobStep
  · rcases e with ⟨now, e⟩
    cases hjob
    unfold Webflash.step at hdone ⊢
    split
    · exact hw
    · rename_i hrunning
      rw [if_neg hrunning] at hdone
      exact hw.jobStep hdone
  · refine step_induct preserves_unfinished (fun h hw => hw.loop h) ?_
      (fun h => absurd h hjob) hw
    intro header hserved hphase
    unfold keepsFailure at hkeep
    rw [hserved] at hkeep
    have hphase' : w.ctx.job.phase = .error := hphase
    have hclear : clearsJob P (withHeader header w) = false := by
      simpa [hphase'] using hkeep
    exact hclear

/-- From a failed job on, as long as no request clears it and no job
completes, no reboot becomes pending. -/
theorem no_reboot_after_failure (P : Platform E) (loadAddr : Nat)
    (ram : Nat -> UInt8) (ext : E) (before after : List (Nat × Event))
    (hfailed : (run P (initial loadAddr ram ext) before).ctx.job.phase = .error)
    (hafter : Runs.Along (step P)
      (fun w e => keepsFailure P w e.2 = true ∧
        (step P w e).ctx.job.phase ≠ .done)
      (run P (initial loadAddr ram ext) before) after) :
    (run P (run P (initial loadAddr ram ext) before) after).ctx.rebootPending =
      false := by
  have hexcl : Exclusive (run P (initial loadAddr ram ext) before) :=
    exclusive_run (exclusive_initial loadAddr ram ext) before
  have hstart : Unfinished (run P (initial loadAddr ram ext) before) :=
    ⟨hexcl, by simp [hfailed], by simp [hfailed], hexcl.failed hfailed⟩
  have hend := Runs.invariant (fun w e hgood hw => hw.step hgood.1 hgood.2)
    hafter hstart
  exact hend.reboot

/-!
## A device whose erases fail
-/

def wornPlatform : Platform (Nat -> UInt8) :=
  { norPlatform hlk7621a with spiFlashErase := fun _ _ mem => (- EIO, mem) }

def failedFlash : List (Nat × Event) := foreignFlash ++ [(1, .jobStep)]

theorem failedFlash_refuses_reboot :
    let w := run wornPlatform (initial 0x83000000 (fun _ => 0) (fun _ => 0xff))
      failedFlash
    w.ctx.job.phase = .error ∧
    (run wornPlatform w
      (exchange 3 (httpRequest "POST /api/reboot" []))).ctx.rebootPending =
        false := by
  have hrun : (run wornPlatform (initial 0x83000000 (fun _ => 0) (fun _ => 0xff))
        failedFlash).ctx.job.phase = .error ∧
      Runs.Along (step wornPlatform)
        (fun w e => keepsFailure wornPlatform w e.2 = true ∧
          (step wornPlatform w e).ctx.job.phase ≠ .done)
        (run wornPlatform (initial 0x83000000 (fun _ => 0) (fun _ => 0xff)) failedFlash)
        (exchange 3 (httpRequest "POST /api/reboot" [])) := by
    decide +kernel
  exact ⟨hrun.1,
    no_reboot_after_failure wornPlatform 0x83000000 (fun _ => 0) (fun _ => 0xff)
      failedFlash (exchange 3 (httpRequest "POST /api/reboot" [])) hrun.1 hrun.2⟩

def abandonedUpload : List (Nat × Event) :=
  [(2, .accept 3 .ok),
    (2, .recv 3 (some
      [httpRequest "POST /api/upload/firmware" ["Content-Length: 4"]]) .ok),
    (2, .error 3)] ++ exchange 4 (httpRequest "POST /api/reboot" [])

theorem failedFlash_reboots_after_abandoned_upload :
    let w := run wornPlatform hlk7621aStart failedFlash
    w.ctx.job.phase = .error ∧
    Runs.Along (step wornPlatform)
      (fun w e => (step wornPlatform w e).ctx.job.phase ≠ .done)
      w abandonedUpload ∧
    (run wornPlatform w abandonedUpload).ctx.rebootPending = true := by
  decide +kernel

end Webflash
end Hlk7621
