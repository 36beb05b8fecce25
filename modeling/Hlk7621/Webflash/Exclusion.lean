import Hlk7621.Webflash.JobMoves
import Hlk7621.Webflash.Nor

/-!
# Mutual exclusion of a job with everything else

While a job is active no reboot and no RAM boot is pending and no body is being
received.  The busy check is made when a header block is complete, so the
invariant has to say in addition that a body is received only while nothing
blocks the device.  A job that has failed has no reboot pending either.
-/

namespace Hlk7621
namespace Webflash

variable {E : Type} {P : Platform E}

structure Exclusive (w : World E) : Prop where
  job : jobActive w.ctx = true ->
    w.ctx.rebootPending = false ∧ w.ctx.bootPending = false
  receiving : w.ctx.rxState = .upload ∨ w.ctx.rxState = .body ->
    operationBlocked w.ctx = false
  failed : w.ctx.job.phase = .error -> w.ctx.rebootPending = false

variable {w w' : World E}

theorem operationBlocked_eq_false {ctx : Ctx} :
    operationBlocked ctx = false <->
      jobActive ctx = false ∧ ctx.rebootPending = false ∧
        ctx.bootPending = false := by
  unfold operationBlocked
  simp [and_assoc]

theorem Exclusive.net (h : Quiet w w') (hw : Exclusive w) : Exclusive w' where
  job := by
    rw [h.jobActive, h.rebootPending, h.bootPending]
    exact hw.job
  receiving := by
    rw [h.operationBlocked]
    rcases h.rxState with hs | hr
    · rw [hs]
      exact hw.receiving
    · simp [hr]
  failed := by
    rw [h.job, h.rebootPending]
    exact hw.failed

/-- The invariant speaks of a few fields only. -/
theorem Exclusive.congr (hw : Exclusive w) (hjob : w'.ctx.job = w.ctx.job)
    (hrx : w'.ctx.rxState = w.ctx.rxState)
    (hreboot : w'.ctx.rebootPending = w.ctx.rebootPending)
    (hboot : w'.ctx.bootPending = w.ctx.bootPending) : Exclusive w' where
  job := by
    unfold jobActive
    rw [hjob, hreboot, hboot]
    exact hw.job
  receiving := by
    unfold operationBlocked jobActive
    rw [hjob, hrx, hreboot, hboot]
    exact hw.receiving
  failed := by
    rw [hjob, hreboot]
    exact hw.failed

theorem exclusive_start (hrx : w'.ctx.rxState = .headers)
    (hidle : operationBlocked w.ctx = false)
    (hreboot : w'.ctx.rebootPending = w.ctx.rebootPending)
    (hboot : w'.ctx.bootPending = w.ctx.bootPending) : Exclusive w' := by
  have hfree := (operationBlocked_eq_false.mp hidle).2
  rw [<- hreboot, <- hboot] at hfree
  exact ⟨fun _ => hfree, by simp [hrx], fun _ => hfree.1⟩

theorem Exclusive.handler {cb : Call} (h : HandlerMove P cb w w')
    (hrx : w.ctx.rxState = .headers) (hw : Exclusive w) : Exclusive w' := by
  cases h with
  | quiet => exact hw
  | beginUpload part size ext h =>
      have hidle := operationBlocked_eq_false.mp h.idle
      have hfree : operationBlocked
          (beginUpload cb part size { w with ext := ext }).ctx = false := by
        rw [operationBlocked_eq_false]
        exact ⟨rfl, hidle.2⟩
      exact ⟨fun _ => hidle.2, fun _ => hfree, fun _ => hidle.2.1⟩
  | beginBody size idle =>
      have hidle := operationBlocked_eq_false.mp idle
      exact ⟨fun _ => hidle.2, fun _ => idle, fun _ => hidle.2.1⟩
  | startPlain part keep h plain => exact exclusive_start hrx h.idle rfl rfl
  | startFactory part keep old ext h eeprom length =>
      exact exclusive_start hrx h.idle rfl rfl
  | startFailed part keep h eeprom failed =>
      exact exclusive_start hrx h.idle rfl rfl
  | startReset p overlay h found => exact exclusive_start hrx h.idle rfl rfl
  | saveEnv ret ext idle => exact hw.congr rfl rfl rfl rfl
  | bootRam part idle valid hpart ram =>
      have hidle := operationBlocked_eq_false.mp idle
      refine ⟨fun hjob => ?_, by simp [hrx], fun _ => hidle.2.1⟩
      exact absurd (hidle.1.symm.trans hjob) (by decide)
  | reboot path idle healthy fresh =>
      refine ⟨fun hjob => ?_, by simp [scheduleReboot, hrx], fun hp => ?_⟩
      · exact absurd (idle.symm.trans hjob) (by decide)
      · exact absurd hp healthy

theorem Exclusive.body {cb : Call} (h : BodyMove P cb w w') (hw : Exclusive w) :
    Exclusive w' := by
  cases h with
  | net h => exact hw.net h.toQuiet
  | stored data rx client fits => exact hw.congr rfl rfl rfl rfl
  | exportFailed ext rx h =>
      have hcompleted : Exclusive (completed ext w) := hw.congr rfl rfl rfl rfl
      exact hcompleted.net h.toQuiet
  | validated ext rx full h answered =>
      have hvalidated : Exclusive (validateUpload P (completed ext w)).2 := by
        unfold validateUpload
        split
        · exact hw.congr rfl rfl rfl rfl
        · exact hw.congr rfl rfl rfl rfl
      exact hvalidated.net h.toQuiet
  | savedEnv ret ext rx h =>
      exact Exclusive.net h.toQuiet (hw.congr rfl rfl rfl rfl)

theorem Exclusive.loop {e : Event} (h : LoopMove e w w') (hw : Exclusive w) : Exclusive w' := by
  cases h with
  | accepted cb err free => exact ⟨hw.job, by simp [accepted], hw.failed⟩
  | turnedAway cb err ext busy => exact hw.net (quiet_turnedAway ext _ w)
  | errored cb => exact hw.net (quiet_tcpError cb w)
  | booted pending => exact hw.congr rfl rfl rfl rfl
  | bootFailed ram ext pending =>
      refine ⟨fun hjob => ⟨(hw.job hjob).1, rfl⟩, fun hrx => ?_, hw.failed⟩
      have hidle := operationBlocked_eq_false.mp (hw.receiving hrx)
      exact operationBlocked_eq_false.mpr ⟨hidle.1, hidle.2.1, rfl⟩
  | reset pending => exact hw.congr rfl rfl rfl rfl

theorem preserves_exclusive (cb : Call) : Preserves P cb (fun _ => True) Exclusive where
  net h hw := hw.net h.toQuiet
  header _ hw := hw.congr rfl rfl rfl rfl
  handler h hrx _ _ hw := hw.handler h hrx
  body h hw := hw.body h

theorem Exclusive.jobStep (now : Nat) (hw : Exclusive w) :
    Exclusive (jobStep P now w) := by
  by_cases hactive : jobActive w.ctx = true
  · have hround := jobRound_jobStep P now w
    have hpending := hw.job hactive
    constructor
    · intro h
      rw [hround.reboot (Or.inl h),
        hround.kept Ctx.bootPending (fun _ _ _ _ => rfl)]
      exact hpending
    · rw [hround.kept Ctx.rxState (fun _ _ _ _ => rfl)]
      intro h
      have hidle := operationBlocked_eq_false.mp (hw.receiving h)
      exact absurd (hidle.1.symm.trans hactive) (by decide)
    · intro h
      rw [hround.reboot (Or.inr h)]
      exact hpending.1
  · rw [jobStep_inactive (by simpa using hactive)]
    exact hw

theorem exclusive_initial (loadAddr : Nat) (ram : Nat -> UInt8) (ext : E) :
    Exclusive (initial loadAddr ram ext) :=
  ⟨fun _ => ⟨rfl, rfl⟩, fun _ => rfl, fun _ => rfl⟩

theorem exclusive_run (hw : Exclusive w) (events : List (Nat × Event)) :
    Exclusive (run P w events) :=
  run_induct preserves_exclusive (fun _ => trivial) (fun h hw => hw.loop h)
    (fun now hw => hw.jobStep now) hw events

/-!
## The course of a job
-/

structure Undisturbed (w v : World E) : Prop where
  exclusive : Exclusive v
  job : v.ctx.job = w.ctx.job
  ram : v.ram = w.ram
  log : v.log = w.log

variable {v : World E}

theorem Undisturbed.active (hactive : jobActive w.ctx = true)
    (hv : Undisturbed w v) : jobActive v.ctx = true := by
  unfold jobActive
  rw [hv.job]
  exact hactive

theorem Undisturbed.blocked (hactive : jobActive w.ctx = true)
    (hv : Undisturbed w v) : operationBlocked v.ctx ≠ false := by
  intro h
  exact absurd ((hv.active hactive).symm.trans (operationBlocked_eq_false.mp h).1)
    (by decide)

theorem Undisturbed.net {v' : World E} (h : Quiet v v') (hv : Undisturbed w v) :
    Undisturbed w v' :=
  ⟨hv.exclusive.net h, h.job.trans hv.job, h.ram.trans hv.ram, h.log.trans hv.log⟩

theorem preserves_undisturbed (cb : Call) (hactive : jobActive w.ctx = true) :
    Preserves P cb (fun _ => True) (Undisturbed w) where
  net h hv := hv.net h.toQuiet
  header _ hv := ⟨hv.exclusive.congr rfl rfl rfl rfl, hv.job, hv.ram, hv.log⟩
  handler := by
    -- Every guard of a handler fails while the job is active.
    intro v v' h hrx _ _ hv
    have hblocked := hv.blocked hactive
    cases h with
    | quiet => exact hv
    | beginUpload part size ext h => exact absurd h.idle hblocked
    | beginBody size idle => exact absurd idle hblocked
    | startPlain part keep h plain => exact absurd h.idle hblocked
    | startFactory part keep old ext h eeprom length =>
        exact absurd h.idle hblocked
    | startFailed part keep h eeprom failed => exact absurd h.idle hblocked
    | startReset p overlay h found => exact absurd h.idle hblocked
    | saveEnv ret ext idle => exact absurd idle hblocked
    | bootRam part idle valid hpart ram => exact absurd idle hblocked
    | reboot path idle healthy fresh =>
        exact absurd ((hv.active hactive).symm.trans idle) (by decide)
  body := by
    -- No body is being received, so only network activity is left.
    intro v v' h hv
    have hblocked := hv.blocked hactive
    cases h with
    | net h => exact hv.net h.toQuiet
    | stored data rx client fits =>
        exact absurd (hv.exclusive.receiving (Or.inl rx)) hblocked
    | exportFailed ext rx h =>
        exact absurd (hv.exclusive.receiving (Or.inl rx)) hblocked
    | validated ext rx full h answered =>
        exact absurd (hv.exclusive.receiving (Or.inl rx)) hblocked
    | savedEnv ret ext rx h =>
        exact absurd (hv.exclusive.receiving (Or.inr rx)) hblocked

theorem Undisturbed.loop (hactive : jobActive w.ctx = true) {v' : World E}
    (h : LoopMove e v v') (hv : Undisturbed w v) : Undisturbed w v' := by
  have hpending := hv.exclusive.job (hv.active hactive)
  cases h with
  | accepted cb err free =>
      exact ⟨hv.exclusive.loop (.accepted cb err free), hv.job, hv.ram, hv.log⟩
  | turnedAway cb err ext busy => exact hv.net (quiet_turnedAway ext _ v)
  | errored cb => exact hv.net (quiet_tcpError cb v)
  | booted pending => exact absurd (pending.symm.trans hpending.2) (by decide)
  | bootFailed ram ext pending =>
      exact absurd (pending.symm.trans hpending.2) (by decide)
  | reset pending => exact absurd (pending.symm.trans hpending.1) (by decide)

theorem step_undisturbed {e : Nat × Event} (hw : Exclusive w)
    (hactive : jobActive w.ctx = true) (hjob : e.2 ≠ .jobStep) :
    Undisturbed w (step P w e) :=
  step_induct (fun cb => preserves_undisturbed cb hactive)
    (fun h hv => hv.loop hactive h) (fun _ _ => trivial)
    (fun h => absurd h hjob) ⟨hw, rfl, rfl, rfl⟩

/-- One transition from a world with an active job: at most one flash access is
logged, and the RAM and the task of the job stay as they are. -/
theorem step_active (hw : Exclusive w) (hactive : jobActive w.ctx = true)
    (e : Nat × Event) : JobTrace w (step P w e) := by
  by_cases hjob : e.2 = .jobStep
  · rcases e with ⟨now, e⟩
    cases hjob
    unfold step
    split
    · exact JobTrace.refl w
    · exact (jobRound_jobStep P now w).trace
  · have hstep : Undisturbed w (step P w e) := step_undisturbed hw hactive hjob
    exact ⟨congrArg Job.task hstep.job, hstep.ram, [], by simp, hstep.log⟩

theorem run_active (hw : Exclusive w) {events : List (Nat × Event)}
    (hactive : Runs.Along (step P) (fun v _ => jobActive v.ctx = true) w events) :
    JobTrace w (run P w events) := by
  induction events generalizing w with
  | nil => exact JobTrace.refl w
  | cons e events ih =>
      have hfirst := step_active (P := P) hw hactive.left e
      have hnext : Exclusive (step P w e) := exclusive_run (P := P) hw [e]
      exact hfirst.trans (ih hnext hactive.right)

/-- In every reachable world with an active job no reboot and no boot is
pending and no body is being received.  As long as the job is active, nothing
but its own flash accesses is logged: no `reset_cpu`, no `bootm`, no environment
save; and neither the RAM nor what the job is to do changes up to and including
the transition that ends it. -/
theorem active_job_excludes_disturbance (P : Platform E) (loadAddr : Nat)
    (ram : Nat -> UInt8) (ext : E) (before during : List (Nat × Event))
    (hactive : jobActive (run P (initial loadAddr ram ext) before).ctx = true)
    (hduring : Runs.Along (step P) (fun v _ => jobActive v.ctx = true)
      (run P (initial loadAddr ram ext) before) during) :
    let w := run P (initial loadAddr ram ext) before
    (w.ctx.rebootPending = false ∧ w.ctx.bootPending = false ∧
      w.ctx.rxState ≠ .upload ∧ w.ctx.rxState ≠ .body) ∧
    (run P w during).ctx.job.task = w.ctx.job.task ∧
    (run P w during).ram = w.ram ∧
    exists accesses, (forall a, a ∈ accesses -> JobAccess a) ∧
      (run P w during).log = accesses ++ w.log := by
  have hw : Exclusive (run P (initial loadAddr ram ext) before) :=
    exclusive_run (exclusive_initial loadAddr ram ext) before
  have hpending := hw.job hactive
  have hnot : forall rx, rx = RxState.upload ∨ rx = RxState.body ->
      (run P (initial loadAddr ram ext) before).ctx.rxState ≠ rx := by
    intro rx hrx h
    rw [<- h] at hrx
    have hidle := operationBlocked_eq_false.mp (hw.receiving hrx)
    exact absurd (hactive.symm.trans hidle.1) (by decide)
  have htrace := run_active hw hduring
  exact ⟨⟨hpending.1, hpending.2, hnot _ (Or.inl rfl), hnot _ (Or.inr rfl)⟩,
    htrace.task, htrace.ram, htrace.log⟩

theorem foreignFlash_undisturbed :
    let w := run (norPlatform hlk7621a) hlk7621aStart foreignFlash
    let during := [(1, .jobStep), (2, .rebootTimer), (3, .jobStep), (4, .jobStep)]
    jobActive w.ctx = true ∧
    exists accesses, (forall a, a ∈ accesses -> JobAccess a) ∧
      (run (norPlatform hlk7621a) w during).log = accesses ++ w.log := by
  have hrun : jobActive (run (norPlatform hlk7621a)
        (initial 0x83000000 (fun _ => 0) (fun _ => 0xff)) foreignFlash).ctx = true ∧
      Runs.Along (step (norPlatform hlk7621a)) (fun v _ => jobActive v.ctx = true)
        (run (norPlatform hlk7621a) (initial 0x83000000 (fun _ => 0) (fun _ => 0xff))
          foreignFlash) [(1, .jobStep), (2, .rebootTimer), (3, .jobStep), (4, .jobStep)] := by
    decide +kernel
  exact ⟨hrun.1,
    (active_job_excludes_disturbance (norPlatform hlk7621a) 0x83000000
      (fun _ => 0) (fun _ => 0xff) foreignFlash
      [(1, .jobStep), (2, .rebootTimer), (3, .jobStep), (4, .jobStep)]
      hrun.1 hrun.2).2.2.2⟩

end Webflash
end Hlk7621
