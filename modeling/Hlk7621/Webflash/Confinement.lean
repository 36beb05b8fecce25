import Hlk7621.Webflash.FlashJobs
import Hlk7621.Webflash.Nor

/-!
# Confinement of flash jobs

Every range that a FLASH job erases or writes lies in one partition, and a
protected partition is touched only for an upload to it that was confirmed with
its own phrase.  The RAM target is the exception: none of the flag tests
recognises it, so that its upload is confirmed like a firmware image and flashed
to its nominal offset, which is zero.
-/

namespace Hlk7621
namespace Webflash

def changedRange : Action -> Option (Nat × Nat)
  | .erase .flash offset len _ => some (offset, len)
  | .write .flash offset data _ => some (offset, data.length)
  | _ => none

def restorePhrases (B : Board) : List (Partition × Bytes) :=
  [(B.ubootPartition, str "RESTORE-UBOOT"),
    (B.envPartition, str "RESTORE-ENVIRONMENT"),
    (B.factoryPartition, str "RESTORE-FACTORY"),
    (B.eepromPartition, str "WRITE-EEPROM")]

def flashPhrases : List Bytes :=
  [str "FLASH-FIRMWARE", str "FLASH-OPENWRT-OTHER", str "FLASH-FOREIGN"]

/-- The history permits changes to the partition `entry`: a protected one needs
an upload to it, or to the EEPROM inside the factory partition, that was
validated last and whose own phrase started the job; a firmware phrase permits
no other partition than the firmware. -/
structure Permitted (B : Board) (history : List Action) (entry : Partition) :
    Prop where
  restore : entry.has PART_PROTECTED = true ->
    exists target body phrase, lastValidated history = some (target, body) ∧
      lastStart history = some (target, phrase) ∧
      (target = entry ∨
        target = B.eepromPartition ∧ entry = B.factoryPartition) ∧
      (target, phrase) ∈ restorePhrases B
  firmware : forall target phrase, lastStart history = some (target, phrase) ->
    phrase ∈ flashPhrases -> entry = B.firmwarePartition

def Confined (B : Board) (history : List Action) (a : Action) : Prop :=
  forall offset len, changedRange a = some (offset, len) ->
    exists entry, entry ∈ B.partitions ∧ entry.offset ≤ offset ∧
      offset + len ≤ entry.offset + entry.size ∧ Permitted B history entry

variable {E : Type} {P : Platform E}

/-!
## Phrases
-/

section

variable {B : Board} {ctx : Ctx}

theorem expectedConfirmation_uboot (h : ctx.uploadPart = some B.ubootPartition) :
    expectedConfirmation ctx = str "RESTORE-UBOOT" := by
  simp [expectedConfirmation, h, ubootPartition_has, PART_EEPROM, PART_UBOOT]

theorem expectedConfirmation_env (h : ctx.uploadPart = some B.envPartition) :
    expectedConfirmation ctx = str "RESTORE-ENVIRONMENT" := by
  simp [expectedConfirmation, h, envPartition_has, PART_EEPROM, PART_UBOOT,
    PART_FACTORY, PART_ENV]

theorem expectedConfirmation_factory
    (h : ctx.uploadPart = some B.factoryPartition) :
    expectedConfirmation ctx = str "RESTORE-FACTORY" := by
  simp [expectedConfirmation, h, factoryPartition_has, PART_EEPROM, PART_UBOOT,
    PART_FACTORY]

theorem expectedConfirmation_eeprom (h : ctx.uploadPart = some B.eepromPartition) :
    expectedConfirmation ctx = str "WRITE-EEPROM" := by
  simp [expectedConfirmation, h, eepromPartition_has, PART_EEPROM]

theorem restorePhrases_disjoint {target : Partition} {phrase : Bytes}
    (h : (target, phrase) ∈ restorePhrases B) : phrase ∉ flashPhrases := by
  simp only [restorePhrases, List.mem_cons, Prod.mk.injEq, List.not_mem_nil,
    or_false] at h
  rcases h with ⟨_, rfl⟩ | ⟨_, rfl⟩ | ⟨_, rfl⟩ | ⟨_, rfl⟩
  · decide
  · decide
  · decide
  · decide

end

theorem Task.permitted {log : List Action} {job : Job} {target entry : Partition}
    {phrase body image : Bytes}
    (ht : Task P log job target phrase body image entry)
    (hram : target.has PART_RAM = false) :
    entry ∈ P.partitions ∧ Permitted P.toBoard log entry := by
  rcases ht.known with ⟨header, hheader⟩
  rcases ht.confirmed with ⟨ctx, hctx, hphrase⟩
  -- A restore of `target` with the phrase of its own.
  have hrestore : (target, phrase) ∈ restorePhrases P.toBoard ->
      (target = entry ∨
        target = P.eepromPartition ∧ entry = P.factoryPartition) ->
      Permitted P.toBoard log entry := by
    intro hmem hentry
    refine ⟨fun _ => ⟨target, body, phrase, ht.validated, ht.start, hentry, hmem⟩, ?_⟩
    intro target' phrase' hstart hflash
    rw [ht.start] at hstart
    cases hstart
    exact absurd hflash (restorePhrases_disjoint hmem)
  have hplain : target.has PART_EEPROM = false -> entry = target := by
    intro hno
    rcases ht.merged with ⟨_, heq, _⟩ | ⟨hyes, _⟩
    · exact heq
    · exact absurd (hno.symm.trans hyes) (by decide)
  rcases uploadTarget_mem hheader with rfl | rfl | rfl | rfl | rfl | rfl
  · have hentry := hplain (by rw [firmwarePartition_has]; decide)
    refine ⟨by simp [hentry, Board.partitions], ?_, fun _ _ _ _ => hentry⟩
    rw [hentry, firmwarePartition_has]
    intro h
    exact absurd h (by decide)
  · have hentry := hplain (by rw [ubootPartition_has]; decide)
    rw [expectedConfirmation_uboot hctx] at hphrase
    exact ⟨by simp [hentry, Board.partitions],
      hrestore (by simp [restorePhrases, hphrase]) (Or.inl hentry.symm)⟩
  · have hentry := hplain (by rw [envPartition_has]; decide)
    rw [expectedConfirmation_env hctx] at hphrase
    exact ⟨by simp [hentry, Board.partitions],
      hrestore (by simp [restorePhrases, hphrase]) (Or.inl hentry.symm)⟩
  · have hentry := hplain (by rw [factoryPartition_has]; decide)
    rw [expectedConfirmation_factory hctx] at hphrase
    exact ⟨by simp [hentry, Board.partitions],
      hrestore (by simp [restorePhrases, hphrase]) (Or.inl hentry.symm)⟩
  · rcases ht.merged with ⟨hno, _⟩ | ⟨_, hentry, _⟩
    · exact absurd hno (by rw [eepromPartition_has]; decide)
    · rw [expectedConfirmation_eeprom hctx] at hphrase
      exact ⟨by simp [hentry, Board.partitions],
        hrestore (by simp [restorePhrases, hphrase]) (Or.inr ⟨rfl, hentry⟩)⟩
  · exact absurd hram (by rw [ramPartition_has]; decide)

/-!
## Ranges
-/

theorem Task.eraseSize_le {log : List Action} {job : Job} {target entry : Partition}
    {phrase body image : Bytes} (hl : Layout P.toBoard)
    (ht : Task P log job target phrase body image entry)
    (hentry : entry ∈ P.partitions) : job.eraseSize ≤ entry.size := by
  rcases ht.eraseSize with ⟨keep, hsize⟩
  rw [hsize]
  exact (hl.eraseSize hentry ht.bounds.1 keep).2.1

theorem JobInv.confined {now : Nat} {a : Action} (hl : Layout P.toBoard)
    {w : World E} (hw : JobInv P (fun target => target.has PART_RAM = false) w)
    (hlog : (Webflash.jobStep P now w).log = a :: w.log) (ha : flashRet a ≠ none) :
    Confined P.toBoard w.log a := by
  have hflash := flashing_of_access hlog ha
  rcases hw.task hflash with ⟨target, phrase, body, image, entry, ht, hp, hram⟩
  rcases ht.permitted hram with ⟨hentry, hpermitted⟩
  have hbounds := ht.bounds
  have herase := ht.eraseSize_le hl hentry
  have hmove : JobMove P now w (Webflash.jobStep P now w) := jobMove_jobStep
  intro offset len hrange
  rcases hmove.access hlog with
    ⟨hphase, ret, rfl, _⟩ | ⟨hphase, part, ret, hpart, rfl, _⟩ |
      ⟨_, part, data, ret, _, rfl, _⟩
  · rw [hflash.2] at hrange
    cases hrange
    have hle := (hp.erasing hphase).1
    have hnext := eraseChunk_le (P := P) ht.eraseSize_lt hle
    refine ⟨entry, hentry, ?_, ?_, hpermitted⟩
    · unfold eraseAddr
      rw [ht.eraseOffset, u32_of_lt (by lia)]
      lia
    · unfold eraseAddr
      rw [ht.eraseOffset, u32_of_lt (by lia)]
      lia
  · rw [hflash.2] at hrange
    cases hrange
    have hle := (hp.writing hphase).1
    have hnext := dataChunk_le (P := P) ht.writeSize_lt hle
    have hsize := ht.writeSize
    have heq : part = entry := Option.some.inj (hpart.symm.trans ht.part)
    have hlength : (jobSource w.ctx.job w.ram (dataChunk P w.ctx.job)).length =
        dataChunk P w.ctx.job := by
      unfold jobSource
      split <;> exact window_length _ _ _
    rw [hlength, heq]
    refine ⟨entry, hentry, ?_, ?_, hpermitted⟩
    · unfold dataAddr
      rw [u32_of_lt (by lia)]
      lia
    · unfold dataAddr
      rw [u32_of_lt (by lia)]
      lia
  · rw [hflash.2] at hrange
    cases hrange

/-!
## Runs
-/

/-- The event does not confirm the flashing of an upload to the RAM target. -/
def sparesRam (w : World E) (e : Event) : Bool :=
  match served w e with
  | none => true
  | some header => !confirmsFlash PART_RAM (withHeader header w)

def ConfinedInv (P : Platform E) (w : World E) : Prop :=
  JobInv P (fun target => target.has PART_RAM = false) w ∧
    Accesses (Confined P.toBoard) w.log

theorem ConfinedInv.step {w : World E} {e : Nat × Event} (hl : Layout P.toBoard)
    (he : sparesRam w e.2 = true) (hw : ConfinedInv P w) :
    ConfinedInv P (step P w e) := by
  refine step_induct (fun cb => (preserves_jobInv cb).accesses)
    (fun h hw => ⟨hw.1.loop h, hw.2.loop h⟩) ?_
    (fun _ hw => ⟨hw.1.jobStep e.1, hw.2.jobStep (fun _ => hw.1.confined hl)⟩) hw
  intro header hserved part hconfirmed
  by_contra hram
  have hspares : confirmsFlash PART_RAM (withHeader header w) = false := by
    simpa [sparesRam, hserved] using he
  have hconfirms : confirmsFlash PART_RAM (withHeader header (touch e.1 w)) = true :=
    hconfirmed.confirmsFlash (by simpa using hram)
  exact absurd (hspares.symm.trans hconfirms) (by decide)

/-- In every run on an accepted layout in which no request confirms the
flashing of a RAM upload, each range erased or written by a FLASH job is confined
to a partition that the history permits. -/
theorem flash_accesses_confined (P : Platform E) (loadAddr : Nat)
    (ram : Nat -> UInt8) (ext : E) (hlayout : P.initFlash = 0)
    (events : List (Nat × Event))
    (hspares : Runs.Along (step P) (fun w e => sparesRam w e.2 = true)
      (initial loadAddr ram ext) events)
    (newer older : List Action) (a : Action)
    (hlog : (run P (initial loadAddr ram ext) events).log = newer ++ a :: older) :
    Confined P.toBoard older a := by
  have hl := layout_of_initFlash hlayout
  have hstart : ConfinedInv P (initial loadAddr ram ext) :=
    ⟨jobInv_initial loadAddr ram ext, trivial⟩
  have hrun : ConfinedInv P (run P (initial loadAddr ram ext) events) :=
    Runs.invariant (fun w e he hw => hw.step hl he) hspares hstart
  intro offset len hrange
  have haccess : flashRet a ≠ none := by
    unfold changedRange at hrange
    unfold flashRet
    split at hrange <;> simp_all
  have hall := hrun.2
  rw [hlog] at hall
  exact accesses_split hall haccess offset len hrange

theorem foreignFlash_confined :
    Confined hlk7621a
      (run (norPlatform hlk7621a) (initial 0x83000000 (fun _ => 0) (fun _ => 0xff))
        foreignFlash).log (.erase .flash 0x50000 0x3000 0) := by
  have hrun : Runs.Along (step (norPlatform hlk7621a)) (fun w e => sparesRam w e.2 = true)
        (initial 0x83000000 (fun _ => 0) (fun _ => 0xff)) (foreignFlash ++ [(1, .jobStep)]) ∧
      (run (norPlatform hlk7621a) (initial 0x83000000 (fun _ => 0) (fun _ => 0xff))
        (foreignFlash ++ [(1, .jobStep)])).log =
          [] ++ .erase .flash 0x50000 0x3000 0 ::
            (run (norPlatform hlk7621a) (initial 0x83000000 (fun _ => 0) (fun _ => 0xff))
              foreignFlash).log := by
    decide +kernel
  exact flash_accesses_confined (norPlatform hlk7621a) 0x83000000 (fun _ => 0)
    (fun _ => 0xff) (by decide) (foreignFlash ++ [(1, .jobStep)]) hrun.1 [] _ _ hrun.2

/-- A kernel image uploaded for a RAM boot and confirmed as a firmware image is
flashed over U-Boot. -/
theorem ramFlash_erases_uboot :
    hlk7621a.initFlash = 0 ∧
    exists older, (run (norPlatform hlk7621a) hlk7621aStart
        (ramFlash ++ [(1, .jobStep)])).log =
          .erase .flash 0 0x10000 0 :: older ∧
      ¬ Confined hlk7621a older (.erase .flash 0 0x10000 0) := by
  have hrun : (run (norPlatform hlk7621a) hlk7621aStart (ramFlash ++ [(1, .jobStep)])).log =
        .erase .flash 0 0x10000 0 :: (run (norPlatform hlk7621a) hlk7621aStart ramFlash).log ∧
      lastStart (run (norPlatform hlk7621a) hlk7621aStart ramFlash).log =
        some (hlk7621a.ramPartition, str "FLASH-FIRMWARE") := by
    decide +kernel
  rcases hrun with ⟨herase, hstart⟩
  refine ⟨by decide, (run (norPlatform hlk7621a) hlk7621aStart ramFlash).log, herase, ?_⟩
  intro hconfined
  rcases hconfined 0 0x10000 rfl with ⟨entry, _, hoffset, _, hpermitted⟩
  have hentry := hpermitted.firmware _ _ hstart (by decide)
  rw [hentry] at hoffset
  exact absurd hoffset (by decide)

end Webflash
end Hlk7621
