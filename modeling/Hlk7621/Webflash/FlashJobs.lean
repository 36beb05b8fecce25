import Hlk7621.Webflash.Layout
import Hlk7621.Webflash.Uploads

/-!
# The flash job behind the context

A job of mode FLASH is the continuation of a confirmed request, which the log
records together with the flash accesses made since.  `JobInv` says what such a
job is to do, how far it has come, and that none of its accesses has failed.
-/

namespace Hlk7621
namespace Webflash

/-!
## Jobs in the log
-/

def lastStart : List Action -> Option (Partition × Bytes)
  | [] => none
  | .flashStarted part phrase :: _ => some (part, phrase)
  | _ :: log => lastStart log

def lastFactoryRead : List Action -> Option Bytes
  | [] => none
  | .factoryRead data :: _ => some data
  | _ :: log => lastFactoryRead log

def readBack : List Action -> List (Nat × Bytes)
  | [] => []
  | .flashStarted .. :: _ => []
  | .verify .flash offset data _ :: log => readBack log ++ [(offset, data)]
  | _ :: log => readBack log

def flashRet : Action -> Option Int
  | .erase .flash _ _ ret => some ret
  | .write .flash _ _ ret => some ret
  | .verify .flash _ _ ret => some ret
  | _ => none

def Clean : List Action -> Prop
  | [] => True
  | .flashStarted .. :: _ => True
  | a :: log => (flashRet a = none ∨ flashRet a = some 0) ∧ Clean log

def InOrder : Nat -> List (Nat × Bytes) -> Prop
  | _, [] => True
  | base, (offset, data) :: rest =>
      offset = base ∧ InOrder (base + data.length) rest

def contents (reads : List (Nat × Bytes)) : Bytes :=
  (reads.map Prod.snd).flatten

theorem contents_append (xs ys : List (Nat × Bytes)) :
    contents (xs ++ ys) = contents xs ++ contents ys := by
  simp [contents]

theorem inOrder_append {base : Nat} {xs ys : List (Nat × Bytes)} :
    InOrder base (xs ++ ys) <->
      InOrder base xs ∧ InOrder (base + (contents xs).length) ys := by
  induction xs generalizing base with
  | nil => simp [InOrder, contents]
  | cons x xs ih =>
      rcases x with ⟨offset, data⟩
      rw [List.cons_append, InOrder, InOrder, ih, and_assoc]
      simp [contents, Nat.add_assoc]

structure SameStart (log log' : List Action) : Prop where
  start : lastStart log' = lastStart log
  validated : lastValidated log' = lastValidated log
  factory : lastFactoryRead log' = lastFactoryRead log

structure SameJob (log log' : List Action) : Prop extends SameStart log log' where
  reads : readBack log' = readBack log
  clean : Clean log -> Clean log'

theorem SameJob.refl (log : List Action) : SameJob log log :=
  ⟨⟨rfl, rfl, rfl⟩, rfl, id⟩

/-!
## Upload targets
-/

theorem uploadTarget_mem {B : Board} {header : Bytes} {part : Partition}
    (h : uploadTarget B header = some part) :
    part = B.firmwarePartition ∨ part = B.ubootPartition ∨
      part = B.envPartition ∨ part = B.factoryPartition ∨
      part = B.eepromPartition ∨ part = B.ramPartition := by
  have hfind : B.partitionFind (str "firmware") = some B.firmwarePartition ∧
      B.partitionFind (str "uboot") = some B.ubootPartition ∧
      B.partitionFind (str "environment") = some B.envPartition ∧
      B.partitionFind (str "factory") = some B.factoryPartition ∧
      B.partitionFind (str "eeprom") = some B.eepromPartition ∧
      B.partitionFind (str "ram") = some B.ramPartition :=
    ⟨rfl, rfl, rfl, rfl, rfl, rfl⟩
  rcases hfind with ⟨h1, h2, h3, h4, h5, h6⟩
  unfold uploadTarget at h
  rw [h1, h2, h3, h4, h5, h6] at h
  grind

/-!
## The task
-/

variable {E : Type} (P : Platform E)

/-- The job that an upload of `body` to `target` asks for, confirmed with
`phrase`: it writes `image` to the partition `entry`. -/
structure Task (log : List Action) (job : Job) (target : Partition)
    (phrase body image : Bytes) (entry : Partition) : Prop where
  start : lastStart log = some (target, phrase)
  validated : lastValidated log = some (target, body)
  known : exists header, uploadTarget P.toBoard header = some target
  confirmed : exists ctx : Ctx, ctx.uploadPart = some target ∧
    phrase = expectedConfirmation ctx
  sizeOk : uploadSizeOk target body.length = true
  part : job.part = some entry
  merged : target.has PART_EEPROM = false ∧ entry = target ∧ image = body ∨
    target.has PART_EEPROM = true ∧ entry = P.factoryPartition ∧
      exists old, lastFactoryRead log = some old ∧ old.length = P.factory.size ∧
        image = splice old EEPROM_OFFSET body
  eraseOffset : job.eraseOffset = entry.offset
  eraseSize : exists keep, job.eraseSize =
    if entry.has PART_FIRMWARE then firmwareEraseSize P entry image.length keep
    else entry.size
  writeSize : job.writeSize = image.length
  sourceCrc : job.sourceCrc = UBoot.crcOf 0#32 image

structure Progress (log : List Action) (job : Job) (entry : Partition) : Prop where
  clean : Clean log
  erasing : job.phase = .erasing -> job.processed ≤ job.eraseSize ∧ readBack log = []
  writing : job.phase = .writing -> job.processed ≤ job.writeSize ∧ readBack log = []
  verifying : job.phase = .verifying ->
    job.processed ≤ job.writeSize ∧ InOrder entry.offset (readBack log) ∧
      (contents (readBack log)).length = job.processed ∧
      job.verifyCrc = UBoot.crcOf 0#32 (contents (readBack log))
  done : job.phase = .done ->
    InOrder entry.offset (readBack log) ∧
      (contents (readBack log)).length = job.writeSize ∧
      job.verifyCrc = UBoot.crcOf 0#32 (contents (readBack log)) ∧
      job.verifyCrc = job.sourceCrc

def flashing (ctx : Ctx) : Prop :=
  (jobActive ctx = true ∨ ctx.job.phase = .done) ∧ ctx.job.mode = .flash

/-- `Good` is what is known of the targets whose flashing was confirmed. -/
structure JobInv (Good : Partition -> Prop) (w : World E) : Prop where
  upload : UploadInv P w
  reboot : w.ctx.job.phase = .done -> w.ctx.rebootPending = true
  task : flashing w.ctx -> exists target phrase body image entry,
    Task P w.log w.ctx.job target phrase body image entry ∧
      Progress w.log w.ctx.job entry ∧ Good target

variable {P} {Good : Partition -> Prop} {w w' : World E}

theorem Task.congr {log log' : List Action} {job job' : Job}
    {target entry : Partition} {phrase body image : Bytes}
    (h : Task P log job target phrase body image entry)
    (hlog : SameStart log log') (hjob : job'.task = job.task) :
    Task P log' job' target phrase body image entry := by
  have hfield : forall {α : Type} (f : Job -> α),
      (forall job, f job.task = f job) -> f job' = f job := by
    intro α f hf
    rw [<- hf job', hjob, hf]
  refine ⟨hlog.start.trans h.start, hlog.validated.trans h.validated, h.known,
    h.confirmed, h.sizeOk, ?_, ?_, ?_, ?_, ?_, ?_⟩
  · rw [hfield Job.part (fun _ => rfl)]
    exact h.part
  · rw [hlog.factory]
    exact h.merged
  · rw [hfield Job.eraseOffset (fun _ => rfl)]
    exact h.eraseOffset
  · rw [hfield Job.eraseSize (fun _ => rfl)]
    exact h.eraseSize
  · rw [hfield Job.writeSize (fun _ => rfl)]
    exact h.writeSize
  · rw [hfield Job.sourceCrc (fun _ => rfl)]
    exact h.sourceCrc

theorem Progress.congr {log log' : List Action} {job : Job} {entry : Partition}
    (h : Progress log job entry) (hlog : SameJob log log') :
    Progress log' job entry := by
  refine ⟨hlog.clean h.clean, ?_, ?_, ?_, ?_⟩
  · rw [hlog.reads]
    exact h.erasing
  · rw [hlog.reads]
    exact h.writing
  · rw [hlog.reads]
    exact h.verifying
  · rw [hlog.reads]
    exact h.done

theorem JobInv.congr (hw : JobInv P Good w) (hupload : UploadInv P w')
    (hjob : w'.ctx.job = w.ctx.job)
    (hreboot : w'.ctx.rebootPending = w.ctx.rebootPending)
    (hlog : flashing w.ctx -> SameJob w.log w'.log) : JobInv P Good w' := by
  refine ⟨hupload, ?_, ?_⟩
  · rw [hjob, hreboot]
    exact hw.reboot
  · intro hflash
    have hflash' : flashing w.ctx := by
      unfold flashing jobActive at hflash ⊢
      rw [<- hjob]
      exact hflash
    rcases hw.task hflash' with
      ⟨target, phrase, body, image, entry, htask, hprog, hgood⟩
    refine ⟨target, phrase, body, image, entry,
      htask.congr (hlog hflash').1 ?_, ?_, hgood⟩
    · rw [hjob]
    · rw [hjob]
      exact hprog.congr (hlog hflash')

theorem JobInv.blocked (hw : JobInv P Good w) (h : flashing w.ctx) :
    operationBlocked w.ctx ≠ false := by
  intro hidle
  have hfree := operationBlocked_eq_false.mp hidle
  rcases h.1 with hactive | hdone
  · exact absurd (hactive.symm.trans hfree.1) (by decide)
  · exact absurd ((hw.reboot hdone).symm.trans hfree.2.1) (by decide)

theorem JobInv.of_idle (hw : JobInv P Good w) (hidle : operationBlocked w.ctx = false)
    (hupload : UploadInv P w') (hjob : w'.ctx.job = w.ctx.job)
    (hreboot : w'.ctx.rebootPending = w.ctx.rebootPending) : JobInv P Good w' :=
  hw.congr hupload hjob hreboot (fun h => absurd hidle (hw.blocked h))

theorem JobInv.net (h : Quiet w w') (hw : JobInv P Good w) : JobInv P Good w' := by
  refine hw.congr (hw.upload.net h) h.job h.rebootPending (fun _ => ?_)
  rw [h.log]
  exact SameJob.refl _

/-!
## Start of a job
-/

section

variable {log : List Action} {job : Job} {entry : Partition}

theorem progress_erasing (hphase : job.phase = .erasing) (hclean : Clean log)
    (hle : job.processed ≤ job.eraseSize) (hreads : readBack log = []) :
    Progress log job entry :=
  ⟨hclean, fun _ => ⟨hle, hreads⟩, by simp [hphase], by simp [hphase],
    by simp [hphase]⟩

theorem progress_writing (hphase : job.phase = .writing) (hclean : Clean log)
    (hle : job.processed ≤ job.writeSize) (hreads : readBack log = []) :
    Progress log job entry :=
  ⟨hclean, by simp [hphase], fun _ => ⟨hle, hreads⟩, by simp [hphase],
    by simp [hphase]⟩

theorem progress_verifying (hphase : job.phase = .verifying) (hclean : Clean log)
    (hle : job.processed ≤ job.writeSize)
    (horder : InOrder entry.offset (readBack log))
    (hlength : (contents (readBack log)).length = job.processed)
    (hcrc : job.verifyCrc = UBoot.crcOf 0#32 (contents (readBack log))) :
    Progress log job entry :=
  ⟨hclean, by simp [hphase], by simp [hphase],
    fun _ => ⟨hle, horder, hlength, hcrc⟩, by simp [hphase]⟩

theorem progress_done (hphase : job.phase = .done) (hclean : Clean log)
    (horder : InOrder entry.offset (readBack log))
    (hlength : (contents (readBack log)).length = job.writeSize)
    (hcrc : job.verifyCrc = UBoot.crcOf 0#32 (contents (readBack log)))
    (hsource : job.verifyCrc = job.sourceCrc) : Progress log job entry :=
  ⟨hclean, by simp [hphase], by simp [hphase], by simp [hphase],
    fun _ => ⟨horder, hlength, hcrc, hsource⟩⟩

theorem progress_start {part : Partition} {phrase : Bytes}
    (hphase : job.phase = .erasing) (hprocessed : job.processed = 0) :
    Progress (.flashStarted part phrase :: log) job entry :=
  progress_erasing hphase trivial (by rw [hprocessed]; exact Nat.zero_le _) rfl

end

theorem uploadTarget_eeprom {B : Board} {header : Bytes} {part : Partition}
    (h : uploadTarget B header = some part) (heeprom : part.has PART_EEPROM = true) :
    part = B.eepromPartition := by
  rcases uploadTarget_mem h with rfl | rfl | rfl | rfl | rfl | rfl
  · exact absurd heeprom (by rw [firmwarePartition_has]; decide)
  · exact absurd heeprom (by rw [ubootPartition_has]; decide)
  · exact absurd heeprom (by rw [envPartition_has]; decide)
  · exact absurd heeprom (by rw [factoryPartition_has]; decide)
  · rfl
  · exact absurd heeprom (by rw [ramPartition_has]; decide)

theorem uploadSizeOk_protected {part : Partition} {size : Nat}
    (h : uploadSizeOk part size = true) (hp : part.has PART_PROTECTED = true) :
    size = part.size := by
  unfold uploadSizeOk at h
  rw [hp] at h
  simpa using (Bool.and_eq_true_iff.mp h).2

theorem uploadSizeOk_le {part : Partition} {size : Nat}
    (h : uploadSizeOk part size = true) : 0 < size ∧ size ≤ part.size := by
  unfold uploadSizeOk at h
  simp only [Bool.and_eq_true, bne_iff_ne, decide_eq_true_eq] at h
  exact ⟨Nat.pos_of_ne_zero h.1.1, h.1.2⟩

theorem task_plain {part : Partition} {keep : Bool} {u : Upload} {log : List Action}
    (hu : Ready P w u) (hlog : lastValidated log = lastValidated w.log)
    (hpart : w.ctx.uploadPart = some part) (hplain : part.has PART_EEPROM = false) :
    Task P (.flashStarted part (expectedConfirmation w.ctx) :: log)
      (plainJob P part { w.ctx with keepConfig := keep }) part
      (expectedConfirmation w.ctx) u.body u.body part := by
  have hsame : part = u.part := Option.some.inj (hpart.symm.trans hu.part)
  have hsize : w.ctx.completedSize = u.body.length := hu.size.trans hu.complete.symm
  refine ⟨rfl, ?_, ⟨u.header, hsame ▸ hu.announced.target⟩, ⟨w.ctx, hpart, rfl⟩, ?_,
    rfl, Or.inl ⟨hplain, rfl, rfl⟩, rfl, ⟨keep, ?_⟩, hsize, hu.crc⟩
  · rw [hsame]
    exact hlog.trans hu.validated
  · rw [hsame, hu.complete]
    exact hu.announced.sizeOk
  · show (if part.has PART_FIRMWARE = true then
      firmwareEraseSize P part w.ctx.completedSize keep else part.size) = _
    rw [hsize]

theorem task_factory {part : Partition} {u : Upload} {old : Bytes}
    (hu : Ready P w u) (hpart : w.ctx.uploadPart = some part)
    (heeprom : part.has PART_EEPROM = true) (hold : old.length = P.factory.size) :
    Task P (.flashStarted part (expectedConfirmation w.ctx) ::
        .factoryRead old :: w.log)
      (factoryJob P w.ctx (splice old EEPROM_OFFSET
        (window w.ram w.ctx.completedAddr EEPROM_SIZE))) part
      (expectedConfirmation w.ctx) u.body (splice old EEPROM_OFFSET u.body)
      P.factoryPartition := by
  have hsame : part = u.part := Option.some.inj (hpart.symm.trans hu.part)
  have htarget : uploadTarget P.toBoard u.header = some part :=
    hsame ▸ hu.announced.target
  have heq := uploadTarget_eeprom htarget heeprom
  have hsize : u.size = EEPROM_SIZE := by
    have hok : uploadSizeOk part u.size = true := hsame ▸ hu.announced.sizeOk
    refine (uploadSizeOk_protected hok ?_).trans ?_
    · rw [heq, eepromPartition_has]
      decide
    · rw [heq]
      rfl
  have hbody : window w.ram w.ctx.completedAddr EEPROM_SIZE = u.body := by
    rw [<- hsize, <- hu.size]
    refine hu.intact (Or.inl ?_)
    rw [<- hsame, heq, eepromPartition_has]
    decide
  rw [hbody]
  refine ⟨rfl, ?_, ⟨u.header, htarget⟩, ⟨w.ctx, hpart, rfl⟩, ?_, rfl,
    Or.inr ⟨heeprom, rfl, old, rfl, hold, rfl⟩, rfl, ⟨false, ?_⟩, ?_, ?_⟩
  · rw [hsame]
    exact hu.validated
  · rw [hsame, hu.complete]
    exact hu.announced.sizeOk
  · rw [factoryPartition_has, if_neg (by decide)]
    rfl
  · rw [splice_length, hold]
    rfl
  · exact UBoot.crc32_eq_crcOf _ _ _

theorem not_flashing_of_phase {ctx : Ctx} (hidle : jobActive ctx = false)
    (hdone : ctx.job.phase ≠ .done) : ¬ flashing ctx := by
  rintro ⟨hactive | h, _⟩
  · exact absurd (hidle.symm.trans hactive) (by decide)
  · exact hdone h

theorem JobInv.handler {cb : Call} (h : HandlerMove P cb w w')
    (hrx : w.ctx.rxState = .headers)
    (hok : forall part, FlashConfirmed w part -> Good part)
    (hw : JobInv P Good w) : JobInv P Good w' := by
  have hupload := hw.upload.handler h hrx
  cases h with
  | quiet => exact hw
  | beginUpload part size ext h =>
      exact ⟨hupload, (fun h => by cases h), fun h =>
        absurd h (not_flashing_of_phase rfl (by simp [beginUpload]))⟩
  | beginBody size idle => exact hw.of_idle idle hupload rfl rfl
  | startPlain part keep h plain =>
      rcases hw.upload.ready h.valid with ⟨u, hu⟩
      exact ⟨hupload, (fun h => by cases h), fun _ =>
        ⟨part, _, u.body, u.body, part, task_plain hu rfl h.uploadPart plain,
          progress_start rfl rfl, hok part h⟩⟩
  | startFactory part keep old ext h eeprom length =>
      rcases hw.upload.ready h.valid with ⟨u, hu⟩
      exact ⟨hupload, (fun h => by cases h), fun _ =>
        ⟨part, _, u.body, _, P.factoryPartition,
          task_factory hu h.uploadPart eeprom length, progress_start rfl rfl,
          hok part h⟩⟩
  | startFailed part keep h eeprom failed =>
      exact ⟨hupload, (fun h => by cases h), fun h =>
        absurd h (not_flashing_of_phase rfl (by simp))⟩
  | startReset p overlay h found =>
      refine ⟨hupload, (fun h => by cases h), ?_⟩
      rintro ⟨_, hmode⟩
      cases hmode
  | saveEnv ret ext idle => exact hw.of_idle idle hupload rfl rfl
  | bootRam part idle valid hpart ram => exact hw.of_idle idle hupload rfl rfl
  | reboot path idle healthy fresh =>
      -- A completed job has its reboot pending, so there is no job.
      refine ⟨hupload, fun _ => rfl, ?_⟩
      intro hflash
      refine absurd (show flashing w.ctx from hflash) (not_flashing_of_phase idle ?_)
      intro hdone
      exact absurd ((hw.reboot hdone).symm.trans fresh) (by decide)

theorem BodyMove.keeps_job {cb : Call} (h : BodyMove P cb w w') :
    w'.ctx.job = w.ctx.job ∧ w'.ctx.rebootPending = w.ctx.rebootPending := by
  cases h with
  | net h => exact ⟨h.job, h.rebootPending⟩
  | stored data rx client fits => exact ⟨rfl, rfl⟩
  | exportFailed ext rx h => exact ⟨h.job, h.rebootPending⟩
  | validated ext rx full h answered =>
      rw [h.job, h.rebootPending]
      unfold validateUpload
      split
      · exact ⟨rfl, rfl⟩
      · exact ⟨rfl, rfl⟩
  | savedEnv ret ext rx h => exact ⟨h.job, h.rebootPending⟩

theorem JobInv.body {cb : Call} (h : BodyMove P cb w w') (hw : JobInv P Good w) :
    JobInv P Good w' := by
  have hupload := hw.upload.body h
  have hkept := h.keeps_job
  have hidle : w.ctx.rxState = .upload ∨ w.ctx.rxState = .body -> JobInv P Good w' := by
    intro hrx
    exact hw.of_idle (hw.upload.exclusive.receiving hrx) hupload hkept.1 hkept.2
  cases h with
  | net h => exact hw.net h.toQuiet
  | stored data rx client fits => exact hidle (Or.inl rx)
  | exportFailed ext rx h => exact hidle (Or.inl rx)
  | validated ext rx full h answered => exact hidle (Or.inl rx)
  | savedEnv ret ext rx h => exact hidle (Or.inr rx)

theorem JobInv.loop {e : Event} (h : LoopMove e w w') (hw : JobInv P Good w) :
    JobInv P Good w' := by
  have hupload := hw.upload.loop h
  cases h with
  | accepted cb err free =>
      exact hw.congr hupload rfl rfl (fun _ => SameJob.refl _)
  | turnedAway cb err ext busy => exact hw.net (quiet_turnedAway ext _ w)
  | errored cb => exact hw.net (quiet_tcpError cb w)
  | booted pending =>
      exact hw.congr hupload rfl rfl (fun _ =>
        ⟨⟨rfl, rfl, rfl⟩, rfl, fun h => ⟨Or.inl rfl, h⟩⟩)
  | bootFailed ram ext pending =>
      exact hw.congr hupload rfl rfl (fun _ =>
        ⟨⟨rfl, rfl, rfl⟩, rfl, fun h => ⟨Or.inl rfl, h⟩⟩)
  | reset pending =>
      exact hw.congr hupload rfl rfl (fun _ =>
        ⟨⟨rfl, rfl, rfl⟩, rfl, fun h => ⟨Or.inl rfl, h⟩⟩)

/-!
## Rounds
-/

section

variable {log : List Action} {job : Job} {target entry : Partition}
    {phrase body image : Bytes}

theorem Task.bounds (h : Task P log job target phrase body image entry) :
    image.length ≤ entry.size ∧ entry.offset + entry.size < 2 ^ 32 := by
  rcases h.merged with ⟨hplain, rfl, rfl⟩ | ⟨_, rfl, old, _, hold, rfl⟩
  · refine ⟨(uploadSizeOk_le h.sizeOk).2, ?_⟩
    rcases h.known with ⟨header, hheader⟩
    rcases uploadTarget_mem hheader with rfl | rfl | rfl | rfl | rfl | rfl
    · exact P.firmware.fits
    · exact P.uboot.fits
    · exact P.env.fits
    · exact P.factory.fits
    · exact absurd hplain (by rw [eepromPartition_has]; decide)
    · have hfits := P.firmware.fits
      show 0 + P.firmware.size < 2 ^ 32
      lia
  · rw [splice_length, hold]
    exact ⟨Nat.le_refl _, P.factory.fits⟩

theorem Task.writeSize_lt (h : Task P log job target phrase body image entry) :
    job.writeSize < 2 ^ 32 := by
  have hbounds := h.bounds
  rw [h.writeSize]
  lia

theorem Task.eraseSize_lt (h : Task P log job target phrase body image entry) :
    job.eraseSize < 2 ^ 32 := by
  have hbounds := h.bounds
  rcases h.eraseSize with ⟨keep, hsize⟩
  rw [hsize]
  split
  · unfold firmwareEraseSize
    dsimp only
    split
    · exact u32_lt _
    · exact Nat.lt_of_le_of_lt (Nat.min_le_left _ _) (by lia)
  · lia

end

theorem JobInv.advance (hw : JobInv P Good w) (hupload : UploadInv P w')
    (htask : w'.ctx.job.task = w.ctx.job.task)
    (hreboot : w'.ctx.job.phase = .done -> w'.ctx.rebootPending = true)
    (hactive : jobActive w.ctx = true)
    (hprogress : w.ctx.job.mode = .flash ->
      SameStart w.log w'.log ∧
      forall {target entry phrase body image},
        Task P w.log w.ctx.job target phrase body image entry ->
        Progress w.log w.ctx.job entry -> Progress w'.log w'.ctx.job entry) :
    JobInv P Good w' := by
  refine ⟨hupload, hreboot, ?_⟩
  intro hflash
  have hmode : w.ctx.job.mode = .flash :=
    (congrArg Job.mode htask).symm.trans hflash.2
  rcases hw.task ⟨Or.inl hactive, hmode⟩ with
    ⟨target, phrase, body, image, entry, ht, hp, hgood⟩
  rcases hprogress hmode with ⟨hstart, hnext⟩
  exact ⟨target, phrase, body, image, entry, ht.congr hstart htask, hnext ht hp,
    hgood⟩

section

variable {mode : JobMode} (log : List Action)

theorem sameJob_erase (hmode : mode = .flash) (offset len : Nat) :
    SameJob log (.erase mode offset len 0 :: log) := by
  subst hmode
  exact ⟨⟨rfl, rfl, rfl⟩, rfl, fun h => ⟨Or.inr rfl, h⟩⟩

theorem sameJob_write (hmode : mode = .flash) (offset : Nat) (data : Bytes) :
    SameJob log (.write mode offset data 0 :: log) := by
  subst hmode
  exact ⟨⟨rfl, rfl, rfl⟩, rfl, fun h => ⟨Or.inr rfl, h⟩⟩

end

def readNext (mode : JobMode) (part : Partition) (job : Job) (data : Bytes)
    (log : List Action) : List Action :=
  .verify mode (dataAddr part job) data 0 :: log

theorem sameStart_readNext {mode : JobMode} (part : Partition) (job : Job)
    (data : Bytes) (log : List Action) :
    SameStart log (readNext mode part job data log) :=
  ⟨rfl, rfl, rfl⟩

theorem Progress.readNext {log : List Action} {job : Job}
    {target part entry : Partition} {phrase body image : Bytes}
    (ht : Task P log job target phrase body image entry)
    (hp : Progress log job entry) (hphase : job.phase = .verifying)
    (hpart : job.part = some part) (data : Nat -> UInt8) :
    let bytes := window data 0 (dataChunk P job)
    let log' := readNext .flash part job bytes log
    Clean log' ∧ InOrder entry.offset (readBack log') ∧
      (contents (readBack log')).length =
        u32 (job.processed + dataChunk P job) ∧
      u32 (job.processed + dataChunk P job) ≤ job.writeSize ∧
      UBoot.crc32 job.verifyCrc 0 bytes =
        UBoot.crcOf 0#32 (contents (readBack log')) := by
  rcases hp.verifying hphase with ⟨hle, horder, hlength, hcrc⟩
  have hentry : part = entry := Option.some.inj (hpart.symm.trans ht.part)
  have hlt := ht.writeSize_lt
  have hbounds := ht.bounds
  rw [<- ht.writeSize] at hbounds
  have hnext := dataChunk_le (P := P) hlt hle
  dsimp only
  generalize hbytes : window data 0 (dataChunk P job) = bytes
  have hbytesLength : bytes.length = dataChunk P job := by
    rw [<- hbytes, window_length]
  have hreads : readBack (Webflash.readNext .flash part job bytes log) =
      readBack log ++ [(dataAddr part job, bytes)] := rfl
  have hcontents : contents [(dataAddr part job, bytes)] = bytes := by
    simp [contents]
  rw [u32_of_lt (by lia), hreads, contents_append, inOrder_append,
    List.length_append, hcontents, hlength, hbytesLength]
  refine ⟨⟨Or.inr rfl, hp.clean⟩, ⟨horder, ?_, trivial⟩, rfl, hnext, ?_⟩
  · unfold dataAddr
    rw [hentry]
    exact u32_of_lt (by lia)
  · rw [UBoot.crc32_eq_crcOf, hcrc, UBoot.crcOf_append]

theorem JobInv.jobStep (now : Nat) (hw : JobInv P Good w) :
    JobInv P Good (jobStep P now w) := by
  have hupload : UploadInv P (Webflash.jobStep P now w) := hw.upload.jobStep now
  have hround := jobRound_jobStep P now w
  have htask := hround.trace.task
  have hmove : JobMove P now w (Webflash.jobStep P now w) := jobMove_jobStep
  generalize Webflash.jobStep P now w = v at hupload htask hmove
  -- A failed round ends the job.
  have hfailed : v.ctx.job.phase = .error -> JobInv P Good v := by
    intro hphase
    refine ⟨hupload, by simp [hphase], fun h => absurd h ?_⟩
    exact not_flashing_of_phase (by simp [jobActive, hphase]) (by simp [hphase])
  cases hmove with
  | idle inactive => exact hw
  | fault part => exact hw.congr hupload rfl rfl (fun _ => SameJob.refl _)
  | eraseFailed ret ext phase dev failed => exact hfailed rfl
  | writeFailed part ret ext phase hpart dev failed => exact hfailed rfl
  | readFailed part ret data ext phase hpart dev failed => exact hfailed rfl
  | mismatch part data ext phase hpart dev full crc => exact hfailed rfl
  | settingsErased ext phase dev full mode =>
      refine ⟨hupload, fun _ => rfl, fun h => ?_⟩
      exact absurd (h.2.symm.trans mode) (by decide)
  | erased ext phase dev more =>
      refine hw.advance hupload htask (fun h => ?_) (by simp [jobActive, phase]) ?_
      · exact absurd (phase.symm.trans h) (by decide)
      · intro hmode
        have hsame := sameJob_erase w.log hmode (eraseAddr w.ctx.job)
          (eraseChunk P w.ctx.job)
        refine ⟨hsame.1, fun ht hp => ?_⟩
        rcases hp.erasing phase with ⟨hle, hreads⟩
        have hlt := ht.eraseSize_lt
        have hnext := eraseChunk_le (P := P) hlt hle
        refine progress_erasing phase (hsame.clean hp.clean) ?_
          (hsame.reads.trans hreads)
        show u32 (w.ctx.job.processed + eraseChunk P w.ctx.job) ≤ w.ctx.job.eraseSize
        rw [u32_of_lt (by lia)]
        exact hnext
  | erasedAll ext phase dev full mode =>
      refine hw.advance hupload htask (fun h => by cases h)
        (by simp [jobActive, phase]) ?_
      intro hmode
      have hsame := sameJob_erase w.log hmode (eraseAddr w.ctx.job)
        (eraseChunk P w.ctx.job)
      refine ⟨hsame.1, fun ht hp => ?_⟩
      rcases hp.erasing phase with ⟨_, hreads⟩
      exact progress_writing rfl (hsame.clean hp.clean) (Nat.zero_le _)
        (hsame.reads.trans hreads)
  | written part ext phase hpart dev more =>
      refine hw.advance hupload htask (fun h => ?_) (by simp [jobActive, phase]) ?_
      · exact absurd (phase.symm.trans h) (by decide)
      · intro hmode
        have hsame := sameJob_write w.log hmode (dataAddr part w.ctx.job)
          (jobSource w.ctx.job w.ram (dataChunk P w.ctx.job))
        refine ⟨hsame.1, fun ht hp => ?_⟩
        rcases hp.writing phase with ⟨hle, hreads⟩
        have hlt := ht.writeSize_lt
        have hnext := dataChunk_le (P := P) hlt hle
        refine progress_writing phase (hsame.clean hp.clean) ?_
          (hsame.reads.trans hreads)
        show u32 (w.ctx.job.processed + dataChunk P w.ctx.job) ≤ w.ctx.job.writeSize
        rw [u32_of_lt (by lia)]
        exact hnext
  | writtenAll part ext phase hpart dev full =>
      refine hw.advance hupload htask (fun h => by cases h)
        (by simp [jobActive, phase]) ?_
      intro hmode
      have hsame := sameJob_write w.log hmode (dataAddr part w.ctx.job)
        (jobSource w.ctx.job w.ram (dataChunk P w.ctx.job))
      refine ⟨hsame.1, fun ht hp => ?_⟩
      rcases hp.writing phase with ⟨_, hreads⟩
      have hnone := hsame.reads.trans hreads
      refine progress_verifying rfl (hsame.clean hp.clean) (Nat.zero_le _) ?_ ?_ ?_
      · show InOrder _ (readBack (.write ..  :: w.log))
        rw [hnone]
        trivial
      · show (contents (readBack (.write .. :: w.log))).length = 0
        rw [hnone]
        rfl
      · show 0#32 = UBoot.crcOf 0#32 (contents (readBack (.write .. :: w.log)))
        rw [hnone]
        exact (UBoot.crcOf_nil _).symm
  | read part data ext phase hpart dev more =>
      refine hw.advance hupload htask (fun h => ?_) (by simp [jobActive, phase]) ?_
      · exact absurd (phase.symm.trans h) (by decide)
      · intro hmode
        refine ⟨sameStart_readNext part _ _ _, fun ht hp => ?_⟩
        rcases hp.readNext ht phase hpart data with
          ⟨hclean, horder, hlength, hle, hcrc⟩
        rw [<- hmode] at hclean horder hlength hcrc
        exact progress_verifying phase hclean hle horder hlength hcrc
  | readAll part data ext phase hpart dev full crc =>
      refine hw.advance hupload htask (fun _ => rfl) (by simp [jobActive, phase]) ?_
      intro hmode
      refine ⟨sameStart_readNext part _ _ _, fun ht hp => ?_⟩
      rcases hp.readNext ht phase hpart data with
        ⟨hclean, horder, hlength, _, hcrc⟩
      rw [<- hmode] at hclean horder hlength hcrc
      exact progress_done rfl hclean horder (hlength.trans full) hcrc crc

theorem preserves_jobInv (cb : Call) : Preserves P cb
    (fun w => forall part, FlashConfirmed w part -> Good part) (JobInv P Good) where
  net h hw := hw.net h.toQuiet
  header _ hw := hw.congr
    (hw.upload.congr (hw.upload.exclusive.congr rfl rfl rfl rfl) rfl rfl rfl
      (SameUploads.refl _) id id id) rfl rfl (fun _ => SameJob.refl _)
  handler h hrx _ hok hw := hw.handler h hrx hok
  body h hw := hw.body h

theorem jobInv_initial (loadAddr : Nat) (ram : Nat -> UInt8) (ext : E) :
    JobInv P Good (initial loadAddr ram ext) :=
  ⟨uploadInv_initial loadAddr ram ext, (fun h => by cases h), fun h =>
    absurd h (not_flashing_of_phase rfl (by simp [initial]))⟩

theorem jobInv_run (hw : JobInv P (fun _ => True) w)
    (events : List (Nat × Event)) :
    JobInv P (fun _ => True) (run P w events) :=
  run_induct preserves_jobInv (fun _ _ _ => trivial) (fun h hw => hw.loop h)
    (fun now hw => hw.jobStep now) hw events

/-!
## Accesses in the log

Only rounds of a job access the flash.  What each access of a FLASH job
satisfies when it is made, every access in the log satisfies.
-/

def Accesses (Q : List Action -> Action -> Prop) : List Action -> Prop
  | [] => True
  | a :: log => (flashRet a ≠ none -> Q log a) ∧ Accesses Q log

variable {Q : List Action -> Action -> Prop}

theorem accesses_split {newer older : List Action} {a : Action}
    (h : Accesses Q (newer ++ a :: older)) (ha : flashRet a ≠ none) : Q older a := by
  induction newer with
  | nil => exact h.1 ha
  | cons b newer ih => exact ih h.2

theorem Accesses.extend {log log' : List Action} (hQ : Accesses Q log)
    (h : Extends (fun a => flashRet a = none) log log') : Accesses Q log' := by
  rcases h with ⟨new, rfl, hnew⟩
  induction new with
  | nil => exact hQ
  | cons a new ih =>
      refine ⟨fun ha => absurd (hnew a List.mem_cons_self) ha, ih ?_⟩
      intro b hb
      exact hnew b (List.mem_cons_of_mem a hb)

theorem RequestAction.flashRet {a : Action} (h : RequestAction a) :
    flashRet a = none := by
  cases h <;> rfl

theorem TimerAction.flashRet {e : Event} {a : Action} (h : TimerAction e a) :
    flashRet a = none := by
  cases h <;> rfl

theorem Accesses.handler {cb : Call} (hQ : Accesses Q w.log)
    (h : HandlerMove P cb w w') : Accesses Q w'.log :=
  hQ.extend (h.extends.mono fun _ ha => ha.flashRet)

theorem Accesses.body {cb : Call} (hQ : Accesses Q w.log)
    (h : BodyMove P cb w w') : Accesses Q w'.log :=
  hQ.extend (h.extends.mono fun _ ha => ha.flashRet)

theorem Accesses.loop {e : Event} (hQ : Accesses Q w.log) (h : LoopMove e w w') :
    Accesses Q w'.log :=
  hQ.extend (h.extends.mono fun _ ha => ha.flashRet)

theorem Preserves.accesses {cb : Call} {Ok Inv : World E -> Prop}
    (hp : Preserves P cb Ok Inv) : Preserves P cb Ok (fun w => Inv w ∧ Accesses Q w.log) where
  net h hw := ⟨hp.net h hw.1, hw.2.extend h.extends⟩
  header header hw := ⟨hp.header header hw.1, hw.2⟩
  handler h hrx hclient hok hw :=
    ⟨hp.handler h hrx hclient hok hw.1, hw.2.handler h⟩
  body h hw := ⟨hp.body h hw.1, hw.2.body h⟩

theorem Accesses.jobStep {now : Nat} (hQ : Accesses Q w.log)
    (hnext : forall a, (jobStep P now w).log = a :: w.log -> flashRet a ≠ none ->
      Q w.log a) : Accesses Q (jobStep P now w).log := by
  have hmove : JobMove P now w (Webflash.jobStep P now w) := jobMove_jobStep
  generalize Webflash.jobStep P now w = v at hnext hmove
  cases hmove with
  | idle inactive => exact hQ
  | fault part => exact hQ
  | _ => exact ⟨hnext _ rfl, hQ⟩

theorem flashing_of_access {now : Nat} {a : Action}
    (hlog : (jobStep P now w).log = a :: w.log) (ha : flashRet a ≠ none) :
    flashing w.ctx := by
  have hmove : JobMove P now w (jobStep P now w) := jobMove_jobStep
  rcases hmove.access hlog with
    ⟨hphase, ret, rfl, _⟩ | ⟨hphase, part, ret, _, rfl, _⟩ |
      ⟨hphase, part, data, ret, _, rfl, _⟩
  · refine ⟨Or.inl (by simp [jobActive, hphase]), ?_⟩
    cases hm : w.ctx.job.mode <;> simp_all [flashRet]
  · refine ⟨Or.inl (by simp [jobActive, hphase]), ?_⟩
    cases hm : w.ctx.job.mode <;> simp_all [flashRet]
  · refine ⟨Or.inl (by simp [jobActive, hphase]), ?_⟩
    cases hm : w.ctx.job.mode <;> simp_all [flashRet]

end Webflash
end Hlk7621
