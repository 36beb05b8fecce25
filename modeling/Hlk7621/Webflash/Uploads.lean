import Hlk7621.Webflash.Exclusion

/-!
# The upload behind the context

The log tells which upload is under way and what has been received of it.
`UploadInv` ties the fields of the context and the RAM to it: while a body is
received, its bytes so far are in RAM; while the context claims a valid upload,
the last announced upload is complete, validated and still in RAM.
-/

namespace Hlk7621
namespace Webflash

structure Upload where
  src : Pcb
  header : Bytes
  part : Partition
  size : Nat
  body : Bytes
  deriving DecidableEq, Repr

/-- The upload announced last, with the bytes received since. -/
def currentUpload : List Action -> Option Upload
  | [] => none
  | .uploadStarted src header part size :: _ => some ⟨src, header, part, size, []⟩
  | .stored _ _ data :: log =>
      (currentUpload log).map fun u => { u with body := u.body ++ data }
  | _ :: log => currentUpload log

def lastValidated : List Action -> Option (Partition × Bytes)
  | [] => none
  | .validated part body :: _ => some (part, body)
  | _ :: log => lastValidated log

def concluded : List Action -> Bool
  | [] => false
  | .uploadStarted _ _ _ _ :: _ => false
  | .validated _ _ :: _ => true
  | _ :: log => concluded log

structure SameUploads (log log' : List Action) : Prop where
  current : currentUpload log' = currentUpload log
  validated : lastValidated log' = lastValidated log
  conclusion : concluded log' = concluded log
  booted : forall a, .bootm a ∈ log -> .bootm a ∈ log'

theorem SameUploads.refl (log : List Action) : SameUploads log log :=
  ⟨rfl, rfl, rfl, fun _ h => h⟩

theorem SameUploads.cons {a : Action} {log : List Action}
    (hcurrent : currentUpload (a :: log) = currentUpload log)
    (hvalidated : lastValidated (a :: log) = lastValidated log)
    (hconcluded : concluded (a :: log) = concluded log) :
    SameUploads log (a :: log) :=
  ⟨hcurrent, hvalidated, hconcluded, fun _ h => List.mem_cons_of_mem a h⟩

theorem sameUploads_accesses {accesses log : List Action}
    (h : forall a, a ∈ accesses -> JobAccess a) :
    SameUploads log (accesses ++ log) := by
  induction accesses with
  | nil => exact SameUploads.refl log
  | cons a accesses ih =>
      have hrest := ih (fun b hb => h b (List.mem_cons_of_mem a hb))
      have ha := h a List.mem_cons_self
      refine ⟨?_, ?_, ?_, fun b hb => List.mem_cons_of_mem a (hrest.booted b hb)⟩
      · cases a with
        | erase => exact hrest.current
        | write => exact hrest.current
        | verify => exact hrest.current
        | _ => cases ha
      · cases a with
        | erase => exact hrest.validated
        | write => exact hrest.validated
        | verify => exact hrest.validated
        | _ => cases ha
      · cases a with
        | erase => exact hrest.conclusion
        | write => exact hrest.conclusion
        | verify => exact hrest.conclusion
        | _ => cases ha

variable {E : Type} (P : Platform E)

/-- What `webflash_prepare_upload` has checked. -/
structure Announced (loadAddr : Nat) (u : Upload) : Prop where
  target : uploadTarget P.toBoard u.header = some u.part
  length : getContentLength u.header = .ok u.size
  sizeOk : uploadSizeOk u.part u.size = true
  inRam : loadAddr + u.size < 2 ^ 32

structure Receiving (w : World E) (u : Upload) : Prop where
  current : currentUpload w.log = some u
  announced : Announced P w.ctx.loadAddr u
  part : w.ctx.uploadPart = some u.part
  length : w.ctx.contentLength = u.size
  received : w.ctx.uploadSize = u.body.length
  fits : u.body.length ≤ u.size
  stored : window w.ram w.ctx.loadAddr u.body.length = u.body
  invalid : w.ctx.uploadValid = false

/-- A failed `bootm` may have overwritten the RAM, but only for a RAM image. -/
structure Ready (w : World E) (u : Upload) : Prop where
  current : currentUpload w.log = some u
  announced : Announced P w.ctx.loadAddr u
  part : w.ctx.uploadPart = some u.part
  complete : u.body.length = u.size
  size : w.ctx.completedSize = u.size
  addr : w.ctx.completedAddr = w.ctx.loadAddr
  crc : w.ctx.uploadCrc = UBoot.crcOf 0#32 u.body
  validated : lastValidated w.log = some (u.part, u.body)
  conclusion : concluded w.log = true
  intact : u.part.has PART_RAM = false ∨ (forall a, .bootm a ∉ w.log) ->
    window w.ram w.ctx.completedAddr w.ctx.completedSize = u.body

structure UploadInv (w : World E) : Prop where
  exclusive : Exclusive w
  addr : w.ctx.loadAddr < 2 ^ 32
  receiving : w.ctx.rxState = .upload -> exists u, Receiving P w u
  ready : w.ctx.uploadValid = true -> exists u, Ready P w u
  boot : w.ctx.bootPending = true ->
    exists part, w.ctx.uploadPart = some part ∧ part.has PART_RAM = true

/-!
## Frames
-/

def Ctx.completed (ctx : Ctx) : Nat × Option Partition × Nat × Nat × BitVec 32 :=
  (ctx.loadAddr, ctx.uploadPart, ctx.completedAddr, ctx.completedSize,
    ctx.uploadCrc)

def Ctx.underWay (ctx : Ctx) : Nat × Option Partition × Nat × Nat :=
  (ctx.loadAddr, ctx.uploadPart, ctx.contentLength, ctx.uploadSize)

variable {P} {w w' : World E} {u : Upload}

theorem Receiving.congr (h : Receiving P w u)
    (hctx : w'.ctx.underWay = w.ctx.underWay) (hram : w'.ram = w.ram)
    (hlog : currentUpload w'.log = currentUpload w.log)
    (hvalid : w'.ctx.uploadValid = false) : Receiving P w' u := by
  simp only [Ctx.underWay, Prod.mk.injEq] at hctx
  rcases hctx with ⟨hload, hpart, hlength, hsize⟩
  refine ⟨hlog.trans h.current, ?_, hpart.trans h.part,
    hlength.trans h.length, hsize.trans h.received, h.fits, ?_, hvalid⟩
  · rw [hload]
    exact h.announced
  · rw [hram, hload]
    exact h.stored

theorem Ready.congr (h : Ready P w u) (hctx : w'.ctx.completed = w.ctx.completed)
    (hram : w'.ram = w.ram) (hlog : SameUploads w.log w'.log) :
    Ready P w' u := by
  simp only [Ctx.completed, Prod.mk.injEq] at hctx
  rcases hctx with ⟨hload, hpart, haddr, hsize, hcrc⟩
  refine ⟨hlog.current.trans h.current, ?_, hpart.trans h.part, h.complete,
    hsize.trans h.size, ?_, hcrc.trans h.crc, hlog.validated.trans h.validated,
    hlog.conclusion.trans h.conclusion, ?_⟩
  · rw [hload]
    exact h.announced
  · rw [haddr, hload]
    exact h.addr
  · rw [hram, haddr, hsize]
    intro hintact
    refine h.intact (hintact.imp id ?_)
    intro hnone a ha
    exact hnone a (hlog.booted a ha)

theorem UploadInv.congr (hw : UploadInv P w) (hexcl : Exclusive w')
    (hdone : w'.ctx.completed = w.ctx.completed)
    (hway : w'.ctx.underWay = w.ctx.underWay) (hram : w'.ram = w.ram)
    (hlog : SameUploads w.log w'.log)
    (hrx : w'.ctx.rxState = .upload -> w.ctx.rxState = .upload)
    (hvalid : w'.ctx.uploadValid = true -> w.ctx.uploadValid = true)
    (hboot : w'.ctx.bootPending = true -> w.ctx.bootPending = true) :
    UploadInv P w' := by
  have hfields := hdone
  simp only [Ctx.completed, Prod.mk.injEq] at hfields
  refine ⟨hexcl, ?_, ?_, ?_, ?_⟩
  · rw [hfields.1]
    exact hw.addr
  · intro h
    rcases hw.receiving (hrx h) with ⟨u, hu⟩
    refine ⟨u, hu.congr hway hram hlog.current ?_⟩
    by_contra hne
    have htrue := hvalid (by simpa using hne)
    exact absurd (htrue.symm.trans hu.invalid) (by decide)
  · intro h
    rcases hw.ready (hvalid h) with ⟨u, hu⟩
    exact ⟨u, hu.congr hdone hram hlog⟩
  · rw [hfields.2.1]
    intro h
    exact hw.boot (hboot h)

theorem UploadInv.net (h : Quiet w w') (hw : UploadInv P w) :
    UploadInv P w' := by
  refine hw.congr (hw.exclusive.net h) ?_ ?_ h.ram ?_ ?_ ?_ ?_
  · exact h.kept Ctx.completed (fun _ => rfl)
  · exact h.kept Ctx.underWay (fun _ => rfl)
  · rw [h.log]
    exact SameUploads.refl _
  · intro hup
    rcases h.rxState with hs | hr
    · exact hs ▸ hup
    · exact absurd (hup.symm.trans hr) (by decide)
  · intro hvalid
    rcases h.uploadValid with hs | ⟨_, hf⟩
    · exact hs ▸ hvalid
    · exact absurd (hvalid.symm.trans hf) (by decide)
  · rw [h.bootPending]
    exact id

/-!
## Handlers
-/

theorem rangeInRam_lt {loadAddr size : Nat} (hsize : size < 2 ^ 32)
    (haddr : loadAddr < 2 ^ 32) (h : rangeInRam P loadAddr size = true) :
    loadAddr + size < 2 ^ 32 := by
  simp only [rangeInRam, Bool.and_eq_true, Bool.not_eq_true',
    decide_eq_false_iff_not, Nat.not_lt] at h
  have hstop := h.1
  unfold u32 at hstop
  omega

theorem UploadAccepted.announced {part : Partition} {size : Nat}
    (haddr : w.ctx.loadAddr < 2 ^ 32) (h : UploadAccepted P w part size)
    (src : Pcb) (body : Bytes) :
    Announced P w.ctx.loadAddr ⟨src, w.ctx.header, part, size, body⟩ :=
  ⟨h.target, h.length, h.sizeOk,
    rangeInRam_lt (getContentLength_lt h.length) haddr h.inRam⟩

theorem UploadInv.handler {cb : Call} (h : HandlerMove P cb w w')
    (hrx : w.ctx.rxState = .headers) (hw : UploadInv P w) : UploadInv P w' := by
  have hexcl := hw.exclusive.handler h hrx
  cases h with
  | quiet => exact hw
  | beginUpload part size ext h =>
      have hidle := operationBlocked_eq_false.mp h.idle
      refine ⟨hexcl, hw.addr, fun _ => ?_, (fun hvalid => by cases hvalid), ?_⟩
      · exact ⟨⟨cb.pcb, w.ctx.header, part, size, []⟩, rfl,
          h.announced hw.addr _ _, rfl, rfl, rfl, Nat.zero_le _, rfl, rfl⟩
      · intro hboot
        exact absurd (hidle.2.2.symm.trans hboot) (by decide)
  | beginBody size idle =>
      refine ⟨hexcl, hw.addr, (fun hup => by cases hup), fun hvalid => ?_,
        hw.boot⟩
      rcases hw.ready hvalid with ⟨u, hu⟩
      exact ⟨u, hu.congr rfl rfl (SameUploads.refl _)⟩
  | startPlain part keep h plain =>
      exact hw.congr hexcl rfl rfl rfl (.cons rfl rfl rfl) id id id
  | startFactory part keep old ext h eeprom length =>
      exact hw.congr hexcl rfl rfl rfl
        ⟨rfl, rfl, rfl, fun _ hb =>
          List.mem_cons_of_mem _ (List.mem_cons_of_mem _ hb)⟩ id id id
  | startFailed part keep h eeprom failed =>
      exact hw.congr hexcl rfl rfl rfl (SameUploads.refl _) id id id
  | startReset p overlay h found =>
      exact hw.congr hexcl rfl rfl rfl (SameUploads.refl _) id id id
  | saveEnv ret ext idle =>
      exact hw.congr hexcl rfl rfl rfl (.cons rfl rfl rfl) id id id
  | bootRam part idle valid hpart ram =>
      refine ⟨hexcl, hw.addr, ?_, ?_, fun _ => ⟨part, hpart, ram⟩⟩
      · intro hup
        exact absurd (hrx.symm.trans hup) (by decide)
      · intro hvalid
        rcases hw.ready hvalid with ⟨u, hu⟩
        exact ⟨u, hu.congr rfl rfl (SameUploads.refl _)⟩
  | reboot path idle healthy fresh =>
      exact hw.congr hexcl rfl rfl rfl (SameUploads.refl _) id id id

/-!
## Bodies
-/

theorem Receiving.store {cb : Call} {data : Bytes} (h : Receiving P w u)
    (hfits : data.length ≤ sub32 w.ctx.contentLength w.ctx.uploadSize) :
    Receiving P (storeBytes cb data w) { u with body := u.body ++ data } := by
  have hsize : u.size < 2 ^ 32 := getContentLength_lt h.announced.length
  rw [h.length, h.received, sub32_of_le h.fits hsize] at hfits
  have hfit := h.fits
  have hend := h.announced.inRam
  have hlen : (u.body ++ data).length ≤ u.size := by
    rw [List.length_append]
    lia
  refine ⟨?_, ⟨h.announced.target, h.announced.length, h.announced.sizeOk,
    h.announced.inRam⟩, h.part, h.length, ?_, hlen, ?_, h.invalid⟩
  · show (currentUpload w.log).map _ = _
    rw [h.current]
    rfl
  · show u32 (w.ctx.uploadSize + data.length) = _
    rw [h.received, <- List.length_append, u32_of_lt (by lia)]
  · show window (overwrite w.ram (u32 (w.ctx.loadAddr + w.ctx.uploadSize)) data)
      w.ctx.loadAddr (u.body ++ data).length = u.body ++ data
    rw [h.received, u32_of_lt (by lia), List.length_append,
      window_overwrite_append, h.stored]

theorem validateScan_crc (B : Board) (part : Partition) {data size : Nat}
    (hend : data + size < 2 ^ 32) (m : Nat -> UInt8) :
    ((validateScan B part data size).val m).1 =
      UBoot.crcOf 0#32 (window m data size) := by
  simp only [validateScan, Scan.val_bind, Scan.val_pure]
  rw [UBoot.crc32Wd_val _ _ (by decide) hend, window_u32 _ (Nat.le_of_lt hend)]

theorem validateUpload_underWay (v : World E) :
    (validateUpload P v).2.ctx.underWay = v.ctx.underWay ∧
      (validateUpload P v).2.ram = v.ram ∧
      currentUpload (validateUpload P v).2.log = currentUpload v.log ∧
      (validateUpload P v).2.ctx.bootPending = v.ctx.bootPending := by
  unfold validateUpload
  split
  · exact ⟨rfl, rfl, rfl, rfl⟩
  · refine ⟨rfl, rfl, ?_, rfl⟩
    dsimp only
    split
    · rfl
    · rfl

theorem Receiving.validate (ext : E) (h : Receiving P w u)
    (hfull : w.ctx.uploadSize = w.ctx.contentLength)
    (hvalid : (validateUpload P (completed ext w)).2.ctx.uploadValid = true) :
    Ready P (validateUpload P (completed ext w)).2 u := by
  have hcomplete : u.body.length = u.size := by
    rw [<- h.received, <- h.length]
    exact hfull
  have hwindow : window w.ram w.ctx.loadAddr w.ctx.uploadSize = u.body := by
    rw [h.received]
    exact h.stored
  have hend : w.ctx.loadAddr + w.ctx.uploadSize < 2 ^ 32 := by
    rw [h.received, hcomplete]
    exact h.announced.inRam
  have hcrc := validateScan_crc P.toBoard u.part hend w.ram
  rw [hwindow] at hcrc
  have hpart : (completed ext w).ctx.uploadPart = some u.part := h.part
  have hsize : w.ctx.uploadSize = u.size := h.received.trans hcomplete
  unfold validateUpload at hvalid ⊢
  rw [hpart] at hvalid ⊢
  dsimp only [completed] at hvalid ⊢
  rw [if_pos (by simpa using hvalid)]
  refine ⟨h.current, h.announced, h.part, hcomplete, hsize, rfl, hcrc, ?_, rfl,
    fun _ => hwindow⟩
  show some (u.part, window w.ram w.ctx.loadAddr w.ctx.uploadSize) = _
  rw [hwindow]

theorem UploadInv.body {cb : Call} (h : BodyMove P cb w w')
    (hw : UploadInv P w) : UploadInv P w' := by
  have hexcl := hw.exclusive.body h
  cases h with
  | net h => exact hw.net h.toQuiet
  | stored data rx client fits =>
      rcases hw.receiving rx with ⟨u, hu⟩
      refine ⟨hexcl, hw.addr, fun _ => ⟨_, hu.store fits⟩, fun hvalid => ?_,
        hw.boot⟩
      exact absurd (hvalid.symm.trans hu.invalid) (by decide)
  | exportFailed ext rx h =>
      rcases hw.receiving rx with ⟨u, hu⟩
      refine UploadInv.net h.toQuiet ⟨hw.exclusive.congr rfl rfl rfl rfl, hw.addr,
        fun _ => ⟨u, hu.congr rfl rfl rfl hu.invalid⟩,
        fun hvalid => ?_, hw.boot⟩
      exact absurd (hvalid.symm.trans hu.invalid) (by decide)
  | validated ext rx full h answered =>
      rcases hw.receiving rx with ⟨u, hu⟩
      rcases validateUpload_underWay (P := P) (completed ext w) with
        ⟨hway, hram, hcurrent, hboot⟩
      have hway' : w'.ctx.underWay = w.ctx.underWay :=
        (h.kept Ctx.underWay (fun _ => rfl)).trans hway
      have hfields := hway'
      simp only [Ctx.underWay, Prod.mk.injEq] at hfields
      refine ⟨hexcl, by rw [hfields.1]; exact hw.addr, ?_, ?_, ?_⟩
      · intro hup
        refine ⟨u, hu.congr hway' (h.ram.trans hram) ?_ (answered hup)⟩
        rw [h.log]
        exact hcurrent
      · intro hvalid
        have hbefore : (validateUpload P (completed ext w)).2.ctx.uploadValid =
            true := by
          rcases h.uploadValid with hs | ⟨_, hf⟩
          · exact hs ▸ hvalid
          · exact absurd (hvalid.symm.trans hf) (by decide)
        refine ⟨u, (hu.validate ext full hbefore).congr ?_ h.ram ?_⟩
        · exact h.kept Ctx.completed (fun _ => rfl)
        · rw [h.log]
          exact SameUploads.refl _
      · rw [h.bootPending, hboot, hfields.2.1]
        exact hw.boot
  | savedEnv ret ext rx h =>
      refine UploadInv.net h.toQuiet ?_
      exact hw.congr (hw.exclusive.congr rfl rfl rfl rfl) rfl rfl rfl
        (.cons rfl rfl rfl) id id id

/-!
## Main loop
-/

theorem UploadInv.loop {e : Event} (h : LoopMove e w w') (hw : UploadInv P w) :
    UploadInv P w' := by
  have hexcl := hw.exclusive.loop h
  cases h with
  | accepted cb err free =>
      refine ⟨hexcl, hw.addr, (fun hup => by cases hup), fun hvalid => ?_, hw.boot⟩
      rcases hw.ready hvalid with ⟨u, hu⟩
      exact ⟨u, hu.congr rfl rfl (SameUploads.refl _)⟩
  | turnedAway cb err ext busy => exact hw.net (quiet_turnedAway ext _ w)
  | errored cb => exact hw.net (quiet_tcpError cb w)
  | booted pending =>
      exact hw.congr hexcl rfl rfl rfl (.cons rfl rfl rfl) id id id
  | bootFailed ram ext pending =>
      -- The RAM is lost, but the upload was a RAM image and `bootm` is logged.
      refine ⟨hexcl, hw.addr, ?_, ?_, (fun hboot => by cases hboot)⟩
      · intro hup
        have hidle := operationBlocked_eq_false.mp
          (hw.exclusive.receiving (Or.inl hup))
        exact absurd (pending.symm.trans hidle.2.2) (by decide)
      · intro hvalid
        rcases hw.ready hvalid with ⟨u, hu⟩
        rcases hw.boot pending with ⟨part, hpart, hramPart⟩
        have hsame : part = u.part := Option.some.inj (hpart.symm.trans hu.part)
        refine ⟨u, hu.current, hu.announced, hu.part, hu.complete, hu.size, hu.addr,
          hu.crc, hu.validated, hu.conclusion, ?_⟩
        rintro (hno | hnone)
        · rw [<- hsame] at hno
          exact absurd (hramPart.symm.trans hno) (by decide)
        · exact absurd List.mem_cons_self (hnone w.ctx.bootAddr)
  | reset pending =>
      exact hw.congr hexcl rfl rfl rfl (.cons rfl rfl rfl) id id id

theorem UploadInv.jobStep (now : Nat) (hw : UploadInv P w) :
    UploadInv P (jobStep P now w) := by
  have hround := jobRound_jobStep P now w
  refine hw.congr (hw.exclusive.jobStep now) ?_ ?_ hround.trace.ram ?_ ?_ ?_ ?_
  · exact hround.kept Ctx.completed (fun _ _ _ _ => rfl)
  · exact hround.kept Ctx.underWay (fun _ _ _ _ => rfl)
  · rcases hround.trace.log with ⟨accesses, haccess, hlog⟩
    rw [hlog]
    exact sameUploads_accesses haccess
  · rw [hround.kept Ctx.rxState (fun _ _ _ _ => rfl)]
    exact id
  · rw [hround.kept Ctx.uploadValid (fun _ _ _ _ => rfl)]
    exact id
  · rw [hround.kept Ctx.bootPending (fun _ _ _ _ => rfl)]
    exact id

theorem preserves_uploadInv (cb : Call) : Preserves P cb (fun _ => True) (UploadInv P) where
  net h hw := hw.net h.toQuiet
  header _ hw := hw.congr (hw.exclusive.congr rfl rfl rfl rfl) rfl rfl rfl
    (SameUploads.refl _) id id id
  handler h hrx _ _ hw := hw.handler h hrx
  body h hw := hw.body h

theorem uploadInv_initial (loadAddr : Nat) (ram : Nat -> UInt8) (ext : E) :
    UploadInv P (initial loadAddr ram ext) :=
  ⟨exclusive_initial loadAddr ram ext, u32_lt loadAddr, (fun h => by cases h),
    (fun h => by cases h), (fun h => by cases h)⟩

theorem uploadInv_run (hw : UploadInv P w) (events : List (Nat × Event)) :
    UploadInv P (run P w events) :=
  run_induct preserves_uploadInv (fun _ => trivial) (fun h hw => hw.loop h)
    (fun now hw => hw.jobStep now) hw events

end Webflash
end Hlk7621
