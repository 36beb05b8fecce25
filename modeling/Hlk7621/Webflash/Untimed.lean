import Hlk7621.Webflash.Receive

/-!
# What time and history do not influence

Handlers store the time in the context and milestones in the log, and read
neither.  Two worlds are `Alike` if they agree but for timestamps and log; what a
callback receives takes alike worlds to alike worlds, at whatever time.
-/

namespace Hlk7621
namespace Webflash

variable {E : Type}

structure Stamp where
  lastActivity : Nat
  rebootStart : Nat
  bootStart : Nat
  log : List Action

def stamp (T : Stamp) (w : World E) : World E :=
  { w with
    ctx := { w.ctx with
      lastActivity := T.lastActivity
      rebootStart := T.rebootStart
      bootStart := T.bootStart }
    log := T.log }

def Alike (w w' : World E) : Prop := exists T, w' = stamp T w

def World.stamps (w : World E) : Stamp :=
  ⟨w.ctx.lastActivity, w.ctx.rebootStart, w.ctx.bootStart, w.log⟩

section

variable {w w' w'' : World E} (T T' : Stamp)

@[simp] theorem stamp_stamp : stamp T (stamp T' w) = stamp T w := rfl

@[simp] theorem stamp_stamps : stamp w.stamps w = w := rfl

theorem alike_stamp : Alike w (stamp T w) := ⟨T, rfl⟩

theorem Alike.refl (w : World E) : Alike w w := ⟨w.stamps, rfl⟩

theorem Alike.symm (h : Alike w w') : Alike w' w := by
  rcases h with ⟨T, rfl⟩
  exact ⟨w.stamps, rfl⟩

theorem Alike.trans (h : Alike w w') (h' : Alike w' w'') : Alike w w'' := by
  rcases h with ⟨T, rfl⟩
  rcases h' with ⟨T', rfl⟩
  exact ⟨T', rfl⟩

end

theorem Alike.noted {w w' : World E} (h : Alike w w') (ext : E) (log log' : List Action) :
    Alike { w with ext := ext, log := log } { w' with ext := ext, log := log' } := by
  rcases h with ⟨T, rfl⟩
  exact ⟨{ T with log := log' }, rfl⟩

def AlikeResults (r r' : Int × World E) : Prop := r'.1 = r.1 ∧ Alike r.2 r'.2

/-!
## Fields

What a stamped world still has.
-/

section

variable (T : Stamp) (w : World E)

@[simp] theorem stamp_ext : (stamp T w).ext = w.ext := rfl

@[simp] theorem stamp_ram : (stamp T w).ram = w.ram := rfl

@[simp] theorem stamp_client : (stamp T w).ctx.client = w.ctx.client := rfl

@[simp] theorem stamp_rxState : (stamp T w).ctx.rxState = w.ctx.rxState := rfl

@[simp] theorem stamp_header : (stamp T w).ctx.header = w.ctx.header := rfl

@[simp] theorem stamp_body : (stamp T w).ctx.body = w.ctx.body := rfl

@[simp] theorem stamp_contentLength :
    (stamp T w).ctx.contentLength = w.ctx.contentLength := rfl

@[simp] theorem stamp_uploadSize : (stamp T w).ctx.uploadSize = w.ctx.uploadSize := rfl

@[simp] theorem stamp_loadAddr : (stamp T w).ctx.loadAddr = w.ctx.loadAddr := rfl

@[simp] theorem stamp_uploadPart : (stamp T w).ctx.uploadPart = w.ctx.uploadPart := rfl

@[simp] theorem stamp_uploadValid : (stamp T w).ctx.uploadValid = w.ctx.uploadValid := rfl

@[simp] theorem stamp_completedAddr :
    (stamp T w).ctx.completedAddr = w.ctx.completedAddr := rfl

@[simp] theorem stamp_completedSize :
    (stamp T w).ctx.completedSize = w.ctx.completedSize := rfl

@[simp] theorem stamp_uploadCrc : (stamp T w).ctx.uploadCrc = w.ctx.uploadCrc := rfl

@[simp] theorem stamp_imageKind : (stamp T w).ctx.imageKind = w.ctx.imageKind := rfl

@[simp] theorem stamp_job : (stamp T w).ctx.job = w.ctx.job := rfl

@[simp] theorem stamp_keepConfig : (stamp T w).ctx.keepConfig = w.ctx.keepConfig := rfl

@[simp] theorem stamp_action : (stamp T w).ctx.action = w.ctx.action := rfl

@[simp] theorem stamp_rebootPending :
    (stamp T w).ctx.rebootPending = w.ctx.rebootPending := rfl

@[simp] theorem stamp_bootPending : (stamp T w).ctx.bootPending = w.ctx.bootPending := rfl

@[simp] theorem stamp_streamRemaining :
    (stamp T w).ctx.streamRemaining = w.ctx.streamRemaining := rfl

@[simp] theorem stamp_streamFromFlash :
    (stamp T w).ctx.streamFromFlash = w.ctx.streamFromFlash := rfl

@[simp] theorem stamp_uploadDetail :
    (stamp T w).ctx.uploadDetail = w.ctx.uploadDetail := rfl

end

/-!
## Replies

These functions keep the timestamps and the log of the world they are given.
-/

variable (P : Platform E) (T : Stamp) (w : World E)

@[simp] theorem abortClient_stamp :
    abortClient P (stamp T w) = stamp T (abortClient P w) := by
  cases hc : w.ctx.client with
  | none => simp [abortClient, hc]
  | some pcb =>
      by_cases hu : w.ctx.rxState = .upload
      · simp [abortClient, stamp, detachClient, hc, hu]
      · simp [abortClient, stamp, detachClient, hc, hu]

@[simp] theorem tcpWrite_stamp (pcb : Pcb) (data : Bytes) :
    tcpWrite P pcb data (stamp T w) =
      ((tcpWrite P pcb data w).1, stamp T (tcpWrite P pcb data w).2) := rfl

@[simp] theorem tcpOutput_stamp (pcb : Pcb) :
    tcpOutput P pcb (stamp T w) =
      ((tcpOutput P pcb w).1, stamp T (tcpOutput P pcb w).2) := rfl

@[simp] theorem streamAdvance_stamp (len : Nat) :
    streamAdvance len (stamp T w) = stamp T (streamAdvance len w) := by
  cases hf : w.ctx.streamFromFlash with
  | false => simp [streamAdvance, stamp, hf]
  | true => simp [streamAdvance, stamp, hf]

@[simp] theorem streamChunk_stamp (len : Nat) :
    streamChunk P len (stamp T w) =
      ((streamChunk P len w).1, (streamChunk P len w).2.1,
        stamp T (streamChunk P len w).2.2) := by
  cases hf : w.ctx.streamFromFlash with
  | false => simp [streamChunk, stamp, hf]
  | true => simp [streamChunk, stamp, hf]

@[simp] theorem streamFillLoop_stamp (fuel : Nat) :
    streamFillLoop P fuel (stamp T w) =
      ((streamFillLoop P fuel w).1, stamp T (streamFillLoop P fuel w).2) := by
  induction fuel generalizing w with
  | zero => rfl
  | succ fuel ih =>
      simp only [streamFillLoop, stamp_streamRemaining, stamp_client, stamp_ext,
        streamChunk_stamp, tcpWrite_stamp, streamAdvance_stamp, ih]
      split
      · rfl
      · cases hc : w.ctx.client with
        | none => rfl
        | some pcb =>
            dsimp only
            split
            · rfl
            · split
              · rfl
              · split
                · rfl
                · split
                  · rfl
                  · rfl

@[simp] theorem streamFill_stamp :
    streamFill P (stamp T w) = ((streamFill P w).1, stamp T (streamFill P w).2) := by
  simp only [streamFill, streamFillLoop_stamp, stamp_streamRemaining]
  split
  · rfl
  · rfl

@[simp] theorem replying_stamp (headerLen : Nat) (body : Bytes) :
    replying headerLen body (stamp T w) = stamp T (replying headerLen body w) := rfl

@[simp] theorem downloading_stamp (headerLen offset size : Nat) :
    downloading headerLen offset size (stamp T w) =
      stamp T (downloading headerLen offset size w) := rfl

@[simp] theorem flushReply_stamp (pcb : Pcb) :
    flushReply P pcb (stamp T w) =
      ((flushReply P pcb w).1, stamp T (flushReply P pcb w).2) := by
  simp only [flushReply, tcpOutput_stamp, abortClient_stamp]
  split
  · rfl
  · split
    · rfl
    · rfl

@[simp] theorem reply_stamp (status type body : Bytes) :
    reply P status type body (stamp T w) =
      ((reply P status type body w).1, stamp T (reply P status type body w).2) := by
  cases hc : w.ctx.client with
  | none => simp [reply, hc]
  | some pcb =>
      simp only [reply, stamp_client, hc, abortClient_stamp, tcpWrite_stamp,
        replying_stamp, streamFill_stamp, flushReply_stamp]
      split
      · rfl
      · split
        · rfl
        · split
          · rfl
          · rfl

@[simp] theorem replyText_stamp (status text : Bytes) :
    replyText P status text (stamp T w) =
      ((replyText P status text w).1, stamp T (replyText P status text w).2) :=
  reply_stamp P T { w with ctx := { w.ctx with reply := snprintf REPLY_SIZE text } } _ _ _

@[simp] theorem error_stamp (status message : String) :
    error P status message (stamp T w) = stamp T (error P status message w) := by
  simp only [error, replyText_stamp]

@[simp] theorem ok_stamp (message : String) :
    ok P message (stamp T w) = ((ok P message w).1, stamp T (ok P message w).2) := by
  simp only [ok, replyText_stamp]

@[simp] theorem sendDownload_stamp (offset size : Nat) (filename : Bytes) :
    sendDownload P offset size filename (stamp T w) =
      ((sendDownload P offset size filename w).1,
        stamp T (sendDownload P offset size filename w).2) := by
  cases hc : w.ctx.client with
  | none =>
      simp only [sendDownload, stamp_client, hc]
      rfl
  | some pcb =>
      simp only [sendDownload, stamp_client, hc, abortClient_stamp, tcpWrite_stamp,
        downloading_stamp, streamFill_stamp, flushReply_stamp]
      split
      · rfl
      · split
        · rfl
        · split
          · rfl
          · rfl

/-!
## Handlers that only read
-/

@[simp] theorem operationBlocked_stamp :
    operationBlocked (stamp T w).ctx = operationBlocked w.ctx := rfl

@[simp] theorem jobActive_stamp : jobActive (stamp T w).ctx = jobActive w.ctx := rfl

@[simp] theorem eepromInfo_stamp :
    eepromInfo P (stamp T w) = ((eepromInfo P w).1, stamp T (eepromInfo P w).2) := by
  have hext : forall e, ({ stamp T w with ext := e } : World E) = stamp T { w with ext := e } :=
    fun _ => rfl
  simp only [eepromInfo, operationBlocked_stamp, error_stamp, stamp_ext, hext, replyText_stamp]
  split
  · rfl
  · split
    · rfl
    · rfl

@[simp] theorem info_stamp :
    info P (stamp T w) = ((info P w).1, stamp T (info P w).2) := by
  simp only [info, replyText_stamp, stamp_ext, stamp_loadAddr]

@[simp] theorem jobStatus_stamp :
    jobStatus P (stamp T w) = ((jobStatus P w).1, stamp T (jobStatus P w).2) := by
  simp only [jobStatus, replyText_stamp, jobActive_stamp, stamp_job, stamp_rebootPending]
  rfl

@[simp] theorem envInfo_stamp :
    envInfo P (stamp T w) = ((envInfo P w).1, stamp T (envInfo P w).2) := by
  simp only [envInfo, replyText_stamp, stamp_ext]

@[simp] theorem startDownload_stamp (name : Bytes) :
    startDownload P name (stamp T w) =
      ((startDownload P name w).1, stamp T (startDownload P name w).2) := by
  simp only [startDownload, operationBlocked_stamp, error_stamp, sendDownload_stamp]
  split
  · rfl
  · split
    · rfl
    · split
      · rfl
      · rfl

@[simp] theorem checkConfirmation_stamp (expected : Bytes) :
    checkConfirmation P expected (stamp T w) =
      ((checkConfirmation P expected w).1, stamp T (checkConfirmation P expected w).2) := by
  simp only [checkConfirmation, stamp_header, error_stamp]
  split
  · split
    · rfl
    · rfl
  · rfl

/-!
## Handlers that note the time or a milestone
-/

variable {P} {T} {w}

theorem alikeResults_stamp {r : Int × World E} (T : Stamp) :
    AlikeResults r (r.1, stamp T r.2) := ⟨rfl, T, rfl⟩

theorem alike_error (h : Alike w w') (status message : String) :
    Alike (error P status message w) (error P status message w') := by
  rcases h with ⟨T, rfl⟩
  rw [error_stamp]
  exact alike_stamp T

theorem alikeResults_replyText (h : Alike w w') (status text : Bytes) :
    AlikeResults (replyText P status text w) (replyText P status text w') := by
  rcases h with ⟨T, rfl⟩
  rw [replyText_stamp]
  exact alikeResults_stamp T

theorem alikeResults_ok (h : Alike w w') (message : String) :
    AlikeResults (ok P message w) (ok P message w') := alikeResults_replyText h _ _

theorem alikeResults_answer {code : Int} (h : Alike w w') (status message : String) :
    AlikeResults (code, error P status message w) (code, error P status message w') :=
  ⟨rfl, alike_error h status message⟩

theorem AlikeResults.ite {c : Prop} [Decidable c] {r r' s s' : Int × World E}
    (h : c -> AlikeResults r r') (h' : ¬ c -> AlikeResults s s') :
    AlikeResults (if c then r else s) (if c then r' else s') := by
  by_cases hc : c
  · rw [if_pos hc, if_pos hc]
    exact h hc
  · rw [if_neg hc, if_neg hc]
    exact h' hc

theorem rangeValid_stamp (size : Nat) :
    rangeValid P size (stamp T w) = ((rangeValid P size w).1, stamp T (rangeValid P size w).2) := by
  unfold rangeValid
  rw [stamp_loadAddr, stamp_ext]
  cases rangeInRam P w.ctx.loadAddr size with
  | false => rfl
  | true => rfl

theorem alikeResults_prepareUpload (cb cb' : Call) (part : Partition) :
    AlikeResults (prepareUpload P cb part w) (prepareUpload P cb' part (stamp T w)) := by
  have hanswer : forall code status message,
      AlikeResults (code, error P status message w) (code, error P status message (stamp T w)) :=
    fun code => alikeResults_answer (alike_stamp T)
  unfold prepareUpload
  rw [operationBlocked_stamp, stamp_header]
  refine AlikeResults.ite (fun _ => hanswer _ _ _) fun _ => ?_
  cases getContentLength w.ctx.header with
  | error e => exact AlikeResults.ite (fun _ => hanswer _ _ _) fun _ => hanswer _ _ _
  | ok size =>
      refine AlikeResults.ite (fun _ => hanswer _ _ _) fun _ => ?_
      rw [rangeValid_stamp]
      refine AlikeResults.ite (fun _ => alikeResults_answer (alike_stamp T) _ _) fun _ => ?_
      exact ⟨rfl, ⟨T.lastActivity, T.rebootStart, T.bootStart, _⟩, rfl⟩

theorem alikeResults_prepareBody (action : BodyAction) :
    AlikeResults (prepareBody P action w) (prepareBody P action (stamp T w)) := by
  have hanswer : forall code status message,
      AlikeResults (code, error P status message w) (code, error P status message (stamp T w)) :=
    fun code => alikeResults_answer (alike_stamp T)
  unfold prepareBody
  rw [operationBlocked_stamp, stamp_header]
  refine AlikeResults.ite (fun _ => hanswer _ _ _) fun _ => ?_
  cases getContentLength w.ctx.header with
  | error e => exact AlikeResults.ite (fun _ => hanswer _ _ _) fun _ => hanswer _ _ _
  | ok size => exact AlikeResults.ite (fun _ => hanswer _ _ _) fun _ => ⟨rfl, T, rfl⟩

theorem alikeResults_startFlashJob (part : Partition) :
    AlikeResults (startFlashJob P part w) (startFlashJob P part (stamp T w)) := by
  refine AlikeResults.ite (fun _ => ?_) fun _ => ⟨rfl, T, rfl⟩
  refine AlikeResults.ite (fun _ => ⟨rfl, T, rfl⟩) fun _ => ?_
  exact ⟨rfl, ⟨T.lastActivity, T.rebootStart, T.bootStart, _⟩, rfl⟩

theorem alikeResults_startUploadedFlash :
    AlikeResults (startUploadedFlash P w) (startUploadedFlash P (stamp T w)) := by
  have hanswer : forall code status message,
      AlikeResults (code, error P status message w) (code, error P status message (stamp T w)) :=
    fun code => alikeResults_answer (alike_stamp T)
  unfold startUploadedFlash
  rw [operationBlocked_stamp, stamp_uploadPart, stamp_uploadValid, stamp_completedSize]
  refine AlikeResults.ite (fun _ => hanswer _ _ _) fun _ => ?_
  cases w.ctx.uploadPart with
  | none => exact hanswer _ _ _
  | some part =>
      refine AlikeResults.ite (fun _ => hanswer _ _ _) fun _ => ?_
      have hexpected : expectedConfirmation (stamp T w).ctx = expectedConfirmation w.ctx := rfl
      dsimp only
      rw [hexpected, checkConfirmation_stamp]
      refine AlikeResults.ite (fun _ => ⟨rfl, alike_stamp T⟩) fun _ => ?_
      rcases alikeResults_startFlashJob (P := P) (T := T)
        (w := (checkConfirmation P (expectedConfirmation w.ctx) w).2) part with
        ⟨hcode, T', hworld⟩
      dsimp only
      rw [hcode, hworld]
      refine AlikeResults.ite (fun _ => alikeResults_answer (alike_stamp T') _ _) fun _ => ?_
      exact alikeResults_replyText (Alike.noted (alike_stamp T') _ _ _) _ _

theorem alikeResults_factoryReset :
    AlikeResults (factoryReset P w) (factoryReset P (stamp T w)) := by
  unfold factoryReset
  rw [operationBlocked_stamp, checkConfirmation_stamp]
  refine AlikeResults.ite (fun _ => alikeResults_answer (alike_stamp T) _ _) fun _ => ?_
  refine AlikeResults.ite (fun _ => ⟨rfl, alike_stamp T⟩) fun _ => ?_
  dsimp only
  rw [stamp_ext]
  cases (findOverlay P (checkConfirmation P (str "ERASE-SETTINGS") w).2.ext).1 with
  | error ret => exact alikeResults_answer ⟨T, rfl⟩ _ _
  | ok found => exact alikeResults_replyText ⟨T, rfl⟩ _ _

theorem alikeResults_envReset :
    AlikeResults (envReset P w) (envReset P (stamp T w)) := by
  unfold envReset
  rw [operationBlocked_stamp, checkConfirmation_stamp]
  refine AlikeResults.ite (fun _ => alikeResults_answer (alike_stamp T) _ _) fun _ => ?_
  refine AlikeResults.ite (fun _ => ⟨rfl, alike_stamp T⟩) fun _ => ?_
  dsimp only
  rw [stamp_ext]
  have hworld := (alike_stamp (w := (checkConfirmation P (str "RESET-ENVIRONMENT") w).2) T).noted
  exact AlikeResults.ite (fun _ => alikeResults_answer (hworld _ _ _) _ _) fun _ =>
    alikeResults_ok (hworld _ _ _) _

theorem alikeResults_bootRam (cb cb' : Call) :
    AlikeResults (bootRam P cb w) (bootRam P cb' (stamp T w)) := by
  have hanswer : forall code status message,
      AlikeResults (code, error P status message w) (code, error P status message (stamp T w)) :=
    fun code => alikeResults_answer (alike_stamp T)
  unfold bootRam
  rw [operationBlocked_stamp, stamp_uploadPart, stamp_uploadValid]
  refine AlikeResults.ite (fun _ => hanswer _ _ _) fun _ => ?_
  refine AlikeResults.ite (fun _ => hanswer _ _ _) fun _ => ?_
  exact alikeResults_ok ⟨⟨_, _, _, _⟩, rfl⟩ _

theorem alikeResults_flash : AlikeResults (flash P w) (flash P (stamp T w)) := by
  unfold flash
  rw [stamp_header]
  cases headerValue w.ctx.header "X-Keep-Config" 4 with
  | ok keep =>
      exact alikeResults_startUploadedFlash (T := T)
        (w := { w with ctx := { w.ctx with keepConfig := keep.head? == some 49 } })
  | error e => exact alikeResults_startUploadedFlash

theorem alikeResults_reboot (cb cb' : Call) :
    AlikeResults (reboot P cb w) (reboot P cb' (stamp T w)) := by
  unfold reboot
  rw [jobActive_stamp, stamp_job, stamp_rebootPending]
  refine AlikeResults.ite (fun _ => alikeResults_answer (alike_stamp T) _ _) fun _ => ?_
  refine AlikeResults.ite (fun _ => alikeResults_ok (alike_stamp T) _) fun _ => ?_
  exact alikeResults_ok ⟨⟨_, _, _, _⟩, rfl⟩ _

theorem alikeResults_handleHeaders (cb cb' : Call) :
    AlikeResults (handleHeaders P cb w) (handleHeaders P cb' (stamp T w)) := by
  unfold handleHeaders
  simp only [stamp_header, reply_stamp, info_stamp, eepromInfo_stamp, jobStatus_stamp,
    envInfo_stamp]
  refine AlikeResults.ite (fun _ => alikeResults_stamp T) fun _ => ?_
  refine AlikeResults.ite (fun _ => alikeResults_stamp T) fun _ => ?_
  refine AlikeResults.ite (fun _ => alikeResults_stamp T) fun _ => ?_
  refine AlikeResults.ite (fun _ => alikeResults_stamp T) fun _ => ?_
  refine AlikeResults.ite (fun _ => alikeResults_stamp T) fun _ => ?_
  cases backupName w.ctx.header with
  | some name =>
      dsimp only
      rw [startDownload_stamp]
      exact alikeResults_stamp T
  | none =>
      cases uploadTarget P.toBoard w.ctx.header with
      | some part => exact alikeResults_prepareUpload cb cb' part
      | none =>
          refine AlikeResults.ite (fun _ => alikeResults_bootRam cb cb') fun _ => ?_
          refine AlikeResults.ite (fun _ => alikeResults_flash) fun _ => ?_
          refine AlikeResults.ite (fun _ => alikeResults_factoryReset) fun _ => ?_
          refine AlikeResults.ite (fun _ => alikeResults_prepareBody _) fun _ => ?_
          refine AlikeResults.ite (fun _ => alikeResults_envReset) fun _ => ?_
          refine AlikeResults.ite (fun _ => alikeResults_reboot cb cb') fun _ => ?_
          exact alikeResults_answer (alike_stamp T) _ _

/-!
## Bodies
-/

theorem exportUpload_stamp :
    exportUpload P (stamp T w) = ((exportUpload P w).1, stamp T (exportUpload P w).2) := by
  unfold exportUpload
  rw [stamp_completedAddr, stamp_completedSize, stamp_ext]
  dsimp only
  split
  · rfl
  · rfl

theorem alikeResults_validateUpload :
    AlikeResults (validateUpload P w) (validateUpload P (stamp T w)) := by
  unfold validateUpload
  rw [stamp_uploadPart]
  cases w.ctx.uploadPart with
  | none => exact ⟨rfl, T, rfl⟩
  | some part => exact ⟨rfl, ⟨T.lastActivity, T.rebootStart, T.bootStart, _⟩, rfl⟩

theorem uploadText_alike (h : Alike w w') (ret : Int) :
    uploadText ret w'.ctx = uploadText ret w.ctx := by
  rcases h with ⟨T, rfl⟩
  rfl

theorem alikeResults_completeUpload :
    AlikeResults (completeUpload P w) (completeUpload P (stamp T w)) := by
  have hstart : ({ stamp T w with ctx := { (stamp T w).ctx with
        completedAddr := (stamp T w).ctx.loadAddr
        completedSize := (stamp T w).ctx.uploadSize } } : World E) =
      stamp T { w with ctx := { w.ctx with
        completedAddr := w.ctx.loadAddr
        completedSize := w.ctx.uploadSize } } := rfl
  unfold completeUpload
  dsimp only
  rw [hstart, exportUpload_stamp]
  refine AlikeResults.ite (fun _ => alikeResults_answer (alike_stamp T) _ _) fun _ => ?_
  have hvalidate := alikeResults_validateUpload (P := P) (T := T)
    (w := (exportUpload P { w with ctx := { w.ctx with
      completedAddr := w.ctx.loadAddr
      completedSize := w.ctx.uploadSize } }).2)
  rw [hvalidate.left, uploadText_alike hvalidate.right]
  exact ⟨rfl, (alikeResults_replyText hvalidate.right _ _).right⟩

theorem alikeResults_envStore (ipaddr netmask serverip bootdelay : Bytes) :
    AlikeResults (envStore P ipaddr netmask serverip bootdelay w)
      (envStore P ipaddr netmask serverip bootdelay (stamp T w)) := by
  have hworld := (alike_stamp (w := w) T).noted
  unfold envStore
  rw [stamp_ext]
  refine AlikeResults.ite (fun _ => alikeResults_answer ⟨T, rfl⟩ _ _) fun _ => ?_
  exact AlikeResults.ite (fun _ => alikeResults_answer (hworld _ _ _) _ _) fun _ =>
    alikeResults_ok (hworld _ _ _) _

theorem alikeResults_handleBody :
    AlikeResults (handleBody P w) (handleBody P (stamp T w)) := by
  have hanswer : forall code status message,
      AlikeResults (code, error P status message w) (code, error P status message (stamp T w)) :=
    fun code => alikeResults_answer (alike_stamp T)
  unfold handleBody
  rw [stamp_action]
  cases w.ctx.action with
  | none => exact hanswer _ _ _
  | envSave =>
      dsimp only
      unfold envSave
      rw [stamp_body]
      split
      · refine AlikeResults.ite (fun _ => hanswer _ _ _) fun _ => ?_
        refine AlikeResults.ite (fun _ => hanswer _ _ _) fun _ => ?_
        exact alikeResults_envStore _ _ _ _
      · exact hanswer _ _ _

theorem alikeResults_storeUpload (cb cb' : Call) (data : Bytes) :
    AlikeResults (storeUpload P cb data w) (storeUpload P cb' data (stamp T w)) := by
  unfold storeUpload
  rw [stamp_contentLength, stamp_uploadSize]
  refine AlikeResults.ite (fun _ => alikeResults_answer (alike_stamp T) _ _) fun _ => ?_
  have hstored : storeBytes cb' data (stamp T w) =
      stamp { T with log := .stored cb'.pcb w.ctx.uploadSize data :: T.log }
        (storeBytes cb data w) := rfl
  dsimp only
  rw [hstored, stamp_uploadSize, stamp_contentLength]
  exact AlikeResults.ite (fun _ => alikeResults_stamp _) fun _ => alikeResults_completeUpload

theorem alikeResults_storeBody (data : Bytes) :
    AlikeResults (storeBody P data w) (storeBody P data (stamp T w)) := by
  unfold storeBody
  rw [stamp_contentLength, stamp_body]
  refine AlikeResults.ite (fun _ => alikeResults_answer (alike_stamp T) _ _) fun _ => ?_
  exact AlikeResults.ite
    (fun _ => alikeResults_handleBody (T := T)
      (w := { w with ctx := { w.ctx with body := w.ctx.body ++ data } }))
    fun _ => ⟨rfl, T, rfl⟩

/-- What a buffer does does not depend on the time, nor on what happened before. -/
theorem alikeResults_consume (cb cb' : Call) (data : Bytes) (h : Alike w w') :
    AlikeResults (consume P cb data w) (consume P cb' data w') := by
  induction data generalizing w w' with
  | nil => exact ⟨rfl, h⟩
  | cons b rest ih =>
      rcases h with ⟨T, rfl⟩
      rw [consume, consume, stamp_rxState]
      cases w.ctx.rxState with
      | replied => exact ⟨rfl, T, rfl⟩
      | upload => exact alikeResults_storeUpload cb cb' _
      | body => exact alikeResults_storeBody _
      | headers =>
          dsimp only
          rw [stamp_header]
          refine AlikeResults.ite (fun _ => alikeResults_answer (alike_stamp T) _ _) fun _ => ?_
          refine AlikeResults.ite (fun _ => ?_) fun _ => ih ⟨T, rfl⟩
          rcases alikeResults_handleHeaders (P := P) (T := T)
            (w := { w with ctx := { w.ctx with header := w.ctx.header ++ [b] } }) cb cb' with
            ⟨hcode, hworld⟩
          have hsame : ({ stamp T w with ctx := { (stamp T w).ctx with
              header := w.ctx.header ++ [b] } } : World E) =
              stamp T { w with ctx := { w.ctx with header := w.ctx.header ++ [b] } } := rfl
          rw [hsame, hcode]
          exact AlikeResults.ite (fun _ => ⟨rfl, hworld⟩) fun _ => ih hworld

end Webflash
end Hlk7621
