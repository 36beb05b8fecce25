import Hlk7621.Webflash.Frame

/-!
# What a request can do

A completed header block makes at most one state change besides its reply.
`HandlerMove` lists these changes with the guards under which the handlers make
them, and `handled_handleHeaders` shows that the dispatcher does nothing else.
-/

namespace Hlk7621
namespace Webflash

variable {E : Type} (P : Platform E)

/-- The guards that `POST /api/flash` has passed when it starts a job for the
upload target `part`. -/
structure FlashConfirmed (w : World E) (part : Partition) : Prop where
  path : pathIs w.ctx.header "POST" "/api/flash" = true
  idle : operationBlocked w.ctx = false
  uploadPart : w.ctx.uploadPart = some part
  valid : w.ctx.uploadValid = true
  nonempty : w.ctx.completedSize ≠ 0
  phrase : headerValue w.ctx.header "X-Safeboot-Confirm" 40 =
    .ok (expectedConfirmation w.ctx)

/-- The guards of `POST /api/factory-reset`. -/
structure ResetConfirmed (w : World E) : Prop where
  path : pathIs w.ctx.header "POST" "/api/factory-reset" = true
  idle : operationBlocked w.ctx = false
  phrase : headerValue w.ctx.header "X-Safeboot-Confirm" 40 =
    .ok (str "ERASE-SETTINGS")

/-- The guards of an accepted upload of `size` bytes. -/
structure UploadAccepted (w : World E) (part : Partition) (size : Nat) :
    Prop where
  target : uploadTarget P.toBoard w.ctx.header = some part
  idle : operationBlocked w.ctx = false
  length : getContentLength w.ctx.header = .ok size
  sizeOk : uploadSizeOk part size = true
  inRam : rangeInRam P w.ctx.loadAddr size = true
  reserved : (P.lmbReadCheck w.ctx.loadAddr size w.ext).1 = 0

def confirmsFlash (flag : Nat) (w : World E) : Bool :=
  pathIs w.ctx.header "POST" "/api/flash" && !operationBlocked w.ctx &&
    w.ctx.uploadPart.any (fun part => part.has flag) && w.ctx.uploadValid &&
    w.ctx.completedSize != 0 &&
    match headerValue w.ctx.header "X-Safeboot-Confirm" 40 with
    | .ok confirmation => confirmation == expectedConfirmation w.ctx
    | .error _ => false

def acceptsUpload (w : World E) : Bool :=
  match uploadTarget P.toBoard w.ctx.header, getContentLength w.ctx.header with
  | some part, .ok size =>
      !operationBlocked w.ctx && uploadSizeOk part size &&
        rangeInRam P w.ctx.loadAddr size &&
        (P.lmbReadCheck w.ctx.loadAddr size w.ext).1 == 0
  | _, _ => false

theorem FlashConfirmed.confirmsFlash {w : World E} {part : Partition}
    {flag : Nat} (h : FlashConfirmed w part) (hflag : part.has flag = true) :
    confirmsFlash flag w = true := by
  unfold Webflash.confirmsFlash
  rw [h.path, h.idle, h.uploadPart, h.valid, h.phrase]
  simpa [hflag] using h.nonempty

theorem UploadAccepted.acceptsUpload {w : World E} {part : Partition}
    {size : Nat} (h : UploadAccepted P w part size) :
    acceptsUpload P w = true := by
  unfold Webflash.acceptsUpload
  rw [h.target, h.length]
  simp [h.idle, h.sizeOk, h.inRam, h.reserved]

inductive HandlerMove (cb : Call) (w : World E) : World E -> Prop where
  | quiet : HandlerMove cb w w
  | beginUpload (part : Partition) (size : Nat) (ext : E)
      (h : UploadAccepted P w part size) :
      HandlerMove cb w (beginUpload cb part size { w with ext := ext })
  | beginBody (size : Nat) (idle : operationBlocked w.ctx = false) :
      HandlerMove cb w (beginBody .envSave size w)
  | startPlain (part : Partition) (keep : Bool) (h : FlashConfirmed w part)
      (plain : part.has PART_EEPROM = false) :
      HandlerMove cb w
        { w with
          ctx := { w.ctx with
            keepConfig := keep
            job := plainJob P part { w.ctx with keepConfig := keep } }
          log := .flashStarted part (expectedConfirmation w.ctx) :: w.log }
  | startFactory (part : Partition) (keep : Bool) (old : Bytes) (ext : E)
      (h : FlashConfirmed w part) (eeprom : part.has PART_EEPROM = true)
      (length : old.length = P.factory.size) :
      HandlerMove cb w
        { w with
          ctx := { w.ctx with
            keepConfig := keep
            job := factoryJob P w.ctx (splice old EEPROM_OFFSET
              (window w.ram w.ctx.completedAddr EEPROM_SIZE))
            factoryBuf := splice old EEPROM_OFFSET
              (window w.ram w.ctx.completedAddr EEPROM_SIZE) }
          ext := ext
          log := .flashStarted part (expectedConfirmation w.ctx) ::
            .factoryRead old :: w.log }
  | startFailed (part : Partition) (keep : Bool) (h : FlashConfirmed w part)
      (eeprom : part.has PART_EEPROM = true)
      (failed : (P.spiFlashRead P.factory.offset P.factory.size w.ext).1 ≠ 0) :
      HandlerMove cb w
        { w with
          ctx := { w.ctx with keepConfig := keep, job := {} }
          ext := (P.spiFlashRead P.factory.offset P.factory.size w.ext).2.2 }
  | startReset (p overlay : Nat) (h : ResetConfirmed w)
      (found : (findOverlay P w.ext).1 = .ok (p, overlay)) :
      HandlerMove cb w
        (setJob (resetJob P overlay) { w with ext := (findOverlay P w.ext).2 })
  | saveEnv (ret : Int) (ext : E) (idle : operationBlocked w.ctx = false) :
      HandlerMove cb w { w with ext := ext, log := .envSave ret :: w.log }
  | bootRam (part : Partition) (idle : operationBlocked w.ctx = false)
      (valid : w.ctx.uploadValid = true) (hpart : w.ctx.uploadPart = some part)
      (ram : part.has PART_RAM = true) :
      HandlerMove cb w
        { w with ctx := { w.ctx with
          bootAddr := w.ctx.completedAddr
          bootStart := cb.now
          bootPending := true } }
  | reboot (path : pathIs w.ctx.header "POST" "/api/reboot" = true)
      (idle : jobActive w.ctx = false) (healthy : w.ctx.job.phase ≠ .error)
      (fresh : w.ctx.rebootPending = false) :
      HandlerMove cb w (scheduleReboot cb.now w)

def Handled (cb : Call) (w w' : World E) : Prop :=
  exists v, HandlerMove P cb w v ∧ NetStep v w'

variable {P} {cb : Call} {w w' : World E}

theorem Handled.of_move {v : World E} (hm : HandlerMove P cb w v)
    (hn : NetStep v w') : Handled P cb w w' :=
  ⟨v, hm, hn⟩

theorem Handled.of_net (hn : NetStep w w') : Handled P cb w w' :=
  ⟨w, .quiet, hn⟩

/-!
## Guards
-/

theorem checkConfirmation_zero {expected : Bytes}
    (h : (checkConfirmation P expected w).1 = 0) :
    (checkConfirmation P expected w).2 = w ∧
      headerValue w.ctx.header "X-Safeboot-Confirm" 40 = .ok expected := by
  unfold checkConfirmation at h ⊢
  split
  · rename_i confirmation hv
    simp only [hv] at h
    by_cases he : confirmation = expected
    · rw [if_pos he, hv, he]
      exact ⟨rfl, rfl⟩
    · rw [if_neg he] at h
      cases h
  · rename_i hv
    simp only [hv] at h
    cases h

theorem netStep_checkConfirmation (expected : Bytes) :
    NetStep w (checkConfirmation P expected w).2 := by
  unfold checkConfirmation
  split
  · split
    · exact NetStep.refl w
    · exact netStep_error P _ _ w
  · exact netStep_error P _ _ w

theorem rangeValid_eq (size : Nat) :
    exists ext, (rangeValid P size w).2 = { w with ext := ext } := by
  unfold rangeValid
  split
  · exact ⟨w.ext, rfl⟩
  · exact ⟨_, rfl⟩

theorem rangeValid_true {size : Nat} (h : (rangeValid P size w).1 = true) :
    rangeInRam P w.ctx.loadAddr size = true ∧
      (P.lmbReadCheck w.ctx.loadAddr size w.ext).1 = 0 := by
  unfold rangeValid at h
  split at h
  · cases h
  · rename_i hr
    exact ⟨by simpa using hr, by simpa using h⟩

theorem netStep_ext (ext : E) : NetStep w { w with ext := ext } :=
  NetStep.of_core rfl rfl rfl rfl rfl rfl (fun _ => rfl)

/-!
## Handlers
-/

theorem handled_prepareUpload {part : Partition}
    (ht : uploadTarget P.toBoard w.ctx.header = some part) :
    Handled P cb w (prepareUpload P cb part w).2 := by
  unfold prepareUpload
  split
  · exact Handled.of_net (netStep_error P _ _ w)
  · rename_i hidle
    split
    · split
      · exact Handled.of_net (netStep_error P _ _ w)
      · exact Handled.of_net (netStep_error P _ _ w)
    · rename_i size hlen
      split
      · exact Handled.of_net (netStep_error P _ _ w)
      · rename_i hsize
        rcases rangeValid_eq (P := P) (w := w) size with ⟨ext, hext⟩
        dsimp only
        split
        · rw [hext]
          exact Handled.of_net ((netStep_ext ext).trans (netStep_error P _ _ _))
        · rename_i hvalid
          rcases rangeValid_true (P := P) (w := w) (by simpa using hvalid) with
            ⟨hram, hfree⟩
          rw [hext]
          exact Handled.of_move
            (.beginUpload part size ext
              ⟨ht, by simpa using hidle, hlen, by simpa using hsize, hram, hfree⟩)
            (NetStep.refl _)

theorem handled_prepareBody :
    Handled P cb w (prepareBody P .envSave w).2 := by
  unfold prepareBody
  split
  · exact Handled.of_net (netStep_error P _ _ w)
  · rename_i hidle
    split
    · split
      · exact Handled.of_net (netStep_error P _ _ w)
      · exact Handled.of_net (netStep_error P _ _ w)
    · rename_i size _
      split
      · exact Handled.of_net (netStep_error P _ _ w)
      · exact Handled.of_move (.beginBody size (by simpa using hidle))
          (NetStep.refl _)

theorem startFlashJob_cases (part : Partition) :
    part.has PART_EEPROM = false ∧
      startFlashJob P part w =
        (0, { w with ctx := { w.ctx with job := plainJob P part w.ctx } }) ∨
    part.has PART_EEPROM = true ∧ (startFlashJob P part w).1 ≠ 0 ∧
      (P.spiFlashRead P.factory.offset P.factory.size w.ext).1 ≠ 0 ∧
      (startFlashJob P part w).2 =
        { w with
          ctx := { w.ctx with job := {} }
          ext := (P.spiFlashRead P.factory.offset P.factory.size w.ext).2.2 } ∨
    part.has PART_EEPROM = true ∧
      exists (old : Bytes) (ext : E), old.length = P.factory.size ∧
        startFlashJob P part w =
          (0, { w with
            ctx := { w.ctx with
              job := factoryJob P w.ctx (splice old EEPROM_OFFSET
                (window w.ram w.ctx.completedAddr EEPROM_SIZE))
              factoryBuf := splice old EEPROM_OFFSET
                (window w.ram w.ctx.completedAddr EEPROM_SIZE) }
            ext := ext
            log := .factoryRead old :: w.log }) := by
  unfold startFlashJob
  by_cases he : part.has PART_EEPROM = true
  · right
    simp only [he, if_true]
    by_cases hr :
        (P.spiFlashRead P.factory.offset P.factory.size w.ext).1 = 0
    · right
      simp only [hr, ne_eq, not_true_eq_false, if_false]
      exact ⟨trivial, _, _, window_length _ _ _, rfl⟩
    · left
      simp only [hr, ne_eq, not_false_eq_true, if_true]
      exact ⟨trivial, trivial, trivial, trivial⟩
  · left
    simp only [he]
    exact ⟨trivial, rfl⟩

theorem handled_startUploadedFlash (keep : Bool)
    (hpath : pathIs w.ctx.header "POST" "/api/flash" = true) :
    Handled P cb w (startUploadedFlash P
      { w with ctx := { w.ctx with keepConfig := keep } }).2 := by
  generalize hw1 : ({ w with ctx := { w.ctx with keepConfig := keep } } :
    World E) = w1
  have hnet : NetStep w w1 := by
    subst hw1
    exact NetStep.of_core rfl rfl rfl rfl rfl rfl (fun _ => rfl)
  have herr : forall status message,
      Handled P cb w (error P status message w1) := by
    intro status message
    exact Handled.of_net (hnet.trans (netStep_error P status message w1))
  unfold startUploadedFlash
  split
  · exact herr _ _
  · rename_i hidle
    split
    · exact herr _ _
    · rename_i part hpart
      split
      · exact herr _ _
      · rename_i hready
        dsimp only
        split
        · exact Handled.of_net (hnet.trans (netStep_checkConfirmation _))
        · rename_i hconf
          rcases checkConfirmation_zero (by simpa using hconf) with
            ⟨hsame, hphrase⟩
          simp only [hsame]
          simp only [Bool.or_eq_true, Bool.not_eq_true', beq_iff_eq, not_or]
            at hready
          have hblocked : operationBlocked w.ctx = false := by
            rw [<- hnet.operationBlocked]
            simpa using hidle
          have hflash : FlashConfirmed w part := by
            subst hw1
            exact ⟨hpath, hblocked, hpart, by simpa using hready.1, hready.2,
              hphrase⟩
          rcases startFlashJob_cases (P := P) (w := w1) part with
            ⟨hp, hs⟩ | ⟨hp, hne, hfail, hs⟩ | ⟨hp, old, ext, hold, hs⟩
          · simp only [hs, ne_eq, not_true_eq_false, if_false]
            subst hw1
            exact Handled.of_move (.startPlain part keep hflash hp)
              (netStep_replyText P _ _ _)
          · rw [if_pos hne]
            simp only [hs]
            subst hw1
            exact Handled.of_move (.startFailed part keep hflash hp hfail)
              (netStep_error P _ _ _)
          · simp only [hs, ne_eq, not_true_eq_false, if_false]
            subst hw1
            exact Handled.of_move (.startFactory part keep old ext hflash hp hold)
              (netStep_replyText P _ _ _)

theorem handled_flash
    (hpath : pathIs w.ctx.header "POST" "/api/flash" = true) :
    Handled P cb w (flash P w).2 := by
  unfold flash
  split
  · exact handled_startUploadedFlash _ hpath
  · exact handled_startUploadedFlash w.ctx.keepConfig hpath

theorem handled_factoryReset
    (hpath : pathIs w.ctx.header "POST" "/api/factory-reset" = true) :
    Handled P cb w (factoryReset P w).2 := by
  unfold factoryReset
  split
  · exact Handled.of_net (netStep_error P _ _ w)
  · rename_i hidle
    dsimp only
    split
    · exact Handled.of_net (netStep_checkConfirmation _)
    · rename_i hconf
      rcases checkConfirmation_zero (by simpa using hconf) with ⟨hsame, hphrase⟩
      simp only [hsame]
      split
      · exact Handled.of_net ((netStep_ext _).trans (netStep_error P _ _ _))
      · rename_i p overlay hfound
        exact Handled.of_move
          (.startReset p overlay ⟨hpath, by simpa using hidle, hphrase⟩ hfound)
          (netStep_replyText P _ _ _)

theorem handled_envReset : Handled P cb w (envReset P w).2 := by
  unfold envReset
  split
  · exact Handled.of_net (netStep_error P _ _ w)
  · rename_i hidle
    dsimp only
    split
    · exact Handled.of_net (netStep_checkConfirmation _)
    · rename_i hconf
      rcases checkConfirmation_zero (by simpa using hconf) with ⟨hsame, _⟩
      simp only [hsame]
      split
      · exact Handled.of_move (.saveEnv _ _ (by simpa using hidle))
          (netStep_error P _ _ _)
      · exact Handled.of_move (.saveEnv _ _ (by simpa using hidle))
          (netStep_ok P _ _)

theorem handled_bootRam : Handled P cb w (bootRam P cb w).2 := by
  unfold bootRam
  split
  · exact Handled.of_net (netStep_error P _ _ w)
  · rename_i hidle
    split
    · exact Handled.of_net (netStep_error P _ _ w)
    · rename_i hready
      simp only [Bool.or_eq_true, Bool.not_eq_true', not_or, Bool.not_eq_false,
        Option.any_eq_true] at hready
      rcases hready with ⟨hvalid, part, hpart, hram⟩
      exact Handled.of_move
        (.bootRam part (by simpa using hidle) hvalid hpart hram)
        (netStep_ok P _ _)

theorem handled_reboot
    (hpath : pathIs w.ctx.header "POST" "/api/reboot" = true) :
    Handled P cb w (reboot P cb w).2 := by
  unfold reboot
  split
  · exact Handled.of_net (netStep_error P _ _ w)
  · rename_i hguard
    split
    · exact Handled.of_net (netStep_ok P _ w)
    · rename_i hfresh
      simp only [Bool.or_eq_true, beq_iff_eq, not_or] at hguard
      exact Handled.of_move
        (.reboot hpath (by simpa using hguard.1) hguard.2 (by simpa using hfresh))
        (netStep_ok P _ _)

theorem netStep_startDownload (name : Bytes) :
    NetStep w (startDownload P name w).2 := by
  unfold startDownload
  split
  · exact netStep_error P _ _ w
  · split
    · exact netStep_sendDownload P _ _ _ w
    · split
      · exact netStep_error P _ _ w
      · exact netStep_sendDownload P _ _ _ w

theorem netStep_eepromInfo : NetStep w (eepromInfo P w).2 := by
  unfold eepromInfo
  split
  · exact netStep_error P _ _ w
  · dsimp only
    split
    · exact (netStep_ext _).trans (netStep_error P _ _ _)
    · exact (netStep_ext _).trans (netStep_replyText P _ _ _)

theorem handled_handleAction : Handled P cb w (handleAction P cb w).2 := by
  unfold handleAction
  dsimp only
  split
  · exact handled_bootRam
  · split
    · rename_i hpath
      exact handled_flash hpath
    · split
      · rename_i hpath
        exact handled_factoryReset hpath
      · split
        · exact handled_prepareBody
        · split
          · exact handled_envReset
          · split
            · rename_i hpath
              exact handled_reboot hpath
            · exact Handled.of_net (netStep_error P _ _ w)

theorem handled_handleHeaders : Handled P cb w (handleHeaders P cb w).2 := by
  unfold handleHeaders
  dsimp only
  split
  · exact Handled.of_net (netStep_reply P _ _ _ w)
  · split
    · exact Handled.of_net (netStep_replyText P _ _ w)
    · split
      · exact Handled.of_net netStep_eepromInfo
      · split
        · exact Handled.of_net (netStep_replyText P _ _ w)
        · split
          · exact Handled.of_net (netStep_replyText P _ _ w)
          · split
            · exact Handled.of_net (netStep_startDownload _)
            · split
              · rename_i part ht
                exact handled_prepareUpload ht
              · exact handled_handleAction

/-!
## Return values

A handler that returns zero has answered the request, or it has switched to the
reception of a body without touching the connection.
-/

/-- The result `r` of a handler called in `w` reports success only if the
request is no longer at its headers. -/
def Settled (w : World E) (r : Int × World E) : Prop :=
  r.1 = 0 -> r.2.ctx.rxState = .replied ∨
    r.2.ctx.rxState ≠ .headers ∧ r.2.ctx.client = w.ctx.client

theorem settled_of_ne {r : Int × World E} (h : r.1 ≠ 0) : Settled w r := by
  intro h0
  exact absurd h0 h

theorem settled_replyText (status text : Bytes) (v : World E) :
    Settled w (replyText P status text v) := by
  intro h0
  exact Or.inl (replyText_success P h0)

theorem settled_prepareUpload (part : Partition) :
    Settled w (prepareUpload P cb part w) := by
  unfold prepareUpload
  split
  · exact settled_of_ne (by simp [EBUSY])
  · split
    · split
      · rename_i he
        exact settled_of_ne (by simp [he, ENOENT])
      · exact settled_of_ne (by simp [EFBIG])
    · split
      · exact settled_of_ne (by simp [EFBIG])
      · rename_i size _ _
        rcases rangeValid_eq (P := P) (w := w) size with ⟨ext, hext⟩
        dsimp only
        split
        · exact settled_of_ne (by simp [ERANGE])
        · rw [hext]
          intro _
          exact Or.inr ⟨by simp [beginUpload], rfl⟩

theorem settled_prepareBody : Settled w (prepareBody P .envSave w) := by
  unfold prepareBody
  split
  · exact settled_of_ne (by simp [EBUSY])
  · split
    · split
      · rename_i he
        exact settled_of_ne (by simp [he, ENOENT])
      · exact settled_of_ne (by simp [EFBIG])
    · split
      · exact settled_of_ne (by simp [EFBIG])
      · intro _
        exact Or.inr ⟨by simp [beginBody], rfl⟩

theorem settled_startUploadedFlash (v : World E) :
    Settled w (startUploadedFlash P v) := by
  unfold startUploadedFlash
  split
  · exact settled_of_ne (by simp [EBUSY])
  · split
    · exact settled_of_ne (by simp [EINVAL])
    · split
      · exact settled_of_ne (by simp [EINVAL])
      · dsimp only
        split
        · exact settled_of_ne (by simp [EACCES])
        · split
          · exact settled_of_ne (by simp [ EIO])
          · exact settled_replyText _ _ _

theorem findOverlayLoop_error {fuel pos : Nat} {e : E} {ret : Int}
    (h : (findOverlayLoop P fuel pos e).1 = .error ret) : ret ≠ 0 := by
  induction fuel generalizing pos e with
  | zero =>
      cases h
      decide
  | succ fuel ih =>
      rw [findOverlayLoop] at h
      split at h
      · dsimp only at h
        split at h
        · rename_i hr
          cases h
          exact hr
        · split at h
          · cases h
          · exact ih h
      · cases h
        decide

theorem settled_factoryReset : Settled w (factoryReset P w) := by
  unfold factoryReset
  split
  · exact settled_of_ne (by simp [EBUSY])
  · dsimp only
    split
    · exact settled_of_ne (by simp [EACCES])
    · split
      · rename_i hfound
        exact settled_of_ne (findOverlayLoop_error hfound)
      · exact settled_replyText _ _ _

theorem settled_envReset : Settled w (envReset P w) := by
  unfold envReset
  split
  · exact settled_of_ne (by simp [EBUSY])
  · dsimp only
    split
    · exact settled_of_ne (by simp [EACCES])
    · split
      · exact settled_of_ne (by simp [ EIO])
      · exact settled_replyText _ _ _

theorem settled_bootRam : Settled w (bootRam P cb w) := by
  unfold bootRam
  split
  · exact settled_of_ne (by simp [EBUSY])
  · split
    · exact settled_of_ne (by simp [EINVAL])
    · exact settled_replyText _ _ _

theorem settled_reboot : Settled w (reboot P cb w) := by
  unfold reboot
  split
  · exact settled_of_ne (by simp [EBUSY])
  · split
    · exact settled_replyText _ _ _
    · exact settled_replyText _ _ _

theorem settled_startDownload (name : Bytes) :
    Settled w (startDownload P name w) := by
  have hsend : forall offset size filename,
      Settled w (sendDownload P offset size filename w) := by
    intro offset size filename h0
    exact Or.inl (sendDownload_success P h0)
  unfold startDownload
  split
  · exact settled_of_ne (by simp [EBUSY])
  · split
    · exact hsend _ _ _
    · split
      · exact settled_of_ne (by simp [ENOENT])
      · exact hsend _ _ _

theorem settled_eepromInfo : Settled w (eepromInfo P w) := by
  unfold eepromInfo
  split
  · exact settled_of_ne (by simp [EBUSY])
  · dsimp only
    split
    · exact settled_of_ne (by simp [ EIO])
    · exact settled_replyText _ _ _

theorem settled_handleAction : Settled w (handleAction P cb w) := by
  unfold handleAction
  dsimp only
  split
  · exact settled_bootRam
  · split
    · exact settled_startUploadedFlash _
    · split
      · exact settled_factoryReset
      · split
        · exact settled_prepareBody
        · split
          · exact settled_envReset
          · split
            · exact settled_reboot
            · exact settled_of_ne (by simp [ENOENT])

theorem settled_handleHeaders : Settled w (handleHeaders P cb w) := by
  unfold handleHeaders
  dsimp only
  split
  · intro h0
    exact Or.inl (reply_success P h0)
  · split
    · exact settled_replyText _ _ _
    · split
      · exact settled_eepromInfo
      · split
        · exact settled_replyText _ _ _
        · split
          · exact settled_replyText _ _ _
          · split
            · exact settled_startDownload _
            · split
              · exact settled_prepareUpload _
              · exact settled_handleAction

end Webflash
end Hlk7621
