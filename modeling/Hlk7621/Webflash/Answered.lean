import Hlk7621.Webflash.Streaming

/-!
# What a handler leaves

A request handler answers the request or has the server receive a body.
-/

namespace Hlk7621
namespace Webflash

variable {E : Type} {P : Platform E} {cb : Call} {w w' : World E}

def Answered (w : World E) : Prop := w.ctx.client = none ∨ w.ctx.rxState = .replied

theorem answered_reply (status type body : Bytes) : Answered (reply P status type body w).2 := by
  cases hclient : w.ctx.client with
  | none =>
      have hr : reply P status type body w = (-ENOTCONN, w) := by
        unfold reply
        rw [hclient]
      rw [hr]
      exact .inl hclient
  | some pcb =>
      rcases reply_outcome P status type body hclient with h | ⟨_, h, _⟩
      · exact .inr h
      · exact .inl h

theorem answered_replyText (status text : Bytes) : Answered (replyText P status text w).2 :=
  answered_reply _ _ _

theorem answered_error (status message : String) : Answered (error P status message w) :=
  answered_replyText _ _

theorem answered_abort : Answered (abortClient P w) := by
  cases hclient : w.ctx.client with
  | none =>
      rw [abortClient_of_none hclient]
      exact .inl hclient
  | some pcb => exact .inl (abortClient_of_some P hclient).left

/-- The names in the board's tables fit the header of a download. -/
theorem partition_bounds {B : Board} {name : Bytes} {part : Partition}
    (h : B.partitionFind name = some part) :
    part.filename.length ≤ 25 ∧ part.size < 2 ^ 32 := by
  have hfits : forall x : Extent, x.size < 2 ^ 32 := fun x =>
    (Nat.le_add_left _ _).trans_lt x.fits
  unfold Board.partitionFind at h
  split at h
  · cases h
    exact ⟨(by decide : ([] : Bytes).length ≤ 25), (by decide : EEPROM_SIZE < 2 ^ 32)⟩
  · split at h
    · cases h
      exact ⟨(by decide : ([] : Bytes).length ≤ 25), hfits _⟩
    · have hmem := List.mem_of_find?_eq_some h
      simp only [Board.partitions, List.mem_cons, List.not_mem_nil, or_false] at hmem
      rcases hmem with rfl | rfl | rfl | rfl
      · exact ⟨(by decide : (str "hlk-7621a-uboot.bin").length ≤ 25), hfits _⟩
      · exact ⟨(by decide : (str "hlk-7621a-environment.bin").length ≤ 25), hfits _⟩
      · exact ⟨(by decide : (str "hlk-7621a-factory.bin").length ≤ 25), hfits _⟩
      · exact ⟨(by decide : (str "hlk-7621a-firmware.bin").length ≤ 25), hfits _⟩

theorem answered_sendDownload {offset size : Nat} {filename : Bytes}
    (hclient : w.ctx.client.isSome) (hname : filename.length ≤ 25) (hsize : size < 2 ^ 32) :
    Answered (sendDownload P offset size filename w).2 := by
  rcases Option.isSome_iff_exists.mp hclient with ⟨pcb, hpcb⟩
  have hheader := downloadHeader_length_lt hname hsize
  unfold sendDownload
  rw [hpcb]
  dsimp only
  rw [if_neg (Nat.not_le.mpr hheader)]
  split
  · exact answered_abort
  · have hfill : (streamFill P (downloading (downloadHeader filename size).length offset size
        (tcpWrite P pcb (downloadHeader filename size) w).2)).2.ctx.rxState = .replied :=
      (netStep_streamFill P _).rxState_replied rfl
    split
    · exact .inr ((netStep_abortClient P _).rxState_replied hfill)
    · exact .inr ((netStep_flushReply P pcb _).rxState_replied hfill)

theorem answered_startDownload (name : Bytes) (hclient : w.ctx.client.isSome) :
    Answered (startDownload P name w).2 := by
  unfold startDownload
  split
  · exact answered_error _ _
  · split
    · exact answered_sendDownload hclient (by decide) (P.flashSize_le.trans_lt (by decide))
    · split
      · exact answered_error _ _
      · rename_i part hpart
        rcases partition_bounds hpart with ⟨hname, hsize⟩
        exact answered_sendDownload hclient hname hsize

inductive Outcome (P : Platform E) (cb : Call) (w : World E) : Int × World E -> Prop where
  | answered {r : Int × World E} (h : Answered r.2) : Outcome P cb w r
  | upload (part : Partition) (size : Nat) (ext : E)
      (length : getContentLength w.ctx.header = .ok size) (sizeOk : size ≠ 0)
      (inRam : rangeInRam P w.ctx.loadAddr size = true) :
      Outcome P cb w (0, beginUpload cb part size { w with ext := ext })
  | body (action : BodyAction) (size : Nat)
      (length : getContentLength w.ctx.header = .ok size) (sizeOk : size ≠ 0)
      (small : size < BODY_SIZE) : Outcome P cb w (0, beginBody action size w)

theorem Outcome.error {code : Int} (status message : String) (v : World E) :
    Outcome P cb w (code, Webflash.error P status message v) :=
  .answered (answered_error _ _)

theorem Outcome.replyText (status text : Bytes) (v : World E) :
    Outcome P cb w (Webflash.replyText P status text v) :=
  .answered (answered_replyText _ _)

theorem answered_checkConfirmation {expected : Bytes}
    (h : (checkConfirmation P expected w).1 ≠ 0) :
    Answered (checkConfirmation P expected w).2 := by
  unfold checkConfirmation at h ⊢
  split
  · rename_i hvalue
    rw [hvalue] at h
    dsimp only at h
    split
    · rename_i hsame
      rw [if_pos hsame] at h
      exact absurd rfl h
    · exact answered_error _ _
  · exact answered_error _ _

theorem outcome_prepareUpload (part : Partition) :
    Outcome P cb w (prepareUpload P cb part w) := by
  unfold prepareUpload
  split
  · exact .error _ _ _
  · split
    · split
      · exact .error _ _ _
      · exact .error _ _ _
    · rename_i size hlength
      split
      · exact .error _ _ _
      · rename_i hsize
        dsimp only
        split
        · exact .error _ _ _
        · rename_i hrange
          rcases rangeValid_eq (P := P) (w := w) size with ⟨ext, hext⟩
          have hram : rangeInRam P w.ctx.loadAddr size = true := by
            by_contra hno
            refine hrange ?_
            unfold rangeValid
            rw [Bool.eq_false_of_not_eq_true hno]
            rfl
          rw [hext]
          refine .upload part size ext hlength ?_ hram
          rintro rfl
          exact hsize (by simp [uploadSizeOk])

theorem outcome_prepareBody (action : BodyAction) :
    Outcome P cb w (prepareBody P action w) := by
  unfold prepareBody
  split
  · exact .error _ _ _
  · split
    · split
      · exact .error _ _ _
      · exact .error _ _ _
    · rename_i size hlength
      split
      · exact .error _ _ _
      · rename_i hsize
        exact .body action size hlength (fun h => hsize (.inl h))
          (Nat.lt_of_not_ge fun h => hsize (.inr h))

theorem answered_startUploadedFlash (v : World E) : Answered (startUploadedFlash P v).2 := by
  unfold startUploadedFlash
  split
  · exact answered_error _ _
  · split
    · exact answered_error _ _
    · split
      · exact answered_error _ _
      · dsimp only
        split
        · rename_i hphrase
          exact answered_checkConfirmation hphrase
        · split
          · exact answered_error _ _
          · exact answered_replyText _ _

theorem answered_factoryReset : Answered (factoryReset P w).2 := by
  unfold factoryReset
  split
  · exact answered_error _ _
  · dsimp only
    split
    · rename_i hphrase
      exact answered_checkConfirmation hphrase
    · split
      · exact answered_error _ _
      · exact answered_replyText _ _

theorem answered_envReset : Answered (envReset P w).2 := by
  unfold envReset
  split
  · exact answered_error _ _
  · dsimp only
    split
    · rename_i hphrase
      exact answered_checkConfirmation hphrase
    · split
      · exact answered_error _ _
      · exact answered_replyText _ _

theorem answered_bootRam : Answered (bootRam P cb w).2 := by
  unfold bootRam
  split
  · exact answered_error _ _
  · split
    · exact answered_error _ _
    · exact answered_replyText _ _

theorem answered_reboot : Answered (reboot P cb w).2 := by
  unfold reboot
  split
  · exact answered_error _ _
  · split
    · exact answered_replyText _ _
    · exact answered_replyText _ _

theorem answered_eepromInfo : Answered (eepromInfo P w).2 := by
  unfold eepromInfo
  split
  · exact answered_error _ _
  · dsimp only
    split
    · exact answered_error _ _
    · exact answered_replyText _ _

theorem outcome_handleAction : Outcome P cb w (handleAction P cb w) := by
  unfold handleAction
  dsimp only
  split
  · exact .answered answered_bootRam
  · split
    · exact .answered (answered_startUploadedFlash _)
    · split
      · exact .answered answered_factoryReset
      · split
        · exact outcome_prepareBody _
        · split
          · exact .answered answered_envReset
          · split
            · exact .answered answered_reboot
            · exact .error _ _ _

theorem outcome_handleHeaders (P : Platform E) (cb : Call) (hclient : w.ctx.client.isSome) :
    Outcome P cb w (handleHeaders P cb w) := by
  unfold handleHeaders
  dsimp only
  split
  · exact .answered (answered_reply _ _ _)
  · split
    · exact .replyText _ _ _
    · split
      · exact .answered answered_eepromInfo
      · split
        · exact .replyText _ _ _
        · split
          · exact .replyText _ _ _
          · split
            · exact .answered (answered_startDownload _ hclient)
            · split
              · exact outcome_prepareUpload _
              · exact outcome_handleAction

theorem answered_completeUpload : Answered (completeUpload P w).2 := by
  unfold completeUpload
  dsimp only
  split
  · exact answered_error _ _
  · exact answered_replyText _ _

theorem answered_envStore (ipaddr netmask serverip bootdelay : Bytes) :
    Answered (envStore P ipaddr netmask serverip bootdelay w).2 := by
  unfold envStore
  generalize envSetAll P _ w.ext = r
  dsimp only
  split
  · exact answered_error _ _
  · split
    · exact answered_error _ _
    · exact answered_replyText _ _

theorem answered_handleBody : Answered (handleBody P w).2 := by
  unfold handleBody
  split
  · unfold envSave
    split
    · split
      · exact answered_error _ _
      · dsimp only
        split
        · exact answered_error _ _
        · exact answered_envStore _ _ _ _
    · exact answered_error _ _
  · exact answered_error _ _

end Webflash
end Hlk7621
