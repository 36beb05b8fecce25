import Hlk7621.Webflash.Isolation

/-!
# Closing a connection

`tcp_close` is called from three callbacks.  The acknowledgement and the poll
callback call it when the reply has been acknowledged; the end of the peer's
stream makes `webflash_recv` call it at once.  A stream that is active behind such
a close is picked up by the next poll, when there is no client any more.
-/

namespace Hlk7621
namespace Webflash

variable {E : Type}

def NetCall.plain : NetCall -> Bool
  | .write _ _ _ => true
  | .output _ _ => true
  | .abort _ => true
  | _ => false

def PlainCalls (net net' : List NetCall) : Prop :=
  exists new, net' = new ++ net ∧ forall c, c ∈ new -> c.plain = true

theorem PlainCalls.refl (net : List NetCall) : PlainCalls net net :=
  ⟨[], rfl, by simp⟩

theorem PlainCalls.cons {c : NetCall} (hc : c.plain = true) (net : List NetCall) :
    PlainCalls net (c :: net) :=
  ⟨[c], rfl, by simpa using hc⟩

theorem PlainCalls.trans {net net' net'' : List NetCall} (h : PlainCalls net net')
    (h' : PlainCalls net' net'') : PlainCalls net net'' := by
  rcases h with ⟨new, rfl, hplain⟩
  rcases h' with ⟨new', rfl, hplain'⟩
  refine ⟨new' ++ new, (List.append_assoc _ _ _).symm, fun c hc => ?_⟩
  rcases List.mem_append.mp hc with hc | hc
  · exact hplain' c hc
  · exact hplain c hc

/-- No close is made and none becomes pending; where one is pending, the stream
and the bytes to be acknowledged are as before. -/
structure Unclosing (w w' : World E) : Prop where
  pending : w'.ctx.closePending = true -> w.ctx.closePending = true ∧
    w'.ctx.streamActive = w.ctx.streamActive ∧
    w'.ctx.replyPending = w.ctx.replyPending
  net : PlainCalls w.net w'.net

namespace Unclosing

variable {w w' w'' : World E}

theorem of_same (hpending : w'.ctx.closePending = w.ctx.closePending)
    (hactive : w'.ctx.streamActive = w.ctx.streamActive)
    (hreply : w'.ctx.replyPending = w.ctx.replyPending) (hnet : PlainCalls w.net w'.net) :
    Unclosing w w' :=
  ⟨fun h => ⟨hpending.symm.trans h, hactive, hreply⟩, hnet⟩

theorem refl (w : World E) : Unclosing w w := of_same rfl rfl rfl (PlainCalls.refl _)

theorem trans (h : Unclosing w w') (h' : Unclosing w' w'') : Unclosing w w'' := by
  refine ⟨fun hp => ?_, h.net.trans h'.net⟩
  have h2 := h'.pending hp
  have h1 := h.pending h2.left
  exact ⟨h1.left, h2.right.left.trans h1.right.left, h2.right.right.trans h1.right.right⟩

theorem of_cleared (hpending : w'.ctx.closePending = false)
    (hnet : PlainCalls w.net w'.net) : Unclosing w w' := by
  refine ⟨fun h => ?_, hnet⟩
  rw [hpending] at h
  cases h

end Unclosing

/-!
## Filling the send buffer
-/

structure Filling (w w' : World E) : Prop where
  closePending : w'.ctx.closePending = w.ctx.closePending
  replyPending : w'.ctx.replyPending = w.ctx.replyPending
  client : w'.ctx.client = w.ctx.client
  answered : w'.ctx.rxState = w.ctx.rxState
  active : w'.ctx.streamActive = true -> w.ctx.streamActive = true
  net : PlainCalls w.net w'.net

theorem Filling.of_ctx {w w' : World E} (hctx : w'.ctx = w.ctx)
    (hnet : PlainCalls w.net w'.net) : Filling w w' := by
  refine ⟨?_, ?_, ?_, ?_, ?_, hnet⟩ <;> rw [hctx]
  exact id

theorem Filling.trans {w w' w'' : World E} (h : Filling w w') (h' : Filling w' w'') :
    Filling w w'' :=
  ⟨h'.closePending.trans h.closePending, h'.replyPending.trans h.replyPending,
    h'.client.trans h.client, h'.answered.trans h.answered,
    fun ha => h.active (h'.active ha), h.net.trans h'.net⟩

variable (P : Platform E)

theorem filling_streamAdvance (len : Nat) (w : World E) :
    Filling w (streamAdvance len w) := by
  unfold streamAdvance
  split
  · exact ⟨rfl, rfl, rfl, rfl, id, PlainCalls.refl _⟩
  · exact ⟨rfl, rfl, rfl, rfl, id, PlainCalls.refl _⟩

theorem filling_streamChunk (len : Nat) (w : World E) :
    Filling w (streamChunk P len w).2.2 := by
  unfold streamChunk
  split
  · exact Filling.of_ctx rfl (PlainCalls.refl _)
  · exact Filling.of_ctx rfl (PlainCalls.refl _)

theorem filling_tcpWrite (pcb : Pcb) (data : Bytes) (w : World E) :
    Filling w (tcpWrite P pcb data w).2 :=
  Filling.of_ctx rfl (PlainCalls.cons rfl _)

theorem filling_streamFillLoop (fuel : Nat) (w : World E) :
    Filling w (streamFillLoop P fuel w).2 := by
  induction fuel generalizing w with
  | zero => exact Filling.of_ctx rfl (PlainCalls.refl _)
  | succ fuel ih =>
      rw [streamFillLoop]
      split
      · exact Filling.of_ctx rfl (PlainCalls.refl _)
      · split
        · exact Filling.of_ctx rfl (PlainCalls.refl _)
        · rename_i pcb _
          split
          · exact Filling.of_ctx rfl (PlainCalls.refl _)
          · dsimp only
            generalize min w.ctx.streamRemaining
              (min (P.tcpSndbuf pcb w.ext).toNat STREAM_CHUNK) = len
            have hchunk := filling_streamChunk P len w
            have hwrite := hchunk.trans
              (filling_tcpWrite P pcb (streamChunk P len w).2.1 _)
            split
            · exact hchunk
            · split
              · exact hwrite
              · split
                · exact hwrite
                · exact (hwrite.trans (filling_streamAdvance len _)).trans (ih _)

theorem filling_streamFill (w : World E) : Filling w (streamFill P w).2 := by
  have hloop := filling_streamFillLoop P w.ctx.streamRemaining w
  unfold streamFill
  dsimp only
  split
  · exact hloop.trans ⟨rfl, rfl, rfl, rfl, fun h => absurd h (by simp), PlainCalls.refl _⟩
  · exact hloop

/-!
## Replies
-/

section

variable (w : World E)

theorem unclosing_abortClient : Unclosing w (abortClient P w) := by
  unfold abortClient
  split
  · exact Unclosing.refl w
  · dsimp only
    split
    · exact Unclosing.of_same rfl rfl rfl (PlainCalls.cons rfl _)
    · exact Unclosing.of_same rfl rfl rfl (PlainCalls.cons rfl _)

theorem unclosing_tcpOutput (pcb : Pcb) : Unclosing w (tcpOutput P pcb w).2 :=
  Unclosing.of_same rfl rfl rfl (PlainCalls.cons rfl _)

theorem unclosing_flushReply (pcb : Pcb) : Unclosing w (flushReply P pcb w).2 := by
  have hout := unclosing_tcpOutput P w pcb
  unfold flushReply
  dsimp only
  split
  · exact hout.trans (Unclosing.of_same rfl rfl rfl (PlainCalls.refl _))
  · split
    · exact hout.trans (unclosing_abortClient P _)
    · exact hout

theorem unclosing_started {v : World E} (hnet : PlainCalls w.net v.net)
    (hpending : v.ctx.closePending = false) (pcb : Pcb) :
    Unclosing w (if (streamFill P v).1 ≠ 0 then
        ((- EIO : Int), abortClient P (streamFill P v).2)
      else flushReply P pcb (streamFill P v).2).2 := by
  have hfill := filling_streamFill P v
  have hstart : Unclosing w (streamFill P v).2 :=
    Unclosing.of_cleared (hfill.closePending.trans hpending) (hnet.trans hfill.net)
  split
  · exact hstart.trans (unclosing_abortClient P _)
  · exact hstart.trans (unclosing_flushReply P _ pcb)

theorem unclosing_reply (status type body : Bytes) :
    Unclosing w (reply P status type body w).2 := by
  unfold reply
  split
  · exact Unclosing.refl w
  · rename_i pcb _
    dsimp only
    split
    · exact unclosing_abortClient P w
    · split
      · refine Unclosing.trans ?_ (unclosing_abortClient P _)
        exact Unclosing.of_same rfl rfl rfl (PlainCalls.cons rfl _)
      · exact unclosing_started P w (PlainCalls.cons rfl _) rfl pcb

theorem unclosing_replyText (status text : Bytes) :
    Unclosing w (replyText P status text w).2 := by
  unfold replyText
  refine Unclosing.trans ?_ (unclosing_reply P _ _ _ _)
  exact Unclosing.of_same rfl rfl rfl (PlainCalls.refl _)

theorem unclosing_error (status message : String) :
    Unclosing w (error P status message w) :=
  unclosing_replyText P w _ _

theorem unclosing_ok (message : String) : Unclosing w (ok P message w).2 :=
  unclosing_replyText P w _ _

theorem unclosing_sendDownload (offset size : Nat) (filename : Bytes) :
    Unclosing w (sendDownload P offset size filename w).2 := by
  unfold sendDownload
  split
  · exact Unclosing.of_same rfl rfl rfl (PlainCalls.refl _)
  · rename_i pcb _
    dsimp only
    split
    · exact Unclosing.refl w
    · split
      · refine Unclosing.trans ?_ (unclosing_abortClient P _)
        exact Unclosing.of_same rfl rfl rfl (PlainCalls.cons rfl _)
      · exact unclosing_started P w (PlainCalls.cons rfl _) rfl pcb

end

/-!
## Handlers

A handler ends in a reply, which it may make from a world with another job,
another upload or another environment.
-/

variable {P} {cb : Call} {w v : World E}

def SameConn (w v : World E) : Prop :=
  v.ctx.closePending = w.ctx.closePending ∧ v.ctx.streamActive = w.ctx.streamActive ∧
    v.ctx.replyPending = w.ctx.replyPending ∧ v.net = w.net

theorem SameConn.unclosing (h : SameConn w v) : Unclosing w v := by
  refine Unclosing.of_same h.1 h.2.1 h.2.2.1 ?_
  rw [h.2.2.2]
  exact PlainCalls.refl _

theorem SameConn.error (h : SameConn w v) (status message : String) :
    Unclosing w (error P status message v) :=
  h.unclosing.trans (unclosing_error P v status message)

theorem SameConn.replyText (h : SameConn w v) (status text : Bytes) :
    Unclosing w (replyText P status text v).2 :=
  h.unclosing.trans (unclosing_replyText P v status text)

theorem unclosing_checkConfirmation (expected : Bytes) :
    Unclosing w (checkConfirmation P expected w).2 := by
  unfold checkConfirmation
  split
  · split
    · exact Unclosing.refl w
    · exact unclosing_error P w _ _
  · exact unclosing_error P w _ _

theorem sameConn_rangeValid (size : Nat) : SameConn w (rangeValid P size w).2 := by
  rcases rangeValid_eq (P := P) (w := w) size with ⟨ext, hext⟩
  rw [hext]
  exact ⟨rfl, rfl, rfl, rfl⟩

theorem unclosing_prepareUpload (part : Partition) :
    Unclosing w (prepareUpload P cb part w).2 := by
  unfold prepareUpload
  split
  · exact unclosing_error P w _ _
  · split
    · split
      · exact unclosing_error P w _ _
      · exact unclosing_error P w _ _
    · rename_i size _
      split
      · exact unclosing_error P w _ _
      · have hrange := sameConn_rangeValid (P := P) (w := w) size
        dsimp only
        split
        · exact hrange.error _ _
        · refine hrange.unclosing.trans (SameConn.unclosing ?_)
          exact ⟨rfl, rfl, rfl, rfl⟩

theorem unclosing_prepareBody (action : BodyAction) :
    Unclosing w (prepareBody P action w).2 := by
  unfold prepareBody
  split
  · exact unclosing_error P w _ _
  · split
    · split
      · exact unclosing_error P w _ _
      · exact unclosing_error P w _ _
    · split
      · exact unclosing_error P w _ _
      · exact SameConn.unclosing ⟨rfl, rfl, rfl, rfl⟩

theorem sameConn_startFlashJob (part : Partition) :
    SameConn w (startFlashJob P part w).2 := by
  unfold startFlashJob
  split
  · dsimp only
    split
    · exact ⟨rfl, rfl, rfl, rfl⟩
    · exact ⟨rfl, rfl, rfl, rfl⟩
  · exact ⟨rfl, rfl, rfl, rfl⟩

theorem unclosing_startUploadedFlash : Unclosing w (startUploadedFlash P w).2 := by
  unfold startUploadedFlash
  split
  · exact unclosing_error P w _ _
  · split
    · exact unclosing_error P w _ _
    · rename_i part _
      split
      · exact unclosing_error P w _ _
      · dsimp only
        split
        · exact unclosing_checkConfirmation _
        · refine (unclosing_checkConfirmation (P := P) (expectedConfirmation w.ctx)).trans ?_
          have hjob := sameConn_startFlashJob (P := P) part
            (w := (checkConfirmation P (expectedConfirmation w.ctx) w).2)
          split
          · exact hjob.error _ _
          · refine hjob.unclosing.trans (SameConn.replyText ?_ _ _)
            exact ⟨rfl, rfl, rfl, rfl⟩

theorem unclosing_flash : Unclosing w (flash P w).2 := by
  unfold flash
  split
  · refine Unclosing.trans (SameConn.unclosing ?_) unclosing_startUploadedFlash
    exact ⟨rfl, rfl, rfl, rfl⟩
  · exact unclosing_startUploadedFlash

theorem unclosing_factoryReset : Unclosing w (factoryReset P w).2 := by
  unfold factoryReset
  split
  · exact unclosing_error P w _ _
  · dsimp only
    split
    · exact unclosing_checkConfirmation _
    · refine (unclosing_checkConfirmation (P := P) (str "ERASE-SETTINGS")).trans ?_
      split
      · refine SameConn.error ?_ _ _
        exact ⟨rfl, rfl, rfl, rfl⟩
      · refine SameConn.replyText ?_ _ _
        exact ⟨rfl, rfl, rfl, rfl⟩

theorem unclosing_envReset : Unclosing w (envReset P w).2 := by
  unfold envReset
  split
  · exact unclosing_error P w _ _
  · dsimp only
    split
    · exact unclosing_checkConfirmation _
    · refine (unclosing_checkConfirmation (P := P) (str "RESET-ENVIRONMENT")).trans ?_
      split
      · refine SameConn.error ?_ _ _
        exact ⟨rfl, rfl, rfl, rfl⟩
      · refine SameConn.replyText ?_ _ _
        exact ⟨rfl, rfl, rfl, rfl⟩

theorem unclosing_bootRam : Unclosing w (bootRam P cb w).2 := by
  unfold bootRam
  split
  · exact unclosing_error P w _ _
  · split
    · exact unclosing_error P w _ _
    · refine SameConn.replyText ?_ _ _
      exact ⟨rfl, rfl, rfl, rfl⟩

theorem unclosing_reboot : Unclosing w (reboot P cb w).2 := by
  unfold reboot
  split
  · exact unclosing_error P w _ _
  · split
    · exact unclosing_ok P w _
    · refine SameConn.replyText ?_ _ _
      exact ⟨rfl, rfl, rfl, rfl⟩

theorem unclosing_startDownload (name : Bytes) :
    Unclosing w (startDownload P name w).2 := by
  unfold startDownload
  split
  · exact unclosing_error P w _ _
  · split
    · exact unclosing_sendDownload P w _ _ _
    · split
      · exact unclosing_error P w _ _
      · exact unclosing_sendDownload P w _ _ _

theorem unclosing_eepromInfo : Unclosing w (eepromInfo P w).2 := by
  unfold eepromInfo
  split
  · exact unclosing_error P w _ _
  · dsimp only
    split
    · refine SameConn.error ?_ _ _
      exact ⟨rfl, rfl, rfl, rfl⟩
    · refine SameConn.replyText ?_ _ _
      exact ⟨rfl, rfl, rfl, rfl⟩

theorem unclosing_handleAction : Unclosing w (handleAction P cb w).2 := by
  unfold handleAction
  dsimp only
  split
  · exact unclosing_bootRam
  · split
    · exact unclosing_flash
    · split
      · exact unclosing_factoryReset
      · split
        · exact unclosing_prepareBody _
        · split
          · exact unclosing_envReset
          · split
            · exact unclosing_reboot
            · exact unclosing_error P w _ _

theorem unclosing_handleHeaders : Unclosing w (handleHeaders P cb w).2 := by
  unfold handleHeaders
  dsimp only
  split
  · exact unclosing_reply P w _ _ _
  · split
    · exact unclosing_replyText P w _ _
    · split
      · exact unclosing_eepromInfo
      · split
        · exact unclosing_replyText P w _ _
        · split
          · exact unclosing_replyText P w _ _
          · split
            · exact unclosing_startDownload _
            · split
              · exact unclosing_prepareUpload _
              · exact unclosing_handleAction

/-!
## Received data
-/

theorem sameConn_validateUpload : SameConn w (validateUpload P w).2 := by
  unfold validateUpload
  split
  · exact ⟨rfl, rfl, rfl, rfl⟩
  · exact ⟨rfl, rfl, rfl, rfl⟩

theorem sameConn_exportUpload : SameConn w (exportUpload P w).2 := by
  rcases exportUpload_eq (P := P) (w := w) with ⟨ext, hext⟩
  rw [hext]
  exact ⟨rfl, rfl, rfl, rfl⟩

theorem unclosing_completeUpload : Unclosing w (completeUpload P w).2 := by
  unfold completeUpload
  have hcompleted : Unclosing w { w with ctx := { w.ctx with
      completedAddr := w.ctx.loadAddr
      completedSize := w.ctx.uploadSize } } := SameConn.unclosing ⟨rfl, rfl, rfl, rfl⟩
  refine hcompleted.trans ?_
  dsimp only
  split
  · exact sameConn_exportUpload.error _ _
  · exact sameConn_exportUpload.unclosing.trans (sameConn_validateUpload.replyText _ _)

theorem unclosing_storeUpload (data : Bytes) :
    Unclosing w (storeUpload P cb data w).2 := by
  unfold storeUpload
  split
  · exact unclosing_error P w _ _
  · have hstored : Unclosing w (storeBytes cb data w) :=
      SameConn.unclosing ⟨rfl, rfl, rfl, rfl⟩
    dsimp only
    split
    · exact hstored
    · exact hstored.trans unclosing_completeUpload

theorem unclosing_envStore (ipaddr netmask serverip bootdelay : Bytes) :
    Unclosing w (envStore P ipaddr netmask serverip bootdelay w).2 := by
  unfold envStore
  generalize envSetAll P _ w.ext = r
  dsimp only
  split
  · refine SameConn.error ?_ _ _
    exact ⟨rfl, rfl, rfl, rfl⟩
  · split
    · refine SameConn.error ?_ _ _
      exact ⟨rfl, rfl, rfl, rfl⟩
    · refine SameConn.replyText ?_ _ _
      exact ⟨rfl, rfl, rfl, rfl⟩

theorem unclosing_handleBody : Unclosing w (handleBody P w).2 := by
  unfold handleBody
  split
  · unfold envSave
    split
    · split
      · exact unclosing_error P w _ _
      · dsimp only
        split
        · exact unclosing_error P w _ _
        · exact unclosing_envStore _ _ _ _
    · exact unclosing_error P w _ _
  · exact unclosing_error P w _ _

theorem unclosing_storeBody (data : Bytes) : Unclosing w (storeBody P data w).2 := by
  unfold storeBody
  split
  · exact unclosing_error P w _ _
  · have hgrow : Unclosing w
        { w with ctx := { w.ctx with body := w.ctx.body ++ data } } :=
      SameConn.unclosing ⟨rfl, rfl, rfl, rfl⟩
    dsimp only
    split
    · exact hgrow.trans unclosing_handleBody
    · exact hgrow

theorem unclosing_consume (data : Bytes) : Unclosing w (consume P cb data w).2 := by
  induction data generalizing w with
  | nil => exact Unclosing.refl w
  | cons b rest ih =>
      rw [consume]
      split
      · exact Unclosing.refl w
      · exact unclosing_storeUpload _
      · exact unclosing_storeBody _
      · split
        · exact unclosing_error P w _ _
        · have hheader : Unclosing w
              { w with ctx := { w.ctx with header := w.ctx.header ++ [b] } } :=
            SameConn.unclosing ⟨rfl, rfl, rfl, rfl⟩
          dsimp only
          split
          · split
            · exact hheader.trans unclosing_handleHeaders
            · exact (hheader.trans unclosing_handleHeaders).trans ih
          · exact hheader.trans ih

theorem unclosing_consumeAll (chain : List Bytes) :
    Unclosing w (consumeAll P cb chain w) := by
  induction chain generalizing w with
  | nil => exact Unclosing.refl w
  | cons q chain ih =>
      rw [consumeAll]
      split
      · exact Unclosing.refl w
      · dsimp only
        split
        · exact unclosing_consume q
        · exact (unclosing_consume q).trans ih

/-!
## Connections and calls
-/

def lastAccepted : List NetCall -> Option Pcb
  | [] => none
  | .accepted pcb :: _ => some pcb
  | _ :: net => lastAccepted net

theorem PlainCalls.lastAccepted {net net' : List NetCall} (h : PlainCalls net net') :
    lastAccepted net' = lastAccepted net := by
  rcases h with ⟨new, rfl, hplain⟩
  induction new with
  | nil => rfl
  | cons c new ih =>
      have hrest := ih (fun c hc => hplain c (List.mem_cons_of_mem _ hc))
      cases c with
      | write pcb data err => exact hrest
      | output pcb err => exact hrest
      | abort pcb => exact hrest
      | accepted pcb => cases hplain _ List.mem_cons_self
      | errored pcb => cases hplain _ List.mem_cons_self
      | close pcb err => cases hplain _ List.mem_cons_self

theorem PlainCalls.connState {net net' : List NetCall} (h : PlainCalls net net')
    (pcb : Pcb) : connState net' pcb = connState net pcb ∨ connState net' pcb = .free := by
  rcases h with ⟨new, rfl, hplain⟩
  induction new with
  | nil => exact Or.inl rfl
  | cons c new ih =>
      have hrest := ih (fun c hc => hplain c (List.mem_cons_of_mem _ hc))
      cases c with
      | write p data err => exact hrest
      | output p err => exact hrest
      | abort p =>
          show (if p = pcb then ConnState.free else Webflash.connState (new ++ net) pcb) = _ ∨ _
          split
          · rename_i hp
            exact Or.inr (if_pos hp)
          · rename_i hp
            rw [List.cons_append, Webflash.connState, if_neg hp]
            exact hrest
      | accepted p => cases hplain _ List.mem_cons_self
      | errored p => cases hplain _ List.mem_cons_self
      | close p err => cases hplain _ List.mem_cons_self

def Acked (w : World E) : Prop := w.ctx.replyPending = 0 ∧ w.ctx.streamActive = false

/-- A close is pending only behind an acknowledged reply, the client is the
connection accepted last, and a client that is gone with its reply unfinished has
been freed. -/
structure Tidy (w : World E) : Prop where
  pending : w.ctx.closePending = true -> Acked w
  client : forall pcb, w.ctx.client = some pcb ->
    lastAccepted w.net = some pcb ∧ connState w.net pcb = .opened
  ended : w.ctx.client = none -> ¬ Acked w ->
    forall pcb, lastAccepted w.net = some pcb -> connState w.net pcb = .free

namespace Tidy

/-- Behind calls that close nothing.  Without a client, the reply is left as it
is. -/
theorem unclosing (hw : Tidy w) (h : Unclosing w v) (hconn : ConnStep w v)
    (hnone : w.ctx.client = none -> Acked w -> Acked v) : Tidy v := by
  refine ⟨?_, ?_, ?_⟩
  · intro hp
    have hkept := h.pending hp
    have hacked := hw.pending hkept.left
    exact ⟨hkept.right.right.trans hacked.left, hkept.right.left.trans hacked.right⟩
  · intro pcb hc
    cases hconn with
    | same client net =>
        rw [h.net.lastAccepted, net pcb]
        exact hw.client pcb (client.symm.trans hc)
    | dropped pcb' hsome hgone ended net =>
        rw [hgone] at hc
        cases hc
  · intro hgone hunacked pcb hlast
    rw [h.net.lastAccepted] at hlast
    cases hconn with
    | same client net =>
        have hn := client.symm.trans hgone
        rw [net pcb]
        exact hw.ended hn (fun ha => hunacked (hnone hn ha)) pcb hlast
    | dropped pcb' hsome _ ended net =>
        -- The client was open, and plain calls cannot have closed it.
        have hopen := hw.client pcb' hsome
        have hpcb : pcb = pcb' := Option.some.inj (hlast.symm.trans hopen.left)
        rw [hpcb]
        rcases h.net.connState pcb' with hs | hf
        · exact absurd (hs.trans hopen.right) ended
        · exact hf

theorem congr (hw : Tidy w) (hclose : v.ctx.closePending = w.ctx.closePending)
    (hreply : v.ctx.replyPending = w.ctx.replyPending)
    (hactive : v.ctx.streamActive = w.ctx.streamActive)
    (hclient : v.ctx.client = w.ctx.client) (hnet : v.net = w.net) : Tidy v := by
  refine hw.unclosing (Unclosing.of_same hclose hactive hreply ?_)
    (.same hclient (fun p => by rw [hnet])) ?_
  · rw [hnet]
    exact PlainCalls.refl _
  · exact fun _ ha => ⟨hreply.trans ha.left, hactive.trans ha.right⟩

theorem abortClient (hw : Tidy w) : Tidy (abortClient P w) := by
  refine hw.unclosing (unclosing_abortClient P w) (netStep_abortClient P w).conn ?_
  intro hnone ha
  simpa [Webflash.abortClient, hnone] using ha

end Tidy

/-!
## Closing
-/

theorem acked_abortClient (h : Acked w) : Acked (abortClient P w) := by
  unfold abortClient
  split
  · exact h
  · dsimp only
    split
    · exact h
    · exact h

theorem acked_tryCloseClient (h : Acked w) : Acked (tryCloseClient P w).2 := by
  unfold tryCloseClient
  split
  · exact h
  · dsimp only
    split
    · exact h
    · split
      · exact h
      · exact acked_abortClient h

theorem lastAccepted_tryCloseClient :
    lastAccepted (tryCloseClient P w).2.net = lastAccepted w.net := by
  unfold tryCloseClient
  split
  · rfl
  · dsimp only
    split
    · rfl
    · split
      · rfl
      · exact (unclosing_abortClient P _).net.lastAccepted

theorem Tidy.tryCloseClient (hw : Tidy w) (hacked : Acked w) :
    Tidy (tryCloseClient P w).2 := by
  have hacked' := acked_tryCloseClient (P := P) hacked
  refine ⟨fun _ => hacked', ?_, fun _ hn => absurd hacked' hn⟩
  intro pcb hc
  rw [lastAccepted_tryCloseClient]
  cases (netStep_tryCloseClient P w).conn with
  | same client net =>
      rw [net pcb]
      exact hw.client pcb (client.symm.trans hc)
  | dropped pcb' hsome hgone ended net =>
      rw [hgone] at hc
      cases hc

def CloseFree (net net' : List NetCall) : Prop :=
  exists new, net' = new ++ net ∧ forall pcb err, NetCall.close pcb err ∉ new

theorem PlainCalls.closeFree {net net' : List NetCall} (h : PlainCalls net net') :
    CloseFree net net' := by
  rcases h with ⟨new, hnet, hplain⟩
  exact ⟨new, hnet, fun pcb err hmem => absurd (hplain _ hmem) (by simp [NetCall.plain])⟩

structure TidyStep (w w' : World E) : Prop where
  tidy : Tidy w'
  closes : CloseFree w.net w'.net ∨ Acked w'
  last : w.ctx.client ≠ none -> lastAccepted w'.net = lastAccepted w.net

theorem TidyStep.of_plain (hv : Tidy v) (hnet : PlainCalls w.net v.net) : TidyStep w v :=
  ⟨hv, Or.inl hnet.closeFree, fun _ => hnet.lastAccepted⟩

theorem TidyStep.refl (hw : Tidy w) : TidyStep w w :=
  TidyStep.of_plain hw (PlainCalls.refl _)

theorem TidyStep.of_close (hv : Tidy v) (hacked : Acked v) (hnet : PlainCalls w.net v.net) :
    TidyStep w (tryCloseClient P v).2 :=
  ⟨hv.tryCloseClient hacked, Or.inr (acked_tryCloseClient hacked),
    fun _ => lastAccepted_tryCloseClient.trans hnet.lastAccepted⟩

theorem unclosing_streamFill (h : w.ctx.closePending = false) :
    Unclosing w (streamFill P w).2 :=
  Unclosing.of_cleared ((filling_streamFill P w).closePending.trans h)
    (filling_streamFill P w).net

theorem Tidy.not_pending (hw : Tidy w) (h : w.ctx.streamActive = true) :
    w.ctx.closePending = false := by
  by_contra hp
  have hacked := hw.pending (by simpa using hp)
  rw [hacked.right] at h
  cases h

/-!
## Acknowledgements
-/

theorem unclosing_sentStream (cb : Call) (hw : Tidy w) : Unclosing w (sentStream P cb w).2 := by
  unfold sentStream
  split
  · exact Unclosing.refl w
  · rename_i hactive
    have hfill := unclosing_streamFill (P := P) (hw.not_pending (by simpa using hactive))
    dsimp only
    split
    · exact hfill.trans (unclosing_abortClient P _)
    · have hout := hfill.trans (unclosing_tcpOutput P _ cb.pcb)
      split
      · exact hout.trans (Unclosing.of_same rfl rfl rfl (PlainCalls.refl _))
      · split
        · exact hout.trans (unclosing_abortClient P _)
        · exact hout

theorem Tidy.acknowledged (hw : Tidy w) (len : Nat) (hclient : w.ctx.client ≠ none) :
    Tidy (acknowledged cb len w) := by
  refine ⟨?_, hw.client, fun hn => absurd hn hclient⟩
  intro hp
  have hacked := hw.pending hp
  refine ⟨?_, hacked.right⟩
  show (if len ≥ w.ctx.replyPending then 0 else w.ctx.replyPending - len) = 0
  rw [hacked.left]
  simp

theorem tidyStep_sent (hw : Tidy w) (len : Nat) : TidyStep w (sent P cb len w) := by
  unfold sent
  split
  · exact TidyStep.refl hw
  · rename_i hclient
    have hsome : w.ctx.client ≠ none := by
      rw [not_not.mp hclient]
      simp
    have hack : Tidy (acknowledged cb len w) := hw.acknowledged len hsome
    have hstream := unclosing_sentStream (P := P) cb hack
    have hnet : PlainCalls w.net (sentStream P cb (acknowledged cb len w)).2.net :=
      hstream.net
    have htidy : Tidy (sentStream P cb (acknowledged cb len w)).2 :=
      hack.unclosing hstream (netStep_sentStream P cb _).conn (fun hn => absurd hn hsome)
    dsimp only
    split
    · exact TidyStep.of_plain htidy hnet
    · split
      · exact TidyStep.of_plain htidy hnet
      · rename_i hdone
        simp only [not_or, not_not, Bool.not_eq_true] at hdone
        have hacked : Acked (sentStream P cb (acknowledged cb len w)).2 := hdone.2
        refine TidyStep.of_close ?_ ?_ ?_
        · exact ⟨fun _ => hacked, htidy.client, htidy.ended⟩
        · exact hacked
        · exact hnet

/-!
## Polls
-/

theorem unclosing_pollOutput (cb : Call) : Unclosing w (pollOutput P cb w).2 := by
  have hout := unclosing_tcpOutput P w cb.pcb
  unfold pollOutput
  split
  · exact Unclosing.refl w
  · dsimp only
    split
    · exact hout.trans (Unclosing.of_same rfl rfl rfl (PlainCalls.refl _))
    · split
      · exact hout.trans (unclosing_abortClient P _)
      · exact hout

theorem acked_pollOutput (h : Acked w) : Acked (pollOutput P cb w).2 := by
  unfold pollOutput
  split
  · exact h
  · dsimp only
    split
    · exact h
    · split
      · exact acked_abortClient h
      · exact h

theorem lastAccepted_pollClose :
    lastAccepted (pollClose P cb w).net = lastAccepted w.net := by
  have hclose : lastAccepted (if w.ctx.closePending && w.ctx.replyPending == 0 then
      tryCloseClient P w else (.mem, w)).2.net = lastAccepted w.net := by
    split
    · exact lastAccepted_tryCloseClient
    · rfl
  unfold pollClose
  generalize (if w.ctx.closePending && w.ctx.replyPending == 0 then
    tryCloseClient P w else (.mem, w)) = r at hclose ⊢
  dsimp only
  split
  · exact hclose
  · split
    · exact (unclosing_abortClient P _).net.lastAccepted.trans hclose
    · exact hclose

theorem tidyStep_pollClose (hw : Tidy w) : TidyStep w (pollClose P cb w) := by
  have hclose : (if w.ctx.closePending && w.ctx.replyPending == 0 then
      tryCloseClient P w else (.mem, w)) = (.mem, w) ∨
      Acked w ∧ (if w.ctx.closePending && w.ctx.replyPending == 0 then
        tryCloseClient P w else (.mem, w)) = tryCloseClient P w := by
    by_cases hp : (w.ctx.closePending && w.ctx.replyPending == 0) = true
    · rw [if_pos hp]
      simp only [Bool.and_eq_true] at hp
      exact Or.inr ⟨hw.pending hp.left, rfl⟩
    · rw [if_neg hp]
      exact Or.inl rfl
  unfold pollClose
  rcases hclose with hkept | ⟨hacked, htry⟩
  · rw [hkept]
    dsimp only
    split
    · exact TidyStep.refl hw
    · split
      · exact TidyStep.of_plain hw.abortClient (unclosing_abortClient P w).net
      · exact TidyStep.refl hw
  · rw [htry]
    have hclosed := TidyStep.of_close (P := P) hw hacked (PlainCalls.refl _)
    have hacked' := acked_tryCloseClient (P := P) hacked
    dsimp only
    split
    · exact hclosed
    · split
      · exact ⟨hclosed.tidy.abortClient, Or.inr (acked_abortClient hacked'), fun hc =>
          (unclosing_abortClient P _).net.lastAccepted.trans (hclosed.last hc)⟩
      · exact hclosed

theorem TidyStep.after {u : World E} (h : TidyStep v u) (hnet : PlainCalls w.net v.net)
    (hlast : lastAccepted u.net = lastAccepted v.net) : TidyStep w u := by
  refine ⟨h.tidy, ?_, fun _ => hlast.trans hnet.lastAccepted⟩
  rcases h.closes with ⟨new, hnew, hfree⟩ | hacked
  · rcases hnet.closeFree with ⟨new', hnew', hfree'⟩
    refine Or.inl ⟨new ++ new', ?_, ?_⟩
    · rw [hnew, hnew', List.append_assoc]
    · intro pcb err hmem
      rcases List.mem_append.mp hmem with hm | hm
      · exact hfree pcb err hm
      · exact hfree' pcb err hm
  · exact Or.inr hacked

theorem tidyStep_poll (hw : Tidy w)
    (hclient : w.ctx.client = none -> w.ctx.streamActive = false) :
    TidyStep w (poll P cb w) := by
  have hfilled : Unclosing w (if w.ctx.streamActive then streamFill P w else (0, w)).2 := by
    split
    · rename_i hactive
      exact unclosing_streamFill (hw.not_pending hactive)
    · exact Unclosing.refl w
  have hconn : ConnStep w (if w.ctx.streamActive then streamFill P w else (0, w)).2 := by
    split
    · exact (netStep_streamFill P w).conn
    · exact (NetStep.refl w).conn
  have hkept : w.ctx.client = none -> Acked w ->
      Acked (if w.ctx.streamActive then streamFill P w else (0, w)).2 := by
    intro hn ha
    simpa [hclient hn] using ha
  have htidy := hw.unclosing hfilled hconn hkept
  unfold poll
  generalize (if w.ctx.streamActive then streamFill P w else (0, w)) = r at *
  dsimp only
  split
  · exact TidyStep.of_plain htidy.abortClient
      (hfilled.net.trans (unclosing_abortClient P r.2).net)
  · have hout := unclosing_pollOutput (P := P) cb (w := r.2)
    have htidy' : Tidy (pollOutput P cb r.2).2 :=
      htidy.unclosing hout (netStep_pollOutput P cb r.2).conn
        (fun _ ha => acked_pollOutput ha)
    split
    · exact TidyStep.of_plain htidy' (hfilled.net.trans hout.net)
    · exact (tidyStep_pollClose htidy').after (hfilled.net.trans hout.net)
        lastAccepted_pollClose

/-!
## Received data and the other events
-/

theorem ConnStep.congr {u : World E} (h : ConnStep w v) (hclient : u.ctx.client = v.ctx.client)
    (hnet : u.net = v.net) : ConnStep w u :=
  h.trans (.same hclient (fun p => by rw [hnet]))

theorem preserves_connStep (cb : Call) : Preserves P cb (fun _ => True) (ConnStep w) where
  net h hw := hw.trans h.conn
  header _ hw := hw.congr rfl rfl
  handler h _ _ _ hw := by
    cases h <;> exact hw.congr rfl rfl
  body h hw := by
    cases h with
    | net h => exact hw.trans h.conn
    | stored data rx client fits => exact hw.congr rfl rfl
    | exportFailed ext rx h =>
        refine ConnStep.trans ?_ h.conn
        exact hw.congr rfl rfl
    | validated ext rx full h answered =>
        refine ConnStep.trans ?_ h.conn
        exact hw.congr (validateUpload_client (completed ext _))
          (sameConn_validateUpload (w := completed ext _)).2.2.2
    | savedEnv ret ext rx h =>
        refine ConnStep.trans ?_ h.conn
        exact hw.congr rfl rfl

theorem connStep_consumeAll (chain : List Bytes) :
    ConnStep w (consumeAll P cb chain w) :=
  consumeAll_induct (preserves_connStep cb) chain (fun _ _ _ _ _ => trivial)
    (.same rfl (fun _ => rfl))

theorem consumeAll_no_client (chain : List Bytes) (hn : w.ctx.client = none) :
    consumeAll P cb chain w = w := by
  cases chain with
  | nil => rfl
  | cons q chain => simp [consumeAll, hn]

theorem tidyStep_consumeAll (hw : Tidy w) (chain : List Bytes) :
    TidyStep w (consumeAll P cb chain w) := by
  refine TidyStep.of_plain (hw.unclosing (unclosing_consumeAll chain)
    (connStep_consumeAll chain) ?_) (unclosing_consumeAll chain).net
  intro hn ha
  rw [consumeAll_no_client chain hn]
  exact ha

theorem tidyStep_accept (hw : Tidy w) (err : Err)
    (hnew : connState w.net cb.pcb ≠ .opened) : TidyStep w (accept P cb err w) := by
  unfold accept
  split
  · exact TidyStep.refl hw
  · split
    · rename_i hbusy
      have hne : forall pcb, w.ctx.client = some pcb -> cb.pcb ≠ pcb := by
        rintro pcb hc rfl
        exact hnew (hw.client _ hc).right
      refine TidyStep.of_plain ⟨hw.pending, ?_, ?_⟩ (PlainCalls.cons rfl _)
      · intro pcb hc
        refine ⟨(hw.client pcb hc).left, ?_⟩
        exact (if_neg (hne pcb hc)).trans (hw.client pcb hc).right
      · intro hn
        simp [show w.ctx.client = none from hn] at hbusy
    · rename_i hfree
      refine ⟨⟨?_, ?_, ?_⟩, Or.inr ⟨rfl, rfl⟩, fun hc => absurd hc (by simpa using hfree)⟩
      · exact fun _ => ⟨rfl, rfl⟩
      · intro pcb hc
        have hpcb : cb.pcb = pcb := Option.some.inj hc
        exact ⟨hc, if_pos hpcb⟩
      · exact fun _ hn => absurd ⟨rfl, rfl⟩ hn

theorem tidyStep_tcpError : TidyStep w (tcpError cb w) :=
  ⟨⟨fun _ => ⟨rfl, rfl⟩, fun _ hc => absurd hc (by simp [tcpError]),
    fun _ hn => absurd ⟨rfl, rfl⟩ hn⟩, Or.inr ⟨rfl, rfl⟩, fun _ => rfl⟩

theorem TidyStep.of_congr (hw : Tidy w)
    (hclose : v.ctx.closePending = w.ctx.closePending)
    (hreply : v.ctx.replyPending = w.ctx.replyPending)
    (hactive : v.ctx.streamActive = w.ctx.streamActive)
    (hclient : v.ctx.client = w.ctx.client) (hnet : v.net = w.net) : TidyStep w v := by
  refine TidyStep.of_plain (hw.congr hclose hreply hactive hclient hnet) ?_
  rw [hnet]
  exact PlainCalls.refl _

theorem tidyStep_jobStep (hw : Tidy w) (now : Nat) : TidyStep w (jobStep P now w) := by
  have hround := jobRound_jobStep P now w
  exact TidyStep.of_congr hw (hround.kept Ctx.closePending (fun _ _ _ _ => rfl))
    (hround.kept Ctx.replyPending (fun _ _ _ _ => rfl))
    (hround.kept Ctx.streamActive (fun _ _ _ _ => rfl))
    (hround.kept Ctx.client (fun _ _ _ _ => rfl)) hround.net

theorem tidyStep_bootTimer (hw : Tidy w) (now : Nat) :
    TidyStep w (bootTimer P now w) := by
  unfold bootTimer
  split
  · have habort := hw.abortClient (P := P)
    have hnet := (unclosing_abortClient P w).net
    dsimp only
    split
    · exact TidyStep.of_plain (habort.congr rfl rfl rfl rfl rfl) hnet
    · exact TidyStep.of_plain (habort.congr rfl rfl rfl rfl rfl) hnet
  · exact TidyStep.refl hw

theorem tidyStep_rebootTimer (hw : Tidy w) (now : Nat) :
    TidyStep w (rebootTimer now w) := by
  unfold rebootTimer
  split
  · exact TidyStep.of_congr hw rfl rfl rfl rfl rfl
  · exact TidyStep.refl hw

/-!
## Runs
-/

/-- The peer ends its stream only when the reply has been acknowledged, and while
the stream of a client that is gone is still marked active, connections accepted
before that client are not polled. -/
def unhurried (w : World E) : Event -> Bool
  | .recv _ none _ =>
      w.ctx.client.isNone || w.ctx.replyPending == 0 && !w.ctx.streamActive
  | .poll pcb =>
      w.ctx.client.isSome || !w.ctx.streamActive || lastAccepted w.net == some pcb
  | _ => true

/-- A polled connection has not been freed, so if it is the last one and its
stream is active, it is the client. -/
theorem Tidy.poll_client {pcb : Pcb} (hw : Tidy w)
    (hdelivered : delivered w (.poll pcb) = true)
    (hunhurried : unhurried w (.poll pcb) = true) (hnone : w.ctx.client = none) :
    w.ctx.streamActive = false := by
  by_contra hactive
  have hlast : lastAccepted w.net = some pcb := by
    simpa [unhurried, hnone, hactive] using hunhurried
  have hfree := hw.ended hnone (fun ha => hactive ha.right) pcb hlast
  simp [delivered, hfree] at hdelivered

theorem tidyStep_recv (hw : Tidy w) (p : Option (List Bytes)) (err : Err)
    (hunhurried : unhurried w (.recv cb.pcb p err) = true) :
    TidyStep w (recv P cb p err w) := by
  cases p with
  | none =>
      show TidyStep w (tryCloseClient P w).2
      cases hclient : w.ctx.client with
      | none => simpa [tryCloseClient, hclient] using TidyStep.refl hw
      | some pcb =>
          have hacked : Acked w := by simpa [unhurried, hclient, Acked] using hunhurried
          exact TidyStep.of_close hw hacked (PlainCalls.refl _)
  | some chain =>
      rw [recv]
      split
      · exact TidyStep.of_plain hw.abortClient (unclosing_abortClient P w).net
      · have htouch : Tidy (touch cb.now w) := hw.congr rfl rfl rfl rfl rfl
        refine (tidyStep_consumeAll htouch chain).after (PlainCalls.refl _) ?_
        exact (unclosing_consumeAll chain).net.lastAccepted

theorem Tidy.step {e : Nat × Event} (hw : Tidy w) (hdelivered : delivered w e.2 = true)
    (hunhurried : unhurried w e.2 = true) : TidyStep w (step P w e) := by
  rcases e with ⟨now, e⟩
  unfold Webflash.step
  split
  · exact TidyStep.refl hw
  · cases e with
    | accept pcb err => exact tidyStep_accept hw err (by simpa [delivered] using hdelivered)
    | recv pcb p err => exact tidyStep_recv hw p err hunhurried
    | sent pcb len => exact tidyStep_sent hw len
    | error pcb => exact tidyStep_tcpError
    | poll pcb => exact tidyStep_poll hw (hw.poll_client hdelivered hunhurried)
    | jobStep => exact tidyStep_jobStep hw now
    | bootTimer => exact tidyStep_bootTimer hw now
    | rebootTimer => exact tidyStep_rebootTimer hw now

theorem tidy_run {loadAddr : Nat} {ram : Nat -> UInt8} {ext : E}
    {events : List (Nat × Event)}
    (h : Runs.Along (Webflash.step P)
      (fun w e => delivered w e.2 = true ∧ unhurried w e.2 = true)
      (initial loadAddr ram ext) events) :
    Tidy (run P (initial loadAddr ram ext) events) := by
  refine Runs.invariant (fun w e he hw => (hw.step he.left he.right).tidy) h ?_
  exact ⟨fun hp => absurd hp (by simp [initial]), fun _ hc => absurd hc (by simp [initial]),
    fun _ hn => absurd ⟨rfl, rfl⟩ hn⟩

/-- A callback that continues an active stream, or a request that is handled:
the ways into `webflash_stream_fill`. -/
def streams (w : World E) (e : Event) : Bool :=
  match e with
  | .poll _ => w.ctx.streamActive
  | .sent pcb _ => w.ctx.client == some pcb && w.ctx.streamActive
  | e => (served w e).isSome

theorem Tidy.streams_client {e : Event} (hw : Tidy w) (hdelivered : delivered w e = true)
    (hunhurried : unhurried w e = true) (h : streams w e = true) :
    w.ctx.client.isSome := by
  cases e with
  | poll pcb =>
      rw [Option.isSome_iff_ne_none]
      intro hn
      have hidle := hw.poll_client hdelivered hunhurried hn
      rw [show w.ctx.streamActive = true from h] at hidle
      cases hidle
  | sent pcb len =>
      simp only [streams, Bool.and_eq_true, beq_iff_eq] at h
      rw [h.left]
      rfl
  | recv pcb p err =>
      by_contra hn
      have hnone : w.ctx.client = none := by simpa using hn
      have hserved : served w (.recv pcb p err) = none := by
        unfold served
        split
        · simp [hnone]
        · rfl
      simp [streams, hserved] at h
  | accept pcb err => simp [streams, served] at h
  | error pcb => simp [streams, served] at h
  | jobStep => simp [streams, served] at h
  | bootTimer => simp [streams, served] at h
  | rebootTimer => simp [streams, served] at h

/-- In every run that the TCP stack can deliver, if the peer ends its stream
only behind an acknowledged reply and older connections are not polled while the
stream of an aborted client is still marked active: a connection is closed only
when its reply is acknowledged, a client that is gone with its reply unfinished
has been freed by an abort, and no stream is continued without a client. -/
theorem close_after_acknowledgement (P : Platform E) (loadAddr : Nat)
    (ram : Nat -> UInt8) (ext : E) (events : List (Nat × Event))
    (hrun : Runs.Along (step P)
      (fun w e => delivered w e.2 = true ∧ unhurried w e.2 = true)
      (initial loadAddr ram ext) events) :
    forall before e after, events = before ++ e :: after ->
      let w := run P (initial loadAddr ram ext) before
      let w' := step P w e
      (forall new, w'.net = new ++ w.net -> forall pcb err, .close pcb err ∈ new ->
        w'.ctx.replyPending = 0 ∧ w'.ctx.streamActive = false) ∧
      (forall pcb, w.ctx.client = some pcb -> w'.ctx.client = none ->
        w'.ctx.replyPending = 0 ∧ w'.ctx.streamActive = false ∨
          connState w'.net pcb = .free) ∧
      (streams w e.2 = true -> w.ctx.client.isSome) := by
  rintro before e after rfl w w'
  rcases Runs.along_append.mp hrun with ⟨hbefore, ⟨hdelivered, hunhurried⟩, _⟩
  have hw : Tidy w := tidy_run hbefore
  have hstep : TidyStep w w' := hw.step hdelivered hunhurried
  refine ⟨?_, ?_, ?_⟩
  · intro new hnew pcb err hmem
    rcases hstep.closes with ⟨free, hfree, hnone⟩ | hacked
    · have hsame : new = free := List.append_cancel_right (hnew.symm.trans hfree)
      rw [hsame] at hmem
      exact absurd hmem (hnone pcb err)
    · exact hacked
  · intro pcb hsome hgone
    by_cases hacked : Acked w'
    · exact Or.inl hacked
    · refine Or.inr (hstep.tidy.ended hgone hacked pcb ?_)
      rw [hstep.last (by simp [hsome])]
      exact (hw.client pcb hsome).left
  · intro hstreams
    exact hw.streams_client hdelivered hunhurried hstreams

def jobQuery : List (Nat × Event) :=
  [(0, .accept 1 .ok), (0, .recv 1 (some [httpRequest "GET /api/job" []]) .ok)]

theorem jobQuery_closed_acknowledged :
    let w := run (norPlatform hlk7621a)
      (initial 0x83000000 (fun _ => 0) (fun _ => 0xff)) jobQuery
    let w' := step (norPlatform hlk7621a) w (1, .sent 1 65535)
    w.ctx.client = some 1 ∧ w'.ctx.client = none ∧
    forall new, w'.net = new ++ w.net -> forall pcb err, .close pcb err ∈ new ->
      w'.ctx.replyPending = 0 ∧ w'.ctx.streamActive = false :=
  ⟨by decide +kernel, by decide +kernel,
    (close_after_acknowledgement (norPlatform hlk7621a) 0x83000000 (fun _ => 0)
      (fun _ => 0xff) (jobQuery ++ [(1, .sent 1 65535)]) (by decide +kernel)
      jobQuery (1, .sent 1 65535) [] rfl).1⟩

/-- A client that half-closes behind its request is closed before it has
acknowledged a byte. -/
theorem half_close_cuts_reply :
    let w := run (norPlatform hlk7621a) hlk7621aStart jobQuery
    let e : Nat × Event := (1, .recv 1 none .ok)
    let w' := step (norPlatform hlk7621a) w e
    Runs.Along (step (norPlatform hlk7621a)) (fun w e => delivered w e.2 = true)
      hlk7621aStart (jobQuery ++ [e]) ∧
    w'.net = .close 1 .ok :: w.net ∧ w'.ctx.replyPending ≠ 0 := by
  decide +kernel

end Webflash
end Hlk7621
