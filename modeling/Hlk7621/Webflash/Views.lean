import Hlk7621.Webflash.Reply

/-!
# What a reply leaves alone

A reply changes the connection fields of the context and reaches the outside
through the TCP stack and, when a payload is streamed from flash, through flash
reads.  A view of the world that none of these steps changes is unchanged by
every reply.
-/

namespace Hlk7621
namespace Webflash

variable {E α : Type}

structure Kept (P : Platform E) (view : World E -> α) : Prop where
  abortClient : forall w, view (abortClient P w) = view w
  tcpWrite : forall pcb data w, view (tcpWrite P pcb data w).2 = view w
  tcpOutput : forall pcb w, view (tcpOutput P pcb w).2 = view w
  streamChunk : forall len w, view (streamChunk P len w).2.2 = view w
  streamAdvance : forall len w, view (streamAdvance len w) = view w
  replying : forall len body w, view (replying len body w) = view w
  faulted : forall w : World E, view { w with halted := some .fault } = view w
  streamed : forall w : World E,
    view { w with ctx := { w.ctx with streamActive := false } } = view w
  delayed : forall w : World E,
    view { w with ctx := { w.ctx with outputPending := true } } = view w

theorem kept_ext {P : Platform E} {view : E -> α}
    (hwrite : forall pcb data e, view (P.tcpWrite pcb data e).2 = view e)
    (houtput : forall pcb e, view (P.tcpOutput pcb e).2 = view e)
    (habort : forall pcb e, view (P.tcpAbort pcb e) = view e)
    (hread : forall off len e, view (P.spiFlashRead off len e).2.2 = view e) :
    Kept P fun w => view w.ext where
  abortClient w := by
    unfold abortClient
    split
    · rfl
    · by_cases hu : w.ctx.rxState = .upload
      · simp only [if_pos hu]
        exact habort _ _
      · simp only [if_neg hu]
        exact habort _ _
  tcpWrite _ _ _ := hwrite _ _ _
  tcpOutput _ _ := houtput _ _
  streamChunk len w := by
    unfold streamChunk
    split
    · exact hread _ _ _
    · rfl
  streamAdvance len w := by
    unfold streamAdvance
    split <;> rfl
  replying _ _ _ := rfl
  faulted _ := rfl
  streamed _ := rfl
  delayed _ := rfl

theorem kept_replyBuffer (P : Platform E) : Kept P fun w => w.ctx.reply where
  abortClient w := by
    unfold abortClient
    split
    · rfl
    · by_cases hu : w.ctx.rxState = .upload
      · simp only [if_pos hu]
        rfl
      · simp only [if_neg hu]
        rfl
  tcpWrite _ _ _ := rfl
  tcpOutput _ _ := rfl
  streamChunk len w := by
    unfold streamChunk
    split <;> rfl
  streamAdvance len w := by
    unfold streamAdvance
    split <;> rfl
  replying _ _ _ := rfl
  faulted _ := rfl
  streamed _ := rfl
  delayed _ := rfl

namespace Kept

variable {P : Platform E} {view : World E -> α} (hk : Kept P view)

include hk

theorem streamFillLoop (fuel : Nat) (w : World E) :
    view (streamFillLoop P fuel w).2 = view w := by
  induction fuel generalizing w with
  | zero => rfl
  | succ fuel ih =>
      rw [Webflash.streamFillLoop]
      split
      · rfl
      · split
        · exact hk.faulted w
        · rename_i pcb _
          split
          · rfl
          · dsimp only
            generalize min w.ctx.streamRemaining
              (min (P.tcpSndbuf pcb w.ext).toNat STREAM_CHUNK) = len
            have hchunk := hk.streamChunk len w
            have hwrite := (hk.tcpWrite pcb (Webflash.streamChunk P len w).2.1
              (Webflash.streamChunk P len w).2.2).trans hchunk
            split
            · exact hchunk
            · split
              · exact hwrite
              · split
                · exact hwrite
                · exact ((ih _).trans (hk.streamAdvance len _)).trans hwrite

theorem streamFill (w : World E) : view (streamFill P w).2 = view w := by
  have hloop := hk.streamFillLoop w.ctx.streamRemaining w
  unfold Webflash.streamFill
  dsimp only
  split
  · exact (hk.streamed _).trans hloop
  · exact hloop

theorem flushReply (pcb : Pcb) (w : World E) :
    view (flushReply P pcb w).2 = view w := by
  have hout := hk.tcpOutput pcb w
  unfold Webflash.flushReply
  dsimp only
  split
  · exact (hk.delayed _).trans hout
  · split
    · exact (hk.abortClient _).trans hout
    · exact hout

theorem reply (status type body : Bytes) (w : World E) :
    view (reply P status type body w).2 = view w := by
  unfold Webflash.reply
  split
  · rfl
  · rename_i pcb _
    dsimp only
    split
    · exact hk.abortClient w
    · generalize replyHeader status type body.length = header
      have hwrite := hk.tcpWrite pcb header w
      split
      · exact (hk.abortClient _).trans hwrite
      · have hfill := ((hk.streamFill _).trans
          (hk.replying header.length body _)).trans hwrite
        split
        · exact (hk.abortClient _).trans hfill
        · exact (hk.flushReply pcb _).trans hfill

end Kept

theorem replyText_buffer (P : Platform E) (status text : Bytes) (w : World E) :
    (replyText P status text w).2.ctx.reply = snprintf REPLY_SIZE text :=
  (kept_replyBuffer P).reply _ _ _ _

section

variable {P : Platform E} {view : E -> α} (hk : Kept P fun w => view w.ext)

include hk

theorem Kept.error (status message : String) (w : World E) :
    view (error P status message w).ext = view w.ext :=
  hk.reply _ _ _ _

theorem Kept.ok (message : String) (w : World E) :
    view (ok P message w).2.ext = view w.ext :=
  hk.reply _ _ _ _

end

end Webflash
end Hlk7621
