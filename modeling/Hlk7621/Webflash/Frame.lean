import Hlk7621.Webflash.Server

/-!
# What replying and closing leave alone

Everything the server does to end a connection, to send a reply or to stream a
payload is `Quiet`: the job, the upload, the RAM and the log stay as they are,
the request can only become answered, a valid upload can only become invalid
while its body is being received, and the client can only disappear.  It is a
`NetStep` if moreover a client that disappears has been closed or aborted.
-/

namespace Hlk7621
namespace Webflash

/-- The context without the fields that belong to the current connection and
to the reply under way. -/
def Ctx.core (ctx : Ctx) : Ctx :=
  { ctx with
    client := none
    lastActivity := 0
    replyPending := 0
    streamOffset := 0
    streamRemaining := 0
    streamMemory := []
    rxState := .headers
    action := .none
    uploadValid := false
    clientAborted := false
    outputPending := false
    closePending := false
    streamActive := false
    streamFromFlash := false
    keepConfig := false
    reply := []
    body := [] }

/-- A connection as the TCP stack sees it: a closed one is kept, with its
callbacks, until the stack frees it. -/
inductive ConnState where
  | free | opened | closing
  deriving DecidableEq, Repr

def connState : List NetCall -> Pcb -> ConnState
  | [], _ => .free
  | .accepted p :: net, pcb => if p = pcb then .opened else connState net pcb
  | .errored p :: net, pcb => if p = pcb then .free else connState net pcb
  | .abort p :: net, pcb => if p = pcb then .free else connState net pcb
  | .close p .ok :: net, pcb => if p = pcb then .closing else connState net pcb
  | _ :: net, pcb => connState net pcb

variable {E : Type}

structure Quiet (w w' : World E) : Prop where
  core : w'.ctx.core = w.ctx.core
  ram : w'.ram = w.ram
  log : w'.log = w.log
  rxState : w'.ctx.rxState = w.ctx.rxState ∨ w'.ctx.rxState = .replied
  uploadValid : w'.ctx.uploadValid = w.ctx.uploadValid ∨
    w.ctx.rxState = .upload ∧ w'.ctx.uploadValid = false
  client : w'.ctx.client = w.ctx.client ∨ w'.ctx.client = none

/-- The client and the connections are as before, or the client is gone and its
connection no longer open. -/
inductive ConnStep (w w' : World E) : Prop where
  | same (client : w'.ctx.client = w.ctx.client)
      (net : forall p, connState w'.net p = connState w.net p)
  | dropped (pcb : Pcb) (client : w.ctx.client = some pcb)
      (client' : w'.ctx.client = none)
      (ended : connState w'.net pcb ≠ .opened)
      (net : forall p, p ≠ pcb -> connState w'.net p = connState w.net p)

structure NetStep (w w' : World E) : Prop extends Quiet w w' where
  conn : ConnStep w w'

namespace Quiet

variable {w w' w'' : World E}

theorem trans (h : Quiet w w') (h' : Quiet w' w'') : Quiet w w'' where
  core := h'.core.trans h.core
  ram := h'.ram.trans h.ram
  log := h'.log.trans h.log
  rxState := by
    rcases h'.rxState with hs | hr
    · rw [hs]
      exact h.rxState
    · exact Or.inr hr
  uploadValid := by
    rcases h'.uploadValid with hs | ⟨hu, hf⟩
    · rw [hs]
      exact h.uploadValid
    · rcases h.rxState with hs | hr
      · exact Or.inr ⟨hs ▸ hu, hf⟩
      · rw [hr] at hu
        cases hu
  client := by
    rcases h'.client with hs | hn
    · rw [hs]
      exact h.client
    · exact Or.inr hn

/-- What a function of the context reads outside the connection fields is
kept. -/
theorem kept {α : Type} (h : Quiet w w') (f : Ctx -> α)
    (hf : forall ctx, f ctx.core = f ctx) : f w'.ctx = f w.ctx := by
  rw [<- hf w'.ctx, h.core, hf]

theorem job (h : Quiet w w') : w'.ctx.job = w.ctx.job :=
  h.kept Ctx.job (fun _ => rfl)

theorem uploadPart (h : Quiet w w') : w'.ctx.uploadPart = w.ctx.uploadPart :=
  h.kept Ctx.uploadPart (fun _ => rfl)

theorem header (h : Quiet w w') : w'.ctx.header = w.ctx.header :=
  h.kept Ctx.header (fun _ => rfl)

theorem loadAddr (h : Quiet w w') : w'.ctx.loadAddr = w.ctx.loadAddr :=
  h.kept Ctx.loadAddr (fun _ => rfl)

theorem uploadSize (h : Quiet w w') : w'.ctx.uploadSize = w.ctx.uploadSize :=
  h.kept Ctx.uploadSize (fun _ => rfl)

theorem contentLength (h : Quiet w w') :
    w'.ctx.contentLength = w.ctx.contentLength :=
  h.kept Ctx.contentLength (fun _ => rfl)

theorem completedAddr (h : Quiet w w') :
    w'.ctx.completedAddr = w.ctx.completedAddr :=
  h.kept Ctx.completedAddr (fun _ => rfl)

theorem completedSize (h : Quiet w w') :
    w'.ctx.completedSize = w.ctx.completedSize :=
  h.kept Ctx.completedSize (fun _ => rfl)

theorem uploadCrc (h : Quiet w w') : w'.ctx.uploadCrc = w.ctx.uploadCrc :=
  h.kept Ctx.uploadCrc (fun _ => rfl)

theorem imageKind (h : Quiet w w') : w'.ctx.imageKind = w.ctx.imageKind :=
  h.kept Ctx.imageKind (fun _ => rfl)

theorem rebootPending (h : Quiet w w') :
    w'.ctx.rebootPending = w.ctx.rebootPending :=
  h.kept Ctx.rebootPending (fun _ => rfl)

theorem bootPending (h : Quiet w w') :
    w'.ctx.bootPending = w.ctx.bootPending :=
  h.kept Ctx.bootPending (fun _ => rfl)

theorem jobActive (h : Quiet w w') :
    Webflash.jobActive w'.ctx = Webflash.jobActive w.ctx := by
  simp only [Webflash.jobActive, h.job]

theorem operationBlocked (h : Quiet w w') :
    Webflash.operationBlocked w'.ctx = Webflash.operationBlocked w.ctx := by
  simp only [Webflash.operationBlocked, h.jobActive, h.rebootPending,
    h.bootPending]

end Quiet

theorem ConnStep.trans {w w' w'' : World E} (h : ConnStep w w') (h' : ConnStep w' w'') :
    ConnStep w w'' := by
  cases h with
  | same client net =>
      cases h' with
      | same client' net' =>
          exact .same (client'.trans client) (fun p => (net' p).trans (net p))
      | dropped pcb hsome hnone ended net' =>
          exact .dropped pcb (client.symm.trans hsome) hnone ended
            (fun p hp => (net' p hp).trans (net p))
  | dropped pcb hsome hnone ended net =>
      cases h' with
      | same client' net' =>
          refine .dropped pcb hsome (client'.trans hnone) ?_
            (fun p hp => (net' p).trans (net p hp))
          rw [net' pcb]
          exact ended
      | dropped pcb' hsome' hnone' ended' net' =>
          rw [hnone] at hsome'
          cases hsome'

namespace NetStep

variable {w w' w'' : World E}

theorem refl (w : World E) : NetStep w w :=
  ⟨⟨rfl, rfl, rfl, Or.inl rfl, Or.inl rfl, Or.inl rfl⟩, .same rfl (fun _ => rfl)⟩

theorem trans (h : NetStep w w') (h' : NetStep w' w'') : NetStep w w'' :=
  ⟨h.toQuiet.trans h'.toQuiet, h.conn.trans h'.conn⟩

/-- A change of connection fields that keeps the state of the request, the
validity of the upload, the client and all connections. -/
theorem of_core (hcore : w'.ctx.core = w.ctx.core) (hram : w'.ram = w.ram)
    (hlog : w'.log = w.log) (hrx : w'.ctx.rxState = w.ctx.rxState)
    (hvalid : w'.ctx.uploadValid = w.ctx.uploadValid)
    (hclient : w'.ctx.client = w.ctx.client)
    (hnet : forall p, connState w'.net p = connState w.net p) : NetStep w w' :=
  ⟨⟨hcore, hram, hlog, Or.inl hrx, Or.inl hvalid, Or.inl hclient⟩,
    .same hclient hnet⟩

end NetStep

/-!
## Ending a connection
-/

variable (P : Platform E)

theorem netStep_abortClient (w : World E) : NetStep w (abortClient P w) := by
  unfold abortClient
  split
  · exact NetStep.refl w
  · rename_i pcb hclient
    have hnet : forall p, p ≠ pcb ->
        connState (.abort pcb :: w.net) p = connState w.net p :=
      fun p hp => if_neg (Ne.symm hp)
    have hended : connState (.abort pcb :: w.net) pcb ≠ .opened := by
      simp [connState]
    by_cases hu : w.ctx.rxState = .upload
    · simp only [if_pos hu]
      exact ⟨⟨rfl, rfl, rfl, Or.inl rfl, Or.inr ⟨hu, rfl⟩, Or.inr rfl⟩,
        .dropped pcb hclient rfl hended hnet⟩
    · simp only [if_neg hu]
      exact ⟨⟨rfl, rfl, rfl, Or.inl rfl, Or.inl rfl, Or.inr rfl⟩,
        .dropped pcb hclient rfl hended hnet⟩

theorem netStep_tryCloseClient (w : World E) :
    NetStep w (tryCloseClient P w).2 := by
  unfold tryCloseClient
  split
  · exact NetStep.refl w
  · rename_i pcb hclient
    rcases P.tcpClose pcb w.ext with ⟨err, ext⟩
    dsimp only
    have hclose : err ≠ .ok -> forall p,
        connState (.close pcb err :: w.net) p = connState w.net p := by
      intro herr p
      cases err with
      | ok => exact absurd rfl herr
      | _ => rfl
    split
    · rename_i herr
      refine ⟨⟨rfl, rfl, rfl, Or.inl rfl, Or.inl rfl, Or.inr rfl⟩,
        .dropped pcb hclient rfl ?_ ?_⟩
      · simp [connState, herr]
      · intro p hp
        rw [herr]
        exact if_neg (Ne.symm hp)
    · rename_i herr
      split
      · exact NetStep.of_core rfl rfl rfl rfl rfl rfl (hclose herr)
      · refine NetStep.trans ?_ (netStep_abortClient P _)
        exact NetStep.of_core rfl rfl rfl rfl rfl rfl (hclose herr)

/-!
## Streaming
-/

theorem netStep_tcpWrite (pcb : Pcb) (data : Bytes) (w : World E) :
    NetStep w (tcpWrite P pcb data w).2 :=
  NetStep.of_core rfl rfl rfl rfl rfl rfl (fun _ => rfl)

theorem netStep_tcpOutput (pcb : Pcb) (w : World E) :
    NetStep w (tcpOutput P pcb w).2 :=
  NetStep.of_core rfl rfl rfl rfl rfl rfl (fun _ => rfl)

theorem netStep_streamAdvance (len : Nat) (w : World E) :
    NetStep w (streamAdvance len w) := by
  unfold streamAdvance
  split
  · exact NetStep.of_core rfl rfl rfl rfl rfl rfl (fun _ => rfl)
  · exact NetStep.of_core rfl rfl rfl rfl rfl rfl (fun _ => rfl)

theorem netStep_streamChunk (len : Nat) (w : World E) :
    NetStep w (streamChunk P len w).2.2 := by
  unfold streamChunk
  split
  · exact NetStep.of_core rfl rfl rfl rfl rfl rfl (fun _ => rfl)
  · exact NetStep.refl w

theorem netStep_streamFillLoop (fuel : Nat) (w : World E) :
    NetStep w (streamFillLoop P fuel w).2 := by
  induction fuel generalizing w with
  | zero => exact NetStep.refl w
  | succ fuel ih =>
      rw [streamFillLoop]
      split
      · exact NetStep.refl w
      · split
        · exact NetStep.of_core rfl rfl rfl rfl rfl rfl (fun _ => rfl)
        · rename_i pcb _
          split
          · exact NetStep.refl w
          · dsimp only
            generalize min w.ctx.streamRemaining
              (min (P.tcpSndbuf pcb w.ext).toNat STREAM_CHUNK) = len
            have hchunk := netStep_streamChunk P len w
            have hwrite := hchunk.trans
              (netStep_tcpWrite P pcb (streamChunk P len w).2.1 _)
            split
            · exact hchunk
            · split
              · exact hwrite
              · split
                · exact hwrite
                · exact (hwrite.trans (netStep_streamAdvance len _)).trans (ih _)

theorem netStep_streamFill (w : World E) : NetStep w (streamFill P w).2 := by
  have hloop := netStep_streamFillLoop P w.ctx.streamRemaining w
  unfold streamFill
  dsimp only
  split
  · exact hloop.trans (NetStep.of_core rfl rfl rfl rfl rfl rfl (fun _ => rfl))
  · exact hloop

/-!
## Replies and downloads
-/

theorem netStep_replying (headerLen : Nat) (body : Bytes) (w : World E) :
    NetStep w (replying headerLen body w) :=
  ⟨⟨rfl, rfl, rfl, Or.inr rfl, Or.inl rfl, Or.inl rfl⟩, .same rfl (fun _ => rfl)⟩

theorem netStep_downloading (headerLen offset size : Nat) (w : World E) :
    NetStep w (downloading headerLen offset size w) :=
  ⟨⟨rfl, rfl, rfl, Or.inr rfl, Or.inl rfl, Or.inl rfl⟩, .same rfl (fun _ => rfl)⟩

theorem netStep_flushReply (pcb : Pcb) (w : World E) :
    NetStep w (flushReply P pcb w).2 := by
  have hout := netStep_tcpOutput P pcb w
  unfold flushReply
  dsimp only
  split
  · exact hout.trans (NetStep.of_core rfl rfl rfl rfl rfl rfl (fun _ => rfl))
  · split
    · exact hout.trans (netStep_abortClient P _)
    · exact hout

theorem netStep_reply (status type body : Bytes) (w : World E) :
    NetStep w (reply P status type body w).2 := by
  unfold reply
  split
  · exact NetStep.refl w
  · rename_i pcb _
    dsimp only
    split
    · exact netStep_abortClient P w
    · generalize replyHeader status type body.length = header
      have hwrite := netStep_tcpWrite P pcb header w
      split
      · exact hwrite.trans (netStep_abortClient P _)
      · have hfill := (hwrite.trans
          (netStep_replying header.length body _)).trans (netStep_streamFill P _)
        split
        · exact hfill.trans (netStep_abortClient P _)
        · exact hfill.trans (netStep_flushReply P pcb _)

theorem netStep_replyText (status text : Bytes) (w : World E) :
    NetStep w (replyText P status text w).2 := by
  refine NetStep.trans ?_ (netStep_reply P _ _ _ _)
  exact NetStep.of_core rfl rfl rfl rfl rfl rfl (fun _ => rfl)

theorem netStep_error (status message : String) (w : World E) :
    NetStep w (error P status message w) :=
  netStep_replyText P _ _ w

theorem netStep_ok (message : String) (w : World E) :
    NetStep w (ok P message w).2 :=
  netStep_replyText P _ _ w

theorem netStep_sendDownload (offset size : Nat) (filename : Bytes)
    (w : World E) : NetStep w (sendDownload P offset size filename w).2 := by
  unfold sendDownload
  split
  · exact NetStep.of_core rfl rfl rfl rfl rfl rfl (fun _ => rfl)
  · rename_i pcb _
    dsimp only
    split
    · exact NetStep.refl w
    · generalize downloadHeader filename size = header
      have hwrite := netStep_tcpWrite P pcb header w
      split
      · exact hwrite.trans (netStep_abortClient P _)
      · have hfill := (hwrite.trans
          (netStep_downloading header.length offset size _)).trans
          (netStep_streamFill P _)
        split
        · exact hfill.trans (netStep_abortClient P _)
        · exact hfill.trans (netStep_flushReply P pcb _)

/-!
## Outcome of a reply

A reply to a connected client either answers the request or aborts the
connection, and an abort in the middle of an upload invalidates it.
-/

theorem abortClient_of_some {w : World E} {pcb : Pcb}
    (hc : w.ctx.client = some pcb) :
    (abortClient P w).ctx.client = none ∧
      ((abortClient P w).ctx.rxState = .upload ->
        (abortClient P w).ctx.uploadValid = false) := by
  unfold abortClient
  simp only [hc]
  by_cases hu : w.ctx.rxState = .upload
  · simp [hu, detachClient]
  · simp [hu, detachClient]

theorem NetStep.rxState_replied {w w' : World E} (h : NetStep w w')
    (hr : w.ctx.rxState = .replied) : w'.ctx.rxState = .replied := by
  rcases h.rxState with hs | hs
  · rw [hs, hr]
  · exact hs

theorem reply_outcome {w : World E} {pcb : Pcb} (status type body : Bytes)
    (hc : w.ctx.client = some pcb) :
    (reply P status type body w).2.ctx.rxState = .replied ∨
      (reply P status type body w).1 ≠ 0 ∧
      (reply P status type body w).2.ctx.client = none ∧
      ((reply P status type body w).2.ctx.rxState = .upload ->
        (reply P status type body w).2.ctx.uploadValid = false) := by
  unfold reply
  simp only [hc]
  split
  · exact Or.inr ⟨by simp [EOVERFLOW], abortClient_of_some P hc⟩
  · generalize replyHeader status type body.length = header
    split
    · exact Or.inr ⟨by simp [ EIO], abortClient_of_some P hc⟩
    · left
      have hfill : (streamFill P (replying header.length body
          (tcpWrite P pcb header w).2)).2.ctx.rxState = .replied :=
        (netStep_streamFill P _).rxState_replied rfl
      split
      · exact (netStep_abortClient P _).rxState_replied hfill
      · exact (netStep_flushReply P pcb _).rxState_replied hfill

theorem replyText_outcome {w : World E} {pcb : Pcb} (status text : Bytes)
    (hc : w.ctx.client = some pcb) :
    (replyText P status text w).2.ctx.rxState = .replied ∨
      (replyText P status text w).1 ≠ 0 ∧
      (replyText P status text w).2.ctx.client = none ∧
      ((replyText P status text w).2.ctx.rxState = .upload ->
        (replyText P status text w).2.ctx.uploadValid = false) :=
  reply_outcome P _ _ _ hc

theorem reply_success {w : World E} {status type body : Bytes}
    (h : (reply P status type body w).1 = 0) :
    (reply P status type body w).2.ctx.rxState = .replied := by
  cases hc : w.ctx.client with
  | none =>
      rw [reply, hc] at h
      cases h
  | some pcb =>
      rcases reply_outcome P status type body hc with hr | ⟨hne, _⟩
      · exact hr
      · exact absurd h hne

theorem replyText_success {w : World E} {status text : Bytes}
    (h : (replyText P status text w).1 = 0) :
    (replyText P status text w).2.ctx.rxState = .replied :=
  reply_success P h

theorem sendDownload_success {w : World E} {offset size : Nat}
    {filename : Bytes} (h : (sendDownload P offset size filename w).1 = 0) :
    (sendDownload P offset size filename w).2.ctx.rxState = .replied := by
  unfold sendDownload at h ⊢
  split
  · rename_i hc
    simp only [hc] at h
    cases h
  · rename_i pcb hc
    simp only [hc] at h
    dsimp only at h ⊢
    split at h
    · cases h
    · rename_i hlen
      rw [if_neg hlen]
      generalize downloadHeader filename size = header at h ⊢
      split at h
      · cases h
      · rename_i hwrite
        rw [if_neg hwrite]
        split at h
        · cases h
        · rename_i hfill
          rw [if_neg hfill]
          exact (netStep_flushReply P pcb _).rxState_replied
            ((netStep_streamFill P _).rxState_replied rfl)

end Webflash
end Hlk7621
