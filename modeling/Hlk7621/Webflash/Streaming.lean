import Hlk7621.Webflash.Isolation
import Hlk7621.Webflash.Layout

/-!
# Delivery of replies

A reply is a header followed by a payload, which comes from memory or from the
flash.  The header is handed to the TCP stack at once and the payload in pieces,
whenever the stack has room.  However these pieces are cut, what has been handed
over is a prefix of the reply.
-/

namespace Hlk7621
namespace Webflash

variable {E : Type}

def handedOver (pcb : Pcb) : List NetCall -> Bytes
  | [] => []
  | .write p data .ok :: net =>
      if p = pcb then handedOver pcb net ++ data else handedOver pcb net
  | _ :: net => handedOver pcb net

/-- A read that succeeds returns the contents of the flash, and neither reads
nor the TCP stack change them. -/
structure SteadyFlash (P : Platform E) (flash : E -> Nat -> UInt8) : Prop where
  read (off len : Nat) (e : E) (hfit : off + len ≤ P.flashSize)
    (hret : (P.spiFlashRead off len e).1 = 0) :
    window (P.spiFlashRead off len e).2.1 0 len = window (flash e) off len
  read_keeps (off len : Nat) (e : E) : flash (P.spiFlashRead off len e).2.2 = flash e
  write_keeps (pcb : Pcb) (data : Bytes) (e : E) :
    flash (P.tcpWrite pcb data e).2 = flash e
  output_keeps (pcb : Pcb) (e : E) : flash (P.tcpOutput pcb e).2 = flash e

def pendingPayload (mem : Nat -> UInt8) (ctx : Ctx) : Bytes :=
  if ctx.streamFromFlash then window mem ctx.streamOffset ctx.streamRemaining
  else ctx.streamMemory

structure Streams (P : Platform E) (flash : E -> Nat -> UInt8) (pcb : Pcb)
    (base total : Bytes) (w : World E) : Prop where
  client : w.ctx.client = some pcb
  answered : w.ctx.rxState = .replied
  started : exists s, handedOver pcb w.net = base ++ s
  handed : handedOver pcb w.net ++ pendingPayload (flash w.ext) w.ctx = base ++ total
  remaining : (pendingPayload (flash w.ext) w.ctx).length = w.ctx.streamRemaining
  fits : w.ctx.streamFromFlash = true ->
    w.ctx.streamOffset + w.ctx.streamRemaining ≤ P.flashSize
  active : w.ctx.streamRemaining ≠ 0 -> w.ctx.streamActive = true

/-!
## Filling the send buffer
-/

section

variable {P : Platform E} {flash : E -> Nat -> UInt8} {pcb : Pcb}
  {base total : Bytes} {w : World E}

theorem handedOver_write (data : Bytes) (err : Err) (net : List NetCall) :
    handedOver pcb (.write pcb data err :: net) =
      if err = .ok then handedOver pcb net ++ data else handedOver pcb net := by
  cases err <;> simp [handedOver]

theorem handedOver_tcpWrite (P : Platform E) (pcb : Pcb) (w : World E) (data : Bytes) :
    handedOver pcb (tcpWrite P pcb data w).2.net =
      if (tcpWrite P pcb data w).1 = .ok then handedOver pcb w.net ++ data
      else handedOver pcb w.net :=
  handedOver_write data _ _

theorem streamChunk_spec (hflash : SteadyFlash P flash)
    (hw : Streams P flash pcb base total w) {len : Nat}
    (hlen : len ≤ w.ctx.streamRemaining) :
    (streamChunk P len w).2.2.ctx = w.ctx ∧ (streamChunk P len w).2.2.net = w.net ∧
      flash (streamChunk P len w).2.2.ext = flash w.ext ∧
      ((streamChunk P len w).1 = 0 ->
        (streamChunk P len w).2.1 = (pendingPayload (flash w.ext) w.ctx).take len) := by
  unfold streamChunk
  by_cases hsource : w.ctx.streamFromFlash = true
  · have hfits := hw.fits hsource
    rw [if_pos hsource]
    refine ⟨rfl, rfl, hflash.read_keeps _ _ _, fun hret => ?_⟩
    dsimp only at hret ⊢
    rw [hflash.read _ _ _ (by lia) hret, pendingPayload, if_pos hsource]
    have hslice := window_slice (flash w.ext) w.ctx.streamOffset
      (show 0 + len ≤ w.ctx.streamRemaining by lia)
    simpa using hslice.symm
  · rw [if_neg hsource]
    refine ⟨rfl, rfl, rfl, fun _ => ?_⟩
    rw [pendingPayload, if_neg hsource]

structure SameReply (w w' : World E) : Prop where
  client : w'.ctx.client = w.ctx.client
  answered : w'.ctx.rxState = w.ctx.rxState
  replyPending : w'.ctx.replyPending = w.ctx.replyPending
  closePending : w'.ctx.closePending = w.ctx.closePending
  streamActive : w'.ctx.streamActive = w.ctx.streamActive
  source : w'.ctx.streamFromFlash = w.ctx.streamFromFlash
  remaining : w'.ctx.streamRemaining ≤ w.ctx.streamRemaining

theorem SameReply.of_ctx {w' : World E} (h : w'.ctx = w.ctx) : SameReply w w' := by
  refine ⟨?_, ?_, ?_, ?_, ?_, ?_, Nat.le_of_eq ?_⟩ <;> rw [h]

theorem SameReply.trans {w' w'' : World E} (h : SameReply w w') (h' : SameReply w' w'') :
    SameReply w w'' :=
  ⟨h'.client.trans h.client, h'.answered.trans h.answered,
    h'.replyPending.trans h.replyPending, h'.closePending.trans h.closePending,
    h'.streamActive.trans h.streamActive, h'.source.trans h.source,
    Nat.le_trans h'.remaining h.remaining⟩

theorem streamAdvance_spec (mem : Nat -> UInt8) {len : Nat}
    (hsize : P.flashSize < 2 ^ 32) (hlen : len ≤ w.ctx.streamRemaining)
    (hfits : w.ctx.streamFromFlash = true ->
      w.ctx.streamOffset + w.ctx.streamRemaining ≤ P.flashSize) :
    SameReply w (streamAdvance len w) ∧ (streamAdvance len w).net = w.net ∧
      (streamAdvance len w).ext = w.ext ∧
      (streamAdvance len w).ctx.streamRemaining = w.ctx.streamRemaining - len ∧
      (w.ctx.streamFromFlash = true ->
        (streamAdvance len w).ctx.streamOffset = w.ctx.streamOffset + len) ∧
      pendingPayload mem (streamAdvance len w).ctx =
        (pendingPayload mem w.ctx).drop len := by
  unfold streamAdvance pendingPayload
  by_cases hsource : w.ctx.streamFromFlash = true
  · have := hfits hsource
    rw [if_pos hsource]
    refine ⟨⟨rfl, rfl, rfl, rfl, rfl, rfl, Nat.sub_le _ _⟩, rfl, rfl, rfl,
      fun _ => u32_of_lt (by lia), ?_⟩
    dsimp only
    rw [if_pos hsource, if_pos hsource, u32_of_lt (by lia)]
    have hslice := window_slice mem w.ctx.streamOffset
      (show len + (w.ctx.streamRemaining - len) ≤ w.ctx.streamRemaining by lia)
    rw [<- hslice, List.take_of_length_le (by simp)]
  · rw [if_neg hsource]
    refine ⟨⟨rfl, rfl, rfl, rfl, rfl, rfl, Nat.sub_le _ _⟩, rfl, rfl, rfl,
      fun h => absurd h hsource, ?_⟩
    dsimp only
    rw [if_neg hsource, if_neg hsource]

theorem Streams.advance {w' : World E} (hw : Streams P flash pcb base total w)
    {len : Nat} (hsize : P.flashSize < 2 ^ 32) (hlen : len ≤ w.ctx.streamRemaining)
    {data : Bytes} (hdata : data = (pendingPayload (flash w.ext) w.ctx).take len)
    (hctx : w'.ctx = w.ctx) (hext : flash w'.ext = flash w.ext)
    (hnet : w'.net = .write pcb data .ok :: w.net) :
    Streams P flash pcb base total (streamAdvance len w') := by
  have hfits : w'.ctx.streamFromFlash = true ->
      w'.ctx.streamOffset + w'.ctx.streamRemaining ≤ P.flashSize := by
    rw [hctx]
    exact hw.fits
  have hlen' : len ≤ w'.ctx.streamRemaining := by
    rw [hctx]
    exact hlen
  rcases streamAdvance_spec (flash w.ext) hsize hlen' hfits with
    ⟨hsame, hnet', hext', hremaining, hoffset, hpending⟩
  rw [hctx] at hremaining hpending hoffset
  have hhanded : handedOver pcb (streamAdvance len w').net =
      handedOver pcb w.net ++ data := by
    rw [hnet', hnet, handedOver_write, if_pos rfl]
  have hrest : pendingPayload (flash (streamAdvance len w').ext) (streamAdvance len w').ctx =
      (pendingPayload (flash w.ext) w.ctx).drop len := by
    rw [hext', hext, hpending]
  refine ⟨?_, ?_, ?_, ?_, ?_, ?_, ?_⟩
  · rw [hsame.client, hctx]
    exact hw.client
  · rw [hsame.answered, hctx]
    exact hw.answered
  · rcases hw.started with ⟨s, hs⟩
    exact ⟨s ++ data, by rw [hhanded, hs, List.append_assoc]⟩
  · rw [hhanded, hrest, hdata, List.append_assoc, List.take_append_drop]
    exact hw.handed
  · rw [hrest, List.length_drop, hw.remaining, hremaining]
  · intro hsource
    rw [hsame.source, hctx] at hsource
    have := hw.fits hsource
    rw [hoffset hsource, hremaining]
    lia
  · intro hne
    rw [hsame.streamActive, hctx]
    exact hw.active (by lia)

theorem Streams.congr {w' : World E} (hw : Streams P flash pcb base total w)
    (hctx : w'.ctx = w.ctx) (hext : flash w'.ext = flash w.ext)
    (hnet : handedOver pcb w'.net = handedOver pcb w.net) :
    Streams P flash pcb base total w' := by
  refine ⟨?_, ?_, ?_, ?_, ?_, ?_, ?_⟩
  · rw [hctx]
    exact hw.client
  · rw [hctx]
    exact hw.answered
  · rw [hnet]
    exact hw.started
  · rw [hnet, hctx, hext]
    exact hw.handed
  · rw [hctx, hext]
    exact hw.remaining
  · rw [hctx]
    exact hw.fits
  · rw [hctx]
    exact hw.active

theorem streams_fillLoop (hflash : SteadyFlash P flash) (fuel : Nat)
    (hw : Streams P flash pcb base total w) :
    Streams P flash pcb base total (streamFillLoop P fuel w).2 ∧
      SameReply w (streamFillLoop P fuel w).2 := by
  have hsize : P.flashSize < 2 ^ 32 := Nat.lt_of_le_of_lt P.flashSize_le (by decide)
  induction fuel generalizing w with
  | zero => exact ⟨hw, SameReply.of_ctx rfl⟩
  | succ fuel ih =>
      rw [streamFillLoop]
      split
      · exact ⟨hw, SameReply.of_ctx rfl⟩
      · simp only [hw.client]
        split
        · exact ⟨hw, SameReply.of_ctx rfl⟩
        · generalize hlen : min w.ctx.streamRemaining
            (min (P.tcpSndbuf pcb w.ext).toNat STREAM_CHUNK) = len
          have hle : len ≤ w.ctx.streamRemaining := by
            rw [<- hlen]
            exact Nat.min_le_left _ _
          rcases streamChunk_spec hflash hw hle with ⟨hctx, hnet, hext, hdata⟩
          generalize streamChunk P len w = chunk at *
          split
          · exact ⟨hw.congr hctx hext (by rw [hnet]), SameReply.of_ctx hctx⟩
          · rename_i hret
            have hdata := hdata (not_not.mp hret)
            have hctx' : (tcpWrite P pcb chunk.2.1 chunk.2.2).2.ctx = w.ctx := hctx
            have hext' : flash (tcpWrite P pcb chunk.2.1 chunk.2.2).2.ext = flash w.ext :=
              (hflash.write_keeps _ _ _).trans hext
            have hnet' : (tcpWrite P pcb chunk.2.1 chunk.2.2).2.net =
                .write pcb chunk.2.1 (tcpWrite P pcb chunk.2.1 chunk.2.2).1 :: w.net := by
              rw [<- hnet]
              rfl
            generalize tcpWrite P pcb chunk.2.1 chunk.2.2 = r at *
            have hsame : SameReply w r.2 := SameReply.of_ctx hctx'
            have hrefused : r.1 ≠ .ok -> Streams P flash pcb base total r.2 := by
              intro herr
              refine hw.congr hctx' hext' ?_
              rw [hnet', handedOver_write, if_neg herr]
            split
            · rename_i herr
              exact ⟨hrefused (by rw [herr]; decide), hsame⟩
            · split
              · rename_i herr
                exact ⟨hrefused herr, hsame⟩
              · rename_i herr
                rw [not_not.mp herr] at hnet'
                have hnext := hw.advance hsize hle hdata hctx' hext' hnet'
                have hloop := ih hnext
                refine ⟨hloop.left, (hsame.trans ?_).trans hloop.right⟩
                refine (streamAdvance_spec (P := P) (flash w.ext) hsize ?_ ?_).left
                · rw [hctx']
                  exact hle
                · rw [hctx']
                  exact hw.fits

theorem streams_streamFill (hflash : SteadyFlash P flash)
    (hw : Streams P flash pcb base total w) :
    Streams P flash pcb base total (streamFill P w).2 ∧
      (streamFill P w).2.ctx.replyPending = w.ctx.replyPending ∧
      (streamFill P w).2.ctx.streamRemaining ≤ w.ctx.streamRemaining ∧
      ((streamFill P w).1 = 0 -> (streamFill P w).2.ctx.streamRemaining = 0 ->
        (streamFill P w).2.ctx.streamActive = false) := by
  rcases streams_fillLoop hflash w.ctx.streamRemaining hw with ⟨hloop, hsame⟩
  unfold streamFill
  generalize streamFillLoop P w.ctx.streamRemaining w = r at *
  dsimp only
  split
  · rename_i hdone
    refine ⟨⟨hloop.client, hloop.answered, hloop.started, hloop.handed, hloop.remaining,
      hloop.fits, fun hne => absurd hdone.right hne⟩, hsame.replyPending,
      hsame.remaining, fun _ _ => rfl⟩
  · rename_i hmore
    exact ⟨hloop, hsame.replyPending, hsame.remaining,
      fun hret hzero => absurd ⟨hret, hzero⟩ hmore⟩

end

/-!
## The connection until it ends
-/

/-- The reply `total` on the connection `pcb`, of which `acked` bytes have been
acknowledged: it is under way, or the connection was closed behind it, or it was
aborted. -/
inductive Delivery (P : Platform E) (flash : E -> Nat -> UInt8) (pcb : Pcb)
    (base total : Bytes) (acked : Nat) (w : World E) : Prop where
  | serving (streams : Streams P flash pcb base total w)
      (done : w.ctx.streamRemaining = 0 -> w.ctx.streamActive = false)
      (pending : w.ctx.replyPending + acked = total.length) :
      Delivery P flash pcb base total acked w
  | closed (client : w.ctx.client = none) (inactive : w.ctx.streamActive = false)
      (handed : handedOver pcb w.net = base ++ total) :
      Delivery P flash pcb base total acked w
  | aborted (client : w.ctx.client = none) (free : connState w.net pcb = .free)
      (handed : exists s rest, handedOver pcb w.net = base ++ s ∧ s ++ rest = total) :
      Delivery P flash pcb base total acked w

section

variable {P : Platform E} {flash : E -> Nat -> UInt8} {pcb : Pcb}
  {base total : Bytes} {acked : Nat} {w : World E}

theorem Streams.prefix_of_total (hw : Streams P flash pcb base total w) :
    exists s rest, handedOver pcb w.net = base ++ s ∧ s ++ rest = total := by
  rcases hw.started with ⟨s, hs⟩
  have hhanded := hw.handed
  rw [hs, List.append_assoc] at hhanded
  exact ⟨s, _, hs, List.append_cancel_left hhanded⟩

theorem abortClient_spec (hclient : w.ctx.client = some pcb) :
    (abortClient P w).ctx.client = none ∧
      (abortClient P w).net = .abort pcb :: w.net := by
  unfold abortClient
  rw [hclient]
  dsimp only
  split
  · exact ⟨rfl, rfl⟩
  · exact ⟨rfl, rfl⟩

theorem abortClient_remaining (w : World E) :
    (abortClient P w).ctx.streamRemaining = w.ctx.streamRemaining := by
  unfold abortClient
  split
  · rfl
  · dsimp only
    split
    · rfl
    · rfl

theorem Delivery.of_abort (hclient : w.ctx.client = some pcb)
    (hhanded : exists s rest, handedOver pcb w.net = base ++ s ∧ s ++ rest = total) :
    Delivery P flash pcb base total acked (abortClient P w) := by
  rcases abortClient_spec (P := P) hclient with ⟨hnone, hnet⟩
  refine .aborted hnone ?_ ?_
  · rw [hnet]
    simp [connState]
  · rw [hnet]
    exact hhanded

theorem abortClient_of_none (h : w.ctx.client = none) : abortClient P w = w := by
  unfold abortClient
  rw [h]

theorem Streams.pending_nil (hw : Streams P flash pcb base total w)
    (hdone : w.ctx.streamActive = false) (mem : Nat -> UInt8) :
    pendingPayload mem w.ctx = [] := by
  have hzero : w.ctx.streamRemaining = 0 := by
    by_contra hne
    rw [hw.active hne] at hdone
    cases hdone
  have hlength := hw.remaining
  unfold pendingPayload at hlength ⊢
  rw [hzero] at hlength ⊢
  split
  · rfl
  · rename_i hsource
    rw [if_neg hsource] at hlength
    exact List.length_eq_zero_iff.mp hlength

theorem Delivery.of_tryClose (hw : Streams P flash pcb base total w)
    (hdone : w.ctx.streamActive = false) (hpending : w.ctx.replyPending + acked = total.length) :
    Delivery P flash pcb base total acked (tryCloseClient P w).2 := by
  have hall : handedOver pcb w.net = base ++ total := by
    rw [<- hw.handed, hw.pending_nil hdone, List.append_nil]
  unfold tryCloseClient
  rw [hw.client]
  dsimp only
  split
  · exact .closed rfl hdone hall
  · split
    · have hnil := hw.pending_nil hdone
      refine .serving ⟨hw.client, hw.answered, ⟨total, hall⟩, ?_, ?_, hw.fits, hw.active⟩
        (fun _ => hdone) hpending
      · show handedOver pcb w.net ++ pendingPayload _ w.ctx = base ++ total
        rw [hnil, List.append_nil, hall]
      · show (pendingPayload _ w.ctx).length = w.ctx.streamRemaining
        have hlength := hw.remaining
        rw [hnil] at hlength ⊢
        exact hlength
    · exact Delivery.of_abort hw.client ⟨total, [], hall, List.append_nil _⟩

theorem Streams.output (hflash : SteadyFlash P flash)
    (hw : Streams P flash pcb base total w) (flag : Bool) :
    Streams P flash pcb base total (tcpOutput P pcb w).2 ∧
    Streams P flash pcb base total { (tcpOutput P pcb w).2 with
      ctx := { (tcpOutput P pcb w).2.ctx with outputPending := flag } } := by
  have hnet : handedOver pcb (tcpOutput P pcb w).2.net = handedOver pcb w.net := rfl
  have hout : Streams P flash pcb base total (tcpOutput P pcb w).2 :=
    hw.congr rfl (hflash.output_keeps _ _) hnet
  exact ⟨hout, hout.client, hout.answered, hout.started, hout.handed, hout.remaining,
    hout.fits, hout.active⟩

theorem Delivery.of_flushReply (hflash : SteadyFlash P flash)
    (hw : Streams P flash pcb base total w)
    (hdone : w.ctx.streamRemaining = 0 -> w.ctx.streamActive = false)
    (hpending : w.ctx.replyPending + acked = total.length) :
    Delivery P flash pcb base total acked (flushReply P pcb w).2 := by
  have hout := hw.output hflash true
  unfold flushReply
  dsimp only
  split
  · exact .serving hout.right hdone hpending
  · split
    · exact Delivery.of_abort hout.left.client hout.left.prefix_of_total
    · exact .serving hout.left hdone hpending

/-!
## The start of a reply
-/

theorem Delivery.of_started {w1 : World E} (hflash : SteadyFlash P flash)
    (hw : Streams P flash pcb base total w1)
    (hpending : w1.ctx.replyPending = total.length) :
    Delivery P flash pcb base total 0
      (if (streamFill P w1).1 ≠ 0 then (- EIO, abortClient P (streamFill P w1).2)
        else flushReply P pcb (streamFill P w1).2).2 := by
  rcases streams_streamFill hflash hw with ⟨hfill, hreply, _, hdone⟩
  split
  · exact Delivery.of_abort hfill.client hfill.prefix_of_total
  · rename_i hret
    refine Delivery.of_flushReply hflash hfill (hdone (not_not.mp hret)) ?_
    rw [hreply, hpending, Nat.add_zero]

theorem delivery_reply (hflash : SteadyFlash P flash) (hclient : w.ctx.client = some pcb)
    (status type body : Bytes) :
    Delivery P flash pcb (handedOver pcb w.net)
      (replyHeader status type body.length ++ body) 0 (reply P status type body w).2 := by
  unfold reply
  rw [hclient]
  dsimp only
  have habort : forall v : World E, v.ctx.client = some pcb ->
      handedOver pcb v.net = handedOver pcb w.net ->
      Delivery P flash pcb (handedOver pcb w.net)
        (replyHeader status type body.length ++ body) 0 (abortClient P v) :=
    fun v hv hnet => Delivery.of_abort hv
      ⟨[], replyHeader status type body.length ++ body, by rw [hnet, List.append_nil], rfl⟩
  split
  · exact habort w hclient rfl
  · generalize replyHeader status type body.length = header at *
    have hwrite := handedOver_tcpWrite P pcb w header
    split
    · rename_i herr
      rw [if_neg herr] at hwrite
      exact habort _ hclient hwrite
    · rename_i herr
      rw [if_pos (not_not.mp herr)] at hwrite
      refine Delivery.of_started hflash ?_ (List.length_append).symm
      refine ⟨hclient, rfl, ⟨header, hwrite⟩, ?_, rfl, fun h => absurd h (by simp [replying]), ?_⟩
      · show handedOver pcb (tcpWrite P pcb header w).2.net ++ body = _
        rw [hwrite, List.append_assoc]
      · intro hne
        simpa [replying] using hne

def downloadRange (B : Board) (name : Bytes) : Option (Nat × Nat × Bytes) :=
  if name = str "fullflash" then some (0, B.flashSize, str "hlk-7621a-fullflash.bin")
  else
    (B.partitions.find? (fun part => part.name = name)).map
      (fun part => (part.offset, part.size, part.filename))

def downloads (B : Board) : List (Nat × Nat × Bytes) :=
  (0, B.flashSize, str "hlk-7621a-fullflash.bin") ::
    B.partitions.map (fun part => (part.offset, part.size, part.filename))

theorem downloadRange_mem {B : Board} {name : Bytes} {range : Nat × Nat × Bytes}
    (h : downloadRange B name = some range) : range ∈ downloads B := by
  unfold downloadRange at h
  split at h
  · cases h
    exact List.mem_cons_self
  · rcases Option.map_eq_some_iff.mp h with ⟨part, hfind, rfl⟩
    exact List.mem_cons_of_mem _ (List.mem_map_of_mem (List.mem_of_find?_eq_some hfind))

theorem startDownload_eq {name : Bytes} {offset size : Nat} {filename : Bytes}
    (hfree : operationBlocked w.ctx = false)
    (hrange : downloadRange P.toBoard name = some (offset, size, filename)) :
    startDownload P name w = sendDownload P offset size filename w := by
  unfold startDownload
  rw [hfree]
  unfold downloadRange at hrange
  split at hrange
  · rename_i hname
    cases hrange
    simp [hname]
  · rename_i hname
    rcases Option.map_eq_some_iff.mp hrange with ⟨part, hfind, hpart⟩
    have hmem := List.mem_of_find?_eq_some hfind
    have hnamed : part.name = name := by simpa using List.find?_some hfind
    have hfound : P.partitionFind name = some part := by
      unfold Board.partitionFind
      have hother : name ≠ str "eeprom" ∧ name ≠ str "ram" := by
        simp only [Board.partitions, List.mem_cons, List.not_mem_nil, or_false] at hmem
        rw [<- hnamed]
        rcases hmem with rfl | rfl | rfl | rfl
        · exact (by decide : str "uboot" ≠ str "eeprom" ∧ str "uboot" ≠ str "ram")
        · exact (by decide : str "environment" ≠ str "eeprom" ∧
            str "environment" ≠ str "ram")
        · exact (by decide : str "factory" ≠ str "eeprom" ∧ str "factory" ≠ str "ram")
        · exact (by decide : str "firmware" ≠ str "eeprom" ∧ str "firmware" ≠ str "ram")
      rw [if_neg hother.left, if_neg hother.right]
      exact hfind
    cases hpart
    simp [hname, hfound]

theorem fmtDec_length_le {n k : Nat} (hk : 0 < k) (hn : n < 10 ^ k) :
    (fmtDec n).length ≤ k := by
  rw [fmtDec, List.length_map]
  exact (Nat.length_toDigits_le_iff (by decide) hk).mpr hn

/-- The header of a download fits the buffer it is formatted into. -/
theorem downloadHeader_length_lt {filename : Bytes} {size : Nat}
    (hname : filename.length ≤ 25) (hsize : size < 2 ^ 32) :
    (downloadHeader filename size).length < 256 := by
  have hdigits := fmtDec_length_le (n := size) (k := 10) (by decide) (by lia)
  have hfixed : forall name digits : Bytes,
      (str "HTTP/1.0 200 OK\r\n" ++
        str "Content-Type: application/octet-stream\r\n" ++
        str "Content-Disposition: attachment; filename=\"" ++ name ++
        str "\"\r\n" ++
        str "Content-Length: " ++ digits ++ str "\r\n" ++
        str "Cache-Control: no-store\r\n" ++
        str "Connection: close\r\n\r\n").length = 167 + name.length + digits.length := by
    intro name digits
    simp only [List.length_append, str, List.length_map]
    have h : ("HTTP/1.0 200 OK\r\n".toList.length +
      "Content-Type: application/octet-stream\r\n".toList.length +
      "Content-Disposition: attachment; filename=\"".toList.length +
      "\"\r\n".toList.length + "Content-Length: ".toList.length + "\r\n".toList.length +
      "Cache-Control: no-store\r\n".toList.length +
      "Connection: close\r\n\r\n".toList.length) = 167 := by decide
    lia
  rw [downloadHeader, hfixed]
  lia

theorem delivery_sendDownload (hflash : SteadyFlash P flash) (hinit : P.initFlash = 0)
    (hclient : w.ctx.client = some pcb) {offset size : Nat} {filename : Bytes}
    (hrange : (offset, size, filename) ∈ downloads P.toBoard) :
    Delivery P flash pcb (handedOver pcb w.net)
      (downloadHeader filename size ++ window (flash w.ext) offset size) 0
      (sendDownload P offset size filename w).2 := by
  have hl := layout_of_initFlash hinit
  have hfits : offset + size ≤ P.flashSize := by
    simp only [downloads, List.mem_cons, List.mem_map, Prod.mk.injEq] at hrange
    rcases hrange with ⟨rfl, rfl, _⟩ | ⟨part, hpart, rfl, rfl, _⟩
    · lia
    · exact hl.partition_end hpart
  have hmax := P.flashSize_le
  have hname : filename.length ≤ 25 := by
    simp only [downloads, Board.partitions, List.map_cons, List.map_nil, List.mem_cons,
      List.not_mem_nil, or_false, Prod.mk.injEq] at hrange
    rcases hrange with ⟨_, _, rfl⟩ | ⟨_, _, rfl⟩ | ⟨_, _, rfl⟩ | ⟨_, _, rfl⟩ | ⟨_, _, rfl⟩
    · decide
    · exact (by decide : (str "hlk-7621a-uboot.bin").length ≤ 25)
    · exact (by decide : (str "hlk-7621a-environment.bin").length ≤ 25)
    · exact (by decide : (str "hlk-7621a-factory.bin").length ≤ 25)
    · exact (by decide : (str "hlk-7621a-firmware.bin").length ≤ 25)
  have hheader : (downloadHeader filename size).length < 256 :=
    downloadHeader_length_lt hname (by lia)
  unfold sendDownload
  rw [hclient]
  dsimp only
  rw [if_neg (Nat.not_le.mpr hheader)]
  generalize downloadHeader filename size = header at *
  have hwrite := handedOver_tcpWrite P pcb w header
  split
  · rename_i herr
    rw [if_neg herr] at hwrite
    exact Delivery.of_abort hclient ⟨[], header ++ window (flash w.ext) offset size,
      by rw [hwrite, List.append_nil], rfl⟩
  · rename_i herr
    rw [if_pos (not_not.mp herr)] at hwrite
    have hkeep : flash (tcpWrite P pcb header w).2.ext = flash w.ext :=
      hflash.write_keeps _ _ _
    have hpayload : pendingPayload (flash (tcpWrite P pcb header w).2.ext)
        (downloading header.length offset size (tcpWrite P pcb header w).2).ctx =
        window (flash w.ext) offset size := by
      rw [hkeep]
      rfl
    refine Delivery.of_started hflash ?_ ?_
    · refine ⟨hclient, rfl, ⟨header, hwrite⟩, ?_, ?_, fun _ => hfits, fun _ => rfl⟩
      · show handedOver pcb (tcpWrite P pcb header w).2.net ++ pendingPayload
          (flash (tcpWrite P pcb header w).2.ext) _ = _
        rw [hwrite, hpayload, List.append_assoc]
      · show (pendingPayload (flash (tcpWrite P pcb header w).2.ext) _).length = size
        rw [hpayload, window_length]
    · show u32 (header.length + size) = _
      rw [List.length_append, window_length, u32_of_lt (by lia)]

inductive Answer (P : Platform E) (flash : E -> Nat -> UInt8) (w : World E) :
    Bytes -> Bytes -> World E -> Prop where
  | reply (status type body : Bytes) :
      Answer P flash w (replyHeader status type body.length) body
        (reply P status type body w).2
  | download {name : Bytes} {offset size : Nat} {filename : Bytes}
      (free : operationBlocked w.ctx = false)
      (range : downloadRange P.toBoard name = some (offset, size, filename)) :
      Answer P flash w (downloadHeader filename size) (window (flash w.ext) offset size)
        (startDownload P name w).2

theorem Answer.delivery {header payload : Bytes} {w' : World E}
    (h : Answer P flash w header payload w') (hflash : SteadyFlash P flash)
    (hinit : P.initFlash = 0) (hclient : w.ctx.client = some pcb) :
    Delivery P flash pcb (handedOver pcb w.net) (header ++ payload) 0 w' := by
  cases h with
  | reply status type => exact delivery_reply hflash hclient status type _
  | download free range =>
      rw [startDownload_eq free range]
      exact delivery_sendDownload hflash hinit hclient (downloadRange_mem range)

/-!
## Callbacks
-/

structure Serving (P : Platform E) (flash : E -> Nat -> UInt8) (pcb : Pcb)
    (base total : Bytes) (acked : Nat) (w : World E) : Prop where
  streams : Streams P flash pcb base total w
  done : w.ctx.streamRemaining = 0 -> w.ctx.streamActive = false
  pending : w.ctx.replyPending + acked = total.length

theorem Serving.delivery (h : Serving P flash pcb base total acked w) :
    Delivery P flash pcb base total acked w :=
  .serving h.streams h.done h.pending

theorem Delivery.abort (h : Delivery P flash pcb base total acked w) :
    Delivery P flash pcb base total acked (abortClient P w) := by
  cases h with
  | serving streams done pending =>
      exact Delivery.of_abort streams.client streams.prefix_of_total
  | closed client inactive handed =>
      rw [abortClient_of_none client]
      exact .closed client inactive handed
  | aborted client free handed =>
      rw [abortClient_of_none client]
      exact .aborted client free handed

theorem Serving.output (hflash : SteadyFlash P flash)
    (h : Serving P flash pcb base total acked w) (flag : Bool) :
    Serving P flash pcb base total acked (tcpOutput P pcb w).2 ∧
    Serving P flash pcb base total acked { (tcpOutput P pcb w).2 with
      ctx := { (tcpOutput P pcb w).2.ctx with outputPending := flag } } := by
  have hout := h.streams.output hflash flag
  exact ⟨⟨hout.left, h.done, h.pending⟩, ⟨hout.right, h.done, h.pending⟩⟩

theorem Serving.sentStream (hflash : SteadyFlash P flash)
    (h : Serving P flash pcb base total acked w) (now : Nat) :
    ((sentStream P ⟨pcb, now⟩ w).1 = true ∧
      Delivery P flash pcb base total acked (sentStream P ⟨pcb, now⟩ w).2) ∨
    ((sentStream P ⟨pcb, now⟩ w).1 = false ∧
      Serving P flash pcb base total acked (sentStream P ⟨pcb, now⟩ w).2) := by
  unfold Webflash.sentStream
  split
  · exact .inr ⟨rfl, h⟩
  · rcases streams_streamFill hflash h.streams with ⟨hfill, hreply, _, hdone⟩
    dsimp only
    split
    · exact .inl ⟨rfl, Delivery.of_abort hfill.client hfill.prefix_of_total⟩
    · rename_i hret
      have hserving : Serving P flash pcb base total acked (streamFill P w).2 :=
        ⟨hfill, hdone (not_not.mp hret), by rw [hreply]; exact h.pending⟩
      have hout := hserving.output hflash true
      split
      · exact .inr ⟨rfl, hout.right⟩
      · split
        · exact .inl ⟨rfl, hout.left.delivery.abort⟩
        · exact .inr ⟨rfl, hout.left⟩

theorem Delivery.sent (hflash : SteadyFlash P flash)
    (hw : Delivery P flash pcb base total acked w) {len : Nat} (now : Nat)
    (hdelivered : connState w.net pcb ≠ .free)
    (hbound : acked + len ≤ total.length) :
    Delivery P flash pcb base total (acked + len) (sent P ⟨pcb, now⟩ len w) := by
  cases hw with
  | aborted client free handed => exact absurd free hdelivered
  | closed client inactive handed =>
      have hnot : w.ctx.client ≠ some pcb := by simp [client]
      unfold Webflash.sent
      rw [if_pos hnot]
      exact .closed client inactive handed
  | serving streams done pending =>
      unfold Webflash.sent
      rw [if_neg (not_not.mpr streams.client)]
      have hpending : (acknowledged ⟨pcb, now⟩ len w).ctx.replyPending + (acked + len) =
          total.length := by
        show (if len ≥ w.ctx.replyPending then 0 else w.ctx.replyPending - len) +
          (acked + len) = total.length
        split <;> lia
      have hack : Serving P flash pcb base total (acked + len)
          (acknowledged ⟨pcb, now⟩ len w) :=
        ⟨⟨streams.client, streams.answered, streams.started, streams.handed,
          streams.remaining, streams.fits, streams.active⟩, done, hpending⟩
      dsimp only
      rcases hack.sentStream hflash now with ⟨hended, hdelivery⟩ | ⟨hgoing, hserving⟩
      · rw [if_pos hended]
        exact hdelivery
      · rw [if_neg (by rw [hgoing]; decide)]
        split
        · exact hserving.delivery
        · rename_i hclosing
          simp only [not_or, not_not, Bool.not_eq_true] at hclosing
          exact Delivery.of_tryClose
            ⟨hserving.streams.client, hserving.streams.answered, hserving.streams.started,
              hserving.streams.handed, hserving.streams.remaining, hserving.streams.fits,
              hserving.streams.active⟩ hclosing.right.right hserving.pending

theorem Serving.pollOutput (hflash : SteadyFlash P flash)
    (h : Serving P flash pcb base total acked w) (now : Nat) :
    ((pollOutput P ⟨pcb, now⟩ w).1 = true ∧
      Delivery P flash pcb base total acked (pollOutput P ⟨pcb, now⟩ w).2) ∨
    ((pollOutput P ⟨pcb, now⟩ w).1 = false ∧
      Serving P flash pcb base total acked (pollOutput P ⟨pcb, now⟩ w).2) := by
  have hout := h.output hflash false
  unfold Webflash.pollOutput
  split
  · exact .inr ⟨rfl, h⟩
  · dsimp only
    split
    · exact .inr ⟨rfl, hout.right⟩
    · split
      · exact .inl ⟨rfl, hout.left.delivery.abort⟩
      · exact .inr ⟨rfl, hout.left⟩

theorem pollOutput_remaining (cb : Call) (w : World E) :
    (pollOutput P cb w).2.ctx.streamRemaining = w.ctx.streamRemaining := by
  unfold pollOutput
  split
  · rfl
  · dsimp only
    split
    · rfl
    · split
      · exact abortClient_remaining _
      · rfl

/-- A close that was postponed is repeated only when everything has been
acknowledged, and then everything has been handed over. -/
theorem Serving.pollClose (h : Serving P flash pcb base total acked w) (now : Nat)
    (hbound : acked + w.ctx.streamRemaining ≤ total.length) :
    Delivery P flash pcb base total acked (pollClose P ⟨pcb, now⟩ w) := by
  have htry : (w.ctx.closePending && w.ctx.replyPending == 0) = true ->
      Delivery P flash pcb base total acked (tryCloseClient P w).2 := by
    intro hclose
    simp only [Bool.and_eq_true, beq_iff_eq] at hclose
    refine Delivery.of_tryClose h.streams (h.done ?_) h.pending
    have := h.pending
    lia
  unfold Webflash.pollClose
  dsimp only
  by_cases hclose : (w.ctx.closePending && w.ctx.replyPending == 0) = true
  · simp only [if_pos hclose]
    split
    · exact htry hclose
    · split
      · exact (htry hclose).abort
      · exact htry hclose
  · simp only [if_neg hclose]
    split
    · exact h.delivery
    · split
      · exact h.delivery.abort
      · exact h.delivery

theorem Serving.poll (hflash : SteadyFlash P flash)
    (h : Serving P flash pcb base total acked w) (now : Nat)
    (hbound : acked + w.ctx.streamRemaining ≤ total.length) :
    Delivery P flash pcb base total acked (poll P ⟨pcb, now⟩ w) := by
  have hfill : Streams P flash pcb base total
        (if w.ctx.streamActive then streamFill P w else (0, w)).2 ∧
      ((if w.ctx.streamActive then streamFill P w else (0, w)).1 = 0 ->
        Serving P flash pcb base total acked
          (if w.ctx.streamActive then streamFill P w else (0, w)).2 ∧
        acked + (if w.ctx.streamActive then streamFill P w else (0, w)).2.ctx.streamRemaining ≤
          total.length) := by
    split
    · rcases streams_streamFill hflash h.streams with ⟨hfill, hreply, hle, hdone⟩
      refine ⟨hfill, fun hret => ⟨⟨hfill, hdone hret, ?_⟩, by lia⟩⟩
      rw [hreply]
      exact h.pending
    · exact ⟨h.streams, fun _ => ⟨h, hbound⟩⟩
  unfold Webflash.poll
  dsimp only
  generalize (if w.ctx.streamActive then streamFill P w else (0, w)) = filled at *
  split
  · exact Delivery.of_abort hfill.left.client hfill.left.prefix_of_total
  · rename_i hret
    have hserving := hfill.right (not_not.mp hret)
    rcases hserving.left.pollOutput hflash now with ⟨hended, hdelivery⟩ | ⟨hgoing, hgo⟩
    · rw [if_pos hended]
      exact hdelivery
    · rw [if_neg (by rw [hgoing]; decide)]
      refine hgo.pollClose now ?_
      rw [show (Webflash.pollOutput P ⟨pcb, now⟩ filled.2).2.ctx.streamRemaining =
        filled.2.ctx.streamRemaining from pollOutput_remaining ⟨pcb, now⟩ filled.2]
      exact hserving.right

theorem closed_poll (hclient : w.ctx.client = none) (hinactive : w.ctx.streamActive = false)
    (hhanded : handedOver pcb w.net = base ++ total) (now : Nat) :
    Delivery P flash pcb base total acked (poll P ⟨pcb, now⟩ w) := by
  have hclose : forall v : World E, v.ctx.client = none ->
      pollClose P ⟨pcb, now⟩ v = v := by
    intro v hv
    unfold Webflash.pollClose tryCloseClient
    simp only [hv]
    split <;> split <;> simp [abortClient_of_none hv]
  have hout : (pollOutput P ⟨pcb, now⟩ w).2.ctx.client = none ∧
      (pollOutput P ⟨pcb, now⟩ w).2.ctx.streamActive = false ∧
      handedOver pcb (pollOutput P ⟨pcb, now⟩ w).2.net = base ++ total := by
    unfold Webflash.pollOutput
    split
    · exact ⟨hclient, hinactive, hhanded⟩
    · dsimp only
      split
      · exact ⟨hclient, hinactive, hhanded⟩
      · split
        · rw [abortClient_of_none (show (tcpOutput P pcb w).2.ctx.client = none from hclient)]
          exact ⟨hclient, hinactive, hhanded⟩
        · exact ⟨hclient, hinactive, hhanded⟩
  have hpoll : poll P ⟨pcb, now⟩ w = (pollOutput P ⟨pcb, now⟩ w).2 := by
    unfold Webflash.poll
    rw [hinactive]
    simp only [Bool.false_eq_true, if_false, ne_eq, not_true_eq_false, hclose _ hout.left,
      ite_self]
  rw [hpoll]
  exact .closed hout.left hout.right.left hout.right.right

theorem Delivery.poll (hflash : SteadyFlash P flash)
    (hw : Delivery P flash pcb base total acked w) (now : Nat)
    (hdelivered : connState w.net pcb ≠ .free)
    (hbound : base.length + acked ≤ (handedOver pcb w.net).length) :
    Delivery P flash pcb base total acked (poll P ⟨pcb, now⟩ w) := by
  cases hw with
  | aborted client free handed => exact absurd free hdelivered
  | closed client inactive handed => exact closed_poll client inactive handed now
  | serving streams done pending =>
      refine Serving.poll hflash ⟨streams, done, pending⟩ now ?_
      have hlength := congrArg List.length streams.handed
      rw [List.length_append, List.length_append, streams.remaining] at hlength
      lia

end

/-!
## Runs
-/

def ackLen : Event -> Nat
  | .sent _ len => len
  | _ => 0

def ackStep (P : Platform E) (s : World E × Nat) (e : Nat × Event) : World E × Nat :=
  (step P s.1 e, s.2 + ackLen e.2)

/-- The callbacks that continue a reply on `pcb`: acknowledgements and polls, as
long as the server runs and the TCP stack holds the connection, of no more than
the bytes handed over behind `base`. -/
def continues (pcb : Pcb) (base : Bytes) (s : World E × Nat) (e : Nat × Event) : Bool :=
  (match e.2 with
    | .sent p _ => p == pcb
    | .poll p => p == pcb
    | _ => false) &&
  s.1.halted.isNone && delivered s.1 e.2 &&
  decide (base.length + (s.2 + ackLen e.2) ≤ (handedOver pcb s.1.net).length)

/-- What has been handed over behind `base` is a prefix of the reply `total`;
while the connection is served, the bytes that are pending are those not
acknowledged, and the stream is active until all have been handed over. -/
def Delivered (pcb : Pcb) (base total : Bytes) (s : World E × Nat) : Prop :=
  exists handed, handedOver pcb s.1.net = base ++ handed ∧ handed <+: total ∧
    (s.1.ctx.client = some pcb ->
      s.1.ctx.replyPending + s.2 = total.length ∧
      (s.1.ctx.streamActive = false <-> handed = total))

section

variable {P : Platform E} {flash : E -> Nat -> UInt8} {pcb : Pcb} {base total : Bytes}

theorem Delivery.length_le {acked : Nat} {w : World E}
    (h : Delivery P flash pcb base total acked w) :
    (handedOver pcb w.net).length ≤ base.length + total.length := by
  have hprefix : exists s rest, handedOver pcb w.net = base ++ s ∧ s ++ rest = total := by
    cases h with
    | serving streams done pending => exact streams.prefix_of_total
    | closed client inactive handed => exact ⟨total, [], handed, List.append_nil _⟩
    | aborted client free handed => exact handed
  rcases hprefix with ⟨s, rest, hs, rfl⟩
  rw [hs, List.length_append, List.length_append]
  lia

theorem Delivery.step (hflash : SteadyFlash P flash) {s : World E × Nat}
    {e : Nat × Event} (he : continues pcb base s e = true)
    (h : Delivery P flash pcb base total s.2 s.1) :
    Delivery P flash pcb base total (ackStep P s e).2 (ackStep P s e).1 := by
  rcases e with ⟨now, e⟩
  unfold continues at he
  simp only [Bool.and_eq_true, decide_eq_true_eq] at he
  rcases he with ⟨⟨⟨hkind, hrunning⟩, hdelivered⟩, hbound⟩
  have hlength := h.length_le
  have hhalted : ¬ s.1.halted.isSome = true := by
    rw [Option.isNone_iff_eq_none.mp hrunning]
    decide
  unfold ackStep Webflash.step
  rw [if_neg hhalted]
  cases e with
  | sent p len =>
      have hp : p = pcb := by simpa using hkind
      subst hp
      have hconn : connState s.1.net p ≠ .free := by simpa [delivered] using hdelivered
      have hacked : s.2 + len ≤ total.length := by
        simp only [ackLen] at hbound
        lia
      exact h.sent hflash now hconn hacked
  | poll p =>
      have hp : p = pcb := by simpa using hkind
      subst hp
      have hconn : connState s.1.net p ≠ .free := by simpa [delivered] using hdelivered
      have hacked : base.length + s.2 ≤ (handedOver p s.1.net).length := by
        simp only [ackLen] at hbound
        lia
      exact h.poll hflash now hconn hacked
  | accept => cases hkind
  | recv => cases hkind
  | error => cases hkind
  | jobStep => cases hkind
  | bootTimer => cases hkind
  | rebootTimer => cases hkind

theorem Delivery.delivered {s : World E × Nat}
    (h : Delivery P flash pcb base total s.2 s.1) : Delivered pcb base total s := by
  cases h with
  | closed client inactive handed =>
      exact ⟨total, handed, List.prefix_refl _, fun h => by simp [client] at h⟩
  | aborted client free handed =>
      rcases handed with ⟨t, rest, ht, rfl⟩
      exact ⟨t, ht, List.prefix_append _ _, fun h => by simp [client] at h⟩
  | serving streams done pending =>
      rcases streams.started with ⟨t, ht⟩
      have htotal : t ++ pendingPayload (flash s.1.ext) s.1.ctx = total := by
        have hhanded := streams.handed
        rw [ht, List.append_assoc] at hhanded
        exact List.append_cancel_left hhanded
      refine ⟨t, ht, ⟨_, htotal⟩, fun _ => ⟨pending, ?_⟩⟩
      constructor
      · intro hinactive
        rw [<- htotal, streams.pending_nil hinactive, List.append_nil]
      · intro hall
        refine done ?_
        have hlength := congrArg List.length htotal
        rw [List.length_append, streams.remaining, hall] at hlength
        lia

end

/-- Replies and downloads are delivered exactly, for every behaviour of the send
buffer, of `tcp_write` and of `tcp_output`, and every order of acknowledgements
and polls. -/
theorem reply_delivered_exactly (P : Platform E) (flash : E -> Nat -> UInt8)
    (hflash : SteadyFlash P flash) (hinit : P.initFlash = 0) {w w' : World E} {pcb : Pcb}
    (hclient : w.ctx.client = some pcb) {header payload : Bytes}
    (hanswer : Answer P flash w header payload w') (events : List (Nat × Event))
    (hevents : Runs.Along (ackStep P)
      (fun s e => continues pcb (handedOver pcb w.net) s e = true) (w', 0) events) :
    Delivered pcb (handedOver pcb w.net) (header ++ payload)
      (events.foldl (ackStep P) (w', 0)) := by
  have hstep : forall s e, continues pcb (handedOver pcb w.net) s e = true ->
      Delivery P flash pcb (handedOver pcb w.net) (header ++ payload) s.2 s.1 ->
      Delivery P flash pcb (handedOver pcb w.net) (header ++ payload) (ackStep P s e).2
        (ackStep P s e).1 :=
    fun _ _ he h => h.step hflash he
  have hstart : Delivery P flash pcb (handedOver pcb w.net) (header ++ payload) 0 w' :=
    hanswer.delivery hflash hinit hclient
  exact (Runs.invariant hstep hevents hstart).delivered

theorem steadyFlash_norPlatform (B : Board) :
    SteadyFlash (norPlatform B) (fun mem => mem) where
  read off len e _ _ := by simp [norPlatform, window]
  read_keeps _ _ _ := rfl
  write_keeps _ _ _ := rfl
  output_keeps _ _ := rfl

def connected : World (Nat -> UInt8) :=
  accepted ⟨1, 0⟩ hlk7621aStart

theorem text_delivered_exactly :
    Delivered 1 [] (replyHeader (str "200 OK") (str "text/plain") 5 ++ str "hello")
      ([(1, Event.sent 1 20), (2, .poll 1)].foldl (ackStep (norPlatform hlk7621a))
        ((reply (norPlatform hlk7621a) (str "200 OK") (str "text/plain") (str "hello")
          connected).2, 0)) :=
  reply_delivered_exactly (norPlatform hlk7621a) (fun mem => mem)
    (steadyFlash_norPlatform hlk7621a) (by decide) (w := connected) rfl
    (.reply (str "200 OK") (str "text/plain") (str "hello"))
    [(1, .sent 1 20), (2, .poll 1)] (by decide +kernel)

end Webflash
end Hlk7621
