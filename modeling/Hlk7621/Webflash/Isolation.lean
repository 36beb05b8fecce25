import Hlk7621.Webflash.Nor
import Hlk7621.Webflash.Sources

/-!
# Isolation of sessions

A closed connection keeps its callbacks until the TCP stack frees it, so a
callback can be invoked for a connection other than the client.  Only
`webflash_sent` compares the two.  The other callbacks leave the context alone
if they find nothing to do; in runs in which stale callbacks find nothing to do,
the open connection is always the client.
-/

namespace Hlk7621
namespace Webflash

variable {E : Type}

/-- The events that the TCP stack can deliver: received data only on an open
connection, the other callbacks until the connection is freed, and new
connections only in place of connections that are not open. -/
def delivered (w : World E) : Event -> Bool
  | .accept pcb _ => connState w.net pcb != .opened
  | .recv pcb (some _) _ => connState w.net pcb == .opened
  | .recv pcb none _ => connState w.net pcb != .free
  | .sent pcb _ => connState w.net pcb != .free
  | .error pcb => connState w.net pcb != .free
  | .poll pcb => connState w.net pcb != .free
  | _ => true

def stale (w : World E) : Event -> Bool
  | .accept _ _ => w.ctx.client.isSome
  | .recv pcb _ _ => w.ctx.client != some pcb
  | .sent pcb _ => w.ctx.client != some pcb
  | .error pcb => w.ctx.client != some pcb
  | .poll pcb => w.ctx.client != some pcb
  | _ => false

def nothingToDo (w : World E) (now : Nat) : Event -> Bool
  | .recv _ _ _ => w.ctx.client.isNone
  | .error _ =>
      w.ctx.client.isNone && w.ctx.replyPending == 0 && !w.ctx.streamActive &&
        !w.ctx.outputPending && !w.ctx.closePending
  | .poll _ =>
      !w.ctx.streamActive && !w.ctx.outputPending &&
        (w.ctx.client.isNone ||
          !(w.ctx.closePending && w.ctx.replyPending == 0) &&
            decide (sub32 now w.ctx.lastActivity ≤ IDLE_TIMEOUT_MS))
  | _ => true

def ConnOk (w : World E) : Prop :=
  forall pcb, connState w.net pcb = .opened <-> w.ctx.client = some pcb

/-!
## The client is the open connection
-/

variable {P : Platform E} {w w' : World E}

theorem ConnOk.congr (hw : ConnOk w) (hclient : w'.ctx.client = w.ctx.client)
    (hnet : forall p, connState w'.net p = connState w.net p) : ConnOk w' := by
  intro p
  rw [hnet p, hclient]
  exact hw p

theorem ConnOk.net (h : ConnStep w w') (hw : ConnOk w) : ConnOk w' := by
  cases h with
  | same client net => exact hw.congr client net
  | dropped pcb client client' ended net =>
      intro p
      rw [client']
      refine ⟨fun hopen => absurd hopen ?_, fun h => by cases h⟩
      by_cases hp : p = pcb
      · rw [hp]
        exact ended
      · rw [net p hp, hw p, client]
        intro heq
        exact hp (Option.some.inj heq).symm

theorem ConnOk.handler {cb : Call} (h : HandlerMove P cb w w') (hw : ConnOk w) :
    ConnOk w' := by
  cases h <;> exact hw.congr rfl (fun _ => rfl)

theorem ConnOk.body {cb : Call} (h : BodyMove P cb w w') (hw : ConnOk w) :
    ConnOk w' := by
  cases h with
  | net h => exact hw.net h.conn
  | stored data rx client fits => exact hw.congr rfl (fun _ => rfl)
  | exportFailed ext rx h =>
      exact ConnOk.net h.conn (hw.congr rfl (fun _ => rfl))
  | validated ext rx full h answered =>
      refine ConnOk.net h.conn (hw.congr (validateUpload_client _) ?_)
      unfold validateUpload
      split
      · exact fun _ => rfl
      · exact fun _ => rfl
  | savedEnv ret ext rx h =>
      exact ConnOk.net h.conn (hw.congr rfl (fun _ => rfl))

theorem preserves_connOk (cb : Call) : Preserves P cb (fun _ => True) ConnOk where
  net h hw := hw.net h.conn
  header _ hw := hw.congr rfl (fun _ => rfl)
  handler h _ _ _ hw := hw.handler h
  body h hw := hw.body h

/-- New connections are not open before, and an error concerns no other
connection than the client. -/
theorem ConnOk.loop {e : Event} (h : LoopMove e w w') (hw : ConnOk w)
    (hnew : forall pcb err, e = .accept pcb err -> connState w.net pcb ≠ .opened)
    (herror : forall pcb, e = .error pcb ->
      w.ctx.client = some pcb ∨ w.ctx.client = none) : ConnOk w' := by
  cases h with
  | accepted cb err free =>
      intro p
      show (if cb.pcb = p then ConnState.opened else connState w.net p) = .opened <->
        some cb.pcb = some p
      by_cases hp : cb.pcb = p
      · simp [hp]
      · rw [if_neg hp, hw p, free]
        simp [hp]
  | turnedAway cb err ext busy =>
      intro p
      show (if cb.pcb = p then ConnState.free else connState w.net p) = .opened <->
        w.ctx.client = some p
      by_cases hp : cb.pcb = p
      · rw [if_pos hp, <- hw p, <- hp]
        simpa using hnew cb.pcb err rfl
      · rw [if_neg hp]
        exact hw p
  | errored cb =>
      intro p
      show (if cb.pcb = p then ConnState.free else connState w.net p) = .opened <->
        none = some p
      by_cases hp : cb.pcb = p
      · simp [hp]
      · rw [if_neg hp, hw p]
        rcases herror cb.pcb rfl with hs | hn
        · simp [hs, hp]
        · simp [hn]
  | booted pending => exact hw.congr rfl (fun _ => rfl)
  | bootFailed ram ext pending => exact hw.congr rfl (fun _ => rfl)
  | reset pending => exact hw.congr rfl (fun _ => rfl)

theorem NetStep.not_opened {pcb : Pcb} (h : NetStep w w')
    (hpcb : connState w.net pcb ≠ .opened) : connState w'.net pcb ≠ .opened := by
  cases h.conn with
  | same client net =>
      rw [net pcb]
      exact hpcb
  | dropped pcb' client client' ended net =>
      by_cases hp : pcb = pcb'
      · rw [hp]
        exact ended
      · rw [net pcb hp]
        exact hpcb

theorem ConnOk.step {e : Nat × Event} (hw : ConnOk w)
    (hdelivered : delivered w e.2 = true)
    (hstale : stale w e.2 = true -> nothingToDo w e.1 e.2 = true) :
    ConnOk (step P w e) := by
  refine step_induct_at (fun h hw => hw.net h.conn)
    (fun _ _ _ => preserves_connOk _) ?_ (fun _ _ => trivial) ?_ hw
  · intro v v' hbefore hloop hv
    refine hv.loop hloop ?_ ?_
    · intro pcb err haccept
      rw [haccept] at hdelivered
      exact hbefore.not_opened (by simpa [delivered] using hdelivered)
    · intro pcb herror
      rw [herror] at hstale
      have hclient : w.ctx.client = some pcb ∨ w.ctx.client = none := by
        by_cases hc : w.ctx.client = some pcb
        · exact Or.inl hc
        · have hidle := hstale (by simpa [stale] using hc)
          simp only [nothingToDo, Bool.and_eq_true, Option.isNone_iff_eq_none] at hidle
          exact Or.inr hidle.1.1.1.1
      rcases hbefore.client with hs | hn
      · rw [hs]
        exact hclient
      · exact Or.inr hn
  · intro _ hv
    have hround := jobRound_jobStep P e.1 w
    refine hv.congr (hround.kept Ctx.client (fun _ _ _ _ => rfl)) ?_
    rw [hround.net]
    exact fun _ => rfl

/-!
## Stale callbacks
-/

def Spared (w w' : World E) : Prop :=
  w'.ctx = w.ctx ∧ w'.ram = w.ram ∧ w'.log = w.log

theorem Spared.refl (w : World E) : Spared w w := ⟨rfl, rfl, rfl⟩

theorem tcpError_spared (cb : Call) (hclient : w.ctx.client = none)
    (hreply : w.ctx.replyPending = 0) (hstream : w.ctx.streamActive = false)
    (houtput : w.ctx.outputPending = false) (hclose : w.ctx.closePending = false)
    (hvalid : w.ctx.rxState = .upload -> w.ctx.uploadValid = false) :
    Spared w (tcpError cb w) := by
  have hkeep : (if w.ctx.rxState = .upload then false else w.ctx.uploadValid) =
      w.ctx.uploadValid := by
    split
    · rename_i hrx
      exact (hvalid hrx).symm
    · rfl
  refine ⟨?_, rfl, rfl⟩
  unfold tcpError
  rw [hkeep, <- hclient, <- hreply]
  cases hctx : w.ctx
  simp_all

theorem poll_spared (cb : Call) (h : nothingToDo w cb.now (.poll cb.pcb) = true) :
    Spared w (poll P cb w) := by
  simp only [nothingToDo, Bool.and_eq_true, Bool.or_eq_true, Bool.not_eq_true',
    Option.isNone_iff_eq_none, decide_eq_true_eq] at h
  rcases h with ⟨⟨hstream, houtput⟩, hrest⟩
  have hpoll : poll P cb w = pollClose P cb w := by
    simp [poll, pollOutput, hstream, houtput]
  rw [hpoll]
  unfold pollClose
  rcases hrest with hnone | ⟨hclose, hactive⟩
  · have habort : abortClient P w = w := by simp [abortClient, hnone]
    have htry : tryCloseClient P w = (.ok, w) := by simp [tryCloseClient, hnone]
    rw [htry]
    by_cases hc : (w.ctx.closePending && w.ctx.replyPending == 0) = true
    · simp [hc, Spared]
    · simp [hc, habort, Spared]
  · simp [hclose, Nat.not_lt.mpr hactive, Spared]

theorem stale_spared {e : Nat × Event} (hconn : ConnOk w) (hupload : UploadInv P w)
    (hdelivered : delivered w e.2 = true) (hstale : stale w e.2 = true)
    (hidle : nothingToDo w e.1 e.2 = true) : Spared w (step P w e) := by
  rcases e with ⟨now, e⟩
  unfold step
  split
  · exact Spared.refl w
  · cases e with
    | accept pcb err =>
        have hbusy : w.ctx.client.isSome = true := hstale
        show Spared w (accept P ⟨pcb, now⟩ err w)
        unfold accept
        rw [if_pos hbusy]
        split
        · exact Spared.refl w
        · exact ⟨rfl, rfl, rfl⟩
    | recv pcb p err =>
        cases p with
        | none =>
            have hnone : w.ctx.client = none := by
              simpa [nothingToDo] using hidle
            simp [recv, tryCloseClient, hnone, Spared]
        | some chain =>
            -- Data comes from the open connection, and this is the client.
            have hopen : connState w.net pcb = .opened := by
              simpa [delivered] using hdelivered
            have hne : w.ctx.client ≠ some pcb := by simpa [stale] using hstale
            exact absurd ((hconn pcb).mp hopen) hne
    | sent pcb len =>
        have hne : w.ctx.client ≠ some pcb := by simpa [stale] using hstale
        simp [sent, hne, Spared]
    | error pcb =>
        simp only [nothingToDo, Bool.and_eq_true, Bool.not_eq_true',
          Option.isNone_iff_eq_none, beq_iff_eq] at hidle
        refine tcpError_spared _ hidle.1.1.1.1 hidle.1.1.1.2 hidle.1.1.2 hidle.1.2
          hidle.2 ?_
        intro hrx
        rcases hupload.receiving hrx with ⟨u, hu⟩
        exact hu.invalid
    | poll pcb => exact poll_spared ⟨pcb, now⟩ hidle
    | jobStep => cases hstale
    | bootTimer => cases hstale
    | rebootTimer => cases hstale

/-!
## Runs
-/

def orderly (w : World E) (e : Nat × Event) : Bool :=
  delivered w e.2 && (!stale w e.2 || nothingToDo w e.1 e.2)

theorem orderly_iff {e : Nat × Event} : orderly w e = true <->
    delivered w e.2 = true ∧ (stale w e.2 = true -> nothingToDo w e.1 e.2 = true) := by
  unfold orderly
  rw [Bool.and_eq_true, Bool.or_eq_true, Bool.not_eq_true']
  cases stale w e.2 <;> simp

def IsolatedInv (P : Platform E) (w : World E) : Prop :=
  Session P (fun _ => True) none w ∧ ConnOk w

theorem IsolatedInv.step {e : Nat × Event} (he : orderly w e = true)
    (hw : IsolatedInv P w) : IsolatedInv P (step P w e) := by
  rcases orderly_iff.mp he with ⟨hdelivered, hstale⟩
  refine ⟨hw.1.step ?_ (fun _ _ _ _ _ => trivial), hw.2.step hdelivered hstale⟩
  intro pcb hsource
  unfold Event.source at hsource
  split at hsource
  · rename_i chain err hrecv
    cases hsource
    rw [hrecv] at hdelivered
    exact Or.inl ((hw.2 pcb).mp (by simpa [delivered] using hdelivered))
  · cases hsource

theorem isolatedInv_run {loadAddr : Nat} {ram : Nat -> UInt8} {ext : E}
    {events : List (Nat × Event)}
    (h : Runs.Along (step P) (fun w e => orderly w e = true)
      (initial loadAddr ram ext) events) :
    IsolatedInv P (run P (initial loadAddr ram ext) events) := by
  refine Runs.invariant (fun w e he hw => hw.step he) h
    ⟨session_initial loadAddr ram ext, ?_⟩
  intro pcb
  simp [initial, connState]

/-- In every run that the TCP stack can deliver and in which stale callbacks
find nothing to do: callbacks for a connection other than the client leave the
context, the RAM and the log alone, and every piece of an upload comes, in order,
from the connection that announced it. -/
theorem stale_callbacks_spare_session (P : Platform E) (loadAddr : Nat)
    (ram : Nat -> UInt8) (ext : E) (events : List (Nat × Event))
    (horderly : Runs.Along (step P) (fun w e => orderly w e = true)
      (initial loadAddr ram ext) events) :
    (forall before e after, events = before ++ e :: after ->
      let w := run P (initial loadAddr ram ext) before
      stale w e.2 = true -> Spared w (step P w e)) ∧
    forall newer src offset data older,
      (run P (initial loadAddr ram ext) events).log =
        newer ++ .stored src offset data :: older ->
      exists u, currentUpload older = some u ∧ u.src = src ∧
        u.body.length = offset := by
  refine ⟨?_, ?_⟩
  · rintro before e after rfl w hstale
    rcases Runs.along_append.mp horderly with ⟨hbefore, hafter⟩
    have hinv : IsolatedInv P w := isolatedInv_run hbefore
    rcases orderly_iff.mp hafter.1 with ⟨hdelivered, hidle⟩
    exact stale_spared hinv.2 hinv.1.upload hdelivered hstale (hidle hstale)
  · intro newer src offset data older hlog
    have hsourced := (isolatedInv_run horderly).1.sourced
    rw [hlog] at hsourced
    exact sourced_split hsourced

def secondUpload : List (Nat × Event) :=
  exchange 1 (httpRequest "GET /api/job" []) ++
    [(1, .accept 2 .ok),
      (1, .recv 2 (some
        [httpRequest "POST /api/upload/firmware" ["Content-Length: 4"]]) .ok)]

theorem secondUpload_spared_by_poll :
    let w := run (norPlatform hlk7621a)
      (initial 0x83000000 (fun _ => 0) (fun _ => 0xff)) secondUpload
    w.ctx.client = some 2 ∧
    Spared w (step (norPlatform hlk7621a) w (2, .poll 1)) := by
  have hrun : Runs.Along (step (norPlatform hlk7621a))
        (fun w e => orderly w e = true)
        (initial 0x83000000 (fun _ => 0) (fun _ => 0xff)) (secondUpload ++ [(2, .poll 1)]) ∧
      (let w := run (norPlatform hlk7621a)
        (initial 0x83000000 (fun _ => 0) (fun _ => 0xff)) secondUpload
      w.ctx.client = some 2 ∧ stale w (.poll 1) = true) := by
    decide +kernel
  rcases hrun with ⟨horderly, hclient, hstale⟩
  exact ⟨hclient,
    (stale_callbacks_spare_session (norPlatform hlk7621a) 0x83000000 (fun _ => 0)
      (fun _ => 0xff) (secondUpload ++ [(2, .poll 1)]) horderly).1
      secondUpload (2, .poll 1) [] rfl hstale⟩

/-- The end of the first connection closes the second one in the middle of its
upload. -/
theorem stale_fin_closes_client :
    let w := run (norPlatform hlk7621a) hlk7621aStart secondUpload
    Runs.Along (step (norPlatform hlk7621a)) (fun w e => delivered w e.2 = true)
      hlk7621aStart (secondUpload ++ [(3, .recv 1 none .ok)]) ∧
    stale w (.recv 1 none .ok) = true ∧ w.ctx.client = some 2 ∧
    (step (norPlatform hlk7621a) w (3, .recv 1 none .ok)).ctx.client = none := by
  decide +kernel

end Webflash
end Hlk7621
