import Mathlib.Logic.Relation
import Hlk7621.Lib.Runs
import Hlk7621.Webflash.Receive

/-!
# Transitions of the server

Every transition is a chain of moves: the network activity of `NetStep`, the
change made by a completed header block, the moves of a body being received, and
those of the main loop.  An invariant is proved by showing that each kind of
move preserves it; `step_induct` and `run_induct` lift this to transitions and
to runs.
-/

namespace Hlk7621
namespace Webflash

variable {E : Type} (P : Platform E)

/-!
## Bodies
-/

def completed (ext : E) (w : World E) : World E :=
  { w with
    ctx := { w.ctx with
      completedAddr := w.ctx.loadAddr
      completedSize := w.ctx.uploadSize }
    ext := ext }

inductive BodyMove (cb : Call) (w : World E) : World E -> Prop where
  | net {w' : World E} (h : NetStep w w') : BodyMove cb w w'
  | stored (data : Bytes) (rx : w.ctx.rxState = .upload)
      (client : w.ctx.client.isSome)
      (fits : data.length ≤ sub32 w.ctx.contentLength w.ctx.uploadSize) :
      BodyMove cb w (storeBytes cb data w)
  | exportFailed {w' : World E} (ext : E) (rx : w.ctx.rxState = .upload)
      (h : NetStep (completed ext w) w') : BodyMove cb w w'
  | validated {w' : World E} (ext : E) (rx : w.ctx.rxState = .upload)
      (full : w.ctx.uploadSize = w.ctx.contentLength)
      (h : NetStep (validateUpload P (completed ext w)).2 w')
      (answered : w'.ctx.rxState = .upload -> w'.ctx.uploadValid = false) :
      BodyMove cb w w'
  | savedEnv {w' : World E} (ret : Int) (ext : E) (rx : w.ctx.rxState = .body)
      (h : NetStep { w with ext := ext, log := .envSave ret :: w.log } w') :
      BodyMove cb w w'

abbrev BodyMoves (cb : Call) : World E -> World E -> Prop :=
  Relation.ReflTransGen (BodyMove P cb)

variable {P} {cb : Call} {w w' : World E}

theorem BodyMoves.of_net (h : NetStep w w') : BodyMoves P cb w w' :=
  .single (.net h)

theorem validateUpload_client (v : World E) :
    (validateUpload P v).2.ctx.client = v.ctx.client := by
  unfold validateUpload
  split
  · rfl
  · rfl

theorem exportUpload_eq :
    exists ext, (exportUpload P w).2 = { w with ext := ext } := by
  unfold exportUpload
  dsimp only
  split
  · exact ⟨_, rfl⟩
  · exact ⟨_, rfl⟩

theorem bodyMove_completeUpload (hrx : w.ctx.rxState = .upload)
    (hclient : w.ctx.client.isSome)
    (hfull : w.ctx.uploadSize = w.ctx.contentLength) :
    BodyMove P cb w (completeUpload P w).2 := by
  unfold completeUpload
  rcases exportUpload_eq (P := P)
    (w := { w with ctx := { w.ctx with
      completedAddr := w.ctx.loadAddr
      completedSize := w.ctx.uploadSize } }) with ⟨ext, hext⟩
  dsimp only
  rw [hext]
  split
  · exact .exportFailed ext hrx (netStep_error P _ _ _)
  · refine .validated ext hrx hfull (netStep_replyText P _ _ _) ?_
    intro hup
    rcases Option.isSome_iff_exists.mp hclient with ⟨pcb, hpcb⟩
    have hc := (validateUpload_client (P := P) (completed ext w)).trans hpcb
    rcases replyText_outcome P _ _ hc with hr | ⟨_, _, hv⟩
    · exact absurd (hup.symm.trans hr) (by decide)
    · exact hv hup

theorem bodyMoves_storeUpload (data : Bytes) (hrx : w.ctx.rxState = .upload)
    (hclient : w.ctx.client.isSome) :
    BodyMoves P cb w (storeUpload P cb data w).2 := by
  unfold storeUpload
  split
  · exact .of_net (netStep_error P _ _ w)
  · rename_i hfits
    have hstored : BodyMove P cb w (storeBytes cb data w) :=
      .stored data hrx hclient (Nat.le_of_not_gt hfits)
    dsimp only
    split
    · exact .single hstored
    · rename_i hfull
      exact (Relation.ReflTransGen.single hstored).tail
        (bodyMove_completeUpload hrx hclient (by simpa using hfull))

theorem bodyMoves_envStore (ipaddr netmask serverip bootdelay : Bytes)
    (hrx : w.ctx.rxState = .body) :
    BodyMoves P cb w (envStore P ipaddr netmask serverip bootdelay w).2 := by
  unfold envStore
  generalize envSetAll P _ w.ext = r
  dsimp only
  split
  · exact .of_net ((netStep_ext _).trans (netStep_error P _ _ _))
  · split
    · exact .single (.savedEnv _ _ hrx (netStep_error P _ _ _))
    · exact .single (.savedEnv _ _ hrx (netStep_ok P _ _))

theorem bodyMoves_envSave (hrx : w.ctx.rxState = .body) :
    BodyMoves P cb w (envSave P w).2 := by
  unfold envSave
  split
  · split
    · exact .of_net (netStep_error P _ _ w)
    · dsimp only
      split
      · exact .of_net (netStep_error P _ _ w)
      · exact bodyMoves_envStore _ _ _ _ hrx
  · exact .of_net (netStep_error P _ _ w)

theorem bodyMoves_storeBody (data : Bytes) (hrx : w.ctx.rxState = .body) :
    BodyMoves P cb w (storeBody P data w).2 := by
  unfold storeBody
  split
  · exact .of_net (netStep_error P _ _ w)
  · have hgrow : NetStep w
        { w with ctx := { w.ctx with body := w.ctx.body ++ data } } :=
      NetStep.of_core rfl rfl rfl rfl rfl rfl (fun _ => rfl)
    dsimp only
    split
    · refine (BodyMoves.of_net hgrow).trans ?_
      unfold handleBody
      split
      · exact bodyMoves_envSave hrx
      · exact BodyMoves.of_net (netStep_error P _ _ _)
    · exact .of_net hgrow

theorem BodyMove.rxState_ne_headers (h : BodyMove P cb w w')
    (hrx : w.ctx.rxState ≠ .headers) : w'.ctx.rxState ≠ .headers := by
  have hnet : forall {v : World E}, NetStep v w' ->
      v.ctx.rxState = w.ctx.rxState -> w'.ctx.rxState ≠ .headers := by
    intro v hn hv
    rcases hn.rxState with hs | hr
    · rw [hs, hv]
      exact hrx
    · simp [hr]
  cases h with
  | net h => exact hnet h rfl
  | stored data rx client fits => exact hrx
  | exportFailed ext rx h => exact hnet h rfl
  | validated ext rx full h answered =>
      refine hnet h ?_
      unfold validateUpload
      split <;> rfl
  | savedEnv ret ext rx h => exact hnet h rfl

theorem BodyMoves.rxState_ne_headers (h : BodyMoves P cb w w')
    (hrx : w.ctx.rxState ≠ .headers) : w'.ctx.rxState ≠ .headers := by
  induction h with
  | refl => exact hrx
  | tail _ hlast ih => exact hlast.rxState_ne_headers ih

theorem bodyMoves_consume (data : Bytes) (hrx : w.ctx.rxState ≠ .headers)
    (hclient : w.ctx.client.isSome) :
    BodyMoves P cb w (consume P cb data w).2 := by
  cases data with
  | nil => exact .refl
  | cons b rest =>
      rw [consume]
      split
      · exact .refl
      · rename_i hr
        exact bodyMoves_storeUpload _ hr hclient
      · rename_i hr
        exact bodyMoves_storeBody _ hr
      · rename_i hr
        exact absurd hr hrx

theorem bodyMoves_consumeAll (chain : List Bytes)
    (hrx : w.ctx.rxState ≠ .headers) :
    BodyMoves P cb w (consumeAll P cb chain w) := by
  induction chain generalizing w with
  | nil => exact .refl
  | cons q chain ih =>
      rw [consumeAll]
      split
      · exact .refl
      · rename_i hclient
        have hmoves : BodyMoves P cb w (consume P cb q w).2 :=
          bodyMoves_consume q hrx (by
            simpa [Option.isSome_iff_ne_none] using hclient)
        dsimp only
        split
        · exact hmoves
        · exact hmoves.trans (ih (hmoves.rxState_ne_headers hrx))

/-!
## The other callbacks
-/

variable (P)

theorem quiet_tcpError (cb : Call) (w : World E) : Quiet w (tcpError cb w) := by
  unfold tcpError
  by_cases hu : w.ctx.rxState = .upload
  · exact ⟨rfl, rfl, rfl, Or.inl rfl, Or.inr ⟨hu, by simp [hu]⟩, Or.inr rfl⟩
  · exact ⟨rfl, rfl, rfl, Or.inl rfl, Or.inl (by simp [hu]), Or.inr rfl⟩

theorem quiet_turnedAway (ext : E) (net : List NetCall) (w : World E) :
    Quiet w { w with ext := ext, net := net } :=
  ⟨rfl, rfl, rfl, Or.inl rfl, Or.inl rfl, Or.inl rfl⟩

theorem netStep_sentStream (cb : Call) (w : World E) :
    NetStep w (sentStream P cb w).2 := by
  unfold sentStream
  split
  · exact NetStep.refl w
  · have hfill := netStep_streamFill P w
    have hout := hfill.trans (netStep_tcpOutput P cb.pcb _)
    dsimp only
    split
    · exact hfill.trans (netStep_abortClient P _)
    · split
      · exact hout.trans (NetStep.of_core rfl rfl rfl rfl rfl rfl (fun _ => rfl))
      · split
        · exact hout.trans (netStep_abortClient P _)
        · exact hout

theorem netStep_sent (cb : Call) (len : Nat) (w : World E) :
    NetStep w (sent P cb len w) := by
  unfold sent
  split
  · exact NetStep.refl w
  · have hack : NetStep w (acknowledged cb len w) :=
      NetStep.of_core rfl rfl rfl rfl rfl rfl (fun _ => rfl)
    have hstream := hack.trans (netStep_sentStream P cb _)
    dsimp only
    split
    · exact hstream
    · split
      · exact hstream
      · refine NetStep.trans (hstream.trans ?_) (netStep_tryCloseClient P _)
        exact NetStep.of_core rfl rfl rfl rfl rfl rfl (fun _ => rfl)

theorem netStep_pollOutput (cb : Call) (w : World E) :
    NetStep w (pollOutput P cb w).2 := by
  unfold pollOutput
  split
  · exact NetStep.refl w
  · have hout := netStep_tcpOutput P cb.pcb w
    dsimp only
    split
    · exact hout.trans (NetStep.of_core rfl rfl rfl rfl rfl rfl (fun _ => rfl))
    · split
      · exact hout.trans (netStep_abortClient P _)
      · exact hout

theorem netStep_pollClose (cb : Call) (w : World E) :
    NetStep w (pollClose P cb w) := by
  unfold pollClose
  have hclose : NetStep w
      (if w.ctx.closePending && w.ctx.replyPending == 0 then tryCloseClient P w
        else (Err.mem, w)).2 := by
    split
    · exact netStep_tryCloseClient P w
    · exact NetStep.refl w
  dsimp only
  generalize (if w.ctx.closePending && w.ctx.replyPending == 0 then
    tryCloseClient P w else (Err.mem, w)) = r at hclose ⊢
  split
  · exact hclose
  · split
    · exact hclose.trans (netStep_abortClient P _)
    · exact hclose

theorem netStep_poll (cb : Call) (w : World E) : NetStep w (poll P cb w) := by
  unfold poll
  have hfill : NetStep w
      (if w.ctx.streamActive then streamFill P w else (0, w)).2 := by
    split
    · exact netStep_streamFill P w
    · exact NetStep.refl w
  dsimp only
  generalize (if w.ctx.streamActive then streamFill P w else (0, w)) = filled
    at hfill ⊢
  split
  · exact hfill.trans (netStep_abortClient P _)
  · have hout := hfill.trans (netStep_pollOutput P cb _)
    split
    · exact hout
    · exact hout.trans (netStep_pollClose P cb _)

theorem netStep_touch (now : Nat) (w : World E) : NetStep w (touch now w) :=
  NetStep.of_core rfl rfl rfl rfl rfl rfl (fun _ => rfl)

/-!
## The main loop
-/

inductive LoopMove : Event -> World E -> World E -> Prop where
  | accepted {w : World E} (cb : Call) (err : Err) (free : w.ctx.client = none) :
      LoopMove (.accept cb.pcb err) w (accepted cb w)
  | turnedAway {w : World E} (cb : Call) (err : Err) (ext : E)
      (busy : w.ctx.client.isSome) :
      LoopMove (.accept cb.pcb err) w
        { w with ext := ext, net := .abort cb.pcb :: w.net }
  | errored {w : World E} (cb : Call) :
      LoopMove (.error cb.pcb) w (tcpError cb w)
  | booted {w : World E} (pending : w.ctx.bootPending = true) :
      LoopMove .bootTimer w
        { w with log := .bootm w.ctx.bootAddr :: w.log, halted := some .booted }
  | bootFailed {w : World E} (ram : Nat -> UInt8) (ext : E)
      (pending : w.ctx.bootPending = true) :
      LoopMove .bootTimer w
        { w with
          ctx := { w.ctx with bootPending := false }
          ram := ram
          ext := ext
          log := .bootm w.ctx.bootAddr :: w.log }
  | reset {w : World E} (pending : w.ctx.rebootPending = true) :
      LoopMove .rebootTimer w
        { w with log := .resetCpu :: w.log, halted := some .reset }

def served (w : World E) (e : Event) : Option Bytes :=
  match e with
  | .recv _ (some chain) .ok =>
      if w.halted.isSome || w.ctx.client.isNone || w.ctx.rxState != .headers then
        none
      else
        match scanHeader w.ctx.header chain.flatten with
        | .done header _ => some header
        | _ => none
  | _ => none

/-!
## Growth of the log
-/

def Extends (Q : Action -> Prop) (log log' : List Action) : Prop :=
  exists new, log' = new ++ log ∧ forall a, a ∈ new -> Q a

section

variable {Q R : Action -> Prop} {log log' log'' : List Action}

theorem Extends.refl (log : List Action) : Extends Q log log :=
  ⟨[], rfl, by simp⟩

theorem Extends.cons {a : Action} (ha : Q a) : Extends Q log (a :: log) := by
  refine ⟨[a], rfl, ?_⟩
  intro b hb
  rw [List.mem_singleton.mp hb]
  exact ha

theorem Extends.trans (h : Extends Q log log') (h' : Extends Q log' log'') :
    Extends Q log log'' := by
  rcases h with ⟨xs, rfl, hxs⟩
  rcases h' with ⟨ys, rfl, hys⟩
  refine ⟨ys ++ xs, by rw [List.append_assoc], ?_⟩
  intro a ha
  rcases List.mem_append.mp ha with hy | hx
  · exact hys a hy
  · exact hxs a hx

theorem Extends.mono (h : Extends Q log log') (hQR : forall a, Q a -> R a) :
    Extends R log log' := by
  rcases h with ⟨new, hlog, hnew⟩
  exact ⟨new, hlog, fun a ha => hQR a (hnew a ha)⟩

theorem Extends.mem {a : Action} (h : Extends Q log log') (ha : a ∈ log') :
    Q a ∨ a ∈ log := by
  rcases h with ⟨new, rfl, hnew⟩
  exact (List.mem_append.mp ha).imp (hnew a) id

end

inductive RequestAction : Action -> Prop where
  | uploadStarted (src : Pcb) (header : Bytes) (part : Partition) (size : Nat) :
      RequestAction (.uploadStarted src header part size)
  | stored (src : Pcb) (offset : Nat) (data : Bytes) :
      RequestAction (.stored src offset data)
  | validated (part : Partition) (body : Bytes) :
      RequestAction (.validated part body)
  | factoryRead (data : Bytes) : RequestAction (.factoryRead data)
  | flashStarted (part : Partition) (phrase : Bytes) :
      RequestAction (.flashStarted part phrase)
  | envSave (ret : Int) : RequestAction (.envSave ret)

inductive TimerAction : Event -> Action -> Prop where
  | bootm (addr : Nat) : TimerAction .bootTimer (.bootm addr)
  | resetCpu : TimerAction .rebootTimer .resetCpu

theorem Quiet.extends {Q : Action -> Prop} (h : Quiet w w') :
    Extends Q w.log w'.log := by
  rw [h.log]
  exact Extends.refl _

theorem HandlerMove.extends (h : HandlerMove P cb w w') :
    Extends RequestAction w.log w'.log := by
  cases h with
  | beginUpload part size ext h => exact .cons (.uploadStarted _ _ _ _)
  | startPlain part keep h plain => exact .cons (.flashStarted _ _)
  | startFactory part keep old ext h eeprom length =>
      exact (Extends.cons (.factoryRead old)).trans (.cons (.flashStarted _ _))
  | saveEnv ret ext idle => exact .cons (.envSave ret)
  | _ => exact .refl _

theorem BodyMove.extends (h : BodyMove P cb w w') :
    Extends RequestAction w.log w'.log := by
  cases h with
  | net h => exact h.extends
  | stored data rx client fits => exact .cons (.stored _ _ _)
  | exportFailed ext rx h => exact h.extends
  | validated ext rx full h answered =>
      refine Extends.trans ?_ h.extends
      unfold validateUpload
      split
      · exact .refl _
      · dsimp only
        split
        · exact .cons (.validated _ _)
        · exact .refl _
  | savedEnv ret ext rx h => exact (Extends.cons (.envSave ret)).trans h.extends

theorem LoopMove.extends {e : Event} (h : LoopMove e w w') :
    Extends (TimerAction e) w.log w'.log := by
  cases h with
  | booted pending => exact .cons (.bootm _)
  | bootFailed ram ext pending => exact .cons (.bootm _)
  | reset pending => exact .cons .resetCpu
  | _ => exact .refl _

/-!
## Induction rules
-/

/-- `Inv` is preserved by every move of a callback `cb`, by those of a handler
if `Ok` holds of the world it is called in.  Handlers are called for a client whose request is at
its headers. -/
structure Preserves (cb : Call) (Ok Inv : World E -> Prop) : Prop where
  net {w w' : World E} (h : NetStep w w') (hw : Inv w) : Inv w'
  header {w : World E} (header : Bytes) (hw : Inv w) : Inv (withHeader header w)
  handler {w w' : World E} (h : HandlerMove P cb w w')
    (hrx : w.ctx.rxState = .headers) (hclient : w.ctx.client.isSome)
    (hok : Ok w) (hw : Inv w) : Inv w'
  body {w w' : World E} (h : BodyMove P cb w w') (hw : Inv w) : Inv w'

variable {P} {Ok Inv : World E -> Prop}

theorem Preserves.bodyMoves (hp : Preserves P cb Ok Inv)
    (h : BodyMoves P cb w w') (hw : Inv w) : Inv w' := by
  induction h with
  | refl => exact hw
  | tail _ hlast ih => exact hp.body hlast ih

/-- A received chain preserves `Inv` if the header it completes, if any, is
handled in a world with `Ok`. -/
theorem consumeAll_induct (hp : Preserves P cb Ok Inv) (chain : List Bytes)
    (hok : w.ctx.client.isSome -> w.ctx.rxState = .headers ->
      forall header rest, scanHeader w.ctx.header chain.flatten = .done header rest ->
        Ok (withHeader header w))
    (hw : Inv w) : Inv (consumeAll P cb chain w) := by
  by_cases hrx : w.ctx.rxState = .headers
  · cases hc : w.ctx.client with
    | none =>
        cases chain with
        | nil => exact hw
        | cons q chain => simpa [consumeAll, hc] using hw
    | some pcb =>
        have hclient : w.ctx.client.isSome := by simp [hc]
        have hok' := hok hclient hrx
        rw [scanChain_flatten] at hok'
        rw [consumeAll_headers chain hrx hclient]
        cases hscan : scanChain w.ctx.header chain with
        | more header => exact hp.header header hw
        | tooLarge header =>
            exact hp.net (netStep_error P _ _ _) (hp.header header hw)
        | done header rest =>
            simp only [hscan] at hok'
            have hhandled : Handled P cb (withHeader header w)
                (handleHeaders P cb (withHeader header w)).2 :=
              handled_handleHeaders
            have hsettled : Settled (withHeader header w)
                (handleHeaders P cb (withHeader header w)) :=
              settled_handleHeaders
            rcases hhandled with ⟨v, hmove, hnet⟩
            have hinv := hp.net hnet
              (hp.handler hmove hrx hclient (hok' header _ rfl)
                (hp.header header hw))
            simp only [afterScan]
            split
            · exact hinv
            · rename_i hret
              refine hp.bodyMoves (bodyMoves_consumeAll rest ?_) hinv
              rcases hsettled (by simpa using hret) with hr | ⟨hne, _⟩
              · simp [hr]
              · exact hne
  · exact hp.bodyMoves (bodyMoves_consumeAll chain hrx) hw

/-- The rule for one transition.  Only a callback that receives data runs
handlers and stores bodies, so only for its connection are their moves to be
considered. -/
theorem step_induct_at {e : Nat × Event}
    (hnet : forall {w w'}, NetStep w w' -> Inv w -> Inv w')
    (hrecv : forall pcb chain, e.2 = .recv pcb (some chain) .ok ->
      Preserves P ⟨pcb, e.1⟩ Ok Inv)
    (hloop : forall {v v'}, NetStep w v -> LoopMove e.2 v v' -> Inv v -> Inv v')
    (hok : forall header, served w e.2 = some header ->
      Ok (withHeader header (touch e.1 w)))
    (hjob : e.2 = .jobStep -> Inv w -> Inv (jobStep P e.1 w))
    (hw : Inv w) : Inv (step P w e) := by
  rcases e with ⟨now, e⟩
  unfold step
  split
  · exact hw
  · rename_i hrunning
    cases e with
    | accept pcb err =>
        show Inv (accept P ⟨pcb, now⟩ err w)
        unfold accept
        split
        · exact hw
        · split
          · rename_i hbusy
            exact hloop (NetStep.refl w) (.turnedAway ⟨pcb, now⟩ err _ hbusy) hw
          · rename_i hfree
            exact hloop (NetStep.refl w) (.accepted ⟨pcb, now⟩ err (by simpa using hfree)) hw
    | recv pcb p err =>
        show Inv (recv P ⟨pcb, now⟩ p err w)
        cases p with
        | none => exact hnet (netStep_tryCloseClient P w) hw
        | some chain =>
            rw [recv]
            split
            · exact hnet (netStep_abortClient P w) hw
            · rename_i herr
              have herr' : err = .ok := by simpa using herr
              subst herr'
              refine consumeAll_induct (hrecv pcb chain rfl) chain ?_
                (hnet (netStep_touch now w) hw)
              intro hclient hrx header rest hscan
              apply hok header
              have hc : w.ctx.client.isSome := hclient
              have hr : w.ctx.rxState = .headers := hrx
              have hs : scanHeader w.ctx.header chain.flatten =
                .done header rest := hscan
              have hn : w.ctx.client ≠ none := Option.isSome_iff_ne_none.mp hc
              have hh : w.halted = none := by simpa using hrunning
              simp [served, hr, hs, hn, hh]
    | sent pcb len => exact hnet (netStep_sent P _ _ w) hw
    | error pcb => exact hloop (NetStep.refl w) (.errored ⟨pcb, now⟩) hw
    | poll pcb => exact hnet (netStep_poll P _ w) hw
    | jobStep => exact hjob rfl hw
    | bootTimer =>
        show Inv (bootTimer P now w)
        unfold bootTimer
        split
        · rename_i hdue
          have habort := netStep_abortClient P w
          have hpending : (abortClient P w).ctx.bootPending = true := by
            rw [habort.bootPending]
            simp only [Bool.and_eq_true] at hdue
            exact hdue.1
          dsimp only
          split
          · exact hloop habort (.booted hpending) (hnet habort hw)
          · exact hloop habort (.bootFailed _ _ hpending) (hnet habort hw)
        · exact hw
    | rebootTimer =>
        show Inv (rebootTimer now w)
        unfold rebootTimer
        split
        · rename_i hdue
          simp only [Bool.and_eq_true] at hdue
          exact hloop (NetStep.refl w) (.reset hdue.1) hw
        · exact hw

theorem step_induct {e : Nat × Event} (hp : forall cb, Preserves P cb Ok Inv)
    (hloop : forall {w w'}, LoopMove e.2 w w' -> Inv w -> Inv w')
    (hok : forall header, served w e.2 = some header ->
      Ok (withHeader header (touch e.1 w)))
    (hjob : e.2 = .jobStep -> Inv w -> Inv (jobStep P e.1 w))
    (hw : Inv w) : Inv (step P w e) :=
  step_induct_at (hp ⟨0, e.1⟩).net (fun _ _ _ => hp _) (fun _ => hloop) hok hjob hw

theorem step_extends {e : Nat × Event} (he : e.2 ≠ .jobStep) :
    Extends (fun a => RequestAction a ∨ TimerAction e.2 a) w.log
      (step P w e).log := by
  have hp : forall cb, Preserves P cb (fun _ => True) (fun v =>
      Extends (fun a => RequestAction a ∨ TimerAction e.2 a) w.log v.log) := by
    intro cb
    exact
      { net := fun h hv => hv.trans h.extends
        header := fun _ hv => hv
        handler := fun h _ _ _ hv => hv.trans (h.extends.mono fun _ => Or.inl)
        body := fun h hv => hv.trans (h.extends.mono fun _ => Or.inl) }
  exact step_induct hp (fun h hv => hv.trans (h.extends.mono fun _ => Or.inr))
    (fun _ _ => trivial) (fun h => absurd h he) (Extends.refl _)

/-- The rule for invariants that need no condition on the requests served. -/
theorem run_induct (hp : forall cb, Preserves P cb Ok Inv) (hok : forall w, Ok w)
    (hloop : forall {e w w'}, LoopMove e w w' -> Inv w -> Inv w')
    (hjob : forall {w} now, Inv w -> Inv (jobStep P now w)) (hw : Inv w)
    (events : List (Nat × Event)) : Inv (run P w events) := by
  have halong : Runs.Along (step P) (fun _ _ => True) w events :=
    Runs.Along.of_forall (fun _ _ => trivial) w events
  refine Runs.invariant ?_ halong hw
  intro w e _ hw
  exact step_induct hp hloop (fun _ _ => hok _) (fun _ => hjob e.1) hw

end Webflash
end Hlk7621
