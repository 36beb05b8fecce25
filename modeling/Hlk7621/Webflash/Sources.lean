import Hlk7621.Webflash.Uploads

/-!
# The connection behind an upload

Only a callback that receives data adds to an upload, and it does not compare
its connection with the client.  As long as such callbacks come from the client,
every piece of an upload comes, in order, from the connection that announced it.
-/

namespace Hlk7621
namespace Webflash

/-- Every stored piece continues the upload under way and comes from the
connection that announced it. -/
def Sourced : List Action -> Prop
  | [] => True
  | .stored src offset _ :: log =>
      (exists u, currentUpload log = some u ∧ u.src = src ∧
        u.body.length = offset) ∧ Sourced log
  | _ :: log => Sourced log

theorem sourced_split {newer older : List Action} {src : Pcb} {offset : Nat}
    {data : Bytes} (h : Sourced (newer ++ .stored src offset data :: older)) :
    exists u, currentUpload older = some u ∧ u.src = src ∧
      u.body.length = offset := by
  induction newer with
  | nil => exact h.1
  | cons a newer ih =>
      refine ih ?_
      cases a with
      | stored => exact h.2
      | _ => exact h

theorem sourced_accesses {accesses log : List Action}
    (h : forall a, a ∈ accesses -> JobAccess a) (hlog : Sourced log) :
    Sourced (accesses ++ log) := by
  induction accesses with
  | nil => exact hlog
  | cons a accesses ih =>
      have hrest := ih (fun b hb => h b (List.mem_cons_of_mem a hb))
      have ha := h a List.mem_cons_self
      cases a with
      | erase => exact hrest
      | write => exact hrest
      | verify => exact hrest
      | _ => cases ha

def Event.source : Event -> Option Pcb
  | .recv pcb (some _) _ => some pcb
  | _ => none

variable {E : Type} (P : Platform E) (Good : Bytes -> Prop)

structure Session (source : Option Pcb) (w : World E) : Prop where
  upload : UploadInv P w
  sourced : Sourced w.log
  client : forall pcb, source = some pcb ->
    w.ctx.client = some pcb ∨ w.ctx.client = none
  origin : w.ctx.rxState = .upload -> forall pcb u, w.ctx.client = some pcb ->
    currentUpload w.log = some u -> u.src = pcb
  good : forall u, currentUpload w.log = some u -> Good u.header

variable {P} {Good} {source : Option Pcb} {w w' : World E}

theorem Session.congr (hw : Session P Good source w) (hupload : UploadInv P w')
    (hsourced : Sourced w'.log)
    (hcurrent : currentUpload w'.log = currentUpload w.log)
    (hrx : w'.ctx.rxState = .upload -> w.ctx.rxState = .upload)
    (hclient : w'.ctx.client = w.ctx.client ∨ w'.ctx.client = none) :
    Session P Good source w' where
  upload := hupload
  sourced := hsourced
  client := by
    intro pcb hpcb
    rcases hclient with hs | hn
    · rw [hs]
      exact hw.client pcb hpcb
    · exact Or.inr hn
  origin := by
    intro hup pcb u hpcb hu
    rw [hcurrent] at hu
    rcases hclient with hs | hn
    · exact hw.origin (hrx hup) pcb u (hs ▸ hpcb) hu
    · rw [hn] at hpcb
      cases hpcb
  good := by
    rw [hcurrent]
    exact hw.good

theorem Session.net (h : Quiet w w') (hw : Session P Good source w) :
    Session P Good source w' := by
  refine hw.congr (hw.upload.net h) ?_ (by rw [h.log]) ?_ h.client
  · rw [h.log]
    exact hw.sourced
  · intro hup
    rcases h.rxState with hs | hr
    · exact hs ▸ hup
    · exact absurd (hup.symm.trans hr) (by decide)

theorem Session.handler {cb : Call} (h : HandlerMove P cb w w')
    (hrx : w.ctx.rxState = .headers)
    (hok : forall part size, UploadAccepted P w part size -> Good w.ctx.header)
    (hw : Session P Good (some cb.pcb) w) :
    Session P Good (some cb.pcb) w' := by
  have hupload := hw.upload.handler h hrx
  cases h with
  | beginUpload part size ext h =>
      -- The callback announces the upload, and it is the client's.
      refine ⟨hupload, hw.sourced, hw.client, ?_, ?_⟩
      · intro _ pcb u hpcb hu
        have hsrc : u.src = cb.pcb := by
          cases hu
          rfl
        rcases hw.client cb.pcb rfl with hs | hn
        · exact hsrc.trans (Option.some.inj (hs.symm.trans hpcb))
        · cases hn.symm.trans hpcb
      · intro u hu
        cases hu
        exact hok part size h
  | beginBody size idle =>
      exact hw.congr hupload hw.sourced rfl (fun hup => by cases hup) (Or.inl rfl)
  | quiet => exact hw
  | startPlain part keep h plain =>
      exact hw.congr hupload hw.sourced rfl id (Or.inl rfl)
  | startFactory part keep old ext h eeprom length =>
      exact hw.congr hupload hw.sourced rfl id (Or.inl rfl)
  | startFailed part keep h eeprom failed =>
      exact hw.congr hupload hw.sourced rfl id (Or.inl rfl)
  | startReset p overlay h found =>
      exact hw.congr hupload hw.sourced rfl id (Or.inl rfl)
  | saveEnv ret ext idle => exact hw.congr hupload hw.sourced rfl id (Or.inl rfl)
  | bootRam part idle valid hpart ram =>
      exact hw.congr hupload hw.sourced rfl id (Or.inl rfl)
  | reboot path idle healthy fresh =>
      exact hw.congr hupload hw.sourced rfl id (Or.inl rfl)

theorem Session.store {cb : Call} {data : Bytes} (hw : Session P Good (some cb.pcb) w)
    (hupload : UploadInv P (storeBytes cb data w))
    (hrx : w.ctx.rxState = .upload) (hclient : w.ctx.client.isSome) :
    Session P Good (some cb.pcb) (storeBytes cb data w) := by
  have hself : w.ctx.client = some cb.pcb := by
    rcases hw.client cb.pcb rfl with hs | hn
    · exact hs
    · simp [hn] at hclient
  rcases hw.upload.receiving hrx with ⟨u, hu⟩
  have hsrc := hw.origin hrx cb.pcb u hself hu.current
  have hcurrent : currentUpload (storeBytes cb data w).log =
      some { u with body := u.body ++ data } := by
    show (currentUpload w.log).map _ = _
    rw [hu.current]
    rfl
  refine ⟨hupload, ⟨⟨u, hu.current, hsrc, hu.received.symm⟩, hw.sourced⟩,
    hw.client, ?_, ?_⟩
  · intro _ pcb u' hpcb hu'
    cases hcurrent.symm.trans hu'
    exact hsrc.trans (Option.some.inj (hself.symm.trans hpcb))
  · intro u' hu'
    cases hcurrent.symm.trans hu'
    exact hw.good u hu.current

theorem Session.body {cb : Call} (h : BodyMove P cb w w')
    (hw : Session P Good (some cb.pcb) w) : Session P Good (some cb.pcb) w' := by
  have hupload := hw.upload.body h
  cases h with
  | net h => exact hw.net h.toQuiet
  | stored data rx client fits => exact hw.store hupload rx client
  | exportFailed ext rx h =>
      refine hw.congr hupload ?_ (by rw [h.log]; rfl) (fun _ => rx) h.client
      rw [h.log]
      exact hw.sourced
  | validated ext rx full h answered =>
      have hcurrent := (validateUpload_underWay (P := P) (completed ext w)).2.2.1
      refine hw.congr hupload ?_ (by rw [h.log]; exact hcurrent) (fun _ => rx) ?_
      · rw [h.log]
        unfold validateUpload
        split
        · exact hw.sourced
        · dsimp only
          split
          · exact hw.sourced
          · exact hw.sourced
      · rcases h.client with hs | hn
        · exact Or.inl (hs.trans (validateUpload_client (completed ext w)))
        · exact Or.inr hn
  | savedEnv ret ext rx h =>
      refine hw.congr hupload ?_ (by rw [h.log]; rfl) ?_ h.client
      · rw [h.log]
        exact hw.sourced
      · intro hup
        rcases h.rxState with hs | hr
        · exact hs ▸ hup
        · exact absurd (hup.symm.trans hr) (by decide)

theorem preserves_session (cb : Call) :
    Preserves P cb
      (fun w => forall part size, UploadAccepted P w part size -> Good w.ctx.header)
      (Session P Good (some cb.pcb)) where
  net h hw := hw.net h.toQuiet
  header header hw := hw.congr ((preserves_uploadInv cb).header header hw.upload)
    hw.sourced rfl id (Or.inl rfl)
  handler h hrx _ hok hw := hw.handler h hrx hok
  body h hw := hw.body h

theorem Session.loop {e : Event} (h : LoopMove e w w')
    (hw : Session P Good e.source w) : Session P Good e.source w' := by
  have hupload := hw.upload.loop h
  cases h with
  | accepted cb err free =>
      exact ⟨hupload, hw.sourced, (fun _ h => by cases h), (fun h => by cases h),
        hw.good⟩
  | turnedAway cb err ext busy => exact hw.net (quiet_turnedAway ext _ w)
  | errored cb => exact hw.net (quiet_tcpError cb w)
  | booted pending => exact hw.congr hupload hw.sourced rfl id (Or.inl rfl)
  | bootFailed ram ext pending =>
      exact hw.congr hupload hw.sourced rfl id (Or.inl rfl)
  | reset pending => exact hw.congr hupload hw.sourced rfl id (Or.inl rfl)

theorem Session.jobStep (now : Nat) (hw : Session P Good source w) :
    Session P Good source (jobStep P now w) := by
  have hround := jobRound_jobStep P now w
  rcases hround.trace.log with ⟨accesses, haccess, hlog⟩
  refine hw.congr (hw.upload.jobStep now) ?_ ?_ ?_ (Or.inl ?_)
  · rw [hlog]
    exact sourced_accesses haccess hw.sourced
  · rw [hlog]
    exact (sameUploads_accesses haccess).current
  · rw [hround.kept Ctx.rxState (fun _ _ _ _ => rfl)]
    exact id
  · exact hround.kept Ctx.client (fun _ _ _ _ => rfl)

theorem Session.step {e : Nat × Event} (hw : Session P Good none w)
    (he : forall pcb, e.2.source = some pcb ->
      w.ctx.client = some pcb ∨ w.ctx.client = none)
    (hok : forall header, served w e.2 = some header -> forall part size,
      UploadAccepted P (withHeader header w) part size -> Good header) :
    Session P Good none (step P w e) := by
  have hstart : Session P Good e.2.source w :=
    ⟨hw.upload, hw.sourced, he, hw.origin, hw.good⟩
  have hrecv : forall pcb chain, e.2 = .recv pcb (some chain) .ok ->
      Preserves P ⟨pcb, e.1⟩
        (fun w => forall part size, UploadAccepted P w part size -> Good w.ctx.header)
        (Session P Good e.2.source) := by
    intro pcb chain h
    rw [h]
    exact preserves_session ⟨pcb, e.1⟩
  have hstep : Session P Good e.2.source (Webflash.step P w e) := by
    refine step_induct_at (fun h hw => hw.net h.toQuiet) hrecv
      (fun _ h hw => hw.loop h) ?_ (fun _ hw => hw.jobStep e.1) hstart
    intro header hserved part size h
    exact hok header hserved part size
      ⟨h.target, h.idle, h.length, h.sizeOk, h.inRam, h.reserved⟩
  exact ⟨hstep.upload, hstep.sourced, (fun _ h => by cases h), hstep.origin,
    hstep.good⟩

theorem session_initial (loadAddr : Nat) (ram : Nat -> UInt8) (ext : E) :
    Session P Good none (initial loadAddr ram ext) :=
  ⟨uploadInv_initial loadAddr ram ext, trivial, (fun _ h => by cases h),
    (fun h => by cases h), (fun _ h => by cases h)⟩

end Webflash
end Hlk7621
