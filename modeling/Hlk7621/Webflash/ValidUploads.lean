import Hlk7621.Webflash.Nor
import Hlk7621.Webflash.Sources

/-!
# A valid upload is what was sent

The context claims a valid upload only for the complete body of the request that
was accepted last, received on one connection and still in RAM.  Its length is
the number in the `Content-Length` field if that number was written in decimal
digits and fits 32 bits; `simple_strtoul` reads other texts as other numbers.
-/

namespace Hlk7621
namespace Webflash

def Announces (header : Bytes) (size : Nat) : Prop :=
  exists value, headerValue header "Content-Length" 32 = .ok value ∧ value ≠ [] ∧
    (forall ch, ch ∈ value -> UBoot.IsDigit ch) ∧ UBoot.decimalValue value = size

def plainLength (header : Bytes) : Bool :=
  match headerValue header "Content-Length" 32 with
  | .ok value =>
      value.all (fun ch => decide (UBoot.IsDigit ch)) &&
        decide (UBoot.decimalValue value < 2 ^ 32)
  | .error _ => false

theorem announces_of_plainLength {header : Bytes} {size : Nat}
    (h : plainLength header = true) (hsize : getContentLength header = .ok size) :
    Announces header size := by
  unfold plainLength at h
  unfold getContentLength at hsize
  split at h
  · rename_i value hvalue
    simp only [Bool.and_eq_true, List.all_eq_true, decide_eq_true_eq] at h
    rw [hvalue] at hsize
    simp only [UBoot.simpleStrtoul_decimal h.1 h.2] at hsize
    split at hsize
    · cases hsize
    · rename_i hlength
      cases hsize
      refine ⟨value, hvalue, ?_, h.1, rfl⟩
      intro hnil
      simp [hnil] at hlength
  · cases h

/-!
## Events on the client
-/

/-- The event is an accept, a job step or concerns the current client; the RAM
image is not booted. -/
def onClient (w : World E) : Event -> Bool
  | .recv pcb _ _ => w.ctx.client == some pcb
  | .sent pcb _ => w.ctx.client == some pcb
  | .error pcb => w.ctx.client == some pcb
  | .poll pcb => w.ctx.client == some pcb
  | .bootTimer => false
  | _ => true

variable {E : Type} (P : Platform E)

def plainUpload (w : World E) (e : Event) : Bool :=
  match served w e with
  | none => true
  | some header => !acceptsUpload P (withHeader header w) || plainLength header

def SentInv (w : World E) : Prop :=
  Session P (fun header => plainLength header = true) none w ∧
    forall a, .bootm a ∉ w.log

variable {P}

theorem JobAccess.not_bootm {addr : Nat} : ¬ JobAccess (.bootm addr) := by
  intro h
  cases h

theorem step_not_booted {w : World E} {e : Nat × Event} (he : e.2 ≠ .bootTimer)
    (hw : forall a, .bootm a ∉ w.log) (a : Nat) : .bootm a ∉ (step P w e).log := by
  by_cases hjob : e.2 = .jobStep
  · rcases e with ⟨now, e⟩
    cases hjob
    unfold step
    split
    · exact hw a
    · rcases (jobRound_jobStep P now w).trace.log with ⟨accesses, haccess, hlog⟩
      dsimp only
      rw [hlog, List.mem_append]
      rintro (hnew | hold)
      · exact JobAccess.not_bootm (haccess _ hnew)
      · exact hw a hold
  · intro hmem
    rcases (step_extends hjob).mem hmem with (hreq | htimer) | hold
    · cases hreq
    · cases e with
      | mk now e =>
          cases htimer
          exact he rfl
    · exact hw a hold

theorem SentInv.step {w : World E} {e : Nat × Event}
    (he : onClient w e.2 = true) (hplain : plainUpload P w e.2 = true)
    (hw : SentInv P w) : SentInv P (step P w e) := by
  refine ⟨hw.1.step ?_ ?_, step_not_booted ?_ hw.2⟩
  · intro pcb hsource
    unfold Event.source at hsource
    split at hsource
    · rename_i pcb' chain err hrecv
      cases hsource
      rw [hrecv] at he
      exact Or.inl (by simpa [onClient] using he)
    · cases hsource
  · intro header hserved part size haccepted
    unfold plainUpload at hplain
    rw [hserved] at hplain
    simpa [haccepted.acceptsUpload] using hplain
  · intro hboot
    rw [hboot] at he
    cases he

/-!
## Valid uploads
-/

/-- In every run whose events concern the client and whose accepted uploads
have a plain `Content-Length`, every piece of a body comes, in order, from the
connection that announced it, and a valid upload is the complete body of the
request announced last, for the partition and with the length of its header, and
untouched in RAM since.  While a body is received, and until it has been
validated, no upload is valid. -/
theorem valid_upload_is_what_was_sent (P : Platform E) (loadAddr : Nat)
    (ram : Nat -> UInt8) (ext : E) (events : List (Nat × Event))
    (hclient : Runs.Along (step P) (fun w e => onClient w e.2 = true)
      (initial loadAddr ram ext) events)
    (hplain : Runs.Along (step P) (fun w e => plainUpload P w e.2 = true)
      (initial loadAddr ram ext) events) :
    let w := run P (initial loadAddr ram ext) events
    (w.ctx.uploadValid = true -> exists u, currentUpload w.log = some u ∧
      uploadTarget P.toBoard u.header = some u.part ∧
      w.ctx.uploadPart = some u.part ∧
      Announces u.header w.ctx.completedSize ∧
      u.body.length = w.ctx.completedSize ∧
      window w.ram w.ctx.completedAddr w.ctx.completedSize = u.body ∧
      w.ctx.uploadCrc = UBoot.crcOf 0#32 u.body) ∧
    (w.ctx.rxState = .upload -> w.ctx.uploadValid = false) ∧
    (concluded w.log = false -> w.ctx.uploadValid = false) ∧
    forall newer src offset data older,
      w.log = newer ++ .stored src offset data :: older ->
      exists u, currentUpload older = some u ∧ u.src = src ∧
        u.body.length = offset := by
  have hstart : SentInv P (initial loadAddr ram ext) :=
    ⟨session_initial loadAddr ram ext, fun a h => by cases h⟩
  have hrun : SentInv P (run P (initial loadAddr ram ext) events) :=
    Runs.invariant (fun w e he hw => hw.step he.1 he.2) (hclient.and hplain) hstart
  generalize run P (initial loadAddr ram ext) events = w at hrun
  refine ⟨?_, ?_, ?_, ?_⟩
  · intro hvalid
    rcases hrun.1.upload.ready hvalid with ⟨u, hu⟩
    have hgood := hrun.1.good u hu.current
    refine ⟨u, hu.current, hu.announced.target, hu.part, ?_, ?_, ?_, hu.crc⟩
    · rw [hu.size]
      exact announces_of_plainLength hgood hu.announced.length
    · rw [hu.size]
      exact hu.complete
    · exact hu.intact (Or.inr hrun.2)
  · intro hrx
    rcases hrun.1.upload.receiving hrx with ⟨u, hu⟩
    exact hu.invalid
  · intro hopen
    by_contra hvalid
    rcases hrun.1.upload.ready (by simpa using hvalid) with ⟨u, hu⟩
    exact absurd (hopen.symm.trans hu.conclusion) (by decide)
  · intro newer src offset data older hlog
    have hsourced := hrun.1.sourced
    rw [hlog] at hsourced
    exact sourced_split hsourced

theorem foreignFlash_upload_sent :
    let w := run (norPlatform hlk7621a)
      (initial 0x83000000 (fun _ => 0) (fun _ => 0xff)) foreignFlash
    w.ctx.uploadValid = true ∧ exists u, currentUpload w.log = some u ∧
      Announces u.header w.ctx.completedSize ∧
      window w.ram w.ctx.completedAddr w.ctx.completedSize = u.body := by
  have hrun : (Runs.Along (step (norPlatform hlk7621a)) (fun w e => onClient w e.2 = true)
        (initial 0x83000000 (fun _ => 0) (fun _ => 0xff)) foreignFlash ∧
      Runs.Along (step (norPlatform hlk7621a))
        (fun w e => plainUpload (norPlatform hlk7621a) w e.2 = true)
        (initial 0x83000000 (fun _ => 0) (fun _ => 0xff)) foreignFlash) ∧
      (run (norPlatform hlk7621a)
        (initial 0x83000000 (fun _ => 0) (fun _ => 0xff)) foreignFlash).ctx.uploadValid =
          true := by
    decide +kernel
  rcases hrun with ⟨⟨hclient, hplain⟩, hvalid⟩
  rcases (valid_upload_is_what_was_sent (norPlatform hlk7621a) 0x83000000
    (fun _ => 0) (fun _ => 0xff) foreignFlash hclient hplain).1 hvalid with
    ⟨u, hu, _, _, hlength, _, hbytes, _⟩
  exact ⟨hvalid, u, hu, hlength, hbytes⟩

def wrappedRequest : Bytes :=
  httpRequest "POST /api/upload/firmware" ["Content-Length: 4294967300"]

theorem wrappedRequest_becomes_valid :
    let w := run (norPlatform hlk7621a) hlk7621aStart
      (exchange 1 (wrappedRequest ++ str "kern"))
    Runs.Along (step (norPlatform hlk7621a)) (fun w e => onClient w e.2 = true)
      hlk7621aStart (exchange 1 (wrappedRequest ++ str "kern")) ∧
    w.ctx.uploadValid = true ∧
    ¬ exists u, currentUpload w.log = some u ∧
      Announces u.header w.ctx.completedSize := by
  -- The run is evaluated once for all that is needed of it.
  have hrun : Runs.Along (step (norPlatform hlk7621a)) (fun w e => onClient w e.2 = true)
        hlk7621aStart (exchange 1 (wrappedRequest ++ str "kern")) ∧
      (let w := run (norPlatform hlk7621a) hlk7621aStart
        (exchange 1 (wrappedRequest ++ str "kern"))
      w.ctx.uploadValid = true ∧
        (currentUpload w.log).map Upload.header = some wrappedRequest ∧
        w.ctx.completedSize = 4) := by
    decide +kernel
  rcases hrun with ⟨halong, hvalid, hcurrent, hsize⟩
  refine ⟨halong, hvalid, ?_⟩
  rw [hsize]
  rintro ⟨u, hu, value, hvalue, _, _, hnumber⟩
  rw [hu] at hcurrent
  have hheader : u.header = wrappedRequest := Option.some.inj hcurrent
  have hfield : headerValue wrappedRequest "Content-Length" 32 =
      .ok (str "4294967300") := by
    decide +kernel
  rw [hheader, hfield] at hvalue
  cases hvalue
  exact absurd hnumber (by decide)

end Webflash
end Hlk7621
