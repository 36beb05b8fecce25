import Hlk7621.Env.Agreement
import Hlk7621.Env.Redundant

/-!
# The redundant environment and power cuts

A save never touches the copy that the program runs with before the other copy is
complete, so after every fault a load finds one of the two.  The flags of the two
copies only decide which; the tool reads them in another way than the program, and
the two agree on the pairs of flags that saves write.
-/

namespace Hlk7621
namespace Env

/-!
## The choice of a copy
-/

/-- The copy that a load takes if one of them passes the check of the CRC. -/
def pick (env1 env2 : EnvT) : Slot :=
  if env1.crcOk ∧ !env2.crcOk then .first
  else if !env1.crcOk ∧ env2.crcOk then .second
  else if env1.flags = 255 ∧ env2.flags = 0 then .second
  else if env2.flags = 255 ∧ env1.flags = 0 then .first
  else if env1.flags.toNat > env2.flags.toNat then .first
  else if env2.flags.toNat > env1.flags.toNat then .second
  else .first

def Flash.pick (flash : Flash) : Slot := Env.pick flash.first.env flash.second.env

/-- The copy that `fw_env_open` takes on NOR flash. -/
def Flash.toolPick (flash : Flash) : Slot :=
  fwEnvOpen .boolean flash.first.env flash.second.env

def EnvValid.slot (envValid : EnvValid) : Slot :=
  if envValid = .valid then .first else .second

theorem newSlot_eq (envValid : EnvValid) : envValid.newSlot = envValid.slot.other := by
  cases envValid <;> rfl

theorem envSfLoad_pick (cfg : RedundConfig) {flash : Flash}
    (hok : flash.first.env.crcOk = true ∨ flash.second.env.crcOk = true) :
    (envSfLoad cfg flash).ram.envValid.slot = flash.pick ∧
      (envSfLoad cfg flash).ram.envValid ≠ .invalid ∧
      (envSfLoad cfg flash).data = some (flash.region flash.pick).env.data ∧
      (envSfLoad cfg flash).table = envImport cfg.toConfig 0 false false none
        ⟨(flash.region flash.pick).env.crc, (flash.region flash.pick).env.data⟩ := by
  have hcheck : exists envValid, envCheckRedund cfg flash.first.env false flash.second.env false
      .invalid = (0, envValid, flash.first.env) ∧ envValid.slot = flash.pick ∧
        envValid ≠ .invalid := by
    unfold envCheckRedund Flash.pick pick
    cases h1 : flash.first.env.crcOk with
    | true =>
        cases h2 : flash.second.env.crcOk with
        | true =>
            simp only [Bool.false_eq_true, false_and, if_false, Bool.not_false, Bool.true_and,
              Bool.not_true, and_false, true_and]
            split
            · exact ⟨_, rfl, rfl, by simp⟩
            · split
              · exact ⟨_, rfl, rfl, by simp⟩
              · split
                · exact ⟨_, rfl, rfl, by simp⟩
                · split
                  · exact ⟨_, rfl, rfl, by simp⟩
                  · exact ⟨_, rfl, rfl, by simp⟩
        | false => exact ⟨.valid, by simp, rfl, by simp⟩
    | false =>
        cases h2 : flash.second.env.crcOk with
        | true => exact ⟨.redund, by simp, rfl, by simp⟩
        | false =>
            rw [h1, h2] at hok
            simp at hok
  rcases hcheck with ⟨envValid, hcheck, hslot, hne⟩
  have hep : (if envValid = .valid then flash.first.env else flash.second.env) =
      (flash.region flash.pick).env := by
    rw [<- hslot]
    cases envValid <;> rfl
  unfold envSfLoad envImportRedund
  rw [hcheck]
  simp only [ne_eq, not_true_eq_false, if_false, hep]
  exact ⟨hslot, hne, trivial, trivial⟩

/-- The flags that are read in the same way as a boolean and as a serial number. -/
def BoolFlag (flag : UInt8) : Prop := flag = 0 ∨ flag = 1 ∨ flag = 255

/-- A load finds one of the environments, and the tool finds the same copy. -/
structure Safe (flash : Flash) (allowed : List Bytes) : Prop where
  ok : (flash.region flash.pick).env.crcOk = true
  data : (flash.region flash.pick).env.data ∈ allowed
  tool : flash.toolPick = flash.pick
  flag : flash.pick = .second -> BoolFlag flash.second.env.flags

structure Active (flash : Flash) (slot : Slot) (allowed : List Bytes) : Prop where
  ok : (flash.region slot).env.crcOk = true
  data : (flash.region slot).env.data ∈ allowed
  flag : slot = .second -> BoolFlag flash.second.env.flags

theorem Safe.active {flash : Flash} {allowed : List Bytes} (h : Safe flash allowed) :
    Active flash flash.pick allowed :=
  ⟨h.ok, h.data, h.flag⟩

theorem Safe.some_ok {flash : Flash} {allowed : List Bytes} (h : Safe flash allowed) :
    flash.first.env.crcOk = true ∨ flash.second.env.crcOk = true := by
  have hok := h.ok
  cases hpick : flash.pick with
  | first =>
      rw [hpick] at hok
      exact Or.inl hok
  | second =>
      rw [hpick] at hok
      exact Or.inr hok

section

variable {flash : Flash} {slot : Slot} {allowed : List Bytes}

theorem Active.safe_of_bad (h : Active flash slot allowed)
    (hbad : (flash.region slot.other).env.crcOk = false) : Safe flash allowed := by
  have hpick : flash.pick = slot ∧ flash.toolPick = slot := by
    have hok := h.ok
    unfold Flash.pick pick Flash.toolPick fwEnvOpen
    cases slot with
    | first =>
        simp only [Flash.region, Slot.other] at hok hbad
        simp [hok, hbad]
    | second =>
        simp only [Flash.region, Slot.other] at hok hbad
        simp [hok, hbad]
  refine ⟨?_, ?_, hpick.right.trans hpick.left.symm, ?_⟩
  · rw [hpick.left]
    exact h.ok
  · rw [hpick.left]
    exact h.data
  · rw [hpick.left]
    exact h.flag

theorem Active.safe_of_written (h : Active flash slot allowed)
    (hok : (flash.region slot.other).env.crcOk = true)
    (hflags : (flash.region slot.other).env.flags = ENV_REDUND_ACTIVE)
    (hdata : (flash.region slot.other).env.data ∈ allowed) : Safe flash allowed := by
  have hok' := h.ok
  have hdata' := h.data
  have hflag := h.flag
  have hboth : flash.first.env.crcOk = true ∧ flash.second.env.crcOk = true ∧
      flash.first.env.data ∈ allowed ∧ flash.second.env.data ∈ allowed := by
    cases slot with
    | first => exact ⟨hok', hok, hdata', hdata⟩
    | second => exact ⟨hok, hok', hdata, hdata'⟩
  rcases hboth with ⟨h1, h2, hd1, hd2⟩
  have hany : forall s, (flash.region s).env.crcOk = true ∧
      (flash.region s).env.data ∈ allowed := by
    intro s
    cases s with
    | first => exact ⟨h1, hd1⟩
    | second => exact ⟨h2, hd2⟩
  have hpick : flash.toolPick = flash.pick ∧
      (flash.pick = .second -> BoolFlag flash.second.env.flags) := by
    unfold Flash.pick pick Flash.toolPick fwEnvOpen
    simp only [h1, h2]
    cases slot with
    | first =>
        have h1' : flash.second.env.flags = 1 := hflags
        rw [h1']
        refine ⟨?_, fun _ => Or.inr (Or.inl rfl)⟩
        generalize flash.first.env.flags = f
        by_cases h0 : f = 0
        · subst h0
          rfl
        · have hpos : 0 < f.toNat := by
            rw [Nat.pos_iff_ne_zero]
            intro hz
            exact h0 (UInt8.toNat_inj.mp hz)
          simp [h0, ENV_REDUND_ACTIVE, ENV_REDUND_OBSOLETE]
          lia
    | second =>
        have h1' : flash.first.env.flags = 1 := hflags
        rw [h1']
        refine ⟨?_, fun _ => hflag rfl⟩
        rcases hflag rfl with hf | hf | hf <;> rw [hf] <;> rfl
  exact ⟨(hany _).left, (hany _).right, hpick.left, hpick.right⟩

end

/-!
## The operations of a save
-/

def Outcome.Meets (o : Outcome) (stop next : Flash -> Prop) : Prop :=
  match o with
  | .next flash => next flash
  | .error flash => stop flash
  | .cut flash => stop flash

theorem Outcome.Meets.bind {o : Outcome} {k : Flash -> Outcome} {P Q R : Flash -> Prop}
    (h : o.Meets P Q) (hk : forall flash, Q flash -> (k flash).Meets P R) :
    (o.bind k).Meets P R := by
  cases o with
  | next flash => exact hk flash h
  | error flash => exact h
  | cut flash => exact h

theorem Fate.act_meets {α : Type} {fate : Fate α} {finish : Flash} {leave : α -> Flash}
    {stop next : Flash -> Prop} (hnext : next finish) (hstop : forall left, stop (leave left)) :
    (fate.act finish leave).Meets stop next := by
  cases fate with
  | done => exact hnext
  | error left => exact hstop left
  | cut left => exact hstop left

@[simp] theorem region_set (flash : Flash) (slot : Slot) (region : Region) :
    (flash.set slot region).region slot = region := by
  cases slot <;> rfl

@[simp] theorem region_set_other (flash : Flash) (slot : Slot) (region : Region) :
    (flash.set slot.other region).region slot = flash.region slot := by
  cases slot <;> rfl

@[simp] theorem region_other_set (flash : Flash) (slot : Slot) (region : Region) :
    (flash.set slot region).region slot.other = flash.region slot.other := by
  cases slot <;> rfl

theorem other_other (slot : Slot) : slot.other.other = slot := by
  cases slot <;> rfl

theorem Active.congr {flash flash' : Flash} {slot : Slot} {allowed : List Bytes}
    (h : Active flash slot allowed)
    (hsame : (flash'.region slot).env = (flash.region slot).env) :
    Active flash' slot allowed := by
  refine ⟨by rw [hsame]; exact h.ok, by rw [hsame]; exact h.data, ?_⟩
  rintro rfl
  have hsame' : flash'.second.env = flash.second.env := hsame
  rw [hsame']
  exact h.flag rfl

theorem Active.mono {flash : Flash} {slot : Slot} {allowed allowed' : List Bytes}
    (h : Active flash slot allowed) (hsub : allowed ⊆ allowed') : Active flash slot allowed' :=
  ⟨h.ok, hsub h.data, h.flag⟩

theorem Safe.mono {flash : Flash} {allowed allowed' : List Bytes} (h : Safe flash allowed)
    (hsub : allowed ⊆ allowed') : Safe flash allowed' :=
  ⟨h.ok, hsub h.data, h.tool, h.flag⟩

theorem zipWith_ff {data : Bytes} :
    List.zipWith (· &&& ·) (List.replicate data.length 0xff) data = data := by
  induction data with
  | nil => rfl
  | cons c data ih =>
      rw [List.length_cons, List.replicate_succ, List.zipWith_cons_cons, ih]
      congr 1
      exact UInt8.neg_one_and

theorem program_erased {new : EnvT} {envSize : Nat} (hlen : new.data.length = envSize) :
    (EnvT.erased envSize).program new = new := by
  have hcrc : (0xffffffff#32 : BitVec 32) &&& new.crc = new.crc := by
    have hones : (0xffffffff#32 : BitVec 32) = BitVec.allOnes 32 := by decide
    rw [hones, BitVec.allOnes_and]
  have hflags : (0xff : UInt8) &&& new.flags = new.flags := UInt8.neg_one_and
  subst hlen
  unfold EnvT.program EnvT.erased
  dsimp only
  rw [hcrc, hflags, zipWith_ff]

section

variable {cfg : RedundConfig} {flash : Flash} {slot : Slot} {allowed : List Bytes} {new : EnvT}

def Stopped (slot : Slot) (allowed : List Bytes) (new : EnvT) (f : Flash) : Prop :=
  Active f slot (new.data :: allowed) ∧ Safe f (new.data :: allowed)

theorem Active.stopped_of_bad (h : Active flash slot allowed)
    (hbad : (flash.region slot.other).env.crcOk = false) : Stopped slot allowed new flash := by
  have h' := h.mono (List.subset_cons_self new.data allowed)
  exact ⟨h', h'.safe_of_bad hbad⟩

theorem Active.stopped_of_written (h : Active flash slot allowed) (hok : new.crcOk = true)
    (hflags : new.flags = ENV_REDUND_ACTIVE)
    (hnew : (flash.region slot.other).env = new) : Stopped slot allowed new flash := by
  have h' := h.mono (List.subset_cons_self new.data allowed)
  refine ⟨h', h'.safe_of_written ?_ ?_ ?_⟩
  · rw [hnew]
    exact hok
  · rw [hnew]
    exact hflags
  · rw [hnew]
    exact List.mem_cons_self

theorem eraseRegion_meets (fate : Fate Left) (h : Active flash slot allowed)
    (hsafe : Safe flash allowed) :
    (eraseRegion cfg fate slot.other flash).Meets (Stopped slot allowed new) fun f =>
      Active f slot allowed ∧ (f.region slot.other).env = .erased cfg.envSize := by
  have hsub := List.subset_cons_self new.data allowed
  have hkeep : forall region, Active (flash.set slot.other region) slot allowed :=
    fun region => h.congr (by simp)
  refine Fate.act_meets ⟨hkeep _, by simp⟩ ?_
  intro left
  cases left with
  | untouched =>
      have hsame : flash.set slot.other (flash.region slot.other) = flash := by
        cases slot <;> rfl
      simp only [Left.region, hsame]
      exact ⟨h.mono hsub, hsafe.mono hsub⟩
  | damaged env rest bad => exact (hkeep _).stopped_of_bad (by simpa [Left.region] using bad)
  | finished =>
      exact (hkeep _).stopped_of_bad (by simpa [Left.region] using cfg.erased_bad)

theorem writeEnv_meets (fate : Fate Left) (hok : new.crcOk = true)
    (hflags : new.flags = ENV_REDUND_ACTIVE) (hlen : new.data.length = cfg.envSize)
    (h : Active flash slot allowed)
    (herased : (flash.region slot.other).env = .erased cfg.envSize) :
    (writeEnv fate slot.other new flash).Meets (Stopped slot allowed new) fun f =>
      Active f slot allowed ∧ (f.region slot.other).env = new := by
  have hkeep : forall region, Active (flash.set slot.other region) slot allowed :=
    fun region => h.congr (by simp)
  have hwritten : (flash.region slot.other).env.program new = new := by
    rw [herased, program_erased hlen]
  refine Fate.act_meets ⟨hkeep _, by simpa using hwritten⟩ ?_
  intro left
  cases left with
  | untouched =>
      refine (hkeep _).stopped_of_bad ?_
      rw [region_set, Left.region, herased]
      exact cfg.erased_bad
  | damaged env rest bad => exact (hkeep _).stopped_of_bad (by simpa [Left.region] using bad)
  | finished =>
      exact (hkeep _).stopped_of_written hok hflags (by simpa [Left.region] using hwritten)

theorem writeRest_meets (fate : Fate Bytes) (saved : Bytes) (hok : new.crcOk = true)
    (hflags : new.flags = ENV_REDUND_ACTIVE) (h : Active flash slot allowed)
    (hnew : (flash.region slot.other).env = new) :
    (writeRest fate slot.other saved flash).Meets (Stopped slot allowed new) fun f =>
      Active f slot allowed ∧ (f.region slot.other).env = new := by
  have hkeep : forall rest, Active (flash.set slot.other
      { flash.region slot.other with rest := rest }) slot allowed :=
    fun rest => h.congr (by simp)
  refine Fate.act_meets ⟨hkeep _, by simpa using hnew⟩ ?_
  intro rest
  exact (hkeep rest).stopped_of_written hok hflags (by simpa using hnew)

theorem writeFlag_meets (fate : Fate Bool) (hok : new.crcOk = true)
    (hflags : new.flags = ENV_REDUND_ACTIVE) (h : Active flash slot allowed)
    (hnew : (flash.region slot.other).env = new) :
    (writeFlag fate slot ENV_REDUND_OBSOLETE flash).Meets (Stopped slot allowed new) fun f =>
      Active f slot.other [new.data] ∧ Safe f [new.data] := by
  -- The flash with the flag cleared.
  generalize hf : flash.set slot { flash.region slot with
    env := { (flash.region slot).env with
      flags := (flash.region slot).env.flags &&& ENV_REDUND_OBSOLETE } } = f
  have hzero : (f.region slot).env.flags = 0 := by
    rw [<- hf, region_set]
    exact UInt8.and_zero
  have hother : (f.region slot.other).env = new := by
    rw [<- hf, region_other_set]
    exact hnew
  have hold : Active f slot allowed := by
    refine ⟨?_, ?_, ?_⟩
    · rw [<- hf, region_set]
      exact h.ok
    · rw [<- hf, region_set]
      exact h.data
    · rintro rfl
      exact Or.inl hzero
  have hactive : Active f slot.other [new.data] := by
    refine ⟨by rw [hother]; exact hok, by rw [hother]; simp, ?_⟩
    intro hs
    rw [hs] at hother
    have hsecond : f.second.env = new := hother
    rw [hsecond, hflags]
    exact Or.inr (Or.inl rfl)
  have hpick : f.pick = slot.other := by
    have h1 := hold.ok
    unfold Flash.pick pick
    cases slot with
    | first =>
        simp only [Flash.region, Slot.other] at h1 hother hzero ⊢
        rw [hother] at *
        simp [h1, hok, hzero, hflags, ENV_REDUND_ACTIVE]
    | second =>
        simp only [Flash.region, Slot.other] at h1 hother hzero ⊢
        rw [hother] at *
        simp [h1, hok, hzero, hflags, ENV_REDUND_ACTIVE]
  have hstopped := hold.stopped_of_written hok hflags hother
  have hsafe : Safe f [new.data] := by
    refine ⟨hstopped.right.ok, ?_, hstopped.right.tool, hstopped.right.flag⟩
    rw [hpick, hother]
    exact List.mem_singleton_self _
  unfold writeFlag
  dsimp only
  rw [hf]
  refine Fate.act_meets ⟨hactive, hsafe⟩ ?_
  intro done
  cases done with
  | true => exact hstopped
  | false => exact h.stopped_of_written hok hflags hnew

/-- Wherever a save stops, a load finds the active copy or the new one. -/
theorem saveOperations_meets (faults : Faults) (new : EnvT) (hok : new.crcOk = true)
    (hflags : new.flags = ENV_REDUND_ACTIVE) (hlen : new.data.length = cfg.envSize)
    (h : Active flash slot allowed) (hsafe : Safe flash allowed) :
    (saveOperations cfg faults slot.other new flash).Meets (Stopped slot allowed new) fun f =>
      Active f slot.other [new.data] ∧ Safe f [new.data] := by
  have hsub := List.subset_cons_self new.data allowed
  have hstart : Stopped slot allowed new flash := ⟨h.mono hsub, hsafe.mono hsub⟩
  unfold saveOperations
  dsimp only
  refine Outcome.Meets.bind (Q := fun f => f = flash) ?_ ?_
  · split
    · split
      · exact hstart
      · exact Fate.act_meets rfl fun _ => hstart
    · exact rfl
  · rintro _ rfl
    refine (eraseRegion_meets faults.erase h hsafe).bind ?_
    rintro f ⟨hf, herased⟩
    refine (writeEnv_meets faults.writeEnv hok hflags hlen hf herased).bind ?_
    rintro f ⟨hf, hnew⟩
    refine Outcome.Meets.bind (Q := fun f => Active f slot allowed ∧
      (f.region slot.other).env = new) ?_ ?_
    · split
      · exact writeRest_meets faults.writeRest _ hok hflags hf hnew
      · exact ⟨hf, hnew⟩
    · rintro f ⟨hf, hnew⟩
      rw [other_other]
      exact writeFlag_meets faults.writeFlag hok hflags hf hnew

end

/-!
## Runs
-/

def History.allowed (history : History) : List Bytes := history.completed :: history.interrupted

def imported (cfg : RedundConfig) (data : Bytes) : Option Htab :=
  envImport cfg.toConfig 0 false false none ⟨UBoot.crc32 0#32 0 data, data⟩

/-- Every name in the table is a string without `=` and has a character that is not a
blank. -/
def NamesParse (htab : Htab) : Prop :=
  forall e, e ∈ sortedEntries htab -> Plain e ∧ e.key.dropWhile isBlank ≠ []

theorem imported_export (cfg : RedundConfig) {htab : Htab} (hnames : NamesParse htab)
    {data : Bytes} (hexport : hexportR htab 0 cfg.envSize = some data) :
    (imported cfg data).isSome = true := by
  have hlen := hexportR_length cfg.size_pos hexport
  have hne : data ≠ [] := List.length_pos_iff.mp (by rw [hlen]; exact cfg.size_pos)
  have htable : importTable cfg.toConfig false none data.length =
      hcreateR (min (cfg.minEntries + cfg.envSize / 8) cfg.maxEntries) := by
    rw [hlen]
    rfl
  rcases himportInto_entered 0 hne (wf_hcreateR cfg.nent cfg.nent_lt)
    (represents_hcreateR _) with ⟨ret, htab', _, himport, _, _, _, _, hret⟩
  have hone : ret = 1 := by
    rcases hret with h | h
    · exact h
    · rw [text_append_nul (hexportR_text hexport)] at h
      rcases mem_commands (fun e he => (hnames e he).left) h with
        (h | ⟨_, h⟩) | ⟨pre, e, ⟨⟨post, hpost⟩, _⟩, h⟩
      · cases h
      · cases h
      · have hblank := (hnames e (by simp [hpost])).right
        unfold entryCommand at h
        dsimp only at h
        rw [if_neg hblank] at h
        split at h
        · cases h
        · split at h <;> cases h
  unfold imported envImport
  rw [if_neg (by simp), himportR, htable, himport]
  simp [hone]

structure Invariant (cfg : RedundConfig) (d : Device) : Prop where
  safe : Safe d.flash d.history.allowed
  active (ram : Ram) (hram : d.ram = some ram) : Active d.flash ram.envValid.slot d.history.allowed
  imports (data : Bytes) (h : data ∈ d.history.allowed) : (imported cfg data).isSome = true

section

variable {cfg : RedundConfig} {d d' : Device}

theorem Invariant.load (h : Invariant cfg d) :
    Invariant cfg { d with ram := some (envSfLoad cfg d.flash).ram } := by
  refine ⟨h.safe, ?_, h.imports⟩
  intro ram hram
  cases hram
  rw [(envSfLoad_pick cfg h.safe.some_ok).left]
  exact h.safe.active

theorem envExport_data {htab : Htab} {block : Block}
    (h : envExport cfg.toConfig 0 htab = some block) :
    hexportR htab 0 cfg.envSize = some block.data ∧
      block.crc = UBoot.crc32 0#32 0 block.data := by
  unfold envExport at h
  rcases Option.map_eq_some_iff.mp h with ⟨data, hdata, rfl⟩
  exact ⟨hdata, rfl⟩

theorem slot_toggle (envValid : EnvValid) :
    (if envValid = .valid then EnvValid.redund else .valid).slot = envValid.slot.other := by
  cases envValid <;> rfl

theorem Invariant.stopped (h : Invariant cfg d) (slot : Slot) {htab : Htab} {block : Block}
    (hnames : NamesParse htab) (hexport : envExport cfg.toConfig 0 htab = some block)
    {flash : Flash} {envRam : Option Ram}
    (hram : forall ram, envRam = some ram -> ram.envValid.slot = slot)
    (hactive : forall ram, envRam = some ram ->
      Active flash slot (block.data :: d.history.allowed))
    (hsafe : Safe flash (block.data :: d.history.allowed)) :
    Invariant cfg ⟨flash, envRam, d.history.after false block.data⟩ := by
  have hsub : block.data :: d.history.allowed ⊆
      (d.history.after false block.data).allowed := by
    intro x hx
    simp only [History.allowed, History.after, List.mem_cons] at hx ⊢
    simp only [Bool.false_eq_true, if_false, List.mem_cons]
    tauto
  refine ⟨hsafe.mono hsub, ?_, ?_⟩
  · intro ram hr
    rw [hram ram hr]
    exact (hactive ram hr).mono hsub
  · intro data hdata
    have hmem : data = block.data ∨ data ∈ d.history.allowed := by
      simp only [History.allowed, History.after, Bool.false_eq_true, if_false,
        List.mem_cons] at hdata ⊢
      tauto
    rcases hmem with rfl | hmem
    · exact imported_export cfg hnames (envExport_data hexport).left
    · exact h.imports data hmem

theorem Invariant.save (h : Invariant cfg d) {htab : Htab} (faults : Faults)
    (hnames : NamesParse htab) (hstep : d.step cfg (.save htab faults) = some d') :
    Invariant cfg d' := by
  unfold Device.step at hstep
  cases hram : d.ram with
  | none => simp [hram] at hstep
  | some ram =>
      rw [hram] at hstep
      dsimp only at hstep
      have hactive := h.active ram hram
      cases hexport : envExport cfg.toConfig 0 htab with
      | none =>
          rw [hexport] at hstep
          cases hstep
          have hsaved : (envSfSave cfg faults htab d.flash ram).flash = d.flash ∧
              forall r, (envSfSave cfg faults htab d.flash ram).ram = some r -> r = ram := by
            unfold envSfSave
            rw [hexport]
            cases faults.probe <;> simp
          refine ⟨by rw [hsaved.left]; exact h.safe, ?_, h.imports⟩
          intro r hr
          rw [hsaved.right r hr, hsaved.left]
          exact hactive
      | some block =>
          rw [hexport] at hstep
          cases hstep
          rcases envExport_data hexport with ⟨hdata, hcrc⟩
          have hsub := List.subset_cons_self block.data d.history.allowed
          have hmeets := saveOperations_meets faults
            ⟨block.crc, ENV_REDUND_ACTIVE, block.data⟩ (by simp [EnvT.crcOk, hcrc]) rfl
            (hexportR_length cfg.size_pos hdata) hactive h.safe
          rw [<- newSlot_eq] at hmeets
          unfold envSfSave
          cases hprobe : faults.probe with
          | cut _ =>
              refine h.stopped ram.envValid.slot hnames hexport ?_ ?_
                (h.safe.mono hsub)
              · simp
              · simp
          | error _ =>
              refine h.stopped ram.envValid.slot hnames hexport ?_ ?_
                (h.safe.mono hsub)
              · simp
              · exact fun _ _ => hactive.mono hsub
          | done =>
              rw [hexport]
              dsimp only
              cases hops : saveOperations cfg faults ram.envValid.newSlot
                ⟨block.crc, ENV_REDUND_ACTIVE, block.data⟩ d.flash with
              | cut f =>
                  rw [hops] at hmeets
                  refine h.stopped ram.envValid.slot hnames hexport ?_ ?_ hmeets.right
                  · simp
                  · simp
              | error f =>
                  rw [hops] at hmeets
                  refine h.stopped ram.envValid.slot hnames hexport ?_ ?_ hmeets.right
                  · simp
                  · exact fun _ _ => hmeets.left
              | next f =>
                  rw [hops] at hmeets
                  refine ⟨hmeets.right, ?_, ?_⟩
                  · intro r hr
                    cases hr
                    dsimp only
                    rw [slot_toggle, <- newSlot_eq]
                    exact hmeets.left
                  · intro data hmem
                    rw [List.mem_singleton.mp hmem]
                    exact imported_export cfg hnames hdata

theorem Invariant.run (h : Invariant cfg d) {events : List Event}
    (hnames : forall htab faults, .save htab faults ∈ events -> NamesParse htab)
    (hrun : d.run cfg events = some d') : Invariant cfg d' := by
  induction events generalizing d with
  | nil =>
      cases hrun
      exact h
  | cons event events ih =>
      rw [Device.run] at hrun
      have hnames' : forall htab faults, .save htab faults ∈ events -> NamesParse htab :=
        fun htab faults hmem => hnames htab faults (List.mem_cons_of_mem _ hmem)
      cases hstep : d.step cfg event with
      | none => simp [hstep] at hrun
      | some next =>
          rw [hstep] at hrun
          refine ih ?_ hnames' hrun
          cases event with
          | load =>
              cases hstep
              exact h.load
          | save htab faults =>
              exact h.save faults (hnames htab faults List.mem_cons_self) hstep

end

/-!
## The start of a run
-/

/-- One copy passes the check of the CRC, and the flags are a pair that the program and
the tool read in the same way.  If the second copy is taken, its flag has to be one
that they also read in the same way beside the flag of a new first copy. -/
def Compatible (flash : Flash) : Prop :=
  match flash.first.env.crcOk, flash.second.env.crcOk with
  | true, false => True
  | false, true => BoolFlag flash.second.env.flags
  | true, true =>
      (flash.second.env.flags.toNat ≤ flash.first.env.flags.toNat ∧
        ¬ (flash.first.env.flags = 255 ∧ flash.second.env.flags = 0)) ∨
      (flash.first.env.flags = 0 ∧ flash.second.env.flags = 1) ∨
      (flash.first.env.flags ≠ 0 ∧ flash.second.env.flags = 255)
  | false, false => False

theorem Compatible.some_ok {flash : Flash} (h : Compatible flash) :
    flash.first.env.crcOk = true ∨ flash.second.env.crcOk = true := by
  unfold Compatible at h
  cases h1 : flash.first.env.crcOk with
  | true => exact Or.inl rfl
  | false =>
      cases h2 : flash.second.env.crcOk with
      | true => exact Or.inr rfl
      | false => simp [h1, h2] at h

theorem Compatible.agrees {flash : Flash} (h : Compatible flash) :
    (flash.region flash.pick).env.crcOk = true ∧ flash.toolPick = flash.pick ∧
      (flash.pick = .second -> BoolFlag flash.second.env.flags) := by
  unfold Compatible at h
  unfold Flash.pick pick Flash.toolPick fwEnvOpen
  cases h1 : flash.first.env.crcOk with
  | true =>
      cases h2 : flash.second.env.crcOk with
      | false => simp [Flash.region, h1]
      | true =>
          rw [h1, h2] at h
          dsimp only at h
          have hany : forall slot, (flash.region slot).env.crcOk = true := by
            intro slot
            cases slot with
            | first => exact h1
            | second => exact h2
          refine ⟨hany _, ?_⟩
          simp only [Bool.not_true, Bool.false_eq_true, and_false, false_and, if_false]
          generalize flash.first.env.flags = f1 at h ⊢
          generalize flash.second.env.flags = f2 at h ⊢
          rcases h with ⟨hle, hwrap⟩ | ⟨h0, h1⟩ | ⟨h0, h255⟩
          · rw [if_neg hwrap]
            have hzero : ¬ (f2 = 255 ∧ f1 = 0) := by
              rintro ⟨rfl, rfl⟩
              exact absurd hle (by decide)
            have hone : ¬ (f1 = ENV_REDUND_OBSOLETE ∧ f2 = ENV_REDUND_ACTIVE) := by
              rintro ⟨rfl, rfl⟩
              exact absurd hle (by decide)
            have hmax : f1 ≠ f2 -> f2 ≠ 0xff := by
              rintro hne rfl
              have hlt : f1.toNat < 256 := f1.toNat_lt
              have h255 : (255 : UInt8).toNat = 255 := rfl
              exact hne (UInt8.toNat_inj.mp (by lia))
            have hgt : ¬ f2.toNat > f1.toNat := by lia
            rw [if_neg hzero, if_neg hone]
            simp only [hgt, if_false, ite_self]
            refine ⟨?_, by simp⟩
            split
            · rfl
            · split
              · rfl
              · split
                · rfl
                · rename_i hne _
                  rw [if_neg (hmax hne)]
          · subst h0 h1
            exact ⟨rfl, fun _ => Or.inr (Or.inl rfl)⟩
          · subst h255
            refine ⟨?_, fun _ => Or.inr (Or.inr rfl)⟩
            have hlt : f1.toNat < 256 := f1.toNat_lt
            have h255 : (255 : UInt8).toNat = 255 := rfl
            by_cases hmax : f1 = 255
            · subst hmax
              rfl
            · have hlt' : f1.toNat < 255 := by
                have : f1.toNat ≠ 255 := fun hn => hmax (UInt8.toNat_inj.mp hn)
                lia
              simp [h0, hmax, ENV_REDUND_OBSOLETE, hlt']
              lia
  | false =>
      cases h2 : flash.second.env.crcOk with
      | false => simp [h1, h2] at h
      | true =>
          rw [h1, h2] at h
          dsimp only at h
          simp [Flash.region, h2, h]

theorem envImport_unchecked (cfg : RedundConfig) (crc : BitVec 32) (data : Bytes) :
    envImport cfg.toConfig 0 false false none ⟨crc, data⟩ = imported cfg data := by
  unfold imported envImport
  simp

theorem Safe.load (cfg : RedundConfig) {flash : Flash} {allowed : List Bytes}
    (h : Safe flash allowed) : exists data, data ∈ allowed ∧
      (envSfLoad cfg flash).data = some data ∧
      (envSfLoad cfg flash).table = imported cfg data := by
  rcases envSfLoad_pick cfg h.some_ok with ⟨_, _, hdata, htable⟩
  rw [envImport_unchecked] at htable
  exact ⟨_, h.data, hdata, htable⟩

/-- From a device that loads an environment with flags that the program and the tool
read in the same way, every load in a run imports the environment of the last save
that has been successful or of one that has failed or been cut since, and the tool
selects the same copy. -/
theorem redundant_environment_survives (cfg : RedundConfig) (flash : Flash) (data : Bytes)
    (table : Htab) (events : List Event) (d : Device)
    (hdata : (envSfLoad cfg flash).data = some data)
    (htable : (envSfLoad cfg flash).table = some table) (hcompat : Compatible flash)
    (hnames : forall htab faults, .save htab faults ∈ events -> NamesParse htab)
    (hrun : (Device.start cfg flash data).run cfg events = some d) :
    (exists stored loaded, stored ∈ d.history.completed :: d.history.interrupted ∧
      (envSfLoad cfg d.flash).data = some stored ∧
      (envSfLoad cfg d.flash).table = some loaded ∧ imported cfg stored = some loaded) ∧
    fwEnvOpen .boolean d.flash.first.env d.flash.second.env =
      (envSfLoad cfg d.flash).ram.envValid.slot := by
  rcases hcompat.agrees with ⟨hok, htool, hflag⟩
  rcases envSfLoad_pick cfg hcompat.some_ok with ⟨hslot, _, hpick, htab⟩
  have hsame : (flash.region flash.pick).env.data = data :=
    Option.some.inj (hpick.symm.trans hdata)
  have hsafe : Safe flash [data] := ⟨hok, by rw [hsame]; simp, htool, hflag⟩
  have hstart : Invariant cfg (Device.start cfg flash data) := by
    refine ⟨hsafe, ?_, ?_⟩
    · intro ram hram
      cases hram
      rw [hslot]
      exact hsafe.active
    · intro x hx
      have hx' : x = data := List.mem_singleton.mp hx
      rw [envImport_unchecked, hsame, htable] at htab
      rw [hx', <- htab]
      rfl
  have hinv := hstart.run hnames hrun
  rcases hinv.safe.load cfg with ⟨stored, hmem, hstored, hloaded⟩
  rcases Option.isSome_iff_exists.mp (hinv.imports stored hmem) with ⟨loaded, himported⟩
  refine ⟨⟨stored, loaded, hmem, hstored, hloaded.trans himported, himported⟩, ?_⟩
  rw [(envSfLoad_pick cfg hinv.safe.some_ok).left]
  exact hinv.safe.tool

def smallConfig : RedundConfig where
  envSize := 8
  minEntries := 2
  maxEntries := 512
  sectSize := 16
  upgrade := false
  nent := by decide
  nent_lt := by decide
  size_pos := by decide
  erased_bad := by decide +kernel

def smallCopy (flags : UInt8) : EnvT :=
  ⟨UBoot.crc32 0#32 0 [97, 61, 120, 0, 0, 0, 0, 0], flags, [97, 61, 120, 0, 0, 0, 0, 0]⟩

def smallFlash (env2 : EnvT) : Flash :=
  ⟨⟨smallCopy 1, [1, 2, 3]⟩, ⟨env2, [4, 5, 6]⟩⟩

def cutFaults : Faults where
  probe := .done
  memalignFails := false
  readRest := .done
  erase := .done
  writeEnv := .done
  writeRest := .done
  writeFlag := .cut false

def cutDevice : Device :=
  ⟨smallFlash (smallCopy 1), none,
    ⟨[97, 61, 120, 0, 0, 0, 0, 0], [[97, 61, 120, 0, 0, 0, 0, 0]]⟩⟩

theorem cutDevice_survives :
    (exists stored loaded, stored ∈ [[97, 61, 120, 0, 0, 0, 0, 0], [97, 61, 120, 0, 0, 0, 0, 0]] ∧
      (envSfLoad smallConfig cutDevice.flash).data = some stored ∧
      (envSfLoad smallConfig cutDevice.flash).table = some loaded ∧
      imported smallConfig stored = some loaded) ∧
    fwEnvOpen .boolean cutDevice.flash.first.env cutDevice.flash.second.env =
      (envSfLoad smallConfig cutDevice.flash).ram.envValid.slot := by
  have hsome : (envSfLoad smallConfig (smallFlash (.erased 8))).table.isSome = true := by
    decide +kernel
  rcases Option.isSome_iff_exists.mp hsome with ⟨table, htable⟩
  have hentries : sortedEntries oneVariable = [⟨str "a", str "x"⟩] := by
    decide +kernel
  have hfirst : (smallFlash (.erased 8)).first.env.crcOk = true := by decide +kernel
  have hsecond : (smallFlash (.erased 8)).second.env.crcOk = false := by decide +kernel
  refine redundant_environment_survives smallConfig (smallFlash (.erased 8))
    [97, 61, 120, 0, 0, 0, 0, 0] table [.save oneVariable cutFaults] cutDevice
    (by decide +kernel) htable ?_ ?_ (by decide +kernel)
  · unfold Compatible
    rw [hfirst, hsecond]
    trivial
  · intro htab faults hmem
    cases List.mem_singleton.mp hmem
    intro e he
    rw [hentries, List.mem_singleton] at he
    subst he
    exact ⟨by unfold Plain; decide, by decide⟩

/-- Two copies that pass the check of the CRC with the flags 0 and 255: the program
takes the first, the tool the second. -/
theorem flags_read_differently :
    (envSfLoad smallConfig ⟨⟨smallCopy 0, []⟩, ⟨smallCopy 255, []⟩⟩).table.isSome = true ∧
    (envSfLoad smallConfig ⟨⟨smallCopy 0, []⟩, ⟨smallCopy 255, []⟩⟩).ram.envValid = .valid ∧
    fwEnvOpen .boolean (smallCopy 0) (smallCopy 255) = .second := by
  decide +kernel

end Env
end Hlk7621
