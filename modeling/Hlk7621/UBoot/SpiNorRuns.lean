import Hlk7621.UBoot.SpiNorFaults

/-!
# Runs of flash operations

A flat flash has no pages, banks or latches.  Over any sequence of requests the driver behaves
like one as long as no command fails, and bank 0 is selected after every request, as the boot
ROM needs it.  A failed command is reported by an erase only.
-/

namespace Hlk7621
namespace UBoot
namespace SpiNor

inductive Request where
  | read (off len : Nat)
  | write (off : Nat) (data : Bytes)
  | erase (off len : Nat)

def Request.Fits (nor : Nor) : Request -> Prop
  | .read off len => off + len ≤ nor.size
  | .write off data => off + data.length ≤ nor.size
  | .erase off len =>
      nor.erasesize ∣ off ∧ nor.erasesize ∣ len ∧ 0 < len ∧ off + len ≤ nor.size

def Request.flat : Request -> (Nat -> UInt8) -> Bytes × (Nat -> UInt8)
  | .read off len, mem => (window mem off len, mem)
  | .write off data, mem => ([], Flash.program mem off data)
  | .erase off len, mem => ([], Flash.erase mem off len)

def flatRun : List Request -> (Nat -> UInt8) -> List (Int × Bytes) × (Nat -> UInt8)
  | [], mem => ([], mem)
  | req :: reqs, mem =>
      let r := req.flat mem
      let t := flatRun reqs r.2
      ((0, r.1) :: t.1, t.2)

section

variable {E : Type} (M : SpiMem E) (nor : Nor)

/-- A request to the driver; `ret` is what the local variable of `spi_nor_erase` holds. -/
def perform (ret : Int) : Request -> Driver E -> (Int × Bytes) × Driver E
  | .read off len, s =>
      let r := spiFlashStdRead M nor off len s
      ((r.1, r.2.1), r.2.2)
  | .write off data, s =>
      let r := spiFlashStdWrite M nor off data s
      ((r.1, []), r.2)
  | .erase off len, s =>
      let r := spiFlashStdErase M nor ret off len s
      ((r.1, []), r.2)

def run (ret : Int) : List Request -> Driver E -> List (Int × Bytes) × Driver E
  | [], s => ([], s)
  | req :: reqs, s =>
      let r := perform M nor ret req s
      let t := run ret reqs r.2
      (r.1 :: t.1, t.2)

end

/-!
## A chip with scheduled faults
-/

/-- A chip, the number of faults so far, and which of the next commands fail. -/
structure Sim where
  chip : Chip
  faults : Nat
  bad : List Bool

/-- Each erase and page program keeps the chip busy for two readings of the status. -/
def simMem (nor : Nor) : SpiMem Sim where
  execOp op w :=
    if op.opcode.moves = true then
      if w.bad.headD false = true then
        (- EIO, [], { w with faults := w.faults + 1, bad := w.bad.tail })
      else
        let r := Chip.step nor 2 op w.chip
        (0, r.1, { w with chip := r.2, bad := w.bad.tail })
    else
      let r := Chip.step nor 2 op w.chip
      (0, r.1, { w with chip := r.2 })
  polls timeout w := w.chip.busy + timeout
  ctrlc w := (false, w)
  maxReadSize := 0
  maxWriteSize := 0

theorem datasheet_sim (nor : Nor) : Datasheet (simMem nor) nor Sim.chip Sim.faults where
  exec op w := by
    dsimp only [simMem]
    by_cases hmoves : op.opcode.moves = true
    · rw [if_pos hmoves]
      by_cases hbad : w.bad.headD false = true
      · rw [if_pos hbad]
        exact .fault _ _ hmoves (show - EIO < 0 by decide)
      · rw [if_neg hbad]
        exact .done 2
    · rw [if_neg hmoves]
      exact .done 2
  prompt timeout w h := by
    have hpos : 0 < DEFAULT_READY_WAIT_JIFFIES := by decide
    dsimp only [simMem]
    omega
  ctrlc w := ⟨rfl, rfl⟩
  room := Or.inl rfl

def nor32 : Nor where
  size := 0x2000000
  size_pos := by decide
  size_lt := by decide
  erasesize := 0x1000
  erasesize_dvd := by rw [SZ_16M_eq]; decide
  erasesize_dvd_size := by decide
  pageSize := 256
  pageSize_dvd := by rw [SZ_16M_eq]; decide
  readDummy := 8
  readAddrNbits := 1
  noOpChipErase := false
  useClsr := false
  useFsr := false

def freshSim (bad : List Bool) : Driver Sim :=
  ⟨0, ⟨⟨fun _ => 0xff, 0, false, 0⟩, 0, bad⟩⟩

theorem atRest_freshSim (bad : List Bool) : AtRest nor32 Sim.chip (freshSim bad) :=
  ⟨⟨rfl, rfl, fun _ => rfl⟩, rfl⟩

def bankCrossing : List Request :=
  [.erase 0xfff000 0x2000, .write 0xfffff0 (str "two banks, two pages"), .read 0xfffff0 20]

theorem bankCrossing_fits (req : Request) (h : req ∈ bankCrossing) : req.Fits nor32 := by
  unfold bankCrossing at h
  rcases List.mem_cons.mp h with rfl | h
  · exact ⟨by decide, by decide, by decide, by decide⟩
  rcases List.mem_cons.mp h with rfl | h
  · exact (by decide : 0xfffff0 + (str "two banks, two pages").length ≤ nor32.size)
  rcases List.mem_cons.mp h with rfl | h
  · exact (by decide : 0xfffff0 + 20 ≤ nor32.size)
  · cases h

/-!
## Runs
-/

variable {E : Type} {M : SpiMem E} {nor : Nor} {chip : E -> Chip} {faults : E -> Nat}
  (D : Datasheet M nor chip faults)

include D

theorem stdErase_moved (ret : Int) {off len : Nat} {s : Driver E} (hs : AtRest nor chip s)
    (hoff : nor.erasesize ∣ off) (hlen : nor.erasesize ∣ len) (hret : len = 0 -> ret = 0)
    (hfit : off + len ≤ nor.size) :
    let r := spiFlashStdErase M nor ret off len s
    AtRest nor chip r.2 ∧
      exists n k, n ≤ len ∧ nor.erasesize ∣ n ∧
        Became chip faults s r.2 (Flash.erase (chip s.dev).mem off n) k ∧
        (k = 0 <-> n = len) ∧ (r.1 = 0 <-> n = len) := by
  have hnot : ¬ (nor.erasesize = 0 ∨ off % nor.erasesize ≠ 0 ∨ len % nor.erasesize ≠ 0) := by
    rintro (h | h | h)
    · exact Nat.ne_of_gt nor.erasesize_pos h
    · exact h (Nat.mod_eq_zero_of_dvd hoff)
    · exact h (Nat.mod_eq_zero_of_dvd hlen)
  obtain ⟨hrest, n, k, hle, hdvd, hbec, hiff, hretiff, -⟩ :=
    spiNorErase_moved D ⟨off, len, 0, .pending⟩ hs hoff hlen hfit hret
  unfold spiFlashStdErase
  rw [if_neg hnot]
  exact ⟨hrest, n, k, hle, hdvd, hbec, hiff, hretiff⟩

theorem perform_moved (ret : Int) {req : Request} {s : Driver E} (hs : AtRest nor chip s)
    (hfit : req.Fits nor) :
    let r := perform M nor ret req s
    AtRest nor chip r.2 ∧
      exists k, faults r.2.dev = faults s.dev + k ∧
        (k = 0 -> r.1 = (0, (req.flat (chip s.dev).mem).1) ∧
          (chip r.2.dev).mem = (req.flat (chip s.dev).mem).2) := by
  cases req with
  | read off len =>
      obtain ⟨hret, hrest, k, hbec, hdata⟩ := spiNorRead_moved D hs hfit
      exact ⟨hrest, k, hbec.faults_eq, fun hk =>
        ⟨Prod.ext hret (hdata hk), hbec.mem_eq⟩⟩
  | write off data =>
      obtain ⟨hret, hrest, hle, k, hbec, hiff⟩ := spiNorWrite_moved D hs hfit
      refine ⟨hrest, k, hbec.faults_eq, fun hk => ⟨Prod.ext hret rfl, ?_⟩⟩
      have hmem := hbec.mem_eq
      rw [hiff.mp hk, List.take_length] at hmem
      exact hmem
  | erase off len =>
      obtain ⟨hoff, hlen, hpos, hin⟩ := hfit
      obtain ⟨hrest, n, k, hle, hdvd, hbec, hiff, hretiff⟩ :=
        stdErase_moved D ret hs hoff hlen (fun h => absurd h (Nat.ne_of_gt hpos)) hin
      refine ⟨hrest, k, hbec.faults_eq, fun hk => ?_⟩
      have hn := hiff.mp hk
      have hmem := hbec.mem_eq
      rw [hn] at hmem
      exact ⟨Prod.ext (hretiff.mpr hn) rfl, hmem⟩

theorem run_moved (ret : Int) {reqs : List Request} {s : Driver E} (hs : AtRest nor chip s)
    (hfit : forall req, req ∈ reqs -> req.Fits nor) :
    let r := run M nor ret reqs s
    AtRest nor chip r.2 ∧
      exists k, faults r.2.dev = faults s.dev + k ∧
        (k = 0 -> r.1 = (flatRun reqs (chip s.dev).mem).1 ∧
          (chip r.2.dev).mem = (flatRun reqs (chip s.dev).mem).2) := by
  induction reqs generalizing s with
  | nil => exact ⟨hs, 0, rfl, fun _ => ⟨rfl, rfl⟩⟩
  | cons req reqs ih =>
      obtain ⟨hrest, j, hj, hdone⟩ := perform_moved D ret hs (hfit req List.mem_cons_self)
      obtain ⟨hend, k, hk, hrun⟩ :=
        ih hrest fun r hr => hfit r (List.mem_cons_of_mem _ hr)
      refine ⟨hend, j + k, ?_, fun hzero => ?_⟩
      · have h := hk.trans (congrArg (fun m => m + k) hj)
        rw [Nat.add_assoc] at h
        exact h
      · obtain ⟨hreply, hmem⟩ := hdone (by omega)
        obtain ⟨hreplies, hlast⟩ := hrun (by omega)
        rw [hmem] at hreplies hlast
        refine ⟨?_, hlast⟩
        unfold run flatRun
        dsimp only
        rw [hreply, hreplies]

/-- Over any run bank 0 is selected at the end; a run without faults gives the replies and the
memory of a flat flash. -/
theorem run_is_flat (ret : Int) {reqs : List Request} {s : Driver E}
    (hs : AtRest nor chip s) (hfit : forall req, req ∈ reqs -> req.Fits nor) :
    (chip (run M nor ret reqs s).2.dev).bank = 0 ∧
      (faults (run M nor ret reqs s).2.dev = faults s.dev ->
        (run M nor ret reqs s).1 = (flatRun reqs (chip s.dev).mem).1 ∧
          (chip (run M nor ret reqs s).2.dev).mem = (flatRun reqs (chip s.dev).mem).2) := by
  obtain ⟨hrest, k, hk, hflat⟩ := run_moved D ret hs hfit
  refine ⟨hrest.bank.trans hrest.zero, fun hsame => ?_⟩
  exact hflat (by omega)

omit D in
theorem run_is_flat_nor32 :
    let r := run (simMem nor32) nor32 5 bankCrossing (freshSim [])
    r.2.dev.chip.bank = 0 ∧ r.1 = [(0, []), (0, []), (0, str "two banks, two pages")] ∧
      r.2.dev.chip.mem = (flatRun bankCrossing fun _ => 0xff).2 := by
  obtain ⟨hbank, hflat⟩ :=
    run_is_flat (datasheet_sim nor32) 5 (atRest_freshSim []) bankCrossing_fits
  have hnone : (run (simMem nor32) nor32 5 bankCrossing (freshSim [])).2.dev.faults = 0 := by
    decide +kernel
  have hreplies : (flatRun bankCrossing fun _ => 0xff).1 =
      [(0, []), (0, []), (0, str "two banks, two pages")] := by
    decide +kernel
  obtain ⟨hsame, hmem⟩ := hflat hnone
  exact ⟨hbank, hsame.trans hreplies, hmem⟩

/-!
## What the codes tell
-/

/-- A read and a write return 0 whatever fails: the code of `clean_bar` takes the place of the
error.  A write has stored the front of its data up to the first fault. -/
theorem transfers_hide_faults {s : Driver E} (hs : AtRest nor chip s) :
    (forall src len, src + len ≤ nor.size -> (spiFlashStdRead M nor src len s).1 = 0) ∧
      forall dst data, dst + data.length ≤ nor.size ->
        let r := spiFlashStdWrite M nor dst data s
        r.1 = 0 ∧
          exists n, n ≤ data.length ∧
            (chip r.2.dev).mem = Flash.program (chip s.dev).mem dst (data.take n) ∧
            (n = data.length <-> faults r.2.dev = faults s.dev) := by
  constructor
  · intro src len hfit
    exact (spiNorRead_moved D hs hfit).1
  · intro dst data hfit
    obtain ⟨hret, -, hle, k, hbec, hiff⟩ := spiNorWrite_moved D hs hfit
    have hk := hbec.faults_eq
    refine ⟨hret, _, hle, hbec.mem_eq, ?_⟩
    rw [<- hiff]
    constructor
    · intro hzero
      rw [hzero] at hk
      exact hk
    · intro hsame
      have hboth := hk.symm.trans hsame
      omega

omit D in
theorem transfers_hide_faults_page :
    (spiFlashStdWrite (simMem nor32) nor32 0x100 (List.replicate 512 0)
      (freshSim [false, true])).1 = 0 :=
  ((transfers_hide_faults (datasheet_sim nor32) (atRest_freshSim [false, true])).2 0x100
    (List.replicate 512 0) (by rw [List.length_replicate]; decide)).1

/-- An erase returns 0 exactly when nothing has failed.  Otherwise it has erased a front of the
range, in whole sectors. -/
theorem erase_reports_faults {ret : Int} {off len : Nat} {s : Driver E}
    (hs : AtRest nor chip s) (hoff : nor.erasesize ∣ off) (hlen : nor.erasesize ∣ len)
    (hpos : 0 < len) (hfit : off + len ≤ nor.size) :
    let r := spiFlashStdErase M nor ret off len s
    (r.1 = 0 <-> faults r.2.dev = faults s.dev) ∧
      exists n, n ≤ len ∧ nor.erasesize ∣ n ∧
        (chip r.2.dev).mem = Flash.erase (chip s.dev).mem off n ∧ (n = len <-> r.1 = 0) := by
  obtain ⟨-, n, k, hle, hdvd, hbec, hiff, hretiff⟩ :=
    stdErase_moved D ret hs hoff hlen (fun h => absurd h (Nat.ne_of_gt hpos)) hfit
  have hk := hbec.faults_eq
  refine ⟨?_, n, hle, hdvd, hbec.mem_eq, hretiff.symm⟩
  rw [hretiff, <- hiff]
  constructor
  · intro hzero
    rw [hzero] at hk
    exact hk
  · intro hsame
    have hboth := hk.symm.trans hsame
    omega

omit D in
theorem erase_reports_faults_sector :
    (spiFlashStdErase (simMem nor32) nor32 5 0xfff000 0x2000 (freshSim [false, true])).1 = 0 <->
      (spiFlashStdErase (simMem nor32) nor32 5 0xfff000 0x2000
        (freshSim [false, true])).2.dev.faults = 0 :=
  (erase_reports_faults (datasheet_sim nor32) (atRest_freshSim [false, true]) (by decide)
    (by decide) (by decide) (by decide)).1

end SpiNor
end UBoot
end Hlk7621
