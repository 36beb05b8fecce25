import Hlk7621.Memory.Grants
import Hlk7621.Webflash.Nor
import Hlk7621.Webflash.Uploads

/-!
# Uploads and reserved memory

An upload is accepted only if its range lies in the RAM and `lmb_read_check` grants it.
The bytes that are stored for it stay in the range, however they arrive.
-/

namespace Hlk7621
namespace Webflash

open Memory (Lmb LmbRegion LMB_NONE)

variable {E : Type} {P : Platform E}

/-!
## The memory map
-/

/-- The environment holds the memory map `lmb`, and `lmb_read_check` tests it. -/
def ReadsLmb (P : Platform E) (lmb : E -> Lmb) : Prop :=
  forall addr len ext, (P.lmbReadCheck addr len ext).1 =
    (Memory.lmbReadCheck 32 addr len (lmb ext)).1

/-- The address is in the RAM and in no region with flags. -/
structure Loadable (P : Platform E) (lmb : Lmb) (a : Nat) : Prop where
  above : P.ramBase ≤ a
  below : a < P.ramBase + P.ramSize
  unreserved : forall r, r ∈ lmb.availableMem ++ lmb.usedMem -> r.flags ≠ LMB_NONE ->
    ¬ r.Covers a

theorem rangeInRam_bounds {loadAddr size : Nat} (hbase : P.ramBase < 2 ^ 32)
    (hsize : P.ramSize < 2 ^ 32) (hend : loadAddr + size < 2 ^ 32)
    (h : rangeInRam P loadAddr size = true) :
    P.ramBase ≤ loadAddr ∧ loadAddr + size ≤ P.ramBase + P.ramSize := by
  simp only [rangeInRam, Bool.and_eq_true, Bool.not_eq_true', Bool.or_eq_false_iff,
    decide_eq_false_iff_not, Nat.not_lt] at h
  rcases h with ⟨_, ⟨hram, habove⟩, hbelow⟩
  rw [u32_of_lt hend] at hbelow
  unfold u32 at hbelow hram
  exact ⟨habove, by omega⟩

theorem granted_apart {lmb : Lmb} (hv : Memory.Valid 32 lmb) {addr len : Nat} (hlen : 0 < len)
    (hend : addr + len < 2 ^ 32) (h : (Memory.lmbReadCheck 32 addr len lmb).1 = 0)
    {r : LmbRegion} (hr : r ∈ lmb.availableMem ++ lmb.usedMem) (hflags : r.flags ≠ LMB_NONE)
    {a : Nat} (hlo : addr ≤ a) (hhi : a < addr + len) : ¬ r.Covers a := by
  rcases List.mem_append.mp hr with hr | hr
  · exact absurd (hv.noFlags r hr) hflags
  have hret : (Memory.lmbAllocAddr 32 addr len LMB_NONE lmb).1 = 0 := by
    unfold Memory.lmbReadCheck Memory.lmbAllocMem at h
    rw [if_neg (Nat.ne_of_gt hlen)] at h
    exact h
  rcases Memory.lmbAllocAddr_cases addr len LMB_NONE lmb with ⟨haccept, _⟩ | ⟨ret, hne, heq⟩
  · have hcompat := Memory.compatible_of_checks (x := ⟨addr, len, LMB_NONE⟩) ⟨hlen, hend⟩
      hv.used hv.usedFits (Memory.checks_of_accepted haccept)
    rcases hcompat r hr with hapart | ⟨hnone, _⟩
    · unfold Memory.Apart at hapart
      unfold Regions.Region.Covers
      unfold Regions.Region.stop at *
      dsimp only at hapart
      omega
    · exact absurd hnone hflags
  · rw [heq] at hret
    exact absurd hret hne

/-!
## What is stored
-/

structure Within (loadAddr size : Nat) (w : World E) : Prop where
  addr : w.ctx.loadAddr = loadAddr
  length : w.ctx.contentLength = size
  received : w.ctx.uploadSize ≤ size

theorem Within.keep {loadAddr size : Nat} {w w' : World E} (h : Within loadAddr size w)
    (hkept : w'.ctx.underWay = w.ctx.underWay) : Within loadAddr size w' where
  addr := (congrArg Prod.fst hkept).trans h.addr
  length := (congrArg (fun u => u.2.2.1) hkept).trans h.length
  received := by
    rw [show w'.ctx.uploadSize = w.ctx.uploadSize from congrArg (fun u => u.2.2.2) hkept]
    exact h.received

theorem Quiet.underWay {w w' : World E} (h : Quiet w w') :
    w'.ctx.underWay = w.ctx.underWay :=
  h.kept Ctx.underWay (fun _ => rfl)

theorem completeUpload_underWay (w : World E) :
    (completeUpload P w).2.ctx.underWay = w.ctx.underWay := by
  unfold completeUpload
  rcases exportUpload_eq (P := P)
    (w := { w with ctx := { w.ctx with
      completedAddr := w.ctx.loadAddr
      completedSize := w.ctx.uploadSize } }) with ⟨ext, hext⟩
  dsimp only
  rw [hext]
  split
  · exact (netStep_error P _ _ _).toQuiet.underWay
  · rw [(netStep_replyText P _ _ _).toQuiet.underWay]
    exact (validateUpload_underWay _).left

theorem completeUpload_ram (w : World E) : (completeUpload P w).2.ram = w.ram := by
  unfold completeUpload
  rcases exportUpload_eq (P := P)
    (w := { w with ctx := { w.ctx with
      completedAddr := w.ctx.loadAddr
      completedSize := w.ctx.uploadSize } }) with ⟨ext, hext⟩
  dsimp only
  rw [hext]
  split
  · exact (netStep_error P _ _ _).toQuiet.ram
  · rw [(netStep_replyText P _ _ _).toQuiet.ram]
    exact (validateUpload_underWay _).right.left

theorem storeUpload_ram (cb : Call) (data : Bytes) (w : World E) :
    (storeUpload P cb data w).2.ram =
      if data.length > sub32 w.ctx.contentLength w.ctx.uploadSize then w.ram
      else overwrite w.ram (u32 (w.ctx.loadAddr + w.ctx.uploadSize)) data := by
  unfold storeUpload
  split
  · exact (netStep_error P _ _ _).toQuiet.ram
  · dsimp only
    split
    · rfl
    · exact completeUpload_ram _

theorem Within.accepted {loadAddr size : Nat} {w : World E} (h : Within loadAddr size w)
    (hsize : size < 2 ^ 32) {len : Nat}
    (hfits : len ≤ sub32 w.ctx.contentLength w.ctx.uploadSize) :
    w.ctx.uploadSize + len ≤ size := by
  rw [h.length, sub32_of_le h.received hsize] at hfits
  have hreceived := h.received
  omega

theorem Within.store {loadAddr size : Nat} {w : World E} (h : Within loadAddr size w)
    (hsize : size < 2 ^ 32) (cb : Call) (data : Bytes) :
    Within loadAddr size (storeUpload P cb data w).2 := by
  unfold storeUpload
  split
  case isTrue => exact h.keep (netStep_error P _ _ _).toQuiet.underWay
  case isFalse hfits =>
    have hlen := h.accepted hsize (Nat.le_of_not_gt hfits)
    have hstored : Within loadAddr size (storeBytes cb data w) := by
      refine ⟨h.addr, h.length, ?_⟩
      show u32 (w.ctx.uploadSize + data.length) ≤ size
      rwa [u32_of_lt (Nat.lt_of_le_of_lt hlen hsize)]
    dsimp only
    split
    · exact hstored
    · exact hstored.keep (completeUpload_underWay _)

/-- What happens while an upload is received: a segment of the body arrives, or
something that leaves the upload under way as it is. -/
inductive ReceiveStep (P : Platform E) (w : World E) : World E -> Prop where
  | segment (cb : Call) (data : Bytes) : ReceiveStep P w (storeUpload P cb data w).2
  | other {w' : World E} : w'.ctx.underWay = w.ctx.underWay -> ReceiveStep P w w'

theorem Within.receive {loadAddr size : Nat} {w w' : World E} (h : Within loadAddr size w)
    (hsize : size < 2 ^ 32) (hrun : Relation.ReflTransGen (ReceiveStep P) w w') :
    Within loadAddr size w' := by
  induction hrun with
  | refl => exact h
  | tail _ hstep ih =>
      cases hstep with
      | segment cb data => exact ih.store hsize cb data
      | other hkept => exact ih.keep hkept

theorem prepareUpload_accepted {cb : Call} {part : Partition} {w : World E}
    (h : (prepareUpload P cb part w).1 = 0) : exists size, size < 2 ^ 32 ∧ 0 < size ∧
      rangeInRam P w.ctx.loadAddr size = true ∧
      (P.lmbReadCheck w.ctx.loadAddr size w.ext).1 = 0 ∧
      Within w.ctx.loadAddr size (prepareUpload P cb part w).2 := by
  unfold prepareUpload at h ⊢
  split at h
  case isTrue => cases h
  case isFalse hidle =>
    rw [if_neg hidle]
    split at h
    case h_1 e hlength =>
      split at h
      case isTrue hnone =>
        rw [hnone] at h
        cases h
      case isFalse => cases h
    case h_2 size hlength =>
      split at h
      case isTrue => cases h
      case isFalse hok =>
        rw [if_neg hok]
        dsimp only at h ⊢
        split at h
        case isTrue => cases h
        case isFalse hvalid =>
          rw [if_neg hvalid]
          unfold rangeValid at hvalid ⊢
          have hsizeOk : uploadSizeOk part size = true := by simpa using hok
          have hpos : 0 < size := by
            unfold uploadSizeOk at hsizeOk
            simp only [Bool.and_eq_true, bne_iff_ne] at hsizeOk
            exact Nat.pos_of_ne_zero hsizeOk.left.left
          by_cases hram : rangeInRam P w.ctx.loadAddr size = true
          · rw [hram] at hvalid ⊢
            refine ⟨size, getContentLength_lt hlength, hpos, hram, ?_, rfl, rfl, Nat.zero_le _⟩
            simpa using hvalid
          · exact absurd hvalid (by simp [hram])

/-!
## Runs
-/

/-- If all calls that made the memory map are bounded, every byte that a segment of an
accepted upload goes to, and so every byte that it changes, can be loaded there. -/
theorem uploads_spare_reserved {lmb : E -> Lmb} (hP : ReadsLmb P lmb)
    (hbase : P.ramBase < 2 ^ 32) (hram : P.ramSize < 2 ^ 32) {calls : List Memory.Call}
    (hcalls : Runs.Along (Memory.step 32) (Memory.Call.Bounded 32) Lmb.empty calls)
    {cb : Call} {part : Partition} {w : World E} (haddr : w.ctx.loadAddr < 2 ^ 32)
    (hmap : lmb w.ext = Memory.run 32 Lmb.empty calls)
    (haccept : (prepareUpload P cb part w).1 = 0) {w' : World E}
    (hrun : Relation.ReflTransGen (ReceiveStep P) (prepareUpload P cb part w).2 w')
    (cb' : Call) (data : Bytes) :
    (data.length ≤ sub32 w'.ctx.contentLength w'.ctx.uploadSize ->
      forall a, u32 (w'.ctx.loadAddr + w'.ctx.uploadSize) ≤ a ->
        a < u32 (w'.ctx.loadAddr + w'.ctx.uploadSize) + data.length ->
        Loadable P (lmb w.ext) a) ∧
      forall a, (storeUpload P cb' data w').2.ram a ≠ w'.ram a -> Loadable P (lmb w.ext) a := by
  rcases prepareUpload_accepted haccept with ⟨size, hsize, hpos, hrange, hcheck, hwithin⟩
  have hend := rangeInRam_lt hsize haddr hrange
  rcases rangeInRam_bounds hbase hram hend hrange with ⟨hlow, hhigh⟩
  have hat := hwithin.receive hsize hrun
  have hvalid : Memory.Valid 32 (lmb w.ext) := by
    rw [hmap]
    exact Memory.run_valid hcalls
  rw [hP] at hcheck
  have hstored : data.length ≤ sub32 w'.ctx.contentLength w'.ctx.uploadSize ->
      forall a, u32 (w'.ctx.loadAddr + w'.ctx.uploadSize) ≤ a ->
        a < u32 (w'.ctx.loadAddr + w'.ctx.uploadSize) + data.length ->
        Loadable P (lmb w.ext) a := by
    intro hfits a hlo hhi
    have hlen := hat.accepted hsize hfits
    rw [hat.addr, u32_of_lt (by omega)] at hlo hhi
    refine ⟨by omega, by omega, fun r hr hflags => ?_⟩
    exact granted_apart hvalid hpos hend hcheck hr hflags (by omega) (by omega)
  refine ⟨hstored, fun a hchanged => ?_⟩
  rw [storeUpload_ram] at hchanged
  split at hchanged
  · exact absurd rfl hchanged
  · rename_i hfits
    refine hstored (Nat.le_of_not_gt hfits) a ?_ ?_
    · by_contra hlt
      exact hchanged (overwrite_of_lt (Nat.lt_of_not_le hlt))
    · by_contra hge
      exact hchanged (overwrite_of_ge (Nat.le_of_not_lt hge))

def mapPlatform (B : Board) : Platform Lmb where
  toBoard := B
  spiFlashErase _ _ lmb := (0, lmb)
  spiFlashWrite _ _ lmb := (0, lmb)
  spiFlashRead _ _ lmb := (0, fun _ => 0, lmb)
  tcpSndbuf _ _ := 2920
  tcpWrite _ _ lmb := (.ok, lmb)
  tcpOutput _ lmb := (.ok, lmb)
  tcpClose _ lmb := (.ok, lmb)
  tcpAbort _ lmb := lmb
  envGet _ _ := none
  envSet _ _ lmb := (0, lmb)
  envSetHex _ _ lmb := (0, lmb)
  envSetDefault lmb := lmb
  envSave lmb := (0, lmb)
  lmbReadCheck addr len lmb := Memory.lmbReadCheck 32 addr len lmb
  bootm _ _ _ := none

theorem readsLmb_mapPlatform (B : Board) : ReadsLmb (mapPlatform B) id :=
  fun _ _ _ => rfl

def announced (loadAddr : Nat) (calls : List Memory.Call) : World Lmb :=
  withHeader (httpRequest "POST /api/upload/firmware" ["Content-Length: 4"])
    (initial loadAddr (fun _ => 0) (Memory.run 32 Lmb.empty calls))

def bootCalls : List Memory.Call :=
  [.add 0x80000000 0x10000000,
    .alloc .allocAddr 0 0x8fe00000 0x1ff000 Memory.LMB_NOOVERWRITE]

theorem uploads_spare_loader :
    let w := (prepareUpload (mapPlatform hlk7621a) ⟨1, 0⟩ hlk7621a.firmwarePartition
      (announced 0x83000000 bootCalls)).2
    (storeUpload (mapPlatform hlk7621a) ⟨1, 0⟩ (str "kern") w).2.ram 0x83000003 = 110 ∧
      Loadable (mapPlatform hlk7621a) (Memory.run 32 Lmb.empty bootCalls) 0x83000003 := by
  have haccept : (prepareUpload (mapPlatform hlk7621a) ⟨1, 0⟩ hlk7621a.firmwarePartition
      (announced 0x83000000 bootCalls)).1 = 0 := by decide +kernel
  refine ⟨by decide +kernel, ?_⟩
  exact (uploads_spare_reserved (readsLmb_mapPlatform hlk7621a) (by decide) (by decide)
    (by decide +kernel : Runs.Along (Memory.step 32) (Memory.Call.Bounded 32) Lmb.empty bootCalls)
    (by decide +kernel) rfl haccept .refl ⟨1, 0⟩ (str "kern")).right _ (by decide +kernel)

def wrappingCalls : List Memory.Call :=
  [.add 0x10 0x10000000, .add 0xf0000000 0x0f000000,
    .alloc .allocMax 1 0x20 0x10000000 Memory.LMB_NOOVERWRITE]

def highBoard : Board := { hlk7621a with ramBase := 0xf0000000, ramSize := 0x0f000000 }

/-- The region that the search reserves is not seen by the test of an upload. -/
theorem upload_into_wrapped_region :
    (forall call, call ∈ wrappingCalls -> call.WellFormed 32) ∧
    (prepareUpload (mapPlatform highBoard) ⟨1, 0⟩ highBoard.firmwarePartition
      (announced 0xf1000000 wrappingCalls)).1 = 0 ∧
    (storeUpload (mapPlatform highBoard) ⟨1, 0⟩ (str "kern")
      (prepareUpload (mapPlatform highBoard) ⟨1, 0⟩ highBoard.firmwarePartition
        (announced 0xf1000000 wrappingCalls)).2).2.ram 0xf1000000 = 107 ∧
    ¬ Loadable (mapPlatform highBoard) (Memory.run 32 Lmb.empty wrappingCalls)
      0xf1000000 := by
  refine ⟨by decide, by decide +kernel, by decide +kernel, fun h => ?_⟩
  exact h.unreserved ⟨0xf0000020, 0x10000000, Memory.LMB_NOOVERWRITE⟩ (by decide +kernel)
    (by decide) (by decide)

end Webflash
end Hlk7621
