import Hlk7621.Bmt.V2

/-!
# BMT v2 over a reboot

`upload_bmt` moves the table to the next lower pool entry when a block fails, but leaves the
mark that says where the table is at the old entry, and an old table that could not be
erased stays above the new one.  On a chip of at most 4 GiB, where every block is read at
its own address, the table survives a reboot as long as its block does not fail.
-/

namespace Hlk7621
namespace Bmt
namespace V2

/-!
## Fields of the table
-/

namespace Words

variable {T i j v : Nat} {t : Words}

theorem block_setBb (h : i < T) : (t.setBb i v).block T j = t.block T j :=
  Function.update_of_ne (by lia) _ _

theorem mapped_setBb (h : i < T) : (t.setBb i v).mapped T j = t.mapped T j :=
  Function.update_of_ne (by lia) _ _

theorem block_setMapped : (t.setMapped T i v).block T j = t.block T j :=
  Function.update_of_ne (by lia) _ _

theorem mapped_setMapped : (t.setMapped T i v).mapped T j = if j = i then v else t.mapped T j := by
  unfold setMapped mapped
  by_cases h : j = i
  · rw [if_pos h, h, Function.update_self]
  · rw [if_neg h, Function.update_of_ne (by lia)]

theorem bbTbl_setBb : (t.setBb i v).bbTbl j = if j = i then v else t.bbTbl j := by
  unfold setBb bbTbl
  by_cases h : j = i
  · rw [if_pos h, h, Function.update_self]
  · rw [if_neg h, Function.update_of_ne (by lia)]

@[simp] theorem block_sign : t.sign.block T j = t.block T j := if_neg (by lia)

@[simp] theorem mapped_sign : t.sign.mapped T j = t.mapped T j := if_neg (by lia)

end Words

/-!
## A stored table
-/

/-- The flash holds the table in block `L`, its last pool entry, and no table above it. -/
structure Stored (G : Geometry) (C : Chip) (L : Nat) (w : World) : Prop where
  more : 1 ≤ w.bmtBlkIdx
  short : w.bmtBlkIdx < 2 ^ 16
  room : 2 + G.tableSize + 2 * (w.bmtBlkIdx + 1) ≤ G.bufWords
  entry : w.table.block G.tableSize w.bmtBlkIdx = L
  mark : w.table.mapped G.tableSize w.bmtBlkIdx = BMT_MAPPED
  nonzero : L ≠ 0
  below : forall i, i < w.bmtBlkIdx -> w.table.block G.tableSize i ≠ 0 ∧
    w.table.block G.tableSize i < L ∧ w.table.mapped G.tableSize i ≠ BMT_MAPPED
  lower : G.poolLba ≤ L
  upper : L < G.totalBlks
  readable : C.readOk L = true
  held : forall i, i < G.bufWords -> (w.flash.blocks L).words i = w.table i
  valid : isValidBmt (w.flash.blocks L) = true
  above : forall b, L < b -> b < G.totalBlks -> C.readOk b = true ->
    isValidBmt (w.flash.blocks b) = false

section

variable {G : Geometry} {C : Chip} {L : Nat} {w : World}

/-!
## Finding the table
-/

theorem bmtIndexLoop_eq {t : Words} {idx fuel i : Nat} (hi : i ≤ idx) (hfuel : idx - i < fuel)
    (hblock : forall j, j ≤ idx -> t.block G.tableSize j ≠ 0)
    (hbelow : forall j, j < idx -> t.mapped G.tableSize j ≠ BMT_MAPPED)
    (hmark : t.mapped G.tableSize idx = BMT_MAPPED) (hshort : idx < 2 ^ 16) :
    bmtIndexLoop G t fuel i = idx := by
  induction fuel generalizing i with
  | zero => exact absurd hfuel (Nat.not_lt_zero _)
  | succ fuel ih =>
      unfold bmtIndexLoop
      rw [if_pos (hblock i hi)]
      rcases Nat.eq_or_lt_of_le hi with heq | hlt
      · rw [heq, if_pos hmark, Nat.mod_eq_of_lt hshort]
      · rw [if_neg (hbelow i hlt)]
        exact ih hlt (by lia)

theorem searchBmt_above {f : Flash} {k j : Nat} {t : Words}
    (h : forall b, G.poolLba + k ≤ b -> b < G.poolLba + k + j -> C.readOk (G.readBlk b) = true ->
      isValidBmt (f.blocks (G.readBlk b)) = false) :
    exists t', searchBmt G C f (k + j) t = searchBmt G C f k t' := by
  induction j generalizing t with
  | zero => exact ⟨t, rfl⟩
  | succ j ih =>
      have hlow : forall b, G.poolLba + k ≤ b -> b < G.poolLba + k + j ->
          C.readOk (G.readBlk b) = true -> isValidBmt (f.blocks (G.readBlk b)) = false :=
        fun b hb hlt => h b hb (by lia)
      have hstep : exists t', searchBmt G C f (k + j + 1) t = searchBmt G C f (k + j) t' := by
        rw [searchBmt]
        by_cases hread : C.readOk (G.readBlk (G.poolLba + (k + j))) = true
        · have hbad := h (G.poolLba + (k + j)) (by lia) (by lia) hread
          simp only [hread, hbad, if_true, Bool.false_eq_true, if_false]
          exact ⟨_, rfl⟩
        · simp only [hread, Bool.false_eq_true, if_false]
          exact ⟨_, rfl⟩
      rcases hstep with ⟨t', ht'⟩
      rw [← Nat.add_assoc, ht']
      exact ih hlow

/-- On a chip of at most 4 GiB the blocks are read at their own addresses. -/
theorem readBlk_eq (hchip : G.totalBlks ≤ 2 ^ (32 - G.blkShift)) {b : Nat} (hb : b < G.totalBlks) :
    G.readBlk b = b :=
  Nat.mod_eq_of_lt (Nat.lt_of_lt_of_le hb hchip)

theorem Stored.search (h : Stored G C L w) (hchip : G.totalBlks ≤ 2 ^ (32 - G.blkShift))
    (heap : Words) :
    exists t, V2.search G C heap w.flash = .found L t w.bmtBlkIdx ∧
      forall i, i < G.bufWords -> t i = w.table i := by
  have hlower := h.lower
  have hupper := h.upper
  have hroom := h.room
  have hsplit : G.totalBlks - G.poolLba = (L - G.poolLba + 1) + (G.totalBlks - L - 1) := by lia
  have habove : forall b, G.poolLba + (L - G.poolLba + 1) ≤ b ->
      b < G.poolLba + (L - G.poolLba + 1) + (G.totalBlks - L - 1) ->
      C.readOk (G.readBlk b) = true -> isValidBmt (w.flash.blocks (G.readBlk b)) = false := by
    intro b hlo hhi hread
    rw [readBlk_eq hchip (show b < G.totalBlks by lia)] at hread ⊢
    exact h.above b (by lia) (by lia) hread
  rcases searchBmt_above (t := buffer G heap) habove with ⟨t, ht⟩
  unfold V2.search
  rw [hsplit, ht, searchBmt]
  rw [show G.poolLba + (L - G.poolLba) = L by lia]
  dsimp only
  rw [readBlk_eq hchip hupper]
  simp only [h.readable, h.valid, if_true]
  obtain ⟨t', hload⟩ : exists t' : Words,
    (fun i => if i < G.bufWords then (w.flash.blocks L).words i else t i) = t' := ⟨_, rfl⟩
  rw [hload]
  have hsame : forall i, i < G.bufWords -> t' i = w.table i := by
    intro i hi
    rw [← hload]
    simp only [if_pos hi]
    exact h.held i hi
  have hblock : forall j, j ≤ w.bmtBlkIdx -> t'.block G.tableSize j = w.table.block G.tableSize j :=
    fun j hj => hsame _ (by lia)
  have hmapped : forall j, j ≤ w.bmtBlkIdx ->
      t'.mapped G.tableSize j = w.table.mapped G.tableSize j := fun j hj => hsame _ (by lia)
  have hindex : getBmtIndex G t' = w.bmtBlkIdx := by
    refine bmtIndexLoop_eq (Nat.zero_le _) (by lia) ?_ ?_ ?_ h.short
    · intro j hj
      rw [hblock j hj]
      rcases Nat.eq_or_lt_of_le hj with heq | hlt
      · rw [heq, h.entry]
        exact h.nonzero
      · exact (h.below j hlt).1
    · intro j hj
      rw [hmapped j (Nat.le_of_lt hj)]
      exact (h.below j hj).2.2
    · rw [hmapped _ (Nat.le_refl _)]
      exact h.mark
  have hmore := h.more
  rw [hindex, if_neg (by lia)]
  exact ⟨t', rfl, hsame⟩

/-!
## Storing the table
-/

def Steady (C : Chip) (L : Nat) : Prop :=
  forall time, C.eraseOk time L = true ∧ C.writeOk time L = true

def withTable (G : Geometry) (L : Nat) (t : Words) (f : Flash) : Flash :=
  { blocks := Function.update f.blocks L (blank.withTable G t), clock := f.clock + 2 }

theorem uploadBmt_eq (hsteady : Steady C L) {n : Nat} {t : Words} {f : Flash}
    (hentry : t.block G.tableSize n = L) (hmark : t.mapped G.tableSize n ≠ NORMAL_MAPPED) :
    uploadBmt G C n t f = (n, t.sign, withTable G L t.sign f) := by
  have htry : tryUpload G C n t f = (true, t.sign, withTable G L t.sign f) := by
    unfold tryUpload bbtNandErase writeBmt withTable
    simp only [hentry, (hsteady _).1, (hsteady _).2, if_true, Function.update_self,
      Function.update_idem]
  cases n with
  | zero =>
      unfold uploadBmt
      rw [if_neg hmark, htry]
  | succ n =>
      unfold uploadBmt
      rw [if_neg hmark, htry]

theorem isValidBmt_withTable {t : Words} (hroom : 2 ≤ G.bufWords) :
    isValidBmt (blank.withTable G t.sign) = true := by
  unfold isValidBmt Block.withTable
  simp only [if_pos (show 0 < G.bufWords by lia), if_pos (show 1 < G.bufWords by lia), Words.sign]
  rfl

theorem stored_upload {n : Nat} {t : Words} {f : Flash} (hsteady : Steady C L) (hmore : 1 ≤ n)
    (hshort : n < 2 ^ 16) (hroom : 2 + G.tableSize + 2 * (n + 1) ≤ G.bufWords)
    (hentry : t.block G.tableSize n = L) (hmark : t.mapped G.tableSize n = BMT_MAPPED)
    (hnonzero : L ≠ 0)
    (hbelow : forall i, i < n -> t.block G.tableSize i ≠ 0 ∧ t.block G.tableSize i < L ∧
      t.mapped G.tableSize i ≠ BMT_MAPPED)
    (hlower : G.poolLba ≤ L) (hupper : L < G.totalBlks) (hread : C.readOk L = true)
    (habove : forall b, L < b -> b < G.totalBlks -> C.readOk b = true ->
      isValidBmt (f.blocks b) = false) :
    uploadBmt G C n t f = (n, t.sign, withTable G L t.sign f) ∧
      Stored G C L
        { table := t.sign, bmtBlkIdx := n, flash := withTable G L t.sign f } := by
  have hnormal : t.mapped G.tableSize n ≠ NORMAL_MAPPED := by
    rw [hmark]
    decide
  have hblock : (withTable G L t.sign f).blocks L = blank.withTable G t.sign :=
    Function.update_self _ _ _
  refine ⟨uploadBmt_eq hsteady hentry hnormal, ?_⟩
  refine ⟨hmore, hshort, hroom, ?_, ?_, hnonzero, ?_, hlower, hupper, hread, ?_, ?_, ?_⟩
  · rw [Words.block_sign]
    exact hentry
  · rw [Words.mapped_sign]
    exact hmark
  · intro i hi
    rw [Words.block_sign, Words.mapped_sign]
    exact hbelow i hi
  · intro i hi
    simp only [hblock, Block.withTable, if_pos hi]
  · simp only [hblock]
    exact isValidBmt_withTable (by lia)
  · intro b hlo hhi hok
    have hne : (withTable G L t.sign f).blocks b = f.blocks b :=
      Function.update_of_ne (by lia) _ _
    simp only [hne]
    exact habove b hlo hhi hok

theorem freeEntry_some {t : Words} {n i j : Nat} (h : freeEntry G t n i = some j) :
    i ≤ j ∧ j < i + n ∧ t.block G.tableSize j ≠ 0 := by
  induction n generalizing i with
  | zero => cases h
  | succ n ih =>
      unfold freeEntry at h
      split at h
      · rename_i hfree
        cases h
        exact ⟨Nat.le_refl _, by lia, hfree.1⟩
      · rcases ih h with ⟨hle, hlt, hne⟩
        exact ⟨by lia, by lia, hne⟩

theorem Stored.remap (h : Stored G C L w) (hsteady : Steady C L) (hlba : G.poolLba ≤ G.tableSize)
    {block mappedBlock copyLen : Nat} (hblock : block < G.poolLba) :
    Stored G C L (remapBlock G C block mappedBlock copyLen w).2 := by
  unfold remapBlock
  cases hfree : freeEntry G w.table w.bmtBlkIdx 0 with
  | none => exact h
  | some i =>
      rcases freeEntry_some hfree with ⟨_, hi, _⟩
      have hlt : i < w.bmtBlkIdx := by lia
      simp only
      have hT : block < G.tableSize := by lia
      have hfields : forall j,
          ((w.table.setMapped G.tableSize i NORMAL_MAPPED).setBb block
              (w.table.block G.tableSize i)).block G.tableSize j = w.table.block G.tableSize j ∧
          ((w.table.setMapped G.tableSize i NORMAL_MAPPED).setBb block
              (w.table.block G.tableSize i)).mapped G.tableSize j =
            if j = i then NORMAL_MAPPED else w.table.mapped G.tableSize j := by
        intro j
        rw [Words.block_setBb hT, Words.mapped_setBb hT, Words.block_setMapped,
          Words.mapped_setMapped]
        exact ⟨rfl, rfl⟩
      have hnew := (h.below i hlt).2.1
      generalize hf : (if 0 < copyLen then bbtNandCopy C (w.table.block G.tableSize i) mappedBlock
        copyLen (bbtNandErase C (w.table.block G.tableSize i) w.flash).2 else
        (bbtNandErase C (w.table.block G.tableSize i) w.flash).2) = f
      have hkept : forall b, L < b -> f.blocks b = w.flash.blocks b := by
        intro b hb
        have herase : (bbtNandErase C (w.table.block G.tableSize i) w.flash).2.blocks b =
            w.flash.blocks b := by
          unfold bbtNandErase
          split
          · exact Function.update_of_ne (by lia) _ _
          · rfl
        rw [← hf]
        split
        · exact (Function.update_of_ne (by lia) _ _).trans herase
        · exact herase
      have hup := stored_upload (f := f) hsteady h.more h.short h.room ((hfields _).1.trans h.entry)
        (by rw [(hfields _).2, if_neg (by lia)]; exact h.mark) h.nonzero
        (fun j hj => by
          rw [(hfields j).1, (hfields j).2]
          refine ⟨(h.below j hj).1, (h.below j hj).2.1, ?_⟩
          split
          · decide
          · exact (h.below j hj).2.2)
        h.lower h.upper h.readable
        (fun b hlo hhi hok => by
          rw [hkept b hlo]
          exact h.above b hlo hhi hok)
      rw [hup.1]
      exact hup.2

theorem Stored.remapAll (hsteady : Steady C L) (hlba : G.poolLba ≤ G.tableSize)
    {calls : List Remap} (hcalls : forall r, r ∈ calls -> r.block < G.poolLba)
    (h : Stored G C L w) : Stored G C L (remapAll G C calls w) := by
  induction calls generalizing w with
  | nil => exact h
  | cons r rs ih =>
      unfold V2.remapAll
      exact ih (fun x hx => hcalls x (List.mem_cons_of_mem _ hx))
        (h.remap hsteady hlba (hcalls r List.mem_cons_self))

/-!
## A new table
-/

theorem findValidLoop_ne_zero {f : Flash} {left b : Nat} (h : findValidLoop G C f left b ≠ 0) :
    b ≤ findValidLoop G C f left b ∧ findValidLoop G C f left b < G.totalBlks ∧
      C.readOk (G.readBlk (findValidLoop G C f left b)) = true := by
  induction left generalizing b with
  | zero =>
      unfold findValidLoop at h ⊢
      split at h
      · exact absurd rfl h
      · rename_i hlt
        split at h
        · exact absurd rfl h
        · rename_i hgood
          rw [if_neg hlt, if_neg hgood]
          simp only [badBlock, Bool.or_eq_true, Bool.not_eq_true', not_or] at hgood
          exact ⟨Nat.le_refl b, by lia, by simpa using hgood.1⟩
  | succ left ih =>
      unfold findValidLoop at h ⊢
      split at h
      · exact absurd rfl h
      · rename_i hlt
        rw [if_neg hlt]
        split at h
        · rename_i hbad
          rw [if_pos hbad]
          have hrec := ih h
          exact ⟨by lia, hrec.2⟩
        · rename_i hgood
          rw [if_neg hgood]
          simp only [badBlock, Bool.or_eq_true, Bool.not_eq_true', not_or] at hgood
          exact ⟨Nat.le_refl b, by lia, by simpa using hgood.1⟩

theorem Search.ended_found {s : Search} {b idx : Nat} {t : Words}
    (h : s.ended G = .found b t idx) : s = .found b t idx := by
  cases s with
  | missing t' =>
      unfold Search.ended at h
      dsimp only at h
      split at h
      · cases h
      · cases h
  | found b' t' idx' => exact h
  | wrongIndex t' => cases h
  | endless => cases h

end

/-!
## The reboot
-/

def small : Geometry :=
  { blkShift := 17, totalBlks := 8, bmtPoolSize := 4, tableSize := 8, pgSize := 2
    totalBlks_lt := (by decide : 2 ^ 3 < 2 ^ 16) }

/-- A chip whose erases and writes of block 7 follow `eraseOk` and `writeOk`, in time. -/
def chipWith (eraseOk writeOk : Nat -> Bool) : Chip where
  readOk := fun _ => true
  eraseOk := fun time b => b != 7 || eraseOk time
  writeOk := fun time b => b != 7 || writeOk time
  spoiled := fun _ _ => blank
  copied := fun _ _ src _ => src

def blankFlash : Flash := { blocks := fun _ => blank, clock := 0 }

end V2
end Bmt
end Hlk7621
