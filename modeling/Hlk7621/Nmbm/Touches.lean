import Mathlib.Order.Nat
import Hlk7621.Nmbm.Attach

/-!
# Writes into a range of blocks

A write into a range of blocks changes block states and erases blocks of the
range, nothing else, and a write that ends well reports blocks of the range.
-/

namespace Hlk7621
namespace Nmbm

def SameButStates (ni ni' : Instance) : Prop :=
  exists state changed, ni' = { ni with blockState := state, blockStateChanged := changed }

theorem SameButStates.refl (ni : Instance) : SameButStates ni ni :=
  ⟨ni.blockState, ni.blockStateChanged, rfl⟩

theorem SameButStates.trans {a b c : Instance} (hab : SameButStates a b)
    (hbc : SameButStates b c) : SameButStates a c := by
  rcases hab with ⟨_, _, rfl⟩
  rcases hbc with ⟨state, changed, rfl⟩
  exact ⟨state, changed, rfl⟩

/-- From `d` to `d'` only block states have changed, and only blocks from `lo` to
`hi` have been erased. -/
structure Touches (lo hi : Nat) (d d' : Dev) : Prop where
  ni : SameButStates d.ni d'.ni
  erased : forall e, e ∈ d'.erased -> e ∈ d.erased ∨
    (lo ≤ e.ba ∧ e.ba < hi ∧ SameButStates d.ni e.ni)
  tables : d'.tables = d.tables

theorem Touches.refl (lo hi : Nat) (d : Dev) : Touches lo hi d d where
  ni := SameButStates.refl d.ni
  erased := fun _ he => Or.inl he
  tables := rfl

theorem Touches.trans {lo hi : Nat} {a b c : Dev} (hab : Touches lo hi a b)
    (hbc : Touches lo hi b c) : Touches lo hi a c where
  ni := hab.ni.trans hbc.ni
  erased := by
    intro e he
    rcases hbc.erased e he with hold | ⟨hlo, hhi, hni⟩
    · exact hab.erased e hold
    · exact Or.inr ⟨hlo, hhi, hab.ni.trans hni⟩
  tables := hbc.tables.trans hab.tables

theorem Touches.mono {lo hi lo' hi' : Nat} {d d' : Dev} (h : Touches lo hi d d')
    (hlo : lo' ≤ lo) (hhi : hi ≤ hi') : Touches lo' hi' d d' where
  ni := h.ni
  erased := by
    intro e he
    rcases h.erased e he with hold | ⟨hl, hh, hni⟩
    · exact Or.inl hold
    · exact Or.inr ⟨hlo.trans hl, hh.trans_le hhi, hni⟩
  tables := h.tables

variable (g : Geometry) (chip : Chip) (lo hi : Nat)

theorem touches_calls (n : Nat) (d : Dev) : Touches lo hi d { d with calls := n } where
  ni := SameButStates.refl d.ni
  erased := fun _ he => Or.inl he
  tables := rfl

theorem touches_setBad (ba : Nat) (d : Dev) : Touches lo hi d (d.setBad ba) where
  ni := ⟨_, _, rfl⟩
  erased := fun _ he => Or.inl he
  tables := rfl

theorem touches_markBad (ba : Nat) (d : Dev) : Touches lo hi d (d.markBad ba) :=
  (touches_calls lo hi (d.calls + 1) d).trans (touches_setBad lo hi ba _)

theorem touches_checkBad (ba : Nat) (d : Dev) :
    Touches lo hi d (nmbmCheckBadPhysBlock g chip ba d).2 :=
  touches_calls lo hi (d.calls + 1) d

variable {lo hi}

theorem touches_erase {ba : Nat} (lb : Option Nat) (hlo : lo ≤ ba) (hhi : ba < hi) (d : Dev) :
    Touches lo hi d (erase g chip ba lb d).2 where
  ni := SameButStates.refl d.ni
  erased := by
    intro e he
    rcases List.mem_cons.mp he with rfl | hold
    · exact Or.inr ⟨hlo, hhi, SameButStates.refl d.ni⟩
    · exact Or.inl hold
  tables := rfl

theorem touches_eraseTries {ba : Nat} (hlo : lo ≤ ba) (hhi : ba < hi) (n : Nat) (d : Dev) :
    Touches lo hi d (eraseTries g chip ba n d).2 := by
  induction n generalizing d with
  | zero => exact Touches.refl lo hi d
  | succ n ih =>
      have herase := touches_erase g chip none hlo hhi d
      rw [eraseTries]
      split
      rename_i ret d' heq
      rw [heq] at herase
      split
      · exact herase
      · exact herase.trans (ih d')

variable (lo hi)

theorem touches_readTries (addr n : Nat) (ret : Int) (d : Dev) :
    Touches lo hi d (readTries g chip addr n ret d).2 := by
  induction n generalizing ret d with
  | zero => exact Touches.refl lo hi d
  | succ n ih =>
      have hcall := touches_calls lo hi (d.calls + 1) d
      rw [readTries]
      split
      · exact hcall
      · split
        · exact hcall
        · exact hcall.trans (ih _ _)

theorem touches_read (addr : Nat) (d : Dev) :
    Touches lo hi d (nmbmReadPhysPage g chip addr d).2 :=
  touches_readTries g chip lo hi addr _ _ d

theorem touches_writeTries (addr n : Nat) (d : Dev) :
    Touches lo hi d (writeTries chip addr n d).2 := by
  induction n generalizing d with
  | zero => exact Touches.refl lo hi d
  | succ n ih =>
      have hcall := touches_calls lo hi (d.calls + 1) d
      rw [writeTries]
      split
      · exact hcall
      · exact hcall.trans (ih _)

theorem touches_checkEmptyPages (addr n : Nat) (d : Dev) :
    Touches lo hi d (checkEmptyPages g chip addr n d).2 := by
  induction n generalizing addr d with
  | zero => exact Touches.refl lo hi d
  | succ n ih =>
      have hread := touches_read g chip lo hi addr d
      rw [checkEmptyPages]
      split
      rename_i ret a d' heq
      rw [heq] at hread
      split
      · exact hread
      · exact hread.trans (ih _ d')

theorem touches_writeVerifyPages (addr n : Nat) (d : Dev) :
    Touches lo hi d (writeVerifyPages g chip addr n d).2 := by
  induction n generalizing addr d with
  | zero => exact Touches.refl lo hi d
  | succ n ih =>
      have hwrite := touches_writeTries chip lo hi addr NMBM_TRY_COUNT d
      rw [writeVerifyPages, nmbmWritePhysPage]
      split
      · rename_i d' heq
        rw [heq] at hwrite
        exact hwrite
      · rename_i d' heq
        rw [heq] at hwrite
        have hread := touches_read g chip lo hi addr d'
        split
        rename_i ret a d'' heq'
        rw [heq'] at hread
        split
        · exact hwrite.trans hread
        · exact (hwrite.trans hread).trans (ih _ d'')

theorem touches_copyPages (dest src maxOffset n offset : Nat) (d : Dev) :
    Touches lo hi d (copyPages chip dest src maxOffset n offset d) := by
  induction n generalizing offset d with
  | zero => exact Touches.refl lo hi d
  | succ n ih =>
      have hread := touches_calls lo hi (d.calls + 1) d
      have hwrite := hread.trans (touches_calls lo hi (d.calls + 1 + 1) _)
      rw [copyPages]
      split
      · exact Touches.refl lo hi d
      · dsimp only
        split
        · exact hread
        · split
          · exact hread
          · split
            · exact hwrite
            · exact hwrite.trans (ih _ _)

variable {lo hi}

theorem touches_eraseBlockAndCheck {ba : Nat} (hlo : lo ≤ ba) (hhi : ba < hi) (d : Dev) :
    Touches lo hi d (nmbmEraseBlockAndCheck g chip ba d).2 := by
  have herase := touches_eraseTries g chip hlo hhi NMBM_TRY_COUNT d
  rw [nmbmEraseBlockAndCheck, nmbmErasePhysBlock]
  split
  · rename_i d' heq
    rw [heq] at herase
    exact herase
  · rename_i d' heq
    rw [heq] at herase
    split
    · exact herase.trans (touches_checkEmptyPages g chip lo hi _ _ d')
    · exact herase

theorem touches_eraseRangeLoop (n : Nat) {ba : Nat} (hlo : lo ≤ ba) (hhi : ba + n ≤ hi)
    (d : Dev) : Touches lo hi d (eraseRangeLoop g chip n ba d) := by
  induction n generalizing ba d with
  | zero => exact Touches.refl lo hi d
  | succ n ih =>
      have hnext : forall d, Touches lo hi d (eraseRangeLoop g chip n (ba + 1) d) :=
        ih (by lia) (by lia)
      have hbad := touches_checkBad g chip lo hi ba d
      rw [eraseRangeLoop]
      split
      · exact hnext d
      · split
        · rename_i d' heq
          rw [heq] at hbad
          exact (hbad.trans (touches_setBad lo hi ba d')).trans (hnext _)
        · rename_i d' heq
          rw [heq] at hbad
          have herase := touches_eraseBlockAndCheck g chip hlo (by lia : ba < hi) d'
          split
          · rename_i d'' heq'
            rw [heq'] at herase
            exact (hbad.trans herase).trans (hnext _)
          · rename_i d'' heq'
            rw [heq'] at herase
            exact ((hbad.trans herase).trans (touches_markBad lo hi ba d'')).trans (hnext _)

theorem touches_eraseRange {ba limit : Nat} (hlo : lo ≤ ba) (hhi : limit ≤ hi)
    (d : Dev) : Touches lo hi d (nmbmEraseRange g chip ba limit d) := by
  rw [nmbmEraseRange]
  by_cases hle : ba ≤ limit
  · exact touches_eraseRangeLoop g chip (limit - ba) hlo (by lia) d
  · rw [Nat.sub_eq_zero_of_le (by lia : limit ≤ ba)]
    exact Touches.refl lo hi d

theorem touches_writeMgmtLoop (size n sizeremain start : Nat) {ba : Nat} (hlo : lo ≤ ba)
    (hhi : ba + n ≤ hi) (d : Dev) :
    Touches lo hi d (writeMgmtLoop g chip size n ba sizeremain start d).2 := by
  induction n generalizing ba sizeremain start d with
  | zero => exact Touches.refl lo hi d
  | succ n ih =>
      have hnext : forall rem start d,
          Touches lo hi d (writeMgmtLoop g chip size n (ba + 1) rem start d).2 :=
        fun rem start d => ih rem start (by lia) (by lia) d
      have hbad := touches_checkBad g chip lo hi ba d
      rw [writeMgmtLoop]
      split
      · exact Touches.refl lo hi d
      · dsimp only
        split
        · exact hnext _ _ d
        · split
          · rename_i d' heq
            rw [heq] at hbad
            exact (hbad.trans (touches_setBad lo hi ba d')).trans (hnext _ _ _)
          · rename_i d' heq
            rw [heq] at hbad
            have herase := touches_eraseBlockAndCheck g chip hlo (by lia : ba < hi) d'
            split
            · rename_i d'' heq'
              rw [heq'] at herase
              exact ((hbad.trans herase).trans (touches_markBad lo hi ba d'')).trans (hnext _ _ _)
            · rename_i d'' heq'
              rw [heq'] at herase
              have hwrite := touches_writeVerifyPages g chip lo hi (ba2addr g ba)
                (pages g (min sizeremain g.blkSize)) d''
              rw [nmbnWriteVerifyData]
              split
              · rename_i d3 heq3
                rw [heq3] at hwrite
                exact (((hbad.trans herase).trans hwrite).trans
                  (touches_markBad lo hi ba d3)).trans (hnext _ _ _)
              · rename_i d3 heq3
                rw [heq3] at hwrite
                exact ((hbad.trans herase).trans hwrite).trans (hnext _ _ _)

/-- The blocks reported by a write that ends well.  `start` is set by the first
chunk, so it is a block of the range once something has been written. -/
theorem writeMgmtLoop_range {size n ba sizeremain start : Nat} {d : Dev} {table : Nat × Nat}
    (hsize : 0 < size) (hstart : sizeremain = size ∨ (lo ≤ start ∧ start < ba)) (hlo : lo ≤ ba)
    (h : (writeMgmtLoop g chip size n ba sizeremain start d).1 = some table) :
    lo ≤ table.1 ∧ table.1 < table.2 ∧ table.2 ≤ ba + n := by
  induction n generalizing ba sizeremain start d with
  | zero =>
      rw [writeMgmtLoop] at h
      by_cases hzero : sizeremain = 0
      · rw [if_pos hzero] at h
        cases h
        rcases hstart with hall | hrange
        · lia
        · exact ⟨hrange.left, hrange.right, by lia⟩
      · rw [if_neg hzero] at h
        cases h
  | succ n ih =>
      have hnext : forall {rem start d}, (rem = size ∨ (lo ≤ start ∧ start < ba + 1)) ->
          (writeMgmtLoop g chip size n (ba + 1) rem start d).1 = some table ->
          lo ≤ table.1 ∧ table.1 < table.2 ∧ table.2 ≤ ba + (n + 1) := by
        intro rem start d hs hrun
        have hrange := ih hs (by lia) hrun
        exact ⟨hrange.left, hrange.right.left, by lia⟩
      have hkeep : sizeremain = size ∨ (lo ≤ start ∧ start < ba + 1) := by
        rcases hstart with hall | hrange
        · exact Or.inl hall
        · exact Or.inr ⟨hrange.left, by lia⟩
      rw [writeMgmtLoop] at h
      split at h
      · cases h
        rcases hstart with hall | hrange
        · lia
        · exact ⟨hrange.left, hrange.right, by lia⟩
      · dsimp only at h
        split at h
        · exact hnext hkeep h
        · split at h
          · exact hnext hkeep h
          · split at h
            · exact hnext hkeep h
            · split at h
              · exact hnext hkeep h
              · refine hnext (Or.inr ?_) h
                split
                · exact ⟨hlo, by lia⟩
                · rcases hstart with hall | hrange
                  · contradiction
                  · exact ⟨hrange.left, by lia⟩

theorem infoTableSize_pos : 0 < infoTableSize g := by
  have hpg := g.pgSize_pos
  have hdiv : 1 ≤ (32 + g.pgSize - 1) / g.pgSize := (Nat.one_le_div_iff hpg).mpr (by lia)
  have halign : 0 < ALIGN 32 g.pgSize := Nat.mul_pos hdiv hpg
  unfold infoTableSize
  lia

theorem touches_writeInfoTable {ba limit : Nat} (hlo : lo ≤ ba) (hhi : limit ≤ hi) (d : Dev) :
    Touches lo hi d (nmbmWriteInfoTable g chip ba limit d).2 := by
  rw [nmbmWriteInfoTable, nmbmWriteMgmtRange]
  by_cases hle : ba ≤ limit
  · exact touches_writeMgmtLoop g chip _ (limit - ba) _ _ hlo (by lia) d
  · rw [Nat.sub_eq_zero_of_le (by lia : limit ≤ ba)]
    exact Touches.refl lo hi d

theorem writeInfoTable_range {ba limit : Nat} {d : Dev} {table : Nat × Nat}
    (h : (nmbmWriteInfoTable g chip ba limit d).1 = some table) :
    ba ≤ table.1 ∧ table.1 < table.2 ∧ table.2 ≤ limit := by
  have hsize := infoTableSize_pos g
  rw [nmbmWriteInfoTable, nmbmWriteMgmtRange] at h
  by_cases hle : ba ≤ limit
  · have hrange := writeMgmtLoop_range g chip hsize (Or.inl rfl) (Nat.le_refl ba) h
    exact ⟨hrange.left, hrange.right.left, by lia⟩
  · rw [Nat.sub_eq_zero_of_le (by lia : limit ≤ ba), writeMgmtLoop, if_neg (by lia)] at h
    cases h

end Nmbm
end Hlk7621
