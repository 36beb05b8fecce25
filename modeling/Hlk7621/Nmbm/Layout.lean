import Hlk7621.Lib.Allotment
import Hlk7621.Nmbm.Touches

/-!
# What the table functions keep

The management area is laid out in order: the info tables, the spare blocks up
to `mapping_blocks_top_ba`, the blocks given to logical blocks and the
signature.  Writing, updating and rescuing the tables keeps that order, keeps
the mapping, and erases no block that holds data.
-/

namespace Hlk7621
namespace Nmbm

variable (g : Geometry) (chip : Chip) {lo hi : Nat}

/-!
## The layout of the management area
-/

def held (mapping : Nat -> Int) (lb : Nat) : Option Nat :=
  if 0 ≤ mapping lb then some (mapping lb).toNat else none

/-- The blocks no logical block may have: those from `mgmt_start_ba` to
`mapping_blocks_top_ba`, and the signature. -/
def reserve (mgmt top sig : Nat) : Set Nat := fun b => (mgmt ≤ b ∧ b ≤ top) ∨ b = sig

def Placed (lo hi : Nat) (table : Nat × Nat) : Prop :=
  table = noTable ∨ (lo ≤ table.1 ∧ table.1 < table.2 ∧ table.2 ≤ hi)

/-- The order of the management area: the main table, the backup table, the spare
blocks up to `mapping_blocks_top_ba`, the blocks already given away and the
signature. -/
structure Layout (mapping : Nat -> Int) (count mgmt : Nat) (main backup : Nat × Nat)
    (spare top sig : Nat) : Prop where
  roles : Allotment.Exclusive (fun lb => lb < count) (held mapping) (reserve mgmt top sig)
  mgmt_le : mgmt ≤ spare
  spare_pos : 0 < spare
  main_placed : Placed mgmt spare main
  backup_placed : Placed (max mgmt main.2) spare backup
  backup_zero : backup.1 = 0 -> backup = noTable
  spare_le : spare ≤ top
  top_lt : top < sig
  sig_lt : sig < g.totalBlks

def Sound (ni : Instance) : Prop :=
  Layout g ni.blockMapping ni.dataBlockCount ni.mgmtStartBa ni.main ni.backup
    ni.mappingBlocksBa ni.mappingBlocksTopBa ni.signatureBa

/-- The erased block held no data but those of the block it was erased for. -/
def Erasure.Harmless (e : Erasure) : Prop :=
  forall lb, lb < e.ni.dataBlockCount -> held e.ni.blockMapping lb = some e.ba -> e.lb = some lb

/-- A table with these contents can be loaded again. -/
def Fit (ni : Instance) : Prop :=
  Allotment.Exclusive (fun lb => lb < ni.dataBlockCount) (held ni.blockMapping)
    (reserve ni.mgmtStartBa ni.mappingBlocksTopBa ni.signatureBa)

structure Clean (d : Dev) : Prop where
  erased : forall e, e ∈ d.erased -> e.Harmless
  tables : forall ni, ni ∈ d.tables -> Fit ni

structure Good (d : Dev) : Prop where
  sound : Sound g d.ni
  clean : Clean d

theorem Layout.place {g : Geometry} {mapping : Nat -> Int}
    {count mgmt : Nat} {main backup main' backup' : Nat × Nat} {spare spare' top sig : Nat}
    (h : Layout g mapping count mgmt main backup spare top sig) (hmgmt : mgmt ≤ spare')
    (hpos : 0 < spare') (hmain : Placed mgmt spare' main')
    (hbackup : Placed (max mgmt main'.2) spare' backup')
    (hzero : backup'.1 = 0 -> backup' = noTable) (hle : spare' ≤ top) :
    Layout g mapping count mgmt main' backup' spare' top sig where
  roles := h.roles
  mgmt_le := hmgmt
  spare_pos := hpos
  main_placed := hmain
  backup_placed := hbackup
  backup_zero := hzero
  spare_le := hle
  top_lt := h.top_lt
  sig_lt := h.sig_lt

theorem Placed.mono {lo hi hi' : Nat} {table : Nat × Nat} (h : Placed lo hi table)
    (hle : hi ≤ hi') : Placed lo hi' table := by
  rcases h with hnone | ⟨hlo, hmid, hhi⟩
  · exact Or.inl hnone
  · exact Or.inr ⟨hlo, hmid, hhi.trans hle⟩

theorem placed_noTable (lo hi : Nat) : Placed lo hi noTable := Or.inl rfl

variable {g} {d d' : Dev}

theorem Good.update {f : Instance -> Instance} (h : Good g d) (hf : Sound g (f d.ni)) :
    Good g (d.update f) where
  sound := hf
  clean := ⟨h.clean.erased, h.clean.tables⟩

/-- What was erased in a range that no logical block has was harmless. -/
theorem Clean.touch (h : Clean d) (ht : Touches lo hi d d')
    (hfree : forall lb, lb < d.ni.dataBlockCount -> forall b, held d.ni.blockMapping lb = some b ->
      ¬ (lo ≤ b ∧ b < hi)) : Clean d' where
  erased := by
    intro e he
    rcases ht.erased e he with hold | ⟨hlo, hhi, state, changed, hni⟩
    · exact h.erased e hold
    · intro lb hlb hb
      rw [hni] at hlb hb
      exact (hfree lb hlb e.ba hb ⟨hlo, hhi⟩).elim
  tables := by
    rw [ht.tables]
    exact h.tables

theorem Good.touch (h : Good g d) (ht : Touches lo hi d d') (hlo : d.ni.mgmtStartBa ≤ lo)
    (hhi : hi ≤ d.ni.mappingBlocksTopBa) : Good g d' where
  sound := by
    rcases ht.ni with ⟨state, changed, hni⟩
    have hsound := h.sound
    unfold Sound
    rw [hni]
    exact hsound
  clean := by
    refine h.clean.touch ht ?_
    intro lb hlb b hb hin
    exact h.sound.roles.unreserved hlb hb (Or.inl ⟨by lia, by lia⟩)

/-!
## Table writes
-/

section SameFields

variable {ni ni' : Instance} (h : SameButStates ni ni')

include h

theorem SameButStates.mgmtStartBa : ni'.mgmtStartBa = ni.mgmtStartBa := by
  rcases h with ⟨_, _, rfl⟩
  rfl

theorem SameButStates.mappingBlocksBa : ni'.mappingBlocksBa = ni.mappingBlocksBa := by
  rcases h with ⟨_, _, rfl⟩
  rfl

theorem SameButStates.mappingBlocksTopBa : ni'.mappingBlocksTopBa = ni.mappingBlocksTopBa := by
  rcases h with ⟨_, _, rfl⟩
  rfl

theorem SameButStates.main : ni'.main = ni.main := by
  rcases h with ⟨_, _, rfl⟩
  rfl

theorem SameButStates.backup : ni'.backup = ni.backup := by
  rcases h with ⟨_, _, rfl⟩
  rfl

end SameFields

theorem walkAsc_ge {ni : Instance} {limit n ba b : Nat} {nblock : Int}
    (h : walkAsc ni limit n ba nblock = some b) : ba ≤ b := by
  induction n generalizing ba nblock with
  | zero => cases h
  | succ n ih =>
      have hlast : forall nb : Int,
          (if nb < 0 then some ba else walkAsc ni limit n (ba + 1) nb) = some b -> ba ≤ b := by
        intro nb hnb
        split at hnb
        · exact (Option.some.inj hnb).le
        · exact Nat.le_of_succ_le (ih hnb)
      rw [walkAsc] at h
      split at h
      · exact hlast _ h
      · cases h

theorem tryReserveBlocks_ge {ni : Instance} {ba limit n b : Nat}
    (h : nmbmTryReserveBlocks g ni ba limit n = some b) : ba ≤ b := by
  induction n with
  | zero => exact walkAsc_ge h
  | succ n ih =>
      rw [nmbmTryReserveBlocks] at h
      split at h
      · rename_i nba hwalk
        cases h
        exact walkAsc_ge hwalk
      · exact ih h

theorem reserveSpare_ge {ni : Instance} {ba b : Nat} (h : reserveSpare g ni ba = some b) :
    ba ≤ b :=
  tryReserveBlocks_ge h

structure Wrote (g : Geometry) (ba limit : Nat) (d : Dev) (r : Option (Nat × Nat) × Dev) :
    Prop where
  good : Good g r.2
  same : SameButStates d.ni r.2.ni
  range : forall table, r.1 = some table ->
    ba ≤ table.1 ∧ table.1 < table.2 ∧ table.2 ≤ limit

theorem wrote_writeInfoTable (h : Good g d) {ba limit : Nat} (hlo : d.ni.mgmtStartBa ≤ ba)
    (hhi : limit ≤ d.ni.mappingBlocksTopBa) :
    Wrote g ba limit d (nmbmWriteInfoTable g chip ba limit d) := by
  have ht := touches_writeInfoTable g chip (Nat.le_refl ba) (Nat.le_refl limit) d
  exact
    { good := h.touch ht hlo hhi
      same := ht.ni
      range := fun table heq => writeInfoTable_range g chip heq }

theorem wrote_writeDownwards (h : Good g d) {lowest : Nat} (writeBa : Nat)
    (hlo : d.ni.mgmtStartBa ≤ lowest) :
    Wrote g lowest d.ni.mappingBlocksTopBa d (writeDownwards g chip lowest writeBa d) := by
  induction writeBa generalizing d with
  | zero =>
      rw [writeDownwards]
      split
      · rename_i hzero
        subst hzero
        exact wrote_writeInfoTable chip h hlo (Nat.le_refl _)
      · exact ⟨h, SameButStates.refl _, fun _ hnone => nomatch hnone⟩
  | succ writeBa ih =>
      rw [writeDownwards]
      split
      · rename_i hle
        have hw := wrote_writeInfoTable chip h (hlo.trans hle) (Nat.le_refl _)
        split
        · rename_i table d' heq
          rw [heq] at hw
          refine ⟨hw.good, hw.same, ?_⟩
          intro t ht
          have hrange := hw.range t ht
          exact ⟨hle.trans hrange.left, hrange.right⟩
        · rename_i d' heq
          rw [heq] at hw
          have hmgmt := hw.same.mgmtStartBa
          have hnext := ih hw.good (hmgmt.trans_le hlo)
          rw [hw.same.mappingBlocksTopBa] at hnext
          exact ⟨hnext.good, hw.same.trans hnext.same, hnext.range⟩
      · exact ⟨h, SameButStates.refl _, fun _ hnone => nomatch hnone⟩

theorem Good.eraseRange (h : Good g d) {ba limit : Nat} (hlo : d.ni.mgmtStartBa ≤ ba)
    (hhi : limit ≤ d.ni.mappingBlocksTopBa) : Good g (nmbmEraseRange g chip ba limit d) :=
  h.touch (touches_eraseRange g chip (Nat.le_refl ba) (Nat.le_refl limit) d) hlo hhi

theorem Wrote.bounds {ba limit : Nat} {table : Nat × Nat}
    (hw : Wrote g ba limit d (some table, d')) (hba : d.ni.mgmtStartBa ≤ ba)
    (hlimit : limit ≤ d.ni.mappingBlocksTopBa) :
    d'.ni.mgmtStartBa ≤ table.1 ∧ table.1 < table.2 ∧ table.2 ≤ d'.ni.mappingBlocksTopBa := by
  have hmgmt : d'.ni.mgmtStartBa = d.ni.mgmtStartBa := hw.same.mgmtStartBa
  have htop : d'.ni.mappingBlocksTopBa = d.ni.mappingBlocksTopBa := hw.same.mappingBlocksTopBa
  rcases hw.range table rfl with ⟨hlo, hmid, hhi⟩
  exact ⟨by lia, hmid, by lia⟩

/-!
## Moving the tables
-/

theorem Good.onlyTable (h : Good g d) {f : Instance -> Instance} {table : Nat × Nat}
    {spare : Nat} (hlo : d.ni.mgmtStartBa ≤ table.1) (hmid : table.1 < table.2)
    (hend : table.2 ≤ spare) (hhi : spare ≤ d.ni.mappingBlocksTopBa)
    (hf : Layout g d.ni.blockMapping d.ni.dataBlockCount d.ni.mgmtStartBa table noTable spare
      d.ni.mappingBlocksTopBa d.ni.signatureBa -> Sound g (f d.ni)) :
    Good g (d.update f) := by
  refine h.update (hf (h.sound.place ?_ ?_ (Or.inr ⟨hlo, hmid, hend⟩) (placed_noTable _ _)
    (fun _ => rfl) hhi))
  · lia
  · lia

theorem Good.appendBackup (h : Good g d) {table : Nat × Nat}
    (hmain : d.ni.mainTableEnd ≤ table.1) (hpos : 0 < table.1)
    (hlo : d.ni.mgmtStartBa ≤ table.1) (hmid : table.1 < table.2)
    (hhi : table.2 ≤ d.ni.mappingBlocksTopBa) :
    Good g (d.update fun ni => (ni.setBackup table).setMappingBlocks table.2) := by
  have hzero : table.1 = 0 -> table = noTable := fun heq => (hpos.ne' heq).elim
  refine h.update (h.sound.place (hlo.trans hmid.le) (hpos.trans hmid) ?_
    (Or.inr ⟨max_le hlo hmain, hmid, Nat.le_refl _⟩) hzero hhi)
  rcases h.sound.main_placed with hnone | ⟨hl, hm, _⟩
  · exact Or.inl hnone
  · exact Or.inr ⟨hl, hm, hmain.trans hmid.le⟩

theorem Good.replaceMain (h : Good g d) {table : Nat × Nat}
    (hlo : d.ni.mgmtStartBa ≤ table.1) (hmid : table.1 < table.2)
    (hinside : table.2 ≤ d.ni.mappingBlocksBa)
    (hbackup : d.ni.backup = noTable ∨ table.2 ≤ d.ni.backupTableBa) :
    Good g (d.update (Instance.setMain table)) := by
  refine h.update (h.sound.place h.sound.mgmt_le h.sound.spare_pos
    (Or.inr ⟨hlo, hmid, hinside⟩) ?_ h.sound.backup_zero h.sound.spare_le)
  rcases hbackup with hnone | hbefore
  · exact Or.inl hnone
  · rcases h.sound.backup_placed with hnone | ⟨hl, hm, hh⟩
    · exact Or.inl hnone
    · exact Or.inr ⟨max_le ((le_max_left _ _).trans hl) hbefore, hm, hh⟩

theorem Good.prependMain (h : Good g d) {table : Nat × Nat}
    (hlo : d.ni.mgmtStartBa ≤ table.1) (hmid : table.1 < table.2)
    (hbefore : table.2 ≤ d.ni.mainTableBa) :
    Good g (d.update fun ni => (ni.setBackup ni.main).setMain table) := by
  rcases h.sound.main_placed with hnone | ⟨hl, hm, hh⟩
  · have hzero : d.ni.mainTableBa = 0 := congrArg Prod.fst hnone
    lia
  · have hpos : d.ni.mainTableBa = 0 -> d.ni.main = noTable := by lia
    have hinside : table.2 ≤ d.ni.mappingBlocksBa := (hbefore.trans hm.le).trans hh
    exact h.update (h.sound.place h.sound.mgmt_le h.sound.spare_pos
      (Or.inr ⟨hlo, hmid, hinside⟩) (Or.inr ⟨max_le hl hbefore, hm, hh⟩) hpos
      h.sound.spare_le)

theorem Good.backupToMain (h : Good g d) : Good g (d.update Instance.backupToMain) := by
  refine h.update (h.sound.place h.sound.mgmt_le h.sound.spare_pos ?_
    (placed_noTable _ _) (fun _ => rfl) h.sound.spare_le)
  rcases h.sound.backup_placed with hnone | ⟨hlo, hmid, hhi⟩
  · exact Or.inl hnone
  · exact Or.inr ⟨(le_max_left _ _).trans hlo, hmid, hhi⟩

theorem Good.raiseSpare (h : Good g d) {ba : Nat} (hle : d.ni.mappingBlocksBa ≤ ba)
    (hhi : ba ≤ d.ni.mappingBlocksTopBa) :
    Good g (d.update fun ni => ni.setMappingBlocks ba) :=
  h.update (h.sound.place (h.sound.mgmt_le.trans hle) (h.sound.spare_pos.trans_le hle)
    (h.sound.main_placed.mono hle) (h.sound.backup_placed.mono hle)
    h.sound.backup_zero hhi)

theorem Good.reset (h : Good g d) :
    Good g (d.update fun ni =>
      ((ni.setMain noTable).setBackup noTable).setMappingBlocks ni.mappingBlocksTopBa) :=
  h.update (h.sound.place (h.sound.mgmt_le.trans h.sound.spare_le)
    (h.sound.spare_pos.trans_le h.sound.spare_le) (placed_noTable _ _) (placed_noTable _ _)
    (fun _ => rfl) (Nat.le_refl _))

theorem Good.main_bounds (h : Good g d) (hne : d.ni.mainTableBa ≠ 0) :
    d.ni.mgmtStartBa ≤ d.ni.mainTableBa ∧ d.ni.mainTableBa < d.ni.mainTableEnd ∧
      d.ni.mainTableEnd ≤ d.ni.mappingBlocksBa := by
  rcases h.sound.main_placed with hnone | hplaced
  · exact (hne (congrArg Prod.fst hnone)).elim
  · exact hplaced

theorem Good.backup_bounds (h : Good g d) (hne : d.ni.backupTableBa ≠ 0) :
    d.ni.mgmtStartBa ≤ d.ni.backupTableBa ∧ d.ni.mainTableEnd ≤ d.ni.backupTableBa ∧
      d.ni.backupTableBa < d.ni.backupTableEnd ∧ d.ni.backupTableEnd ≤ d.ni.mappingBlocksBa := by
  rcases h.sound.backup_placed with hnone | ⟨hlo, hmid, hhi⟩
  · exact (hne (congrArg Prod.fst hnone)).elim
  · exact ⟨(le_max_left _ _).trans hlo, (le_max_right _ _).trans hlo, hmid, hhi⟩

theorem Good.main_le (h : Good g d) : d.ni.mainTableBa ≤ d.ni.mappingBlocksBa := by
  by_cases hzero : d.ni.mainTableBa = 0
  · lia
  · rcases h.main_bounds hzero with ⟨_, hmid, hhi⟩
    exact hmid.le.trans hhi

theorem Good.main_end_le (h : Good g d) : d.ni.mainTableEnd ≤ d.ni.mappingBlocksBa := by
  rcases h.sound.main_placed with hnone | ⟨_, _, hhi⟩
  · have hzero : d.ni.mainTableEnd = 0 := congrArg Prod.snd hnone
    lia
  · exact hhi

theorem Good.dropBackup (h : Good g d) (hne : d.ni.backupTableBa ≠ 0) :
    Good g (d.update fun ni => (ni.setMappingBlocks ni.backupTableBa).setBackup noTable) := by
  rcases h.backup_bounds hne with ⟨hmgmt, hmain, hmid, hhi⟩
  have hspare := h.sound.spare_le
  refine h.update (h.sound.place hmgmt (Nat.pos_of_ne_zero hne) ?_ (placed_noTable _ _)
    (fun _ => rfl) ((hmid.le.trans hhi).trans hspare))
  rcases h.sound.main_placed with hnone | ⟨hl, hm, _⟩
  · exact Or.inl hnone
  · exact Or.inr ⟨hl, hm, hmain⟩

/-!
## The table functions
-/

theorem eraseRange_same (ba limit : Nat) (d : Dev) :
    SameButStates d.ni (nmbmEraseRange g chip ba limit d).ni :=
  (touches_eraseRange g chip (Nat.le_refl ba) (Nat.le_refl limit) d).ni

theorem good_rebuild
    (h : Good g (d.update fun ni =>
      ((ni.setMain noTable).setBackup noTable).setMappingBlocks ni.mappingBlocksTopBa)) :
    Good g (nmbmRebuildInfoTable g chip d).2 := by
  have hw := wrote_writeInfoTable chip h (Nat.le_refl _) (Nat.le_refl _)
  rw [nmbmRebuildInfoTable]
  dsimp only
  split
  · rename_i d1 heq
    rw [heq] at hw
    have hkeep : Good g d1 := hw.good
    exact hkeep.update (f := fun ni => { ni with isProtected := true }) hkeep.sound
  · rename_i main d1 heq
    rw [heq] at hw
    have hkeep : Good g d1 := hw.good
    rcases hw.bounds (Nat.le_refl _) (Nat.le_refl _) with ⟨hlo, hmid, hhi⟩
    have hbackup : d1.ni.backup = noTable := hw.same.backup
    have h2 : Good g (d1.update fun ni =>
        nmbmMarkTablesClean ((ni.setMain main).setMappingBlocks main.2)) := by
      refine hkeep.onlyTable hlo hmid (Nat.le_refl _) hhi ?_
      intro hlayout
      rw [<- hbackup] at hlayout
      exact hlayout
    split
    · exact h2
    · rename_i nextStartBa hnext
      have hge := reserveSpare_ge hnext
      have hlow : d1.ni.mgmtStartBa ≤ nextStartBa := (hlo.trans hmid.le).trans hge
      have hw2 := wrote_writeInfoTable chip h2 hlow (Nat.le_refl _)
      split
      · rename_i d2 heq2
        rw [heq2] at hw2
        exact hw2.good
      · rename_i backup d2 heq2
        rw [heq2] at hw2
        have hkeep2 := hw2.good
        have hmgmt2 : d2.ni.mgmtStartBa = d1.ni.mgmtStartBa := hw2.same.mgmtStartBa
        have hend2 : d2.ni.mainTableEnd = main.2 := congrArg Prod.snd hw2.same.main
        rcases hw2.bounds hlow (Nat.le_refl _) with ⟨hlo2, hmid2, hhi2⟩
        have hafter : main.2 ≤ backup.1 := hge.trans (hw2.range backup rfl).left
        have h3 := hkeep2.appendBackup (hend2.trans_le hafter) (by lia) hlo2 hmid2 hhi2
        refine h3.eraseRange chip ?_ ?_
        · change d2.ni.mgmtStartBa ≤ main.2
          lia
        · exact hmid2.le.trans hhi2

theorem good_rescueSingle (h : Good g d) :
    Good g (nmbmRescueSingleInfoTable g chip d).2 := by
  have hspare := h.sound.spare_le
  have hmain := h.main_le
  have hw := wrote_writeInfoTable chip h (Nat.le_refl _) (hmain.trans hspare)
  rw [nmbmRescueSingleInfoTable]
  split
  · rename_i table d1 heq
    rw [heq] at hw
    have hkeep : Good g d1 := hw.good
    have htop1 : d1.ni.mappingBlocksTopBa = d.ni.mappingBlocksTopBa :=
      hw.same.mappingBlocksTopBa
    have hba1 : d1.ni.mainTableBa = d.ni.mainTableBa := congrArg Prod.fst hw.same.main
    rcases hw.bounds (Nat.le_refl _) (hmain.trans hspare) with ⟨hlo, hmid, hhi⟩
    have hbefore : table.2 ≤ d1.ni.mainTableBa :=
      (hw.range table rfl).right.right.trans_eq hba1.symm
    have h2 := hkeep.prependMain hlo hmid hbefore
    have h3 : Good g (d1.update fun ni =>
        nmbmMarkTablesClean ((ni.setBackup ni.main).setMain table)) :=
      h2.update (f := nmbmMarkTablesClean) h2.sound
    refine h3.eraseRange chip (hlo.trans hmid.le) ?_
    change d1.ni.mainTableBa ≤ d1.ni.mappingBlocksTopBa
    lia
  · rename_i d1 heq
    rw [heq] at hw
    have hkeep : Good g d1 := hw.good
    split
    · exact hkeep
    · rename_i writeBa hreserve
      have hmgmt := hkeep.sound.mgmt_le
      have hw2 := wrote_writeDownwards chip hkeep writeBa hmgmt
      split
      · rename_i d2 heq2
        rw [heq2] at hw2
        exact hw2.good
      · rename_i table d2 heq2
        rw [heq2] at hw2
        have hkeep2 := hw2.good
        have hfrom : d2.ni.mappingBlocksBa ≤ table.1 :=
          hw2.same.mappingBlocksBa.trans_le (hw2.range table rfl).left
        rcases hw2.bounds hmgmt (Nat.le_refl _) with ⟨hlo, hmid, hhi⟩
        have h3 : Good g (nmbmEraseRange g chip d2.ni.mappingBlocksBa table.1 d2) :=
          hkeep2.eraseRange chip hkeep2.sound.mgmt_le (hmid.le.trans hhi)
        have hsame : SameButStates d2.ni
            (nmbmEraseRange g chip d2.ni.mappingBlocksBa table.1 d2).ni :=
          eraseRange_same chip d2.ni.mappingBlocksBa table.1 d2
        have hend : d2.ni.mainTableEnd ≤ table.1 := hkeep2.main_end_le.trans hfrom
        have hpos : 0 < table.1 := hkeep2.sound.spare_pos.trans_le hfrom
        have h4 := h3.appendBackup ((congrArg Prod.snd hsame.main).trans_le hend) hpos
          (hsame.mgmtStartBa.trans_le hlo) hmid (hhi.trans_eq hsame.mappingBlocksTopBa.symm)
        exact h4.update (f := nmbmMarkTablesClean) h4.sound

theorem good_updateSingle (updateMainTable : Bool) (h : Good g d)
    (hmain : d.ni.mgmtStartBa ≤ d.ni.mainTableBa) (hne : d.ni.backupTableBa ≠ 0) :
    Good g (nmbmUpdateSingleInfoTable g chip updateMainTable d).2 := by
  rcases h.backup_bounds hne with ⟨hmgmt, hafter, hmid, hhi⟩
  have hspare := h.sound.spare_le
  rw [nmbmUpdateSingleInfoTable]
  split
  · have hlimit : d.ni.backupTableBa ≤ d.ni.mappingBlocksTopBa :=
      (hmid.le.trans hhi).trans hspare
    have hw := wrote_writeInfoTable chip h hmain hlimit
    split
    · rename_i table d1 heq
      rw [heq] at hw
      have hkeep : Good g d1 := hw.good
      have hspare1 : d1.ni.mappingBlocksBa = d.ni.mappingBlocksBa := hw.same.mappingBlocksBa
      have hba1 : d1.ni.backupTableBa = d.ni.backupTableBa := congrArg Prod.fst hw.same.backup
      have hbefore : table.2 ≤ d.ni.backupTableBa := (hw.range table rfl).right.right
      rcases hw.bounds hmain hlimit with ⟨hlo1, hmid1, _⟩
      have h2 := hkeep.replaceMain hlo1 hmid1 (by lia) (Or.inr (by lia))
      exact h2.update (f := nmbmMarkTablesClean) h2.sound
    · rename_i d1 heq
      rw [heq] at hw
      have hkeep : Good g (d1.update Instance.backupToMain) := hw.good.backupToMain
      exact good_rescueSingle chip hkeep
  · have hw := wrote_writeInfoTable chip h hmgmt (Nat.le_refl _)
    split
    · rename_i table d1 heq
      rw [heq] at hw
      have hkeep : Good g d1 := hw.good
      have hmain1 : d1.ni.mainTableEnd = d.ni.mainTableEnd := congrArg Prod.snd hw.same.main
      rcases hw.bounds hmgmt (Nat.le_refl _) with ⟨hlo1, hmid1, hhi1⟩
      have hfrom : d.ni.backupTableBa ≤ table.1 := (hw.range table rfl).left
      have h2 := hkeep.appendBackup (hmain1.trans_le (hafter.trans hfrom)) (by lia) hlo1 hmid1
        hhi1
      exact h2.update (f := nmbmMarkTablesClean) h2.sound
    · rename_i d1 heq
      rw [heq] at hw
      have hkeep : Good g d1 := hw.good
      have hba1 : d1.ni.backupTableBa = d.ni.backupTableBa := congrArg Prod.fst hw.same.backup
      exact hkeep.dropBackup (hba1.trans_ne hne)

theorem good_rescueMain (h : Good g d) :
    Good g (nmbmRescueMainInfoTable g chip d).2 := by
  have hstay : Good g d := h
  have hmgmt := h.sound.mgmt_le
  rw [nmbmRescueMainInfoTable]
  split
  · exact hstay.backupToMain
  · rename_i writeBa hreserve
    have hw := wrote_writeDownwards chip h writeBa hmgmt
    split
    · rename_i d1 heq
      rw [heq] at hw
      exact hw.good.backupToMain
    · rename_i tmp d1 heq
      rw [heq] at hw
      have hkeep : Good g d1 := hw.good
      rcases hw.bounds hmgmt (Nat.le_refl _) with ⟨hlo1, hmid1, hhi1⟩
      have hfrom : d1.ni.mappingBlocksBa ≤ tmp.1 :=
        hw.same.mappingBlocksBa.trans_le (hw.range tmp rfl).left
      have hpos : 0 < tmp.1 := hkeep.sound.spare_pos.trans_le hfrom
      have h2 := hkeep.raiseSpare (hfrom.trans hmid1.le) hhi1
      have hlimit : tmp.1 ≤ d1.ni.mappingBlocksTopBa := hmid1.le.trans hhi1
      have hw2 := wrote_writeInfoTable chip h2 (Nat.le_refl _) hlimit
      dsimp only
      split
      · rename_i d2 heq2
        rw [heq2] at hw2
        have hkeep2 := hw2.good
        have hmgmt2 : d2.ni.mgmtStartBa = d1.ni.mgmtStartBa := hw2.same.mgmtStartBa
        have hspare2 : d2.ni.mappingBlocksBa = tmp.2 := hw2.same.mappingBlocksBa
        exact hkeep2.onlyTable (f := fun ni =>
            nmbmMarkTablesClean ((ni.setMain tmp).setBackup noTable))
          (hmgmt2.trans_le hlo1) hmid1 hspare2.symm.le hkeep2.sound.spare_le id
      · rename_i main d2 heq2
        rw [heq2] at hw2
        have hkeep2 := hw2.good
        have hmgmt2 : d2.ni.mgmtStartBa = d1.ni.mgmtStartBa := hw2.same.mgmtStartBa
        have hspare2 : d2.ni.mappingBlocksBa = tmp.2 := hw2.same.mappingBlocksBa
        rcases hw2.bounds (Nat.le_refl _) hlimit with ⟨hlo2, hmid2, _⟩
        -- the write stops at the temporary table, so it never grows over it
        have hbefore : main.2 ≤ tmp.1 := (hw2.range main rfl).right.right
        split
        · have hinside : main.2 ≤ d2.ni.mappingBlocksBa := by lia
          exact hkeep2.update (f := fun ni =>
              (nmbmMarkTablesClean (ni.setMain main)).setBackup tmp)
            (hkeep2.sound.place hkeep2.sound.mgmt_le hkeep2.sound.spare_pos
              (Or.inr ⟨hlo2, hmid2, hinside⟩)
              (Or.inr ⟨max_le (hmgmt2.trans_le hlo1) hbefore, hmid1, hspare2.symm.le⟩)
              (fun hzero => (hpos.ne' hzero).elim) hkeep2.sound.spare_le)
        · contradiction

theorem good_writeMainTable (h : Good g d) {mainTableLimit : Nat}
    (hlimit : mainTableLimit ≤ d.ni.mappingBlocksTopBa)
    (hbackup : d.ni.backup = noTable ∨ mainTableLimit = d.ni.backupTableBa) :
    Good g (writeMainTable g chip mainTableLimit d).2 := by
  rw [writeMainTable]
  split
  · exact good_rebuild chip h.reset
  · rename_i hne
    have hmain := h.main_bounds hne
    have hw := wrote_writeInfoTable chip h hmain.left hlimit
    split
    · rename_i d1 heq
      rw [heq] at hw
      have hkeep : Good g d1 := hw.good
      split
      · exact good_rebuild chip hkeep.reset
      · exact good_rescueMain chip hkeep
    · rename_i table d1 heq
      rw [heq] at hw
      have hkeep : Good g d1 := hw.good
      rcases hw.bounds hmain.left hlimit with ⟨hlo1, hmid1, hhi1⟩
      have hbefore : table.2 ≤ mainTableLimit := (hw.range table rfl).right.right
      have hbackup1 : d1.ni.backup = d.ni.backup := hw.same.backup
      have hba1 : d1.ni.backupTableBa = d.ni.backupTableBa := congrArg Prod.fst hbackup1
      dsimp only
      split
      · rename_i hzero
        have hnone : d1.ni.backup = noTable := hkeep.sound.backup_zero hzero
        refine hkeep.onlyTable (f := fun ni =>
          nmbmMarkTablesClean ((ni.setMain table).setMappingBlocks table.2))
          hlo1 hmid1 (Nat.le_refl _) hhi1 ?_
        intro hlayout
        rw [<- hnone] at hlayout
        exact hlayout
      · rename_i hne1
        have hne2 : d1.ni.backupTableBa ≠ 0 := hne1
        have hafter := hkeep.backup_bounds hne2
        have hlimit' : mainTableLimit = d1.ni.backupTableBa := by
          rcases hbackup with hnone | heq'
          · exact (hne2 (congrArg Prod.fst (hbackup1.trans hnone))).elim
          · exact heq'.trans hba1.symm
        have h2 := hkeep.replaceMain hlo1 hmid1 (by lia) (Or.inr (by lia))
        exact h2.update (f := nmbmMarkTablesClean) h2.sound

theorem good_generate (h : Good g d) :
    Good g (nmbmGenerateInfoTableCache d).2 := by
  have hcached : Good g { d with tables := d.ni :: d.tables } := by
    refine ⟨h.sound, h.clean.erased, ?_⟩
    intro ni hni
    rcases List.mem_cons.mp hni with rfl | hold
    · exact h.sound.roles
    · exact h.clean.tables ni hold
  rw [nmbmGenerateInfoTableCache]
  dsimp only
  split
  · exact hcached.update (f := fun ni => { ni with writeCount := u32 (ni.writeCount + 1) })
      h.sound
  · exact hcached

theorem good_updateOnce (force : Bool) (h : Good g d) :
    Good g (nmbmUpdateInfoTableOnce g chip force d).2 := by
  have hgen := good_generate h
  rw [nmbmUpdateInfoTableOnce]
  split
  rename_i changed d1 heq
  rw [heq] at hgen
  have hkeep : Good g d1 := hgen
  split
  · exact hkeep
  · split
    · rename_i hzero
      have hnone : d1.ni.backup = noTable := hkeep.sound.backup_zero hzero
      exact good_writeMainTable chip hkeep (Nat.le_refl _) (Or.inl hnone)
    · rename_i hne
      rcases hkeep.backup_bounds hne with ⟨hmgmt, hafter, hmid, hhi⟩
      have hw := wrote_writeInfoTable chip hkeep hmgmt (Nat.le_refl _)
      split
      · rename_i d2 heq2
        rw [heq2] at hw
        have hkeep2 := hw.good
        have hba2 : d2.ni.backupTableBa = d1.ni.backupTableBa := congrArg Prod.fst hw.same.backup
        have h3 := hkeep2.dropBackup (hba2.trans_ne hne)
        exact good_writeMainTable chip h3 (Nat.le_refl _) (Or.inl rfl)
      · rename_i table d2 heq2
        rw [heq2] at hw
        have hkeep2 := hw.good
        have hmain2 : d2.ni.mainTableEnd = d1.ni.mainTableEnd := congrArg Prod.snd hw.same.main
        rcases hw.bounds hmgmt (Nat.le_refl _) with ⟨hlo2, hmid2, hhi2⟩
        have hfrom : d1.ni.backupTableBa ≤ table.1 := (hw.range table rfl).left
        have h3 := hkeep2.appendBackup (hmain2.trans_le (hafter.trans hfrom)) (by lia) hlo2
          hmid2 hhi2
        have h4 : Good g (d2.update fun ni =>
            nmbmMarkTablesClean ((ni.setBackup table).setMappingBlocks table.2)) :=
          h3.update (f := nmbmMarkTablesClean) h3.sound
        exact good_writeMainTable chip h4 (hmid2.le.trans hhi2) (Or.inr rfl)

theorem good_updateRounds (fuel : Nat) (h : Good g d) :
    Good g (updateRounds g chip fuel d).2 := by
  induction fuel generalizing d with
  | zero => exact h
  | succ fuel ih =>
      have honce := good_updateOnce chip false h
      rw [updateRounds]
      split
      · split
        · rename_i d1 heq
          rw [heq] at honce
          exact honce
        · rename_i d1 heq
          rw [heq] at honce
          exact ih honce
      · exact h

/-- The update of the info tables keeps the driver good, whatever the chip does. -/
theorem good_updateInfoTable (fuel : Nat) (h : Good g d) :
    Good g (nmbmUpdateInfoTable g chip fuel d).2 := by
  rw [nmbmUpdateInfoTable]
  split
  · exact h
  · exact good_updateRounds chip fuel h

end Nmbm
end Hlk7621
