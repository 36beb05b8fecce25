import Hlk7621.Nmbm.Layout

/-!
# The end of the update loop

`nmbm_update_info_table` writes the tables until a round leaves no change behind.  A
round leaves a change behind only if it has found a block bad that was good before, so
the good blocks below `mapping_blocks_top_ba` bound the number of rounds.

The loops whose end does not show are repeated here with a bound on their iterations:
the rounds, and the retries `while (write_ba >= …)` with their `write_ba--` on 32 bits.
The result `none` is a loop that has not ended within its bound.
-/

namespace Hlk7621
namespace Nmbm

variable (g : Geometry) (chip : Chip)

/-!
## The loops with a bound
-/

def downwardsLoop (lowest : Nat) : Nat -> Nat -> Dev -> Option (Option (Nat × Nat) × Dev)
  | 0, _, _ => none
  | fuel + 1, writeBa, d =>
      if lowest ≤ writeBa then
        match nmbmWriteInfoTable g chip writeBa d.ni.mappingBlocksTopBa d with
        | (some table, d) => some (some table, d)
        | (none, d) => downwardsLoop lowest fuel (sub32 writeBa 1) d
      else some (none, d)

def rewriteBackupIn (fuel : Nat) (main : Nat × Nat) (d : Dev) : Option (Bool × Dev) :=
  let d := d.update fun ni => ni.setMappingBlocks main.2
  match reserveSpare g d.ni main.2 with
  | none => some (true, d.update fun ni => ni.setBackup noTable)
  | some writeBa =>
      match downwardsLoop g chip main.2 fuel writeBa d with
      | none => none
      | some (none, d) => some (true, d.update fun ni => ni.setBackup noTable)
      | some (some table, d) =>
          let d := d.update fun ni => (ni.setBackup table).setMappingBlocks table.2
          some (true, nmbmEraseRange g chip main.2 table.1 d)

def rescueMainIn (fuel : Nat) (d : Dev) : Option (Bool × Dev) :=
  match reserveSpare g d.ni d.ni.mappingBlocksBa with
  | none => some (true, d.update Instance.backupToMain)
  | some writeBa =>
      match downwardsLoop g chip d.ni.mappingBlocksBa fuel writeBa d with
      | none => none
      | some (none, d) => some (true, d.update Instance.backupToMain)
      | some (some tmp, d) =>
          let d := d.update fun ni => ni.setMappingBlocks tmp.2
          match nmbmWriteInfoTable g chip d.ni.mgmtStartBa tmp.1 d with
          | (none, d) =>
              some (true, d.update fun ni =>
                nmbmMarkTablesClean ((ni.setMain tmp).setBackup noTable))
          | (some main, d) =>
              let d := d.update fun ni => nmbmMarkTablesClean (ni.setMain main)
              if main.2 ≤ tmp.1 then some (true, d.update fun ni => ni.setBackup tmp)
              else rewriteBackupIn g chip fuel main d

def writeMainTableIn (fuel mainTableLimit : Nat) (d : Dev) : Option (Bool × Dev) :=
  if d.ni.mainTableBa = 0 then some (nmbmRebuildInfoTable g chip d)
  else
    match nmbmWriteInfoTable g chip d.ni.mainTableBa mainTableLimit d with
    | (none, d) =>
        if d.ni.backupTableBa = 0 then some (nmbmRebuildInfoTable g chip d)
        else rescueMainIn g chip fuel d
    | (some table, d) =>
        let d := d.update fun ni => ni.setMain table
        let d := if d.ni.backupTableBa = 0 then d.update fun ni => ni.setMappingBlocks table.2
          else d
        some (true, d.update nmbmMarkTablesClean)

def updateOnceIn (fuel : Nat) (force : Bool) (d : Dev) : Option (Bool × Dev) :=
  match nmbmGenerateInfoTableCache d with
  | (changed, d) =>
      if !changed && !force then some (true, d)
      else if d.ni.backupTableBa = 0 then
        writeMainTableIn g chip fuel d.ni.mappingBlocksTopBa d
      else
        match nmbmWriteInfoTable g chip d.ni.backupTableBa d.ni.mappingBlocksTopBa d with
        | (none, d) =>
            let d := d.update fun ni =>
              (ni.setMappingBlocks ni.backupTableBa).setBackup noTable
            writeMainTableIn g chip fuel d.ni.mappingBlocksTopBa d
        | (some table, d) =>
            let d := d.update fun ni =>
              nmbmMarkTablesClean ((ni.setBackup table).setMappingBlocks table.2)
            writeMainTableIn g chip fuel d.ni.backupTableBa d

def Instance.Pending (ni : Instance) : Prop :=
  ni.blockStateChanged ≠ 0 ∨ ni.blockMappingChanged ≠ 0

instance (ni : Instance) : Decidable ni.Pending := inferInstanceAs (Decidable (_ ∨ _))

def updateRoundsIn (retries : Nat) : Nat -> Dev -> Option (Bool × Dev)
  | 0, _ => none
  | fuel + 1, d =>
      if d.ni.Pending then
        match updateOnceIn g chip retries false d with
        | none => none
        | some (false, d) => some (false, d)
        | some (true, d) => updateRoundsIn retries fuel d
      else some (true, d)

def updateInfoTableIn (retries fuel : Nat) (d : Dev) : Option (Bool × Dev) :=
  if d.ni.isProtected then some (true, d) else updateRoundsIn g chip retries fuel d

/-!
## Good blocks
-/

def goodBelow (state : Nat -> BlockState) (top : Nat) : Nat :=
  (List.range top).countP fun b => state b = .good

theorem goodBelow_succ (state : Nat -> BlockState) (top : Nat) :
    goodBelow state (top + 1) = goodBelow state top + if state top = .good then 1 else 0 := by
  unfold goodBelow
  rw [List.range_succ, List.countP_append, List.countP_singleton]
  simp

/-- Some good blocks have turned bad, and no block has changed in another way. -/
def Decays (state state' : Nat -> BlockState) : Prop :=
  forall b, state' b = state b ∨ state b = .good ∧ state' b = .bad

theorem Decays.refl (state : Nat -> BlockState) : Decays state state := fun _ => .inl rfl

theorem Decays.trans {s t u : Nat -> BlockState} (hst : Decays s t) (htu : Decays t u) :
    Decays s u := by
  intro b
  rcases htu b with hb | ⟨hgood, hbad⟩
  · rcases hst b with hb' | ⟨hgood, hbad⟩
    · exact .inl (hb.trans hb')
    · exact .inr ⟨hgood, hb.trans hbad⟩
  · rcases hst b with hb' | ⟨_, hbad'⟩
    · exact .inr ⟨hb'.symm.trans hgood, hbad⟩
    · rw [hbad'] at hgood
      cases hgood

/-- A smaller number of good blocks is due to a good block that has turned bad. -/
theorem Decays.exists_bad {s t : Nat -> BlockState} (h : Decays s t) {top : Nat}
    (hlt : goodBelow t top < goodBelow s top) :
    exists b, b < top ∧ s b = .good ∧ t b = .bad := by
  induction top with
  | zero => cases hlt
  | succ top ih =>
      rw [goodBelow_succ, goodBelow_succ] at hlt
      rcases h top with hsame | hbad
      · rw [hsame] at hlt
        rcases ih (by lia) with ⟨b, hb, hgood, hbad⟩
        exact ⟨b, Nat.lt_succ_of_lt hb, hgood, hbad⟩
      · exact ⟨top, Nat.lt_succ_self top, hbad⟩

theorem Decays.goodBelow_le {s t : Nat -> BlockState} (h : Decays s t) (top : Nat) :
    goodBelow t top ≤ goodBelow s top := by
  induction top with
  | zero => exact Nat.le_refl _
  | succ top ih =>
      rw [goodBelow_succ, goodBelow_succ]
      rcases h top with hsame | ⟨hgood, hbad⟩
      · rw [hsame]
        lia
      · rw [hgood, hbad]
        simp
        lia

theorem goodBelow_setBad {ni : Instance} {ba : Nat} (hgood : ni.blockState ba = .good)
    (top : Nat) :
    goodBelow (nmbmSetBlockState ba .bad ni).blockState top + (if ba < top then 1 else 0) =
      goodBelow ni.blockState top := by
  induction top with
  | zero => rfl
  | succ top ih =>
      rw [goodBelow_succ, goodBelow_succ]
      by_cases heq : top = ba
      · subst heq
        rw [if_neg (Nat.lt_irrefl top)] at ih
        rw [if_pos hgood, if_pos (Nat.lt_succ_self top), <- ih]
        simp [nmbmSetBlockState]
      · have hother : (nmbmSetBlockState ba .bad ni).blockState top = ni.blockState top :=
          if_neg heq
        rw [hother]
        by_cases hlt : ba < top
        · rw [if_pos hlt] at ih
          rw [if_pos (Nat.lt_succ_of_lt hlt)]
          lia
        · have hnext : (if ba < top + 1 then 1 else 0) = 0 := if_neg (by lia)
          rw [if_neg hlt] at ih
          rw [hnext]
          lia

/-!
## Writes and erases
-/

/-- A stretch of writing below `top`: every block found bad is counted as a change. -/
structure Wears (top : Nat) (ni ni' : Instance) : Prop where
  same : SameButStates ni ni'
  decays : Decays ni.blockState ni'.blockState
  count : goodBelow ni'.blockState top + ni'.blockStateChanged =
    goodBelow ni.blockState top + ni.blockStateChanged

theorem Wears.refl (top : Nat) (ni : Instance) : Wears top ni ni :=
  ⟨SameButStates.refl ni, Decays.refl _, rfl⟩

theorem Wears.trans {top : Nat} {a b c : Instance} (hab : Wears top a b)
    (hbc : Wears top b c) : Wears top a c :=
  ⟨hab.same.trans hbc.same, hab.decays.trans hbc.decays, hbc.count.trans hab.count⟩

theorem wears_setBad {ba top : Nat} {ni : Instance} (hba : ba < top)
    (hgood : ni.blockState ba = .good) : Wears top ni (nmbmSetBlockState ba .bad ni) where
  same := ⟨_, _, rfl⟩
  decays := by
    intro b
    by_cases heq : b = ba
    · subst heq
      exact .inr ⟨hgood, if_pos rfl⟩
    · exact .inl (if_neg heq)
  count := by
    have hcount := goodBelow_setBad hgood top
    have hchanged : (nmbmSetBlockState ba .bad ni).blockStateChanged =
        ni.blockStateChanged + 1 := by
      rw [nmbmSetBlockState]
      exact if_neg (by rw [hgood]; decide)
    rw [if_pos hba] at hcount
    rw [hchanged]
    lia

theorem readTries_ni (addr n : Nat) (ret : Int) (d : Dev) :
    (readTries g chip addr n ret d).2.ni = d.ni := by
  induction n generalizing ret d with
  | zero => rfl
  | succ n ih =>
      rw [readTries]
      split
      · rfl
      · split
        · rfl
        · exact ih _ _

theorem writeTries_ni (addr n : Nat) (d : Dev) : (writeTries chip addr n d).2.ni = d.ni := by
  induction n generalizing d with
  | zero => rfl
  | succ n ih =>
      rw [writeTries]
      split
      · rfl
      · exact ih _

theorem eraseTries_ni (ba n : Nat) (d : Dev) : (eraseTries g chip ba n d).2.ni = d.ni := by
  induction n generalizing d with
  | zero => rfl
  | succ n ih =>
      rw [eraseTries]
      dsimp only [erase]
      split
      · rfl
      · exact ih _

theorem checkEmptyPages_ni (addr n : Nat) (d : Dev) :
    (checkEmptyPages g chip addr n d).2.ni = d.ni := by
  induction n generalizing addr d with
  | zero => rfl
  | succ n ih =>
      have hread := readTries_ni g chip addr NMBM_TRY_COUNT 0 d
      rw [checkEmptyPages, nmbmReadPhysPage]
      split
      rename_i ret a d' heq
      rw [heq] at hread
      split
      · exact hread
      · exact (ih _ d').trans hread

theorem eraseBlockAndCheck_ni (ba : Nat) (d : Dev) :
    (nmbmEraseBlockAndCheck g chip ba d).2.ni = d.ni := by
  have herase := eraseTries_ni g chip ba NMBM_TRY_COUNT d
  rw [nmbmEraseBlockAndCheck, nmbmErasePhysBlock]
  split
  · rename_i d' heq
    rw [heq] at herase
    exact herase
  · rename_i d' heq
    rw [heq] at herase
    split
    · exact (checkEmptyPages_ni g chip _ _ d').trans herase
    · exact herase

theorem writeVerifyPages_ni (addr n : Nat) (d : Dev) :
    (writeVerifyPages g chip addr n d).2.ni = d.ni := by
  induction n generalizing addr d with
  | zero => rfl
  | succ n ih =>
      have hwrite := writeTries_ni chip addr NMBM_TRY_COUNT d
      rw [writeVerifyPages, nmbmWritePhysPage]
      split
      · rename_i d' heq
        rw [heq] at hwrite
        exact hwrite
      · rename_i d' heq
        rw [heq] at hwrite
        have hread := readTries_ni g chip addr NMBM_TRY_COUNT 0 d'
        rw [nmbmReadPhysPage]
        split
        rename_i ret a d'' heq'
        rw [heq'] at hread
        split
        · exact hread.trans hwrite
        · exact (ih _ d'').trans (hread.trans hwrite)

theorem checkBad_ni (ba : Nat) (d : Dev) : (nmbmCheckBadPhysBlock g chip ba d).2.ni = d.ni :=
  rfl

theorem wears_bad {ba top : Nat} {ni : Instance} {d : Dev} (hni : d.ni = ni) (hba : ba < top)
    (hgood : ni.blockState ba = .good) :
    Wears top ni (d.setBad ba).ni ∧ Wears top ni (d.markBad ba).ni := by
  subst hni
  exact ⟨wears_setBad hba hgood, wears_setBad hba hgood⟩

theorem wears_eraseRangeLoop {top : Nat} (n : Nat) {ba : Nat} (htop : ba + n ≤ top)
    (d : Dev) : Wears top d.ni (eraseRangeLoop g chip n ba d).ni := by
  induction n generalizing ba d with
  | zero => exact Wears.refl top d.ni
  | succ n ih =>
      have hnext : forall d, Wears top d.ni (eraseRangeLoop g chip n (ba + 1) d).ni :=
        ih (by lia)
      have hchecked := checkBad_ni g chip ba d
      rw [eraseRangeLoop]
      split
      · exact hnext d
      · rename_i hgood
        have hgood : d.ni.blockState ba = .good := Decidable.not_not.mp hgood
        split
        · rename_i d' heq
          rw [heq] at hchecked
          exact (wears_bad hchecked (by lia) hgood).1.trans (hnext _)
        · rename_i d' heq
          rw [heq] at hchecked
          have herase := eraseBlockAndCheck_ni g chip ba d'
          split
          · rename_i d'' heq'
            rw [heq'] at herase
            have hrest := hnext d''
            rw [herase.trans hchecked] at hrest
            exact hrest
          · rename_i d'' heq'
            rw [heq'] at herase
            exact (wears_bad (herase.trans hchecked) (by lia) hgood).2.trans (hnext _)

theorem wears_eraseRange (ba : Nat) {limit top : Nat} (htop : limit ≤ top) (d : Dev) :
    Wears top d.ni (nmbmEraseRange g chip ba limit d).ni := by
  rw [nmbmEraseRange]
  by_cases hle : ba ≤ limit
  · exact wears_eraseRangeLoop g chip (limit - ba) (by lia) d
  · rw [Nat.sub_eq_zero_of_le (by lia : limit ≤ ba)]
    exact Wears.refl top d.ni

theorem wears_writeMgmtLoop {top : Nat} (size n sizeremain start : Nat) {ba : Nat}
    (htop : ba + n ≤ top) (d : Dev) :
    Wears top d.ni (writeMgmtLoop g chip size n ba sizeremain start d).2.ni := by
  induction n generalizing ba sizeremain start d with
  | zero => exact Wears.refl top d.ni
  | succ n ih =>
      have hnext : forall rem start d,
          Wears top d.ni (writeMgmtLoop g chip size n (ba + 1) rem start d).2.ni :=
        fun rem start d => ih rem start (by lia) d
      have hchecked := checkBad_ni g chip ba d
      rw [writeMgmtLoop]
      split
      · exact Wears.refl top d.ni
      · dsimp only
        split
        · exact hnext _ _ d
        · rename_i hgood
          have hgood : d.ni.blockState ba = .good := Decidable.not_not.mp hgood
          split
          · rename_i d' heq
            rw [heq] at hchecked
            exact (wears_bad hchecked (by lia) hgood).1.trans (hnext _ _ _)
          · rename_i d' heq
            rw [heq] at hchecked
            have herase := eraseBlockAndCheck_ni g chip ba d'
            split
            · rename_i d'' heq'
              rw [heq'] at herase
              exact (wears_bad (herase.trans hchecked) (by lia) hgood).2.trans (hnext _ _ _)
            · rename_i d'' heq'
              rw [heq'] at herase
              have hwrite := writeVerifyPages_ni g chip (ba2addr g ba)
                (pages g (min sizeremain g.blkSize)) d''
              have hsame := (hwrite.trans herase).trans hchecked
              rw [nmbnWriteVerifyData]
              split
              · rename_i d3 heq3
                rw [heq3] at hsame
                exact (wears_bad hsame (by lia) hgood).2.trans (hnext _ _ _)
              · rename_i d3 heq3
                rw [heq3] at hsame
                have hrest := hnext (sizeremain - min sizeremain g.blkSize)
                  (if sizeremain = size then ba else start) d3
                rw [hsame] at hrest
                exact hrest

theorem wears_writeInfoTable (ba : Nat) {limit top : Nat} (htop : limit ≤ top) (d : Dev) :
    Wears top d.ni (nmbmWriteInfoTable g chip ba limit d).2.ni := by
  rw [nmbmWriteInfoTable, nmbmWriteMgmtRange]
  by_cases hle : ba ≤ limit
  · exact wears_writeMgmtLoop g chip _ (limit - ba) _ _ (by lia) d
  · rw [Nat.sub_eq_zero_of_le (by lia : limit ≤ ba)]
    exact Wears.refl top d.ni

theorem wears_writeDownwards (lowest writeBa : Nat) (d : Dev) :
    Wears d.ni.mappingBlocksTopBa d.ni (writeDownwards g chip lowest writeBa d).2.ni := by
  induction writeBa generalizing d with
  | zero =>
      rw [writeDownwards]
      split
      · exact wears_writeInfoTable g chip 0 (Nat.le_refl _) d
      · exact Wears.refl _ d.ni
  | succ writeBa ih =>
      rw [writeDownwards]
      split
      · have hw := wears_writeInfoTable g chip (writeBa + 1)
          (Nat.le_refl d.ni.mappingBlocksTopBa) d
        split
        · rename_i table d' heq
          rw [heq] at hw
          exact hw
        · rename_i d' heq
          rw [heq] at hw
          have hrest := ih d'
          rw [hw.same.mappingBlocksTopBa] at hrest
          exact hw.trans hrest
      · exact Wears.refl _ d.ni

/-!
## One round
-/

structure Within (top : Nat) (s : Nat -> BlockState) (ni : Instance) : Prop where
  decays : Decays s ni.blockState
  atTop : ni.mappingBlocksTopBa = top

structure Settled (top : Nat) (s : Nat -> BlockState) (ni : Instance) : Prop
    extends Within top s ni where
  mapping : ni.blockMappingChanged = 0
  count : goodBelow ni.blockState top + ni.blockStateChanged ≤ goodBelow s top

section

variable {top : Nat} {s : Nat -> BlockState} {ni ni' : Instance}

theorem Within.congr (h : Within top s ni) (hstate : ni'.blockState = ni.blockState)
    (htop : ni'.mappingBlocksTopBa = ni.mappingBlocksTopBa) : Within top s ni' :=
  ⟨hstate ▸ h.decays, htop.trans h.atTop⟩

theorem Within.wears (h : Within top s ni) (hw : Wears top ni ni') : Within top s ni' :=
  ⟨h.decays.trans hw.decays, hw.same.mappingBlocksTopBa.trans h.atTop⟩

theorem Within.clean (h : Within top s ni) (hstate : ni'.blockState = ni.blockState)
    (htop : ni'.mappingBlocksTopBa = ni.mappingBlocksTopBa)
    (hchanged : ni'.blockStateChanged = 0 ∧ ni'.blockMappingChanged = 0) :
    Settled top s ni' where
  toWithin := h.congr hstate htop
  mapping := hchanged.2
  count := by
    rw [hchanged.1, hstate]
    exact h.decays.goodBelow_le top

theorem Settled.congr (h : Settled top s ni) (hstate : ni'.blockState = ni.blockState)
    (htop : ni'.mappingBlocksTopBa = ni.mappingBlocksTopBa)
    (hchanged : ni'.blockStateChanged = ni.blockStateChanged ∧
      ni'.blockMappingChanged = ni.blockMappingChanged) : Settled top s ni' where
  toWithin := h.toWithin.congr hstate htop
  mapping := hchanged.2.trans h.mapping
  count := by
    rw [hchanged.1, hstate]
    exact h.count

theorem Settled.wears (h : Settled top s ni) (hw : Wears top ni ni') : Settled top s ni' where
  toWithin := h.toWithin.wears hw
  mapping := by
    rcases hw.same with ⟨_, _, rfl⟩
    exact h.mapping
  count := by
    rw [hw.count]
    exact h.count

/-- A round that leaves a change behind has found a good block bad. -/
theorem Settled.pending (h : Settled top s ni) (hpending : ni.Pending) :
    goodBelow ni.blockState top < goodBelow s top := by
  have hchanged : ni.blockStateChanged ≠ 0 := by
    rcases hpending with hchanged | hmapping
    · exact hchanged
    · exact absurd h.mapping hmapping
  have hcount := h.count
  lia

end

/-- A step of a round with the result `r`, where `bounded` is its result with bounded
retries. -/
structure StepEnds (top : Nat) (s : Nat -> BlockState) (r : Bool × Dev)
    (bounded : Option (Bool × Dev)) : Prop where
  within : Within top s r.2.ni
  settled : r.1 = true -> Settled top s r.2.ni
  bounded : bounded = some r

theorem StepEnds.of_settled {top : Nat} {s : Nat -> BlockState} {r : Bool × Dev}
    (h : Settled top s r.2.ni) : StepEnds top s r (some r) :=
  ⟨h.toWithin, fun _ => h, rfl⟩

variable {top : Nat} {s : Nat -> BlockState} {d : Dev}

theorem rebuild_ends (h : Within top s d.ni) :
    StepEnds top s (nmbmRebuildInfoTable g chip d) (some (nmbmRebuildInfoTable g chip d)) := by
  have hstart : Within top s (d.update fun ni =>
      ((ni.setMain noTable).setBackup noTable).setMappingBlocks ni.mappingBlocksTopBa).ni :=
    h.congr rfl rfl
  have hw := wears_writeInfoTable g chip
    (d.update fun ni =>
      ((ni.setMain noTable).setBackup noTable).setMappingBlocks
        ni.mappingBlocksTopBa).ni.mgmtStartBa
    (Nat.le_of_eq hstart.atTop)
    (d.update fun ni =>
      ((ni.setMain noTable).setBackup noTable).setMappingBlocks ni.mappingBlocksTopBa)
  rw [nmbmRebuildInfoTable]
  dsimp only
  split
  · rename_i d1 heq
    rw [heq] at hw
    exact ⟨(hstart.wears hw).congr rfl rfl, (fun h => by cases h), rfl⟩
  · rename_i main d1 heq
    rw [heq] at hw
    have h1 : Settled top s (d1.update fun ni =>
        nmbmMarkTablesClean ((ni.setMain main).setMappingBlocks main.2)).ni :=
      (hstart.wears hw).clean rfl rfl ⟨rfl, rfl⟩
    split
    · exact .of_settled h1
    · rename_i nextStartBa hnext
      have hw2 := wears_writeInfoTable g chip nextStartBa (Nat.le_of_eq h1.atTop)
        (d1.update fun ni => nmbmMarkTablesClean ((ni.setMain main).setMappingBlocks main.2))
      split
      · rename_i d2 heq2
        rw [heq2] at hw2
        exact .of_settled (h1.wears hw2)
      · rename_i backup d2 heq2
        have hrange := writeInfoTable_range g chip (congrArg Prod.fst heq2)
        rw [heq2] at hw2
        have h2 : Settled top s (d2.update fun ni =>
            (ni.setBackup backup).setMappingBlocks backup.2).ni :=
          (h1.wears hw2).congr rfl rfl ⟨rfl, rfl⟩
        have hlimit : backup.1 ≤ top := by
          have htop := h1.atTop
          lia
        exact .of_settled (h2.wears (wears_eraseRange g chip main.2 hlimit _))

/-!
## The downward retries
-/

theorem downwardsLoop_eq {lowest : Nat} (hlowest : 0 < lowest) {writeBa fuel : Nat}
    (hlt : writeBa < 2 ^ 32) (hfuel : writeBa < fuel) (d : Dev) :
    downwardsLoop g chip lowest fuel writeBa d = some (writeDownwards g chip lowest writeBa d) := by
  induction writeBa generalizing fuel d with
  | zero =>
      cases fuel with
      | zero => cases hfuel
      | succ fuel =>
          rw [downwardsLoop, writeDownwards, if_neg (by lia), if_neg (by lia)]
  | succ writeBa ih =>
      cases fuel with
      | zero => cases hfuel
      | succ fuel =>
          have hback : sub32 (writeBa + 1) 1 = writeBa := sub32_of_le (by lia) hlt
          rw [downwardsLoop, writeDownwards]
          by_cases hle : lowest ≤ writeBa + 1
          · rw [if_pos hle, if_pos hle, hback]
            rcases nmbmWriteInfoTable g chip (writeBa + 1) d.ni.mappingBlocksTopBa d with
              ⟨table | table, d1⟩
            · exact ih (by lia) (by lia) d1
            · rfl
          · rw [if_neg hle, if_neg hle]

theorem walkAsc_lt {ni : Instance} {limit n ba b : Nat} {nblock : Int}
    (h : walkAsc ni limit n ba nblock = some b) : b < limit := by
  induction n generalizing ba nblock with
  | zero => cases h
  | succ n ih =>
      rw [walkAsc] at h
      split at h
      · rename_i hlt
        generalize (if ni.blockState ba = .good then nblock - 1 else nblock) = nb at h
        dsimp only at h
        by_cases hlast : nb < 0
        · rw [if_pos hlast] at h
          exact Option.some.inj h ▸ hlt
        · rw [if_neg hlast] at h
          exact ih h
      · cases h

theorem tryReserveBlocks_lt {ni : Instance} {ba limit n b : Nat}
    (h : nmbmTryReserveBlocks g ni ba limit n = some b) : b < g.totalBlks := by
  have hwalk : forall m, nmbmBlockWalkAsc g ni ba m limit = some b -> b < g.totalBlks := by
    intro m hm
    rw [nmbmBlockWalkAsc] at hm
    have hlt := walkAsc_lt hm
    split at hlt
    · lia
    · lia
  induction n with
  | zero => exact hwalk 0 h
  | succ n ih =>
      rw [nmbmTryReserveBlocks] at h
      split at h
      · rename_i nba heq
        rw [h] at heq
        exact hwalk (n + 1) heq
      · exact ih h

/-- The retries from a reserved block end within one iteration for each block. -/
theorem downwardsLoop_reserved {lowest ba writeBa : Nat} {ni : Instance} (hlowest : 0 < lowest)
    (h : reserveSpare g ni ba = some writeBa) (d : Dev) :
    downwardsLoop g chip lowest g.totalBlks writeBa d =
      some (writeDownwards g chip lowest writeBa d) := by
  have hlt := tryReserveBlocks_lt g h
  have htotal := g.totalBlks_lt
  exact downwardsLoop_eq g chip hlowest (by lia) hlt d

theorem writeDownwards_range {lowest writeBa : Nat} {d : Dev} {table : Nat × Nat}
    (h : (writeDownwards g chip lowest writeBa d).1 = some table) :
    table.1 < table.2 ∧ table.2 ≤ d.ni.mappingBlocksTopBa := by
  induction writeBa generalizing d with
  | zero =>
      rw [writeDownwards] at h
      split at h
      · exact (writeInfoTable_range g chip h).right
      · cases h
  | succ writeBa ih =>
      have hw := wears_writeInfoTable g chip (writeBa + 1)
        (Nat.le_refl d.ni.mappingBlocksTopBa) d
      rw [writeDownwards] at h
      split at h
      · rcases hwrite : nmbmWriteInfoTable g chip (writeBa + 1) d.ni.mappingBlocksTopBa d with
          ⟨_ | table', d1⟩
        · rw [hwrite] at h hw
          have hrange := ih h
          rw [hw.same.mappingBlocksTopBa] at hrange
          exact hrange
        · rw [hwrite] at h
          cases h
          exact (writeInfoTable_range g chip (congrArg Prod.fst hwrite)).right
      · cases h

/-!
## The rescue and the round
-/

theorem rescueMain_ends (h : Settled top s d.ni) (hpos : 0 < d.ni.mappingBlocksBa) :
    StepEnds top s (nmbmRescueMainInfoTable g chip d) (rescueMainIn g chip g.totalBlks d) := by
  rw [nmbmRescueMainInfoTable, rescueMainIn]
  rcases hreserve : reserveSpare g d.ni d.ni.mappingBlocksBa with _ | writeBa
  · exact .of_settled (h.congr rfl rfl ⟨rfl, rfl⟩)
  · have hw := wears_writeDownwards g chip d.ni.mappingBlocksBa writeBa d
    rw [h.atTop] at hw
    dsimp only
    rw [downwardsLoop_reserved g chip hpos hreserve]
    rcases hwrite : writeDownwards g chip d.ni.mappingBlocksBa writeBa d with ⟨_ | tmp, d1⟩
    · rw [hwrite] at hw
      exact .of_settled ((h.wears hw).congr rfl rfl ⟨rfl, rfl⟩)
    · rw [hwrite] at hw
      have h1 : Settled top s (d1.update fun ni => ni.setMappingBlocks tmp.2).ni :=
        (h.wears hw).congr rfl rfl ⟨rfl, rfl⟩
      have hlimit : tmp.1 ≤ top := by
        have hrange := writeDownwards_range g chip (congrArg Prod.fst hwrite)
        have htop := h.atTop
        lia
      have hw2 := wears_writeInfoTable g chip
        (d1.update fun ni => ni.setMappingBlocks tmp.2).ni.mgmtStartBa hlimit
        (d1.update fun ni => ni.setMappingBlocks tmp.2)
      dsimp only
      generalize hmgmt : (d1.update fun ni => ni.setMappingBlocks tmp.2).ni.mgmtStartBa = mgmt
        at hw2 ⊢
      rcases hmain : nmbmWriteInfoTable g chip mgmt tmp.1
        (d1.update fun ni => ni.setMappingBlocks tmp.2) with ⟨_ | main, d2⟩
      · rw [hmain] at hw2
        exact .of_settled ((h1.wears hw2).toWithin.clean rfl rfl ⟨rfl, rfl⟩)
      · rw [hmain] at hw2
        have h2 : Settled top s (d2.update fun ni => nmbmMarkTablesClean (ni.setMain main)).ni :=
          (h1.wears hw2).toWithin.clean rfl rfl ⟨rfl, rfl⟩
        -- the write stops at the temporary table, so it never grows over it
        have hbefore : main.2 ≤ tmp.1 :=
          (writeInfoTable_range g chip (congrArg Prod.fst hmain)).right.right
        dsimp only
        rw [if_pos hbefore, if_pos hbefore]
        exact .of_settled (h2.congr rfl rfl ⟨rfl, rfl⟩)

/-- From `write_main_table` on: if there is a backup table, then it has just been
written. -/
theorem writeMainTable_ends (h : Within top s d.ni) {mainTableLimit : Nat}
    (hlimit : mainTableLimit ≤ top)
    (hbackup : d.ni.backupTableBa ≠ 0 -> Settled top s d.ni ∧ 0 < d.ni.mappingBlocksBa) :
    StepEnds top s (writeMainTable g chip mainTableLimit d)
      (writeMainTableIn g chip g.totalBlks mainTableLimit d) := by
  have hw := wears_writeInfoTable g chip d.ni.mainTableBa hlimit d
  rw [writeMainTable, writeMainTableIn]
  by_cases hmain : d.ni.mainTableBa = 0
  · rw [if_pos hmain, if_pos hmain]
    exact rebuild_ends g chip h
  · rw [if_neg hmain, if_neg hmain]
    rcases hwrite : nmbmWriteInfoTable g chip d.ni.mainTableBa mainTableLimit d with
      ⟨_ | table, d1⟩
    · rw [hwrite] at hw
      have hba : d1.ni.backupTableBa = d.ni.backupTableBa := congrArg Prod.fst hw.same.backup
      dsimp only
      by_cases hzero : d1.ni.backupTableBa = 0
      · rw [if_pos hzero, if_pos hzero]
        exact rebuild_ends g chip (h.wears hw)
      · rw [if_neg hzero, if_neg hzero]
        rcases hbackup (hba ▸ hzero) with ⟨hsettled, hpos⟩
        have hpos : 0 < d1.ni.mappingBlocksBa := hpos.trans_eq hw.same.mappingBlocksBa.symm
        exact rescueMain_ends g chip (hsettled.wears hw) hpos
    · rw [hwrite] at hw
      dsimp only
      split
      · exact .of_settled ((h.wears hw).clean rfl rfl ⟨rfl, rfl⟩)
      · exact .of_settled ((h.wears hw).clean rfl rfl ⟨rfl, rfl⟩)

theorem generate_pending (hpending : d.ni.Pending) :
    nmbmGenerateInfoTableCache d =
      (true, { d with tables := d.ni :: d.tables }.update fun ni =>
        { ni with writeCount := u32 (ni.writeCount + 1) }) :=
  if_pos hpending

theorem updateOnce_ends (hpending : d.ni.Pending) :
    StepEnds d.ni.mappingBlocksTopBa d.ni.blockState (nmbmUpdateInfoTableOnce g chip false d)
      (updateOnceIn g chip g.totalBlks false d) := by
  have h : Within d.ni.mappingBlocksTopBa d.ni.blockState (nmbmGenerateInfoTableCache d).2.ni ∧
      (nmbmGenerateInfoTableCache d).1 = true := by
    rw [generate_pending hpending]
    exact ⟨⟨Decays.refl _, rfl⟩, rfl⟩
  rw [nmbmUpdateInfoTableOnce, updateOnceIn]
  generalize nmbmGenerateInfoTableCache d = cached at h ⊢
  rcases cached with ⟨changed, d1⟩
  rcases h with ⟨h, hchanged⟩
  cases hchanged
  have htop := h.atTop
  generalize d.ni.mappingBlocksTopBa = top at h htop ⊢
  generalize d.ni.blockState = s at h ⊢
  dsimp only at h htop ⊢
  have hwork : ¬ (!true && !false) = true := by decide
  rw [if_neg hwork, if_neg hwork]
  by_cases hbackup : d1.ni.backupTableBa = 0
  · rw [if_pos hbackup, if_pos hbackup]
    exact writeMainTable_ends g chip h (Nat.le_of_eq htop) (absurd hbackup)
  · rw [if_neg hbackup, if_neg hbackup]
    have hw := wears_writeInfoTable g chip d1.ni.backupTableBa (Nat.le_of_eq htop) d1
    rcases hwrite : nmbmWriteInfoTable g chip d1.ni.backupTableBa d1.ni.mappingBlocksTopBa d1
      with ⟨_ | table, d2⟩
    · rw [hwrite] at hw
      have h2 : Within top s (d2.update fun ni =>
          (ni.setMappingBlocks ni.backupTableBa).setBackup noTable).ni :=
        (h.wears hw).congr rfl rfl
      exact writeMainTable_ends g chip h2 (Nat.le_of_eq h2.atTop) (absurd rfl)
    · have hrange := writeInfoTable_range g chip (congrArg Prod.fst hwrite)
      rw [hwrite] at hw
      have h2 : Settled top s (d2.update fun ni =>
          nmbmMarkTablesClean ((ni.setBackup table).setMappingBlocks table.2)).ni :=
        (h.wears hw).clean rfl rfl ⟨rfl, rfl⟩
      have hlimit : table.1 ≤ top := by lia
      have hpos : 0 < table.2 := by lia
      exact writeMainTable_ends g chip h2.toWithin hlimit (fun _ => ⟨h2, hpos⟩)

/-!
## The rounds
-/

theorem updateOnce_bad (hpending : d.ni.Pending)
    (hok : (nmbmUpdateInfoTableOnce g chip false d).1 = true)
    (hagain : (nmbmUpdateInfoTableOnce g chip false d).2.ni.Pending) :
    goodBelow (nmbmUpdateInfoTableOnce g chip false d).2.ni.blockState d.ni.mappingBlocksTopBa <
      goodBelow d.ni.blockState d.ni.mappingBlocksTopBa :=
  ((updateOnce_ends g chip hpending).settled hok).pending hagain

/-- The rounds from `d` on end with `r` when `rounds` of them are allowed. -/
structure RoundsEnd (d : Dev) (rounds : Nat) (r : Bool × Dev) : Prop where
  settled : r.1 = true -> ¬ r.2.ni.Pending
  bounded : forall fuel, rounds ≤ fuel ->
    updateRoundsIn g chip g.totalBlks fuel d = some r ∧ updateRounds g chip fuel d = r

variable {g chip}

theorem RoundsEnd.mono {n m : Nat} {r : Bool × Dev} (h : RoundsEnd g chip d n r) (hle : n ≤ m) :
    RoundsEnd g chip d m r :=
  ⟨h.settled, fun fuel hfuel => h.bounded fuel (hle.trans hfuel)⟩

theorem roundsEnd_settled (h : ¬ d.ni.Pending) : RoundsEnd g chip d 1 (true, d) where
  settled := fun _ => h
  bounded := by
    intro fuel hfuel
    cases fuel with
    | zero => cases hfuel
    | succ fuel => exact ⟨if_neg h, if_neg h⟩

theorem roundsEnd_failed (hpending : d.ni.Pending) {d1 : Dev}
    (honce : nmbmUpdateInfoTableOnce g chip false d = (false, d1)) :
    RoundsEnd g chip d 1 (false, d1) where
  settled := (nomatch ·)
  bounded := by
    have hin : updateOnceIn g chip g.totalBlks false d = some (false, d1) :=
      honce ▸ (updateOnce_ends g chip hpending).bounded
    intro fuel hfuel
    cases fuel with
    | zero => cases hfuel
    | succ fuel =>
        rw [updateRoundsIn, updateRounds, if_pos hpending, hin, honce]
        exact ⟨rfl, if_pos hpending⟩

theorem RoundsEnd.step (hpending : d.ni.Pending) {d1 : Dev}
    (honce : nmbmUpdateInfoTableOnce g chip false d = (true, d1)) {n : Nat} {r : Bool × Dev}
    (h : RoundsEnd g chip d1 n r) : RoundsEnd g chip d (n + 1) r where
  settled := h.settled
  bounded := by
    have hin : updateOnceIn g chip g.totalBlks false d = some (true, d1) :=
      honce ▸ (updateOnce_ends g chip hpending).bounded
    intro fuel hfuel
    cases fuel with
    | zero => cases hfuel
    | succ fuel =>
        rcases h.bounded fuel (Nat.le_of_succ_le_succ hfuel) with ⟨hrounds, hplain⟩
        rw [updateRoundsIn, updateRounds, if_pos hpending, hin, honce]
        exact ⟨hrounds, (if_pos hpending).trans hplain⟩

variable (g chip)

theorem updateRounds_end (d : Dev) :
    exists r, RoundsEnd g chip d (goodBelow d.ni.blockState d.ni.mappingBlocksTopBa + 2) r := by
  induction hgood : goodBelow d.ni.blockState d.ni.mappingBlocksTopBa using
    Nat.strong_induction_on generalizing d with
  | _ good ih =>
      by_cases hpending : d.ni.Pending
      · have hbad := updateOnce_bad g chip hpending
        have htop := (updateOnce_ends g chip hpending).within.atTop
        rcases honce : nmbmUpdateInfoTableOnce g chip false d with ⟨ok, d1⟩
        rw [honce] at hbad htop
        cases ok with
        | false => exact ⟨_, (roundsEnd_failed hpending honce).mono (by lia)⟩
        | true =>
            by_cases hagain : d1.ni.Pending
            · have hless := hbad rfl hagain
              rw [hgood] at hless
              rcases ih _ hless d1 (by rw [htop]) with ⟨r, hrest⟩
              exact ⟨r, (hrest.step hpending honce).mono (by lia)⟩
            · exact ⟨_, ((roundsEnd_settled hagain).step hpending honce).mono (by lia)⟩
      · exact ⟨_, (roundsEnd_settled hpending).mono (by lia)⟩

/-- The update of the tables ends, within a number of rounds that the good blocks bound,
and each round that another one follows has turned a good block bad. -/
theorem updateInfoTable_ends (d : Dev) :
    (exists r, forall fuel, goodBelow d.ni.blockState d.ni.mappingBlocksTopBa + 2 ≤ fuel ->
      updateInfoTableIn g chip g.totalBlks fuel d = some r ∧
        nmbmUpdateInfoTable g chip fuel d = r) ∧
    forall d' : Dev, d'.ni.Pending ->
      exists r, updateOnceIn g chip g.totalBlks false d' = some r ∧
        nmbmUpdateInfoTableOnce g chip false d' = r ∧
        (r.1 = true -> r.2.ni.Pending ->
          Decays d'.ni.blockState r.2.ni.blockState ∧
          exists b, b < d'.ni.mappingBlocksTopBa ∧
            d'.ni.blockState b = .good ∧ r.2.ni.blockState b = .bad) := by
  constructor
  · by_cases hprotected : d.ni.isProtected
    · refine ⟨(true, d), ?_⟩
      intro fuel _
      exact ⟨if_pos hprotected, if_pos hprotected⟩
    · rcases updateRounds_end g chip d with ⟨r, hr⟩
      refine ⟨r, ?_⟩
      intro fuel hfuel
      rcases hr.bounded fuel hfuel with ⟨hin, hplain⟩
      exact ⟨(if_neg hprotected).trans hin, (if_neg hprotected).trans hplain⟩
  · intro d' hpending
    have hround := updateOnce_ends g chip hpending
    refine ⟨_, hround.bounded, rfl, ?_⟩
    intro hok hagain
    have hdecays := hround.within.decays
    exact ⟨hdecays, hdecays.exists_bad (updateOnce_bad g chip hpending hok hagain)⟩

end Nmbm
end Hlk7621
