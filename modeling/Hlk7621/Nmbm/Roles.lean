import Hlk7621.Lib.Runs
import Hlk7621.Nmbm.Loading

/-!
# One role for every block

The allocation of spare blocks takes the first good block at or below
`mapping_blocks_top_ba`, and then lowers the top by one block.  As long as the
block at the top is good whenever a good block is left, the block taken is the
top itself, no block is given away twice, and neither a table nor the signature
shares a block with data.
-/

namespace Hlk7621
namespace Nmbm

def SpareTopGood (ni : Instance) : Prop :=
  ni.blockState ni.mappingBlocksTopBa = .good ∨
    forall b, b ≤ ni.mappingBlocksTopBa -> ni.mappingBlocksBa < b -> ni.blockState b ≠ .good

def Meeting.Fine : Meeting -> Prop
  | .map ni => SpareTopGood ni
  | .load ni tableEndBa => Loadable ni tableEndBa

/-!
## Mapping a block
-/

theorem walkDesc_none {ni : Instance} {limit ba : Nat}
    (h : forall b, b ≤ ba -> limit < b -> ni.blockState b ≠ .good) :
    walkDesc ni limit ba 0 = none := by
  induction ba with
  | zero => rfl
  | succ ba ih =>
      rw [walkDesc]
      split
      · rename_i hlimit
        have hbad := h (ba + 1) (Nat.le_refl _) hlimit
        simp only [if_neg hbad, Int.lt_irrefl, if_false]
        exact ih fun b hb => h b (Nat.le_succ_of_le hb)
      · rfl

theorem walkDesc_top {ni : Instance} {limit ba pb : Nat} (hgood : ni.blockState ba = .good)
    (h : walkDesc ni limit ba 0 = some pb) : pb = ba := by
  cases ba with
  | zero => cases h
  | succ ba =>
      rw [walkDesc] at h
      split at h
      · have htop : some (ba + 1) = some pb := h
        exact (Option.some.inj htop).symm
      · cases h

theorem walkDesc_range {ni : Instance} {limit ba pb : Nat} {nblock : Int}
    (h : walkDesc ni limit ba nblock = some pb) :
    limit < pb ∧ pb ≤ ba ∧ (0 < nblock -> pb < ba) := by
  induction ba generalizing nblock with
  | zero => cases h
  | succ ba ih =>
      -- a good block uses up one of the blocks to skip
      have hstep : forall nb : Int, nblock ≤ nb + 1 ->
          (if nb < 0 then some (ba + 1) else walkDesc ni limit ba nb) = some pb ->
          limit < ba + 1 -> limit < pb ∧ pb ≤ ba + 1 ∧ (0 < nblock -> pb < ba + 1) := by
        intro nb hnb hrest hlimit
        split at hrest
        · cases hrest
          exact ⟨hlimit, Nat.le_refl _, fun hpos => by lia⟩
        · rcases ih hrest with ⟨hlo, hhi, _⟩
          exact ⟨hlo, by lia, fun _ => by lia⟩
      rw [walkDesc] at h
      split at h
      · rename_i hlimit
        refine hstep _ ?_ h hlimit
        split
        · lia
        · lia
      · cases h

variable {g : Geometry} (chip : Chip) {d : Dev}

theorem spare_is_top (h : Sound g d.ni) (hfine : SpareTopGood d.ni) {pb : Nat}
    (hwalk : nmbmBlockWalkDesc g d.ni d.ni.mappingBlocksTopBa 0 d.ni.mappingBlocksBa = some pb) :
    pb = d.ni.mappingBlocksTopBa := by
  have hspare := h.spare_le
  have htop := h.top_lt
  have hsig := h.sig_lt
  rw [nmbmBlockWalkDesc, if_neg (by lia)] at hwalk
  rcases hfine with hgood | hnone
  · exact walkDesc_top hgood hwalk
  · have hnever := walkDesc_none hnone
    exact nomatch hnever.symm.trans hwalk

theorem held_update (mapping : Nat -> Int) (lb pb : Nat) :
    held (fun l => if l = lb then (pb : Int) else mapping l) =
      Function.update (held mapping) lb (some pb) := by
  funext l
  by_cases hl : l = lb
  · subst hl
    simp [held]
  · simp [held, hl]

theorem Sound.take_top {ni : Instance} (h : Sound g ni) (lb : Nat) {count : Nat}
    (hcount : forall l, l < count -> l = lb ∨ l < ni.dataBlockCount)
    (hne : ni.mappingBlocksBa ≠ ni.mappingBlocksTopBa) :
    Layout g (fun l => if l = lb then (ni.mappingBlocksTopBa : Int) else ni.blockMapping l) count
      ni.mgmtStartBa ni.main ni.backup ni.mappingBlocksBa (ni.mappingBlocksTopBa - 1)
      ni.signatureBa := by
  have hspare := h.spare_le
  have htop := h.top_lt
  have hmgmt := h.mgmt_le
  have hreserved : ni.mappingBlocksTopBa ∈
      reserve ni.mgmtStartBa ni.mappingBlocksTopBa ni.signatureBa :=
    Or.inl ⟨hmgmt.trans hspare, Nat.le_refl _⟩
  have hassign := h.roles.assign lb hreserved
  rw [<- held_update] at hassign
  refine
    { roles := hassign.mono (fun l hl => hcount l hl) ?_
      mgmt_le := h.mgmt_le
      spare_pos := h.spare_pos
      main_placed := h.main_placed
      backup_placed := h.backup_placed
      backup_zero := h.backup_zero
      spare_le := by lia
      top_lt := by lia
      sig_lt := h.sig_lt }
  intro b hb
  rcases hb with ⟨hlo, hhi⟩ | heq
  · exact ⟨Or.inl ⟨hlo, by lia⟩, fun hmem => by
      have hb' : b = ni.mappingBlocksTopBa := hmem
      lia⟩
  · exact ⟨Or.inr heq, fun hmem => by
      have hb' : b = ni.mappingBlocksTopBa := hmem
      lia⟩

theorem mapBlock_met (fuel lb : Nat) (c : Call) :
    (nmbmMapBlock g chip fuel lb c).2.met = .map c.dev.ni :: c.met := by
  rw [nmbmMapBlock]
  dsimp only
  split
  · rfl
  · split
    · rfl
    · rfl

theorem mapBlock_spec (fuel lb : Nat) {c : Call} (h : Good g c.dev)
    (hfine : SpareTopGood c.dev.ni) :
    match nmbmMapBlock g chip fuel lb c with
    | (false, c') => Good g c'.dev
    | (true, c') => Clean c'.dev ∧
        c'.dev.ni.dataBlockCount = c.dev.ni.dataBlockCount ∧
        c'.dev.ni.mgmtStartBa = c.dev.ni.mgmtStartBa ∧
        c'.dev.ni.blockMapping lb = c.dev.ni.mappingBlocksTopBa ∧
        forall count, (forall l, l < count -> l = lb ∨ l < c.dev.ni.dataBlockCount) ->
          Sound g { c'.dev.ni with dataBlockCount := count } := by
  rw [nmbmMapBlock]
  dsimp only
  by_cases hne : c.dev.ni.mappingBlocksBa = c.dev.ni.mappingBlocksTopBa
  · rw [if_pos hne]
    exact h
  · rw [if_neg hne]
    rcases hwalk : nmbmBlockWalkDesc g c.dev.ni c.dev.ni.mappingBlocksTopBa 0
      c.dev.ni.mappingBlocksBa with _ | pb
    · have hupdate := good_updateInfoTable chip fuel h
      have hs := hupdate.sound
      refine hupdate.update (f := fun ni => { ni with mappingBlocksTopBa := ni.mappingBlocksBa }) ?_
      exact
        { roles := hs.roles.mono (fun _ hl => hl) (by
            intro b hb
            rcases hb with ⟨hlo, hhi⟩ | heq
            · exact Or.inl ⟨hlo, hhi.trans hs.spare_le⟩
            · exact Or.inr heq)
          mgmt_le := hs.mgmt_le
          spare_pos := hs.spare_pos
          main_placed := hs.main_placed
          backup_placed := hs.backup_placed
          backup_zero := hs.backup_zero
          spare_le := Nat.le_refl _
          top_lt := hs.spare_le.trans_lt hs.top_lt
          sig_lt := hs.sig_lt }
    · have htop := spare_is_top h.sound hfine hwalk
      subst htop
      refine ⟨⟨h.clean.erased, h.clean.tables⟩, rfl, rfl, if_pos rfl, ?_⟩
      intro count hcount
      exact h.sound.take_top lb hcount hne

/-!
## Creating the management area
-/

theorem mapEndBlocks_met (fuel n lb : Nat) (c : Call) :
    c.met ⊆ (mapEndBlocks g chip fuel n lb c).met := by
  induction n generalizing lb c with
  | zero => exact List.Subset.refl _
  | succ n ih =>
      have hmet := mapBlock_met (g := g) chip fuel lb c
      rw [mapEndBlocks]
      split
      · rename_i c' heq
        rw [heq] at hmet
        intro m hm
        exact hmet ▸ List.mem_cons_of_mem _ hm
      · rename_i c' heq
        rw [heq] at hmet
        intro m hm
        refine ih _ _ ?_
        exact hmet ▸ List.mem_cons_of_mem _ hm

theorem good_mapEndBlocks (fuel n : Nat) {lb : Nat} {c : Call} (h : Good g c.dev)
    (hlb : lb = c.dev.ni.dataBlockCount)
    (hfine : forall m, m ∈ (mapEndBlocks g chip fuel n lb c).met -> m.Fine) :
    Good g (mapEndBlocks g chip fuel n lb c).dev := by
  induction n generalizing lb c with
  | zero => exact h
  | succ n ih =>
      have hmet := mapBlock_met (g := g) chip fuel lb c
      have hspec := fun hfine => mapBlock_spec chip fuel lb h hfine
      rw [mapEndBlocks] at hfine ⊢
      rcases hmap : nmbmMapBlock g chip fuel lb c with ⟨_ | _, c'⟩
      · rw [hmap] at hmet hspec hfine
        have hmem : Meeting.map c.dev.ni ∈ c'.met := hmet ▸ List.mem_cons_self
        exact hspec (hfine _ hmem)
      · rw [hmap] at hmet hspec hfine
        have hmem : Meeting.map c.dev.ni ∈ c'.met := hmet ▸ List.mem_cons_self
        have hstep := hspec (hfine _ (mapEndBlocks_met chip fuel n _ _ hmem))
        rcases hstep with ⟨hclean, hcount, _, _, hsound⟩
        refine ih ⟨hsound (c'.dev.ni.dataBlockCount + 1) ?_, hclean.erased, hclean.tables⟩ ?_ hfine
        · intro l hl
          lia
        · change lb + 1 = c'.dev.ni.dataBlockCount + 1
          lia

structure Mapped (mapping : Nat -> Int) (lb pb : Nat) : Prop where
  below : forall l, l < lb -> 0 ≤ mapping l ∧ mapping l < pb
  distinct : forall l l', l < lb -> l' < lb -> mapping l = mapping l' -> l = l'

theorem mapGoodBlocks_mapped (state : Nat -> BlockState) (n : Nat) {pb lb : Nat}
    {mapping : Nat -> Int} (h : Mapped mapping lb pb) :
    Mapped (mapGoodBlocks state n pb lb mapping).1 (mapGoodBlocks state n pb lb mapping).2
      (pb + n) := by
  induction n generalizing pb lb mapping with
  | zero => exact h
  | succ n ih =>
      have hend : pb + (n + 1) = pb + 1 + n := by lia
      rw [mapGoodBlocks, hend]
      split
      · refine ih ⟨?_, h.distinct⟩
        intro l hl
        have hbelow := h.below l hl
        exact ⟨hbelow.left, by lia⟩
      · refine ih ⟨?_, ?_⟩
        · intro l hl
          by_cases hlast : l = lb
          · rw [if_pos hlast]
            exact ⟨by lia, by lia⟩
          · rw [if_neg hlast]
            have hbelow := h.below l (by lia)
            exact ⟨hbelow.left, by lia⟩
        · intro l l' hl hl' heq
          by_cases hlast : l = lb
          · by_cases hlast' : l' = lb
            · rw [hlast, hlast']
            · rw [if_pos hlast, if_neg hlast'] at heq
              have hbelow := h.below l' (by lia)
              lia
          · by_cases hlast' : l' = lb
            · rw [if_neg hlast, if_pos hlast'] at heq
              have hbelow := h.below l (by lia)
              lia
            · rw [if_neg hlast, if_neg hlast'] at heq
              exact h.distinct l l' (by lia) (by lia) heq

theorem buildMappingTable_roles (ni : Instance) :
    Allotment.Exclusive (fun lb => lb < (nmbmBuildMappingTable g ni).dataBlockCount)
      (held (nmbmBuildMappingTable g ni).blockMapping) (fun b => ni.mgmtStartBa ≤ b) := by
  have hnone : Mapped ni.blockMapping 0 0 :=
    ⟨fun l hl => (Nat.not_lt_zero l hl).elim, fun l _ hl => (Nat.not_lt_zero l hl).elim⟩
  have hmapped := mapGoodBlocks_mapped ni.blockState ni.mgmtStartBa hnone
  rw [Nat.zero_add] at hmapped
  have hentry : forall {l b}, l < (nmbmBuildMappingTable g ni).dataBlockCount ->
      held (nmbmBuildMappingTable g ni).blockMapping l = some b ->
      (mapGoodBlocks ni.blockState ni.mgmtStartBa 0 0 ni.blockMapping).1 l = b := by
    intro l b hl hheld
    have heq := held_eq_some hheld
    have hlt : l < (mapGoodBlocks ni.blockState ni.mgmtStartBa 0 0 ni.blockMapping).2 := hl
    rw [nmbmBuildMappingTable] at heq
    dsimp only at heq
    rw [if_neg (by lia)] at heq
    exact heq
  constructor
  · intro i j k hi hj hki hkj
    exact hmapped.distinct i j hi hj ((hentry hi hki).trans (hentry hj hkj).symm)
  · intro i k hi hki hle
    have hbelow := (hmapped.below i hi).right
    rw [hentry hi hki] at hbelow
    have hle' : ni.mgmtStartBa ≤ k := hle
    lia

theorem generate_clean (h : Clean d) (hfit : Fit d.ni) :
    Clean (nmbmGenerateInfoTableCache d).2 := by
  have htables : forall ni, ni ∈ d.ni :: d.tables -> Fit ni := by
    intro ni hni
    rcases List.mem_cons.mp hni with rfl | hold
    · exact hfit
    · exact h.tables ni hold
  rw [nmbmGenerateInfoTableCache]
  dsimp only
  split
  · exact ⟨h.erased, htables⟩
  · exact ⟨h.erased, htables⟩

theorem createInfoTable_spec (fuel : Nat) (hclean : Clean d)
    (hsig : d.ni.signatureBa < g.totalBlks)
    (hroles : Allotment.Exclusive (fun lb => lb < d.ni.dataBlockCount) (held d.ni.blockMapping)
      (fun b => d.ni.mgmtStartBa ≤ b))
    (hfine : forall m, m ∈ (nmbmCreateInfoTable g chip fuel d).2.met -> m.Fine) :
    Clean (nmbmCreateInfoTable g chip fuel d).2.dev ∧
      ((nmbmCreateInfoTable g chip fuel d).1 = true ->
        Good g (nmbmCreateInfoTable g chip fuel d).2.dev) := by
  rw [nmbmCreateInfoTable] at hfine ⊢
  rcases hwalk : nmbmBlockWalkDesc g d.ni d.ni.signatureBa 1 d.ni.mgmtStartBa with _ | top
  · exact ⟨hclean, (fun h => nomatch h)⟩
  · rw [hwalk] at hfine
    dsimp only at hfine ⊢
    have hrange : d.ni.mgmtStartBa < top ∧ top < d.ni.signatureBa := by
      rw [nmbmBlockWalkDesc] at hwalk
      rcases walkDesc_range hwalk with ⟨hlo, hhi, hlt⟩
      have hbelow := hlt (by decide)
      split at hlo
      · lia
      · exact ⟨hlo, hbelow⟩
    have hlayout : Layout g d.ni.blockMapping d.ni.dataBlockCount d.ni.mgmtStartBa noTable noTable
        top top d.ni.signatureBa :=
      { roles := hroles.mono (fun _ hl => hl) (by
          intro b hb
          rcases hb with ⟨hlo, _⟩ | heq
          · exact hlo
          · have hle : d.ni.mgmtStartBa ≤ b := by lia
            exact hle)
        mgmt_le := hrange.left.le
        spare_pos := by lia
        main_placed := placed_noTable _ _
        backup_placed := placed_noTable _ _
        backup_zero := fun _ => rfl
        spare_le := Nat.le_refl _
        top_lt := hrange.right
        sig_lt := hsig }
    have hgen := generate_clean (d := d.update fun ni => { ni with mappingBlocksTopBa := top })
      (hclean.update _) hlayout.roles
    rcases generate_ni (d.update fun ni => { ni with mappingBlocksTopBa := top }) with ⟨count, hni⟩
    generalize (nmbmGenerateInfoTableCache
      (d.update fun ni => { ni with mappingBlocksTopBa := top })).2 = d2 at hfine hgen hni ⊢
    have hreset : Good g (d2.update fun ni =>
        ((ni.setMain noTable).setBackup noTable).setMappingBlocks ni.mappingBlocksTopBa) := by
      refine ⟨?_, hgen.update _⟩
      unfold Sound
      rw [Dev.update, hni]
      exact hlayout
    have hbuilt := good_rebuild chip hreset
    rcases hrebuild : nmbmRebuildInfoTable g chip d2 with ⟨_ | _, d3⟩
    · rw [hrebuild] at hbuilt
      exact ⟨hbuilt.clean, (fun h => nomatch h)⟩
    · rw [hrebuild] at hbuilt hfine
      have hmapped := good_mapEndBlocks chip fuel (d3.ni.mgmtStartBa - d3.ni.dataBlockCount)
        (c := { dev := d3, met := [] }) hbuilt rfl hfine
      have hupdated := good_updateInfoTable chip fuel hmapped
      exact ⟨hupdated.clean, fun _ => hupdated⟩

theorem writeSignatureLoop_spec (limit ba : Nat) (d : Dev) :
    Touches (limit + 1) (ba + 1) d (writeSignatureLoop g chip limit ba d).2 ∧
      forall sig, (writeSignatureLoop g chip limit ba d).1 = some sig ->
        limit < sig ∧ sig ≤ ba := by
  induction ba generalizing d with
  | zero => exact ⟨Touches.refl _ _ d, (fun sig h => nomatch h)⟩
  | succ ba ih =>
      have hnext : forall d0 d', Touches (limit + 1) (ba + 1 + 1) d0 d' ->
          Touches (limit + 1) (ba + 1 + 1) d0 (writeSignatureLoop g chip limit ba d').2 ∧
          forall sig, (writeSignatureLoop g chip limit ba d').1 = some sig ->
            limit < sig ∧ sig ≤ ba + 1 := by
        intro d0 d' ht
        refine ⟨ht.trans ((ih d').left.mono (Nat.le_refl _) (Nat.le_succ _)), ?_⟩
        intro sig hsome
        rcases (ih d').right sig hsome with ⟨hlo, hhi⟩
        exact ⟨hlo, Nat.le_succ_of_le hhi⟩
      have hbad := touches_checkBad g chip (limit + 1) (ba + 1 + 1) (ba + 1) d
      rw [writeSignatureLoop]
      split
      · rename_i hlimit
        split
        · exact hnext d d (Touches.refl _ _ d)
        · split
          · rename_i d1 heq
            rw [heq] at hbad
            exact hnext d _ (hbad.trans (touches_setBad _ _ _ d1))
          · rename_i d1 heq
            rw [heq] at hbad
            have herase := touches_eraseBlockAndCheck g chip hlimit (Nat.lt_succ_self (ba + 1)) d1
            split
            · rename_i d2 heq2
              rw [heq2] at herase
              exact hnext d _ ((hbad.trans herase).trans (touches_markBad _ _ _ d2))
            · rename_i d2 heq2
              rw [heq2] at herase
              have hwrite : Touches (limit + 1) (ba + 1 + 1) d2
                  (nmbmWriteRepeatedData g chip (ba + 1) signatureSize d2).2 := by
                rw [nmbmWriteRepeatedData]
                split
                · exact Touches.refl _ _ d2
                · exact touches_writeVerifyPages g chip _ _ _ _ d2
              split
              · rename_i d3 heq3
                rw [heq3] at hwrite
                refine ⟨(hbad.trans herase).trans hwrite, ?_⟩
                intro sig hsome
                cases hsome
                exact ⟨hlimit, Nat.le_refl _⟩
              · rename_i d3 heq3
                rw [heq3] at hwrite
                exact hnext d _ (((hbad.trans herase).trans hwrite).trans
                  (touches_markBad _ _ _ d3))
      · exact ⟨Touches.refl _ _ d, (fun sig h => nomatch h)⟩

theorem Scans.clean {d d' : Dev} (h : Scans d d') (hclean : Clean d) : Clean d' :=
  h.reads.clean hclean

theorem createNew_spec (fuel : Nat) (hclean : Clean d)
    (hfine : forall m, m ∈ (nmbmCreateNew g chip fuel d).2.met -> m.Fine) :
    Clean (nmbmCreateNew g chip fuel d).2.dev ∧
      ((nmbmCreateNew g chip fuel d).1 = true -> Good g (nmbmCreateNew g chip fuel d).2.dev) := by
  rw [nmbmCreateNew] at hfine ⊢
  have hscan := scans_scanBadblocks g chip g.totalBlks 0
    (d.update fun ni => { ni with mgmtStartBa := mgmtStart g })
  rw [<- nmbmScanBadblocks] at hscan
  have hclean1 := hscan.clean (hclean.update _)
  generalize nmbmScanBadblocks g chip
    (d.update fun ni => { ni with mgmtStartBa := mgmtStart g }) = d1 at hfine hclean1 ⊢
  have hroles := buildMappingTable_roles (g := g) d1.ni
  have hclean2 : Clean (d1.update (nmbmBuildMappingTable g)) := hclean1.update _
  have hspec := writeSignatureLoop_spec (g := g) chip d1.ni.mgmtStartBa (g.totalBlks - 1)
    (d1.update (nmbmBuildMappingTable g))
  rw [<- nmbmWriteSignature] at hspec
  have hclean3 := hclean2.touch hspec.left (by
    intro lb hlb b hb hin
    exact hroles.unreserved hlb hb (Nat.le_of_succ_le hin.left))
  have hmgmt : (d1.update (nmbmBuildMappingTable g)).ni.mgmtStartBa = d1.ni.mgmtStartBa := rfl
  rw [hmgmt] at hfine ⊢
  rcases hwrite : nmbmWriteSignature g chip d1.ni.mgmtStartBa
    (d1.update (nmbmBuildMappingTable g)) with ⟨_ | ba, d2⟩
  · rw [hwrite] at hclean3
    exact ⟨hclean3, (fun h => nomatch h)⟩
  · rw [hwrite] at hclean3 hspec hfine
    have hba : ba < g.totalBlks := by
      have hle := (hspec.right ba rfl).right
      have hpos := g.totalBlks_pos
      lia
    rcases hspec.left.ni with ⟨state, changed, hni⟩
    refine createInfoTable_spec chip fuel (hclean3.update _) hba ?_ hfine
    have hni' : d2.ni = { (nmbmBuildMappingTable g d1.ni) with
      blockState := state, blockStateChanged := changed } := hni
    rw [Dev.update, hni']
    exact hroles

theorem loadExisting_spec (fuel mgmtStartPb : Nat) (hclean : Clean d)
    (hsig : d.ni.signatureBa < g.totalBlks)
    (hfine : forall m, m ∈ (nmbmLoadExisting g chip fuel mgmtStartPb d).2.met -> m.Fine) :
    Clean (nmbmLoadExisting g chip fuel mgmtStartPb d).2.dev ∧
      ((nmbmLoadExisting g chip fuel mgmtStartPb d).1 = true ->
        Good g (nmbmLoadExisting g chip fuel mgmtStartPb d).2.dev) := by
  rw [nmbmLoadExisting] at hfine ⊢
  have hload := load_spec chip
    (d := d.update fun ni => { ni with mgmtStartBa := mgmtStartPb }) (hclean.update _) hsig
    (d.update fun ni => { ni with mgmtStartBa := mgmtStartPb }).ni.signatureBa
  rcases hresult : nmbmLoadInfoTable g chip
      (d.update fun ni => { ni with mgmtStartBa := mgmtStartPb }).ni.mgmtStartBa
      (d.update fun ni => { ni with mgmtStartBa := mgmtStartPb }).ni.signatureBa
      (d.update fun ni => { ni with mgmtStartBa := mgmtStartPb }) with ⟨_ | _, c⟩
  · rw [hresult] at hload hfine
    rcases hload with ⟨hclean1, _, hsig1⟩
    dsimp only at hfine ⊢
    split
    · rename_i hforce
      rw [if_pos hforce] at hfine
      have hscan := scans_scanBadblocks g chip g.totalBlks 0 c.dev
      rw [<- nmbmScanBadblocks] at hscan
      refine createInfoTable_spec chip fuel ((hscan.clean hclean1).update _) ?_
        (buildMappingTable_roles _) hfine
      exact (hscan.reads.signatureBa.trans hsig1).trans_lt hsig
    · exact ⟨hclean1, (fun h => nomatch h)⟩
  · rw [hresult] at hload hfine
    rcases hload with ⟨ni, endBa, hmet, hgood⟩
    have hmem : Meeting.load ni endBa ∈ c.met := by
      rw [hmet]
      exact List.mem_singleton_self _
    have hdone := hgood (hfine _ hmem)
    exact ⟨hdone.clean, fun _ => hdone⟩

/-- Attaching to a chip, on every path. -/
theorem attach_spec (fuel : Nat) (hclean : Clean d)
    (hfine : forall m, m ∈ (nmbmAttach g chip fuel d).2.met -> m.Fine) :
    Clean (nmbmAttach g chip fuel d).2.dev ∧
      ((nmbmAttach g chip fuel d).1 = some true -> Good g (nmbmAttach g chip fuel d).2.dev) := by
  rw [nmbmAttach] at hfine ⊢
  have hfind := findSignature_spec g chip { d with ni := nmbmInitStructure }
  have hclean1 : Clean (nmbmFindSignature g chip { d with ni := nmbmInitStructure }).2 :=
    hfind.left.clean ⟨hclean.erased, hclean.tables⟩
  rcases hsearch : nmbmFindSignature g chip { d with ni := nmbmInitStructure } with
    ⟨_ | _ | ⟨sig, ba⟩, d1⟩
  · rw [hsearch] at hclean1
    exact ⟨hclean1, (fun h => nomatch h)⟩
  · rw [hsearch] at hclean1 hfine
    dsimp only at hfine ⊢
    split
    · rename_i hforce
      rw [if_pos hforce] at hfine
      have hspec := createNew_spec chip fuel hclean1 hfine
      exact ⟨hspec.left, fun h => hspec.right (Option.some.inj h)⟩
    · exact ⟨hclean1, (fun h => nomatch h)⟩
  · rw [hsearch] at hclean1 hfine hfind
    have hba := hfind.right sig ba rfl
    dsimp only at hfine ⊢
    split
    · exact ⟨hclean1, (fun h => nomatch h)⟩
    · rename_i hversion
      rw [if_neg hversion] at hfine
      split
      · exact ⟨hclean1, (fun h => nomatch h)⟩
      · rename_i hconfig
        rw [if_neg hconfig] at hfine
        have hspec := loadExisting_spec chip fuel sig.mgmtStartPb
          (d := d1.update fun ni => { ni with signatureBa := ba }) (hclean1.update _) hba hfine
        exact ⟨hspec.left, fun h => hspec.right (Option.some.inj h)⟩

/-!
## Remapping
-/

/-- The block just given to `block` holds no other data. -/
theorem good_bbtNandErase {block : Nat} (h : Good g d) (hblock : block < d.ni.dataBlockCount)
    (hsmall : 0 ≤ d.ni.blockMapping block ∧ d.ni.blockMapping block < 2 ^ 16) :
    Good g (bbtNandErase g chip (d.ni.blockMapping block) block d) := by
  have hheld : held d.ni.blockMapping block =
      some (d.ni.blockMapping block % 2 ^ 16).toNat := by
    unfold held
    rw [if_pos hsmall.left, Int.emod_eq_of_lt hsmall.left hsmall.right]
  refine ⟨h.sound, ?_, h.clean.tables⟩
  intro e he
  rcases List.mem_cons.mp he with rfl | hold
  · intro lb hlb hlbheld
    have hsame := h.sound.roles.unshared hblock hlb hheld hlbheld
    rw [hsame]
  · exact h.clean.erased e hold

theorem remap_spec (fuel block mappedBlock : Nat) (copyLen : Int) (h : Good g d)
    (hfine : forall m,
      m ∈ (remapBlockNmbm g chip fuel block mappedBlock copyLen d).2.met -> m.Fine) :
    Good g (remapBlockNmbm g chip fuel block mappedBlock copyLen d).2.dev := by
  have hbad : Good g (d.setBad mappedBlock) := h.update (f := nmbmSetBlockState mappedBlock .bad)
    h.sound
  rw [remapBlockNmbm] at hfine ⊢
  split
  · exact h
  · rename_i hblock
    rw [if_neg hblock] at hfine
    have hmet := mapBlock_met (g := g) chip fuel block { dev := d.setBad mappedBlock, met := [] }
    have hspec := fun hfine => mapBlock_spec chip fuel block
      (c := { dev := d.setBad mappedBlock, met := [] }) hbad hfine
    rcases hmap : nmbmMapBlock g chip fuel block { dev := d.setBad mappedBlock, met := [] } with
      ⟨_ | _, c⟩
    · rw [hmap] at hmet hspec hfine
      have hmem : Meeting.map (d.setBad mappedBlock).ni ∈ c.met := hmet ▸ List.mem_cons_self
      exact hspec (hfine _ hmem)
    · rw [hmap] at hmet hspec hfine
      have hmem : Meeting.map (d.setBad mappedBlock).ni ∈ c.met := hmet ▸ List.mem_cons_self
      rcases hspec (hfine _ hmem) with ⟨hclean, hcount, _, htaken, hsound⟩
      have hin : block < c.dev.ni.dataBlockCount := by
        have hcount' : c.dev.ni.dataBlockCount = d.ni.dataBlockCount := hcount
        lia
      have hgood : Good g c.dev := by
        refine ⟨hsound c.dev.ni.dataBlockCount ?_, hclean⟩
        intro l hl
        exact Or.inr (hl.trans_eq hcount)
      have herased := good_bbtNandErase chip hgood hin (by
        have htop := h.sound.top_lt
        have hsig := h.sound.sig_lt
        have hlt := g.totalBlks_lt
        have htaken' : c.dev.ni.blockMapping block = d.ni.mappingBlocksTopBa := htaken
        lia)
      refine good_updateInfoTable chip fuel ?_
      split
      · exact herased.touch (touches_copyPages chip _ 0 _ _ _ _ _ _) (Nat.le_refl _)
          (Nat.zero_le _)
      · exact herased

/-!
## Runs
-/

structure WorldGood (g : Geometry) (w : World) : Prop where
  sound : forall ni, w.ni = some ni -> Sound g ni
  erased : forall e, e ∈ w.erased -> e.Harmless
  tables : forall ni, ni ∈ w.tables -> Fit ni

/-- Whenever the call looks for a spare block, the block at the top is good or none
is, and the tables it loads are loadable. -/
def CallFine (g : Geometry) (chip : Chip) (w : World) (a : Action) : Prop :=
  forall m, m ∈ (step g chip w a).met -> m.Fine

theorem step_good {w : World} {a : Action} (hfine : CallFine g chip w a) (h : WorldGood g w) :
    WorldGood g (step g chip w a) := by
  unfold CallFine at hfine
  cases a with
  | attach fuel =>
      have hspec := attach_spec (g := g) chip fuel (d := w.enter nmbmInitStructure)
        ⟨h.erased, h.tables⟩
      rw [step] at hfine ⊢
      rcases hattach : nmbmAttach g chip fuel (w.enter nmbmInitStructure) with ⟨result, c⟩
      rw [hattach] at hspec hfine
      rcases hspec hfine with ⟨hclean, hgood⟩
      refine ⟨?_, hclean.erased, hclean.tables⟩
      intro ni hni
      change (if (result == some true) = true then some c.dev.ni else none) = some ni at hni
      split at hni
      · rename_i halive
        cases hni
        exact (hgood (by simpa using halive)).sound
      · cases hni
  | remap fuel block mappedBlock copyLen =>
      rw [step] at hfine ⊢
      rcases hni : w.ni with _ | ni
      · exact ⟨(fun ni' hni' => nomatch hni'), h.erased, h.tables⟩
      · rw [hni] at hfine
        have hgood : Good g (w.enter ni) := ⟨h.sound ni hni, h.erased, h.tables⟩
        have hdone := remap_spec chip fuel block mappedBlock copyLen hgood hfine
        refine ⟨?_, hdone.clean.erased, hdone.clean.tables⟩
        intro ni' hni'
        cases hni'
        exact hdone.sound

theorem run_good {actions : List Action}
    (h : Runs.Along (step g chip) (CallFine g chip) World.fresh actions) :
    WorldGood g (run g chip actions) := by
  have hfresh : WorldGood g World.fresh :=
    ⟨(fun ni hni => nomatch hni), (fun e he => nomatch he), (fun ni hni => nomatch hni)⟩
  exact Runs.invariant (fun w a hfine hw => step_good chip hfine hw) h hfresh

/-- No block has two roles: the logical blocks below `data_block_count` that are mapped
have distinct blocks, none of them is the signature or lies in an info table, and
no erasure hit a block with the data of another logical block. -/
structure OneRole (w : World) : Prop where
  distinct : forall ni, w.ni = some ni -> forall lb lb', lb < ni.dataBlockCount ->
    lb' < ni.dataBlockCount -> 0 ≤ ni.blockMapping lb ->
    ni.blockMapping lb = ni.blockMapping lb' -> lb = lb'
  apart : forall ni, w.ni = some ni -> forall lb, lb < ni.dataBlockCount ->
    0 ≤ ni.blockMapping lb ->
    ni.blockMapping lb ≠ ni.signatureBa ∧
    ¬ (ni.mainTableBa ≤ ni.blockMapping lb ∧ ni.blockMapping lb < ni.mainTableEnd) ∧
    ¬ (ni.backupTableBa ≤ ni.blockMapping lb ∧ ni.blockMapping lb < ni.backupTableEnd)
  harmless : forall e, e ∈ w.erased -> forall lb, lb < e.ni.dataBlockCount ->
    e.ni.blockMapping lb = e.ba -> e.lb = some lb

theorem held_of_nonneg {mapping : Nat -> Int} {lb : Nat} (h : 0 ≤ mapping lb) :
    held mapping lb = some (mapping lb).toNat :=
  if_pos h

theorem placed_reserved {lo hi mgmt top sig b : Nat} {table : Nat × Nat}
    (h : Placed lo hi table) (hlo : mgmt ≤ lo) (hhi : hi ≤ top) (hb : table.1 ≤ b)
    (hb' : b < table.2) : b ∈ reserve mgmt top sig := by
  rcases h with hnone | ⟨hl, _, hh⟩
  · rw [hnone] at hb'
    exact (Nat.not_lt_zero b hb').elim
  · exact Or.inl ⟨by lia, by lia⟩

theorem WorldGood.oneRole {w : World} (h : WorldGood g w) : OneRole w where
  distinct := by
    intro ni hni lb lb' hlb hlb' hpos heq
    have hheld := held_of_nonneg hpos
    have hheld' := held_of_nonneg (heq ▸ hpos : 0 ≤ ni.blockMapping lb')
    rw [<- heq] at hheld'
    exact (h.sound ni hni).roles.unshared hlb hlb' hheld hheld'
  apart := by
    intro ni hni lb hlb hpos
    have hs := h.sound ni hni
    have hout := hs.roles.unreserved hlb (held_of_nonneg hpos)
    refine ⟨?_, ?_, ?_⟩
    · intro heq
      exact hout (Or.inr (by lia))
    · rintro ⟨hlo, hhi⟩
      exact hout (placed_reserved hs.main_placed (Nat.le_refl _) hs.spare_le
        (by change ni.mainTableBa ≤ _; lia) (by change _ < ni.mainTableEnd; lia))
    · rintro ⟨hlo, hhi⟩
      exact hout (placed_reserved hs.backup_placed (le_max_left _ _) hs.spare_le
        (by change ni.backupTableBa ≤ _; lia) (by change _ < ni.backupTableEnd; lia))
  harmless := by
    intro e he lb hlb heq
    refine h.erased e he lb hlb ?_
    have hpos : 0 ≤ e.ni.blockMapping lb := by lia
    rw [held_of_nonneg hpos, heq]
    rfl

/-- In every run of attaching and remapping whose calls are fine, no block has two
roles. -/
theorem one_role_per_block (g : Geometry) (chip : Chip) (actions : List Action)
    (h : Runs.Along (step g chip) (CallFine g chip) World.fresh actions) :
    OneRole (run g chip actions) :=
  (run_good chip h).oneRole

/-- Every info table generated in such a run could be loaded again: its entries are
distinct and keep clear of the management area. -/
theorem generated_tables_fit (g : Geometry) (chip : Chip) (actions : List Action)
    (h : Runs.Along (step g chip) (CallFine g chip) World.fresh actions) :
    forall ni, ni ∈ (run g chip actions).tables -> Fit ni :=
  (run_good chip h).tables

/-!
## Bad blocks in the spare area
-/

def smallGeometry : Geometry :=
  { totalBlks := 32
    blkSize := 256
    pgSize := 64
    oobsize := 16
    bitflipThreshold := 1
    eccStrength := 4
    maxRatio := 8
    maxReservedBlocks := 256
    emptyPageEccOk := false
    forceCreate := true
    totalBlks_pos := Nat.two_pow_pos 5
    totalBlks_lt := (by decide : 2 ^ 5 < 2 ^ 16)
    pgSize_pos := Nat.two_pow_pos 6 }

def blankChip (bad : List Nat) : Chip :=
  { isbad := fun _ addr => if addr / 256 ∈ bad then 1 else 0
    erase := fun _ _ => 0
    write := fun _ _ => 0
    read := fun _ _ => { ret := 0, data := List.replicate 64 0xff, same := true } }

/-- Three bad data blocks and a bad block among the spare blocks: the third data block
is mapped to the spare block of the second one. -/
theorem spare_block_given_twice :
    ¬ OneRole (run smallGeometry (blankChip [3, 5, 7, 29]) [.attach 40]) := by
  intro h
  have hmapping : (run smallGeometry (blankChip [3, 5, 7, 29]) [.attach 40]).ni.map
      (fun ni => (ni.dataBlockCount, ni.blockMapping 14, ni.blockMapping 15)) =
        some (16, 28, 28) := by
    decide +kernel
  rcases hni : (run smallGeometry (blankChip [3, 5, 7, 29]) [.attach 40]).ni with _ | ni
  · rw [hni] at hmapping
    cases hmapping
  · rw [hni] at hmapping
    have hfields : (ni.dataBlockCount, ni.blockMapping 14, ni.blockMapping 15) = (16, 28, 28) :=
      Option.some.inj hmapping
    have hcount : ni.dataBlockCount = 16 := congrArg Prod.fst hfields
    have h14 : ni.blockMapping 14 = 28 := congrArg (fun t => t.2.1) hfields
    have h15 : ni.blockMapping 15 = 28 := congrArg (fun t => t.2.2) hfields
    have hsame := h.distinct ni hni 14 15 (by lia) (by lia) (by lia) (h14.trans h15.symm)
    cases hsame

def Meeting.topGood : Meeting -> Bool
  | .map ni => ni.blockState ni.mappingBlocksTopBa == .good
  | .load _ _ => false

theorem Meeting.fine_of_topGood {m : Meeting} (h : m.topGood = true) : m.Fine := by
  cases m with
  | map ni => exact Or.inl (by simpa [Meeting.topGood] using h)
  | load ni endBa => cases h

theorem callFine_of_topGood {w : World} {a : Action}
    (h : (step g chip w a).met.all Meeting.topGood = true) : CallFine g chip w a :=
  fun m hm => Meeting.fine_of_topGood (List.all_eq_true.mp h m hm)

/-- Three bad data blocks only, and two blocks remapped later. -/
theorem one_role_after_remaps :
    OneRole (run smallGeometry (blankChip [3, 5, 7])
      [.attach 40, .remap 40 2 2 256, .remap 40 2 27 256]) := by
  refine one_role_per_block smallGeometry (blankChip [3, 5, 7]) _ ⟨?_, ?_, ?_, trivial⟩
  · exact callFine_of_topGood _ (by decide +kernel)
  · exact callFine_of_topGood _ (by decide +kernel)
  · exact callFine_of_topGood _ (by decide +kernel)

end Nmbm
end Hlk7621
