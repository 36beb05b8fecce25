import Hlk7621.Mtd.Placement

/-!
# Writing over several devices

The list of devices is filled one after the other.  A device without bad blocks is left
with the counters at zero; after one with bad blocks the writer takes the image from
behind its buffer.
-/

namespace Hlk7621
namespace Mtd
namespace Tool

/-!
## What is asked of the command
-/

def Event.Inside (erasesize : Nat) : Event -> Prop
  | .erase _ _ => True
  | .write _ _ start len => start + len ≤ erasesize

def Erasable (erasesize : Nat) (d : Device) : Prop :=
  forall i, d.Good i -> erasesize * i + erasesize ≤ d.size -> d.eraseOk i = true

def allContents (erasesize : Nat) (ds : List Device) : Bytes :=
  ds.flatMap fun d => contents erasesize 0 d (d.size / erasesize) d.mem

def allCalls (erasesize : Nat) : Nat -> List Device -> List Event
  | _, [] => []
  | j, d :: ds =>
      calls erasesize 0 j (goods d (d.size / erasesize)) ++ allCalls erasesize (j + 1) ds

/-- The padded image is what the good blocks of the first devices hold, each of them erased and
written once and in order, from inside the buffer. -/
structure Spread (erasesize : Nat) (ds : List Device) (image : Bytes) (t : Writer) : Prop where
  devices : exists before last,
    ds = before ++ last :: t.next ∧
      List.Forall₂ (fun d d' => d' = d.withMem d'.mem) before t.closed ∧
      t.dev = last.withMem t.dev.mem
  image : exists k,
    padded erasesize image =
      allContents erasesize t.closed ++ contents erasesize 0 t.dev k t.dev.mem ∧
    t.log = allCalls erasesize 0 t.closed ++ calls erasesize 0 t.closed.length (goods t.dev k)
  inside : forall ev, ev ∈ t.log -> ev.Inside erasesize

/-- No block is reported bad, from the start to the one behind the end. -/
def Clean (erasesize : Nat) (d : Device) : Prop := forall j, j ≤ d.size / erasesize -> d.Good j

/-- Of `m` blocks of the image, the devices that these do not fit on have no bad blocks. -/
def Fits (erasesize : Nat) : List Device -> Nat -> Prop
  | [], _ => True
  | d :: ds, m =>
      m ≤ Nat.count d.Good (d.size / erasesize) ∨
        (Clean erasesize d ∧ Fits erasesize ds (m - Nat.count d.Good (d.size / erasesize)))

/-!
## Behind the buffer
-/

section

variable {erasesize partOffset : Nat} {s t : Writer}

def EraseFrame (s : Writer) : Erased -> Prop
  | .ready t => t.buflen = s.buflen ∧ t.offset = s.offset ∧ s.log ⊆ t.log
  | .full t => t.buflen = s.buflen ∧ t.offset = s.offset ∧ s.log ⊆ t.log
  | .exit => True
  | .hung => True

theorem eraseLoop_frame (erasesize partOffset fuel : Nat) (s : Writer) :
    EraseFrame s (eraseLoop erasesize partOffset fuel s) := by
  induction fuel generalizing s with
  | zero => trivial
  | succ fuel ih =>
      unfold eraseLoop
      split
      · split
        · trivial
        · split
          · have hrec := ih (s.skip erasesize)
            generalize eraseLoop erasesize partOffset fuel (s.skip erasesize) = r at hrec
            cases r <;> exact hrec
          · split
            · exact ⟨rfl, rfl, fun _ h => h⟩
            · rename_i d _
              have hrec := ih (s.erased erasesize partOffset d)
              have hlog : s.log ⊆ (s.erased erasesize partOffset d).log :=
                List.subset_append_left _ _
              generalize eraseLoop erasesize partOffset fuel (s.erased erasesize partOffset d) = r
                at hrec
              cases r with
              | ready t => exact ⟨hrec.1, hrec.2.1, fun _ h => hrec.2.2 (hlog h)⟩
              | full t => exact ⟨hrec.1, hrec.2.1, fun _ h => hrec.2.2 (hlog h)⟩
              | exit => trivial
              | hung => trivial
      · exact ⟨rfl, rfl, fun _ h => h⟩

theorem log_subset_drain : s.log ⊆ (s.drain erasesize).log := by
  unfold Writer.drain
  split
  · exact List.subset_append_left _ _
  · exact fun _ h => h

theorem drain_offset (erasesize : Nat) {s : Writer} (h : s.w < s.e) :
    (s.drain erasesize).offset = s.e - s.w ∧ (s.drain erasesize).buflen = s.buflen := by
  unfold Writer.drain
  rw [if_pos h]
  exact ⟨rfl, rfl⟩

theorem log_subset_writeLoop {fuel : Nat} (h : writeLoop erasesize partOffset fuel s = .done t) :
    s.log ⊆ t.log := by
  induction fuel generalizing s with
  | zero => cases h
  | succ fuel ih =>
      unfold writeLoop at h
      split at h
      · rw [← Outcome.done.inj h]
        exact fun _ hev => hev
      · have hlog : s.log ⊆ ((s.fill erasesize).pad erasesize).log := by
          unfold Writer.pad
          split
          · exact fun _ hev => hev
          · exact fun _ hev => hev
        have hframe := eraseLoop_frame erasesize partOffset fuel ((s.fill erasesize).pad erasesize)
        generalize eraseLoop erasesize partOffset fuel ((s.fill erasesize).pad erasesize) = r
          at h hframe
        cases r with
        | ready u =>
            simp only at h
            split at h
            · cases h
            · refine fun _ hev => ih h ?_
              exact List.subset_append_left _ _ (hframe.2.2 (hlog hev))
        | full u =>
            simp only at h
            split at h
            · cases h
            · exact fun _ hev => ih h (log_subset_drain (hframe.2.2 (hlog hev)))
        | exit => cases h
        | hung => cases h

theorem not_inside {device pos start len : Nat} (hstart : erasesize ≤ start) (hlen : 0 < len) :
    ¬ (Event.write device pos start len).Inside erasesize := by
  intro h
  have : start + len ≤ erasesize := h
  lia

theorem outside_of_offset (hE : 0 < erasesize) {fuel : Nat} (hbuf : s.buflen = erasesize)
    (hoff : erasesize ≤ s.offset) (h : writeLoop erasesize partOffset fuel s = .done t) :
    exists ev, ev ∈ t.log ∧ ¬ ev.Inside erasesize := by
  induction fuel generalizing s with
  | zero => cases h
  | succ fuel ih =>
      have hload : ((s.fill erasesize).pad erasesize).buflen = erasesize :=
        Writer.loaded_buflen (Nat.le_of_eq hbuf)
      have hfull : (s.fill erasesize).buflen = erasesize := by
        simp [Writer.fill, hbuf]
      have hoff' : ((s.fill erasesize).pad erasesize).offset = s.offset := by
        unfold Writer.pad
        rw [if_neg (by lia)]
        rfl
      unfold writeLoop at h
      rw [if_neg (by lia)] at h
      have hframe := eraseLoop_frame erasesize partOffset fuel ((s.fill erasesize).pad erasesize)
      generalize eraseLoop erasesize partOffset fuel ((s.fill erasesize).pad erasesize) = r
        at h hframe
      cases r with
      | ready u =>
          rcases hframe with ⟨hlen, hpos, _⟩
          simp only at h
          split at h
          · cases h
          · refine ⟨_, log_subset_writeLoop h (List.mem_append_right _ List.mem_cons_self), ?_⟩
            exact not_inside (by lia) (by lia)
      | full u =>
          rcases hframe with ⟨hlen, hpos, _⟩
          simp only at h
          split at h
          · cases h
          · by_cases hlt : u.w < u.e
            · have hmem : Event.write u.closed.length u.pos u.offset (u.e - u.w) ∈
                  (u.drain erasesize).log := by
                unfold Writer.drain
                rw [if_pos hlt]
                exact List.mem_append_right _ List.mem_cons_self
              exact ⟨_, log_subset_writeLoop h hmem, not_inside (by lia) (by lia)⟩
            · rename_i d rest _
              have hsame : u.drain erasesize = u := if_neg hlt
              have hkept : erasesize ≤ (u.reopen partOffset d rest).offset := by
                change erasesize ≤ u.offset
                lia
              have hheld : (u.reopen partOffset d rest).buflen = erasesize := hlen.trans hload
              rw [hsame] at h
              exact ih hheld hkept h
      | exit => cases h
      | hung => cases h

end

/-!
## Leaving a device
-/

section

variable {erasesize k i : Nat} {d : Device} {log : List Event} {data : Bytes} {s u : Writer}

theorem Holding.le_size (hE : 0 < erasesize) (h : Holding erasesize 0 d log k data s) :
    k ≤ d.size / erasesize := by
  rcases h.last with rfl | hgood
  · exact Nat.zero_le _
  · rcases Nat.eq_zero_or_pos k with rfl | hk
    · exact Nat.zero_le _
    have := h.inside (k - 1) (mem_goods.mpr ⟨by lia, hgood⟩)
    rw [Nat.zero_add, ← Nat.mul_succ, Nat.succ_eq_add_one, Nat.sub_add_cancel hk] at this
    exact (Nat.le_div_iff_mul_le hE).mpr (by rw [Nat.mul_comm]; exact this)

theorem Spill.all_taken (hE : 0 < erasesize) (herase : Erasable erasesize d)
    (h : Spill erasesize 0 d log k i data u) :
    k ≤ d.size / erasesize ∧ d.size / erasesize ≤ i ∧ goods d (d.size / erasesize) = goods d k := by
  have hle := h.filling.holding.le_size hE
  have hsize : d.size / erasesize ≤ i := by
    by_contra hlt
    have hfit : erasesize * i + erasesize ≤ d.size := by
      rw [← Nat.mul_succ, Nat.mul_comm]
      exact (Nat.le_div_iff_mul_le hE).mp (by lia)
    have hok := herase i h.next.good hfit
    have hnone := h.refused
    rw [h.filling.holding.dev] at hnone
    unfold Device.eraseBlock at hnone
    rw [if_pos ⟨by simpa using hfit, by
      rw [Nat.add_zero, Nat.mul_div_cancel_left i hE]
      exact hok⟩] at hnone
    cases hnone
  exact ⟨hle, hsize, h.next.goods_of_le hle hsize⟩

/-- A device without bad blocks is left with every block taken. -/
theorem Spill.clean (hE : 0 < erasesize) (herase : Erasable erasesize d)
    (hclean : Clean erasesize d) (h : Spill erasesize 0 d log k i data u) :
    i = k ∧ k = d.size / erasesize ∧ (goods d k).length = k := by
  rcases h.all_taken hE herase with ⟨hle, hge, _⟩
  have hki := h.next.le
  have heq : i = k := by
    by_contra hne
    have hbad := h.next.bad k (Nat.le_refl k) (by lia)
    rw [show d.report k = 0 from hclean k hle] at hbad
    exact absurd hbad (by decide)
  refine ⟨heq, by lia, ?_⟩
  have hall : forall n, n ≤ k -> Nat.count d.Good n = n := by
    intro n hn
    rw [Nat.count_iff_forall]
    intro j hj
    exact hclean j (by lia)
  rw [goods_length]
  exact hall k (Nat.le_refl k)

/-- A device with a bad block is left with more erased than written. -/
theorem Spill.behind (hE : 0 < erasesize) (herase : Erasable erasesize d)
    (hclean : ¬ Clean erasesize d) (h : Spill erasesize 0 d log k i data u) :
    u.w + erasesize ≤ erasesize * i := by
  rcases h.all_taken hE herase with ⟨_, hge, _⟩
  have hless : (goods d k).length + 1 ≤ i := by
    by_contra hnot
    refine hclean fun j hj => ?_
    have hcount : Nat.count d.Good i = i := by
      have hle := Nat.count_le (p := d.Good) (n := i)
      rw [← goods_length, h.next.goods] at hle ⊢
      lia
    rcases Nat.lt_or_ge j i with hlt | hge'
    · exact Nat.count_iff_forall.mp hcount j hlt
    · rw [show j = i by lia]
      exact h.next.good
  have hmul := Nat.mul_le_mul_left erasesize hless
  rw [Nat.mul_succ, ← h.filling.taken] at hmul
  exact hmul

theorem padded_reloaded (hE : 0 < erasesize) {image : Bytes} (hne : image ≠ []) :
    padded erasesize (padBlock erasesize (image.take erasesize) ++ image.drop erasesize) =
      padded erasesize image := by
  have hlen : (padBlock erasesize (image.take erasesize)).length = erasesize :=
    padBlock_length (List.length_take_le _ _)
  have hfull : padBlock erasesize (image.take erasesize) ++ image.drop erasesize ≠ [] := by
    intro hnil
    have := congrArg List.length hnil
    rw [List.length_append, hlen, List.length_nil] at this
    lia
  have htake : (padBlock erasesize (image.take erasesize) ++ image.drop erasesize).take erasesize =
      padBlock erasesize (image.take erasesize) := List.take_left' hlen
  have hdrop : (padBlock erasesize (image.take erasesize) ++ image.drop erasesize).drop erasesize =
      image.drop erasesize := List.drop_left' hlen
  rw [padded_step hE hfull, htake, hdrop, padded_step hE hne]
  congr 1
  generalize padBlock erasesize (image.take erasesize) = block at hlen
  unfold padBlock
  rw [hlen, Nat.sub_self, List.replicate_zero, List.append_nil]

theorem Spill.reopen {pos : Nat} {d' : Device} {rest : List Device} {v : Writer}
    (hE : 0 < erasesize) (herase : Erasable erasesize d) (hclean : Clean erasesize d)
    (h : Spill erasesize 0 d log k i data u)
    (hv : v = (((u.loaded erasesize).reached erasesize k i pos).drain erasesize).reopen 0 d' rest) :
    Filling erasesize 0 d' u.log 0 [] v ∧ padded erasesize v.pending = padded erasesize u.pending ∧
      v.closed = u.closed ++ [u.dev] ∧ v.next = rest := by
  rcases h.clean hE herase hclean with ⟨rfl, _, hall⟩
  have htaken := h.filling.taken
  have hcounted := h.filling.inStep.counted
  have herased := h.filling.inStep.erased
  have hbuf := h.filling.buffered
  rw [hall] at htaken
  have hskip : u.skipBadBlocks = 0 := by lia
  have hdrain : ((u.loaded erasesize).reached erasesize i i pos).drain erasesize =
      (u.loaded erasesize).reached erasesize i i pos := by
    unfold Writer.drain
    rw [if_neg]
    rw [Writer.loaded_eq hbuf]
    simp only [Writer.reached]
    lia
  rw [hdrain, Writer.loaded_eq hbuf] at hv
  subst hv
  refine ⟨⟨⟨rfl, ?_, fun _ => ?_, h.filling.inStep.whole⟩,
    ⟨rfl, rfl, ?_, fun _ _ => rfl, ?_, ?_, Or.inl rfl⟩, rfl, Nat.le_refl _⟩, ?_, rfl, rfl⟩
  · simp only [Writer.reopen, Writer.reached, Nat.sub_self, Nat.mul_zero]
    lia
  · show d'.lseek 0 0 = 0
    unfold Device.lseek
    exact if_pos (Nat.zero_le _)
  · exact (List.append_nil u.log).symm
  · exact fun j hj => absurd hj List.not_mem_nil
  · exact fun j hj => absurd hj (Nat.not_lt_zero j)
  · have hpend := padded_reloaded hE h.more
    rw [← Writer.loaded_window hbuf] at hpend
    exact hpend

end

/-!
## The list of devices
-/

section

variable {erasesize : Nat} {image : Bytes} {t : Writer}

theorem allCalls_append (j : Nat) (ds : List Device) (d : Device) :
    allCalls erasesize j (ds ++ [d]) = allCalls erasesize j ds ++
      calls erasesize 0 (j + ds.length) (goods d (d.size / erasesize)) := by
  induction ds generalizing j with
  | nil => simp [allCalls]
  | cons x ds ih =>
      rw [List.cons_append, allCalls, ih, allCalls, List.append_assoc, List.length_cons]
      congr 3
      lia

theorem calls_inside {device : Nat} {blocks : List Nat} {ev : Event}
    (h : ev ∈ calls erasesize 0 device blocks) : ev.Inside erasesize := by
  rcases List.mem_flatMap.mp h with ⟨i, _, hev⟩
  simp only [List.mem_cons, List.not_mem_nil, or_false] at hev
  rcases hev with rfl | rfl
  · trivial
  · exact Nat.le_of_eq (Nat.zero_add _)

theorem allCalls_inside {j : Nat} {ds : List Device} {ev : Event}
    (h : ev ∈ allCalls erasesize j ds) : ev.Inside erasesize := by
  induction ds generalizing j with
  | nil => exact absurd h List.not_mem_nil
  | cons d ds ih =>
      rcases List.mem_append.mp h with hd | hds
      · exact calls_inside hd
      · exact ih hds

theorem spread_last (hE : 0 < erasesize) {next before : List Device} {d : Device} {s : Writer}
    {k : Nat}
    (hold : Holding erasesize 0 d (allCalls erasesize 0 s.closed) k (padded erasesize s.pending) t)
    (hclosed : t.closed = s.closed) (hnext : t.next = next)
    (hbefore : List.Forall₂ (fun d d' => d' = d.withMem d'.mem) before s.closed)
    (himage : padded erasesize image =
      allContents erasesize s.closed ++ padded erasesize s.pending) :
    Fits erasesize (d :: next) (blocksFor erasesize s.pending.length) ∧
      Spread erasesize (before ++ d :: next) image t := by
  have hgoods : goods t.dev k = goods d k := by
    rw [hold.dev]
    rfl
  have hdata : contents erasesize 0 t.dev k t.dev.mem = padded erasesize s.pending := by
    rw [← hold.data]
    unfold contents
    rw [hgoods]
  have hlog : t.log = allCalls erasesize 0 t.closed ++
      calls erasesize 0 t.closed.length (goods t.dev k) := by
    rw [hold.log, hclosed, hgoods]
  refine ⟨Or.inl ?_, ⟨⟨before, d, ?_, ?_, hold.dev⟩, ⟨k, ?_, hlog⟩, ?_⟩⟩
  · have hlen := congrArg List.length hold.data
    rw [contents_length, padded_length hE, goods_length] at hlen
    have hcount := Nat.eq_of_mul_eq_mul_left hE hlen
    unfold blocksFor
    rw [← hcount]
    exact Nat.count_monotone d.Good (hold.le_size hE)
  · rw [hnext]
  · rw [hclosed]
    exact hbefore
  · rw [himage, hclosed, hdata]
  · intro ev hev
    rw [hlog] at hev
    rcases List.mem_append.mp hev with hall | hlast
    · exact allCalls_inside hall
    · exact calls_inside hlast

theorem writeLoop_devices (hE : 0 < erasesize) {next before : List Device} {d : Device} {s : Writer}
    {fuel : Nat} (herase : forall x, x ∈ d :: next -> Erasable erasesize x)
    (hs : Filling erasesize 0 d (allCalls erasesize 0 s.closed) 0 [] s) (hnext : s.next = next)
    (hbefore : List.Forall₂ (fun d d' => d' = d.withMem d'.mem) before s.closed)
    (himage : padded erasesize image =
      allContents erasesize s.closed ++ padded erasesize s.pending)
    (hrun : writeLoop erasesize 0 fuel s = .done t) :
    (Fits erasesize (d :: next) (blocksFor erasesize s.pending.length) ->
      Spread erasesize (before ++ d :: next) image t) ∧
    (¬ Fits erasesize (d :: next) (blocksFor erasesize s.pending.length) ->
      exists ev, ev ∈ t.log ∧ ¬ ev.Inside erasesize) := by
  induction next generalizing before d s fuel with
  | nil =>
      rcases writeLoop_device hE hs hrun with
        ⟨k, hold, hclosed, htnext⟩ | ⟨_, _, _, _, _, _, _, _, _, _, _, _, hlist, _⟩
      · have hlast := spread_last hE hold hclosed (htnext.trans hnext) hbefore himage
        exact ⟨fun _ => hlast.2, fun hnot => absurd hlast.1 hnot⟩
      · rw [hnext] at hlist
        cases hlist
  | cons d' rest ih =>
      rcases writeLoop_device hE hs hrun with
        ⟨k, hold, hclosed, htnext⟩ |
        ⟨k, i, pos, stored, u, d'', rest', n, hspill, hstored, hclosed, _, hlist, hgo⟩
      · have hlast := spread_last hE hold hclosed (htnext.trans hnext) hbefore himage
        exact ⟨fun _ => hlast.2, fun hnot => absurd hlast.1 hnot⟩
      · rw [hnext] at hlist
        cases hlist
        have hd := herase d List.mem_cons_self
        rcases hspill.all_taken hE hd with ⟨_, _, hgoods⟩
        have hcount : Nat.count d.Good (d.size / erasesize) = (goods d k).length := by
          rw [← goods_length, hgoods]
        rw [List.nil_append] at hstored
        have hdata := hspill.filling.holding.data
        -- the blocks of the image that are left
        have hblocks : blocksFor erasesize s.pending.length =
            Nat.count d.Good (d.size / erasesize) + blocksFor erasesize u.pending.length := by
          have hlen := congrArg List.length hstored
          rw [List.length_append, padded_length hE, padded_length hE, ← hdata, contents_length,
            ← Nat.mul_add] at hlen
          rw [hcount]
          exact (Nat.eq_of_mul_eq_mul_left hE hlen).symm
        have hmore := (blocksFor_spec hE (List.length_pos_iff.mpr hspill.more)).1
        have hfits : Fits erasesize (d :: d' :: rest) (blocksFor erasesize s.pending.length) <->
            Clean erasesize d ∧
              Fits erasesize (d' :: rest) (blocksFor erasesize u.pending.length) := by
          rw [hblocks, Fits, Nat.add_sub_cancel_left]
          constructor
          · rintro (hle | hrest)
            · lia
            · exact hrest
          · exact Or.inr
        rw [hfits]
        by_cases hclean : Clean erasesize d
        · generalize hv :
            (((u.loaded erasesize).reached erasesize k i pos).drain erasesize).reopen 0 d' rest =
              v at hgo
          rcases hspill.reopen hE hd hclean hv.symm with ⟨hfill, hpend, hvclosed, hvnext⟩
          have hdev := hspill.filling.holding.dev
          have hfull : goods u.dev (u.dev.size / erasesize) = goods d k := by
            rw [hdev]
            exact hgoods
          have hlog : u.log = allCalls erasesize 0 v.closed := by
            rw [hvclosed, allCalls_append, hfull, Nat.zero_add, hspill.filling.holding.log, hclosed]
          have himage' : padded erasesize image =
              allContents erasesize v.closed ++ padded erasesize v.pending := by
            have hheld :
                contents erasesize 0 u.dev (u.dev.size / erasesize) u.dev.mem = stored := by
              rw [← hdata]
              unfold contents
              rw [hfull]
            rw [himage, hvclosed, hpend, ← hstored, hclosed]
            unfold allContents
            rw [List.flatMap_append, List.flatMap_singleton, hheld, List.append_assoc]
          have hlen :
              blocksFor erasesize v.pending.length = blocksFor erasesize u.pending.length := by
            have := congrArg List.length hpend
            rw [padded_length hE, padded_length hE] at this
            exact Nat.eq_of_mul_eq_mul_left hE this
          have hbefore' :
              List.Forall₂ (fun d d' => d' = d.withMem d'.mem) (before ++ [d]) v.closed := by
            rw [hvclosed, hclosed]
            exact List.rel_append hbefore (List.Forall₂.cons hdev List.Forall₂.nil)
          rw [hlog] at hfill
          have hrec := ih (fun x hx => herase x (List.mem_cons_of_mem _ hx)) hfill hvnext hbefore'
            himage' hgo
          rw [hlen, List.append_assoc] at hrec
          exact ⟨fun h => hrec.1 h.2, fun h => hrec.2 fun hrest => h ⟨hclean, hrest⟩⟩
        · refine ⟨fun h => absurd h.1 hclean, fun _ => ?_⟩
          have hbehind := hspill.behind hE hd hclean
          have hbuf := hspill.filling.buffered
          have hw : ((u.loaded erasesize).reached erasesize k i pos).w = u.w := by
            rw [Writer.loaded_eq hbuf]
            rfl
          have he : ((u.loaded erasesize).reached erasesize k i pos).e = erasesize * i := rfl
          have hlt : ((u.loaded erasesize).reached erasesize k i pos).w <
              ((u.loaded erasesize).reached erasesize k i pos).e := by lia
          have hoff := drain_offset erasesize hlt
          refine outside_of_offset hE ?_ ?_ hgo
          · exact hoff.2.trans (Writer.loaded_buflen hbuf)
          · change erasesize ≤
              (((u.loaded erasesize).reached erasesize k i pos).drain erasesize).offset
            rw [hoff.1]
            lia

/-- A run over devices whose good blocks can be erased, that completes, spreads the image over
their good blocks exactly when every device that it had to leave has no bad block. -/
theorem spread_iff_fits {erasesize held fuel : Nat} {d : Device} {next : List Device}
    {heap : Nat -> UInt8} {image : Bytes} {t : Writer} (hE : 0 < erasesize)
    (hheld : held ≤ erasesize) (herase : forall x, x ∈ d :: next -> Erasable erasesize x)
    (hrun : mtdWrite erasesize 0 fuel d next heap held image = .done t) :
    Spread erasesize (d :: next) image t <->
      Fits erasesize (d :: next) (blocksFor erasesize image.length) := by
  have himage : padded erasesize image =
      allContents erasesize (start 0 d next heap held image).closed ++
        padded erasesize (start 0 d next heap held image).pending := by
    rw [start_pending]
    rfl
  have hmain := writeLoop_devices hE herase (start_filling hheld) rfl List.Forall₂.nil himage hrun
  rw [start_pending, List.nil_append] at hmain
  constructor
  · intro hspread
    by_contra hnot
    rcases hmain.2 hnot with ⟨ev, hev, hout⟩
    exact hout (hspread.inside ev hev)
  · exact hmain.1

end

theorem nandWith_erasable (erasesize size : Nat) (bad : Nat -> Bool) :
    Erasable erasesize (nandWith size bad) := by
  intro i hgood _
  simp only [Device.Good, Device.report, nandWith] at hgood ⊢
  cases hbad : bad i with
  | false => rfl
  | true =>
      rw [hbad] at hgood
      exact absurd hgood (by decide)

/-- Two good blocks, and then the second block of the next device. -/
theorem spread_second_device :
    exists t, mtdWrite 2 0 20 (nandWith 4 fun _ => false) [nandWith 4 fun i => i == 0] (fun _ => 0)
        0 [1, 2, 3, 4, 5] = .done t ∧
      Spread 2 [nandWith 4 fun _ => false, nandWith 4 fun i => i == 0] [1, 2, 3, 4, 5] t := by
  have hrun : (mtdWrite 2 0 20 (nandWith 4 fun _ => false) [nandWith 4 fun i => i == 0]
      (fun _ => 0) 0 [1, 2, 3, 4, 5]).passes (fun _ => true) = true := by decide +kernel
  rcases Outcome.exists_of_passes hrun with ⟨t, ht, _⟩
  refine ⟨t, ht, (spread_iff_fits (by decide) (by decide) ?_ ht).mpr ?_⟩
  · intro x hx
    simp only [List.mem_cons, List.not_mem_nil, or_false] at hx
    rcases hx with rfl | rfl
    · exact nandWith_erasable _ _ _
    · exact nandWith_erasable _ _ _
  · refine Or.inr ⟨?_, Or.inl (by decide)⟩
    intro j _
    simp [Device.Good, Device.report, nandWith]

/-- One bad block on the first device, and the next device gets bytes from behind the buffer. -/
theorem spread_fails :
    exists t, mtdWrite 2 0 20 (nandWith 4 fun i => i == 0) [nandWith 4 fun _ => false] (fun _ => 0)
        0 [1, 2, 3, 4] = .done t ∧
      Event.write 1 0 2 2 ∈ t.log ∧
      ¬ Spread 2 [nandWith 4 fun i => i == 0, nandWith 4 fun _ => false] [1, 2, 3, 4] t := by
  have hrun : (mtdWrite 2 0 20 (nandWith 4 fun i => i == 0) [nandWith 4 fun _ => false]
      (fun _ => 0) 0 [1, 2, 3, 4]).passes (fun t => decide (Event.write 1 0 2 2 ∈ t.log)) =
        true := by
    decide +kernel
  rcases Outcome.exists_of_passes hrun with ⟨t, ht, hlog⟩
  have hmem := of_decide_eq_true hlog
  refine ⟨t, ht, hmem, ?_⟩
  intro hspread
  exact absurd (hspread.inside _ hmem) (not_inside (by decide) (by decide))

end Tool
end Mtd
end Hlk7621
