import Mathlib.Data.Nat.Count
import Hlk7621.Mtd.Turns

/-!
# Filling a device

The blocks that a run has taken on a device are the good ones among the first `k`, and
they hold what was stored of the image; everything else is as it was.
-/

namespace Hlk7621
namespace Mtd
namespace Tool

/-!
## The blocks that were taken
-/

def goods (d : Device) (k : Nat) : List Nat := (List.range k).filter fun i => decide (d.Good i)

section

variable {erasesize partOffset k : Nat} {d : Device}

@[simp] theorem goods_zero : goods d 0 = [] := rfl

theorem mem_goods {i : Nat} : i ∈ goods d k <-> i < k ∧ d.Good i := by
  simp [goods]

theorem goods_succ (k : Nat) :
    goods d (k + 1) = if d.Good k then goods d k ++ [k] else goods d k := by
  unfold goods
  rw [List.range_succ, List.filter_append]
  by_cases hgood : d.Good k
  · simp [hgood]
  · simp [hgood]

theorem goods_length (k : Nat) : (goods d k).length = Nat.count d.Good k := by
  induction k with
  | zero => rfl
  | succ k ih =>
      rw [goods_succ, Nat.count_succ]
      by_cases hgood : d.Good k
      · simp [hgood, ih]
      · simp [hgood, ih]

theorem NextGood.goods_of_le {i j : Nat} (h : NextGood d k i) (hkj : k ≤ j) (hji : j ≤ i) :
    goods d j = goods d k := by
  induction j with
  | zero =>
      rw [Nat.le_zero.mp hkj]
  | succ j ih =>
      rcases Nat.eq_or_lt_of_le hkj with heq | hlt
      · rw [heq]
      · have hbad := h.bad j (by lia) hji
        have hnot : ¬ d.Good j := by
          intro hgood
          rw [show d.report j = 0 from hgood] at hbad
          exact absurd hbad (by decide)
        rw [Tool.goods_succ, if_neg hnot]
        exact ih (by lia) (by lia)

theorem NextGood.goods {i : Nat} (h : NextGood d k i) : goods d i = goods d k :=
  h.goods_of_le h.le (Nat.le_refl i)

theorem NextGood.goods_succ {i : Nat} (h : NextGood d k i) :
    Tool.goods d (i + 1) = Tool.goods d k ++ [i] := by
  rw [Tool.goods_succ, if_pos h.good, h.goods]

def calls (erasesize partOffset device : Nat) (blocks : List Nat) : List Event :=
  blocks.flatMap fun i =>
    [.erase device (partOffset + erasesize * i),
      .write device (partOffset + erasesize * i) 0 erasesize]

def contents (erasesize partOffset : Nat) (d : Device) (k : Nat) (mem : Nat -> UInt8) : Bytes :=
  (goods d k).flatMap fun i => window mem (partOffset + erasesize * i) erasesize

theorem flatMap_window_length (blocks : List Nat) (mem : Nat -> UInt8) (f : Nat -> Nat) :
    (blocks.flatMap fun i => window mem (f i) erasesize).length = erasesize * blocks.length := by
  induction blocks with
  | nil => rfl
  | cons b rest ih =>
      rw [List.flatMap_cons, List.length_append, ih, window_length, List.length_cons, Nat.mul_succ,
        Nat.add_comm]

theorem contents_length (k : Nat) (mem : Nat -> UInt8) :
    (contents erasesize partOffset d k mem).length = erasesize * (goods d k).length :=
  flatMap_window_length _ _ _

end

/-!
## The state of a run
-/

/-- The run has stored `data` on the first `k` blocks of device `d`. -/
structure Holding (erasesize partOffset : Nat) (d : Device) (log : List Event) (k : Nat)
    (data : Bytes) (s : Writer) : Prop where
  dev : s.dev = d.withMem s.dev.mem
  data : contents erasesize partOffset d k s.dev.mem = data
  log : s.log = log ++ calls erasesize partOffset s.closed.length (goods d k)
  frame : forall a, (forall i, i ∈ goods d k ->
      a < partOffset + erasesize * i ∨ partOffset + erasesize * i + erasesize ≤ a) ->
    s.dev.mem a = d.mem a
  inside : forall i, i ∈ goods d k -> partOffset + erasesize * i + erasesize ≤ d.size
  known : forall i, i < k -> 0 ≤ d.report i
  last : k = 0 ∨ d.Good (k - 1)

section

variable {erasesize partOffset k i : Nat} {d : Device} {log : List Event} {data : Bytes}
  {s : Writer}

theorem blocks_apart (erasesize partOffset : Nat) {i j : Nat} (hij : i < j) :
    partOffset + erasesize * i + erasesize ≤ partOffset + erasesize * j := by
  have := Nat.mul_le_mul_left erasesize (Nat.succ_le_of_lt hij)
  rw [Nat.mul_succ] at this
  lia

theorem contents_overwrite {mem : Nat -> UInt8} {block : Bytes} (hki : k ≤ i) :
    contents erasesize partOffset d k (overwrite mem (partOffset + erasesize * i) block) =
      contents erasesize partOffset d k mem := by
  unfold contents
  apply List.flatMap_congr
  intro j hj
  have hjk := (mem_goods.mp hj).1
  have hapart := blocks_apart erasesize partOffset (Nat.lt_of_lt_of_le hjk hki)
  apply window_congr
  intro a _ hhi
  exact overwrite_of_lt (by lia)

theorem Holding.stored {buf : Nat -> UInt8} (hs : Holding erasesize partOffset d log k data s)
    (hnext : NextGood d k i) (hfit : partOffset + erasesize * i + erasesize ≤ d.size) :
    Holding erasesize partOffset d log (i + 1)
      (data ++ padBlock erasesize (s.pending.take erasesize))
      (s.stored erasesize partOffset k i buf) := by
  have hlen : (padBlock erasesize (s.pending.take erasesize)).length = erasesize :=
    padBlock_length (List.length_take_le _ _)
  refine ⟨?_, ?_, ?_, ?_, ?_, ?_, Or.inr hnext.good⟩
  · simp only [Writer.stored]
    rw [hs.dev, Device.withMem_withMem]
    rfl
  · have hold : contents erasesize partOffset d k (overwrite s.dev.mem
        (partOffset + erasesize * i) (padBlock erasesize (s.pending.take erasesize))) =
        contents erasesize partOffset d k s.dev.mem := contents_overwrite hnext.le
    have hself := window_overwrite_self s.dev.mem (partOffset + erasesize * i)
      (padBlock erasesize (s.pending.take erasesize))
    rw [hlen] at hself
    simp only [Writer.stored, Device.withMem_mem]
    unfold contents at hold ⊢
    rw [hnext.goods_succ, List.flatMap_append, hold, List.flatMap_singleton, hself]
    exact congrArg (· ++ _) hs.data
  · simp only [Writer.stored, hs.log, calls]
    rw [hnext.goods_succ, List.flatMap_append, List.flatMap_singleton, List.append_assoc]
  · intro a ha
    have hi := ha i (by rw [hnext.goods_succ]; simp)
    have hout : (s.stored erasesize partOffset k i buf).dev.mem a = s.dev.mem a := by
      simp only [Writer.stored, Device.withMem_mem]
      rcases hi with hlt | hge
      · exact overwrite_of_lt hlt
      · exact overwrite_of_ge (by rw [hlen]; exact hge)
    rw [hout]
    refine hs.frame a ?_
    intro j hj
    exact ha j (by rw [hnext.goods_succ]; simp [hj])
  · intro j hj
    rw [hnext.goods_succ, List.mem_append, List.mem_singleton] at hj
    rcases hj with hj | rfl
    · exact hs.inside j hj
    · exact hfit
  · intro j hj
    by_cases hjk : j < k
    · exact hs.known j hjk
    · by_cases hji : j < i
      · exact Int.le_of_lt (hnext.bad j (by lia) hji)
      · have heq : j = i := by lia
        rw [heq, show d.report i = 0 from hnext.good]

structure Filling (erasesize partOffset : Nat) (d : Device) (log : List Event) (k : Nat)
    (data : Bytes) (s : Writer) : Prop where
  inStep : InStep erasesize partOffset k s
  holding : Holding erasesize partOffset d log k data s
  taken : s.w = erasesize * (goods d k).length
  buffered : s.buflen ≤ erasesize

theorem Filling.stored {buf : Nat -> UInt8} (hs : Filling erasesize partOffset d log k data s)
    (hnext : NextGood d k i) (hfit : partOffset + erasesize * i + erasesize ≤ d.size) :
    Filling erasesize partOffset d log (i + 1)
      (data ++ padBlock erasesize (s.pending.take erasesize))
      (s.stored erasesize partOffset k i buf) where
  inStep := hs.inStep.stored hnext.le
  holding := hs.holding.stored hnext hfit
  taken := by
    rw [hnext.goods_succ, List.length_append, Nat.mul_add, ← hs.taken]
    simp [Writer.stored]
  buffered := Nat.zero_le _

theorem stored_pending {buf : Nat -> UInt8} (hE : 0 < erasesize) (hpend : s.pending ≠ []) :
    padBlock erasesize (s.pending.take erasesize) ++
        padded erasesize (s.stored erasesize partOffset k i buf).pending =
      padded erasesize s.pending := by
  rw [padded_step hE hpend]
  rfl

structure Spill (erasesize partOffset : Nat) (d : Device) (log : List Event) (k i : Nat)
    (data : Bytes) (s : Writer) : Prop where
  filling : Filling erasesize partOffset d log k data s
  more : s.pending ≠ []
  next : NextGood d k i
  refused : s.dev.eraseBlock erasesize (erasesize * i + partOffset) = none

/-- A run that completes ends on the device, or goes on to the next one. -/
theorem writeLoop_device (hE : 0 < erasesize) {fuel : Nat} {t : Writer}
    (hs : Filling erasesize partOffset d log k data s)
    (h : writeLoop erasesize partOffset fuel s = .done t) :
    (exists k', Holding erasesize partOffset d log k' (data ++ padded erasesize s.pending) t ∧
      t.closed = s.closed ∧ t.next = s.next) ∨
    (exists k' i pos stored u d' rest n,
      Spill erasesize partOffset d log k' i stored u ∧
      stored ++ padded erasesize u.pending = data ++ padded erasesize s.pending ∧
      u.closed = s.closed ∧ u.next = s.next ∧ s.next = d' :: rest ∧
      writeLoop erasesize partOffset n
        ((((u.loaded erasesize).reached erasesize k' i pos).drain erasesize).reopen partOffset d'
          rest) = .done t) := by
  induction fuel generalizing k data s with
  | zero => cases h
  | succ fuel ih =>
      have hreport : s.dev.report = d.report := by
        rw [hs.holding.dev]
        rfl
      have hsize : s.dev.size = d.size := by
        rw [hs.holding.dev]
        rfl
      have hgood : forall {i}, NextGood s.dev k i -> NextGood d k i := by
        intro i hi
        have hbad := hi.bad
        have hzero : s.dev.report i = 0 := hi.good
        rw [hreport] at hbad hzero
        exact ⟨hi.le, hbad, hzero⟩
      rcases writeLoop_done hE hs.inStep hs.buffered h with
        ⟨hnil, rfl⟩ | ⟨hpend, i, hi, hfit, hrun⟩ | ⟨hpend, i, pos, d', rest, hi, hnone, hlist, hrun⟩
      · refine Or.inl ⟨k, ?_, rfl, rfl⟩
        rw [hnil, padded_nil, List.append_nil]
        have hold := hs.holding
        exact ⟨hold.dev, hold.data, hold.log, hold.frame, hold.inside, hold.known, hold.last⟩
      · rw [hsize] at hfit
        have hstored := ih (hs.stored (hgood hi) hfit) hrun
        rw [List.append_assoc, stored_pending hE hpend] at hstored
        exact hstored
      · exact Or.inr ⟨k, i, pos, data, s, d', rest, fuel, ⟨hs, hpend, hgood hi, hnone⟩, rfl, rfl,
          rfl, hlist, hrun⟩

theorem start_filling {next : List Device} {heap : Nat -> UInt8} {held : Nat} {image : Bytes}
    (hheld : held ≤ erasesize) :
    Filling erasesize partOffset d [] 0 [] (start partOffset d next heap held image) := by
  refine ⟨⟨rfl, rfl, ?_, rfl⟩, ⟨rfl, rfl, rfl, fun _ _ => rfl, ?_, ?_, Or.inl rfl⟩, rfl, ?_⟩
  · intro hfit
    exact if_pos hfit
  · exact fun i hi => absurd hi List.not_mem_nil
  · exact fun i hi => absurd hi (Nat.not_lt_zero i)
  · exact Nat.le_trans (List.length_take_le _ _) hheld

theorem start_pending {next : List Device} {heap : Nat -> UInt8} {held : Nat} {image : Bytes} :
    (start partOffset d next heap held image).pending = image := by
  unfold Writer.pending start
  simp only
  rw [window_overwrite_self, List.take_append_drop]

end

end Tool
end Mtd
end Hlk7621
