import Hlk7621.Mtd.Tool

/-!
# One block of the image

A turn of the writer that is in step skips the bad blocks in front of the next good
one, erases that one and fills it with the next block of the image; or the device is
full and the writer goes to the next device.
-/

namespace Hlk7621
namespace Mtd
namespace Tool

/-!
## Good and bad blocks
-/

namespace Device

variable {erasesize : Nat} {d : Device}

def report (d : Device) (i : Nat) : Int := if d.nand then d.status i else 0

def Good (d : Device) (i : Nat) : Prop := d.report i = 0

instance (d : Device) : DecidablePred d.Good := fun i =>
  inferInstanceAs (Decidable (d.report i = 0))

theorem blockIsBad_mul (hE : 0 < erasesize) (i : Nat) :
    d.blockIsBad erasesize (erasesize * i) = d.report i := by
  unfold blockIsBad report
  rw [Nat.mul_div_cancel_left i hE]

def withMem (d : Device) (mem : Nat -> UInt8) : Device := { d with mem := mem }

@[simp] theorem withMem_size (mem : Nat -> UInt8) : (d.withMem mem).size = d.size := rfl

@[simp] theorem withMem_mem (mem : Nat -> UInt8) : (d.withMem mem).mem = mem := rfl

@[simp] theorem withMem_report (mem : Nat -> UInt8) : (d.withMem mem).report = d.report := rfl

theorem withMem_withMem (mem mem' : Nat -> UInt8) : (d.withMem mem).withMem mem' = d.withMem mem' :=
  rfl

theorem eraseBlock_some {offset : Nat} {d' : Device}
    (h : d.eraseBlock erasesize offset = some d') :
    offset + erasesize ≤ d.size ∧
      d' = d.withMem (overwrite d.mem offset (List.replicate erasesize 0xff)) := by
  unfold eraseBlock at h
  split at h
  · rename_i hok
    exact ⟨hok.1, (Option.some.inj h).symm⟩
  · cases h

theorem write_whole {pos : Nat} {data : Bytes} (hfit : pos + data.length ≤ d.size)
    (h : ¬ (d.write erasesize pos data).1 < data.length) :
    d.write erasesize pos data = ((data.length : Int), d.withMem (overwrite d.mem pos data)) := by
  unfold write at h ⊢
  split
  · rw [List.take_of_length_le (by lia)]
    rfl
  · rename_i hfail
    rw [if_neg hfail] at h
    exact absurd (by simp; lia) h

end Device

theorem overwrite_overwrite {mem : Nat -> UInt8} {off : Nat} {xs ys : Bytes}
    (h : xs.length = ys.length) :
    overwrite (overwrite mem off xs) off ys = overwrite mem off ys := by
  funext a
  unfold overwrite
  split
  · rfl
  · rename_i hout
    rw [if_neg (by rw [h]; exact hout)]

/-!
## The erase loop
-/

/-- At the start of block `k` of the device: the counters agree, and the position is the
block's. -/
structure InStep (erasesize partOffset k : Nat) (s : Writer) : Prop where
  erased : s.e = erasesize * k
  counted : s.w + s.skipBadBlocks = s.e
  placed : partOffset + s.e ≤ s.dev.size -> s.pos = partOffset + s.e
  whole : s.offset = 0

structure NextGood (d : Device) (k i : Nat) : Prop where
  le : k ≤ i
  bad : forall j, k ≤ j -> j < i -> 0 < d.report j
  good : d.Good i

section

variable {erasesize partOffset k : Nat} {s : Writer}

theorem InStep.skip (hs : InStep erasesize partOffset k s) :
    InStep erasesize partOffset (k + 1) (s.skip erasesize) where
  erased := by
    rw [Nat.mul_succ, ← hs.erased]
    rfl
  counted := by
    have := hs.counted
    simp only [Writer.skip]
    lia
  placed := by
    simp only [Writer.skip]
    intro hfit
    rw [hs.placed (by lia), Device.lseek, if_pos (by lia)]
    lia
  whole := hs.whole

theorem NextGood.skip {d : Device} {i : Nat} (hbad : 0 < d.report k) (h : NextGood d (k + 1) i) :
    NextGood d k i where
  le := by
    have := h.le
    lia
  bad := by
    intro j hkj hji
    rcases Nat.eq_or_lt_of_le hkj with heq | hlt
    · exact heq ▸ hbad
    · exact h.bad j hlt hji
  good := h.good

def Writer.reached (s : Writer) (erasesize k i pos : Nat) : Writer :=
  { s with
    e := erasesize * i
    skipBadBlocks := s.skipBadBlocks + erasesize * (i - k)
    pos := pos }

theorem Writer.reached_self (hs : InStep erasesize partOffset k s) :
    s = s.reached erasesize k k s.pos := by
  unfold Writer.reached
  rw [Nat.sub_self, Nat.mul_zero, Nat.add_zero, ← hs.erased]

theorem Writer.reached_skip {i pos : Nat} (h : k + 1 ≤ i) :
    (s.skip erasesize).reached erasesize (k + 1) i pos = s.reached erasesize k i pos := by
  have hsub : erasesize + erasesize * (i - (k + 1)) = erasesize * (i - k) := by
    have hi : i - k = i - (k + 1) + 1 := by lia
    rw [hi, Nat.mul_succ, Nat.add_comm]
  simp only [Writer.reached, Writer.skip]
  rw [Nat.add_assoc, hsub]

def EraseResult (erasesize partOffset k : Nat) (s : Writer) : Erased -> Prop
  | .ready t =>
      exists i d, NextGood s.dev k i ∧
        s.dev.eraseBlock erasesize (erasesize * i + partOffset) = some d ∧
        t = (s.reached erasesize k i (partOffset + erasesize * i)).erased erasesize partOffset d
  | .full t =>
      exists i pos, NextGood s.dev k i ∧
        s.dev.eraseBlock erasesize (erasesize * i + partOffset) = none ∧
        t = s.reached erasesize k i pos
  | .exit => True
  | .hung => True

theorem eraseLoop_result (hE : 0 < erasesize) (fuel : Nat) (hs : InStep erasesize partOffset k s)
    (hbuf : s.buflen = erasesize) :
    EraseResult erasesize partOffset k s (eraseLoop erasesize partOffset fuel s) := by
  induction fuel generalizing k s with
  | zero => trivial
  | succ fuel ih =>
      have hreport : s.dev.blockIsBad erasesize s.e = s.dev.report k := by
        rw [hs.erased]
        exact Device.blockIsBad_mul hE k
      have hcount := hs.counted
      unfold eraseLoop
      rw [if_pos (by lia), hreport]
      by_cases hneg : s.dev.report k < 0
      · rw [if_pos hneg]
        trivial
      rw [if_neg hneg]
      by_cases hbad : s.dev.report k ≠ 0
      · rw [if_pos hbad]
        have hpos : 0 < s.dev.report k := by lia
        have hrec := ih hs.skip hbuf
        generalize eraseLoop erasesize partOffset fuel (s.skip erasesize) = r at hrec ⊢
        cases r with
        | ready t =>
            rcases hrec with ⟨i, d, hnext, herase, rfl⟩
            refine ⟨i, d, hnext.skip hpos, herase, ?_⟩
            rw [Writer.reached_skip hnext.le]
        | full t =>
            rcases hrec with ⟨i, pos, hnext, herase, rfl⟩
            refine ⟨i, pos, hnext.skip hpos, herase, ?_⟩
            rw [Writer.reached_skip hnext.le]
        | exit => trivial
        | hung => trivial
      · rw [if_neg hbad]
        have hnext : NextGood s.dev k k :=
          ⟨Nat.le_refl k, fun j hkj hjk => absurd hjk (by lia), not_not.mp hbad⟩
        cases herase : s.dev.eraseBlock erasesize (s.e + partOffset) with
        | none =>
            refine ⟨k, s.pos, hnext, ?_, Writer.reached_self hs⟩
            rw [← hs.erased]
            exact herase
        | some d =>
            have hfit := (Device.eraseBlock_some herase).1
            have hplace := hs.placed (by lia)
            cases fuel with
            | zero => trivial
            | succ fuel =>
                simp only
                unfold eraseLoop
                rw [if_neg (by simp only [Writer.erased]; lia)]
                refine ⟨k, d, hnext, ?_, ?_⟩
                · rw [← hs.erased]
                  exact herase
                · rw [← hs.erased, ← hplace, ← Writer.reached_self hs]

theorem InStep.loaded (hbuf : s.buflen ≤ erasesize) (hs : InStep erasesize partOffset k s) :
    InStep erasesize partOffset k (s.loaded erasesize) := by
  rw [Writer.loaded_eq hbuf]
  exact ⟨hs.erased, hs.counted, hs.placed, hs.whole⟩

/-!
## A turn
-/

def Writer.stored (s : Writer) (erasesize partOffset k i : Nat) (buf : Nat -> UInt8) : Writer :=
  { s with
    dev := s.dev.withMem (overwrite s.dev.mem (partOffset + erasesize * i)
      (padBlock erasesize (s.pending.take erasesize)))
    pos := partOffset + erasesize * i + erasesize
    w := s.w + erasesize
    e := erasesize * i + erasesize
    skipBadBlocks := s.skipBadBlocks + erasesize * (i - k)
    buflen := 0
    offset := 0
    buf := buf
    image := s.pending.drop erasesize
    log := s.log ++ [.erase s.closed.length (partOffset + erasesize * i),
      .write s.closed.length (partOffset + erasesize * i) 0 erasesize] }

theorem InStep.stored {i : Nat} {buf : Nat -> UInt8} (hki : k ≤ i)
    (hs : InStep erasesize partOffset k s) :
    InStep erasesize partOffset (i + 1) (s.stored erasesize partOffset k i buf) where
  erased := by
    rw [Nat.mul_succ]
    rfl
  counted := by
    have hcount := hs.counted
    have hmul : erasesize * k + erasesize * (i - k) = erasesize * i := by
      rw [← Nat.mul_add, Nat.add_sub_cancel' hki]
    rw [hs.erased] at hcount
    simp only [Writer.stored]
    lia
  placed := by
    simp only [Writer.stored]
    lia
  whole := rfl

theorem put_stored {i : Nat} {d : Device} {t : Writer} (hbuf : s.buflen ≤ erasesize)
    (hwhole : s.offset = 0)
    (herase : s.dev.eraseBlock erasesize (erasesize * i + partOffset) = some d)
    (ht : t = ((s.loaded erasesize).reached erasesize k i
      (partOffset + erasesize * i)).erased erasesize partOffset d)
    (hput : ¬ (t.put erasesize t.buflen).1 < t.buflen) :
    (t.put erasesize t.buflen).2.advance =
      s.stored erasesize partOffset k i (s.loaded erasesize).buf := by
  rcases Device.eraseBlock_some herase with ⟨hfit, rfl⟩
  have hdata : window (s.loaded erasesize).buf s.offset erasesize =
      padBlock erasesize (s.pending.take erasesize) := by
    rw [hwhole]
    exact Writer.loaded_window hbuf
  have hlen : (padBlock erasesize (s.pending.take erasesize)).length = erasesize :=
    padBlock_length (List.length_take_le _ _)
  rw [Writer.loaded_eq hbuf] at ht
  subst ht
  simp only [Writer.put, Writer.erased, Writer.reached, hdata] at hput ⊢
  unfold Writer.stored
  generalize padBlock erasesize (s.pending.take erasesize) = block at hlen hput ⊢
  rw [Nat.add_comm (erasesize * i)] at hput hfit ⊢
  have hput' : ¬ (Device.write erasesize (s.dev.withMem (overwrite s.dev.mem
      (partOffset + erasesize * i) (List.replicate erasesize 0xff)))
      (partOffset + erasesize * i) block).1 < block.length := by
    rw [hlen]
    exact hput
  rw [Device.write_whole (by rw [hlen]; exact hfit) hput', hlen, Device.withMem_withMem,
    Device.withMem_mem, overwrite_overwrite (by rw [hlen, List.length_replicate])]
  simp only [Writer.advance, Int.toNat_natCast, hwhole, List.append_assoc, List.cons_append,
    List.nil_append]

theorem writeLoop_done (hE : 0 < erasesize) {fuel : Nat} {t : Writer}
    (hs : InStep erasesize partOffset k s) (hbuf : s.buflen ≤ erasesize)
    (h : writeLoop erasesize partOffset (fuel + 1) s = .done t) :
    (s.pending = [] ∧ t = s.fill erasesize) ∨
    (s.pending ≠ [] ∧ exists i, NextGood s.dev k i ∧
      partOffset + erasesize * i + erasesize ≤ s.dev.size ∧
      writeLoop erasesize partOffset fuel
        (s.stored erasesize partOffset k i (s.loaded erasesize).buf) = .done t) ∨
    (s.pending ≠ [] ∧ exists i pos d rest, NextGood s.dev k i ∧
      s.dev.eraseBlock erasesize (erasesize * i + partOffset) = none ∧ s.next = d :: rest ∧
      writeLoop erasesize partOffset fuel
        ((((s.loaded erasesize).reached erasesize k i pos).drain erasesize).reopen partOffset d
          rest) = .done t) := by
  have hfill := Writer.fill_buflen hbuf
  have hnext : (s.loaded erasesize).next = s.next := by
    rw [Writer.loaded_eq hbuf]
  have hdev : (s.loaded erasesize).dev = s.dev := by
    rw [Writer.loaded_eq hbuf]
  unfold writeLoop at h
  split at h
  · rename_i hzero
    have hnil : s.pending = [] := by
      rw [← List.length_eq_zero_iff]
      lia
    exact Or.inl ⟨hnil, (Outcome.done.inj h).symm⟩
  · rename_i hne
    have hpend : s.pending ≠ [] := by
      intro hnil
      rw [hnil, List.length_nil, Nat.min_zero] at hfill
      exact hne hfill
    have hres := eraseLoop_result hE fuel (hs.loaded hbuf) (Writer.loaded_buflen hbuf)
    change (match eraseLoop erasesize partOffset fuel (s.loaded erasesize) with
      | .ready s => _ | .full s => _ | .exit => _ | .hung => _) = _ at h
    refine Or.inr ?_
    generalize eraseLoop erasesize partOffset fuel (s.loaded erasesize) = r at hres h
    cases r with
    | ready u =>
        rcases hres with ⟨i, d, hgood, herase, hu⟩
        rw [hdev] at hgood herase
        simp only at h
        split at h
        · cases h
        · rename_i hput
          refine Or.inl ⟨hpend, i, hgood, ?_, ?_⟩
          · have := (Device.eraseBlock_some herase).1
            lia
          · rw [← put_stored hbuf hs.whole herase hu hput]
            exact h
    | full u =>
        rcases hres with ⟨i, pos, hgood, herase, rfl⟩
        rw [hdev] at hgood herase
        simp only at h
        split at h
        · cases h
        · rename_i d rest hlist
          exact Or.inr ⟨hpend, i, pos, d, rest, hgood, herase, hnext.symm.trans hlist, h⟩
    | exit => cases h
    | hung => cases h

end

end Tool
end Mtd
end Hlk7621
