import Hlk7621.Mtd.Filling

/-!
# Dumping what was written

The dump asks about the same blocks as the writer did, and takes whole blocks until the
last piece of the image.  It steps over bad blocks by the length of what it has read, so
in front of the last piece it can come to stand inside the next good block.
-/

namespace Hlk7621
namespace Mtd
namespace Tool

section

variable {erasesize partOffset k : Nat} {d : Device} {mem : Nat -> UInt8}

/-!
## Turns of the dump
-/

theorem dumpLoop_bad {fuel pos offset size : Nat} {out : Bytes} (hE : 0 < erasesize)
    (hsize : 0 < size) (hfit : pos + min size erasesize ≤ d.size)
    (hbad : 0 < d.blockIsBad erasesize offset) :
    dumpLoop erasesize d (fuel + 1) pos offset size out =
      dumpLoop erasesize d fuel (pos + min size erasesize) (offset + min size erasesize) size
        out := by
  have hlen : (d.read pos (min size erasesize)).length = min size erasesize := by
    rw [Device.read_eq hfit, window_length]
  conv_lhs => unfold dumpLoop
  simp only [hlen]
  rw [if_neg (by lia), if_neg (by lia), if_pos (by lia)]

theorem dumpLoop_good {fuel pos offset size : Nat} {out : Bytes} (hE : 0 < erasesize)
    (hsize : 0 < size) (hfit : pos + min size erasesize ≤ d.size)
    (hgood : d.blockIsBad erasesize offset = 0) :
    dumpLoop erasesize d (fuel + 1) pos offset size out =
      if 0 < size - min size erasesize then
        dumpLoop erasesize d fuel (pos + min size erasesize) (offset + min size erasesize)
          (size - min size erasesize) (out ++ window d.mem pos (min size erasesize))
      else
        .returned (out ++ window d.mem pos (min size erasesize)) := by
  have hlen : (d.read pos (min size erasesize)).length = min size erasesize := by
    rw [Device.read_eq hfit, window_length]
  conv_lhs => unfold dumpLoop
  simp only [hlen]
  rw [if_neg (by lia), if_neg (by lia), if_neg (by lia), Device.read_eq hfit]

theorem dumpLoop_short {fuel pos offset size : Nat} {out : Bytes}
    (hshort : d.size < pos + min size erasesize) :
    dumpLoop erasesize d (fuel + 1) pos offset size out = .returned out := by
  have hlen := d.read_length pos (min size erasesize)
  unfold dumpLoop
  simp only
  rw [if_pos (by lia)]

/-!
## Whole blocks
-/

theorem dumpLoop_blocks (hE : 0 < erasesize) {fuel n : Nat} {out : Bytes}
    (hfit : partOffset + erasesize * k ≤ d.size) (hknown : forall i, i < k -> 0 ≤ d.report i)
    (hmore : forall i, i < k -> erasesize * (goods d i).length + erasesize < n) :
    dumpLoop erasesize d (fuel + k) partOffset 0 n out =
      dumpLoop erasesize d fuel (partOffset + erasesize * k) (erasesize * k)
        (n - erasesize * (goods d k).length) (out ++ contents erasesize partOffset d k d.mem) := by
  induction k generalizing fuel with
  | zero => simp [contents]
  | succ k ih =>
      have hmul := Nat.mul_succ erasesize k
      have hnext := hmore k (Nat.lt_succ_self k)
      have hstep := @ih (fuel + 1) (by lia)
        (fun i hi => hknown i (Nat.lt_succ_of_lt hi)) (fun i hi => hmore i (Nat.lt_succ_of_lt hi))
      have hlen : min (n - erasesize * (goods d k).length) erasesize = erasesize := by lia
      rw [show fuel + (k + 1) = fuel + 1 + k by lia, hstep]
      by_cases hgood : d.Good k
      · have hzero : d.blockIsBad erasesize (erasesize * k) = 0 := by
          rw [Device.blockIsBad_mul hE]
          exact hgood
        have hgoods : goods d (k + 1) = goods d k ++ [k] := by
          rw [goods_succ, if_pos hgood]
        have hcont : contents erasesize partOffset d (k + 1) d.mem =
            contents erasesize partOffset d k d.mem ++
              window d.mem (partOffset + erasesize * k) erasesize := by
          unfold contents
          rw [hgoods, List.flatMap_append, List.flatMap_singleton]
        rw [dumpLoop_good hE (by lia) (by rw [hlen]; lia) hzero, hlen, if_pos (by lia), hcont,
          hgoods, List.length_append, List.length_singleton, hmul, Nat.mul_succ, List.append_assoc,
          Nat.add_assoc, Nat.sub_sub]
      · have hpos : 0 < d.blockIsBad erasesize (erasesize * k) := by
          have hge := hknown k (Nat.lt_succ_self k)
          have hne : d.report k ≠ 0 := hgood
          rw [Device.blockIsBad_mul hE]
          lia
        have hgoods : goods d (k + 1) = goods d k := by
          rw [goods_succ, if_neg hgood]
        rw [dumpLoop_bad hE (by lia) (by rw [hlen]; lia) hpos, hlen, contents, contents, hgoods,
          hmul, Nat.add_assoc]

/-!
## The last piece
-/

theorem dumpLoop_through (hE : 0 < erasesize) {fuel pos first stop r t : Nat} {out : Bytes}
    (hr : 0 < r) (hrE : r ≤ erasesize)
    (hfit : pos + erasesize * (stop - first) + r ≤ d.size)
    (hbad : forall i, first ≤ i -> i < stop -> 0 < d.report i)
    (ht : t = 0 ∨ r * (t - 1) < erasesize * (stop - first)) :
    dumpLoop erasesize d (fuel + t) pos (erasesize * first) r out =
      dumpLoop erasesize d fuel (pos + r * t) (erasesize * first + r * t) r out := by
  induction t generalizing fuel with
  | zero => rfl
  | succ t ih =>
      have hlt : r * t < erasesize * (stop - first) := by
        rcases ht with hz | hlt
        · exact absurd hz (Nat.succ_ne_zero t)
        · exact hlt
      have hmin : min r erasesize = r := Nat.min_eq_left hrE
      have hprev : t = 0 ∨ r * (t - 1) < erasesize * (stop - first) :=
        Or.inr (Nat.lt_of_le_of_lt (Nat.mul_le_mul_left r (Nat.sub_le t 1)) hlt)
      have hblock : first ≤ (erasesize * first + r * t) / erasesize ∧
          (erasesize * first + r * t) / erasesize < stop := by
        rw [Nat.mul_add_div hE]
        have hdiv : r * t / erasesize < stop - first :=
          Nat.div_lt_of_lt_mul hlt
        lia
      have hpos : 0 < d.blockIsBad erasesize (erasesize * first + r * t) :=
        hbad _ hblock.1 hblock.2
      rw [show fuel + (t + 1) = fuel + 1 + t by lia, ih hprev,
        dumpLoop_bad hE hr (by rw [hmin]; lia) hpos, hmin, Nat.mul_succ, Nat.add_assoc,
        Nat.add_assoc]

theorem exists_multiple {r : Nat} (hr : 0 < r) (x : Nat) :
    exists t shift, r * t = x + shift ∧ shift < r ∧ t ≤ x ∧ (t = 0 ∨ r * (t - 1) < x) := by
  have hdm := Nat.div_add_mod x r
  have hmod := Nat.mod_lt x hr
  rcases Nat.eq_zero_or_pos (x % r) with hz | hpos
  · refine ⟨x / r, 0, by lia, hr, Nat.div_le_self x r, ?_⟩
    rcases Nat.eq_zero_or_pos (x / r) with hq | hq
    · exact Or.inl hq
    · refine Or.inr ?_
      have := Nat.mul_lt_mul_of_pos_left (show x / r - 1 < x / r by lia) hr
      lia
  · have hle : x / r + 1 ≤ x := by
      have := Nat.mul_le_mul_right (x / r) hr
      lia
    refine ⟨x / r + 1, r - x % r, ?_, by lia, hle, Or.inr ?_⟩
    · rw [Nat.mul_succ]
      lia
    · rw [Nat.add_sub_cancel]
      lia

/-- Where the last piece of `n` bytes is: `first` is the block behind the last full one,
`last` the next good block from there. -/
structure LastPiece (erasesize partOffset : Nat) (d : Device) (n first last : Nat) : Prop where
  fit : partOffset + erasesize * (last + 1) ≤ d.size
  known : forall i, i < last -> 0 ≤ d.report i
  next : NextGood d first last
  before : forall i, i < first -> erasesize * (goods d i).length + erasesize < n
  lower : erasesize * (goods d first).length < n
  upper : n ≤ erasesize * (goods d first).length + erasesize

/-- What a dump puts out: the full blocks, and then `r` bytes from the first multiple of `r`
behind the bad blocks. -/
theorem mtdDump_result (hE : 0 < erasesize) {n first last r : Nat}
    (h : LastPiece erasesize partOffset d n first last)
    (hr : r = n - erasesize * (goods d first).length) :
    exists shift, shift < r ∧ r ∣ erasesize * (last - first) + shift ∧
      mtdDump erasesize d partOffset n = .returned (contents erasesize partOffset d first d.mem ++
        (if partOffset + erasesize * last + shift + r ≤ d.size then
          window d.mem (partOffset + erasesize * last + shift) r else [])) := by
  have hlower := h.lower
  have hupper := h.upper
  have hle := h.next.le
  have hfit := h.fit
  rw [Nat.mul_succ] at hfit
  have hrpos : 0 < r := by lia
  have hsplit : erasesize * first + erasesize * (last - first) = erasesize * last := by
    rw [← Nat.mul_add, Nat.add_sub_cancel' hle]
  have hfirst : first ≤ erasesize * first := Nat.le_mul_of_pos_left first hE
  rcases exists_multiple hrpos (erasesize * (last - first)) with ⟨t, shift, ht, hshift, htx, hprev⟩
  refine ⟨shift, hshift, ⟨t, ht.symm⟩, ?_⟩
  -- the fuel splits into the full blocks, the steps through bad blocks and the last turn
  have hfuel : d.size + 1 = d.size - first - t + 1 + t + first := by lia
  have hseek : d.lseek 0 partOffset = partOffset := if_pos (by lia)
  have hgood : d.blockIsBad erasesize (erasesize * first + r * t) = 0 := by
    have hdiv : (erasesize * first + r * t) / erasesize = last := by
      rw [ht, ← Nat.add_assoc, hsplit, Nat.mul_add_div hE, Nat.div_eq_of_lt (by lia), Nat.add_zero]
    unfold Device.blockIsBad
    rw [hdiv]
    exact h.next.good
  have hmin : min r erasesize = r := by lia
  unfold mtdDump
  rw [if_neg (by lia), hseek, hfuel, dumpLoop_blocks hE (by lia) (fun i hi => h.known i (by lia))
    h.before, ← hr, List.nil_append,
    dumpLoop_through hE hrpos (by lia) (by lia) h.next.bad hprev]
  have hpos : partOffset + erasesize * first + r * t = partOffset + erasesize * last + shift := by
    lia
  rw [hpos]
  by_cases hin : partOffset + erasesize * last + shift + r ≤ d.size
  · rw [dumpLoop_good hE hrpos (by rw [hmin]; exact hin) hgood, hmin, if_neg (by lia), if_pos hin]
  · rw [dumpLoop_short (by rw [hmin]; lia), if_neg hin, List.append_nil]

end

end Tool
end Mtd
end Hlk7621
