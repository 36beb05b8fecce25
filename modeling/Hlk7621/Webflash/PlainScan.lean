import Hlk7621.Webflash.Reset

/-!
# The windowed search as a plain scan

`webflash_find_overlay` reads the firmware partition in windows that overlap by
one byte less than a superblock.  `plainOverlay` looks at one position of the
partition after the other.  The two give the same answer, test the same
positions in the same order, and the windows stay inside the partition.
-/

namespace Hlk7621
namespace Webflash

/-!
## The plain scan
-/

def upTo (hit : α -> Bool) : List α -> List α
  | [] => []
  | x :: rest => if hit x then [x] else x :: upTo hit rest

theorem upTo_of_none {hit : α -> Bool} {xs : List α}
    (h : forall x, x ∈ xs -> hit x = false) : upTo hit xs = xs := by
  induction xs with
  | nil => rfl
  | cons x rest ih =>
      rw [upTo, h x (by simp), ih (fun y hy => h y (by simp [hy]))]
      simp

theorem upTo_append (hit : α -> Bool) (xs ys : List α) :
    upTo hit (xs ++ ys) =
      if xs.any hit then upTo hit xs else xs ++ upTo hit ys := by
  induction xs with
  | nil => simp
  | cons x rest ih =>
      rw [List.cons_append, upTo, upTo, List.any_cons]
      by_cases hx : hit x
      · simp [hx]
      · simp only [hx, Bool.false_or, ih]
        cases rest.any hit with
        | true => simp
        | false => simp

section

variable (B : Board) (mem : Nat -> UInt8)

def positions : List Nat :=
  List.range' B.firmware.offset (B.firmware.size + 1 - SQUASHFS_SB_SIZE)

def hitAt (p : Nat) : Option (Nat × Nat) :=
  (candidateAt B mem p).map fun overlay => (p, overlay)

def plainResult (found : Option (Nat × Nat)) : Except Int (Nat × Nat) :=
  match found with
  | some f => .ok f
  | none => .error (-ENOENT)

/-- The byte-by-byte scan of the whole partition. -/
def plainOverlay : Except Int (Nat × Nat) :=
  plainResult ((positions B).findSome? (hitAt B mem))

variable {B}

theorem mem_positions {p : Nat} : p ∈ positions B <->
    B.firmware.offset ≤ p ∧
      p + SQUASHFS_SB_SIZE ≤ B.firmware.offset + B.firmware.size := by
  unfold positions SQUASHFS_SB_SIZE
  rw [List.mem_range'_1]
  omega

end

/-!
## The tested positions

`scanTested` and `overlayTrace` follow the two loops of `webflash_find_overlay`
and record the positions that they test and the ranges that they read.
-/

def scanTested (sectorSize stop pos : Nat) (buf : Nat -> UInt8) :
    Nat -> Nat -> List Nat
  | 0, _ => []
  | n + 1, i =>
      match overlayCandidate sectorSize stop (pos + i)
          (window buf i SQUASHFS_SB_SIZE) with
      | some _ => [pos + i]
      | none => (pos + i) :: scanTested sectorSize stop pos buf n (i + 1)

structure ScanTrace where
  reads : List (Nat × Nat)
  tested : List Nat

section

variable {E : Type} (P : Platform E)

def overlayTraceLoop : Nat -> Nat -> E -> ScanTrace
  | 0, _, _ => ⟨[], []⟩
  | fuel + 1, pos, e =>
      if u32 (pos + SQUASHFS_SB_SIZE) ≤ overlayStop P then
        let readLen := min IO_SIZE (sub32 (overlayStop P) pos)
        let r := P.spiFlashRead pos readLen e
        if r.1 ≠ 0 then ⟨[(pos, readLen)], []⟩
        else
          let tested := scanTested P.sectorSize (overlayStop P) pos r.2.1
            (windowCount readLen) 0
          match scanWindow P.sectorSize (overlayStop P) pos r.2.1
              (windowCount readLen) 0 with
          | some _ => ⟨[(pos, readLen)], tested⟩
          | none =>
              let rest := overlayTraceLoop fuel
                (u32 (pos + (IO_SIZE - (SQUASHFS_SB_SIZE - 1)))) r.2.2
              ⟨(pos, readLen) :: rest.reads, tested ++ rest.tested⟩
      else ⟨[], []⟩

def overlayTrace (e : E) : ScanTrace :=
  overlayTraceLoop P (P.firmware.size + 1) P.firmware.offset e

end

/-!
## One window
-/

section

variable {sectorSize stop pos : Nat} {buf : Nat -> UInt8}

def windowHit (sectorSize stop pos : Nat) (buf : Nat -> UInt8) (p : Nat) :
    Option (Nat × Nat) :=
  (overlayCandidate sectorSize stop p (window buf (p - pos) SQUASHFS_SB_SIZE)).map
    fun overlay => (p, overlay)

theorem windowHit_add (i : Nat) : windowHit sectorSize stop pos buf (pos + i) =
    (overlayCandidate sectorSize stop (pos + i)
      (window buf i SQUASHFS_SB_SIZE)).map fun overlay => (pos + i, overlay) := by
  unfold windowHit
  rw [Nat.add_sub_cancel_left]

theorem scanWindow_eq_findSome (n i : Nat) :
    scanWindow sectorSize stop pos buf n i =
      (List.range' (pos + i) n).findSome? (windowHit sectorSize stop pos buf) := by
  induction n generalizing i with
  | zero => rfl
  | succ n ih =>
      rw [scanWindow, List.range'_succ, List.findSome?_cons, windowHit_add]
      cases overlayCandidate sectorSize stop (pos + i)
          (window buf i SQUASHFS_SB_SIZE) with
      | some c => rfl
      | none => exact ih (i + 1)

theorem scanTested_eq_upTo (n i : Nat) :
    scanTested sectorSize stop pos buf n i =
      upTo (fun p => (windowHit sectorSize stop pos buf p).isSome)
        (List.range' (pos + i) n) := by
  induction n generalizing i with
  | zero => rfl
  | succ n ih =>
      rw [scanTested, List.range'_succ, upTo, windowHit_add]
      cases overlayCandidate sectorSize stop (pos + i)
          (window buf i SQUASHFS_SB_SIZE) with
      | some c => rfl
      | none =>
          simp only [Option.map_none, Option.isSome_none, Bool.false_eq_true, if_false]
          rw [ih (i + 1)]
          rfl

end

theorem findSome_congr {xs : List α} {f g : α -> Option β}
    (h : forall x, x ∈ xs -> f x = g x) : xs.findSome? f = xs.findSome? g := by
  induction xs with
  | nil => rfl
  | cons x rest ih =>
      rw [List.findSome?_cons, List.findSome?_cons, h x (by simp),
        ih (fun y hy => h y (by simp [hy]))]

theorem upTo_congr {xs : List α} {f g : α -> Bool}
    (h : forall x, x ∈ xs -> f x = g x) : upTo f xs = upTo g xs := by
  induction xs with
  | nil => rfl
  | cons x rest ih =>
      rw [upTo, upTo, h x (by simp), ih (fun y hy => h y (by simp [hy]))]

/-!
## All windows
-/

section

variable {E : Type} {P : Platform E} {contents : E -> Nat -> UInt8}

def positionsFrom (B : Board) (pos : Nat) : List Nat :=
  List.range' pos (B.firmware.offset + B.firmware.size + 1 - (pos + SQUASHFS_SB_SIZE))

theorem positionsFrom_start (B : Board) :
    positionsFrom B B.firmware.offset = positions B := by
  unfold positionsFrom positions
  congr 1
  omega

theorem positionsFrom_nil {B : Board} {pos : Nat}
    (h : B.firmware.offset + B.firmware.size < pos + SQUASHFS_SB_SIZE) :
    positionsFrom B pos = [] := by
  unfold positionsFrom
  rw [Nat.sub_eq_zero_of_le h]
  rfl

theorem positionsFrom_window {B : Board} {pos readLen : Nat}
    (hfits : pos + SQUASHFS_SB_SIZE ≤ B.firmware.offset + B.firmware.size)
    (hlen : readLen = min IO_SIZE (B.firmware.offset + B.firmware.size - pos)) :
    positionsFrom B pos = List.range' pos (windowCount readLen) ++
      positionsFrom B (pos + (IO_SIZE - (SQUASHFS_SB_SIZE - 1))) := by
  unfold positionsFrom windowCount
  unfold IO_SIZE at hlen
  unfold SQUASHFS_SB_SIZE at hfits
  unfold IO_SIZE SQUASHFS_SB_SIZE
  rcases Nat.le_total (64 * 1024) (B.firmware.offset + B.firmware.size - pos) with
    hlong | hshort
  · rw [Nat.min_eq_left hlong] at hlen
    subst hlen
    have hcount : B.firmware.offset + B.firmware.size + 1 - (pos + 96) =
        64 * 1024 + 1 - 96 + (B.firmware.offset + B.firmware.size + 1 -
          (pos + (64 * 1024 + 1 - 96) + 96)) := by
      omega
    rw [show 64 * 1024 - (96 - 1) = 64 * 1024 + 1 - 96 by decide,
      List.range'_append_1, hcount]
  · rw [Nat.min_eq_right hshort] at hlen
    subst hlen
    rw [show B.firmware.offset + B.firmware.size + 1 -
      (pos + (64 * 1024 - (96 - 1)) + 96) = 0 by omega, List.range'_zero,
      List.append_nil]
    congr 1
    omega

theorem findSome_of_any_isSome {xs : List α} {f : α -> Option β} :
    xs.any (fun x => (f x).isSome) = (xs.findSome? f).isSome := by
  induction xs with
  | nil => rfl
  | cons x rest ih =>
      rw [List.any_cons, List.findSome?_cons, ih]
      cases f x with
      | some y => simp
      | none => simp

theorem findOverlayLoop_eq_plain (hread : SoundRead P contents)
    (hl : Layout P.toBoard) {fuel pos : Nat} {e : E}
    (hfuel : P.firmware.offset + P.firmware.size < pos + fuel)
    (hstart : P.firmware.offset ≤ pos)
    (hle : pos ≤ P.firmware.offset + P.firmware.size + IO_SIZE) :
    (findOverlayLoop P fuel pos e).1 =
        plainResult ((positionsFrom P.toBoard pos).findSome?
          (hitAt P.toBoard (contents e))) ∧
      (overlayTraceLoop P fuel pos e).tested =
        upTo (fun p => (hitAt P.toBoard (contents e) p).isSome)
          (positionsFrom P.toBoard pos) ∧
      forall r, r ∈ (overlayTraceLoop P fuel pos e).reads ->
        P.firmware.offset ≤ r.1 ∧ r.1 + r.2 ≤ P.firmware.offset + P.firmware.size := by
  have hflash := hl.firmware_end
  have hsize := P.flashSize_le
  induction fuel generalizing pos e with
  | zero =>
      rw [positionsFrom_nil (B := P.toBoard) (by unfold SQUASHFS_SB_SIZE; omega)]
      exact ⟨rfl, rfl, fun r hr => by cases hr⟩
  | succ fuel ih =>
      have hpos : u32 (pos + SQUASHFS_SB_SIZE) = pos + SQUASHFS_SB_SIZE :=
        u32_of_lt (by unfold SQUASHFS_SB_SIZE IO_SIZE at *; lia)
      rw [findOverlayLoop, overlayTraceLoop, overlayStop_eq, hpos]
      by_cases hfits : pos + SQUASHFS_SB_SIZE ≤ P.firmware.offset + P.firmware.size
      · rw [if_pos hfits, if_pos hfits, sub32_of_le (by lia) P.firmware.fits]
        generalize hlen : min IO_SIZE (P.firmware.offset + P.firmware.size - pos) =
          readLen
        rcases hread.read pos readLen e (by lia) with ⟨hret, hdata, hkept⟩
        dsimp only
        rw [if_neg (by simp [hret]), if_neg (by simp [hret])]
        -- A position of the window is tested as the position of the flash.
        have hsame : forall p, p ∈ List.range' pos (windowCount readLen) ->
            windowHit P.sectorSize (P.firmware.offset + P.firmware.size) pos
              (P.spiFlashRead pos readLen e).2.1 p =
            hitAt P.toBoard (contents e) p := by
          intro p hp
          rw [List.mem_range'_1] at hp
          unfold windowCount at hp
          have hwin := window_inside hdata
            (show p - pos + SQUASHFS_SB_SIZE ≤ readLen by lia)
          rw [Nat.zero_add, Nat.add_sub_cancel' hp.1] at hwin
          unfold windowHit hitAt candidateAt
          rw [hwin]
        have hscan : scanWindow P.sectorSize (P.firmware.offset + P.firmware.size) pos
              (P.spiFlashRead pos readLen e).2.1 (windowCount readLen) 0 =
            (List.range' pos (windowCount readLen)).findSome?
              (hitAt P.toBoard (contents e)) := by
          rw [scanWindow_eq_findSome, Nat.add_zero]
          exact findSome_congr hsame
        have htested : scanTested P.sectorSize (P.firmware.offset + P.firmware.size) pos
              (P.spiFlashRead pos readLen e).2.1 (windowCount readLen) 0 =
            upTo (fun p => (hitAt P.toBoard (contents e) p).isSome)
              (List.range' pos (windowCount readLen)) := by
          rw [scanTested_eq_upTo, Nat.add_zero]
          exact upTo_congr (fun p hp => by rw [hsame p hp])
        have hinside : P.firmware.offset ≤ pos ∧
            pos + readLen ≤ P.firmware.offset + P.firmware.size :=
          ⟨hstart, by lia⟩
        rw [positionsFrom_window hfits hlen.symm, List.findSome?_append, upTo_append,
          findSome_of_any_isSome, hscan, htested]
        cases hfound : (List.range' pos (windowCount readLen)).findSome?
            (hitAt P.toBoard (contents e)) with
        | some found =>
            refine ⟨rfl, rfl, fun r hr => ?_⟩
            rw [List.mem_singleton] at hr
            rw [hr]
            exact hinside
        | none =>
            have hnext : u32 (pos + (IO_SIZE - (SQUASHFS_SB_SIZE - 1))) =
                pos + (IO_SIZE - (SQUASHFS_SB_SIZE - 1)) :=
              u32_of_lt (by unfold SQUASHFS_SB_SIZE IO_SIZE at *; lia)
            rcases @ih (pos + (IO_SIZE - (SQUASHFS_SB_SIZE - 1)))
                (P.spiFlashRead pos readLen e).2.2
                (by unfold SQUASHFS_SB_SIZE IO_SIZE at *; lia) (by lia)
                (by unfold SQUASHFS_SB_SIZE IO_SIZE at *; lia) with
              ⟨hresult, hpositions, hreads⟩
            rw [hkept] at hresult hpositions
            rw [hnext, Option.none_or]
            refine ⟨hresult, ?_, ?_⟩
            · have hall := List.findSome?_eq_none_iff.mp hfound
              rw [upTo_of_none (fun p hp => by rw [hall p hp]; rfl), hpositions]
              rfl
            · intro r hr
              rcases List.mem_cons.mp hr with rfl | hrest
              · exact hinside
              · exact hreads r hrest
      · rw [if_neg hfits, if_neg hfits]
        rw [positionsFrom_nil (B := P.toBoard) (Nat.lt_of_not_le hfits)]
        exact ⟨rfl, rfl, fun r hr => by cases hr⟩

/-- For every flash contents and every accepted layout, the windowed search
returns what the plain scan returns, tests the positions of the partition in
increasing order and each once, up to the first one that passes, and reads
nothing outside the partition. -/
theorem find_overlay_is_plain_scan (P : Platform E) (contents : E -> Nat -> UInt8)
    (hread : SoundRead P contents) (hlayout : P.initFlash = 0) (e : E) :
    (findOverlay P e).1 = plainOverlay P.toBoard (contents e) ∧
      (overlayTrace P e).tested =
        upTo (fun p => (candidateAt P.toBoard (contents e) p).isSome)
          (positions P.toBoard) ∧
      (forall p, p ∈ positions P.toBoard <->
        P.firmware.offset ≤ p ∧
          p + SQUASHFS_SB_SIZE ≤ P.firmware.offset + P.firmware.size) ∧
      (positions P.toBoard).Pairwise (· < ·) ∧
      (forall r, r ∈ (overlayTrace P e).reads ->
        P.firmware.offset ≤ r.1 ∧
          r.1 + r.2 ≤ P.firmware.offset + P.firmware.size) ∧
      (forall p overlay, (findOverlay P e).1 = .ok (p, overlay) <->
        FirstSuperblock P.toBoard (contents e) p overlay) ∧
      ((findOverlay P e).1 = .error (-ENOENT) <->
        forall p, p ∈ positions P.toBoard ->
          candidateAt P.toBoard (contents e) p = none) := by
  have hl := layout_of_initFlash hlayout
  rcases @findOverlayLoop_eq_plain E P contents hread hl (P.firmware.size + 1)
      P.firmware.offset e (by omega) (Nat.le_refl _) (by omega) with
    ⟨hresult, htested, hreads⟩
  rw [positionsFrom_start] at hresult htested
  refine ⟨hresult, ?_, fun p => mem_positions, List.pairwise_lt_range', hreads,
    fun p overlay => findOverlay_iff hread hl, ?_⟩
  · refine htested.trans (upTo_congr fun p _ => ?_)
    exact Option.isSome_map
  · have hplain : (findOverlay P e).1 = plainOverlay P.toBoard (contents e) := hresult
    rw [hplain, plainOverlay]
    constructor
    · intro h p hp
      cases hfound : (positions P.toBoard).findSome? (hitAt P.toBoard (contents e)) with
      | some found =>
          rw [hfound] at h
          cases h
      | none =>
          have hmiss := List.findSome?_eq_none_iff.mp hfound p hp
          exact Option.map_eq_none_iff.mp hmiss
    · intro h
      have hfound : (positions P.toBoard).findSome? (hitAt P.toBoard (contents e)) = none :=
        List.findSome?_eq_none_iff.mpr fun p hp => Option.map_eq_none_iff.mpr (h p hp)
      rw [hfound]
      rfl

theorem candidateAt_magic {B : Board} {mem : Nat -> UInt8} {p overlay : Nat}
    (h : candidateAt B mem p = some overlay) : mem p = 0x68 := by
  have hwindow : (window mem p SQUASHFS_SB_SIZE).take 4 =
      [mem p, mem (p + 1), mem (p + 2), mem (p + 3)] := rfl
  unfold candidateAt overlayCandidate at h
  dsimp only at h
  by_cases hmagic : leNat ((window mem p SQUASHFS_SB_SIZE).take 4) = SQUASHFS_MAGIC
  · rw [hwindow] at hmagic
    simp only [leNat, SQUASHFS_MAGIC] at hmagic
    apply UInt8.toNat_inj.mp
    have hlt := (mem p).toNat_lt
    show (mem p).toNat = 0x68
    lia
  · rw [if_pos hmagic] at h
    cases h

def straddling : Nat -> UInt8 := overwrite (fun _ => 0xff) 0x5ffe0 (superblock 0x200)

theorem find_overlay_is_plain_scan_straddling :
    (findOverlay (norPlatform hlk7621a) straddling).1 = .ok (0x5ffe0, 0x61000) ∧
      plainOverlay hlk7621a straddling = .ok (0x5ffe0, 0x61000) := by
  rcases find_overlay_is_plain_scan (norPlatform hlk7621a) (fun mem => mem)
    (soundFlash_norPlatform hlk7621a).toSoundRead (by decide) straddling with
    ⟨hplain, _, _, _, _, hfound, _⟩
  have hfirst : FirstSuperblock hlk7621a straddling 0x5ffe0 0x61000 := by
    refine ⟨by decide, by decide, by decide +kernel, ?_⟩
    intro q _ hlt
    cases hq : candidateAt hlk7621a straddling q with
    | none => rfl
    | some overlay =>
        have hmagic := candidateAt_magic hq
        have hblank : straddling q = 0xff := overwrite_of_lt hlt
        rw [hblank] at hmagic
        exact absurd hmagic (by decide)
  have hscan := (hfound 0x5ffe0 0x61000).mpr hfirst
  exact ⟨hscan, hplain.symm.trans hscan⟩

end

end Webflash
end Hlk7621
