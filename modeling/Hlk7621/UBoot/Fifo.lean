import Hlk7621.UBoot.Membuf

/-!
# The circular buffer is a bounded queue

The bytes from the tail to the head, across the end of the buffer if need be, are
a queue of at most `size - 1` bytes, and every operation of `membuf.c` is the
operation of that queue.  The exception is the loop that doubles the size for
`membuf_extend_by`: its product wraps around, and when no doubling reaches the
size asked for, the call does not return.
-/

namespace Hlk7621
namespace UBoot
namespace Membuf

/-!
## The queue
-/

def contents (mb : Membuf) : Bytes :=
  if mb.tail ≤ mb.head then window mb.mem mb.tail (mb.head - mb.tail)
  else window mb.mem mb.tail (mb.size - mb.tail) ++ window mb.mem 0 mb.head

structure Inv (mb : Membuf) : Prop where
  start : mb.start ≠ 0
  size : mb.size < 2 ^ 31
  head : mb.head < mb.size
  tail : mb.tail < mb.size

variable {mb : Membuf}

theorem contents_of_le (h : mb.tail ≤ mb.head) :
    mb.contents = window mb.mem mb.tail (mb.head - mb.tail) := if_pos h

theorem contents_of_gt (h : mb.head < mb.tail) :
    mb.contents =
      window mb.mem mb.tail (mb.size - mb.tail) ++ window mb.mem 0 mb.head :=
  if_neg (Nat.not_le.mpr h)

theorem length_contents (mb : Membuf) :
    mb.contents.length =
      if mb.tail ≤ mb.head then mb.head - mb.tail
      else mb.size - mb.tail + mb.head := by
  unfold contents
  split
  · rw [window_length]
  · rw [List.length_append, window_length, window_length]

def space (mb : Membuf) : Nat := mb.size - 1 - mb.contents.length

/-!
## Writing
-/

def room (mb : Membuf) : Nat :=
  if mb.head ≥ mb.tail then
    if mb.tail ≠ 0 then mb.size - mb.head else mb.size - mb.head - 1
  else mb.tail - mb.head - 1

theorem putrawflex_eq (hi : Inv mb) (maxlen : Nat) :
    putrawflex mb maxlen =
      (min maxlen mb.room, { mb with
        head :=
          if mb.head + min maxlen mb.room = mb.size then 0
          else mb.head + min maxlen mb.room }) := by
  have hhead := hi.head
  have htail := hi.tail
  unfold putrawflex room
  rw [if_neg hi.start]
  by_cases hge : mb.head ≥ mb.tail
  · rw [if_pos hge, if_pos hge]
    dsimp only
    by_cases hmore : min (mb.size - mb.head - 1) maxlen < maxlen ∧ mb.tail ≠ 0
    · rw [if_pos hmore, if_pos hmore.right]
      have hlen : min maxlen (mb.size - mb.head) = mb.size - mb.head := by omega
      rw [hlen, if_pos (by omega)]
      congr 1
      omega
    · rw [if_neg hmore]
      have hlen : (min maxlen
          (if mb.tail ≠ 0 then mb.size - mb.head else mb.size - mb.head - 1)) =
          min (mb.size - mb.head - 1) maxlen := by
        split <;> omega
      rw [hlen, if_neg (by omega)]
  · rw [if_neg hge, if_neg hge]
    dsimp only
    rw [Nat.min_comm maxlen, if_neg (by omega)]

theorem contents_put (hi : Inv mb) {data : Bytes} (hfit : data.length ≤ mb.room) :
    contents { mb with
        head := if mb.head + data.length = mb.size then 0 else mb.head + data.length
        mem := overwrite mb.mem mb.head data } = mb.contents ++ data := by
  have hhead := hi.head
  have htail := hi.tail
  unfold room at hfit
  have hself : window (overwrite mb.mem mb.head data) mb.head data.length = data :=
    window_overwrite_self mb.mem mb.head data
  by_cases hge : mb.tail ≤ mb.head
  · rw [if_pos hge] at hfit
    have hold : window (overwrite mb.mem mb.head data) mb.tail (mb.head - mb.tail) =
        mb.contents := by
      rw [contents_of_le hge]
      exact window_overwrite_disjoint (.inl (by omega))
    have hjoin := window_append (overwrite mb.mem mb.head data) mb.tail
      (mb.head - mb.tail) data.length
    rw [Nat.add_sub_cancel' hge, hold, hself] at hjoin
    by_cases hwrap : mb.head + data.length = mb.size
    · rw [if_pos hwrap]
      split at hfit
      · rw [contents_of_gt (show 0 < mb.tail by omega)]
        dsimp only
        rw [window_zero, List.append_nil, <- hjoin]
        congr 1
        omega
      · omega
    · rw [if_neg hwrap, contents_of_le (show mb.tail ≤ mb.head + data.length by omega)]
      dsimp only
      rw [<- hjoin]
      congr 1
      omega
  · rw [if_neg hge] at hfit
    rw [if_neg (by omega), contents_of_gt (show mb.head + data.length < mb.tail by omega),
      contents_of_gt (by omega)]
    dsimp only
    have htop : window (overwrite mb.mem mb.head data) mb.tail (mb.size - mb.tail) =
        window mb.mem mb.tail (mb.size - mb.tail) :=
      window_overwrite_disjoint (.inr (by omega))
    have hbottom : window (overwrite mb.mem mb.head data) 0 (mb.head + data.length) =
        window mb.mem 0 mb.head ++ data := by
      have h := window_overwrite_append mb.mem 0 mb.head data
      rwa [Nat.zero_add] at h
    rw [htop, hbottom, List.append_assoc]

theorem room_le_space (hi : Inv mb) : mb.room ≤ mb.space := by
  have hhead := hi.head
  have htail := hi.tail
  unfold room space
  rw [length_contents]
  by_cases hge : mb.tail ≤ mb.head
  · rw [if_pos hge, if_pos hge]
    split <;> omega
  · rw [if_neg hge, if_neg hge]
    omega

theorem head_add_room_le (hi : Inv mb) : mb.head + mb.room ≤ mb.size := by
  have hhead := hi.head
  have htail := hi.tail
  unfold room
  split
  · split <;> omega
  · omega

theorem room_after (hi : Inv mb) (mem : Nat -> UInt8) :
    room { mb with
        head := if mb.head + mb.room = mb.size then 0 else mb.head + mb.room
        mem := mem } = mb.space - mb.room := by
  have hhead := hi.head
  have htail := hi.tail
  unfold space
  rw [length_contents]
  by_cases hge : mb.tail ≤ mb.head
  · by_cases hzero : mb.tail = 0
    · have hroom : mb.room = mb.size - mb.head - 1 := by
        unfold room
        rw [if_pos hge, if_neg (by omega)]
      rw [if_pos hge, hroom, if_neg (by omega)]
      unfold room
      dsimp only
      rw [if_pos (by omega), if_neg (by omega)]
      omega
    · have hroom : mb.room = mb.size - mb.head := by
        unfold room
        rw [if_pos hge, if_pos hzero]
      rw [if_pos hge, hroom, if_pos (by omega)]
      unfold room
      dsimp only
      rw [if_neg (by omega)]
      omega
  · have hroom : mb.room = mb.tail - mb.head - 1 := by
      unfold room
      rw [if_neg (by omega)]
    rw [if_neg hge, hroom, if_neg (by omega)]
    unfold room
    dsimp only
    rw [if_neg (by omega)]
    omega

theorem putRound_spec (hi : Inv mb) (data : Bytes) :
    (putRound mb data).1 = data.drop mb.room ∧ Inv (putRound mb data).2 ∧
      (putRound mb data).2.size = mb.size ∧
      (putRound mb data).2.contents = mb.contents ++ data.take mb.room ∧
      (mb.room ≤ data.length ->
        (putRound mb data).2.room = mb.space - mb.room) := by
  have hbound := head_add_room_le hi
  have hhead := hi.head
  have hlen : (data.take mb.room).length = min data.length mb.room := by
    rw [List.length_take, Nat.min_comm]
  have htake : data.take (min data.length mb.room) = data.take mb.room := by
    rw [Nat.min_comm, <- List.take_eq_take_min]
  have hdrop : data.drop (min data.length mb.room) = data.drop mb.room := by
    rcases Nat.le_total data.length mb.room with h | h
    · rw [Nat.min_eq_left h, List.drop_length, List.drop_eq_nil_of_le h]
    · rw [Nat.min_eq_right h]
  have hput := contents_put hi (show (data.take mb.room).length ≤ mb.room by omega)
  rw [hlen] at hput
  unfold putRound
  rw [putrawflex_eq hi]
  dsimp only
  rw [htake]
  refine ⟨hdrop, ⟨hi.start, hi.size, ?_, hi.tail⟩, rfl, hput, ?_⟩
  · dsimp only
    split <;> omega
  · intro hfull
    rw [Nat.min_eq_right hfull]
    exact room_after hi _

theorem put_spec (hi : Inv mb) (data : Bytes) :
    (put mb data).1 = min data.length mb.space ∧ Inv (put mb data).2 ∧
      (put mb data).2.size = mb.size ∧
      (put mb data).2.contents = mb.contents ++ data.take (put mb data).1 := by
  rcases putRound_spec hi data with ⟨hrest, hi1, hsize1, hcontents1, hroom⟩
  rcases putRound_spec hi1 (putRound mb data).1 with
    ⟨hrest2, hi2, hsize2, hcontents2, -⟩
  have hle := room_le_space hi
  -- Both rounds together take what fits.
  have htotal : (data.take mb.room).length +
      ((data.drop mb.room).take (putRound mb data).2.room).length =
        min data.length mb.space := by
    rw [List.length_take, List.length_take, List.length_drop]
    by_cases hfull : mb.room ≤ data.length
    · rw [hroom hfull]
      omega
    · omega
  have hwritten : (put mb data).1 = min data.length mb.space := by
    unfold put
    dsimp only
    rw [hrest2, hrest, List.length_drop, List.length_drop]
    rw [List.length_take, List.length_take, List.length_drop] at htotal
    omega
  refine ⟨hwritten, hi2, hsize2.trans hsize1, ?_⟩
  rw [hwritten, <- htotal]
  show (putRound (putRound mb data).2 (putRound mb data).1).2.contents = _
  rw [hcontents2, hcontents1, hrest, List.append_assoc, <- List.take_add]
  congr 1
  rw [List.take_eq_take_iff, List.length_take, List.length_take, List.length_drop]
  omega

theorem room_eq_zero_iff (hi : Inv mb) : mb.room = 0 <-> mb.space = 0 := by
  constructor
  · intro hroom
    have hafter := room_after hi mb.mem
    have hsame : ¬ mb.head + 0 = mb.size := by
      have hhead := hi.head
      omega
    rw [hroom, if_neg hsame, Nat.add_zero, Nat.sub_zero] at hafter
    exact hafter.symm.trans hroom
  · intro hspace
    have hle := room_le_space hi
    omega

theorem putbyte_spec (hi : Inv mb) (ch : UInt8) :
    (putbyte mb ch).1 = decide (0 < mb.space) ∧ Inv (putbyte mb ch).2 ∧
      (putbyte mb ch).2.size = mb.size ∧
      (putbyte mb ch).2.contents =
        if 0 < mb.space then mb.contents ++ [ch] else mb.contents := by
  have hzero := room_eq_zero_iff hi
  rcases putRound_spec hi [ch] with ⟨-, hi1, hsize1, hcontents1, -⟩
  have hflex := putrawflex_eq hi 1
  unfold putbyte
  by_cases hroom : mb.room = 0
  · have hsame : ¬ mb.head + 0 = mb.size := by
      have hhead := hi.head
      omega
    rw [hroom, Nat.min_zero, if_neg hsame, Nat.add_zero] at hflex
    rw [hflex, hzero.mp hroom]
    exact ⟨rfl, hi, rfl, rfl⟩
  · have hspace : 0 < mb.space := by omega
    have hone : min 1 mb.room = 1 := by omega
    have hround : (putRound mb [ch]).2 =
        { (putrawflex mb 1).2 with mem := overwrite mb.mem mb.head [ch] } := by
      unfold putRound
      rw [List.length_singleton, hflex, hone]
      rfl
    rw [if_neg (by rw [hflex, hone]; simp), <- hround, if_pos hspace]
    refine ⟨by simp [hspace], hi1, hsize1, ?_⟩
    rw [hcontents1, List.take_of_length_le (by simp; omega)]

/-!
## Reading
-/

def piece (mb : Membuf) : Nat :=
  if mb.head > mb.tail then mb.head - mb.tail
  else if mb.head < mb.tail then mb.size - mb.tail
  else 0

theorem atMost_le (len : Nat) (maxlen : Option Nat) : atMost len maxlen ≤ len := by
  cases maxlen with
  | none => exact Nat.le_refl len
  | some maxlen => exact Nat.min_le_left len maxlen

theorem getraw_eq (hi : Inv mb) (maxlen : Option Nat) :
    getraw mb maxlen =
      (atMost mb.piece maxlen, { mb with
        tail :=
          if mb.tail + atMost mb.piece maxlen = mb.size then 0
          else mb.tail + atMost mb.piece maxlen }) := by
  have hhead := hi.head
  have htail := hi.tail
  have hle := atMost_le mb.piece maxlen
  unfold getraw
  unfold piece at hle ⊢
  by_cases hgt : mb.head > mb.tail
  · rw [if_pos hgt] at hle
    rw [if_pos hgt, if_pos hgt, if_neg (by omega)]
  · rw [if_neg hgt] at hle
    rw [if_neg hgt, if_neg hgt]
    by_cases hlt : mb.head < mb.tail
    · rw [if_pos hlt, if_pos hlt]
    · rw [if_neg hlt] at hle
      have hnone : atMost 0 maxlen = 0 := Nat.le_zero.mp (atMost_le 0 maxlen)
      rw [if_neg hlt, if_neg hlt, hnone, if_neg (by omega)]
      rfl

theorem contents_get (hi : Inv mb) {len : Nat} (hlen : len ≤ mb.piece) :
    mb.contents =
      window mb.mem mb.tail len ++
        contents { mb with
          tail := if mb.tail + len = mb.size then 0 else mb.tail + len } := by
  have hhead := hi.head
  have htail := hi.tail
  unfold piece at hlen
  by_cases hlt : mb.head < mb.tail
  · rw [if_neg (by omega), if_pos hlt] at hlen
    have hsplit : window mb.mem mb.tail (mb.size - mb.tail) =
        window mb.mem mb.tail len ++
          window mb.mem (mb.tail + len) (mb.size - (mb.tail + len)) := by
      rw [<- window_append]
      congr 1
      omega
    rw [contents_of_gt hlt, hsplit, List.append_assoc]
    congr 1
    by_cases hend : mb.tail + len = mb.size
    · rw [if_pos hend, hend, Nat.sub_self, window_zero, List.nil_append,
        contents_of_le (Nat.zero_le _), Nat.sub_zero]
    · rw [if_neg hend, contents_of_gt (show mb.head < mb.tail + len by omega)]
  · have hle : mb.tail ≤ mb.head := by omega
    have hfit : mb.tail + len ≤ mb.head := by
      rw [if_neg hlt] at hlen
      split at hlen <;> omega
    rw [if_neg (by omega), contents_of_le hle, contents_of_le hfit, <- window_append]
    congr 1
    dsimp only
    omega

theorem piece_le (hi : Inv mb) : mb.piece ≤ mb.contents.length := by
  have hhead := hi.head
  have htail := hi.tail
  rw [length_contents]
  unfold piece
  split
  · refine Nat.le_of_eq ?_
    rw [if_pos (by omega)]
  · split
    · rw [if_neg (by omega)]
      omega
    · exact Nat.zero_le _

theorem piece_after (hi : Inv mb) :
    piece { mb with
        tail := if mb.tail + mb.piece = mb.size then 0 else mb.tail + mb.piece } =
      mb.contents.length - mb.piece := by
  have hhead := hi.head
  have htail := hi.tail
  rw [length_contents]
  by_cases hgt : mb.head > mb.tail
  · have hpiece : mb.piece = mb.head - mb.tail := if_pos hgt
    rw [hpiece, if_neg (by omega), if_pos (by omega)]
    unfold piece
    dsimp only
    rw [if_neg (by omega), if_neg (by omega), Nat.sub_self]
  · by_cases hlt : mb.head < mb.tail
    · have hpiece : mb.piece = mb.size - mb.tail := by
        unfold piece
        rw [if_neg hgt, if_pos hlt]
      rw [hpiece, if_pos (by omega), if_neg (by omega)]
      unfold piece
      dsimp only
      rw [if_neg (Nat.not_lt_zero mb.head)]
      split <;> omega
    · have hpiece : mb.piece = 0 := by
        unfold piece
        rw [if_neg hgt, if_neg hlt]
      rw [hpiece, if_neg (by omega), if_pos (by omega)]
      unfold piece
      dsimp only
      rw [if_neg (by omega), if_neg (by omega)]
      omega

theorem inv_getraw (hi : Inv mb) (maxlen : Option Nat) :
    Inv (getraw mb maxlen).2 := by
  have htail := hi.tail
  have hle := atMost_le mb.piece maxlen
  have hbound : mb.tail + mb.piece ≤ mb.size := by
    have hhead := hi.head
    unfold piece
    split
    · omega
    · split <;> omega
  rw [getraw_eq hi]
  refine ⟨hi.start, hi.size, hi.head, ?_⟩
  dsimp only
  split <;> omega

theorem getraw_spec (hi : Inv mb) (maxlen : Option Nat) :
    (getraw mb maxlen).1 = atMost mb.piece maxlen ∧
      (getraw mb maxlen).2.size = mb.size ∧
      mb.contents =
        window mb.mem mb.tail (getraw mb maxlen).1 ++ (getraw mb maxlen).2.contents ∧
      ((getraw mb maxlen).1 = mb.piece ->
        (getraw mb maxlen).2.piece = mb.contents.length - mb.piece) := by
  have hget := contents_get hi (atMost_le mb.piece maxlen)
  have hafter := piece_after hi
  rw [getraw_eq hi]
  refine ⟨rfl, rfl, hget, ?_⟩
  intro hall
  dsimp only at hall ⊢
  rw [hall]
  exact hafter

theorem take_drop_of_length {l xs ys : Bytes} {n : Nat} (h : l = xs ++ ys)
    (hlen : xs.length = min n l.length) : xs = l.take n ∧ ys = l.drop n := by
  subst h
  rw [List.length_append] at hlen
  by_cases hn : n = xs.length
  · subst hn
    exact ⟨List.take_left.symm, List.drop_left.symm⟩
  · have hys : ys = [] := by
      rw [<- List.length_eq_zero_iff]
      omega
    subst hys
    rw [List.append_nil]
    exact ⟨(List.take_of_length_le (by omega)).symm,
      (List.drop_eq_nil_of_le (by omega)).symm⟩

theorem length_of_piece_zero (hi : Inv mb) (h : mb.piece = 0) :
    mb.contents.length = 0 := by
  have htail := hi.tail
  unfold piece at h
  rw [length_contents]
  split at h
  · omega
  · split at h
    · omega
    · rw [if_pos (by omega)]
      omega

theorem get_spec (hi : Inv mb) (maxlen : Nat) :
    (get mb maxlen).1 = mb.contents.take maxlen ∧ Inv (get mb maxlen).2 ∧
      (get mb maxlen).2.size = mb.size ∧
      (get mb maxlen).2.contents = mb.contents.drop maxlen := by
  rcases getraw_spec hi (some maxlen) with ⟨hlen1, hsize1, hcut1, hpiece1⟩
  replace hlen1 : _ = min mb.piece maxlen := hlen1
  have hi1 := inv_getraw hi (some maxlen)
  have hle := piece_le hi
  unfold get getRound
  dsimp only
  generalize hr1 : getraw mb (some maxlen) = r1 at *
  rw [window_length]
  by_cases hnone : r1.1 = 0
  · rw [if_pos hnone]
    -- Nothing to be read, or nothing asked for.
    have hlength : (window mb.mem mb.tail r1.1).length =
        min maxlen mb.contents.length := by
      have hempty := length_of_piece_zero hi
      rw [window_length]
      omega
    rcases take_drop_of_length hcut1 hlength with ⟨htake, hdrop⟩
    exact ⟨htake, hi1, hsize1, hdrop⟩
  · rw [if_neg hnone]
    dsimp only
    rcases getraw_spec hi1 (some (maxlen - r1.1)) with
      ⟨hlen2, hsize2, hcut2, -⟩
    replace hlen2 : _ = min r1.2.piece (maxlen - r1.1) := hlen2
    have hi2 := inv_getraw hi1 (some (maxlen - r1.1))
    have hle1 := piece_le hi1
    generalize getraw r1.2 (some (maxlen - r1.1)) = r2 at *
    have hcut : mb.contents = (window mb.mem mb.tail r1.1 ++
        window r1.2.mem r1.2.tail r2.1) ++ r2.2.contents := by
      rw [hcut1, hcut2, List.append_assoc]
    have hrest : r1.2.contents.length = mb.contents.length - r1.1 := by
      rw [hcut1, List.length_append, window_length]
      omega
    have hlength : (window mb.mem mb.tail r1.1 ++
        window r1.2.mem r1.2.tail r2.1).length = min maxlen mb.contents.length := by
      rw [List.length_append, window_length, window_length]
      by_cases hall : r1.1 = mb.piece
      · have hp := hpiece1 hall
        omega
      · omega
    rcases take_drop_of_length hcut hlength with ⟨htake, hdrop⟩
    exact ⟨htake, hi2, hsize2.trans hsize1, hdrop⟩

theorem avail_eq (hi : Inv mb) : mb.avail = mb.contents.length := by
  rcases getraw_spec hi none with ⟨hlen1, -, -, hpiece1⟩
  have hle := piece_le hi
  have hlen2 := (getraw_spec (inv_getraw hi none) none).left
  unfold avail
  dsimp only
  rw [hlen1, hlen2]
  show mb.piece + (getraw mb none).2.piece = _
  rw [hpiece1 hlen1]
  omega

theorem free_eq (hi : Inv mb) :
    mb.free = (mb.size : Int) - 1 - mb.contents.length := by
  have htail := hi.tail
  unfold free
  rw [if_neg (by omega), avail_eq hi]

/-- What `membuf_getbyte` and `membuf_peekbyte` answer. -/
def frontByte : Bytes -> Int
  | [] => -1
  | b :: _ => b.toNat

theorem getraw_one (hi : Inv mb) :
    (if (getraw mb (some 1)).1 ≠ 1 then -1 else ((mb.mem mb.tail).toNat : Int)) =
        frontByte mb.contents ∧
      (getraw mb (some 1)).2.contents = mb.contents.drop 1 := by
  rcases getraw_spec hi (some 1) with ⟨hlen, -, hcut, -⟩
  replace hlen : _ = min mb.piece 1 := hlen
  by_cases hzero : mb.piece = 0
  · have hnone : (getraw mb (some 1)).1 = 0 := by omega
    have hempty := List.length_eq_zero_iff.mp (length_of_piece_zero hi hzero)
    rw [hnone, window_zero, List.nil_append] at hcut
    rw [hnone, <- hcut, hempty]
    exact ⟨rfl, rfl⟩
  · have hone : (getraw mb (some 1)).1 = 1 := by omega
    have hwindow : window mb.mem mb.tail 1 = [mb.mem mb.tail] := rfl
    rw [hone, hwindow] at hcut
    rw [hone, hcut]
    exact ⟨rfl, rfl⟩

/-!
## Moving the data
-/

theorem makecontig_spec (hi : Inv mb) :
    Inv (makecontig mb).2 ∧ (makecontig mb).2.size = mb.size ∧
      (makecontig mb).2.contents = mb.contents := by
  have hhead := hi.head
  have htail := hi.tail
  unfold makecontig
  by_cases hgt : mb.tail > mb.head
  · rw [if_pos hgt]
    dsimp only
    by_cases hfull : mb.head + (mb.size - mb.tail) ≥ mb.tail
    · rw [if_pos hfull]
      exact ⟨hi, rfl, rfl⟩
    · rw [if_neg hfull]
      refine ⟨⟨hi.start, hi.size, ?_, ?_⟩, rfl, ?_⟩
      · dsimp only
        omega
      · dsimp only
        omega
      · -- The lower part is moved up first, the upper part then fits below it.
        generalize htop : mb.size - mb.tail = top at hfull ⊢
        have hkeep : window (overwrite mb.mem top (window mb.mem 0 mb.head)) mb.tail
            top = window mb.mem mb.tail top := by
          apply window_overwrite_disjoint
          rw [window_length]
          omega
        rw [contents_of_le (Nat.zero_le _), contents_of_gt hgt, Nat.sub_zero, htop]
        dsimp only
        rw [memmove_eq, memcpy_eq _ _ (.inl (Nat.zero_le _)), hkeep, window_append,
          Nat.zero_add]
        congr 1
        · have hself := window_overwrite_self
            (overwrite mb.mem top (window mb.mem 0 mb.head)) 0
            (window mb.mem mb.tail top)
          rwa [window_length] at hself
        · rw [window_overwrite_disjoint (.inr (by rw [window_length]; omega))]
          have hself := window_overwrite_self mb.mem top (window mb.mem 0 mb.head)
          rwa [window_length] at hself
  · rw [if_neg hgt]
    refine ⟨⟨hi.start, hi.size, ?_, ?_⟩, rfl, ?_⟩
    · dsimp only
      omega
    · dsimp only
      omega
    · rw [contents_of_le (Nat.zero_le _), contents_of_le (show mb.tail ≤ mb.head by omega),
        Nat.sub_zero]
      dsimp only
      rw [memcpy_eq _ _ (.inl (Nat.zero_le _))]
      have hself := window_overwrite_self mb.mem 0
        (window mb.mem mb.tail (mb.head - mb.tail))
      rwa [window_length] at hself

/-!
## Doubling
-/

/-- Some doubling of the size reaches the size asked for, in 32-bit integers. -/
def Doubles (size amount : Nat) : Prop :=
  exists k, asInt (size + amount) ≤ asInt (size * 2 ^ k)

theorem asInt_congr {a b : Nat} (h : u32 a = u32 b) : asInt a = asInt b := by
  unfold asInt
  rw [h]

theorem u32_mul_u32 (a b : Nat) : u32 (u32 a * b) = u32 (a * b) := by
  unfold u32
  rw [Nat.mod_mul_mod]

theorem doubleLoop_isSome_iff (wanted : Int) (rounds size : Nat) :
    (doubleLoop wanted rounds size).isSome <->
      exists k, k ≤ rounds ∧ wanted ≤ asInt (size * 2 ^ k) := by
  induction rounds generalizing size with
  | zero =>
      unfold doubleLoop
      split
      · rename_i hlt
        constructor
        · intro h
          cases h
        · rintro ⟨k, hk, hle⟩
          have hzero : k = 0 := by omega
          rw [hzero, Nat.pow_zero, Nat.mul_one] at hle
          omega
      · rename_i hge
        exact ⟨fun _ => ⟨0, Nat.le_refl 0, by rw [Nat.pow_zero, Nat.mul_one]; omega⟩,
          fun _ => rfl⟩
  | succ rounds ih =>
      unfold doubleLoop
      split
      · rename_i hlt
        have hnext : forall k, asInt (u32 (size * 2) * 2 ^ k) =
            asInt (size * 2 ^ (k + 1)) := by
          intro k
          apply asInt_congr
          rw [u32_mul_u32, Nat.mul_assoc, Nat.pow_succ, Nat.mul_comm 2]
        rw [ih]
        constructor
        · rintro ⟨k, hk, hle⟩
          rw [hnext] at hle
          exact ⟨k + 1, by omega, hle⟩
        · rintro ⟨_ | k, hk, hle⟩
          · rw [Nat.pow_zero, Nat.mul_one] at hle
            omega
          · rw [<- hnext] at hle
            exact ⟨k, by omega, hle⟩
      · rename_i hge
        exact ⟨fun _ => ⟨0, Nat.zero_le _, by rw [Nat.pow_zero, Nat.mul_one]; omega⟩,
          fun _ => rfl⟩

/-- After 32 rounds the size is zero and stays zero. -/
theorem doubles_iff (size amount : Nat) :
    Doubles size amount <->
      (doubleLoop (asInt (size + amount)) 32 size).isSome := by
  rw [doubleLoop_isSome_iff]
  constructor
  · rintro ⟨k, hle⟩
    by_cases hk : k ≤ 32
    · exact ⟨k, hk, hle⟩
    · refine ⟨32, Nat.le_refl 32, ?_⟩
      have hsame : asInt (size * 2 ^ k) = asInt (size * 2 ^ 32) := by
        apply asInt_congr
        have hpow : 2 ^ k = 2 ^ (k - 32) * 2 ^ 32 := by
          rw [<- Nat.pow_add]
          congr 1
          omega
        unfold u32
        rw [hpow, <- Nat.mul_assoc, Nat.mul_mod_left, Nat.mul_mod_left]
      rwa [hsame] at hle
  · rintro ⟨k, -, hle⟩
    exact ⟨k, hle⟩

theorem doubleLoop_end {wanted : Int} {rounds size doubled : Nat}
    (hsize : size < 2 ^ 32) (h : doubleLoop wanted rounds size = some doubled) :
    doubled < 2 ^ 32 ∧ wanted ≤ asInt doubled := by
  induction rounds generalizing size with
  | zero =>
      unfold doubleLoop at h
      split at h
      · cases h
      · cases h
        exact ⟨hsize, by omega⟩
  | succ rounds ih =>
      unfold doubleLoop at h
      split at h
      · exact ih (u32_lt _) h
      · cases h
        exact ⟨hsize, by omega⟩

theorem asInt_of_lt {n : Nat} (h : n < 2 ^ 31) : asInt n = n := by
  unfold asInt
  rw [u32_of_lt (by omega), if_pos h]

theorem doubleLoop_lt {wanted : Int} {rounds size doubled : Nat}
    (hsize : size < 2 ^ 31) (h : doubleLoop wanted rounds size = some doubled) :
    doubled < 2 ^ 31 := by
  rcases doubleLoop_end (by omega) h with ⟨hlt, hle⟩
  by_cases hstop : asInt size < wanted
  · -- The size asked for is positive, and so is the size that reaches it.
    rw [asInt_of_lt hsize] at hstop
    unfold asInt at hle
    rw [u32_of_lt hlt] at hle
    split at hle <;> omega
  · have hsame : doubled = size := by
      cases rounds with
      | zero =>
          unfold doubleLoop at h
          rw [if_neg hstop] at h
          exact (Option.some.inj h).symm
      | succ rounds =>
          unfold doubleLoop at h
          rw [if_neg hstop] at h
          exact (Option.some.inj h).symm
    omega

theorem extendBy_spec (hi : Inv mb) {amount : Nat} {max : Option Nat}
    {start : Nat} {fresh : Nat -> UInt8} (hstart : start ≠ 0) {ret : Int}
    {mb' : Membuf} (h : extendBy mb amount max start fresh = some (ret, mb')) :
    Inv mb' ∧ mb'.contents = mb.contents ∧
      (ret = 0 ∧ mb.size < mb'.size ∨ ret = -E2BIG ∧ mb'.size = mb.size) := by
  have hhead := hi.head
  have htail := hi.tail
  unfold extendBy at h
  split at h
  · cases h
  rename_i doubled hdoubled
  have hlt := doubleLoop_lt hi.size hdoubled
  have hle := atMost_le doubled max
  dsimp only at h
  generalize atMost doubled max = size at h hle
  split at h
  · cases h
    exact ⟨hi, rfl, .inr ⟨rfl, rfl⟩⟩
  rename_i hgrown
  generalize hmem : (fun a => if a < mb.size then mb.mem a else fresh a) = mem at h
  have hold : forall off len, off + len ≤ mb.size ->
      window mem off len = window mb.mem off len := by
    intro off len hfit
    apply window_congr
    intro a _ ha
    rw [<- hmem]
    exact if_pos (by omega)
  split at h
  · rename_i hwrapped
    cases h
    refine ⟨⟨hstart, ?_, ?_, ?_⟩, ?_, .inl ⟨rfl, ?_⟩⟩
    · dsimp only
      omega
    · dsimp only
      omega
    · dsimp only
      omega
    · rw [contents_of_gt (show mb.head < mb.tail + (size - mb.size) by omega),
        contents_of_gt hwrapped]
      dsimp only
      rw [memmove_eq, show size - (mb.tail + (size - mb.size)) = mb.size - mb.tail by omega,
        hold mb.tail (mb.size - mb.tail) (by omega)]
      congr 1
      · have hself := window_overwrite_self mem (mb.tail + (size - mb.size))
          (window mb.mem mb.tail (mb.size - mb.tail))
        rwa [window_length] at hself
      · rw [window_overwrite_disjoint (.inl (by omega))]
        exact hold 0 mb.head (by omega)
    · dsimp only
      omega
  · rename_i hplain
    cases h
    refine ⟨⟨hstart, ?_, ?_, ?_⟩, ?_, .inl ⟨rfl, ?_⟩⟩
    · dsimp only
      omega
    · dsimp only
      omega
    · dsimp only
      omega
    · have hle : mb.tail ≤ mb.head := by omega
      rw [contents_of_le hle, <- hold mb.tail (mb.head - mb.tail) (by omega)]
      exact contents_of_le hle
    · dsimp only
      omega

/-!
## Runs
-/

/-- The calls of a user of the buffer.  An extension carries the non-zero address
and the further contents that `realloc` returns. -/
inductive Op where
  | put (data : Bytes)
  | putbyte (ch : UInt8)
  | get (maxlen : Nat)
  | getbyte
  | peekbyte
  | purge
  | makecontig
  | extendBy (amount : Nat) (max : Option Nat) (start : { p : Nat // p ≠ 0 })
      (fresh : Nat -> UInt8)

inductive Answer where
  | count (n : Nat)
  | flag (b : Bool)
  | data (bytes : Bytes)
  | value (n : Int)
  | none
  deriving DecidableEq, Repr

def step (mb : Membuf) : Op -> Option (Answer × Membuf)
  | .put data => some (.count (put mb data).1, (put mb data).2)
  | .putbyte ch => some (.flag (putbyte mb ch).1, (putbyte mb ch).2)
  | .get maxlen => some (.data (get mb maxlen).1, (get mb maxlen).2)
  | .getbyte => some (.value (getbyte mb).1, (getbyte mb).2)
  | .peekbyte => some (.value (peekbyte mb), mb)
  | .purge => some (.none, purge mb)
  | .makecontig => some (.flag (makecontig mb).1, (makecontig mb).2)
  | .extendBy amount max start fresh =>
      (extendBy mb amount max start.1 fresh).map fun r => (.value r.1, r.2)

def QueueStep (size : Nat) (queue : Bytes) (answer : Answer) (size' : Nat)
    (queue' : Bytes) : Op -> Prop
  | .put data =>
      size' = size ∧ answer = .count (min data.length (size - 1 - queue.length)) ∧
        queue' = queue ++ data.take (size - 1 - queue.length)
  | .putbyte ch =>
      size' = size ∧ answer = .flag (decide (queue.length < size - 1)) ∧
        queue' = if queue.length < size - 1 then queue ++ [ch] else queue
  | .get maxlen =>
      size' = size ∧ answer = .data (queue.take maxlen) ∧ queue' = queue.drop maxlen
  | .getbyte =>
      size' = size ∧ answer = .value (frontByte queue) ∧ queue' = queue.drop 1
  | .peekbyte => size' = size ∧ answer = .value (frontByte queue) ∧ queue' = queue
  | .purge => size' = size ∧ queue' = []
  | .makecontig => size' = size ∧ queue' = queue
  | .extendBy _ _ _ _ =>
      queue' = queue ∧
        (answer = .value 0 ∧ size < size' ∨ answer = .value (-E2BIG) ∧ size' = size)

structure Sound (mb : Membuf) : Prop where
  head : mb.head < mb.size
  tail : mb.tail < mb.size
  avail : mb.avail = mb.contents.length
  free : mb.free = (mb.size : Int) - 1 - mb.contents.length

def Behaves (mb : Membuf) : List Op -> Prop
  | [] => Sound mb
  | op :: rest =>
      Sound mb ∧ exists answer mb', step mb op = some (answer, mb') ∧
        QueueStep mb.size mb.contents answer mb'.size mb'.contents op ∧
        Behaves mb' rest

def Op.Reachable (size : Nat) : Op -> Prop
  | .extendBy amount _ _ _ => Doubles size amount
  | _ => True

def AllReachable (mb : Membuf) : List Op -> Prop
  | [] => True
  | op :: rest =>
      op.Reachable mb.size ∧
        forall answer mb', step mb op = some (answer, mb') -> AllReachable mb' rest

theorem sound_of_inv (hi : Inv mb) : Sound mb where
  head := hi.head
  tail := hi.tail
  avail := avail_eq hi
  free := free_eq hi

theorem step_spec (hi : Inv mb) {op : Op} {answer : Answer} {mb' : Membuf}
    (h : step mb op = some (answer, mb')) :
    Inv mb' ∧ QueueStep mb.size mb.contents answer mb'.size mb'.contents op := by
  cases op with
  | put data =>
      cases h
      rcases put_spec hi data with ⟨hcount, hi', hsize, hcontents⟩
      refine ⟨hi', hsize, by rw [hcount]; rfl, ?_⟩
      rw [hcontents, hcount, Nat.min_comm, <- List.take_eq_take_min]
      rfl
  | putbyte ch =>
      cases h
      rcases putbyte_spec hi ch with ⟨hflag, hi', hsize, hcontents⟩
      have hspace : 0 < mb.space <-> mb.contents.length < mb.size - 1 := by
        unfold space
        omega
      simp only [hspace] at hflag hcontents
      exact ⟨hi', hsize, by rw [hflag], hcontents⟩
  | get maxlen =>
      cases h
      rcases get_spec hi maxlen with ⟨hdata, hi', hsize, hcontents⟩
      exact ⟨hi', hsize, by rw [hdata], hcontents⟩
  | getbyte =>
      cases h
      rcases getraw_one hi with ⟨hbyte, hcontents⟩
      exact ⟨inv_getraw hi _, (getraw_spec hi _).right.left,
        congrArg Answer.value hbyte, hcontents⟩
  | peekbyte =>
      cases h
      exact ⟨hi, rfl, congrArg Answer.value (getraw_one hi).left, rfl⟩
  | purge =>
      cases h
      have hpos : 0 < mb.size := Nat.lt_of_le_of_lt (Nat.zero_le _) hi.tail
      exact ⟨⟨hi.start, hi.size, hpos, hpos⟩, rfl, rfl⟩
  | makecontig =>
      cases h
      rcases makecontig_spec hi with ⟨hi', hsize, hcontents⟩
      exact ⟨hi', hsize, hcontents⟩
  | extendBy amount max start fresh =>
      rcases Option.map_eq_some_iff.mp h with ⟨⟨ret, grown⟩, hextend, heq⟩
      cases heq
      rcases extendBy_spec hi start.property hextend with ⟨hi', hcontents, hret⟩
      refine ⟨hi', hcontents, ?_⟩
      rcases hret with ⟨hzero, hlt⟩ | ⟨hbig, hsame⟩
      · exact .inl ⟨congrArg Answer.value hzero, hlt⟩
      · exact .inr ⟨congrArg Answer.value hbig, hsame⟩

theorem extendBy_isSome (mb : Membuf) (amount : Nat) (max : Option Nat)
    (start : Nat) (fresh : Nat -> UInt8) :
    (extendBy mb amount max start fresh).isSome <-> Doubles mb.size amount := by
  rw [doubles_iff]
  unfold extendBy
  split
  · rename_i hloop
    rw [hloop]
    exact Iff.rfl
  · rename_i doubled hloop
    rw [hloop]
    dsimp only
    split
    · exact Iff.rfl
    · split <;> exact Iff.rfl

theorem step_returns_iff (mb : Membuf) (op : Op) :
    (exists answer mb', step mb op = some (answer, mb')) <->
      op.Reachable mb.size := by
  cases op with
  | extendBy amount max start fresh =>
      show _ <-> Doubles mb.size amount
      rw [<- extendBy_isSome mb amount max start.1 fresh, Option.isSome_iff_exists]
      constructor
      · rintro ⟨answer, mb', h⟩
        rcases Option.map_eq_some_iff.mp h with ⟨r, hr, -⟩
        exact ⟨r, hr⟩
      · rintro ⟨r, hr⟩
        exact ⟨.value r.1, r.2, Option.map_eq_some_iff.mpr ⟨r, hr, rfl⟩⟩
  | _ => exact ⟨fun _ => trivial, fun _ => ⟨_, _, rfl⟩⟩

theorem behaves_iff (hi : Inv mb) (ops : List Op) :
    Behaves mb ops <-> AllReachable mb ops := by
  induction ops generalizing mb with
  | nil => exact ⟨fun _ => trivial, fun _ => sound_of_inv hi⟩
  | cons op rest ih =>
      constructor
      · rintro ⟨-, answer, mb', hstep, -, hrest⟩
        refine ⟨(step_returns_iff mb op).mp ⟨answer, mb', hstep⟩, ?_⟩
        intro answer' mb'' hstep'
        rw [hstep] at hstep'
        cases hstep'
        exact (ih (step_spec hi hstep).left).mp hrest
      · rintro ⟨hreach, hrest⟩
        rcases (step_returns_iff mb op).mpr hreach with ⟨answer, mb', hstep⟩
        rcases step_spec hi hstep with ⟨hi', hqueue⟩
        exact ⟨sound_of_inv hi, answer, mb', hstep, hqueue,
          (ih hi').mpr (hrest answer mb' hstep)⟩

/-- From a fresh buffer on, every run in which the sizes asked for can be reached
is a run of the queue, and no other is. -/
theorem membuf_is_queue_iff {start size : Nat} (mem : Nat -> UInt8)
    (hstart : start ≠ 0) (hsize : 1 ≤ size) (hint : size < 2 ^ 31)
    (ops : List Op) :
    Behaves (init start size mem) ops <-> AllReachable (init start size mem) ops := by
  have hi : Inv (init start size mem) := ⟨hstart, hint, hsize, hsize⟩
  exact behaves_iff hi ops

def wrappedRun : List Op :=
  [.put (str "abc"), .get 2, .put (str "defgh"), .getbyte,
    .extendBy 1 none ⟨64, by decide⟩ (fun _ => 0), .makecontig, .peekbyte]

theorem wrapped_run_behaves : Behaves (init 16 4 fun _ => 0) wrappedRun := by
  refine (membuf_is_queue_iff (fun _ => 0) (by decide) (by decide) (by decide)
    wrappedRun).mpr ?_
  refine ⟨trivial, ?_⟩
  rintro _ _ ⟨⟩
  refine ⟨trivial, ?_⟩
  rintro _ _ ⟨⟩
  refine ⟨trivial, ?_⟩
  rintro _ _ ⟨⟩
  refine ⟨trivial, ?_⟩
  rintro _ _ ⟨⟩
  refine ⟨⟨1, by decide +kernel⟩, ?_⟩
  intro _ _ _
  refine ⟨trivial, ?_⟩
  rintro _ _ ⟨⟩
  refine ⟨trivial, ?_⟩
  rintro _ _ ⟨⟩
  exact trivial

/-- A call that asks for more than a gigabyte does not return, whatever the
maximum. -/
theorem huge_extension_hangs :
    ¬ Behaves (init 16 16 fun _ => 0)
      [.extendBy (2 ^ 30 + 1) (some 64) ⟨64, by decide⟩ (fun _ => 0)] := by
  have hi : Inv (init 16 16 fun _ => 0) :=
    ⟨by decide, by decide, by decide, by decide⟩
  have hstuck : ¬ Doubles 16 (2 ^ 30 + 1) := by
    rw [doubles_iff]
    decide +kernel
  exact fun h => hstuck ((behaves_iff hi _).mp h).left

end Membuf
end UBoot
end Hlk7621
