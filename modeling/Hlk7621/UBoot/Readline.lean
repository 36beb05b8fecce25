import Hlk7621.UBoot.Fifo

/-!
# Lines of the circular buffer

`membuf_readline` of `lib/membuf.c`.  The scan goes on at the start of the buffer
when it reaches the end of its segment and the data is wrapped; it does so at the
end of the lower segment too, where it reads the lower segment again.
-/

namespace Hlk7621
namespace UBoot
namespace Membuf

/-!
## The code
-/

/-- A `char` as an integer: characters are signed. -/
def charInt (c : UInt8) : Int := if c.toNat < 128 then c.toNat else c.toNat - 256

def lineEnd (minch : Int) (c : UInt8) : Bool := c == 10 || charInt c < minch

/-- The variables of `membuf_readline` behind its loop, with `str` as an offset and
the memory at `orig`. -/
structure Scan where
  len : Nat
  str : Nat
  s : Nat
  ok : Bool
  out : Nat -> UInt8

/-- The loop, by the rounds that `maxlen - 1` still allows.  At the head of a round,
`str` is `len` bytes behind `orig`. -/
def readlineLoop (mb : Membuf) (minch : Int) :
    Nat -> Nat -> Nat -> Nat -> (Nat -> UInt8) -> Scan
  | 0, len, s, _, out => ⟨len, len, s, false, out⟩
  | rounds + 1, len, s, finish, out =>
      if s < finish then
        let c := mb.mem s
        let out := overwrite out len [c]
        let s := s + 1
        if lineEnd minch c then ⟨len + 1, len, s, true, out⟩
        else if s = finish ∧ mb.tail > mb.head then
          readlineLoop mb minch rounds (len + 1) 0 mb.head out
        else readlineLoop mb minch rounds (len + 1) s finish out
      else ⟨len, len, s, false, out⟩

structure Line where
  ret : Nat
  out : Nat -> UInt8
  mb : Membuf

def readline (mb : Membuf) (out : Nat -> UInt8) (maxlen : Nat) (minch : Int)
    (mustFit : Bool) : Line :=
  let finish := if mb.head ≥ mb.tail then mb.head else mb.size
  let scan := readlineLoop mb minch (maxlen - 1) 0 mb.tail finish out
  if !scan.ok && mustFit then
    ⟨0, if maxlen ≠ 0 then overwrite scan.out 0 [0] else scan.out, mb⟩
  else
    ⟨scan.len, overwrite scan.out scan.str [0],
      { mb with tail := if scan.s = mb.size then 0 else scan.s }⟩

/-!
## Lines of a queue
-/

/-- What reading a line takes from a queue with `room` bytes to store it, and whether
its last byte ends the line. -/
def takeLine (stop : UInt8 -> Bool) : Nat -> Bytes -> Bytes × Bool
  | 0, _ => ([], false)
  | _ + 1, [] => ([], false)
  | room + 1, c :: rest =>
      if stop c then ([c], true)
      else
        let line := takeLine stop room rest
        (c :: line.1, line.2)

section

variable {stop : UInt8 -> Bool} {room : Nat} {queue : Bytes}

theorem takeLine_fits {i : Nat} (h : queue.findIdx? stop = some i) (hi : i < room) :
    takeLine stop room queue = (queue.take (i + 1), true) := by
  induction queue generalizing room i with
  | nil => cases h
  | cons c rest ih =>
      cases room with
      | zero => lia
      | succ room =>
          rw [takeLine]
          rw [List.findIdx?_cons] at h
          cases hc : stop c with
          | true =>
              rw [hc] at h
              cases h
              rfl
          | false =>
              rw [hc] at h
              rcases Option.map_eq_some_iff.mp h with ⟨j, hj, rfl⟩
              rw [if_neg (by simp), ih hj (by lia)]
              rfl

theorem takeLine_cut (h : forall i, queue.findIdx? stop = some i -> room ≤ i) :
    takeLine stop room queue = (queue.take room, false) := by
  induction queue generalizing room with
  | nil =>
      cases room with
      | zero => rfl
      | succ room => rfl
  | cons c rest ih =>
      cases room with
      | zero => rfl
      | succ room =>
          rw [takeLine]
          cases hc : stop c with
          | true =>
              have := h 0 (by rw [List.findIdx?_cons, hc]; rfl)
              lia
          | false =>
              have hrest : forall i, rest.findIdx? stop = some i -> room ≤ i := by
                intro i hi
                have := h (i + 1) (by rw [List.findIdx?_cons, hc, hi]; rfl)
                lia
              rw [if_neg (by simp), ih hrest]
              rfl

end

/-!
## The scan
-/

section

variable {mb : Membuf} {minch : Int}

inductive Ahead (mb : Membuf) : Nat -> Nat -> Bytes -> Prop where
  | straight {s : Nat} (order : mb.tail ≤ mb.head) (hs : s ≤ mb.head) :
      Ahead mb s mb.head (window mb.mem s (mb.head - s))
  | upper {s : Nat} (order : mb.head < mb.tail) (hs : mb.tail ≤ s) (hlt : s < mb.size) :
      Ahead mb s mb.size (window mb.mem s (mb.size - s) ++ window mb.mem 0 mb.head)
  | lower {s : Nat} (order : mb.head < mb.tail) (hs : s ≤ mb.head) :
      Ahead mb s mb.head (window mb.mem s (mb.head - s))

theorem window_succ (mem : Nat -> UInt8) {s e : Nat} (h : s < e) :
    window mem s (e - s) = mem s :: window mem (s + 1) (e - (s + 1)) := by
  have hlen : e - s = 1 + (e - (s + 1)) := by lia
  rw [hlen, window_append]
  rfl

def wrapTail (mb : Membuf) (s : Nat) : Membuf :=
  { mb with tail := if s = mb.size then 0 else s }

theorem Ahead.contents (hi : Inv mb) {s finish : Nat} {rest : Bytes}
    (h : Ahead mb s finish rest) : (wrapTail mb s).contents = rest := by
  have hhead := hi.head
  unfold wrapTail
  cases h with
  | straight order hs =>
      rw [if_neg (by lia)]
      exact contents_of_le hs
  | upper order hs hlt =>
      rw [if_neg (by lia)]
      exact contents_of_gt (Nat.lt_of_lt_of_le order hs)
  | lower order hs =>
      rw [if_neg (by lia)]
      exact contents_of_le hs

theorem Ahead.cons (hi : Inv mb) {s finish : Nat} {c : UInt8} {rest : Bytes}
    (h : Ahead mb s finish (c :: rest)) :
    s < finish ∧ mb.mem s = c ∧ (wrapTail mb (s + 1)).contents = rest := by
  have hhead := hi.head
  generalize hall : c :: rest = all at h
  unfold wrapTail
  cases h with
  | straight order hs =>
      have hlt : s < mb.head := by
        by_contra hge
        rw [show mb.head - s = 0 by lia] at hall
        cases hall
      rw [window_succ mb.mem hlt] at hall
      cases hall
      refine ⟨hlt, rfl, ?_⟩
      rw [if_neg (by lia)]
      exact contents_of_le hlt
  | upper order hs hlt =>
      rw [window_succ mb.mem hlt] at hall
      cases hall
      refine ⟨hlt, rfl, ?_⟩
      by_cases hend : s + 1 = mb.size
      · rw [if_pos hend, hend, Nat.sub_self]
        exact contents_of_le (Nat.zero_le _)
      · rw [if_neg hend]
        exact contents_of_gt (show mb.head < s + 1 by lia)
  | lower order hs =>
      have hlt : s < mb.head := by
        by_contra hge
        rw [show mb.head - s = 0 by lia] at hall
        cases hall
      rw [window_succ mb.mem hlt] at hall
      cases hall
      refine ⟨hlt, rfl, ?_⟩
      rw [if_neg (by lia)]
      exact contents_of_le hlt

theorem Ahead.nil {s finish : Nat} (h : Ahead mb s finish []) : ¬ s < finish := by
  generalize hall : ([] : Bytes) = all at h
  intro hlt
  have hlen := congrArg List.length hall
  cases h with
  | straight order hs =>
      rw [window_length, List.length_nil] at hlen
      lia
  | upper order hs hlt =>
      rw [List.length_append, window_length, window_length, List.length_nil] at hlen
      lia
  | lower order hs =>
      rw [window_length, List.length_nil] at hlen
      lia

theorem Ahead.next {s finish : Nat} {c : UInt8} {rest : Bytes}
    (h : Ahead mb s finish (c :: rest))
    (honce : mb.head < mb.tail -> 0 < mb.head -> rest ≠ []) :
    if s + 1 = finish ∧ mb.tail > mb.head then Ahead mb 0 mb.head rest
    else Ahead mb (s + 1) finish rest := by
  generalize hall : c :: rest = all at h
  cases h with
  | straight order hs =>
      have hlt : s < mb.head := by
        by_contra hge
        rw [show mb.head - s = 0 by lia] at hall
        cases hall
      rw [window_succ mb.mem hlt] at hall
      cases hall
      rw [if_neg (by lia)]
      exact .straight order hlt
  | upper order hs hlt =>
      rw [window_succ mb.mem hlt] at hall
      cases hall
      split
      · rename_i hend
        rw [hend.left, Nat.sub_self]
        exact .lower order (Nat.zero_le _)
      · exact .upper order (by lia) (by lia)
  | lower order hs =>
      have hlt : s < mb.head := by
        by_contra hge
        rw [show mb.head - s = 0 by lia] at hall
        cases hall
      rw [window_succ mb.mem hlt] at hall
      cases hall
      have hmore := honce order (by lia)
      rw [if_neg]
      · exact .lower order hlt
      · rintro ⟨hend, _⟩
        rw [hend, Nat.sub_self] at hmore
        exact hmore rfl

/-- The scan does not read the lower segment again: there is none, the line ends, or
the room is used up before. -/
def Once (mb : Membuf) (stop : UInt8 -> Bool) (room : Nat) (rest : Bytes) : Prop :=
  mb.head < mb.tail -> 0 < mb.head ->
    (exists c, c ∈ rest ∧ stop c = true) ∨ room < rest.length

theorem Once.next {stop : UInt8 -> Bool} {room : Nat} {c : UInt8} {rest : Bytes}
    (h : Once mb stop (room + 1) (c :: rest)) (hc : stop c = false) :
    Once mb stop room rest := by
  intro horder hhead
  rcases h horder hhead with ⟨d, hd, hstop⟩ | hlt
  · rcases List.mem_cons.mp hd with rfl | hd
    · rw [hc] at hstop
      cases hstop
    · exact Or.inl ⟨d, hd, hstop⟩
  · rw [List.length_cons] at hlt
    exact Or.inr (by lia)

structure Scanned (mb : Membuf) (len : Nat) (out : Nat -> UInt8) (rest : Bytes)
    (line : Bytes × Bool) (scan : Scan) : Prop where
  ok : scan.ok = line.2
  str : scan.str = if line.2 then scan.len - 1 else scan.len
  stored : scan.out = overwrite out len line.1
  read : scan.len = len + line.1.length
  contents : (wrapTail mb scan.s).contents = rest.drop line.1.length

theorem Scanned.cons {len : Nat} {out : Nat -> UInt8} {c : UInt8} {rest : Bytes}
    {line : Bytes × Bool} {scan : Scan}
    (h : Scanned mb (len + 1) (overwrite out len [c]) rest line scan) :
    Scanned mb len out (c :: rest) (c :: line.1, line.2) scan := by
  refine ⟨h.ok, h.str, ?_, ?_, h.contents⟩
  · rw [h.stored]
    exact overwrite_append out len [c] line.1
  · rw [h.read, List.length_cons]
    lia

theorem readlineLoop_once (hi : Inv mb) {room s finish : Nat} {rest : Bytes}
    (h : Ahead mb s finish rest) (honce : Once mb (lineEnd minch) room rest) (len : Nat)
    (out : Nat -> UInt8) :
    Scanned mb len out rest (takeLine (lineEnd minch) room rest)
      (readlineLoop mb minch room len s finish out) := by
  have hstay : Scanned mb len out rest ([], false) ⟨len, len, s, false, out⟩ :=
    ⟨rfl, rfl, (overwrite_nil out len).symm, rfl, h.contents hi⟩
  induction room generalizing len s finish rest out with
  | zero => exact hstay
  | succ room ih =>
      rw [readlineLoop]
      cases rest with
      | nil =>
          rw [if_neg h.nil]
          exact hstay
      | cons c rest =>
          rcases h.cons hi with ⟨hlt, hc, hcontents⟩
          rw [if_pos hlt, takeLine, hc]
          dsimp only
          cases hstop : lineEnd minch c with
          | true => exact ⟨rfl, rfl, rfl, rfl, hcontents⟩
          | false =>
              have hrest := honce.next hstop
              have hmore : mb.head < mb.tail -> 0 < mb.head -> rest ≠ [] := by
                rintro horder hhead rfl
                rcases hrest horder hhead with ⟨_, hmem, _⟩ | hlen
                · cases hmem
                · cases hlen
              have hnext := h.next hmore
              rw [if_neg (by simp), if_neg (by simp)]
              split at hnext
              · rename_i hwrap
                rw [if_pos hwrap]
                exact (ih hnext hrest _ _ ⟨rfl, rfl, (overwrite_nil _ _).symm, rfl,
                  hnext.contents hi⟩).cons
              · rename_i hstraight
                rw [if_neg hstraight]
                exact (ih hnext hrest _ _ ⟨rfl, rfl, (overwrite_nil _ _).symm, rfl,
                  hnext.contents hi⟩).cons

/-- In the lower segment of data without a line end, the scan goes round. -/
theorem readlineLoop_round (hwrapped : mb.head < mb.tail)
    (hnone : forall a, a < mb.head -> lineEnd minch (mb.mem a) = false) {room len s : Nat}
    (hs : s < mb.head) (out : Nat -> UInt8) :
    (readlineLoop mb minch room len s mb.head out).ok = false ∧
      (readlineLoop mb minch room len s mb.head out).s < mb.head := by
  induction room generalizing len s out with
  | zero => exact ⟨rfl, hs⟩
  | succ room ih =>
      rw [readlineLoop, if_pos hs]
      dsimp only
      rw [hnone s hs, if_neg (by simp)]
      split
      · exact ih (by lia) _
      · rename_i hnext
        exact ih (by lia) _

theorem readlineLoop_again (hwrapped : mb.head < mb.tail) (hhead : 0 < mb.head)
    {room len s : Nat} (hs : mb.tail ≤ s) (hlt : s < mb.size)
    (hnone : forall a, a < mb.head -> lineEnd minch (mb.mem a) = false)
    (hupper : forall a, s ≤ a -> a < mb.size -> lineEnd minch (mb.mem a) = false)
    (hroom : mb.size - s ≤ room) (out : Nat -> UInt8) :
    (readlineLoop mb minch room len s mb.size out).ok = false ∧
      (readlineLoop mb minch room len s mb.size out).s < mb.head := by
  induction room generalizing len s out with
  | zero => lia
  | succ room ih =>
      rw [readlineLoop, if_pos hlt]
      dsimp only
      rw [hupper s (Nat.le_refl s) hlt, if_neg (by simp)]
      split
      · exact readlineLoop_round hwrapped hnone hhead _
      · rename_i hnext
        exact ih (by lia) (by lia) (fun a ha => hupper a (by lia)) (by lia) _

theorem ahead_start (hi : Inv mb) :
    Ahead mb mb.tail (if mb.head ≥ mb.tail then mb.head else mb.size) mb.contents := by
  by_cases horder : mb.tail ≤ mb.head
  · rw [if_pos horder, contents_of_le horder]
    exact .straight horder horder
  · rw [if_neg horder, contents_of_gt (by lia)]
    exact .upper (by lia) (Nat.le_refl _) hi.tail

end

/-!
## Reading a line
-/

/-- The call reads one line of the queue: the line if it ends within the room, else
nothing or, unless it must fit, as much of the queue as there is room for. -/
structure ReadsLine (mb : Membuf) (out : Nat -> UInt8) (maxlen : Nat) (minch : Int)
    (mustFit : Bool) (line : Line) : Prop where
  fits (i : Nat) (h : mb.contents.findIdx? (lineEnd minch) = some i)
      (room : i + 1 ≤ maxlen - 1) :
    line.ret = i + 1 ∧ line.out = overwrite out 0 (mb.contents.take i ++ [0]) ∧
      line.mb.contents = mb.contents.drop (i + 1)
  refuses
      (h : forall i, mb.contents.findIdx? (lineEnd minch) = some i -> maxlen - 1 ≤ i)
      (fit : mustFit = true) :
    line.ret = 0 ∧ line.mb = mb
  cuts (h : forall i, mb.contents.findIdx? (lineEnd minch) = some i -> maxlen - 1 ≤ i)
      (fit : mustFit = false) (n : Nat) (hn : n = min mb.contents.length (maxlen - 1)) :
    line.ret = n ∧ line.out = overwrite out 0 (mb.contents.take n ++ [0]) ∧
      line.mb.contents = mb.contents.drop n

/-- Wrapped data without a line end that does not fill the room, of which as much as
there is room for is asked. -/
structure Rereads (mb : Membuf) (maxlen : Nat) (minch : Int) (mustFit : Bool) : Prop where
  wrapped : mb.head < mb.tail
  lower : 0 < mb.head
  room : mb.contents.length ≤ maxlen - 1
  noEnd : mb.contents.findIdx? (lineEnd minch) = none
  cut : mustFit = false

section

variable {mb : Membuf} {maxlen : Nat} {minch : Int} {mustFit : Bool}

theorem overwrite_last (mem : Nat -> UInt8) (data : Bytes) (a b : UInt8) :
    overwrite (overwrite mem 0 (data ++ [a])) data.length [b] =
      overwrite mem 0 (data ++ [b]) := by
  funext x
  by_cases hx : x = data.length
  · subst hx
    simp [overwrite]
  · have hlt : x < data.length + 1 <-> x < data.length := by lia
    have hout : ¬ (data.length ≤ x ∧ x < data.length + [b].length) := by
      rw [List.length_singleton]
      lia
    rw [overwrite, if_neg hout]
    simp only [overwrite, Nat.zero_le, true_and, Nat.zero_add, Nat.sub_zero,
      List.length_append, List.length_singleton, hlt]
    split
    · rename_i h
      rw [List.getD_append _ _ _ _ h, List.getD_append _ _ _ _ h]
    · rfl

theorem readline_fits (hi : Inv mb) (out : Nat -> UInt8) {i : Nat}
    (h : mb.contents.findIdx? (lineEnd minch) = some i) (room : i < maxlen - 1) :
    let line := readline mb out maxlen minch mustFit
    line.ret = i + 1 ∧ line.out = overwrite out 0 (mb.contents.take i ++ [0]) ∧
      line.mb.contents = mb.contents.drop (i + 1) := by
  rcases List.findIdx?_eq_some_iff_getElem.mp h with ⟨hlt, hstop, _⟩
  have honce : Once mb (lineEnd minch) (maxlen - 1) mb.contents := fun _ _ =>
    Or.inl ⟨_, List.getElem_mem hlt, hstop⟩
  have hscan := readlineLoop_once hi (ahead_start hi) honce 0 out
  rw [takeLine_fits h room] at hscan
  have hlen : (mb.contents.take (i + 1)).length = i + 1 := by
    rw [List.length_take]
    lia
  unfold readline
  dsimp only
  generalize readlineLoop mb minch (maxlen - 1) 0 mb.tail _ out = scan at hscan ⊢
  have hread : scan.len = i + 1 := by rw [hscan.read, hlen, Nat.zero_add]
  have hstr : scan.str = (mb.contents.take i).length := by
    rw [hscan.str, if_pos rfl, hread, List.length_take]
    lia
  rw [hscan.ok, if_neg (by simp)]
  refine ⟨hread, ?_, ?_⟩
  · dsimp only
    rw [hscan.stored, hstr]
    dsimp only
    rw [List.take_add_one, List.getElem?_eq_getElem hlt]
    exact overwrite_last out _ _ 0
  · rw [<- hlen]
    exact hscan.contents

theorem readline_refuses (out : Nat -> UInt8)
    (h : (readlineLoop mb minch (maxlen - 1) 0 mb.tail
      (if mb.head ≥ mb.tail then mb.head else mb.size) out).ok = false) :
    (readline mb out maxlen minch true).ret = 0 ∧
      (readline mb out maxlen minch true).mb = mb := by
  unfold readline
  dsimp only
  rw [h]
  exact ⟨rfl, rfl⟩

/-- Wrapped data without a line end that fits into the room: the scan is caught in
the lower segment. -/
theorem scan_rereads (hi : Inv mb) (hwrapped : mb.head < mb.tail) (hlower : 0 < mb.head)
    (hroom : mb.contents.length ≤ maxlen - 1)
    (hnone : mb.contents.findIdx? (lineEnd minch) = none) (out : Nat -> UInt8) :
    let scan := readlineLoop mb minch (maxlen - 1) 0 mb.tail
      (if mb.head ≥ mb.tail then mb.head else mb.size) out
    scan.ok = false ∧ scan.s < mb.head := by
  rw [contents_of_gt hwrapped] at hroom hnone
  rw [List.findIdx?_eq_none_iff] at hnone
  rw [List.length_append, window_length, window_length] at hroom
  rw [if_neg (by lia)]
  refine readlineLoop_again hwrapped hlower (Nat.le_refl _) hi.tail ?_ ?_ (by lia) out
  · intro a ha
    refine hnone _ (List.mem_append_right _ ?_)
    refine List.mem_map.mpr ⟨a, List.mem_range.mpr ha, ?_⟩
    rw [Nat.zero_add]
  · intro a hta hlt
    refine hnone _ (List.mem_append_left _ ?_)
    refine List.mem_map.mpr ⟨a - mb.tail, List.mem_range.mpr (by lia), ?_⟩
    rw [Nat.add_sub_cancel' hta]

/-- Without a line end within the room, nothing is found or it is read again. -/
theorem scan_cut (hi : Inv mb) (out : Nat -> UInt8)
    (h : forall i, mb.contents.findIdx? (lineEnd minch) = some i -> maxlen - 1 ≤ i) :
    let scan := readlineLoop mb minch (maxlen - 1) 0 mb.tail
      (if mb.head ≥ mb.tail then mb.head else mb.size) out
    Once mb (lineEnd minch) (maxlen - 1) mb.contents ∧
        Scanned mb 0 out mb.contents (mb.contents.take (maxlen - 1), false) scan ∨
      Rereads mb maxlen minch false ∧ scan.ok = false ∧ scan.s < mb.head := by
  by_cases honce : Once mb (lineEnd minch) (maxlen - 1) mb.contents
  · have hscan := readlineLoop_once hi (ahead_start hi) honce 0 out
    rw [takeLine_cut h] at hscan
    exact Or.inl ⟨honce, hscan⟩
  · unfold Once at honce
    rcases Classical.not_imp.mp honce with ⟨hwrapped, hrest⟩
    rcases Classical.not_imp.mp hrest with ⟨hlower, hneither⟩
    rcases not_or.mp hneither with ⟨hany, hmore⟩
    have hnone : forall c, c ∈ mb.contents -> ¬ lineEnd minch c = true :=
      fun c hc hstop => hany ⟨c, hc, hstop⟩
    have hroom := Nat.not_lt.mp hmore
    have hend : mb.contents.findIdx? (lineEnd minch) = none := by
      rw [List.findIdx?_eq_none_iff]
      intro c hc
      exact Bool.eq_false_iff.mpr (hnone c hc)
    exact Or.inr ⟨⟨hwrapped, hlower, hroom, hend, rfl⟩,
      scan_rereads hi hwrapped hlower hroom hend out⟩

/-- The call reads one line exactly if the scan does not read the lower segment again
for a line that need not fit. -/
theorem readline_iff (hi : Inv mb) (out : Nat -> UInt8) (maxlen : Nat) (minch : Int)
    (mustFit : Bool) :
    ReadsLine mb out maxlen minch mustFit (readline mb out maxlen minch mustFit) <->
      ¬ Rereads mb maxlen minch mustFit := by
  refine ⟨?_, ?_⟩
  · rintro h ⟨hwrapped, hlower, hroom, hend, rfl⟩
    have hcut := h.cuts (fun i hs => by rw [hend] at hs; cases hs) rfl _ rfl
    rcases scan_rereads hi hwrapped hlower hroom hend out with ⟨hok, hs⟩
    have hnil : (readline mb out maxlen minch false).mb.contents = [] := by
      rw [hcut.right.right, Nat.min_eq_left hroom, List.drop_length]
    have hhead := hi.head
    unfold readline at hnil
    dsimp only at hnil hok hs
    rw [hok, if_neg (by simp)] at hnil
    dsimp only at hnil
    rw [if_neg (by lia), contents_of_le (Nat.le_of_lt hs)] at hnil
    have hlen := congrArg List.length hnil
    rw [window_length, List.length_nil] at hlen
    dsimp only at hlen
    lia
  · intro hno
    refine ⟨fun i h room => readline_fits hi out h (by lia), ?_, ?_⟩
    · rintro h rfl
      refine readline_refuses out ?_
      rcases scan_cut hi out h with ⟨_, hscan⟩ | ⟨_, hok, _⟩
      · exact hscan.ok
      · exact hok
    · rintro h rfl n hn
      rcases scan_cut hi out h with ⟨_, hscan⟩ | ⟨hagain, _⟩
      · have htake : mb.contents.take (maxlen - 1) = mb.contents.take n := by
          rw [hn, Nat.min_comm, List.take_eq_take_min]
        have hlen : (mb.contents.take n).length = n := by
          rw [List.length_take]
          lia
        rw [htake] at hscan
        unfold readline
        dsimp only
        generalize readlineLoop mb minch (maxlen - 1) 0 mb.tail _ out = scan at hscan ⊢
        have hread : scan.len = n := by rw [hscan.read, hlen, Nat.zero_add]
        have hstr : scan.str = 0 + (mb.contents.take n).length := by
          rw [hscan.str, hlen, if_neg (by simp), hread, Nat.zero_add]
        rw [hscan.ok, if_neg (by simp)]
        refine ⟨hread, ?_, ?_⟩
        · dsimp only
          rw [hscan.stored, hstr]
          exact overwrite_append out 0 _ _
        · have hcontents := hscan.contents
          dsimp only at hcontents
          rw [hlen] at hcontents
          exact hcontents
      · exact absurd hagain hno

end

/-!
## Wrapped text
-/

def wrappedText : Membuf :=
  (put (get (put (init 16 4 fun _ => 0) (str "xyz")).2 3).2 (str "ab")).2

theorem inv_wrappedText : Inv wrappedText := ⟨by decide, by decide, by decide, by decide⟩

theorem readline_iff_wrapped :
    ReadsLine wrappedText (fun _ => 0) 5 0 true (readline wrappedText (fun _ => 0) 5 0 true) <->
      ¬ Rereads wrappedText 5 0 true :=
  readline_iff inv_wrappedText (fun _ => 0) 5 0 true

theorem rereads_wrappedText :
    (readline wrappedText (fun _ => 0) 5 0 false).ret = 4 ∧
      window (readline wrappedText (fun _ => 0) 5 0 false).out 0 5 = str "abbb" ++ [0] ∧
      (readline wrappedText (fun _ => 0) 5 0 false).mb.contents = str "b" := by
  decide +kernel

/-- The byte at the start is stored three times, and stays in the queue. -/
theorem wrapped_text_read_twice :
    wrappedText.contents = str "ab" ∧
      (readline wrappedText (fun _ => 0) 5 0 false).ret = 4 ∧
      ¬ ReadsLine wrappedText (fun _ => 0) 5 0 false
        (readline wrappedText (fun _ => 0) 5 0 false) := by
  refine ⟨by decide +kernel, rereads_wrappedText.left, fun h => ?_⟩
  have hcut := h.cuts (fun i hs => by
    rw [show wrappedText.contents.findIdx? (lineEnd 0) = none by decide +kernel] at hs
    cases hs) rfl 2 (by decide +kernel)
  rw [rereads_wrappedText.left] at hcut
  exact absurd hcut.left (by decide)

end Membuf
end UBoot
end Hlk7621
