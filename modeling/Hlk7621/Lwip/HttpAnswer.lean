import Hlk7621.Lwip.HttpClient

/-!
# The header of an HTTP answer

Where the client has received a part of an answer, each search of its parser finds what it
finds in the header, as soon as that has arrived.  So the status and the length do not
depend on how the answer is cut into chains.
-/

namespace Hlk7621
namespace Lwip
namespace Httpc

/-!
## Searching what has arrived
-/

theorem firstMatch_spec {needle hay : Bytes} {i : Nat} (h : firstMatch needle hay = some i) :
    needle <+: hay.drop i ∧ forall j, j < i -> ¬ needle <+: hay.drop j := by
  induction hay generalizing i with
  | nil =>
      rw [firstMatch] at h
      split at h
      · cases h
        rename_i hnil
        exact ⟨by rw [hnil]; exact List.nil_prefix, nofun⟩
      · cases h
  | cons b rest ih =>
      rw [firstMatch] at h
      split at h
      · rename_i hhere
        cases h
        exact ⟨List.isPrefixOf_iff_prefix.mp hhere, nofun⟩
      · rename_i hnot
        rcases Option.map_eq_some_iff.mp h with ⟨i', hi', rfl⟩
        rcases ih hi' with ⟨hat, hbefore⟩
        refine ⟨hat, fun j hj => ?_⟩
        cases j with
        | zero => exact fun hpre => hnot (List.isPrefixOf_iff_prefix.mpr hpre)
        | succ j => exact hbefore j (by lia)

theorem firstMatch_of_spec {needle hay : Bytes} {i : Nat} (hi : i ≤ hay.length)
    (hat : needle <+: hay.drop i) (hbefore : forall j, j < i -> ¬ needle <+: hay.drop j) :
    firstMatch needle hay = some i := by
  induction hay generalizing i with
  | nil =>
      have hzero : i = 0 := Nat.le_zero.mp hi
      subst hzero
      rw [firstMatch, if_pos (List.prefix_nil.mp hat)]
  | cons b rest ih =>
      rw [firstMatch]
      cases i with
      | zero => exact if_pos (List.isPrefixOf_iff_prefix.mpr hat)
      | succ i =>
          have hnot : ¬ needle.isPrefixOf (b :: rest) = true := fun hpre =>
            hbefore 0 (by lia) (List.isPrefixOf_iff_prefix.mp hpre)
          rw [if_neg hnot, ih (Nat.le_of_succ_le_succ hi) hat fun j hj => hbefore (j + 1) (by lia)]
          rfl

theorem firstMatch_none {needle hay : Bytes} :
    firstMatch needle hay = none <-> ¬ needle <:+: hay := by
  induction hay with
  | nil =>
      rw [firstMatch, List.infix_nil]
      split <;> simp_all
  | cons b rest ih =>
      rw [firstMatch, List.infix_cons_iff]
      by_cases hpre : needle.isPrefixOf (b :: rest) = true
      · rw [if_pos hpre]
        simp [List.isPrefixOf_iff_prefix.mp hpre]
      · rw [if_neg hpre, Option.map_eq_none_iff, ih]
        rw [List.isPrefixOf_iff_prefix] at hpre
        tauto

/-- What is found in a string is found there in every front of it that is long enough. -/
theorem firstMatch_prefix {a b needle : Bytes} {i : Nat} (hab : a <+: b)
    (h : firstMatch needle b = some i) (hneedle : needle ≠ []) :
    firstMatch needle a = if i + needle.length ≤ a.length then some i else none := by
  rcases firstMatch_spec h with ⟨hat, hbefore⟩
  have hfront : forall j, needle <+: a.drop j -> needle <+: b.drop j := by
    intro j hj
    rcases hab with ⟨t, rfl⟩
    exact hj.trans (List.drop_append ▸ List.prefix_append _ _)
  by_cases hroom : i + needle.length ≤ a.length
  · rw [if_pos hroom]
    refine firstMatch_of_spec (by lia) ?_ fun j hj hpre => hbefore j hj (hfront j hpre)
    have hsame : (a.drop i).take needle.length = (b.drop i).take needle.length := by
      rcases hab with ⟨t, rfl⟩
      rw [List.drop_append_of_le_length (by lia), List.take_append_of_le_length (by simp; lia)]
    rw [List.prefix_iff_eq_take.mp hat, <- hsame]
    exact List.take_prefix _ _
  · rw [if_neg hroom]
    by_contra hsome
    rcases Option.ne_none_iff_exists'.mp hsome with ⟨j, hj⟩
    rcases firstMatch_spec hj with ⟨hat', _⟩
    have hlen := hat'.length_le
    have hpos := List.length_pos_iff.mpr hneedle
    rw [List.length_drop] at hlen
    by_cases hlt : j < i
    · exact hbefore j hlt (hfront j hat')
    · lia

theorem firstMatch_mono {a b needle : Bytes} {i : Nat} (hab : a <+: b)
    (h : firstMatch needle a = some i) (hneedle : needle ≠ []) :
    firstMatch needle b = some i := by
  have hin : needle <:+: a := by
    by_contra hnot
    rw [firstMatch_none.mpr hnot] at h
    cases h
  cases hb : firstMatch needle b with
  | none => exact absurd (hin.trans hab.isInfix) (firstMatch_none.mp hb)
  | some j =>
      have hfront := firstMatch_prefix hab hb hneedle
      rw [h] at hfront
      split at hfront
      · exact hfront.symm
      · cases hfront

section Fronts

variable {a b needle : Bytes} {i start : Nat}

theorem drop_front (hab : a <+: b) (n : Nat) : a.drop n <+: b.drop n := by
  rcases hab with ⟨t, rfl⟩
  rw [List.drop_append]
  exact List.prefix_append _ _

theorem pbufMemfind_ge (h : pbufMemfind a needle start = some i) : start ≤ i := by
  unfold pbufMemfind at h
  split at h
  · rcases Option.map_eq_some_iff.mp h with ⟨j, _, rfl⟩
    exact Nat.le_add_right _ _
  · cases h

theorem pbufMemfind_fits (h : pbufMemfind a needle start = some i) (hneedle : needle ≠ []) :
    i + needle.length ≤ a.length := by
  have hpos := List.length_pos_iff.mpr hneedle
  unfold pbufMemfind at h
  split at h
  · rename_i hroom
    rcases Option.map_eq_some_iff.mp h with ⟨j, hj, rfl⟩
    have hlen := (firstMatch_spec hj).left.length_le
    rw [List.length_drop, List.length_drop] at hlen
    lia
  · cases h

theorem pbufMemfind_prefix (hab : a <+: b) (h : pbufMemfind b needle start = some i)
    (hneedle : needle ≠ []) :
    pbufMemfind a needle start = if i + needle.length ≤ a.length then some i else none := by
  have hge := pbufMemfind_ge h
  have hpos := List.length_pos_iff.mpr hneedle
  unfold pbufMemfind at h ⊢
  split at h
  · rcases Option.map_eq_some_iff.mp h with ⟨j, hj, rfl⟩
    by_cases hroom : needle.length + start ≤ a.length
    · rw [if_pos hroom, firstMatch_prefix (drop_front hab start) hj hneedle, List.length_drop]
      by_cases hfits : start + j + needle.length ≤ a.length
      · rw [if_pos hfits, if_pos (by lia)]
        rfl
      · rw [if_neg hfits, if_neg (by lia)]
        rfl
    · rw [if_neg hroom, if_neg (by lia)]
  · cases h

theorem pbufMemfind_mono (hab : a <+: b) (h : pbufMemfind a needle start = some i)
    (hneedle : needle ≠ []) : pbufMemfind b needle start = some i := by
  have hlen := hab.length_le
  unfold pbufMemfind at h ⊢
  split at h
  · rcases Option.map_eq_some_iff.mp h with ⟨j, hj, rfl⟩
    rw [if_pos (by lia), firstMatch_mono (drop_front hab start) hj hneedle]
    rfl
  · cases h

theorem pbufMemfind_none (hab : a <+: b) (h : pbufMemfind b needle start = none)
    (hneedle : needle ≠ []) : pbufMemfind a needle start = none := by
  cases ha : pbufMemfind a needle start with
  | none => rfl
  | some i =>
      rw [pbufMemfind_mono hab ha hneedle] at h
      cases h

theorem copiedNumber_front (hab : a <+: b) {room off len : Nat} (h : off + len ≤ a.length) :
    copiedNumber a room off len = copiedNumber b room off len := by
  have hsame : pbufCopyPartial a len off = pbufCopyPartial b len off := by
    have hle := Nat.mod_le len (2 ^ 16)
    rcases hab with ⟨t, rfl⟩
    unfold pbufCopyPartial
    rw [List.drop_append_of_le_length (by lia), List.take_append_of_le_length (by simp; lia)]
  unfold copiedNumber
  rw [hsame]

end Fronts

/-!
## Answers
-/

/-- An answer whose header is read alike whatever part of the body follows it: the status
line has a reason phrase, so that the number ends in it, the numbers fit the arrays they are
copied to, and if the header has no `Content-Length` the body does not look as if it had. -/
structure Answer where
  header : Bytes
  body : Bytes
  status : Nat
  /-- The number behind the first `Content-Length`. -/
  field : Option Nat
  line : Nat
  space1 : Nat
  space2 : Nat
  small : header.length < 2 ^ 15
  protocol : header.take 5 = str "HTTP/" ∧ header[6]? = some 46
  lineEnd : pbufMemfind header crlf 0 = some line
  number : pbufMemfind header [32] 0 = some space1
  phrase : pbufMemfind header [32] (space1 + 1) = some space2 ∧ space2 < line
  hstatus : copiedNumber header 10 (space1 + 1) (space2 - space1 - 1) = .found status ∧
    0 < status ∧ status ≤ 0xffff
  ends : pbufMemfind header (crlf ++ crlf) 0 = some (header.length - 4)
  hfield : match field with
    | none => pbufMemfind (header ++ body) CONTENT_LENGTH 0 = none
    | some n => exists hdr lineEnd,
        pbufMemfind header CONTENT_LENGTH 0 = some hdr ∧
          pbufMemfind header crlf hdr = some lineEnd ∧
          copiedNumber header 16 (hdr + 16) (lineEnd - hdr - 16) = .found n

namespace Answer

variable (an : Answer)

def stream : Bytes := an.header ++ an.body

/-- The length that the client goes by; a negative `int` is none. -/
def announced : Option Nat := an.field.filter fun n => n < 2 ^ 31

def contentLen : Nat := an.announced.getD HTTPC_CONTENT_LEN_INVALID

variable {an} {xs : Bytes}

theorem header_prefix : an.header <+: an.stream := List.prefix_append _ _

theorem found_in {needle : Bytes} {start i : Nat} (hxs : xs <+: an.stream)
    (h : pbufMemfind an.header needle start = some i) (hneedle : needle ≠ []) :
    pbufMemfind xs needle start = if i + needle.length ≤ xs.length then some i else none :=
  pbufMemfind_prefix hxs (pbufMemfind_mono an.header_prefix h hneedle) hneedle

theorem line_gt : 6 < an.line := by
  rcases an.protocol with ⟨htake, hdot⟩
  have hmatch := an.lineEnd
  unfold pbufMemfind at hmatch
  split at hmatch
  · rcases Option.map_eq_some_iff.mp hmatch with ⟨j, hj, heq⟩
    have hline : j = an.line := by lia
    rcases (firstMatch_spec hj).left with ⟨t, ht⟩
    rw [List.drop_drop, Nat.zero_add, hline] at ht
    have h13 : an.header[an.line]? = some 13 := by
      rw [<- Nat.add_zero an.line, <- List.getElem?_drop, <- ht]
      rfl
    have h10 : an.header[an.line + 1]? = some 10 := by
      rw [<- List.getElem?_drop, <- ht]
      rfl
    have hname : forall k, k < 5 -> (str "HTTP/")[k]? ≠ some 13 := by decide
    by_contra hle
    rcases Nat.lt_or_ge an.line 5 with hlt | hge
    · apply hname an.line hlt
      rw [<- htake, List.getElem?_take_of_lt hlt, h13]
    · have hcases : an.line = 5 ∨ an.line = 6 := by lia
      rcases hcases with h5 | h6
      · rw [h5, hdot] at h10
        cases h10
      · rw [h6, hdot] at h13
        cases h13
  · cases hmatch

theorem take_eq {n : Nat} (hxs : xs <+: an.stream) (hn : n ≤ xs.length)
    (hheader : n ≤ an.header.length) : xs.take n = an.header.take n := by
  rcases hxs with ⟨t, ht⟩
  have hfront : xs.take n = (xs ++ t).take n := (List.take_append_of_le_length hn).symm
  rw [hfront, ht, Answer.stream,
    List.take_append_of_le_length hheader]

theorem parse_status (hxs : xs <+: an.stream) :
    httpParseResponseStatus xs =
      if an.line + 2 ≤ xs.length then .found an.status else .wait := by
  have hlineEnd := found_in hxs an.lineEnd (by decide)
  have hspace1 := found_in hxs an.number (by decide)
  have hspace2 := found_in hxs an.phrase.left (by decide)
  have hge := pbufMemfind_ge an.phrase.left
  have hphrase := an.phrase.right
  have hgt := an.line_gt
  have hfits := pbufMemfind_fits an.lineEnd (by decide)
  have hcrlf : crlf.length = 2 := rfl
  have hblank : ([32] : Bytes).length = 1 := rfl
  rw [hcrlf] at hlineEnd hfits
  rw [hblank] at hspace1 hspace2
  unfold httpParseResponseStatus
  by_cases hroom : an.line + 2 ≤ xs.length
  · have hdot : xs[6]? = some 46 := by
      rw [<- List.getElem?_take_of_lt (by lia : 6 < 7), take_eq hxs (by lia) (by lia),
        List.getElem?_take_of_lt (by lia), an.protocol.right]
    have hsmall := an.small
    have hnumber : copiedNumber xs 10 (an.space1 + 1) (sub32 an.space2 (an.space1 + 1)) =
        .found an.status := by
      rw [sub32_of_le hge (by lia), <- Nat.sub_sub, copiedNumber_front hxs (by lia),
        <- copiedNumber_front an.header_prefix (by lia), an.hstatus.left]
    rw [if_pos hroom] at hlineEnd
    rw [if_pos (by lia)] at hspace1 hspace2
    rw [hlineEnd, hspace1]
    dsimp only
    rw [take_eq hxs (by lia) (by lia), an.protocol.left, if_pos ⟨rfl, hdot⟩, hspace2,
      if_pos hroom]
    dsimp only [Option.getD_some]
    rw [hnumber]
    exact if_pos an.hstatus.right
  · rw [if_neg hroom] at hlineEnd
    rw [hlineEnd, if_neg hroom]

theorem content_length (hxs : xs <+: an.stream) (hroom : an.header.length ≤ xs.length) :
    contentLength xs = match an.announced with
      | none => .wait
      | some n => .found n := by
  have hfield := an.hfield
  unfold contentLength announced
  cases hsome : an.field with
  | none =>
      rw [hsome] at hfield
      rw [pbufMemfind_none hxs hfield (by decide)]
      rfl
  | some n =>
      rw [hsome] at hfield
      rcases hfield with ⟨hdr, lineEnd, hhdr, hline, hnumber⟩
      have hge := pbufMemfind_ge hline
      have hfits := pbufMemfind_fits hline (by decide)
      have hhdrFits := pbufMemfind_fits hhdr (by decide)
      have hcrlf : crlf.length = 2 := rfl
      have hname : CONTENT_LENGTH.length = 16 := rfl
      rw [hcrlf] at hfits
      rw [hname] at hhdrFits
      have hhdrXs := found_in hxs hhdr (by decide)
      have hlineXs := found_in hxs hline (by decide)
      rw [hname, if_pos (by lia)] at hhdrXs
      rw [hcrlf, if_pos (by lia)] at hlineXs
      rw [hhdrXs]
      dsimp only
      rw [hlineXs]
      dsimp only
      have hcopied : copiedNumber xs 16 (hdr + 16) (lineEnd - hdr - 16) = .found n := by
        rw [copiedNumber_front hxs (by lia),
          <- copiedNumber_front an.header_prefix (by lia), hnumber]
      rw [hcopied]
      dsimp only [Option.filter_some]
      by_cases hn : n < 2 ^ 31
      · rw [if_pos hn, if_pos (decide_eq_true hn)]
      · rw [if_neg hn, if_neg (by simpa using hn)]

theorem wrong_length {n : Nat} :
    an.contentLen ≠ HTTPC_CONTENT_LEN_INVALID ∧ an.contentLen ≠ n <->
      ¬ (an.announced = none ∨ an.announced = some n) := by
  unfold contentLen
  cases hsome : an.announced with
  | none => simp
  | some k =>
      have hk := (Option.filter_eq_some_iff.mp hsome).right
      have hvalid : k ≠ HTTPC_CONTENT_LEN_INVALID := by
        unfold HTTPC_CONTENT_LEN_INVALID
        simp at hk
        lia
      simp [hvalid]

theorem wait_headers (hxs : xs <+: an.stream) :
    httpWaitHeaders xs =
      if an.header.length ≤ xs.length then .done an.contentLen an.header.length else .wait := by
  have hends := found_in hxs an.ends (by decide)
  have hfits := pbufMemfind_fits an.ends (by decide)
  have hlen : (crlf ++ crlf).length = 4 := rfl
  rw [hlen] at hends hfits
  unfold httpWaitHeaders
  by_cases hroom : an.header.length ≤ xs.length
  · rw [if_pos (by lia)] at hends
    rw [hends, if_pos hroom]
    dsimp only
    rw [content_length hxs hroom, contentLen, Nat.sub_add_cancel (by lia)]
    cases an.announced with
    | none => rfl
    | some n => rfl
  · rw [if_neg (by lia)] at hends
    rw [hends, if_neg hroom]

end Answer

end Httpc
end Lwip
end Hlk7621
