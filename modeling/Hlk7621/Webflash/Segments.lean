import Hlk7621.Webflash.Answered
import Hlk7621.Webflash.Untimed

/-!
# Requests cut into segments

The bytes of a request reach the server in chains of buffers, at several times.  The
header is consumed byte by byte, a body buffer by buffer.  Where the body is not longer than
the header says, the outcome depends on the bytes alone.
-/

namespace Hlk7621
namespace Webflash

variable {E : Type} {P : Platform E} {cb : Call} {w w' : World E}

/-!
## Receiving
-/

def take (P : Platform E) (cb : Call) (data : Bytes) (w : World E) : World E :=
  if w.ctx.client.isNone then w else (consume P cb data w).2

theorem take_answered (h : Answered w) (data : Bytes) : take P cb data w = w := by
  unfold take
  rcases h with hnone | hreplied
  · rw [if_pos (by rw [hnone]; rfl)]
  · split
    · rfl
    · cases data with
      | nil => rfl
      | cons b rest => rw [consume, hreplied]

structure Uploading (w : World E) : Prop where
  client : w.ctx.client.isSome
  halted : w.halted = none
  rx : w.ctx.rxState = .upload
  missing : w.ctx.uploadSize < w.ctx.contentLength
  room : w.ctx.loadAddr + w.ctx.contentLength < 2 ^ 32

structure Acting (w : World E) : Prop where
  client : w.ctx.client.isSome
  halted : w.halted = none
  rx : w.ctx.rxState = .body
  missing : w.ctx.body.length < w.ctx.contentLength
  room : w.ctx.contentLength < BODY_SIZE

structure Opening (w : World E) : Prop where
  client : w.ctx.client.isSome
  halted : w.halted = none
  rx : w.ctx.rxState = .headers
  load : w.ctx.loadAddr < 2 ^ 32

def Behind (w : World E) : Prop := Answered w ∨ Uploading w ∨ Acting w

def Consistent (w : World E) : Prop := Opening w ∨ Behind w

/-- The bytes behind a header are no more than it announces, and those of a body no more
than are missing. -/
def Owed (w : World E) (data : Bytes) : Prop :=
  Answered w ∨
    match w.ctx.rxState with
    | .headers => forall header rest size, scanHeader w.ctx.header data = .done header rest ->
        getContentLength header = .ok size -> rest.length ≤ size
    | .upload => data.length ≤ w.ctx.contentLength - w.ctx.uploadSize
    | .body => data.length ≤ w.ctx.contentLength - w.ctx.body.length
    | .replied => True

theorem alike_take (cb cb' : Call) (data : Bytes) (h : Alike w w') :
    Alike (take P cb data w) (take P cb' data w') := by
  have hconsume := (alikeResults_consume (P := P) cb cb' data h).right
  rcases h with ⟨T, rfl⟩
  unfold take
  rw [stamp_client]
  split
  · exact alike_stamp T
  · exact hconsume

structure Splits (P : Platform E) (cb : Call) (xs ys : Bytes) (w : World E) : Prop where
  consistent : Consistent (take P cb xs w)
  owed : Owed (take P cb xs w) ys
  alike : Alike (take P cb (xs ++ ys) w) (take P cb ys (take P cb xs w))

theorem Splits.of_answered {xs ys : Bytes} (h : Answered (take P cb xs w))
    (hsame : Alike (take P cb (xs ++ ys) w) (take P cb xs w)) : Splits P cb xs ys w where
  consistent := .inr (.inl h)
  owed := .inl h
  alike := by rwa [take_answered h]

theorem Splits.nil {ys : Bytes} (h : Consistent w) (hys : Owed w ys) :
    Splits P cb [] ys w := by
  have hnil : take P cb [] w = w := by
    unfold take consume
    exact ite_self w
  refine ⟨?_, ?_, ?_⟩
  · rwa [hnil]
  · rwa [hnil]
  · rw [hnil]
    exact Alike.refl _

theorem take_of_some {data : Bytes} (hclient : w.ctx.client.isSome) :
    take P cb data w = (consume P cb data w).2 := by
  unfold take
  exact if_neg (by simpa [Option.isSome_iff_ne_none] using hclient)

/-- A way of receiving a body: what is missing, how a part is stored, and what is done with
the whole. -/
structure Stage (P : Platform E) (cb : Call) (Inside : World E -> Prop)
    (missing : World E -> Nat) (stored : Bytes -> World E -> World E)
    (finish : World E -> Int × World E) : Prop where
  consistent : forall {w}, Inside w -> Consistent w
  owed : forall {w data}, Inside w -> data.length ≤ missing w -> Owed w data
  client : forall {w}, Inside w -> w.ctx.client.isSome
  consume_eq : forall {w data}, Inside w -> data ≠ [] -> data.length ≤ missing w ->
    consume P cb data w =
      if data.length = missing w then finish (stored data w) else (0, stored data w)
  inside : forall {w data}, Inside w -> data.length < missing w ->
    Inside (stored data w) ∧ missing (stored data w) = missing w - data.length
  append : forall {w xs ys}, Inside w -> (xs ++ ys).length ≤ missing w ->
    Alike (stored (xs ++ ys) w) (stored ys (stored xs w))
  finish_alike : forall {w w'}, Alike w w' -> Alike (finish w).2 (finish w').2
  answered : forall w, Answered (finish w).2

theorem Stage.take_eq {Inside : World E -> Prop} {missing : World E -> Nat}
    {stored : Bytes -> World E -> World E} {finish : World E -> Int × World E}
    (h : Stage P cb Inside missing stored finish) {data : Bytes} (hw : Inside w)
    (hne : data ≠ []) (hdata : data.length ≤ missing w) :
    take P cb data w =
      if data.length = missing w then (finish (stored data w)).2 else stored data w := by
  rw [take_of_some (h.client hw), h.consume_eq hw hne hdata]
  split
  · rfl
  · rfl

theorem Stage.splits {Inside : World E -> Prop} {missing : World E -> Nat}
    {stored : Bytes -> World E -> World E} {finish : World E -> Int × World E}
    (h : Stage P cb Inside missing stored finish) {xs ys : Bytes} (hw : Inside w)
    (hdata : (xs ++ ys).length ≤ missing w) : Splits P cb xs ys w := by
  by_cases hxs : xs = []
  · subst hxs
    exact Splits.nil (h.consistent hw) (h.owed hw hdata)
  · have hlen := hdata
    rw [List.length_append] at hlen
    have htake := h.take_eq hw hxs (by lia)
    by_cases hfull : xs.length = missing w
    · rw [if_pos hfull] at htake
      have hnil : ys = [] := List.length_eq_zero_iff.mp (by lia)
      refine Splits.of_answered ?_ ?_
      · rw [htake]
        exact h.answered _
      · rw [hnil, List.append_nil]
        exact Alike.refl _
    · rw [if_neg hfull] at htake
      rcases h.inside hw (by lia : xs.length < missing w) with ⟨hinside, hmissing⟩
      have hys : ys.length ≤ missing (stored xs w) := by
        rw [hmissing]
        lia
      refine ⟨?_, ?_, ?_⟩
      · rw [htake]
        exact h.consistent hinside
      · rw [htake]
        exact h.owed hinside hys
      · by_cases hne : ys = []
        · rw [hne, List.append_nil, htake]
          unfold take consume
          rw [ite_self]
          exact Alike.refl _
        · rw [htake, h.take_eq hw (by simp [hxs]) hdata, h.take_eq hinside hne hys, hmissing,
            List.length_append]
          by_cases hlast : xs.length + ys.length = missing w
          · rw [if_pos hlast, if_pos (by lia)]
            exact h.finish_alike (h.append hw hdata)
          · rw [if_neg hlast, if_neg (by lia)]
            exact h.append hw hdata

theorem storeUpload_fits (hopen : w.ctx.uploadSize < w.ctx.contentLength)
    (hroom : w.ctx.loadAddr + w.ctx.contentLength < 2 ^ 32) {data : Bytes}
    (hdata : data.length ≤ w.ctx.contentLength - w.ctx.uploadSize) :
    storeUpload P cb data w =
      if w.ctx.uploadSize + data.length = w.ctx.contentLength then
        completeUpload P (storeBytes cb data w)
      else (0, storeBytes cb data w) := by
  have hsize : (storeBytes cb data w).ctx.uploadSize = w.ctx.uploadSize + data.length :=
    u32_of_lt (by lia)
  have hlength : (storeBytes cb data w).ctx.contentLength = w.ctx.contentLength := rfl
  unfold storeUpload
  rw [sub32_of_le (by lia) (by lia), if_neg (by lia)]
  dsimp only
  rw [hsize, hlength]
  by_cases hfull : w.ctx.uploadSize + data.length = w.ctx.contentLength
  · rw [if_neg (by simp [hfull]), if_pos hfull]
  · rw [if_pos hfull, if_neg hfull]

theorem storeBytes_append (hopen : w.ctx.uploadSize < w.ctx.contentLength)
    (hroom : w.ctx.loadAddr + w.ctx.contentLength < 2 ^ 32) {xs ys : Bytes}
    (hdata : (xs ++ ys).length ≤ w.ctx.contentLength - w.ctx.uploadSize) :
    Alike (storeBytes cb (xs ++ ys) w) (storeBytes cb ys (storeBytes cb xs w)) := by
  rw [List.length_append] at hdata
  have hsize : u32 (w.ctx.uploadSize + xs.length) = w.ctx.uploadSize + xs.length :=
    u32_of_lt (by lia)
  have hram : overwrite w.ram (u32 (w.ctx.loadAddr + w.ctx.uploadSize)) (xs ++ ys) =
      overwrite (overwrite w.ram (u32 (w.ctx.loadAddr + w.ctx.uploadSize)) xs)
        (u32 (w.ctx.loadAddr + (w.ctx.uploadSize + xs.length))) ys := by
    rw [u32_of_lt (by lia : w.ctx.loadAddr + w.ctx.uploadSize < 2 ^ 32),
      u32_of_lt (by lia : w.ctx.loadAddr + (w.ctx.uploadSize + xs.length) < 2 ^ 32),
      <- Nat.add_assoc, overwrite_append]
  refine ⟨(storeBytes cb ys (storeBytes cb xs w)).stamps, ?_⟩
  unfold World.stamps storeBytes stamp
  dsimp only
  rw [hsize, hram, List.length_append, Nat.add_assoc]

theorem uploadStage (P : Platform E) (cb : Call) :
    Stage P cb Uploading (fun w => w.ctx.contentLength - w.ctx.uploadSize) (storeBytes cb)
      (completeUpload P) where
  consistent := fun hw => .inr (.inr (.inl hw))
  owed := fun hw hdata => .inr (by rwa [hw.rx])
  client := fun hw => hw.client
  consume_eq := by
    intro w data hw hne hdata
    have hmissing := hw.missing
    cases data with
    | nil => exact absurd rfl hne
    | cons b rest =>
        rw [consume, hw.rx]
        dsimp only
        rw [storeUpload_fits hw.missing hw.room hdata]
        by_cases hfull : (b :: rest).length = w.ctx.contentLength - w.ctx.uploadSize
        · rw [if_pos hfull, if_pos (by lia)]
        · rw [if_neg hfull, if_neg (by lia)]
  inside := by
    intro w data hw hdata
    have hmissing := hw.missing
    have hroom := hw.room
    have hsize : (storeBytes cb data w).ctx.uploadSize = w.ctx.uploadSize + data.length :=
      u32_of_lt (by lia)
    refine ⟨⟨hw.client, hw.halted, hw.rx, ?_, hw.room⟩, ?_⟩
    · rw [hsize]
      show _ < w.ctx.contentLength
      lia
    · rw [hsize]
      show w.ctx.contentLength - _ = _
      lia
  append := fun hw hdata => storeBytes_append hw.missing hw.room hdata
  finish_alike := by
    rintro w w' ⟨T, rfl⟩
    exact alikeResults_completeUpload.right
  answered := fun w => answered_completeUpload

def appendBody (data : Bytes) (w : World E) : World E :=
  { w with ctx := { w.ctx with body := w.ctx.body ++ data } }

theorem actionStage (P : Platform E) (cb : Call) :
    Stage P cb Acting (fun w => w.ctx.contentLength - w.ctx.body.length) appendBody
      (handleBody P) where
  consistent := fun hw => .inr (.inr (.inr hw))
  owed := fun hw hdata => .inr (by rwa [hw.rx])
  client := fun hw => hw.client
  consume_eq := by
    intro w data hw hne hdata
    have hmissing := hw.missing
    have hroom := hw.room
    cases data with
    | nil => exact absurd rfl hne
    | cons b rest =>
        rw [consume, hw.rx]
        dsimp only
        unfold storeBody
        have hsmall : BODY_SIZE < 2 ^ 32 := by decide
        rw [sub32_of_le (by lia) (by lia), if_neg (by lia)]
        dsimp only
        rw [List.length_append]
        by_cases hfull : (b :: rest).length = w.ctx.contentLength - w.ctx.body.length
        · rw [if_pos hfull, if_pos (by lia)]
          rfl
        · rw [if_neg hfull, if_neg (by lia)]
          rfl
  inside := by
    intro w data hw hdata
    have hmissing := hw.missing
    have hbody : (appendBody data w).ctx.body.length = w.ctx.body.length + data.length :=
      List.length_append
    refine ⟨⟨hw.client, hw.halted, hw.rx, ?_, hw.room⟩, ?_⟩
    · rw [hbody]
      show _ < w.ctx.contentLength
      lia
    · rw [hbody]
      show w.ctx.contentLength - _ = _
      lia
  append := by
    intro w xs ys hw hdata
    have hsame : appendBody ys (appendBody xs w) = appendBody (xs ++ ys) w := by
      unfold appendBody
      rw [List.append_assoc]
    rw [hsame]
    exact Alike.refl _
  finish_alike := by
    rintro w w' ⟨T, rfl⟩
    exact alikeResults_handleBody.right
  answered := fun w => answered_handleBody

theorem Stage.answered_of_failed {Inside : World E -> Prop} {missing : World E -> Nat}
    {stored : Bytes -> World E -> World E} {finish : World E -> Int × World E}
    (h : Stage P cb Inside missing stored finish) {data : Bytes} (hw : Inside w)
    (hdata : data.length ≤ missing w) (hfailed : (consume P cb data w).1 ≠ 0) :
    Answered (consume P cb data w).2 := by
  by_cases hne : data = []
  · subst hne
    exact absurd rfl hfailed
  · rw [h.consume_eq hw hne hdata] at hfailed ⊢
    by_cases hfull : data.length = missing w
    · rw [if_pos hfull]
      exact h.answered _
    · rw [if_neg hfull] at hfailed
      exact absurd rfl hfailed

/-!
## The end of a header
-/

theorem Opening.not_answered (hw : Opening w) : ¬ Answered w := by
  rintro (hnone | hreplied)
  · have hclient := hw.client
    rw [hnone] at hclient
    cases hclient
  · rw [hw.rx] at hreplied
    cases hreplied

theorem Opening.withHeader (hw : Opening w) (header : Bytes) :
    Opening (withHeader header w) := ⟨hw.client, hw.halted, hw.rx, hw.load⟩

/-- Behind a header there is a body, or nothing is read any more. -/
theorem handled_behind (P : Platform E) (cb : Call) (hw : Opening w) :
    Behind (handleHeaders P cb w).2 ∧
      ((handleHeaders P cb w).1 ≠ 0 -> Answered (handleHeaders P cb w).2) ∧
      forall data : Bytes,
        (forall size, getContentLength w.ctx.header = .ok size -> data.length ≤ size) ->
        Owed (handleHeaders P cb w).2 data := by
  have houtcome := outcome_handleHeaders P cb hw.client
  generalize handleHeaders P cb w = r at houtcome ⊢
  cases houtcome with
  | answered h => exact ⟨.inl h, fun _ => h, fun _ _ => .inl h⟩
  | upload part size ext hlength hsize hram =>
      have hlt := getContentLength_lt hlength
      have hroom : w.ctx.loadAddr + size < 2 ^ 32 := rangeInRam_lt hlt hw.load hram
      refine ⟨.inr (.inl ⟨hw.client, hw.halted, rfl, ?_, hroom⟩), fun h => absurd rfl h,
        fun data hdata => .inr (hdata size hlength)⟩
      exact Nat.pos_of_ne_zero hsize
  | body action size hlength hsize hsmall =>
      refine ⟨.inr (.inr ⟨hw.client, hw.halted, rfl, ?_, hsmall⟩), fun h => absurd rfl h,
        fun data hdata => .inr (hdata size hlength)⟩
      exact Nat.pos_of_ne_zero hsize

theorem take_done (hw : Opening w) {data header rest : Bytes}
    (hscan : scanHeader w.ctx.header data = .done header rest) :
    take P cb data w = take P cb rest (handleHeaders P cb (withHeader header w)).2 := by
  rcases handled_behind P cb (hw.withHeader header) with ⟨_, hfailed, _⟩
  have hsettled : Settled (withHeader header w) (handleHeaders P cb (withHeader header w)) :=
    settled_handleHeaders
  rw [take_of_some hw.client, consume_headers data hw.rx, hscan]
  dsimp only
  split
  · rename_i hne
    rw [take_answered (hfailed hne)]
  · rename_i hzero
    rcases hsettled (not_not.mp hzero) with hreplied | ⟨_, hclient⟩
    · rw [take_answered (.inr hreplied)]
      cases rest with
      | nil => rfl
      | cons b rest => rw [consume, hreplied]
    · refine (take_of_some ?_).symm
      rw [hclient]
      exact hw.client

theorem Uploading.owed_iff (hw : Uploading w) {data : Bytes} :
    Owed w data <-> data.length ≤ w.ctx.contentLength - w.ctx.uploadSize := by
  have hclient := hw.client
  unfold Owed Answered
  rw [hw.rx]
  cases hc : w.ctx.client with
  | none =>
      rw [hc] at hclient
      cases hclient
  | some pcb => simp

theorem Acting.owed_iff (hw : Acting w) {data : Bytes} :
    Owed w data <-> data.length ≤ w.ctx.contentLength - w.ctx.body.length := by
  have hclient := hw.client
  unfold Owed Answered
  rw [hw.rx]
  cases hc : w.ctx.client with
  | none =>
      rw [hc] at hclient
      cases hclient
  | some pcb => simp

theorem splits_behind (P : Platform E) (cb : Call) {xs ys : Bytes} (hw : Behind w)
    (hdata : Owed w (xs ++ ys)) : Splits P cb xs ys w := by
  rcases hw with hanswered | hupload | haction
  · refine Splits.of_answered ?_ ?_
    · rwa [take_answered hanswered]
    · rw [take_answered hanswered, take_answered hanswered]
      exact Alike.refl _
  · exact (uploadStage P cb).splits hupload (hupload.owed_iff.mp hdata)
  · exact (actionStage P cb).splits haction (haction.owed_iff.mp hdata)

theorem splits_opening {xs ys : Bytes} (hw : Opening w) (hdata : Owed w (xs ++ ys)) :
    Splits P cb xs ys w := by
  have hlong := hdata.resolve_left hw.not_answered
  rw [hw.rx] at hlong
  dsimp only at hlong
  have happend := scanHeader_append w.ctx.header xs ys
  cases hscan : scanHeader w.ctx.header xs with
  | more header =>
      rw [hscan] at happend
      have htake : take P cb xs w = withHeader header w := by
        rw [take_of_some hw.client, consume_headers xs hw.rx, hscan]
      have hnext := hw.withHeader header
      refine ⟨?_, ?_, ?_⟩
      · rw [htake]
        exact .inl hnext
      · rw [htake]
        refine .inr ?_
        rw [hnext.rx]
        intro header' rest size hdone
        exact hlong header' rest size (happend.trans hdone)
      · rw [htake, take_of_some hw.client, take_of_some hnext.client,
          consume_headers _ hw.rx, consume_headers _ hnext.rx, happend]
        exact Alike.refl _
  | tooLarge header =>
      rw [hscan] at happend
      have htake : forall data, scanHeader w.ctx.header data = .tooLarge header ->
          take P cb data w = error P "431 Request Header Fields Too Large"
            "HTTP header too large" (withHeader header w) := by
        intro data hdata
        rw [take_of_some hw.client, consume_headers data hw.rx, hdata]
      refine Splits.of_answered ?_ ?_
      · rw [htake xs hscan]
        exact answered_error _ _
      · rw [htake xs hscan, htake _ happend]
        exact Alike.refl _
  | done header rest =>
      rw [hscan] at happend
      rcases handled_behind P cb (hw.withHeader header) with
        ⟨hbehind, _, howed⟩
      have hbody := splits_behind P cb hbehind
        (howed (rest ++ ys) fun size hsize => hlong header _ size happend hsize)
      refine ⟨?_, ?_, ?_⟩
      · rw [take_done hw hscan]
        exact hbody.consistent
      · rw [take_done hw hscan]
        exact hbody.owed
      · rw [take_done hw hscan, take_done hw happend]
        exact hbody.alike

theorem splits {xs ys : Bytes} (hw : Consistent w) (hdata : Owed w (xs ++ ys)) :
    Splits P cb xs ys w :=
  hw.elim (fun h => splits_opening h hdata) fun h => splits_behind P cb h hdata

theorem consume_replied (hrx : w.ctx.rxState = .replied) (data : Bytes) :
    consume P cb data w = (0, w) := by
  cases data with
  | nil => rfl
  | cons b rest => rw [consume, hrx]

theorem answered_of_failed_behind {data : Bytes} (hw : Behind w) (hdata : Owed w data)
    (hlive : w.ctx.rxState = .replied ∨ w.ctx.client.isSome)
    (hfailed : (consume P cb data w).1 ≠ 0) : Answered (consume P cb data w).2 := by
  rcases hw with hanswered | hupload | haction
  · have hreplied : w.ctx.rxState = .replied := by
      rcases hlive with h | h
      · exact h
      · refine hanswered.resolve_left fun hnone => ?_
        rw [hnone] at h
        cases h
    rw [consume_replied hreplied] at hfailed
    exact absurd rfl hfailed
  · exact (uploadStage P cb).answered_of_failed hupload (hupload.owed_iff.mp hdata) hfailed
  · exact (actionStage P cb).answered_of_failed haction (haction.owed_iff.mp hdata) hfailed

theorem Owed.front {xs ys : Bytes} (h : Owed w (xs ++ ys)) : Owed w xs := by
  refine h.imp_right fun h => ?_
  have hlen : xs.length ≤ (xs ++ ys).length := by
    rw [List.length_append]
    exact Nat.le_add_right _ _
  cases hrx : w.ctx.rxState with
  | replied => trivial
  | upload =>
      rw [hrx] at h
      exact hlen.trans h
  | body =>
      rw [hrx] at h
      exact hlen.trans h
  | headers =>
      rw [hrx] at h
      intro header rest size hscan hsize
      have hdone := scanHeader_append w.ctx.header xs ys
      rw [hscan] at hdone
      have hrest := h header (rest ++ ys) size hdone hsize
      rw [List.length_append] at hrest
      lia

theorem answered_of_failed {data : Bytes} (hw : Consistent w) (hdata : Owed w data)
    (hclient : w.ctx.client.isSome) (hfailed : (consume P cb data w).1 ≠ 0) :
    Answered (consume P cb data w).2 := by
  rcases hw with hopening | hw
  · rw [consume_headers data hopening.rx] at hfailed ⊢
    have hlong := hdata.resolve_left hopening.not_answered
    rw [hopening.rx] at hlong
    dsimp only at hlong
    cases hscan : scanHeader w.ctx.header data with
    | more header =>
        rw [hscan] at hfailed
        exact absurd rfl hfailed
    | tooLarge header => exact answered_error _ _
    | done header rest =>
        rw [hscan] at hfailed
        rcases handled_behind P cb (hopening.withHeader header) with ⟨hnext, hno, howed⟩
        have hrest := howed rest fun size hsize => hlong header _ size hscan hsize
        have hsettled : Settled (withHeader header w)
            (handleHeaders P cb (withHeader header w)) := settled_handleHeaders
        dsimp only at hfailed ⊢
        by_cases hcode : (handleHeaders P cb (withHeader header w)).1 ≠ 0
        · rw [if_pos hcode]
          exact hno hcode
        · rw [if_neg hcode] at hfailed ⊢
          refine answered_of_failed_behind hnext hrest ?_ hfailed
          refine (hsettled (not_not.mp hcode)).imp_right fun h => ?_
          rw [h.right]
          exact hclient
  · exact answered_of_failed_behind hw hdata (.inr hclient) hfailed

theorem alike_consumeAll (P : Platform E) (cb : Call) (chain : List Bytes) (hw : Consistent w)
    (hdata : Owed w chain.flatten) :
    Alike (take P cb chain.flatten w) (consumeAll P cb chain w) := by
  induction chain generalizing w with
  | nil =>
      unfold take consume consumeAll
      rw [List.flatten_nil]
      dsimp only
      rw [ite_self]
      exact Alike.refl w
  | cons q chain ih =>
      rw [List.flatten_cons] at hdata ⊢
      have hsplit : Splits P cb q chain.flatten w := splits hw hdata
      rw [consumeAll]
      by_cases hnone : w.ctx.client.isNone
      · rw [if_pos hnone, take_answered (.inl (Option.isNone_iff_eq_none.mp hnone))]
        exact Alike.refl w
      · have hclient : w.ctx.client.isSome := by
          simpa [Option.isSome_iff_ne_none] using hnone
        have htake : take P cb q w = (consume P cb q w).2 := take_of_some hclient
        rw [if_neg hnone]
        refine hsplit.alike.trans ?_
        dsimp only
        split
        · rename_i hfailed
          rw [htake, take_answered (answered_of_failed hw hdata.front hclient hfailed)]
          exact Alike.refl _
        · rw [<- htake]
          exact ih hsplit.consistent hsplit.owed

/-!
## Runs
-/

theorem Consistent.alike (hw : Consistent w) (h : Alike w w') : Consistent w' := by
  rcases h with ⟨T, rfl⟩
  rcases hw with h | h | h | h
  · exact .inl ⟨h.client, h.halted, h.rx, h.load⟩
  · exact .inr (.inl h)
  · exact .inr (.inr (.inl ⟨h.client, h.halted, h.rx, h.missing, h.room⟩))
  · exact .inr (.inr (.inr ⟨h.client, h.halted, h.rx, h.missing, h.room⟩))

theorem Owed.alike {data : Bytes} (hw : Owed w data) (h : Alike w w') : Owed w' data := by
  rcases h with ⟨T, rfl⟩
  exact hw

def deliver (pcb : Pcb) (pieces : List (Nat × List Bytes)) : List (Nat × Event) :=
  pieces.map fun p => (p.1, .recv pcb (some p.2) .ok)

def requestBytes (pieces : List (Nat × List Bytes)) : Bytes :=
  (pieces.map fun p => p.2.flatten).flatten

theorem alike_step (P : Platform E) (cb : Call) (now : Nat) (pcb : Pcb) (chain : List Bytes)
    (hw : Consistent w) (hdata : Owed w chain.flatten) :
    Alike (take P cb chain.flatten w) (step P w (now, .recv pcb (some chain) .ok)) := by
  have htouch : Alike w (touch now w) := ⟨{ w.stamps with lastActivity := now }, rfl⟩
  unfold step
  split
  · rename_i hhalted
    have hanswered : Answered w := by
      rcases hw with h | h | h | h
      · rw [h.halted] at hhalted
        cases hhalted
      · exact h
      · rw [h.halted] at hhalted
        cases hhalted
      · rw [h.halted] at hhalted
        cases hhalted
    rw [take_answered hanswered]
    exact Alike.refl w
  · have hall := alike_consumeAll P ⟨pcb, now⟩ chain (hw.alike htouch) (hdata.alike htouch)
    exact (alike_take cb ⟨pcb, now⟩ _ htouch).trans hall

/-- What the pieces do, all of them together do at once. -/
theorem alike_run (P : Platform E) (cb : Call) (pcb : Pcb) (pieces : List (Nat × List Bytes))
    (hw : Consistent w) (hdata : Owed w (requestBytes pieces)) :
    Alike (take P cb (requestBytes pieces) w) (run P w (deliver pcb pieces)) := by
  induction pieces generalizing w with
  | nil => exact alike_consumeAll P cb [] hw hdata
  | cons p pieces ih =>
      have hcons : requestBytes (p :: pieces) = p.2.flatten ++ requestBytes pieces := rfl
      rw [hcons] at hdata ⊢
      have hsplit : Splits P cb p.2.flatten (requestBytes pieces) w := splits hw hdata
      have hstep := alike_step P cb p.1 pcb p.2 hw hdata.front
      have hrest := ih (hsplit.consistent.alike hstep) (hsplit.owed.alike hstep)
      exact hsplit.alike.trans ((alike_take cb cb _ hstep).trans hrest)

/-- A connection is accepted and receives a request whose body is not longer than its header
says.  How the request is cut and when the pieces arrive leaves no trace but the times and
the log. -/
theorem segmentation_irrelevant (P : Platform E) (w : World E) (pcb : Pcb) (now now' : Nat)
    (pieces pieces' : List (Nat × List Bytes)) (hfree : w.ctx.client = none)
    (hhalted : w.halted = none) (hload : w.ctx.loadAddr < 2 ^ 32)
    (hsame : requestBytes pieces = requestBytes pieces')
    (hbody : forall header rest size, scanHeader [] (requestBytes pieces) = .done header rest ->
      getContentLength header = .ok size -> rest.length ≤ size) :
    Alike (run P w ((now, .accept pcb .ok) :: deliver pcb pieces))
      (run P w ((now', .accept pcb .ok) :: deliver pcb pieces')) := by
  have haccept : forall t, step P w (t, .accept pcb .ok) = accepted ⟨pcb, t⟩ w := by
    intro t
    unfold step accept
    rw [hhalted, hfree]
    rfl
  have hopening : forall t, Opening (accepted ⟨pcb, t⟩ w) :=
    fun t => ⟨rfl, hhalted, rfl, hload⟩
  have howed : forall t, Owed (accepted ⟨pcb, t⟩ w) (requestBytes pieces) :=
    fun t => .inr hbody
  have hstart : Alike (accepted ⟨pcb, now⟩ w) (accepted ⟨pcb, now'⟩ w) :=
    ⟨{ (accepted ⟨pcb, now⟩ w).stamps with lastActivity := now' }, rfl⟩
  have hrun := alike_run P ⟨pcb, now⟩ pcb pieces (.inl (hopening now)) (howed now)
  have hrun' := alike_run P ⟨pcb, now⟩ pcb pieces' (.inl (hopening now'))
    (hsame ▸ howed now')
  rw [<- hsame] at hrun'
  show Alike (run P (step P w (now, .accept pcb .ok)) _)
    (run P (step P w (now', .accept pcb .ok)) _)
  rw [haccept, haccept]
  exact hrun.symm.trans ((alike_take _ _ _ hstart).trans hrun')

def kernHeader : Bytes := httpRequest "POST /api/upload/firmware" ["Content-Length: 4"]

def kernRequest : Bytes := kernHeader ++ str "kern"

def kernPieces : List (Nat × List Bytes) :=
  [(0, [kernRequest.take 55]), (7, [(kernRequest.drop 55).take 2, (kernRequest.drop 57).take 2]),
    (9, [kernRequest.drop 59])]

def scansAs (header rest : Bytes) : HeaderScan Bytes -> Bool
  | .done header' rest' => decide (header' = header ∧ rest' = rest)
  | _ => false

theorem segmentation_irrelevant_kern :
    Alike (run (norPlatform hlk7621a) hlk7621aStart
        ((0, .accept 1 .ok) :: deliver 1 [(0, [kernRequest])]))
      (run (norPlatform hlk7621a) hlk7621aStart ((5, .accept 1 .ok) :: deliver 1 kernPieces)) := by
  have hscan : scansAs kernHeader (str "kern")
      (scanHeader [] (requestBytes [(0, [kernRequest])])) = true := by decide +kernel
  refine segmentation_irrelevant _ _ 1 0 5 _ kernPieces rfl rfl (by decide +kernel)
    (by decide +kernel) fun header rest size hdone hsize => ?_
  rw [hdone] at hscan
  rcases of_decide_eq_true hscan with ⟨rfl, rfl⟩
  have hlength : getContentLength kernHeader = .ok 4 := by decide +kernel
  rw [hlength] at hsize
  cases hsize
  decide

end Webflash
end Hlk7621
