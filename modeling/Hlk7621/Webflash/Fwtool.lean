import Hlk7621.Webflash.Footprint

/-!
# The record format behind an OpenWrt image

An OpenWrt image carries records at its end: one with information, and after it
up to two others.  Each ends in a trailer with its length and with the CRC of
everything in front of the trailer.  `webflash_validate_fwtool` walks these
records backwards and accepts exactly the images of this format.
-/

namespace Hlk7621
namespace Webflash

/-!
## Records
-/

/-- The trailer of a record of `size` bytes, after the bytes `before` of the
image. -/
structure IsTrailer (before : Bytes) (size : Nat) (type : UInt8)
    (trailer : Bytes) : Prop where
  length : trailer.length = 16
  magic : beNat (trailer.take 4) = FWTOOL_MAGIC
  crc : beNat ((trailer.drop 4).take 4) =
    (Crc.fold UBoot.crcTab 0xffffffff#32 before).toNat
  type : (trailer.drop 8).take 1 = [type]
  size : beNat ((trailer.drop 12).take 4) = size

def IsRecord (front data : Bytes) (type : UInt8) (record : Bytes) : Prop :=
  exists trailer, record = data ++ trailer ∧
    IsTrailer (front ++ data) record.length type trailer

structure IsInfo (B : Board) (data : Bytes) : Prop where
  length : 8 < data.length
  version : data.take 4 = [0, 0, 0, 0]
  device : jsonArrayHas (data.drop 8) (str "\"supported_devices\"") B.deviceId =
      true ∨
    jsonArrayHas (data.drop 8) (str "\"new_supported_devices\"") B.deviceId = true

def Signed (front : Bytes) (records : List Bytes) : Prop :=
  forall before record after, records = before ++ record :: after ->
    exists data type, type.toNat ≠ FWTOOL_INFO ∧
      IsRecord (front ++ before.flatten) data type record

def Carries (B : Board) (k : Nat) (image : Bytes) : Prop :=
  exists payload info records,
    image = payload ++ info ++ records.flatten ∧ records.length = k ∧
      (exists data type, type.toNat = FWTOOL_INFO ∧
        IsRecord payload data type info ∧ IsInfo B data) ∧
      Signed (payload ++ info) records

def FwtoolImage (B : Board) (image : Bytes) : Prop :=
  exists k, k ≤ 2 ∧ Carries B k image

theorem signed_nil (front : Bytes) : Signed front [] := by
  intro before record after h
  simp at h

theorem signed_concat {front record : Bytes} {records : List Bytes} :
    Signed front (records ++ [record]) <->
      Signed front records ∧
        exists data type, type.toNat ≠ FWTOOL_INFO ∧
          IsRecord (front ++ records.flatten) data type record := by
  constructor
  · intro h
    refine ⟨?_, h records record [] rfl⟩
    rintro before r after rfl
    exact h before r (after ++ [record]) (by simp)
  · rintro ⟨hrecords, hlast⟩ before r after heq
    rcases List.eq_nil_or_concat after with rfl | ⟨init, last, rfl⟩
    · rcases List.append_inj' heq rfl with ⟨rfl, hr⟩
      cases hr
      exact hlast
    · have hsplit : records ++ [record] = (before ++ r :: init) ++ [last] := by
        rw [heq]
        simp
      rcases List.append_inj' hsplit rfl with ⟨rfl, -⟩
      exact hrecords before r init rfl

theorem carries_zero (B : Board) (image : Bytes) :
    Carries B 0 image <->
      exists front data type record, image = front ++ record ∧
        IsRecord front data type record ∧ type.toNat = FWTOOL_INFO ∧
        IsInfo B data := by
  constructor
  · rintro ⟨payload, info, records, himage, hk, ⟨data, type, htype, hrec, hinfo⟩, -⟩
    have hnil : records = [] := List.length_eq_zero_iff.mp hk
    subst hnil
    exact ⟨payload, data, type, info, by simpa using himage, hrec, htype, hinfo⟩
  · rintro ⟨front, data, type, record, himage, hrec, htype, hinfo⟩
    exact ⟨front, record, [], by simpa using himage, rfl,
      ⟨data, type, htype, hrec, hinfo⟩, signed_nil _⟩

theorem carries_succ (B : Board) (k : Nat) (image : Bytes) :
    Carries B (k + 1) image <->
      exists front data type record, image = front ++ record ∧
        IsRecord front data type record ∧ type.toNat ≠ FWTOOL_INFO ∧
        Carries B k front := by
  constructor
  · rintro ⟨payload, info, records, himage, hk, hinfo, hsigned⟩
    rcases List.eq_nil_or_concat records with rfl | ⟨init, last, rfl⟩
    · cases hk
    · rw [List.concat_eq_append] at himage hsigned hk
      rcases signed_concat.mp hsigned with ⟨hinit, data, type, htype, hrec⟩
      refine ⟨payload ++ info ++ init.flatten, data, type, last, ?_, hrec, htype,
        payload, info, init, rfl, by simpa using hk, hinfo, hinit⟩
      rw [himage]
      simp
  · rintro ⟨front, data, type, record, himage, hrec, htype, payload, info, records,
      rfl, hk, hinfo, hsigned⟩
    refine ⟨payload, info, records ++ [record], ?_, by simp [hk], hinfo,
      signed_concat.mpr ⟨hsigned, data, type, htype, hrec⟩⟩
    rw [himage]
    simp

/-!
## One round of the walk
-/

/-- A round of the loop of `webflash_validate_fwtool`: its result, or the cursor
of the next round. -/
def fwtoolRound (B : Board) (image cursor : Nat) : Scan ((Int × Bytes) ⊕ Nat) :=
  if cursor < 16 then pure (.inl (-ENOENT, str "metadata not found"))
  else do
    let trailer := image + (cursor - 16)
    let magic <- scanBe32 trailer
    if magic ≠ FWTOOL_MAGIC then
      pure (.inl (-ENOENT, str "metadata not found"))
    else do
      let recordSize <- scanBe32 (trailer + 12)
      if recordSize < 16 ∨ recordSize > cursor then
        pure (.inl (-EINVAL, str "bad metadata size"))
      else do
        let front <- Scan.bytes image (cursor - 16)
        let stored <- scanBe32 (trailer + 4)
        if (UBoot.crc32NoComp 0xffffffff#32 image front).toNat ≠ stored then
          pure (.inl (-EBADMSG, str "metadata CRC mismatch"))
        else do
          let type <- Scan.bytes (trailer + 8) 1
          if leNat type = FWTOOL_INFO then do
            let r <- checkFwtoolInfo B (image + (cursor - recordSize))
              (recordSize - 16)
            pure (.inl r)
          else pure (.inr (cursor - recordSize))

section

variable (B : Board) (image : Nat) (m : Nat -> UInt8)

theorem validateFwtoolLoop_succ (depth cursor : Nat) :
    (validateFwtoolLoop B image (depth + 1) cursor).val m =
      match (fwtoolRound B image cursor).val m with
      | .inl r => r
      | .inr next => (validateFwtoolLoop B image depth next).val m := by
  rw [validateFwtoolLoop]
  unfold fwtoolRound
  split
  · rfl
  · simp only [Scan.val_bind]
    split
    · rfl
    · simp only [Scan.val_bind]
      split
      · rfl
      · simp only [Scan.val_bind]
        split
        · rfl
        · simp only [Scan.val_bind]
          split
          · rfl
          · rfl

def fwtoolCursors : Nat -> Nat -> List Nat
  | 0, _ => []
  | depth + 1, cursor =>
      cursor ::
        match (fwtoolRound B image cursor).val m with
        | .inl _ => []
        | .inr next => fwtoolCursors depth next

/-!
## Rounds and records

The bytes of the image in front of the cursor end in a record exactly when the
round finds one there.
-/

def imageFront (cursor : Nat) : Bytes :=
  window (fun a => m (u32 a)) image cursor

theorem imageFront_split {a b : Nat} (h : a ≤ b) :
    imageFront image m b =
      imageFront image m a ++ window (fun a => m (u32 a)) (image + a) (b - a) := by
  unfold imageFront
  rw [<- window_append, Nat.add_sub_cancel' h]

theorem imageFront_parts {cursor : Nat} {front rest : Bytes}
    (h : imageFront image m cursor = front ++ rest) :
    imageFront image m front.length = front ∧
      window (fun a => m (u32 a)) (image + front.length) rest.length = rest := by
  have hlen := congrArg List.length h
  rw [imageFront, window_length, List.length_append] at hlen
  have hsplit := imageFront_split image m (show front.length ≤ cursor by omega)
  rw [h, show cursor - front.length = rest.length by omega] at hsplit
  rcases List.append_inj hsplit (by rw [imageFront, window_length]) with ⟨hl, hr⟩
  exact ⟨hl.symm, hr.symm⟩

theorem fwtoolRound_of_record {cursor : Nat} {front data record : Bytes}
    {type : UInt8} (himage : imageFront image m cursor = front ++ record)
    (hrec : IsRecord front data type record) :
    (fwtoolRound B image cursor).val m =
      if type.toNat = FWTOOL_INFO then
        .inl ((checkFwtoolInfo B (image + front.length) data.length).val m)
      else .inr front.length := by
  rcases hrec with ⟨trailer, rfl, ht⟩
  have hlen : cursor = front.length + (data.length + 16) := by
    have h := congrArg List.length himage
    rw [imageFront, window_length, List.length_append, List.length_append,
      ht.length] at h
    exact h
  have hsplit := imageFront_split image m (Nat.sub_le cursor 16)
  have hparts : imageFront image m (cursor - 16) = front ++ data ∧
      window (fun a => m (u32 a)) (image + (cursor - 16))
        (cursor - (cursor - 16)) = trailer := by
    rw [himage, <- List.append_assoc] at hsplit
    rcases List.append_inj' hsplit (by rw [window_length, ht.length]; omega) with
      ⟨hl, hr⟩
    exact ⟨hl.symm, hr.symm⟩
  have hfield : forall off len, off + len ≤ 16 ->
      window (fun a => m (u32 a)) (image + (cursor - 16) + off) len =
        (trailer.drop off).take len := by
    intro off len hle
    rw [<- hparts.right]
    exact (window_slice _ _ (by omega)).symm
  have hmagic : (scanBe32 (image + (cursor - 16))).val m = FWTOOL_MAGIC :=
    (congrArg beNat (hfield 0 4 (by decide))).trans ht.magic
  have hsize : (scanBe32 (image + (cursor - 16) + 12)).val m = data.length + 16 := by
    refine (congrArg beNat (hfield 12 4 (by decide))).trans (ht.size.trans ?_)
    rw [List.length_append, ht.length]
  have hcrc : (UBoot.crc32NoComp 0xffffffff#32 image
      ((Scan.bytes image (cursor - 16)).val m)).toNat =
        (scanBe32 (image + (cursor - 16) + 4)).val m := by
    refine Eq.trans ?_ (congrArg beNat (hfield 4 4 (by decide))).symm
    rw [ht.crc, UBoot.crc32NoComp_eq_fold, Scan.val_bytes, <- hparts.left]
    rfl
  have htype : leNat ((Scan.bytes (image + (cursor - 16) + 8) 1).val m) =
      type.toNat := by
    rw [Scan.val_bytes, hfield 8 1 (by decide), ht.type]
    simp [leNat]
  unfold fwtoolRound
  rw [if_neg (by omega)]
  simp only [Scan.val_bind]
  rw [if_neg (by rw [hmagic]; simp)]
  simp only [Scan.val_bind, hsize]
  rw [if_neg (by omega)]
  simp only [Scan.val_bind]
  rw [if_neg (by rw [hcrc]; simp)]
  simp only [Scan.val_bind, htype]
  have hstart : cursor - (data.length + 16) = front.length := by omega
  rw [hstart, Nat.add_sub_cancel]
  split <;> rfl

theorem record_of_fwtoolRound (cursor : Nat)
    (h : forall r, (fwtoolRound B image cursor).val m = .inl r -> r.1 = 0) :
    exists front data type record, imageFront image m cursor = front ++ record ∧
      IsRecord front data type record := by
  have hfail : forall (code : Int) (text : Bytes), code ≠ 0 ->
      (fwtoolRound B image cursor).val m ≠ .inl (code, text) :=
    fun code text hne heq => hne (h _ heq)
  unfold fwtoolRound at hfail
  split at hfail
  · exact absurd rfl (hfail _ _ (by decide))
  rename_i hcursor
  simp only [Scan.val_bind] at hfail
  split at hfail
  · exact absurd rfl (hfail _ _ (by decide))
  rename_i hmagic
  simp only [Scan.val_bind] at hfail
  split at hfail
  · exact absurd rfl (hfail _ _ (by decide))
  rename_i hsize
  simp only [Scan.val_bind] at hfail
  split at hfail
  · exact absurd rfl (hfail _ _ (by decide))
  rename_i hcrc
  clear hfail
  rw [not_not] at hmagic hcrc
  generalize hn : (scanBe32 (image + (cursor - 16) + 12)).val m = n at hsize
  -- The parts of the record, by the sizes that the round has checked.
  let front := imageFront image m (cursor - n)
  let data := window (fun a => m (u32 a)) (image + (cursor - n)) (n - 16)
  let trailer := window (fun a => m (u32 a)) (image + (cursor - 16)) 16
  have hbefore : front ++ data = imageFront image m (cursor - 16) := by
    rw [imageFront_split image m (show cursor - n ≤ cursor - 16 by omega)]
    show front ++ data = front ++ window _ _ (cursor - 16 - (cursor - n))
    rw [show cursor - 16 - (cursor - n) = n - 16 by omega]
  have hwhole : imageFront image m cursor = front ++ (data ++ trailer) := by
    rw [imageFront_split image m (Nat.sub_le cursor 16), <- List.append_assoc,
      hbefore, show cursor - (cursor - 16) = 16 by omega]
  have hfield : forall off len, off + len ≤ 16 ->
      (trailer.drop off).take len =
        window (fun a => m (u32 a)) (image + (cursor - 16) + off) len :=
    fun off len hle => window_slice _ _ hle
  refine ⟨front, data, m (u32 (image + (cursor - 16) + 8)), data ++ trailer, hwhole,
    trailer, rfl, window_length _ _ _, ?_, ?_, ?_, ?_⟩
  · exact (congrArg beNat (hfield 0 4 (by decide))).trans hmagic
  · rw [hfield 4 4 (by decide), hbefore, <- UBoot.crc32NoComp_eq_fold _ image]
    exact hcrc.symm
  · rw [hfield 8 1 (by decide)]
    rfl
  · refine (congrArg beNat (hfield 12 4 (by decide))).trans (hn.trans ?_)
    rw [List.length_append, window_length, window_length]
    omega

theorem fwtoolRound_next_iff {cursor next : Nat} :
    (fwtoolRound B image cursor).val m = .inr next <->
      exists front data type record, imageFront image m cursor = front ++ record ∧
        IsRecord front data type record ∧ type.toNat ≠ FWTOOL_INFO ∧
        next = front.length := by
  constructor
  · intro h
    rcases record_of_fwtoolRound B image m cursor
      (by rw [h]; rintro r ⟨⟩) with ⟨front, data, type, record, himage, hrec⟩
    have hround := fwtoolRound_of_record B image m himage hrec
    rw [h] at hround
    split at hround
    · cases hround
    · rename_i htype
      cases hround
      exact ⟨front, data, type, record, himage, hrec, htype, rfl⟩
  · rintro ⟨front, data, type, record, himage, hrec, htype, rfl⟩
    rw [fwtoolRound_of_record B image m himage hrec, if_neg htype]

theorem fwtoolRound_next_lt {cursor next : Nat}
    (h : (fwtoolRound B image cursor).val m = .inr next) : next < cursor := by
  rcases (fwtoolRound_next_iff B image m).mp h with
    ⟨front, data, type, record, himage, ⟨trailer, rfl, ht⟩, -, rfl⟩
  have hlen := congrArg List.length himage
  rw [imageFront, window_length, List.length_append, List.length_append,
    ht.length] at hlen
  omega

theorem leNat_eq_zero (bs : Bytes) : leNat bs = 0 <-> forall b, b ∈ bs -> b = 0 := by
  induction bs with
  | nil => simp [leNat]
  | cons b rest ih =>
      have hb : b.toNat = 0 <-> b = 0 := UInt8.toNat_inj (b := 0)
      rw [leNat, Nat.add_eq_zero_iff, Nat.mul_eq_zero, ih, hb]
      simp

theorem checkFwtoolInfo_zero_iff (addr len : Nat) :
    ((checkFwtoolInfo B addr len).val m).1 = 0 <->
      IsInfo B (window (fun a => m (u32 a)) addr len) := by
  generalize hdata : window (fun a => m (u32 a)) addr len = data
  have hlen : data.length = len := by
    rw [<- hdata, window_length]
  unfold checkFwtoolInfo
  split
  · rename_i hshort
    exact ⟨fun h => absurd h (show (-EINVAL : Int) ≠ 0 by decide),
      fun h => absurd h.length (by omega)⟩
  rename_i hlong
  have hversion : (Scan.bytes addr 4).val m = data.take 4 := by
    rw [<- hdata]
    exact (window_slice (fun a => m (u32 a)) addr
      (show 0 + 4 ≤ len by omega)).symm
  have hjson : (Scan.bytes (addr + 8) (len - 8)).val m = data.drop 8 := by
    rw [Scan.val_bytes, <- window_slice _ addr (show 8 + (len - 8) ≤ len by omega),
      hdata, List.take_of_length_le (by rw [List.length_drop]; omega)]
  have hzero : leNat (data.take 4) = 0 <-> data.take 4 = [0, 0, 0, 0] := by
    rw [leNat_eq_zero, show ([0, 0, 0, 0] : Bytes) = List.replicate 4 0 from rfl,
      List.eq_replicate_iff]
    have htake : (data.take 4).length = 4 := by
      rw [List.length_take]
      omega
    simp [htake]
  simp only [Scan.val_bind, hversion]
  split
  · rename_i hbad
    exact ⟨fun h => absurd h (show (-EPROTONOSUPPORT : Int) ≠ 0 by decide),
      fun h => absurd (hzero.mpr h.version) hbad⟩
  rename_i hgood
  rw [not_not, hzero] at hgood
  simp only [Scan.val_bind, hjson]
  split
  · rename_i hnone
    simp only [Bool.and_eq_true, Bool.not_eq_true'] at hnone
    refine ⟨fun h => absurd h (show (-ENODEV : Int) ≠ 0 by decide), fun h => ?_⟩
    rcases h.device with hdev | hdev
    · exact absurd (hdev.symm.trans hnone.left) (by decide)
    · exact absurd (hdev.symm.trans hnone.right) (by decide)
  · rename_i hsome
    refine ⟨fun _ => ⟨by omega, hgood, ?_⟩, fun _ => rfl⟩
    simpa [Bool.and_eq_true, <- Bool.not_eq_true, imp_iff_not_or] using hsome

/-!
## The walk
-/

theorem fwtoolRound_zero_iff {cursor : Nat} :
    (exists text, (fwtoolRound B image cursor).val m = .inl (0, text)) <->
      Carries B 0 (imageFront image m cursor) := by
  have hdata : forall {front data type record},
      imageFront image m cursor = front ++ record ->
      IsRecord front data type record ->
      window (fun a => m (u32 a)) (image + front.length) data.length = data := by
    rintro front data type record himage ⟨trailer, rfl, ht⟩
    have hrest := (imageFront_parts image m himage).right
    rw [List.length_append, window_append] at hrest
    exact (List.append_inj hrest (window_length _ _ _)).left
  rw [carries_zero]
  constructor
  · rintro ⟨text, h⟩
    rcases record_of_fwtoolRound B image m cursor
      (by rw [h]; rintro r ⟨⟩; rfl) with ⟨front, data, type, record, himage, hrec⟩
    have hround := fwtoolRound_of_record B image m himage hrec
    rw [h] at hround
    split at hround
    · rename_i htype
      have hcheck := (checkFwtoolInfo_zero_iff B m (image + front.length)
        data.length).mp (by rw [<- Sum.inl.inj hround])
      rw [hdata himage hrec] at hcheck
      exact ⟨front, data, type, record, himage, hrec, htype, hcheck⟩
    · cases hround
  · rintro ⟨front, data, type, record, himage, hrec, htype, hinfo⟩
    have hcheck := (checkFwtoolInfo_zero_iff B m (image + front.length)
      data.length).mpr (by rw [hdata himage hrec]; exact hinfo)
    refine ⟨((checkFwtoolInfo B (image + front.length) data.length).val m).2, ?_⟩
    rw [fwtoolRound_of_record B image m himage hrec, if_pos htype, <- hcheck]

/-- The loop with `depth` rounds left accepts the images with fewer than `depth`
records behind the information record. -/
theorem validateFwtoolLoop_zero_iff (depth cursor : Nat) :
    ((validateFwtoolLoop B image depth cursor).val m).1 = 0 <->
      exists k, k < depth ∧ Carries B k (imageFront image m cursor) := by
  induction depth generalizing cursor with
  | zero =>
      constructor
      · intro h
        exact absurd h (show (-ENOENT : Int) ≠ 0 by decide)
      · rintro ⟨k, hk, -⟩
        omega
  | succ depth ih =>
      rw [validateFwtoolLoop_succ]
      constructor
      · intro h
        cases hround : (fwtoolRound B image cursor).val m with
        | inl r =>
            rw [hround] at h
            refine ⟨0, Nat.succ_pos depth, (fwtoolRound_zero_iff B image m).mp ?_⟩
            exact ⟨r.2, by rw [hround, <- h]⟩
        | inr next =>
            rw [hround] at h
            rcases (ih next).mp h with ⟨k, hk, hcarries⟩
            rcases (fwtoolRound_next_iff B image m).mp hround with
              ⟨front, data, type, record, himage, hrec, htype, rfl⟩
            rw [(imageFront_parts image m himage).left] at hcarries
            exact ⟨k + 1, Nat.succ_lt_succ hk, (carries_succ B k _).mpr
              ⟨front, data, type, record, himage, hrec, htype, hcarries⟩⟩
      · rintro ⟨_ | k, hk, hcarries⟩
        · rcases (fwtoolRound_zero_iff B image m).mpr hcarries with ⟨text, hround⟩
          rw [hround]
        · rcases (carries_succ B k _).mp hcarries with
            ⟨front, data, type, record, himage, hrec, htype, hfront⟩
          have hround := (fwtoolRound_next_iff B image m).mpr
            ⟨front, data, type, record, himage, hrec, htype, rfl⟩
          rw [hround]
          refine (ih front.length).mpr ⟨k, by omega, ?_⟩
          rw [(imageFront_parts image m himage).left]
          exact hfront

theorem fwtoolCursors_le (depth cursor : Nat) :
    forall c, c ∈ fwtoolCursors B image m depth cursor -> c ≤ cursor := by
  induction depth generalizing cursor with
  | zero =>
      intro c hc
      cases hc
  | succ depth ih =>
      intro c hc
      rw [fwtoolCursors] at hc
      rcases List.mem_cons.mp hc with rfl | hrest
      · exact Nat.le_refl _
      · split at hrest
        · cases hrest
        · rename_i next hnext
          have hlt := fwtoolRound_next_lt B image m hnext
          exact Nat.le_trans (ih next c hrest) (Nat.le_of_lt hlt)

theorem fwtoolCursors_pairwise (depth cursor : Nat) :
    (fwtoolCursors B image m depth cursor).Pairwise fun a b => b < a := by
  induction depth generalizing cursor with
  | zero => exact List.Pairwise.nil
  | succ depth ih =>
      rw [fwtoolCursors]
      split
      · exact List.pairwise_singleton _ _
      · rename_i next hnext
        refine List.Pairwise.cons ?_ (ih next)
        intro c hc
        have hlt := fwtoolRound_next_lt B image m hnext
        exact Nat.lt_of_le_of_lt (fwtoolCursors_le B image m depth next c hc) hlt

end

/-- The trailer check accepts exactly the images with an information record for
this device and at most two records behind it.  It stays inside the image, and
every round starts in front of the one before. -/
theorem validateFwtool_accepts_iff (B : Board) (m : Nat -> UInt8)
    {image size : Nat} (hend : image + size < 2 ^ 32) :
    (((validateFwtool B image size).val m).1 = 0 <->
      FwtoolImage B (window m image size)) ∧
    (validateFwtool B image size).Within m (Inside image size) ∧
    (forall depth cursor,
      (validateFwtoolLoop B image (depth + 1) cursor).val m =
        match (fwtoolRound B image cursor).val m with
        | .inl r => r
        | .inr next => (validateFwtoolLoop B image depth next).val m) ∧
    (fwtoolCursors B image m 3 size).Pairwise fun a b => b < a := by
  refine ⟨?_, validateFwtoolLoop_inside hend m B 3 (Nat.le_refl _),
    validateFwtoolLoop_succ B image m, fwtoolCursors_pairwise B image m 3 size⟩
  have hfront : imageFront image m size = window m image size :=
    window_u32 m (Nat.le_of_lt hend)
  unfold validateFwtool FwtoolImage
  rw [validateFwtoolLoop_zero_iff, hfront]
  constructor
  · rintro ⟨k, hk, hcarries⟩
    exact ⟨k, by omega, hcarries⟩
  · rintro ⟨k, hk, hcarries⟩
    exact ⟨k, by omega, hcarries⟩

def fwtoolRecord (front : Bytes) (type : UInt8) (data : Bytes) : Bytes :=
  data ++ be32Bytes FWTOOL_MAGIC ++
    be32Bytes (Crc.fold UBoot.crcTab 0xffffffff#32 (front ++ data)).toNat ++
    [type, 0, 0, 0] ++ be32Bytes (data.length + 16)

def signedImage : Bytes :=
  let info := str "kern" ++ fwtoolRecord (str "kern") 1
    (List.replicate 8 0 ++ str "\"supported_devices\":[\"hilink,hlk-7621a-evb\"]")
  info ++ fwtoolRecord info 0 (str "sig")

def signedMemory (a : Nat) : UInt8 := signedImage.getD (a - 0x83000000) 0

theorem signed_image_carries :
    FwtoolImage hlk7621a (window signedMemory 0x83000000 signedImage.length) :=
  (validateFwtool_accepts_iff hlk7621a signedMemory (by decide +kernel)).left.mp
    (by decide +kernel)

end Webflash
end Hlk7621
