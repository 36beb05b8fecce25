import Hlk7621.Webflash.EnvForm
import Mathlib.Data.List.Nodup
import Mathlib.Data.List.TakeWhile

/-!
# Form decoding inverts form encoding

A form is a list of named values, each byte of a value encoded in one of the ways
a browser may choose.  `webflash_form_value` takes the form apart at the
separators and decodes the value of a field in place.
-/

namespace Hlk7621
namespace Webflash

/-!
## Encoded values
-/

def IsHexDigit (n : Nat) (c : UInt8) : Prop :=
  (str "0123456789abcdef")[n]? = some c ∨ (str "0123456789ABCDEF")[n]? = some c

inductive EncodesByte (b : UInt8) : Bytes -> Prop where
  | literal (hpercent : b ≠ 37) (hplus : b ≠ 43) (hamp : b ≠ 38) : EncodesByte b [b]
  | plus (hspace : b = 32) : EncodesByte b [43]
  | percent (high low : UInt8) (hhigh : IsHexDigit (b.toNat / 16) high)
      (hlow : IsHexDigit (b.toNat % 16) low) : EncodesByte b [37, high, low]

inductive Encodes : Bytes -> Bytes -> Prop where
  | nil : Encodes [] []
  | cons {b : UInt8} {text value encoded : Bytes} (hb : EncodesByte b text)
      (hvalue : Encodes value encoded) : Encodes (b :: value) (text ++ encoded)

theorem hexToBin_digit {n : Nat} {c : UInt8} (h : IsHexDigit n c) :
    hexToBin c = some n ∧ c ≠ 38 ∧ c ≠ 0 := by
  have hall : forall n, n < 16 ->
      (forall c, (str "0123456789abcdef")[n]? = some c ->
        hexToBin c = some n ∧ c ≠ 38 ∧ c ≠ 0) ∧
      (forall c, (str "0123456789ABCDEF")[n]? = some c ->
        hexToBin c = some n ∧ c ≠ 38 ∧ c ≠ 0) := by
    decide +kernel
  have hn : n < 16 := by
    rcases h with h | h
    · exact (List.getElem?_eq_some_iff.mp h).1
    · exact (List.getElem?_eq_some_iff.mp h).1
  rcases h with h | h
  · exact (hall n hn).1 c h
  · exact (hall n hn).2 c h

theorem percentDecode_literal {c : UInt8} (hpercent : c ≠ 37) (hplus : c ≠ 43)
    (rest : Bytes) :
    percentDecode (c :: rest) = (percentDecode rest).map (c :: ·) := by
  rw [percentDecode]
  · exact hplus
  · intro a b rest' hc
    exact absurd hc hpercent

theorem percentDecode_encodesByte {b : UInt8} {text : Bytes}
    (h : EncodesByte b text) (rest : Bytes) :
    percentDecode (text ++ rest) = (percentDecode rest).map (b :: ·) := by
  cases h with
  | literal hpercent hplus hamp => exact percentDecode_literal hpercent hplus rest
  | plus hspace =>
      subst hspace
      rfl
  | percent high low hhigh hlow =>
      show percentDecode (37 :: high :: low :: rest) = _
      rw [percentDecode, (hexToBin_digit hhigh).1, (hexToBin_digit hlow).1]
      dsimp only
      rw [Nat.div_add_mod', UInt8.ofNat_toNat]

theorem percentDecode_encodes {value encoded : Bytes} (h : Encodes value encoded) :
    percentDecode encoded = some value := by
  induction h with
  | nil => rfl
  | cons hb hvalue ih => rw [percentDecode_encodesByte hb, ih, Option.map_some]

theorem Encodes.plain {value encoded : Bytes} (h : Encodes value encoded) :
    (38 : UInt8) ∉ encoded ∧ ((0 : UInt8) ∉ value -> (0 : UInt8) ∉ encoded) := by
  induction h with
  | nil => simp
  | cons hb hvalue ih =>
      cases hb with
      | literal hpercent hplus hamp =>
          simp only [List.cons_append, List.nil_append, List.mem_cons, not_or]
          exact ⟨⟨Ne.symm hamp, ih.1⟩, fun hzero => ⟨hzero.1, ih.2 hzero.2⟩⟩
      | plus hspace =>
          simp only [List.cons_append, List.nil_append, List.mem_cons, not_or]
          exact ⟨⟨by decide, ih.1⟩, fun hzero => ⟨by decide, ih.2 hzero.2⟩⟩
      | percent high low hhigh hlow =>
          rcases hexToBin_digit hhigh with ⟨_, hh38, hh0⟩
          rcases hexToBin_digit hlow with ⟨_, hl38, hl0⟩
          simp only [List.cons_append, List.nil_append, List.mem_cons, not_or]
          exact ⟨⟨by decide, hh38.symm, hl38.symm, ih.1⟩,
            fun hzero => ⟨by decide, hh0.symm, hl0.symm, ih.2 hzero.2⟩⟩

/-!
## Forms
-/

structure FormField where
  key : Bytes
  value : Bytes
  encoded : Bytes

def formText (fields : List FormField) : Bytes :=
  [38].intercalate (fields.map fun f => f.key ++ 61 :: f.encoded)

structure FormField.Encoded (f : FormField) : Prop where
  nonempty : f.key ≠ []
  key : (0 : UInt8) ∉ f.key
  value : (0 : UInt8) ∉ f.value
  encoded : Encodes f.value f.encoded

def FormField.PlainKey (f : FormField) : Prop :=
  (38 : UInt8) ∉ f.key ∧ (61 : UInt8) ∉ f.key

theorem takeWhile_ne_append {c : UInt8} {xs : Bytes} (h : c ∉ xs) (ys : Bytes) :
    (xs ++ c :: ys).takeWhile (fun b => b ≠ c) = xs := by
  induction xs with
  | nil => simp
  | cons x xs ih =>
      simp only [List.mem_cons, not_or] at h
      rw [List.cons_append, List.takeWhile_cons_of_pos (by simpa using Ne.symm h.1),
        ih h.2]

theorem dropWhile_ne_append {c : UInt8} {xs : Bytes} (h : c ∉ xs) (ys : Bytes) :
    (xs ++ c :: ys).dropWhile (fun b => b ≠ c) = c :: ys := by
  induction xs with
  | nil => simp
  | cons x xs ih =>
      simp only [List.mem_cons, not_or] at h
      rw [List.cons_append, List.dropWhile_cons_of_pos (by simpa using Ne.symm h.1),
        ih h.2]

theorem takeWhile_ne_self {c : UInt8} {xs : Bytes} (h : c ∉ xs) :
    xs.takeWhile (fun b => b ≠ c) = xs := by
  rw [List.takeWhile_eq_self_iff]
  intro x hx
  simp only [ne_eq, decide_eq_true_eq]
  exact fun heq => h (heq ▸ hx)

theorem dropWhile_ne_nil {c : UInt8} {xs : Bytes} (h : c ∉ xs) :
    xs.dropWhile (fun b => b ≠ c) = [] := by
  rw [List.dropWhile_eq_nil_iff]
  intro x hx
  simp only [ne_eq, decide_eq_true_eq]
  exact fun heq => h (heq ▸ hx)

theorem formText_cons (f g : FormField) (rest : List FormField) :
    formText (f :: g :: rest) = (f.key ++ 61 :: f.encoded) ++ 38 :: formText (g :: rest) := by
  simp [formText, List.intercalate]

theorem formText_singleton (f : FormField) :
    formText [f] = f.key ++ 61 :: f.encoded := by
  simp [formText, List.intercalate]

theorem formValueLoop_field {key : Bytes} {valueSize fuel : Nat} {f : FormField}
    {text : Bytes} (hf : f.Encoded) (hkey : f.PlainKey)
    (hfield : text.takeWhile (fun b => b ≠ 38) = f.key ++ 61 :: f.encoded) :
    formValueLoop key valueSize (fuel + 1) text =
      if f.key = key then
        if f.encoded.length ≥ valueSize then .error (-E2BIG) else .ok f.value
      else
        match text.dropWhile fun b => b ≠ 38 with
        | [] => .error (-ENOENT)
        | _ :: rest => formValueLoop key valueSize fuel rest := by
  have hne : text ≠ [] := by
    intro hnil
    rw [hnil] at hfield
    exact absurd hfield (by simp)
  have hname : (f.key ++ 61 :: f.encoded).takeWhile (fun b => b ≠ 61) = f.key :=
    takeWhile_ne_append hkey.2 _
  rw [formValueLoop, if_neg hne]
  dsimp only
  rw [hfield, hname]
  have hlength : f.key.length < (f.key ++ 61 :: f.encoded).length := by simp
  by_cases heq : f.key = key
  · subst heq
    have hdrop : (f.key ++ 61 :: f.encoded).drop (f.key.length + 1) = f.encoded := by
      rw [List.drop_append]
      simp
    rw [if_pos ⟨hlength, rfl⟩, if_pos rfl, hdrop, percentDecode_encodes hf.encoded]
    dsimp only
    rw [takeWhile_ne_self hf.value]
  · exact (if_neg (fun h => heq h.2)).trans (if_neg heq).symm

theorem formValueLoop_formText {key : Bytes} {valueSize fuel : Nat}
    {fields : List FormField} (hfields : forall f, f ∈ fields -> f.Encoded ∧ f.PlainKey)
    (hfuel : fields.length ≤ fuel) :
    formValueLoop key valueSize (fuel + 1) (formText fields) =
      match fields.find? (fun f => f.key = key) with
      | none => .error (-ENOENT)
      | some f =>
          if f.encoded.length ≥ valueSize then .error (-E2BIG) else .ok f.value := by
  induction fields generalizing fuel with
  | nil => rfl
  | cons f rest ih =>
      rcases hfields f List.mem_cons_self with ⟨hf, hkey⟩
      have hplain : (38 : UInt8) ∉ f.key ++ 61 :: f.encoded := by
        simp only [List.mem_append, List.mem_cons, not_or]
        exact ⟨hkey.1, by decide, hf.encoded.plain.1⟩
      rw [List.find?_cons]
      cases rest with
      | nil =>
          rw [formText_singleton, formValueLoop_field hf hkey
            (takeWhile_ne_self hplain), dropWhile_ne_nil hplain]
          by_cases heq : f.key = key
          · rw [if_pos heq]
            simp [heq]
          · rw [if_neg heq]
            simp [heq]
      | cons g rest =>
          rw [formText_cons, formValueLoop_field hf hkey
            (takeWhile_ne_append hplain _), dropWhile_ne_append hplain]
          by_cases heq : f.key = key
          · rw [if_pos heq]
            simp [heq]
          · rw [if_neg heq]
            simp only [heq, decide_false]
            cases fuel with
            | zero => simp at hfuel
            | succ fuel =>
                exact ih (fun h hh => hfields h (List.mem_cons_of_mem _ hh))
                  (by simp at hfuel ⊢; exact hfuel)

theorem formText_of_nonempty {f : FormField} {rest : List FormField} :
    exists tail, formText (f :: rest) = (f.key ++ 61 :: f.encoded) ++ tail ∧
      (tail = [] ∧ rest = [] ∨ tail = 38 :: formText rest) := by
  cases rest with
  | nil => exact ⟨[], by rw [formText_singleton, List.append_nil], Or.inl ⟨rfl, rfl⟩⟩
  | cons g rest => exact ⟨_, formText_cons f g rest, Or.inr rfl⟩

theorem formText_spec {fields : List FormField}
    (hfields : forall f, f ∈ fields -> f.Encoded) :
    (0 : UInt8) ∉ formText fields ∧ fields.length ≤ (formText fields).length := by
  induction fields with
  | nil => decide
  | cons f rest ih =>
      have hf := hfields f List.mem_cons_self
      rcases ih (fun g hg => hfields g (List.mem_cons_of_mem _ hg)) with ⟨hzero, hlength⟩
      have hencoded := hf.encoded.plain.2 hf.value
      have hkey := hf.key
      rcases @formText_of_nonempty f rest with ⟨tail, htext, ⟨rfl, rfl⟩ | rfl⟩
      · rw [htext]
        simp [hkey, hencoded]
        lia
      · rw [htext]
        simp only [List.mem_append, List.mem_cons, not_or, List.length_append,
          List.length_cons]
        exact ⟨⟨⟨hkey, by decide, hencoded⟩, by decide, hzero⟩, by lia⟩

theorem formValue_formText {key : Bytes} {valueSize : Nat} {fields : List FormField}
    (hfields : forall f, f ∈ fields -> f.Encoded ∧ f.PlainKey) :
    formValue (formText fields) key valueSize =
      match fields.find? (fun f => f.key = key) with
      | none => .error (-ENOENT)
      | some f =>
          if f.encoded.length ≥ valueSize then .error (-E2BIG) else .ok f.value := by
  rcases formText_spec (fun f hf => (hfields f hf).1) with ⟨hzero, hlength⟩
  unfold formValue
  dsimp only
  rw [takeWhile_ne_self hzero]
  exact formValueLoop_formText hfields hlength

/-!
## Decoding in place

The loop of `webflash_percent_decode` on the buffer itself.  Beside the result it
returns the stores, each with the last position read before it.
-/

def store (buf : Nat -> UInt8) (dst : Nat) (b : UInt8) (a : Nat) : UInt8 :=
  if a = dst then b else buf a

structure Decoded where
  ret : Int
  buf : Nat -> UInt8
  stores : List (Nat × Nat)

def Decoded.after (d : Decoded) (read dst : Nat) : Decoded :=
  { d with stores := (read, dst) :: d.stores }

def percentDecodeLoop : Nat -> (Nat -> UInt8) -> Nat -> Nat -> Decoded
  | 0, buf, _, _ => ⟨-EINVAL, buf, []⟩
  | fuel + 1, buf, src, dst =>
      if buf src = 0 then ⟨0, store buf dst 0, [(src, dst)]⟩
      else if buf src = 43 then
        (percentDecodeLoop fuel (store buf dst 32) (src + 1) (dst + 1)).after src dst
      else if buf src = 37 ∧ buf (src + 1) ≠ 0 ∧ buf (src + 2) ≠ 0 then
        match hexToBin (buf (src + 1)), hexToBin (buf (src + 2)) with
        | some high, some low =>
            (percentDecodeLoop fuel (store buf dst (UInt8.ofNat (high * 16 + low)))
              (src + 3) (dst + 1)).after (src + 2) dst
        | _, _ => ⟨-EINVAL, buf, []⟩
      else
        (percentDecodeLoop fuel (store buf dst (buf src)) (src + 1) (dst + 1)).after
          src dst

def HoldsString (buf : Nat -> UInt8) (off : Nat) (text : Bytes) : Prop :=
  window buf off text.length = text ∧ buf (off + text.length) = 0 ∧
    (0 : UInt8) ∉ text

theorem holdsString_cons {buf : Nat -> UInt8} {off : Nat} {b : UInt8} {text : Bytes}
    (h : HoldsString buf off (b :: text)) :
    buf off = b ∧ b ≠ 0 ∧ HoldsString buf (off + 1) text := by
  rcases h with ⟨hwin, hend, hzero⟩
  simp only [List.mem_cons, not_or] at hzero
  rw [List.length_cons, Nat.add_comm, window_append] at hwin
  have hcons : buf off :: window buf (off + 1) text.length = b :: text := hwin
  rcases List.cons.inj hcons with ⟨hb, hrest⟩
  refine ⟨hb, Ne.symm hzero.1, hrest, ?_, hzero.2⟩
  rw [<- hend, List.length_cons]
  congr 1
  lia

theorem HoldsString.store {buf : Nat -> UInt8} {off dst : Nat} {text : Bytes}
    (h : HoldsString buf off text) (hdst : dst < off) (b : UInt8) :
    HoldsString (store buf dst b) off text := by
  refine ⟨?_, ?_, h.2.2⟩
  · rw [<- h.1]
    simp only [window_length]
    apply window_congr
    intro a hlo _
    exact if_neg (by lia)
  · rw [<- h.2.1]
    exact if_neg (by lia)

/-- What the loop makes of the string `text` at `src`: no store is behind the
last position read, and what has been decoded in front of `dst` stays. -/
structure DecodesString (d : Decoded) (buf : Nat -> UInt8) (src dst : Nat)
    (text : Bytes) : Prop where
  stores : forall s, s ∈ d.stores -> s.2 ≤ s.1 ∧ s.1 ≤ src + text.length
  kept : forall a, a < dst -> d.buf a = buf a
  ok : forall bytes, percentDecode text = some bytes -> d.ret = 0 ∧
    window d.buf dst bytes.length = bytes ∧ d.buf (dst + bytes.length) = 0
  failed : percentDecode text = none -> d.ret = -EINVAL

theorem DecodesString.after {d : Decoded} {buf : Nat -> UInt8} {src dst read : Nat}
    {b : UInt8} {text rest : Bytes} (hdst : dst ≤ read)
    (hread : read < src + text.length)
    (h : DecodesString d (Webflash.store buf dst b)
      (src + (text.length - rest.length)) (dst + 1) rest)
    (hlength : rest.length ≤ text.length)
    (htext : percentDecode text = (percentDecode rest).map (b :: ·)) :
    DecodesString (d.after read dst) buf src dst text := by
  have hb : d.buf dst = b := (h.kept dst (Nat.lt_succ_self dst)).trans (if_pos rfl)
  refine ⟨?_, ?_, ?_, ?_⟩
  · intro s hs
    rcases List.mem_cons.mp hs with rfl | hs
    · exact ⟨hdst, Nat.le_of_lt hread⟩
    · have := h.stores s hs
      exact ⟨this.1, by lia⟩
  · intro a ha
    exact (h.kept a (by lia)).trans (if_neg (by lia))
  · intro bytes hbytes
    rw [htext] at hbytes
    rcases Option.map_eq_some_iff.mp hbytes with ⟨bytes', hbytes', rfl⟩
    rcases h.ok bytes' hbytes' with ⟨hret, hwin, hend⟩
    refine ⟨hret, ?_, ?_⟩
    · show window d.buf dst (bytes'.length + 1) = b :: bytes'
      rw [Nat.add_comm, window_append, hwin, <- hb]
      rfl
    · rw [<- hend, List.length_cons]
      show d.buf _ = d.buf _
      congr 1
      lia
  · intro hnone
    rw [htext] at hnone
    exact h.failed (Option.map_eq_none_iff.mp hnone)

theorem percentDecodeLoop_decodes {fuel : Nat} {buf : Nat -> UInt8} {src dst : Nat}
    {text : Bytes} (htext : HoldsString buf src text) (hdst : dst ≤ src)
    (hfuel : text.length < fuel) :
    DecodesString (percentDecodeLoop fuel buf src dst) buf src dst text := by
  induction fuel generalizing buf src dst text with
  | zero => lia
  | succ fuel ih =>
      rw [percentDecodeLoop]
      cases text with
      | nil =>
          have hzero : buf src = 0 := htext.2.1
          rw [if_pos hzero]
          refine ⟨?_, ?_, ?_, ?_⟩
          · intro s hs
            rw [List.mem_singleton] at hs
            rw [hs]
            exact ⟨hdst, Nat.le_refl _⟩
          · intro a ha
            exact if_neg (by lia)
          · intro bytes hbytes
            cases hbytes
            exact ⟨rfl, rfl, if_pos rfl⟩
          · intro hnone
            cases hnone
      | cons b rest =>
          rcases holdsString_cons htext with ⟨hb, hne, hrest⟩
          simp only [List.length_cons] at hfuel
          rw [hb, if_neg hne]
          -- The byte stands for itself or is a plus sign.
          have hsingle : forall c, percentDecode (b :: rest) =
              (percentDecode rest).map (c :: ·) ->
              DecodesString ((percentDecodeLoop fuel (Webflash.store buf dst c)
                (src + 1) (dst + 1)).after src dst) buf src dst (b :: rest) := by
            intro c hc
            have hnext := ih (hrest.store (by lia : dst < src + 1) c)
              (show dst + 1 ≤ src + 1 by lia) (by lia)
            refine DecodesString.after hdst (by simp) ?_ (by simp) hc
            rw [List.length_cons, Nat.add_sub_cancel_left]
            exact hnext
          by_cases hplus : b = 43
          · rw [if_pos hplus]
            subst hplus
            exact hsingle 32 rfl
          · rw [if_neg hplus]
            by_cases hpercent : b = 37
            · subst hpercent
              cases rest with
              | nil =>
                  rw [if_neg (fun h => h.2.1 hrest.2.1)]
                  exact hsingle 37 rfl
              | cons high rest =>
                  rcases holdsString_cons hrest with ⟨hhigh, hhne, hrest'⟩
                  cases rest with
                  | nil =>
                      rw [if_neg (fun h => h.2.2 hrest'.2.1)]
                      exact hsingle 37 rfl
                  | cons low rest =>
                      rcases holdsString_cons hrest' with ⟨hlow, hlne, hrest''⟩
                      rw [show src + 1 + 1 = src + 2 from rfl] at hlow
                      rw [if_pos ⟨rfl, by rw [hhigh]; exact hhne, by rw [hlow]; exact hlne⟩,
                        hhigh, hlow]
                      have hdecode : percentDecode (37 :: high :: low :: rest) =
                          match hexToBin high, hexToBin low with
                          | some high, some low =>
                              (percentDecode rest).map
                                (UInt8.ofNat (high * 16 + low) :: ·)
                          | _, _ => none :=
                        percentDecode.eq_3 high low rest
                      cases hh : hexToBin high with
                      | none =>
                          rw [hh] at hdecode
                          exact ⟨fun s hs => (by cases hs), fun a _ => rfl,
                            fun bytes hbytes => (by cases hdecode.symm.trans hbytes),
                            fun _ => rfl⟩
                      | some high' =>
                          cases hl : hexToBin low with
                          | none =>
                              rw [hh, hl] at hdecode
                              exact ⟨fun s hs => (by cases hs), fun a _ => rfl,
                                fun bytes hbytes => (by cases hdecode.symm.trans hbytes),
                                fun _ => rfl⟩
                          | some low' =>
                              rw [hh, hl] at hdecode
                              simp only [List.length_cons] at hfuel
                              have hnext := ih
                                (hrest''.store (by lia : dst < src + 3)
                                  (UInt8.ofNat (high' * 16 + low')))
                                (show dst + 1 ≤ src + 3 by lia) (by lia)
                              refine DecodesString.after (by lia) (by simp) ?_
                                (by simp; lia) hdecode
                              have hskip : (37 :: high :: low :: rest).length -
                                  rest.length = 3 := by
                                simp
                                lia
                              rw [hskip]
                              exact hnext
            · rw [if_neg (fun h => hpercent h.1)]
              exact hsingle b (percentDecode_literal hpercent hplus rest)

/-!
## The claimed inverse
-/

/-- For every form whose keys hold no separator, whatever way its values are
encoded: a field that fits the buffer is read back as the value it stands for,
and a key without a field is not found.  Decoding a string in place stores
nothing behind the byte that has been read last. -/
theorem form_value_inverts_encoding :
    (forall fields : List FormField,
      (forall f, f ∈ fields -> f.Encoded ∧ f.PlainKey) ->
      (fields.map FormField.key).Nodup ->
      forall key valueSize,
        (forall f, f ∈ fields -> f.key = key -> f.encoded.length < valueSize ->
          formValue (formText fields) key valueSize = .ok f.value) ∧
        (key ∉ fields.map FormField.key ->
          formValue (formText fields) key valueSize = .error (-ENOENT))) ∧
    (forall buf value text, HoldsString buf value text ->
      let d := percentDecodeLoop (text.length + 1) buf value value
      (forall s, s ∈ d.stores -> s.2 ≤ s.1 ∧ s.1 ≤ value + text.length) ∧
        (d.ret = 0 <-> (percentDecode text).isSome) ∧
        forall bytes, percentDecode text = some bytes ->
          window d.buf value bytes.length = bytes ∧ d.buf (value + bytes.length) = 0) := by
  constructor
  · intro fields hfields hnodup key valueSize
    rw [formValue_formText hfields]
    constructor
    · intro f hf hkey hfit
      cases hfound : fields.find? (fun f => f.key = key) with
      | none =>
          have hmiss := List.find?_eq_none.mp hfound f hf
          exact absurd hkey (by simpa using hmiss)
      | some g =>
          have hg : g.key = key := by simpa using List.find?_some hfound
          have hsame : g = f := List.inj_on_of_nodup_map hnodup
            (List.mem_of_find?_eq_some hfound) hf (hg.trans hkey.symm)
          subst hsame
          exact if_neg (Nat.not_le_of_lt hfit)
    · intro hkey
      cases hfound : fields.find? (fun f => f.key = key) with
      | none => rfl
      | some g =>
          have hg : g.key = key := by simpa using List.find?_some hfound
          exact absurd (hg ▸ List.mem_map_of_mem (List.mem_of_find?_eq_some hfound)) hkey
  · intro buf value text htext
    have hd := percentDecodeLoop_decodes htext (Nat.le_refl value)
      (Nat.lt_succ_self text.length)
    refine ⟨hd.stores, ?_, fun bytes hbytes => (hd.ok bytes hbytes).2⟩
    cases hdecode : percentDecode text with
    | some bytes => simp [(hd.ok bytes hdecode).1]
    | none =>
        rw [hd.failed hdecode]
        decide

def codedField : FormField := ⟨str "a", str "&%", str "%26%25"⟩

theorem codedField_encoded : codedField.Encoded where
  nonempty := by decide
  key := by decide
  value := by decide
  encoded := .cons (.percent 50 54 (Or.inl (by decide)) (Or.inl (by decide)))
    (.cons (.percent 50 53 (Or.inl (by decide)) (Or.inl (by decide))) .nil)

def codedForm : List FormField :=
  [⟨[0xff], str "x", str "x"⟩, codedField, ⟨str "b", str " ", str "+"⟩]

theorem form_value_inverts_codedForm :
    formValue (formText codedForm) (str "a") 24 = .ok (str "&%") ∧
      formValue (formText codedForm) (str "b") 2 = .ok (str " ") ∧
      formValue (formText codedForm) (str "x") 24 = .error (-ENOENT) := by
  have hfields : forall f, f ∈ codedForm -> f.Encoded ∧ f.PlainKey := by
    intro f hf
    simp only [codedForm, List.mem_cons, List.not_mem_nil, or_false] at hf
    rcases hf with rfl | rfl | rfl
    · exact ⟨⟨by decide, by decide, by decide,
        .cons (.literal (by decide) (by decide) (by decide)) .nil⟩, by decide, by decide⟩
    · exact ⟨codedField_encoded, by decide, by decide⟩
    · exact ⟨⟨by decide, by decide, by decide, .cons (.plus rfl) .nil⟩, by decide, by decide⟩
  have hread := form_value_inverts_encoding.1 codedForm hfields (by decide)
  exact ⟨(hread (str "a") 24).1 codedField (by simp [codedForm]) rfl (by decide),
    (hread (str "b") 2).1 ⟨str "b", str " ", str "+"⟩ (by simp [codedForm]) rfl (by decide),
    (hread (str "x") 24).2 (by decide)⟩

def splitKey : FormField := ⟨str "a=b", str "c", str "c"⟩

theorem form_value_misses_split_key :
    splitKey.Encoded ∧ splitKey.encoded.length < 24 ∧
      formValue (formText [splitKey]) (str "a=b") 24 = .error (-ENOENT) ∧
      str "a" ∉ [splitKey].map FormField.key ∧
      formValue (formText [splitKey]) (str "a") 24 = .ok (str "b=c") :=
  ⟨⟨by decide, by decide, by decide,
    .cons (.literal (by decide) (by decide) (by decide)) .nil⟩,
    by decide, by decide, by decide, by decide⟩

end Webflash
end Hlk7621
