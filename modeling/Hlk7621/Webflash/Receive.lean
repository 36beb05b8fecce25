import Hlk7621.Webflash.Handlers

/-!
# Reception of a header block

The header is collected byte by byte and may end anywhere in a buffer of a
chain.  `scanHeader` and `scanChain` say where, as functions of the bytes alone,
and `consumeAll_headers` shows that a received chain is the header found by the
scan, its handler, and the reception of what follows it.
-/

namespace Hlk7621
namespace Webflash

/-- How far a header block has come: unfinished, complete with the rest of the
input, or longer than the buffer. -/
inductive HeaderScan (ρ : Type) where
  | more (header : Bytes)
  | done (header : Bytes) (rest : ρ)
  | tooLarge (header : Bytes)

def scanHeader : Bytes -> Bytes -> HeaderScan Bytes
  | header, [] => .more header
  | header, b :: rest =>
      if header.length + 1 ≥ HEADER_SIZE then .tooLarge header
      else if headerDone (header ++ [b]) then .done (header ++ [b]) rest
      else scanHeader (header ++ [b]) rest

def scanChain : Bytes -> List Bytes -> HeaderScan (List Bytes)
  | header, [] => .more header
  | header, q :: chain =>
      match scanHeader header q with
      | .more header => scanChain header chain
      | .done header rest => .done header (rest :: chain)
      | .tooLarge header => .tooLarge header

theorem scanHeader_append (header xs ys : Bytes) :
    scanHeader header (xs ++ ys) =
      match scanHeader header xs with
      | .more header => scanHeader header ys
      | .done header rest => .done header (rest ++ ys)
      | .tooLarge header => .tooLarge header := by
  induction xs generalizing header with
  | nil => rfl
  | cons b rest ih =>
      rw [List.cons_append, scanHeader, scanHeader]
      split
      · rfl
      · split
        · rfl
        · exact ih _

/-- Cutting the input into buffers does not change where the header ends. -/
theorem scanChain_flatten (header : Bytes) (chain : List Bytes) :
    scanHeader header chain.flatten =
      match scanChain header chain with
      | .more header => .more header
      | .done header rest => .done header rest.flatten
      | .tooLarge header => .tooLarge header := by
  induction chain generalizing header with
  | nil => rfl
  | cons q chain ih =>
      rw [List.flatten_cons, scanHeader_append, scanChain]
      cases scanHeader header q with
      | more header => exact ih header
      | done header rest => rfl
      | tooLarge header => rfl

variable {E : Type}

def withHeader (header : Bytes) (w : World E) : World E :=
  { w with ctx := { w.ctx with header := header } }

variable (P : Platform E)

/-- What becomes of a world in which a header block has been scanned; `next`
receives what follows a header that was handled with success. -/
def afterScan (cb : Call) (w : World E) (next : ρ -> World E -> World E) :
    HeaderScan ρ -> World E
  | .more header => withHeader header w
  | .tooLarge header =>
      error P "431 Request Header Fields Too Large" "HTTP header too large"
        (withHeader header w)
  | .done header rest =>
      let r := handleHeaders P cb (withHeader header w)
      if r.1 ≠ 0 then r.2 else next rest r.2

variable {P} {cb : Call} {w : World E}

theorem afterScan_withHeader (header : Bytes)
    (next : ρ -> World E -> World E) (scan : HeaderScan ρ) :
    afterScan P cb (withHeader header w) next scan = afterScan P cb w next scan := by
  cases scan with
  | more header => rfl
  | tooLarge header => rfl
  | done header rest => rfl

/-- The return value of `webflash_consume` at the headers tells whether the
loop over the chain goes on. -/
theorem consume_headers (data : Bytes) (hrx : w.ctx.rxState = .headers) :
    consume P cb data w =
      match scanHeader w.ctx.header data with
      | .more header => (0, withHeader header w)
      | .tooLarge header =>
          (-E2BIG, error P "431 Request Header Fields Too Large"
            "HTTP header too large" (withHeader header w))
      | .done header rest =>
          let r := handleHeaders P cb (withHeader header w)
          if r.1 ≠ 0 then (-EINVAL, r.2) else consume P cb rest r.2 := by
  induction data generalizing w with
  | nil => rfl
  | cons b rest ih =>
      rw [consume, scanHeader]
      split
      · rename_i hr
        cases hrx.symm.trans hr
      · rename_i hr
        cases hrx.symm.trans hr
      · rename_i hr
        cases hrx.symm.trans hr
      · split
        · rfl
        · dsimp only
          split
          · rfl
          · exact ih (w := withHeader (w.ctx.header ++ [b]) w) hrx

theorem consumeAll_replied {chain : List Bytes}
    (hrx : w.ctx.rxState = .replied) : consumeAll P cb chain w = w := by
  have hconsume : forall data, consume P cb data w = (0, w) := by
    intro data
    cases data with
    | nil => rfl
    | cons b rest => simp only [consume, hrx]
  induction chain with
  | nil => rfl
  | cons q chain ih =>
      rw [consumeAll, hconsume]
      split
      · rfl
      · exact ih

/-- A header that was handled with success leaves the rest of its buffer to be
received like a buffer of its own. -/
theorem consumeAll_after_headers {rest : Bytes} {chain : List Bytes} {v : World E}
    (hclient : w.ctx.client.isSome)
    (h : v.ctx.rxState = .replied ∨
      v.ctx.rxState ≠ .headers ∧ v.ctx.client = w.ctx.client) :
    (if (consume P cb rest v).1 ≠ 0 then (consume P cb rest v).2
      else consumeAll P cb chain (consume P cb rest v).2) =
      consumeAll P cb (rest :: chain) v := by
  rcases h with hr | ⟨_, hc⟩
  · rw [consumeAll_replied hr]
    have hconsume : consume P cb rest v = (0, v) := by
      cases rest with
      | nil => rfl
      | cons b rest => simp only [consume, hr]
    rw [hconsume]
    exact consumeAll_replied hr
  · rw [consumeAll, hc]
    simp [Option.isNone_iff_eq_none, Option.isSome_iff_ne_none.mp hclient]

theorem consumeAll_headers (chain : List Bytes)
    (hrx : w.ctx.rxState = .headers) (hclient : w.ctx.client.isSome) :
    consumeAll P cb chain w =
      afterScan P cb w (consumeAll P cb) (scanChain w.ctx.header chain) := by
  induction chain generalizing w with
  | nil => rfl
  | cons q chain ih =>
      have hsome : w.ctx.client.isNone = false := by
        simpa using hclient
      rw [consumeAll, hsome, scanChain, consume_headers q hrx]
      cases scanHeader w.ctx.header q with
      | more header =>
          have h := ih (w := withHeader header w) hrx hclient
          rw [afterScan_withHeader] at h
          exact h
      | tooLarge header =>
          simp [afterScan, E2BIG]
      | done header rest =>
          simp only [afterScan]
          have hsettled : Settled (withHeader header w)
              (handleHeaders P cb (withHeader header w)) := settled_handleHeaders
          by_cases hret : (handleHeaders P cb (withHeader header w)).1 = 0
          · simpa [hret] using
              consumeAll_after_headers (w := withHeader header w) hclient
                (hsettled hret)
          · simp [hret, EINVAL]

end Webflash
end Hlk7621
