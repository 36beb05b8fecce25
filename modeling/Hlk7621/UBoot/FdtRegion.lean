import Hlk7621.UBoot.Fdt
import Hlk7621.Lib.Regions

/-!
# The regions of a device tree that are signed

Model of `fdt_find_regions` from `boot/fdt_region.c`: one pass over the tags of the struct
block, with the path of the current node, and a `want` of 2 in a node that is included, 1 in
its subnodes and 0 elsewhere.
-/

namespace Hlk7621
namespace UBoot

def FDT_MAX_DEPTH : Nat := 32

structure FdtRegion where
  offset : Nat
  size : Nat
deriving DecidableEq, Repr

namespace FdtRegion

local instance lawfulBytes : LawfulBEq Bytes := inferInstance

def span (r : FdtRegion) : Regions.Region Unit := ⟨r.offset, r.size, ()⟩

/-- The variables of the loop.  The regions are those closed so far, the latest one first,
of which the array holds the first `max_regions`. -/
structure Walk where
  path : Bytes
  stack : List Nat
  want : Nat
  start : Option Nat
  regions : List FdtRegion
  expectEnd : Bool

def Walk.init : Walk :=
  { path := [], stack := [], want := 0, start := none, regions := [], expectEnd := false }

def dropName (path : Bytes) : Bytes := ((path.reverse.dropWhile (· ≠ 47)).drop 1).reverse

section

variable (fdt : Fdt) (inc exc : List Bytes) (maxRegions pathLen : Nat)

/-- The new `want` and `stop_at` where a node begins. -/
def nodeWant (path : Bytes) (offset nextoffset want : Nat) : Nat × Nat :=
  let stopAt := if want = 1 then offset else nextoffset
  if path ∈ inc then (2, stopAt)
  else if want ≠ 0 then (want - 1, stopAt)
  else (want, offset)

/-- A node begins.  The result is `include`, `stop_at` and the variables. -/
def beginNode (offset nextoffset : Nat) (w : Walk) : Except Int (Bool × Nat × Walk) :=
  if w.stack.length = FDT_MAX_DEPTH then .error (- FDT_ERR_BADSTRUCTURE)
  else
    let name := fdt.fdtGetName offset
    if w.stack = [] ∧ name ≠ [] then .error (- FDT_ERR_BADLAYOUT)
    else if pathLen ≤ w.path.length + 2 + name.length then .error (- FDT_ERR_NOSPACE)
    else
      let path := (if w.path.length = 1 then w.path else w.path ++ [47]) ++ name
      let r := nodeWant inc path offset nextoffset w.want
      .ok (r.1 != 0, r.2, { w with path := path, stack := w.want :: w.stack, want := r.1 })

/-- The `switch` on the tag. -/
def tagCase (tag : Tag) (offset nextoffset : Nat) (w : Walk) : Except Int (Bool × Nat × Walk) :=
  match tag with
  | .prop =>
      match fdt.propName offset with
      | none => .error (- FDT_ERR_BADSTRUCTURE)
      | some str => .ok (decide (2 ≤ w.want) && !decide (str ∈ exc), offset, w)
  | .nop => .ok (decide (2 ≤ w.want), offset, w)
  | .beginNode => beginNode fdt inc pathLen offset nextoffset w
  | .endNode =>
      match w.stack with
      | [] => .error (- FDT_ERR_BADSTRUCTURE)
      | want :: stack =>
          .ok (w.want != 0, nextoffset,
            { w with
              path := dropName w.path
              stack := stack
              want := want
              expectEnd := if stack = [] then true else w.expectEnd })
  | .fin => .ok (true, nextoffset, w)

/-- A region is opened, or the previous one again when it ends here. -/
def openRegion (offset : Nat) (w : Walk) : Walk :=
  match w.start, w.regions with
  | some _, _ => w
  | none, [] => { w with start := some offset }
  | none, r :: rest =>
      if w.regions.length ≤ maxRegions ∧ offset = r.offset + r.size - fdt.offDtStruct then
        { w with start := some (r.offset - fdt.offDtStruct), regions := rest }
      else { w with start := some offset }

def closeRegion (stopAt : Nat) (w : Walk) : Walk :=
  match w.start with
  | none => w
  | some start =>
      { w with
        start := none
        regions := ⟨fdt.offDtStruct + start, stopAt - start⟩ :: w.regions }

def regionStep (incl : Bool) (offset stopAt : Nat) (w : Walk) : Walk :=
  if incl then openRegion fdt maxRegions offset w else closeRegion fdt stopAt w

/-- The loop: `nextoffset` and the variables behind `FDT_END`. -/
def findLoop : Nat -> Nat -> Walk -> Option (Except Int (Int × Walk))
  | 0, _, _ => none
  | fuel + 1, offset, w =>
      let t := fdt.fdtNextTag offset
      if w.expectEnd ∧ t.1 ≠ .fin then some (.error (- FDT_ERR_BADLAYOUT))
      else
        match tagCase fdt inc exc pathLen t.1 offset t.2.toNat w with
        | .error e => some (.error e)
        | .ok (incl, stopAt, w) =>
            let w := regionStep fdt maxRegions incl offset stopAt w
            if t.1 = .fin then some (.ok (t.2, w)) else findLoop fuel t.2.toNat w

def fdtFindRegions (addStringTab : Bool) : Option (Except Int (Nat × List FdtRegion)) :=
  match findLoop fdt inc exc maxRegions pathLen (fdt.dtStruct.length + 1) 0 Walk.init with
  | none => none
  | some (.error e) => some (.error e)
  | some (.ok (nextoffset, w)) =>
      if nextoffset ≠ fdt.dtStruct.length then some (.error (- FDT_ERR_BADLAYOUT))
      else
        let start := w.start.getD 0
        let size := fdt.dtStruct.length - start +
          if addStringTab then fdt.dtStrings.length else 0
        let regions := ⟨fdt.offDtStruct + start, size⟩ :: w.regions
        some (.ok (regions.length, regions.reverse.take maxRegions))

end

/-!
## What the regions are about
-/

def Covered (fdt : Fdt) (regions : List FdtRegion) (x : Nat) : Prop :=
  exists r, r ∈ regions ∧ r.span.Covers (fdt.offDtStruct + x)

/-- Bytes that the regions have to contain: the begin and the end, the NOPs and the other
properties of a node in `inc`, the begin and the end of its subnodes, and `FDT_END`. -/
def Wanted (fdt : Fdt) (inc exc : List Bytes) (e : Fdt.Elem) (nodes : List Bytes) : Prop :=
  match e.tag with
  | .beginNode => Fdt.pathOf nodes ∈ inc ∨ (nodes.tail ≠ [] ∧ Fdt.pathOf nodes.tail ∈ inc)
  | .endNode => Fdt.pathOf nodes ∈ inc ∨ (nodes.tail ≠ [] ∧ Fdt.pathOf nodes.tail ∈ inc)
  | .prop => Fdt.pathOf nodes ∈ inc ∧ forall name, fdt.propName e.offset = some name -> name ∉ exc
  | .nop => nodes ≠ [] ∧ Fdt.pathOf nodes ∈ inc
  | .fin => True

def Unwanted (fdt : Fdt) (inc exc : List Bytes) (e : Fdt.Elem) (nodes : List Bytes) : Prop :=
  e.tag = .prop ∧
    (Fdt.pathOf nodes ∉ inc ∨ exists name, fdt.propName e.offset = some name ∧ name ∈ exc)

/-!
## Opening and closing
-/

section

variable {fdt : Fdt} {inc exc : List Bytes} {maxRegions pathLen : Nat}

def Walk.Covered (fdt : Fdt) (w : Walk) (offset x : Nat) : Prop :=
  FdtRegion.Covered fdt w.regions x ∨ exists start, w.start = some start ∧ start ≤ x ∧ x < offset

/-- The regions are in order and end before the one that is open, and before `offset`. -/
structure Walk.Laid (fdt : Fdt) (w : Walk) (offset : Nat) : Prop where
  ordered : Regions.Ordered (w.regions.reverse.map span)
  lower : forall r, r ∈ w.regions -> fdt.offDtStruct ≤ r.offset
  upper : forall r, r ∈ w.regions -> r.span.stop ≤ fdt.offDtStruct + w.start.getD offset
  start : forall s, w.start = some s -> s < offset

theorem covered_cons {r : FdtRegion} {l : List FdtRegion} {x : Nat} :
    Covered fdt (r :: l) x <-> r.span.Covers (fdt.offDtStruct + x) ∨ Covered fdt l x := by
  unfold Covered
  constructor
  · rintro ⟨s, hs, hcov⟩
    rcases List.mem_cons.mp hs with rfl | hs
    · exact Or.inl hcov
    · exact Or.inr ⟨s, hs, hcov⟩
  · rintro (hcov | ⟨s, hs, hcov⟩)
    · exact ⟨r, List.mem_cons_self, hcov⟩
    · exact ⟨s, List.mem_cons_of_mem r hs, hcov⟩

theorem Walk.Laid.covered_lt {w : Walk} {offset x : Nat} (h : w.Laid fdt offset)
    (hx : w.Covered fdt offset x) : x < offset := by
  rcases hx with ⟨r, hr, hcov⟩ | ⟨s, _, _, hlt⟩
  · have hupper := h.upper r hr
    have hstart : w.start.getD offset ≤ offset := by
      cases hs : w.start with
      | none => exact Nat.le_refl offset
      | some s => exact Nat.le_of_lt (h.start s hs)
    have hcov := hcov.2
    lia
  · exact hlt

theorem ordered_latest {r : FdtRegion} {l : List FdtRegion} :
    Regions.Ordered ((r :: l).reverse.map span) <->
      Regions.Ordered (l.reverse.map span) ∧ 0 < r.size ∧
        forall s, s ∈ l -> s.span.stop ≤ r.offset := by
  rw [List.reverse_cons, List.map_append, List.map_singleton, Regions.ordered_append,
    Regions.ordered_cons]
  constructor
  · rintro ⟨hl, ⟨hpos, _⟩, hbefore⟩
    refine ⟨hl, hpos, ?_⟩
    intro s hs
    exact hbefore s.span (List.mem_map_of_mem (List.mem_reverse.mpr hs)) r.span
      List.mem_cons_self
  · rintro ⟨hl, hpos, hbefore⟩
    refine ⟨hl, ⟨hpos, Regions.ordered_nil, fun _ h => absurd h List.not_mem_nil⟩, ?_⟩
    intro s hs t ht
    rcases List.mem_map.mp hs with ⟨s', hs', rfl⟩
    rw [List.mem_singleton.mp ht]
    exact hbefore s' (List.mem_reverse.mp hs')

/-- Behind `FDT_END` or any other tag that is included, its bytes are covered as well. -/
theorem openRegion_spec (maxRegions : Nat) {w : Walk} {offset next : Nat} (h : w.Laid fdt offset)
    (hnext : offset < next) :
    (openRegion fdt maxRegions offset w).Laid fdt next ∧
      (openRegion fdt maxRegions offset w).start ≠ none ∧
      forall x, (openRegion fdt maxRegions offset w).Covered fdt next x <->
        w.Covered fdt offset x ∨ (offset ≤ x ∧ x < next) := by
  unfold openRegion
  cases hstart : w.start with
  | some s =>
      dsimp only
      have hs := h.start s hstart
      refine ⟨⟨h.ordered, h.lower, ?_, ?_⟩, ?_, ?_⟩
      · intro r hr
        have := h.upper r hr
        rw [hstart] at this ⊢
        exact this
      · intro s' hs'
        exact Nat.lt_trans (h.start s' hs') hnext
      · rw [hstart]
        exact Option.some_ne_none s
      · intro x
        unfold Walk.Covered
        rw [hstart]
        constructor
        · rintro (hcov | ⟨_, hs', hle, hlt⟩)
          · exact Or.inl (Or.inl hcov)
          · by_cases hx : x < offset
            · exact Or.inl (Or.inr ⟨_, hs', hle, hx⟩)
            · exact Or.inr ⟨by lia, hlt⟩
        · rintro ((hcov | ⟨_, hs', hle, hlt⟩) | ⟨hle, hlt⟩)
          · exact Or.inl hcov
          · exact Or.inr ⟨_, hs', hle, by lia⟩
          · exact Or.inr ⟨s, rfl, by lia, hlt⟩
  | none =>
      have hupper : forall r, r ∈ w.regions -> r.span.stop ≤ fdt.offDtStruct + offset := by
        intro r hr
        have := h.upper r hr
        rw [hstart] at this
        exact this
      have hfresh : ({ w with start := some offset } : Walk).Laid fdt next ∧
          ({ w with start := some offset } : Walk).start ≠ none ∧
          forall x, ({ w with start := some offset } : Walk).Covered fdt next x <->
            w.Covered fdt offset x ∨ (offset ≤ x ∧ x < next) := by
        refine ⟨⟨h.ordered, h.lower, hupper, ?_⟩, Option.some_ne_none offset, ?_⟩
        · intro s hs
          cases hs
          exact hnext
        · intro x
          unfold Walk.Covered
          rw [hstart]
          constructor
          · rintro (hcov | ⟨_, hs, hle, hlt⟩)
            · exact Or.inl (Or.inl hcov)
            · cases hs
              exact Or.inr ⟨hle, hlt⟩
          · rintro ((hcov | ⟨_, hs, _⟩) | hin)
            · exact Or.inl hcov
            · cases hs
            · exact Or.inr ⟨offset, rfl, hin⟩
      cases hregions : w.regions with
      | nil =>
          rw [hregions] at hfresh
          exact hfresh
      | cons r rest =>
          dsimp only
          split
          · rename_i hmerge
            have hord := h.ordered
            rw [hregions] at hord
            rcases ordered_latest.mp hord with ⟨hrest, hpos, hbefore⟩
            have hr : r ∈ w.regions := by
              rw [hregions]
              exact List.mem_cons_self
            have hlower := h.lower r hr
            have hstop : r.span.stop = r.offset + r.size := rfl
            have hends := hmerge.2
            refine ⟨⟨hrest, ?_, ?_, ?_⟩, Option.some_ne_none _, ?_⟩
            · intro r' hr'
              exact h.lower r' (by rw [hregions]; exact List.mem_cons_of_mem r hr')
            · intro r' hr'
              have := hbefore r' hr'
              show r'.span.stop ≤ fdt.offDtStruct + (r.offset - fdt.offDtStruct)
              lia
            · intro s hs
              cases hs
              lia
            · intro x
              unfold Walk.Covered
              rw [hstart, hregions, covered_cons]
              have hcovers : r.span.Covers (fdt.offDtStruct + x) <->
                  r.offset - fdt.offDtStruct ≤ x ∧ x < offset := by
                unfold Regions.Region.Covers
                rw [hstop]
                show r.offset ≤ _ ∧ _ <-> _
                constructor
                · intro hc
                  lia
                · intro hc
                  lia
              rw [hcovers]
              constructor
              · rintro (hcov | ⟨_, hs, hle, hlt⟩)
                · exact Or.inl (Or.inl (Or.inr hcov))
                · cases hs
                  by_cases hx : x < offset
                  · exact Or.inl (Or.inl (Or.inl ⟨hle, hx⟩))
                  · exact Or.inr ⟨by lia, hlt⟩
              · rintro (((hin | hcov) | ⟨_, hs, _⟩) | hin)
                · exact Or.inr ⟨_, rfl, hin.1, by lia⟩
                · exact Or.inl hcov
                · cases hs
                · exact Or.inr ⟨_, rfl, by lia, hin.2⟩
          · rw [hregions] at hfresh
            exact hfresh

theorem closeRegion_spec {w : Walk} {offset stopAt next : Nat} (h : w.Laid fdt offset)
    (hnext : offset < next) (hle : offset ≤ stopAt) (hstop : stopAt ≤ next) :
    (closeRegion fdt stopAt w).Laid fdt next ∧
      forall x, (closeRegion fdt stopAt w).Covered fdt next x <->
        w.Covered fdt offset x ∨ (w.start ≠ none ∧ offset ≤ x ∧ x < stopAt) := by
  unfold closeRegion
  cases hstart : w.start with
  | none =>
      refine ⟨⟨h.ordered, h.lower, ?_, ?_⟩, ?_⟩
      · intro r hr
        have := h.upper r hr
        rw [hstart] at this ⊢
        exact Nat.le_trans this (Nat.add_le_add_left (Nat.le_of_lt hnext) _)
      · intro s hs
        rw [hstart] at hs
        cases hs
      · intro x
        unfold Walk.Covered
        rw [hstart]
        constructor
        · rintro (hcov | ⟨_, hs, _⟩)
          · exact Or.inl (Or.inl hcov)
          · cases hs
        · rintro ((hcov | ⟨_, hs, _⟩) | ⟨hne, _⟩)
          · exact Or.inl hcov
          · cases hs
          · exact absurd rfl hne
  | some s =>
      have hs := h.start s hstart
      have hupper : forall r, r ∈ w.regions -> r.span.stop ≤ fdt.offDtStruct + s := by
        intro r hr
        have := h.upper r hr
        rw [hstart] at this
        exact this
      refine ⟨⟨?_, ?_, ?_, ?_⟩, ?_⟩
      · exact ordered_latest.mpr ⟨h.ordered, by dsimp only; lia, hupper⟩
      · intro r hr
        rcases List.mem_cons.mp hr with rfl | hr
        · exact Nat.le_add_right _ _
        · exact h.lower r hr
      · intro r hr
        show r.span.stop ≤ fdt.offDtStruct + next
        rcases List.mem_cons.mp hr with rfl | hr
        · show fdt.offDtStruct + s + (stopAt - s) ≤ _
          lia
        · have := hupper r hr
          lia
      · intro s' hs'
        cases hs'
      · intro x
        unfold Walk.Covered
        rw [hstart, covered_cons]
        have hcovers : (FdtRegion.mk (fdt.offDtStruct + s) (stopAt - s)).span.Covers
            (fdt.offDtStruct + x) <-> s ≤ x ∧ x < stopAt := by
          show fdt.offDtStruct + s ≤ _ ∧ _ < fdt.offDtStruct + s + (stopAt - s) <-> _
          constructor
          · intro hc
            lia
          · intro hc
            lia
        rw [hcovers]
        constructor
        · rintro ((hin | hcov) | ⟨_, hs', _⟩)
          · by_cases hx : x < offset
            · exact Or.inl (Or.inr ⟨s, rfl, hin.1, hx⟩)
            · exact Or.inr ⟨Option.some_ne_none s, by lia, hin.2⟩
          · exact Or.inl (Or.inl hcov)
          · cases hs'
        · rintro ((hcov | ⟨_, hs', hin⟩) | ⟨_, hin⟩)
          · exact Or.inl (Or.inr hcov)
          · cases hs'
            exact Or.inl (Or.inl ⟨hin.1, by lia⟩)
          · exact Or.inl (Or.inl ⟨by lia, hin.2⟩)

/-!
## The current node
-/

def level (inc : List Bytes) : List Bytes -> Nat
  | [] => 0
  | name :: parents => if Fdt.pathOf (name :: parents) ∈ inc then 2 else level inc parents - 1

/-- The values of `want` that are put back when the nodes end. -/
def wants (inc : List Bytes) : List Bytes -> List Nat
  | [] => []
  | _ :: parents => level inc parents :: wants inc parents

/-- What `path` holds: the root is a slash, or nothing once a subnode has ended. -/
def PathOk : List Bytes -> Bytes -> Prop
  | [], path => path = []
  | [_], path => path = [47] ∨ path = []
  | nodes, path => path = Fdt.pathOf nodes

def NodesOk : List Bytes -> Prop
  | [] => True
  | name :: parents => Fdt.NameOk parents name ∧ NodesOk parents

structure Walk.Follows (inc : List Bytes) (nodes : List Bytes) (w : Walk) : Prop where
  names : NodesOk nodes
  path : PathOk nodes w.path
  want : w.want = level inc nodes
  stack : w.stack = wants inc nodes

theorem dropName_append {name : Bytes} (h : 47 ∉ name) (path : Bytes) :
    dropName (path ++ 47 :: name) = path := by
  unfold dropName
  rw [List.reverse_append, List.reverse_cons, List.append_assoc, List.singleton_append,
    List.dropWhile_append_of_pos, List.dropWhile_cons_of_neg (by simp), List.drop_one,
    List.tail_cons, List.reverse_reverse]
  intro b hb
  refine decide_eq_true ?_
  rintro rfl
  exact h (List.mem_reverse.mp hb)

theorem NodesOk.name {name parent : Bytes} {parents : List Bytes}
    (h : NodesOk (name :: parent :: parents)) : name ≠ [] ∧ 47 ∉ name := by
  have hname := h.1
  unfold Fdt.NameOk at hname
  rw [if_neg (List.cons_ne_nil parent parents)] at hname
  exact hname

theorem pathOf_length {name parent : Bytes} {parents : List Bytes}
    (h : NodesOk (name :: parent :: parents)) :
    2 ≤ (Fdt.pathOf (name :: parent :: parents)).length := by
  have hpos := List.length_pos_of_ne_nil h.name.1
  cases parents with
  | nil =>
      rw [Fdt.pathOf, List.length_cons]
      lia
  | cons p ps =>
      have hpath : Fdt.pathOf (name :: parent :: p :: ps) =
          Fdt.pathOf (parent :: p :: ps) ++ 47 :: name := rfl
      rw [hpath, List.length_append, List.length_cons]
      lia

theorem PathOk.begin {nodes : List Bytes} {path name : Bytes} (h : PathOk nodes path)
    (hnodes : NodesOk (name :: nodes)) :
    (if path.length = 1 then path else path ++ [47]) ++ name = Fdt.pathOf (name :: nodes) := by
  match nodes, h with
  | [], h =>
      have hname : name = [] := by
        have := hnodes.1
        unfold Fdt.NameOk at this
        rwa [if_pos rfl] at this
      have hpath : path = [] := h
      rw [hpath, hname]
      rfl
  | [root], h =>
      have hpath : path = [47] ∨ path = [] := h
      rcases hpath with rfl | rfl
      · rfl
      · rfl
  | parent :: p :: ps, h =>
      have hpath : path = Fdt.pathOf (parent :: p :: ps) := h
      have hlen := pathOf_length hnodes.2
      rw [← hpath] at hlen
      rw [if_neg (by lia), List.append_assoc, List.singleton_append, hpath]
      rfl

theorem pathOk_pathOf (nodes : List Bytes) : PathOk nodes (Fdt.pathOf nodes) := by
  match nodes with
  | [] => exact rfl
  | [_] => exact Or.inl rfl
  | _ :: _ :: _ => exact rfl

theorem PathOk.tail {name path : Bytes} {parents : List Bytes} (h : PathOk (name :: parents) path)
    (hnodes : NodesOk (name :: parents)) : PathOk parents (dropName path) := by
  match parents, h with
  | [], h =>
      have hpath : path = [47] ∨ path = [] := h
      rcases hpath with rfl | rfl
      · rfl
      · rfl
  | [root], h =>
      have hpath : path = [] ++ 47 :: name := h
      rw [hpath, dropName_append hnodes.name.2]
      exact Or.inr rfl
  | parent :: p :: ps, h =>
      have hpath : path = Fdt.pathOf (parent :: p :: ps) ++ 47 :: name := h
      rw [hpath, dropName_append hnodes.name.2]
      exact pathOk_pathOf _

theorem level_le (inc nodes : List Bytes) : level inc nodes ≤ 2 := by
  induction nodes with
  | nil => exact Nat.zero_le 2
  | cons name parents ih =>
      rw [level]
      split
      · exact Nat.le_refl 2
      · lia

/-- `want` is 2 in the nodes of the list only. -/
theorem two_le_level {inc nodes : List Bytes} :
    2 ≤ level inc nodes <-> nodes ≠ [] ∧ Fdt.pathOf nodes ∈ inc := by
  cases nodes with
  | nil =>
      rw [level]
      exact ⟨fun h => absurd h (by decide), fun h => absurd rfl h.1⟩
  | cons name parents =>
      rw [level]
      by_cases hin : Fdt.pathOf (name :: parents) ∈ inc
      · rw [if_pos hin]
        exact ⟨fun _ => ⟨List.cons_ne_nil name parents, hin⟩, fun _ => Nat.le_refl 2⟩
      · rw [if_neg hin]
        have := level_le inc parents
        exact ⟨fun h => by lia, fun h => absurd h.2 hin⟩

theorem level_pos {inc nodes : List Bytes} (hne : nodes ≠ [])
    (h : Fdt.pathOf nodes ∈ inc ∨ (nodes.tail ≠ [] ∧ Fdt.pathOf nodes.tail ∈ inc)) :
    level inc nodes ≠ 0 := by
  rcases h with hin | hparent
  · have := two_le_level.mpr ⟨hne, hin⟩
    lia
  · cases nodes with
    | nil => exact absurd rfl hne
    | cons name parents =>
        have := two_le_level.mpr hparent
        rw [List.tail_cons] at this
        rw [level]
        split
        · decide
        · lia

/-!
## One tag
-/

structure Handled (fdt : Fdt) (inc exc : List Bytes) (nodes : List Bytes) (e : Fdt.Elem)
    (w : Walk) (incl : Bool) (stopAt : Nat) (w' : Walk) : Prop where
  follows : e.tag ≠ .fin -> w'.Follows inc (fdt.nodesAfter nodes e)
  start : w'.start = w.start
  regions : w'.regions = w.regions
  stops : stopAt = e.offset ∨ stopAt = e.next
  wanted : Wanted fdt inc exc e (fdt.nodesIn nodes e) -> incl = true
  unwanted : Unwanted fdt inc exc e (fdt.nodesIn nodes e) -> incl = false ∧ stopAt = e.offset
  fin : e.tag = .fin -> incl = true

theorem nodeWant_level (inc : List Bytes) (name : Bytes) (nodes : List Bytes)
    (offset next : Nat) :
    (nodeWant inc (Fdt.pathOf (name :: nodes)) offset next (level inc nodes)).1 =
      level inc (name :: nodes) := by
  unfold nodeWant
  rw [level]
  dsimp only
  split
  · rfl
  · split
    · rfl
    · dsimp only
      lia

theorem nodeWant_stop (inc : List Bytes) (path : Bytes) (offset next want : Nat) :
    (nodeWant inc path offset next want).2 = offset ∨
      (nodeWant inc path offset next want).2 = next := by
  have hone : (if want = 1 then offset else next) = offset ∨
      (if want = 1 then offset else next) = next := by
    split
    · exact Or.inl rfl
    · exact Or.inr rfl
  unfold nodeWant
  dsimp only
  split
  · exact hone
  · split
    · exact hone
    · exact Or.inl rfl

theorem handled_begin {nodes : List Bytes} {offset next stopAt : Nat} {incl : Bool} {w w' : Walk}
    (hf : w.Follows inc nodes) (hok : Fdt.NameOk nodes (fdt.fdtGetName offset))
    (h : beginNode fdt inc pathLen offset next w = .ok (incl, stopAt, w')) :
    Handled fdt inc exc nodes ⟨.beginNode, offset, next⟩ w incl stopAt w' := by
  unfold beginNode at h
  split at h
  · cases h
  · dsimp only at h
    split at h
    · cases h
    · split at h
      · cases h
      · have hnodes : NodesOk (fdt.fdtGetName offset :: nodes) := ⟨hok, hf.names⟩
        rw [hf.path.begin hnodes] at h
        have hlevel := nodeWant_level inc (fdt.fdtGetName offset) nodes offset next
        have hstop := nodeWant_stop inc (Fdt.pathOf (fdt.fdtGetName offset :: nodes)) offset next
          w.want
        rw [← hf.want] at hlevel
        generalize nodeWant inc (Fdt.pathOf (fdt.fdtGetName offset :: nodes)) offset next w.want = r
          at h hlevel hstop
        cases h
        refine ⟨?_, rfl, rfl, hstop, ?_, ?_, ?_⟩
        · intro _
          refine ⟨hnodes, pathOk_pathOf _, hlevel, ?_⟩
          show w.want :: w.stack = level inc nodes :: wants inc nodes
          rw [hf.want, hf.stack]
        · intro hwanted
          rw [hlevel]
          exact bne_iff_ne.mpr (level_pos (List.cons_ne_nil _ _) hwanted)
        · intro hunwanted
          cases hunwanted.1
        · intro hfin
          cases hfin

theorem handled {nodes : List Bytes} {e : Fdt.Elem} {incl : Bool} {stopAt : Nat} {w w' : Walk}
    (hf : w.Follows inc nodes) (hok : fdt.ElemOk nodes e)
    (h : tagCase fdt inc exc pathLen e.tag e.offset e.next w = .ok (incl, stopAt, w')) :
    Handled fdt inc exc nodes e w incl stopAt w' := by
  rcases e with ⟨tag, offset, next⟩
  cases tag with
  | beginNode => exact handled_begin hf hok h
  | endNode =>
      cases nodes with
      | nil => exact absurd rfl hok
      | cons name parents =>
          unfold tagCase at h
          rw [hf.stack, wants] at h
          cases h
          refine ⟨?_, rfl, rfl, Or.inr rfl, ?_, ?_, ?_⟩
          · intro _
            exact ⟨hf.names.2, hf.path.tail hf.names, rfl, rfl⟩
          · intro hwanted
            rw [hf.want]
            exact bne_iff_ne.mpr (level_pos (List.cons_ne_nil _ _) hwanted)
          · intro hunwanted
            cases hunwanted.1
          · intro hfin
            cases hfin
  | prop =>
      rcases hok with ⟨hne, _⟩
      unfold tagCase at h
      dsimp only at h
      cases hstr : fdt.propName offset with
      | none =>
        rw [hstr] at h
        cases h
      | some str =>
        rw [hstr] at h
        cases h
        refine ⟨fun _ => hf, rfl, rfl, Or.inl rfl, ?_, ?_, ?_⟩
        · intro hwanted
          have hlevel := two_le_level.mpr ⟨hne, hwanted.1⟩
          rw [← hf.want] at hlevel
          rw [decide_eq_true hlevel, decide_eq_false (hwanted.2 str hstr)]
          rfl
        · rintro ⟨_, hunwanted⟩
          refine ⟨?_, rfl⟩
          rcases hunwanted with hout | ⟨name, hname, hexc⟩
          · have hlevel : ¬ 2 ≤ w.want := by
              rw [hf.want]
              exact fun hle => hout (two_le_level.mp hle).2
            rw [decide_eq_false hlevel]
            rfl
          · have hsame : str = name := Option.some.inj (hstr.symm.trans hname)
            rw [hsame, decide_eq_true hexc]
            exact Bool.and_false _
        · intro hfin
          cases hfin
  | nop =>
      cases h
      refine ⟨fun _ => hf, rfl, rfl, Or.inl rfl, ?_, ?_, ?_⟩
      · intro hwanted
        rw [hf.want]
        exact decide_eq_true (two_le_level.mpr hwanted)
      · intro hunwanted
        cases hunwanted.1
      · intro hfin
        cases hfin
  | fin =>
      cases h
      refine ⟨fun hne => absurd rfl hne, rfl, rfl, Or.inr rfl, fun _ => rfl, ?_, fun _ => rfl⟩
      intro hunwanted
      cases hunwanted.1

theorem Walk.Laid.congr {w w' : Walk} {offset : Nat} (h : w.Laid fdt offset)
    (hstart : w'.start = w.start) (hregions : w'.regions = w.regions) : w'.Laid fdt offset where
  ordered := by
    rw [hregions]
    exact h.ordered
  lower := by
    rw [hregions]
    exact h.lower
  upper := by
    rw [hregions, hstart]
    exact h.upper
  start := by
    rw [hstart]
    exact h.start

theorem Walk.covered_congr {w w' : Walk} {offset x : Nat} (hstart : w'.start = w.start)
    (hregions : w'.regions = w.regions) : w'.Covered fdt offset x <-> w.Covered fdt offset x := by
  unfold Walk.Covered
  rw [hstart, hregions]

structure Passed (fdt : Fdt) (inc exc : List Bytes) (nodes : List Bytes) (e : Fdt.Elem)
    (covered covered' : Nat -> Prop) : Prop where
  before : forall x, x < e.offset -> (covered' x <-> covered x)
  wanted : Wanted fdt inc exc e nodes -> forall x, e.offset ≤ x -> x < e.next -> covered' x
  unwanted : Unwanted fdt inc exc e nodes -> forall x, e.offset ≤ x -> ¬ covered' x

theorem regionStep_spec (maxRegions : Nat) {nodes : List Bytes} {e : Fdt.Elem} {incl : Bool}
    {stopAt : Nat} {w w' : Walk} (hl : w.Laid fdt e.offset) (hnext : e.offset < e.next)
    (h : Handled fdt inc exc nodes e w incl stopAt w') :
    (regionStep fdt maxRegions incl e.offset stopAt w').Laid fdt e.next ∧
      Passed fdt inc exc (fdt.nodesIn nodes e) e (w.Covered fdt e.offset)
        ((regionStep fdt maxRegions incl e.offset stopAt w').Covered fdt e.next) := by
  have hl' := hl.congr h.start h.regions
  have hcov : forall x, w'.Covered fdt e.offset x <-> w.Covered fdt e.offset x :=
    fun x => Walk.covered_congr h.start h.regions
  unfold regionStep
  cases hincl : incl with
  | true =>
      rcases openRegion_spec maxRegions hl' hnext with ⟨hlaid, _, hopen⟩
      rw [if_pos rfl]
      refine ⟨hlaid, ?_, ?_, ?_⟩
      · intro x hx
        rw [hopen, hcov]
        exact ⟨fun hor => hor.resolve_right fun hin => by lia, Or.inl⟩
      · intro _ x hle hlt
        exact (hopen x).mpr (Or.inr ⟨hle, hlt⟩)
      · intro hunwanted
        have := (h.unwanted hunwanted).1
        rw [hincl] at this
        cases this
  | false =>
      have hplace : e.offset ≤ stopAt ∧ stopAt ≤ e.next := by
        rcases h.stops with hs | hs
        · lia
        · lia
      rcases closeRegion_spec hl' hnext hplace.1 hplace.2 with ⟨hlaid, hclose⟩
      rw [if_neg (by decide)]
      refine ⟨hlaid, ?_, ?_, ?_⟩
      · intro x hx
        rw [hclose, hcov]
        exact ⟨fun hor => hor.resolve_right fun hin => by lia, Or.inl⟩
      · intro hwanted
        have := h.wanted hwanted
        rw [hincl] at this
        cases this
      · intro hunwanted x hle hx
        have hstop := (h.unwanted hunwanted).2
        rcases (hclose x).mp hx with hold | ⟨_, _, hlt⟩
        · have := hl'.covered_lt hold
          lia
        · lia

theorem Walk.Follows.regionStep {nodes : List Bytes} {w : Walk} (h : w.Follows inc nodes)
    (incl : Bool) (offset stopAt : Nat) :
    (regionStep fdt maxRegions incl offset stopAt w).Follows inc nodes := by
  unfold FdtRegion.regionStep openRegion closeRegion
  cases incl with
  | true =>
      rw [if_pos rfl]
      split
      · exact h
      · exact ⟨h.names, h.path, h.want, h.stack⟩
      · split
        · exact ⟨h.names, h.path, h.want, h.stack⟩
        · exact ⟨h.names, h.path, h.want, h.stack⟩
  | false =>
      rw [if_neg (by decide)]
      split
      · exact h
      · exact ⟨h.names, h.path, h.want, h.stack⟩

/-!
## All tags
-/

structure Finished (fdt : Fdt) (inc exc : List Bytes) (placed : List (Fdt.Elem × List Bytes))
    (offset next : Nat) (w w' : Walk) : Prop where
  laid : w'.Laid fdt next
  opened : w'.start ≠ none
  before : forall x, x < offset -> (w'.Covered fdt next x <-> w.Covered fdt offset x)
  wanted : forall e nodes, (e, nodes) ∈ placed -> Wanted fdt inc exc e nodes ->
    forall x, e.offset ≤ x -> x < e.next -> w'.Covered fdt next x
  unwanted : forall e nodes, (e, nodes) ∈ placed -> Unwanted fdt inc exc e nodes ->
    forall x, e.offset ≤ x -> x < e.next -> ¬ w'.Covered fdt next x

theorem Finished.cons {placed : List (Fdt.Elem × List Bytes)} {e : Fdt.Elem} {nodes : List Bytes}
    {next : Nat} {w w₁ w' : Walk} (hnext : e.offset < e.next)
    (hpassed : Passed fdt inc exc nodes e (w.Covered fdt e.offset) (w₁.Covered fdt e.next))
    (h : Finished fdt inc exc placed e.next next w₁ w') :
    Finished fdt inc exc ((e, nodes) :: placed) e.offset next w w' where
  laid := h.laid
  opened := h.opened
  before := by
    intro x hx
    exact (h.before x (Nat.lt_trans hx hnext)).trans (hpassed.before x hx)
  wanted := by
    intro e' nodes' hmem hwanted x hle hlt
    rcases List.mem_cons.mp hmem with heq | hmem
    · cases heq
      exact (h.before x hlt).mpr (hpassed.wanted hwanted x hle hlt)
    · exact h.wanted e' nodes' hmem hwanted x hle hlt
  unwanted := by
    intro e' nodes' hmem hunwanted x hle hlt
    rcases List.mem_cons.mp hmem with heq | hmem
    · cases heq
      exact fun hx => hpassed.unwanted hunwanted x hle ((h.before x hlt).mp hx)
    · exact h.unwanted e' nodes' hmem hunwanted x hle hlt

theorem findLoop_spec {fuel offset next : Nat} {nodes : List Bytes} {w w' : Walk}
    (hnested : fdt.Nested nodes (fdt.tagsFrom fuel offset)) (hf : w.Follows inc nodes)
    (hl : w.Laid fdt offset)
    (h : findLoop fdt inc exc maxRegions pathLen fuel offset w = some (.ok ((next : Int), w'))) :
    Finished fdt inc exc (fdt.placed nodes (fdt.tagsFrom fuel offset)) offset next w w' := by
  induction fuel generalizing offset nodes w with
  | zero => cases h
  | succ fuel ih =>
      rw [findLoop] at h
      dsimp only at h
      split at h
      · cases h
      · split at h
        · cases h
        · rename_i incl stopAt w₁ hcase
          rcases htag : fdt.fdtNextTag offset with ⟨tag, n⟩
          rw [htag] at h hcase
          rcases Fdt.fdtNextTag_spec htag with ⟨hfin, hneg⟩ | ⟨n, rfl, hlt, _⟩
          · subst hfin
            rw [if_pos rfl] at h
            cases h
            lia
          · have helem : fdt.tagsFrom (fuel + 1) offset =
                ⟨tag, offset, n⟩ :: if tag = .fin then [] else fdt.tagsFrom fuel n := by
              rw [Fdt.tagsFrom, htag]
              cases tag with
              | fin => rfl
              | _ => rfl
            rw [helem] at hnested ⊢
            rcases hnested with ⟨hok, hrest⟩
            have hhandled := handled hf hok hcase
            rcases regionStep_spec maxRegions (e := ⟨tag, offset, n⟩) hl hlt hhandled with
              ⟨hlaid, hpassed⟩
            by_cases hfin : tag = .fin
            · rw [if_pos hfin] at h ⊢
              cases h
              refine Finished.cons hlt hpassed ⟨hlaid, ?_, fun _ _ => Iff.rfl, ?_, ?_⟩
              · rw [hhandled.fin hfin]
                exact
                  (openRegion_spec maxRegions (hl.congr hhandled.start hhandled.regions) hlt).2.1
              · intro e nodes hmem
                cases hmem
              · intro e nodes hmem
                cases hmem
            · rw [if_neg hfin] at h hrest ⊢
              rw [if_neg hfin] at hrest
              exact Finished.cons hlt hpassed
                (ih hrest ((hhandled.follows hfin).regionStep incl offset stopAt) hlaid h)

/-!
## A call
-/

/-- The search always ends: each tag but the last one is behind the one before it. -/
theorem findLoop_isSome {fuel offset : Nat} (w : Walk) (hpos : 0 < fuel)
    (hfuel : fdt.dtStruct.length < fuel + offset) :
    (findLoop fdt inc exc maxRegions pathLen fuel offset w).isSome := by
  induction fuel generalizing offset w with
  | zero => exact absurd hpos (Nat.lt_irrefl 0)
  | succ fuel ih =>
      rw [findLoop]
      dsimp only
      split
      · rfl
      · split
        · rfl
        · rename_i incl stopAt w₁ hcase
          rcases htag : fdt.fdtNextTag offset with ⟨tag, n⟩
          dsimp only
          split
          · rfl
          · rename_i hne
            rcases Fdt.fdtNextTag_spec htag with ⟨hfin, _⟩ | ⟨n, rfl, hlt, hlen⟩
            · exact absurd hfin hne
            · rw [Int.toNat_natCast]
              exact ih _ (by lia) (by lia)

theorem find_regions_returns (fdt : Fdt) (inc exc : List Bytes) (maxRegions pathLen : Nat)
    (addStringTab : Bool) :
    (fdtFindRegions fdt inc exc maxRegions pathLen addStringTab).isSome := by
  have hloop : (findLoop fdt inc exc maxRegions pathLen (fdt.dtStruct.length + 1) 0
      Walk.init).isSome :=
    findLoop_isSome Walk.init (Nat.succ_pos _) (Nat.lt_succ_self _)
  unfold fdtFindRegions
  split
  · rename_i hnone
    rw [hnone] at hloop
    exact hloop
  · rfl
  · split
    · rfl
    · rfl

/-- The regions are in order, inside the struct block, and contain what is wanted and
nothing of what is not. -/
theorem find_regions_cover (fdt : Fdt) (inc exc : List Bytes) (maxRegions pathLen count : Nat)
    (regions : List FdtRegion) (hwf : fdt.WellFormed)
    (h : fdtFindRegions fdt inc exc maxRegions pathLen false = some (.ok (count, regions)))
    (hcount : count ≤ maxRegions) :
    regions.length = count ∧ Regions.Ordered (regions.map span) ∧
      (forall r, r ∈ regions -> fdt.offDtStruct ≤ r.offset ∧
        r.span.stop ≤ fdt.offDtStruct + fdt.dtStruct.length) ∧
      (forall e nodes, (e, nodes) ∈ fdt.placed [] fdt.tags -> Wanted fdt inc exc e nodes ->
        forall x, e.offset ≤ x -> x < e.next -> Covered fdt regions x) ∧
      (forall e nodes, (e, nodes) ∈ fdt.placed [] fdt.tags -> Unwanted fdt inc exc e nodes ->
        forall x, e.offset ≤ x -> x < e.next -> ¬ Covered fdt regions x) := by
  unfold fdtFindRegions at h
  split at h
  · cases h
  · cases h
  · rename_i nextoffset w hloop
    split at h
    · cases h
    · rename_i hsize
      rw [Decidable.not_not] at hsize
      subst hsize
      have hfollows : Walk.init.Follows inc [] := ⟨trivial, rfl, rfl, rfl⟩
      have hlaid : Walk.init.Laid fdt 0 :=
        ⟨Regions.ordered_nil, fun _ hr => absurd hr List.not_mem_nil,
          fun _ hr => absurd hr List.not_mem_nil, fun _ hs => by cases hs⟩
      have hdone := findLoop_spec hwf.nested hfollows hlaid hloop
      rcases Option.ne_none_iff_exists'.mp hdone.opened with ⟨start, hstart⟩
      have hlt := hdone.laid.start start hstart
      have hclose := closeRegion_spec hdone.laid (Nat.lt_succ_self _) (Nat.le_refl _)
        (Nat.le_succ _)
      rw [closeRegion, hstart] at hclose
      rw [hstart] at h
      dsimp only [Option.getD_some] at h
      rw [if_neg (by decide), Nat.add_zero] at h
      cases h
      have hall : forall x, Covered fdt
          (⟨fdt.offDtStruct + start, fdt.dtStruct.length - start⟩ :: w.regions) x <->
            w.Covered fdt fdt.dtStruct.length x := by
        intro x
        have hx := hclose.2 x
        constructor
        · intro hcov
          exact (hx.mp (Or.inl hcov)).resolve_right fun hin => by lia
        · intro hcov
          rcases hx.mpr (Or.inl hcov) with hcov | ⟨_, hs, _⟩
          · exact hcov
          · cases hs
      have hrev : forall x, Covered fdt
          (⟨fdt.offDtStruct + start, fdt.dtStruct.length - start⟩ :: w.regions).reverse x <->
            w.Covered fdt fdt.dtStruct.length x := by
        intro x
        rw [← hall]
        unfold Covered
        simp only [List.mem_reverse]
      rw [List.take_of_length_le (by rw [List.length_reverse]; exact hcount)]
      refine ⟨List.length_reverse, hclose.1.ordered, ?_, ?_, ?_⟩
      · intro r hr
        rcases List.mem_cons.mp (List.mem_reverse.mp hr) with rfl | hr
        · refine ⟨Nat.le_add_right _ _, ?_⟩
          show fdt.offDtStruct + start + (fdt.dtStruct.length - start) ≤ _
          lia
        · have hupper := hdone.laid.upper r hr
          rw [hstart, Option.getD_some] at hupper
          exact ⟨hdone.laid.lower r hr, by lia⟩
      · intro e nodes hmem hwanted x hle hlt
        exact (hrev x).mpr (hdone.wanted e nodes hmem hwanted x hle hlt)
      · intro e nodes hmem hunwanted x hle hlt hcov
        exact hdone.unwanted e nodes hmem hunwanted x hle hlt ((hrev x).mp hcov)

def smallTree : Fdt where
  offDtStruct := 56
  dtStruct := [0, 0, 0, 1, 0, 0, 0, 0, 0, 0, 0, 1, 97, 0, 0, 0, 0, 0, 0, 3, 0, 0, 0, 1, 0, 0, 0, 0,
    7, 0, 0, 0, 0, 0, 0, 2, 0, 0, 0, 2, 0, 0, 0, 9]
  dtStrings := [107, 0]

/-- The tags of `a` are signed without its property. -/
theorem small_tree_signed :
    smallTree.WellFormed ∧
      fdtFindRegions smallTree [str "/a"] [str "k"] 16 64 false =
        some (.ok (2, [⟨64, 8⟩, ⟨88, 12⟩])) ∧
      (forall e nodes, (e, nodes) ∈ smallTree.placed [] smallTree.tags ->
        Unwanted smallTree [str "/a"] [str "k"] e nodes ->
        forall x, e.offset ≤ x -> x < e.next ->
          ¬ Covered smallTree [⟨64, 8⟩, ⟨88, 12⟩] x) := by
  have hwf : smallTree.WellFormed := ⟨by decide, by decide +kernel⟩
  have hrun : fdtFindRegions smallTree [str "/a"] [str "k"] 16 64 false =
      some (.ok (2, [⟨64, 8⟩, ⟨88, 12⟩])) := by
    decide +kernel
  exact ⟨hwf, hrun, (find_regions_cover smallTree [str "/a"] [str "k"] 16 64 2
    [⟨64, 8⟩, ⟨88, 12⟩] hwf hrun (by decide)).2.2.2.2⟩

end

end FdtRegion
end UBoot
end Hlk7621
