import Mathlib.Data.Fintype.EquivFin
import Mathlib.Data.List.Basic
import Mathlib.Data.Set.Finite.Basic
import Mathlib.Tactic.Common

/-!
# Runs of a state machine

A machine is a step function on a type `S` of states with events of type `ε`,
and a run folds it over a list of events.  `Along good` says that every step of
a run is taken from a state and with an event that satisfy `good`.
-/

namespace Hlk7621
namespace Runs

variable {S ε : Type} (step : S -> ε -> S)

def Along (good : S -> ε -> Prop) : S -> List ε -> Prop
  | _, [] => True
  | s, e :: events => good s e ∧ Along good (step s e) events

instance decidableAlong (good : S -> ε -> Prop) [DecidableRel good] :
    (s : S) -> (events : List ε) -> Decidable (Along step good s events)
  | _, [] => isTrue trivial
  | s, e :: events =>
      have := decidableAlong good (step s e) events
      inferInstanceAs (Decidable (good s e ∧ Along step good (step s e) events))

variable {step} {good : S -> ε -> Prop}

theorem along_append {s : S} {xs ys : List ε} :
    Along step good s (xs ++ ys) <->
      Along step good s xs ∧ Along step good (xs.foldl step s) ys := by
  induction xs generalizing s with
  | nil => simp [Along]
  | cons e xs ih =>
      rw [List.cons_append, Along, Along, ih, List.foldl_cons, and_assoc]

/-- What every good step preserves holds at the end of every good run. -/
theorem invariant {Inv : S -> Prop}
    (hstep : forall s e, good s e -> Inv s -> Inv (step s e)) {s : S}
    {events : List ε} (hgood : Along step good s events) (hs : Inv s) :
    Inv (events.foldl step s) := by
  induction events generalizing s with
  | nil => exact hs
  | cons e events ih => exact ih hgood.right (hstep s e hgood.left hs)

theorem Along.and {good' : S -> ε -> Prop} {s : S} {events : List ε}
    (h : Along step good s events) (h' : Along step good' s events) :
    Along step (fun s e => good s e ∧ good' s e) s events := by
  induction events generalizing s with
  | nil => trivial
  | cons e events ih => exact ⟨⟨h.left, h'.left⟩, ih h.right h'.right⟩

theorem Along.mono {good' : S -> ε -> Prop} {s : S} {events : List ε}
    (h : Along step good s events) (himp : forall s e, good s e -> good' s e) :
    Along step good' s events := by
  induction events generalizing s with
  | nil => trivial
  | cons e events ih => exact ⟨himp s e h.left, ih h.right⟩

theorem Along.of_forall (h : forall s e, good s e) (s : S) (events : List ε) :
    Along step good s events := by
  induction events generalizing s with
  | nil => trivial
  | cons e events ih => exact ⟨h s e, ih _⟩

/-!
## Termination
-/

variable (step)

def states (s : S) (events : Nat -> ε) : Nat -> S
  | 0 => s
  | n + 1 => step (states s events n) (events n)

variable {step}

theorem states_invariant {Inv : S -> Prop}
    (hstep : forall s e, Inv s -> Inv (step s e)) {s : S} (hs : Inv s)
    (events : Nat -> ε) (n : Nat) : Inv (states step s events n) := by
  induction n with
  | zero => exact hs
  | succ n ih => exact hstep _ _ ih

/-- A run whose steps keep an invariant and decrease a measure until a goal is
reached, reaches it. -/
theorem states_reach {Inv : S -> Prop} (Goal : S -> Prop) (μ : S -> Nat)
    (hstep : forall s e, Inv s -> Inv (step s e))
    (hμ : forall s e, Inv s -> ¬ Goal s -> μ (step s e) < μ s) {s : S} (hs : Inv s)
    (events : Nat -> ε) : exists n, Goal (states step s events n) := by
  have hreach : forall m n, μ (states step s events n) ≤ m ->
      exists k, Goal (states step s events k) := by
    intro m
    induction m with
    | zero =>
        intro n hn
        by_contra hnone
        have hlt := hμ _ (events n) (states_invariant hstep hs events n)
          (fun hgoal => hnone ⟨n, hgoal⟩)
        lia
    | succ m ih =>
        intro n hn
        by_cases hgoal : Goal (states step s events n)
        · exact ⟨n, hgoal⟩
        · have hlt := hμ _ (events n) (states_invariant hstep hs events n) hgoal
          exact ih (n + 1) (Nat.lt_succ_iff.mp (Nat.lt_of_lt_of_le hlt hn))
  exact hreach _ 0 (Nat.le_refl _)

/-!
## Machines without events
-/

/-- A machine without events that repeats a state goes on for ever with what it has
passed through. -/
theorem iterate_repeats {f : S -> S} {Live : S -> Prop} {s : S} {i j : Nat} (hij : i < j)
    (hlive : forall k, k ≤ j -> Live (f^[k] s)) (hback : f^[i] s = f^[j] s) (n : Nat) :
    Live (f^[n] s) := by
  have hreturns : forall n, exists k, k < j ∧ f^[n] s = f^[k] s := by
    intro n
    induction n with
    | zero => exact ⟨0, by lia, rfl⟩
    | succ n ih =>
        rcases ih with ⟨k, hk, heq⟩
        have hnext : f^[n + 1] s = f^[k + 1] s := by
          rw [Function.iterate_succ_apply', heq, Function.iterate_succ_apply']
        by_cases hlast : k + 1 = j
        · exact ⟨i, hij, by rw [hnext, hlast, hback]⟩
        · exact ⟨k + 1, by lia, hnext⟩
  rcases hreturns n with ⟨k, hk, heq⟩
  rw [heq]
  exact hlive k (Nat.le_of_lt hk)

/-- Among finitely many live states a machine stops to be live if and only if it repeats
none of them before. -/
theorem iterate_leaves_iff {f : S -> S} {Live : S -> Prop} (hfinite : {s | Live s}.Finite)
    (s : S) :
    (exists n, ¬ Live (f^[n] s)) <->
      forall i j, i < j -> (forall k, k ≤ j -> Live (f^[k] s)) -> f^[i] s ≠ f^[j] s := by
  constructor
  · rintro ⟨n, hn⟩ i j hij hlive hback
    exact hn (iterate_repeats hij hlive hback n)
  · intro hnone
    by_contra hall
    push Not at hall
    have hinj : Function.Injective fun n => (⟨f^[n] s, hall n⟩ : {s | Live s}) := by
      intro i j heq
      have hback : f^[i] s = f^[j] s := congrArg Subtype.val heq
      rcases Nat.lt_trichotomy i j with hij | hij | hij
      · exact absurd hback (hnone i j hij fun k _ => hall k)
      · exact hij
      · exact absurd hback.symm (hnone j i hij fun k _ => hall k)
    have := hfinite.to_subtype
    exact not_injective_infinite_finite _ hinj

end Runs
end Hlk7621
