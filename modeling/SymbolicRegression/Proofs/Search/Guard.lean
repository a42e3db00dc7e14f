import SymbolicRegression.Proofs.Expr.Guard
import SymbolicRegression.Proofs.Search.Invariant

/-!
# Searches among guarded expressions

What no mutation can lose is kept by every generation of a climb, so it holds of the best formula
at every moment if it holds of the first. That expressions are guarded is such a property: fresh
trees are guarded, and whatever a mutation replaces, moves or wraps, it puts nodes together by
`combine` alone.
-/
namespace SymbolicRegression

open Mutation Draw

/-- No mutation puts a small literal under a multiplication or a division. -/
theorem Mutation.Context.closed_isGuarded (c : Context) : c.Closed Expr.IsGuarded where
  literal _ := trivial
  input _ _ := trivial
  combine _ _ _ hleft hright := Expr.isGuarded_combine.mpr ⟨hleft, hright⟩
  operands _ _ _ h := h.2

namespace Search.Climb

variable {σ : Type} [WordSource σ] {P : Expr → Prop}

/-- One generation keeps what no mutation can lose. -/
theorem best_of_step {climb climb' : Climb σ} {outcome : Outcome}
    (closed : ∀ c : Context, c.Closed P) (best : P climb.best.formula.root)
    (run : climb.step = .ok (climb', outcome)) : P climb'.best.formula.root := by
  obtain ⟨formula, source, drawn, settled⟩ := exists_of_step run
  have kept : P formula.root := (Formula.yields_mutate (closed _) (admits_all _) best).ok drawn
  rw [settle] at settled
  split_ifs at settled
  · obtain ⟨rfl, rfl⟩ := Prod.mk.inj settled
    exact kept
  · obtain ⟨rfl, rfl⟩ := Prod.mk.inj settled
    exact best

/-- Any number of generations keeps it. -/
theorem best_of_steps {climb last : Climb σ} {n : ℕ} {outcomes : List Outcome}
    (closed : ∀ c : Context, c.Closed P) (best : P climb.best.formula.root)
    (run : climb.steps n = .ok (last, outcomes)) : P last.best.formula.root := by
  induction n generalizing climb outcomes with
  | zero =>
    obtain ⟨rfl, rfl⟩ := Prod.mk.inj (Except.ok.inj run)
    exact best
  | succ n ih =>
    obtain ⟨middle, outcome, rest, first, tail, rfl⟩ := exists_of_steps_succ run
    exact ih (best_of_step closed best first) tail

/-- A climb starts with it if it starts from a random formula, or from one that has it. -/
theorem best_of_start {d : Dataset} {config : Config} {source : σ} {first : Option Formula}
    {climb : Climb σ} (closed : ∀ c : Context, c.Closed P)
    (hfirst : ∀ f, first = some f → P f.root)
    (started : start d config source first = .ok climb) : P climb.best.formula.root := by
  cases first with
  | some f =>
    rw [best_of_start_some started]
    exact hfirst f rfl
  | none =>
    unfold start at started
    split at started
    · cases started
    next c context =>
      cases drawn : Formula.random c source with
      | error e =>
        rw [firstFormula, drawn] at started
        cases started
      | ok result =>
        rw [firstFormula, drawn] at started
        cases started
        exact (Formula.yields_random (closed c) (admits_all c)).ok drawn

/-- No multiplication or division by a small literal ever comes up. Fresh trees are guarded; a
mutation of a guarded expression, or of a guarded formula, is guarded, whatever it comes to do at
which node; and the best formula of a climb that started from no formula, or from a guarded one, is
guarded after any number of generations. -/
theorem search_isGuarded (σ : Type) [WordSource σ] :
    (∀ (c : Context) (source source' : σ) (e : Expr),
      c.freshTree source = .ok (e, source') → e.IsGuarded) ∧
    (∀ (c : Context) (source source' : σ) (e e' : Expr), e.IsGuarded →
      c.mutate e source = .ok (e', source') → e'.IsGuarded) ∧
    (∀ (c : Context) (source source' : σ) (f f' : Formula), f.root.IsGuarded →
      f.mutate c source = .ok (f', source') → f'.root.IsGuarded) ∧
    (∀ (d : Dataset) (config : Config) (source : σ) (first : Option Formula)
      (climb last : Climb σ) (n : ℕ) (outcomes : List Outcome),
      (∀ f, first = some f → f.root.IsGuarded) → start d config source first = .ok climb →
        climb.steps n = .ok (last, outcomes) → last.best.formula.root.IsGuarded) := by
  have closed := Context.closed_isGuarded
  refine ⟨?_, ?_, ?_, ?_⟩
  · intro c source source' e drawn
    exact (Context.yields_freshTree (closed c) (admits_all c)).ok drawn
  · intro c source source' e e' guarded drawn
    exact (Context.yields_mutate (closed c) (admits_all c) guarded).ok drawn
  · intro c source source' f f' guarded drawn
    exact (Formula.yields_mutate (closed c) (admits_all c) guarded).ok drawn
  · intro d config source first climb last n outcomes hfirst started run
    exact best_of_steps closed (best_of_start closed hfirst started) run

omit [WordSource σ] in
/-- A draw whose result is known comes to it with some source behind it. -/
theorem exists_of_map_fst {α ε : Type} {drawn : Except ε (α × σ)} {a : α}
    (h : drawn.map Prod.fst = .ok a) : ∃ source, drawn = .ok (a, source) := by
  cases drawn with
  | error e => cases h
  | ok result =>
    cases h
    exact ⟨result.2, rfl⟩

/-- Words on which an addition becomes a multiplication, and nothing else happens. -/
def scalingWords : List UInt32 :=
  [0xFFFFFFFF, 0xFFFFFFFF, 0, 0, 0x80000000] ++ List.replicate 16 0xFFFFFFFF

/-- One half may be added to an input. If the sum becomes a product, the factor becomes one, so the
product is guarded, unlike that with one half. The same holds if the sum is a formula of its own,
which then is not replaced. On nothing but zeros a fresh tree is a literal, and a climb from an
input goes on to a literal too. -/
theorem search_isGuarded_scaling :
    (Expr.binary .add (.input "first") (.literal 0.5)).IsGuarded ∧
    ¬(Expr.binary .multiply (.input "first") (.literal 0.5)).IsGuarded ∧
    (∃ source e, (Context.standard Dataset.sample).freshTree (Script.ofWords #[]) =
      .ok (e, source) ∧ e.IsGuarded) ∧
    (∃ source, (Context.standard Dataset.sample).mutate
        (.binary .add (.input "first") (.literal 0.5)) (Script.ofWords scalingWords.toArray) =
          .ok (.binary .multiply (.input "first") (.literal 1.0), source) ∧
      (Expr.binary .multiply (.input "first") (.literal 1.0)).IsGuarded) ∧
    (∃ source, Formula.mutate (Context.standard Dataset.sample)
        ⟨.binary .add (.input "first") (.literal 0.5)⟩
        (Script.ofWords (0xFFFFFFFF :: 0xFFFFFFFF :: scalingWords).toArray) =
          .ok (⟨.binary .multiply (.input "first") (.literal 1.0)⟩, source) ∧
      (Expr.binary .multiply (.input "first") (.literal 1.0)).IsGuarded) ∧
    ∃ climb last, start Dataset.sample Config.standard (Script.ofWords #[])
        (some ⟨.input "first"⟩) = .ok climb ∧
      climb.steps 2 = .ok (last, [.accepted, .rejected]) ∧
      last.best.formula.root.IsGuarded := by
  have guarded : (Expr.binary .add (.input "first") (.literal 0.5)).IsGuarded := by
    decide +kernel
  obtain ⟨fresh, mutated, mutatedFormula, climbed⟩ := search_isGuarded Script
  refine ⟨guarded, by decide +kernel, ?_, ?_, ?_, ?_⟩
  · obtain ⟨source, drawn⟩ : ∃ source, (Context.standard Dataset.sample).freshTree
        (Script.ofWords #[]) = .ok (.literal (-100.0), source) :=
      exists_of_map_fst (by decide +kernel)
    exact ⟨source, _, drawn, fresh _ _ _ _ drawn⟩
  · obtain ⟨source, drawn⟩ : ∃ source, (Context.standard Dataset.sample).mutate
        (.binary .add (.input "first") (.literal 0.5)) (Script.ofWords scalingWords.toArray) =
          .ok (.binary .multiply (.input "first") (.literal 1.0), source) :=
      exists_of_map_fst (by decide +kernel)
    exact ⟨source, drawn, mutated _ _ _ _ _ guarded drawn⟩
  · obtain ⟨source, drawn⟩ : ∃ source, Formula.mutate (Context.standard Dataset.sample)
        ⟨.binary .add (.input "first") (.literal 0.5)⟩
        (Script.ofWords (0xFFFFFFFF :: 0xFFFFFFFF :: scalingWords).toArray) =
          .ok (⟨.binary .multiply (.input "first") (.literal 1.0)⟩, source) :=
      exists_of_map_fst (by decide +kernel)
    exact ⟨source, drawn, mutatedFormula _ _ _ _ _ guarded drawn⟩
  · obtain ⟨climb, last, started, run⟩ := steps_of_zeros
    refine ⟨climb, last, started, run, climbed _ _ _ _ climb last 2 _ ?_ started run⟩
    rintro f ⟨⟩
    trivial

end Search.Climb
end SymbolicRegression
