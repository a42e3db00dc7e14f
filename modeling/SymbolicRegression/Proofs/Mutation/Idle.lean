import SymbolicRegression.Mutation.Variation
import SymbolicRegression.Proofs.Expr.Guard
import SymbolicRegression.Proofs.Mutation.Parameters
import SymbolicRegression.Proofs.Random.Never

/-!
# Mutation with nothing enabled

Where no chance can come up, the words are drawn all the same, so many for each node, and the nodes
are put together again. That is not without effect: literals that are operands of a multiplication
or a division are moved away from zero on the way.
-/
namespace SymbolicRegression.Mutation

open Draw WordSource

/-- Whether all chances are zero. -/
def Parameters.IsIdle (p : Parameters) : Prop := ∀ chance ∈ p.chances, (chance.2 == 0.0) = true

instance (p : Parameters) : Decidable p.IsIdle :=
  inferInstanceAs (Decidable (∀ chance ∈ p.chances, (chance.2 == 0.0) = true))

theorem Parameters.isIdle_iff {p : Parameters} :
    p.IsIdle ↔ (p.wrap == 0.0) = true ∧ (p.change == 0.0) = true ∧
      (p.changeOperator == 0.0) = true ∧ (p.regenerate == 0.0) = true ∧
      (p.collapse == 0.0) = true := by
  simp [IsIdle, chances]

namespace Context

variable {σ : Type} [WordSource σ] {c : Context}

theorem mutateLiteral_of_zero (h : (c.parameters.change == 0.0) = true) (x : Float) (s : σ) :
    c.mutateLiteral x s = .ok (.literal x, drop 2 s) := unless_of_zero h _ _ s

theorem mutateInput_of_zero (h : (c.parameters.change == 0.0) = true) (name : String) (s : σ) :
    c.mutateInput name s = .ok (.input name, drop 2 s) := unless_of_zero h _ _ s

theorem mutateOperator_of_zero (h : (c.parameters.changeOperator == 0.0) = true) (op : Operator)
    (s : σ) : c.mutateOperator op s = .ok (op, drop 2 s) := unless_of_zero h _ _ s

theorem grow_of_zero (h : (c.parameters.wrap == 0.0) = true) (e : Expr) (s : σ) :
    c.grow e s = .ok (e, drop 2 s) := unless_of_zero h _ _ s

theorem freshOr_of_zero (h : (c.parameters.regenerate == 0.0) = true) (mutated : Draw σ Expr)
    (s : σ) : c.freshOr mutated s = mutated (drop 2 s) := unless_of_zero h _ _ s

/-- Four words are drawn for a leaf, and ten for a binary node besides those for its operands. -/
theorem mutate_of_idle (idle : c.parameters.IsIdle) (e : Expr) (s : σ) :
    c.mutate e s = .ok (e.guarded, drop (7 * e.size - 3) s) := by
  obtain ⟨wrap, change, operator, fresh, collapse⟩ := Parameters.isIdle_iff.mp idle
  induction e generalizing s with
  | literal x =>
    rw [mutate, bind_of_ok (mutateLiteral_of_zero change x s), grow_of_zero wrap, ← drop_add]
    rfl
  | input name =>
    rw [mutate, bind_of_ok (mutateInput_of_zero change name s), grow_of_zero wrap, ← drop_add]
    rfl
  | binary op left right ihl ihr =>
    have first (s : σ) := (freshOr_of_zero fresh (c.mutate left) s).trans (ihl _)
    have second (s : σ) := (freshOr_of_zero fresh (c.mutate right) s).trans (ihr _)
    rw [mutate, unless_of_zero collapse, bind_of_ok (mutateOperator_of_zero operator op _),
      bind_of_ok (first _), bind_of_ok (second _), grow_of_zero wrap, Expr.combine_guarded]
    have words : 2 + 2 + 2 + (7 * left.size - 3) + 2 + (7 * right.size - 3) + 2
        = 7 * (Expr.binary op left right).size - 3 := by
      have := left.size_pos
      have := right.size_pos
      rw [Expr.size]
      omega
    simp only [← drop_add, words]

end Context
end SymbolicRegression.Mutation
