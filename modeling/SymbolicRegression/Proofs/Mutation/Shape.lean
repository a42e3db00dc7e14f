import SymbolicRegression.Dataset.Sample
import SymbolicRegression.Proofs.Expr.Shape
import SymbolicRegression.Proofs.Mutation.DepthCap
import SymbolicRegression.Proofs.Random.Never
import SymbolicRegression.Proofs.Random.Observation

/-!
# What does not change the shape

An expression gets another shape only where a node collapses into a child, where a child is replaced
by a fresh tree, or where a node is wrapped. Where none of these can come up, literals and inputs
stay what they are and binary nodes keep their operands; values, fields and operators may change.
-/
namespace SymbolicRegression.Mutation.Context

open Draw

variable {σ : Type} [WordSource σ] {c : Context} {fault : DrawError → Prop}

/-- An operator stays what it is if it has no chance to change. -/
theorem yields_mutateOperator_eq (op : Operator) :
    Yields (c.mutateOperator op : Draw σ Operator)
      (fun other => (c.parameters.changeOperator == 0.0) = true → other = op) fault := by
  by_cases never : (c.parameters.changeOperator == 0.0) = true
  · exact yields_unless_of_zero never (yields_pure fun _ => rfl)
  · exact (yields_mutateOperator op).mono (fun _ _ h => absurd h never) fun _ h => h

/-- What has been mutated below is put together in the same shape. -/
theorem yields_sameShape (collapse : (c.parameters.collapse == 0.0) = true)
    (regenerate : (c.parameters.regenerate == 0.0) = true)
    (wrap : (c.parameters.wrap == 0.0) = true) (admits : AdmitsRanges c fault) (e : Expr) :
    Yields (c.mutate e : Draw σ Expr)
      (Expr.SameShape (fun name other => other = name ∨ other ∈ c.dataset.inputs)
        (fun op other => (c.parameters.changeOperator == 0.0) = true → other = op) e) fault := by
  induction e with
  | literal x =>
    refine yields_bind (yields_mutateLiteral_eq admits x) ?_
    rintro _ ⟨y, rfl⟩
    exact yields_unless_of_zero wrap (yields_pure (.literal x y))
  | input name =>
    refine yields_bind (yields_mutateInput_eq name) ?_
    rintro _ ⟨other, known, rfl⟩
    exact yields_unless_of_zero wrap (yields_pure (.input known))
  | binary op left right ihl ihr =>
    refine yields_unless_of_zero collapse ?_
    refine yields_bind (yields_mutateOperator_eq op) fun other same => ?_
    refine yields_bind (yields_unless_of_zero regenerate ihl) fun left' hleft => ?_
    refine yields_bind (yields_unless_of_zero regenerate ihr) fun right' hright => ?_
    exact yields_unless_of_zero wrap (yields_pure (.combine same hleft hright))

/-- Where nothing collapses, no child is replaced and nothing is wrapped, a mutation that fails to
draw nothing returns an expression of the same shape: a literal for each literal, an input for each
input, of the same field or of one of the dataset, and a binary node for each binary node, with the
same operator if operators do not change. So it has the same size and the same depth. -/
theorem mutate_sameShape (c : Context) (e : Expr) (s : σ)
    (collapse : (c.parameters.collapse == 0.0) = true)
    (wrap : (c.parameters.wrap == 0.0) = true)
    (regenerate : (c.parameters.regenerate == 0.0) = true)
    (drawn : ∀ fault, c.mutate e s = .error fault → fault = .tooDeep) :
    ∃ e' s', c.mutate e s = .ok (e', s') ∧
      Expr.SameShape (fun name other => other = name ∨ other ∈ c.dataset.inputs)
        (fun op other => (c.parameters.changeOperator == 0.0) = true → other = op) e e' ∧
      e'.size = e.size ∧ e'.depth = e.depth := by
  have admits : c.AdmitsRanges (· ≠ .tooDeep) := admitsRanges_of_unbounded (by decide)
  have yields : (c.mutate e).YieldsFrom s _ (· ≠ .tooDeep) :=
    yields_sameShape collapse regenerate wrap admits e s
  obtain ⟨e', s', run, same⟩ := yields.exists_ok drawn
  exact ⟨e', s', run, same, same.size_eq, same.depth_eq⟩

/-- Parameters under which all values, fields and operators change, and nothing else. -/
def changeParameters : Parameters :=
  { Parameters.standard with
    wrap := 0.0
    change := 1.0
    changeOperator := 1.0
    regenerate := 0.0
    collapse := -0.0 }

def changeContext : Context := ⟨Dataset.sample, changeParameters, by decide +kernel⟩

def halfUnknown : Expr := .binary .multiply (.literal 0.5) (.input "unknown")

/-- On nothing but zeros, that becomes the sum of another number and a field of the dataset. -/
theorem mutate_sameShape_product :
    ∃ e s, changeContext.mutate halfUnknown (Script.ofWords #[]) = .ok (e, s) ∧
      e = .binary .add (.literal (-99.5)) (.input "first") ∧ e.size = 3 ∧ e.depth = 2 := by
  have changed : (changeContext.mutate halfUnknown (Script.ofWords #[])).map (·.1)
      = .ok (.binary .add (.literal (-99.5)) (.input "first")) := by decide +kernel
  obtain ⟨e, s, run, -, size, depth⟩ := mutate_sameShape changeContext halfUnknown
    (Script.ofWords #[]) (by decide) (by decide) (by decide) fun fault failed => by
      rw [failed] at changed
      cases changed
  rw [run] at changed
  exact ⟨e, s, run, Except.ok.inj changed, size, depth⟩

end SymbolicRegression.Mutation.Context
