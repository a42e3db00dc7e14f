import SymbolicRegression.Proofs.Expr.Renaming

/-!
# Renaming commutes with mutation

With the same parameters, and inputs that correspond to each other by their positions, every draw
takes the same words and makes the same choices, whatever the names are. What comes out on one side
is the renamed expression of the other side.
-/
namespace SymbolicRegression.Mutation.Context

/-- Whether the inputs of two contexts correspond to each other, all else being the same. -/
structure Alike (s : String → String) (c c' : Context) : Prop where
  parameters : c'.parameters = c.parameters
  inputs : c'.dataset.inputs = c.dataset.inputs.map s

variable {σ : Type} [WordSource σ] {s : String → String} {c c' : Context}

theorem Alike.delta (h : c.Alike s c') : (c'.delta : Draw σ Float) = c.delta := by
  rw [Context.delta, Context.delta, h.parameters]

/-- A position is drawn alike from lists of the same length. -/
theorem below_bind_cast {α : Type} {n m : ℕ} (h : n = m) (f : Fin n → Draw σ α) :
    Draw.below n >>= f = Draw.below m >>= fun i => f (i.cast h.symm) := by
  subst h
  rfl

/-- The position decides about an input, and the name goes with it. -/
theorem Alike.inputName (h : c.Alike s c') :
    (c'.inputName : Draw σ String) = s <$> c.inputName := by
  have length : c'.dataset.inputs.length = c.dataset.inputs.length := by
    rw [h.inputs, List.length_map]
  have name (i : Fin c.dataset.inputs.length) :
      c'.dataset.inputs.get (i.cast length.symm) = s (c.dataset.inputs.get i) := by
    simp [h.inputs]
  unfold Context.inputName
  rw [below_bind_cast length]
  simp only [map_bind, map_pure, name]

theorem Alike.totalWeight (h : c.Alike s c') (depth : ℕ) :
    c'.totalWeight depth = c.totalWeight depth := by
  rw [Context.totalWeight, Context.totalWeight, h.parameters]

theorem Alike.tree (h : c.Alike s c') (levels depth : ℕ) :
    (c'.tree levels depth : Draw σ Expr) = Expr.rename s <$> c.tree levels depth := by
  induction levels generalizing depth with
  | zero => rfl
  | succ levels ih =>
    unfold Context.tree
    -- the choices come from the same draws, so the renaming moves past them to the leaves
    simp only [map_bind, apply_ite (Expr.rename s <$> ·), map_pure, ih, bind_map_left,
      h.totalWeight, h.delta, h.inputName, h.parameters, Expr.rename_combine, Expr.rename]

theorem Alike.freshTree (h : c.Alike s c') :
    (c'.freshTree : Draw σ Expr) = Expr.rename s <$> c.freshTree := by
  rw [Context.freshTree, h.parameters, h.tree, Context.freshTree]

theorem Alike.grow (h : c.Alike s c') (e : Expr) :
    (c'.grow (e.rename s) : Draw σ Expr) = Expr.rename s <$> c.grow e := by
  unfold Context.grow
  simp only [map_bind, apply_ite (Expr.rename s <$> ·), map_pure, bind_map_left,
    h.freshTree, h.parameters, Expr.rename_combine]

theorem Alike.mutateLiteral (h : c.Alike s c') (x : Float) :
    (c'.mutateLiteral x : Draw σ Expr) = Expr.rename s <$> c.mutateLiteral x := by
  unfold Context.mutateLiteral
  simp only [map_bind, apply_ite (Expr.rename s <$> ·), map_pure, h.delta, h.parameters,
    Expr.rename]

theorem Alike.mutateInput (h : c.Alike s c') (name : String) :
    (c'.mutateInput (s name) : Draw σ Expr) = Expr.rename s <$> c.mutateInput name := by
  unfold Context.mutateInput
  simp only [map_bind, apply_ite (Expr.rename s <$> ·), map_pure, bind_map_left, h.inputName,
    h.parameters, Expr.rename]

theorem Alike.mutateOperator (h : c.Alike s c') (op : Operator) :
    (c'.mutateOperator op : Draw σ Operator) = c.mutateOperator op := by
  rw [Context.mutateOperator, Context.mutateOperator, h.parameters]

theorem Alike.freshOr (h : c.Alike s c') (mutated : Draw σ Expr) :
    c'.freshOr (Expr.rename s <$> mutated) = Expr.rename s <$> c.freshOr mutated := by
  unfold Context.freshOr
  simp only [map_bind, apply_ite (Expr.rename s <$> ·), h.freshTree, h.parameters]

/-- A renamed expression mutates into what the expression mutates into, renamed. -/
theorem Alike.mutate (h : c.Alike s c') (e : Expr) :
    (c'.mutate (e.rename s) : Draw σ Expr) = Expr.rename s <$> c.mutate e := by
  induction e with
  | literal x =>
    rw [Expr.rename, Context.mutate, Context.mutate, h.mutateLiteral]
    simp only [map_bind, bind_map_left, h.grow]
  | input name =>
    rw [Expr.rename, Context.mutate, Context.mutate, h.mutateInput]
    simp only [map_bind, bind_map_left, h.grow]
  | binary op left right ihl ihr =>
    rw [Expr.rename, Context.mutate, Context.mutate, ihl, ihr]
    simp only [map_bind, apply_ite (Expr.rename s <$> ·), map_pure, bind_map_left, h.freshOr,
      h.mutateOperator, h.parameters, ← Expr.rename_combine, h.grow]

end SymbolicRegression.Mutation.Context
