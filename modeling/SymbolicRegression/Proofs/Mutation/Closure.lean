import SymbolicRegression.Formula.Basic
import SymbolicRegression.Proofs.Mutation.Parameters
import SymbolicRegression.Proofs.Random.Unit

/-!
# What mutation preserves

A property of expressions that holds of all leaves over the inputs, and of a binary node if and
only if it holds of both operands, holds of every fresh tree and survives every mutation. The same
induction tells which failures mutation can come to: all of them come from ranges of numbers
without a finite width, or from a fresh tree that grows too deep.
-/
namespace SymbolicRegression.Mutation.Context

open Draw

variable {σ : Type} [WordSource σ] {c : Context} {P : Expr → Prop} {fault : DrawError → Prop}

/-- A property that mutation cannot lose. -/
structure Closed (c : Context) (P : Expr → Prop) : Prop where
  literal : ∀ x, P (.literal x)
  input : ∀ name ∈ c.dataset.inputs, P (.input name)
  combine : ∀ op left right, P left → P right → P (.combine op left right)
  operands : ∀ op left right, P (.binary op left right) → P left ∧ P right

/-- A property that fresh trees have if their literals are drawn within some bounds. -/
structure Grows (c : Context) (within : Float → Prop) (P : Expr → Prop) : Prop where
  literal : ∀ x, within x → P (.literal x)
  input : ∀ name ∈ c.dataset.inputs, P (.input name)
  combine : ∀ op left right, P left → P right → P (.combine op left right)

theorem closed_true : c.Closed fun _ => True :=
  ⟨fun _ => trivial, fun _ _ => trivial, fun _ _ _ _ _ => trivial,
    fun _ _ _ _ => ⟨trivial, trivial⟩⟩

theorem Closed.grows (closed : Closed c P) : Grows c (fun _ => True) P :=
  ⟨fun x _ => closed.literal x, closed.input, closed.combine⟩

/-- Whether mutation may come to add something to a literal, or to draw a fresh one. -/
def DrawsDelta (c : Context) : Prop :=
  0.0 < c.parameters.literalWeight ∨ CanHit c.parameters.change

instance (c : Context) : Decidable c.DrawsDelta := inferInstanceAs (Decidable (_ ∨ _))

/-- The width of the range of what is added to a literal. -/
def deltaWidth (c : Context) : Float := c.parameters.maxDelta - -c.parameters.maxDelta

/-- Whether ranges that mutation draws from without a finite width are among some failures. -/
structure AdmitsRanges (c : Context) (fault : DrawError → Prop) : Prop where
  total : ∀ depth, 0 < depth → (c.totalWeight depth).isFinite = true ∨ fault .unboundedRange
  delta : c.DrawsDelta → c.deltaWidth.isFinite = true ∨ fault .unboundedRange

/-- Whether everything that mutation may come to is among some failures. -/
structure Admits (c : Context) (fault : DrawError → Prop) : Prop extends c.AdmitsRanges fault where
  fresh : ∀ (σ : Type) [WordSource σ], Yields (c.freshTree : Draw σ Expr) (fun _ => True) fault

theorem admitsRanges_of_unbounded (h : fault .unboundedRange) : c.AdmitsRanges fault :=
  ⟨fun _ _ => .inr h, fun _ => .inr h⟩

theorem yields_operator : Yields (operator : Draw σ Operator) (fun _ => True) fault :=
  yields_seq (yields_below (.inl (by norm_num))) fun _ => yields_pure trivial

theorem yields_delta (admits : AdmitsRanges c fault) (draws : c.DrawsDelta) :
    Yields (c.delta : Draw σ Float) (fun _ => True) fault :=
  (yields_between (.inl c.isEmpty_deltas) (admits.delta draws)).mono (fun _ _ => trivial)
    fun _ h => h

/-- There is always an input to choose. -/
theorem yields_inputName :
    Yields (c.inputName : Draw σ String) (fun name => name ∈ c.dataset.inputs) fault :=
  yields_seq (yields_below (.inl (List.length_pos_iff.mpr c.dataset.inputs_ne_nil))) fun i =>
    yields_pure (List.get_mem _ i)

/-- The chance of a parameter always admits a draw. -/
theorem yields_chance_of_mem {p : Float} (h : p ∈ c.parameters.chances.map Prod.snd) :
    Yields (chance p : Draw σ Bool) (fun b => b = true → CanHit p) fault :=
  yields_chance (c.sensible.drawable h |>.imp_right .inl)

theorem yields_half : Yields (chance 0.5 : Draw σ Bool) (fun _ => True) fault :=
  (yields_chance (.inr (.inl (by decide)))).mono (fun _ _ => trivial) fun _ h => h

theorem totalWeight_pos {depth : ℕ} (finite : (c.totalWeight depth).isFinite = true) :
    0 < Binary64.toRat (c.totalWeight depth) := by
  have positive := c.totalWeight_positive depth
  rwa [Binary64.lt_iff (by rfl) finite, Binary64.toRat_zero] at positive

/-- What decides about a node of a fresh tree is a part of the total weight. -/
theorem yields_weight (admits : AdmitsRanges c fault) {depth : ℕ} (hd : 0 < depth) :
    Yields (between .excluded 0.0 (c.totalWeight depth) : Draw σ Float)
      (fun r => (c.totalWeight depth).isFinite = true ∧ ∃ v, r = scaledTo (c.totalWeight depth) v)
      fault := by
  have total := admits.total depth hd
  rw [← Binary64.sub_zero (c.totalWeight depth)] at total
  refine (yields_between (.inl (c.isEmpty_weights depth)) total).mono (fun r h => ?_) fun _ h => h
  rw [Binary64.sub_zero] at h
  obtain ⟨finite, v, eq⟩ := h
  refine ⟨finite, v, ?_⟩
  rw [eq, scaledTo, Binary64.sub_zero]

/-- A fresh literal comes up only if literals have some weight. -/
theorem drawsDelta_of_lt {depth : ℕ} {v : UInt64}
    (finite : (c.totalWeight depth).isFinite = true)
    (lt : scaledTo (c.totalWeight depth) v < c.parameters.literalWeight) : c.DrawsDelta := by
  have pos := totalWeight_pos finite
  obtain ⟨weight_finite, -⟩ := c.sensible.literalWeight
  left
  rw [Binary64.lt_iff (scaledTo_spec pos v).1 weight_finite] at lt
  rw [Binary64.lt_iff (by rfl) weight_finite, Binary64.toRat_zero]
  exact (scaledTo_nonneg pos v).trans_lt lt

/-- What holds of the leaves and of what is put together from them holds of fresh trees. -/
theorem yields_tree_of_grows {within : Float → Prop} (grows : Grows c within P)
    (admits : AdmitsRanges c fault) (deep : fault .tooDeep)
    (delta : c.DrawsDelta → Yields (c.delta : Draw σ Float) within fault) (levels : ℕ) {depth : ℕ}
    (hd : 0 < depth) : Yields (c.tree levels depth : Draw σ Expr) P fault := by
  induction levels generalizing depth with
  | zero => exact yields_fail deep
  | succ levels ih =>
    refine yields_bind (yields_weight admits hd) fun r hr => ?_
    obtain ⟨finite, v, rfl⟩ := hr
    refine yields_ite (fun literal => ?_) fun _ => yields_ite (fun _ => ?_) fun _ => ?_
    · exact yields_bind (delta (drawsDelta_of_lt finite literal)) fun x hx =>
        yields_pure (grows.literal x hx)
    · exact yields_bind yields_inputName fun name known => yields_pure (grows.input name known)
    · refine yields_seq yields_operator fun op => ?_
      refine yields_bind (ih depth.succ_pos) fun left hleft => ?_
      refine yields_bind (ih depth.succ_pos) fun right hright => ?_
      exact yields_pure (grows.combine op left right hleft hright)

theorem yields_freshTree_of_tooDeep (closed : Closed c P) (admits : AdmitsRanges c fault)
    (deep : fault .tooDeep) : Yields (c.freshTree : Draw σ Expr) P fault :=
  yields_tree_of_grows closed.grows admits deep (yields_delta admits) _ Nat.one_pos

theorem AdmitsRanges.admits (admits : AdmitsRanges c fault) (deep : fault .tooDeep) :
    Admits c fault :=
  ⟨admits, fun _ _ => yields_freshTree_of_tooDeep closed_true admits deep⟩

theorem yields_freshTree (closed : Closed c P) (admits : Admits c fault) :
    Yields (c.freshTree : Draw σ Expr) P fault := by
  -- the property does not depend on what fails, and what fails does not depend on the property
  have kept : Yields (c.freshTree : Draw σ Expr) P (fun _ => True) :=
    yields_freshTree_of_tooDeep closed (admitsRanges_of_unbounded trivial) trivial
  exact (kept.and (admits.fresh σ)).mono (fun _ => And.left) fun _ => And.right

theorem yields_grow (closed : Closed c P) (admits : Admits c fault) {e : Expr} (he : P e) :
    Yields (c.grow e : Draw σ Expr) P fault := by
  refine yields_bind
    (yields_chance_of_mem (c := c) (p := c.parameters.wrap) (by simp [Parameters.chances]))
    fun wraps _ => yields_ite (fun _ => ?_) fun _ => yields_pure he
  refine yields_seq yields_operator fun op => ?_
  refine yields_bind (yields_freshTree closed admits) fun fresh hfresh => ?_
  refine yields_seq yields_half fun first => yields_ite (fun _ => ?_) fun _ => ?_
  · exact yields_pure (closed.combine op e fresh he hfresh)
  · exact yields_pure (closed.combine op fresh e hfresh he)

/-- A literal stays a literal. -/
theorem yields_mutateLiteral_eq (admits : AdmitsRanges c fault) (x : Float) :
    Yields (c.mutateLiteral x : Draw σ Expr) (fun e => ∃ y, e = .literal y) fault := by
  refine yields_bind
    (yields_chance_of_mem (c := c) (p := c.parameters.change) (by simp [Parameters.chances]))
    fun changes hits => yields_ite (fun yes => ?_) fun _ => yields_pure ⟨x, rfl⟩
  exact yields_seq (yields_delta admits (.inr (hits yes))) fun d => yields_pure ⟨x + d, rfl⟩

theorem yields_mutateLiteral (closed : Closed c P) (admits : Admits c fault) (x : Float) :
    Yields (c.mutateLiteral x : Draw σ Expr) P fault := by
  refine (yields_mutateLiteral_eq admits.toAdmitsRanges x).mono ?_ fun _ h => h
  rintro _ ⟨y, rfl⟩
  exact closed.literal y

/-- An input stays an input, of the same field or of one of the dataset. -/
theorem yields_mutateInput_eq (name : String) :
    Yields (c.mutateInput name : Draw σ Expr)
      (fun e => ∃ other, (other = name ∨ other ∈ c.dataset.inputs) ∧ e = .input other) fault := by
  refine yields_bind
    (yields_chance_of_mem (c := c) (p := c.parameters.change) (by simp [Parameters.chances]))
    fun changes _ => yields_ite (fun _ => ?_) fun _ => yields_pure ⟨name, .inl rfl, rfl⟩
  exact yields_bind yields_inputName fun other known => yields_pure ⟨other, .inr known, rfl⟩

theorem yields_mutateInput (closed : Closed c P) {name : String} (h : P (.input name)) :
    Yields (c.mutateInput name : Draw σ Expr) P fault := by
  refine (yields_mutateInput_eq name).mono ?_ fun _ h => h
  rintro _ ⟨other, rfl | known, rfl⟩
  · exact h
  · exact closed.input other known

theorem yields_mutateOperator (op : Operator) :
    Yields (c.mutateOperator op : Draw σ Operator) (fun _ => True) fault := by
  refine yields_bind
    (yields_chance_of_mem (c := c) (p := c.parameters.changeOperator)
      (by simp [Parameters.chances]))
    fun changes _ => yields_ite (fun _ => yields_operator) fun _ => yields_pure trivial

theorem yields_freshOr (closed : Closed c P) (admits : Admits c fault) {mutated : Draw σ Expr}
    (h : mutated.Yields P fault) : Yields (c.freshOr mutated) P fault := by
  refine yields_bind
    (yields_chance_of_mem (c := c) (p := c.parameters.regenerate) (by simp [Parameters.chances]))
    fun regenerates _ => yields_ite (fun _ => yields_freshTree closed admits) fun _ => h

/-- A mutation of an expression with the property has the property. -/
theorem yields_mutate (closed : Closed c P) (admits : Admits c fault) {e : Expr} (he : P e) :
    Yields (c.mutate e : Draw σ Expr) P fault := by
  induction e with
  | literal x =>
    exact yields_bind (yields_mutateLiteral closed admits x) fun e he =>
      yields_grow closed admits he
  | input name =>
    exact yields_bind (yields_mutateInput closed he) fun e he =>
      yields_grow closed admits he
  | binary op left right ihl ihr =>
    obtain ⟨hleft, hright⟩ := closed.operands op left right he
    refine yields_bind
      (yields_chance_of_mem (c := c) (p := c.parameters.collapse) (by simp [Parameters.chances]))
      fun collapses _ => yields_ite (fun _ => ?_) fun _ => ?_
    · exact yields_seq yields_half fun first =>
        yields_ite (fun _ => yields_pure hleft) fun _ => yields_pure hright
    · refine yields_seq (yields_mutateOperator op) fun op => ?_
      refine yields_bind (yields_freshOr closed admits (ihl hleft)) fun left hleft => ?_
      refine yields_bind (yields_freshOr closed admits (ihr hright)) fun right hright => ?_
      exact yields_grow closed admits (closed.combine op left right hleft hright)

end SymbolicRegression.Mutation.Context

namespace SymbolicRegression.Formula

open Mutation Mutation.Context Draw

variable {σ : Type} [WordSource σ] {c : Context} {P : Expr → Prop} {fault : DrawError → Prop}

theorem yields_random (closed : Closed c P) (admits : Admits c fault) :
    Yields (Formula.random c : Draw σ Formula) (fun f => P f.root) fault :=
  yields_bind (yields_freshTree closed admits) fun _ h => yields_pure h

theorem yields_mutate (closed : Closed c P) (admits : Admits c fault) {f : Formula}
    (hf : P f.root) : Yields (f.mutate c : Draw σ Formula) (fun g => P g.root) fault :=
  yields_bind (yields_freshOr closed admits (Context.yields_mutate closed admits hf)) fun _ h =>
    yields_pure h

end SymbolicRegression.Formula
