import Mathlib.Logic.Relation
import SymbolicRegression.Dataset.Sample
import SymbolicRegression.Formula.Basic
import SymbolicRegression.Proofs.Expr.Fields
import SymbolicRegression.Proofs.Expr.Literals
import SymbolicRegression.Proofs.Mutation.Parameters
import SymbolicRegression.Proofs.Random.Possible

/-!
# What mutation can reach

With the standard parameters every branch of a mutation can come up, whatever comes up elsewhere.
So an expression without literals can come out of a mutation as it went in, one operand of a node
can be mutated while all else is left alone, and any operand can be replaced by a fresh tree of one
node or of three. Built up in this way, node by node from the root, every expression without
literals can be reached from every formula, however deep it is.
-/
namespace SymbolicRegression.Mutation.Context

open Draw Relation

theorem isOpen_standard : ∀ p ∈ Parameters.standard.chances.map Prod.snd, IsOpen p := by
  decide +kernel

theorem canYield_operator (op : Operator) : CanYield (fun _ => operator) op := by
  obtain ⟨i, rfl⟩ : ∃ i, Operator.ofIndex i = op := by
    cases op
    exacts [⟨0, rfl⟩, ⟨1, rfl⟩, ⟨2, rfl⟩, ⟨3, rfl⟩]
  exact canYield_bind (canYield_below (by decide) i) (canYield_pure _)

variable {d : Dataset}

theorem canYield_inputName (few : d.inputs.length < UInt32.size) {name : String}
    (known : name ∈ d.inputs) : CanYield (fun _ => (standard d).inputName) name := by
  obtain ⟨i, rfl⟩ := List.get_of_mem known
  exact canYield_bind (canYield_below few i) (canYield_pure _)

theorem totalWeight_standard {depth : ℕ} (h : depth < 8) :
    (standard d).totalWeight depth = 1.0 := by
  have shallow : depth < (standard d).parameters.maxDepth.toNat := h
  rw [totalWeight, if_pos shallow]
  show Parameters.standard.leafWeight + Parameters.standard.binaryWeight = 1.0
  decide +kernel

/-- A draw of one half asks for an input. -/
theorem half_asks_for_input (d : Dataset) :
    ¬unit (ofHalves 0 0x80000000) * (1.0 - 0.0) + 0.0 < (standard d).parameters.literalWeight ∧
      unit (ofHalves 0 0x80000000) * (1.0 - 0.0) + 0.0 < (standard d).parameters.leafWeight := by
  show ¬_ < Parameters.standard.literalWeight ∧ _ < Parameters.standard.leafWeight
  decide +kernel

/-- The greatest draw asks for a binary node. -/
theorem greatest_asks_for_binary (d : Dataset) :
    ¬unit (ofHalves 0xFFFFFFFF 0xFFFFFFFF) * (1.0 - 0.0) + 0.0
        < (standard d).parameters.literalWeight ∧
      ¬unit (ofHalves 0xFFFFFFFF 0xFFFFFFFF) * (1.0 - 0.0) + 0.0
        < (standard d).parameters.leafWeight := by
  show ¬_ < Parameters.standard.literalWeight ∧ ¬_ < Parameters.standard.leafWeight
  decide +kernel

theorem canYield_tree_input (few : d.inputs.length < UInt32.size) {name : String}
    (known : name ∈ d.inputs) (levels : ℕ) {depth : ℕ} (h : depth < 8) :
    CanYield (fun _ => (standard d).tree (levels + 1) depth) (.input name) := by
  obtain ⟨literal, leaf⟩ := half_asks_for_input d
  simp only [tree, totalWeight_standard h]
  refine canYield_bind (canYield_between (by decide) (by decide) 0 0x80000000) ?_
  simp only [if_neg literal, if_pos leaf]
  exact canYield_bind (canYield_inputName few known) (canYield_pure _)

theorem canYield_tree_binary (op : Operator) {left right : Expr} {levels depth : ℕ}
    (h : depth < 8) (hl : CanYield (fun _ => (standard d).tree levels (depth + 1)) left)
    (hr : CanYield (fun _ => (standard d).tree levels (depth + 1)) right) :
    CanYield (fun _ => (standard d).tree (levels + 1) depth) (.combine op left right) := by
  obtain ⟨literal, leaf⟩ := greatest_asks_for_binary d
  simp only [tree, totalWeight_standard h]
  refine canYield_bind (canYield_between (by decide) (by decide) 0xFFFFFFFF 0xFFFFFFFF) ?_
  simp only [if_neg literal, if_neg leaf]
  exact canYield_bind (canYield_operator op) <| canYield_bind hl <|
    canYield_bind hr (canYield_pure _)

/-- A fresh tree has room for at least two levels. -/
theorem exists_freshTree_eq (c : Context) : ∃ levels, ∀ (σ : Type) [WordSource σ],
    (c.freshTree : Draw σ Expr) = c.tree (levels + 2) 1 := by
  have room :
      c.parameters.maxDepth.toNat + spareLevels = c.parameters.maxDepth.toNat + 65534 + 2 := by
    unfold spareLevels
    omega
  exact ⟨_, fun σ _ => by rw [freshTree, room]⟩

theorem canYield_freshTree_input (few : d.inputs.length < UInt32.size) {name : String}
    (known : name ∈ d.inputs) : CanYield (fun _ => (standard d).freshTree) (.input name) := by
  obtain ⟨levels, eq⟩ := exists_freshTree_eq (standard d)
  simp only [eq]
  exact canYield_tree_input few known (levels + 1) (by decide)

theorem canYield_freshTree_binary (few : d.inputs.length < UInt32.size) (op : Operator)
    {name : String} (known : name ∈ d.inputs) :
    CanYield (fun _ => (standard d).freshTree) (.binary op (.input name) (.input name)) := by
  obtain ⟨levels, eq⟩ := exists_freshTree_eq (standard d)
  have operand : CanYield (fun _ => (standard d).tree (levels + 1) 2) (.input name) :=
    canYield_tree_input few known levels (by decide)
  rw [← Expr.combine_of_literals_eq_nil rfl rfl]
  simp only [eq]
  exact canYield_tree_binary op (by decide) operand operand

variable {e : Expr}

/-- Every chance of a mutation with the standard parameters can turn out either way. -/
theorem isOpen_of_mem {p : Float} (h : p ∈ (standard d).parameters.chances.map Prod.snd) :
    IsOpen p := isOpen_standard p h

theorem canYield_grow (e : Expr) : CanYield (fun _ => (standard d).grow e) e :=
  canYield_miss (isOpen_of_mem (d := d) (by simp [Parameters.chances])) (canYield_pure e)

theorem canYield_mutateInput (name : String) :
    CanYield (fun _ => (standard d).mutateInput name) (.input name) :=
  canYield_miss (isOpen_of_mem (d := d) (by simp [Parameters.chances])) (canYield_pure _)

theorem canYield_mutateOperator (op : Operator) :
    CanYield (fun _ => (standard d).mutateOperator op) op :=
  canYield_miss (isOpen_of_mem (d := d) (by simp [Parameters.chances])) (canYield_pure op)

variable {mutated : (σ : Type) → [WordSource σ] → Draw σ Expr}

theorem canYield_freshOr_fresh (h : CanYield (fun _ => (standard d).freshTree) e) :
    CanYield (fun σ => (standard d).freshOr (mutated σ)) e :=
  canYield_hit (isOpen_of_mem (d := d) (by simp [Parameters.chances])) h

theorem canYield_freshOr_mutated (h : CanYield mutated e) :
    CanYield (fun σ => (standard d).freshOr (mutated σ)) e :=
  canYield_miss (isOpen_of_mem (d := d) (by simp [Parameters.chances])) h

/-- Whether one mutation can turn an expression into another, as a whole formula or as an operand
of a node. -/
def Turns (d : Dataset) (e e' : Expr) : Prop :=
  CanYield (fun _ => (standard d).freshOr ((standard d).mutate e)) e'

/-- Where nothing collapses, the operator is kept and the node is not wrapped, a node turns into the
node of what its operands turn into. -/
theorem canYield_mutate_binary {op : Operator} {left right left' right' : Expr}
    (hl : Turns d left left') (hr : Turns d right right') :
    CanYield (fun _ => (standard d).mutate (.binary op left right)) (.combine op left' right') := by
  simp only [mutate]
  exact canYield_miss (isOpen_of_mem (d := d) (by simp [Parameters.chances])) <|
    canYield_bind (canYield_mutateOperator op) <| canYield_bind hl <| canYield_bind hr <|
    canYield_grow _

/-- An expression without literals may be left alone. -/
theorem canYield_mutate_self (h : e.literals = []) :
    CanYield (fun _ => (standard d).mutate e) e := by
  induction e with
  | literal x => simp [Expr.literals] at h
  | input name =>
    simp only [mutate]
    exact canYield_bind (canYield_mutateInput name) (canYield_grow _)
  | binary op left right ihl ihr =>
    obtain ⟨hl, hr⟩ := List.append_eq_nil_iff.mp h
    have kept : CanYield (fun _ => (standard d).mutate (.binary op left right))
        (.combine op left right) :=
      canYield_mutate_binary (canYield_freshOr_mutated (ihl hl)) (canYield_freshOr_mutated (ihr hr))
    rwa [Expr.combine_of_literals_eq_nil hl hr] at kept

theorem turns_self (h : e.literals = []) : Turns d e e :=
  canYield_freshOr_mutated (canYield_mutate_self h)

theorem turns_binary {op : Operator} {left right left' right' : Expr} (hl : Turns d left left')
    (hr : Turns d right right') (freeLeft : left'.literals = [])
    (freeRight : right'.literals = []) :
    Turns d (.binary op left right) (.binary op left' right') := by
  rw [← Expr.combine_of_literals_eq_nil freeLeft freeRight]
  exact canYield_freshOr_mutated (canYield_mutate_binary hl hr)

/-- Whether one mutation can turn an expression into another one without literals. -/
def Leads (d : Dataset) (e e' : Expr) : Prop := Turns d e e' ∧ e'.literals = []

/-- While the left operand of a node is mutated, the right one stays what it is. -/
theorem reaches_left (op : Operator) {left left' right : Expr} (hr : right.literals = [])
    (h : ReflTransGen (Leads d) left left') :
    ReflTransGen (Leads d) (.binary op left right) (.binary op left' right) := by
  refine ReflTransGen.lift (fun left => Expr.binary op left right) (fun e e' step => ?_) _ _ h
  exact ⟨turns_binary step.1 (turns_self hr) step.2 hr, by simp [Expr.literals, step.2, hr]⟩

theorem reaches_right (op : Operator) {left right right' : Expr} (hl : left.literals = [])
    (h : ReflTransGen (Leads d) right right') :
    ReflTransGen (Leads d) (.binary op left right) (.binary op left right') := by
  refine ReflTransGen.lift (fun right => Expr.binary op left right) (fun e e' step => ?_) _ _ h
  exact ⟨turns_binary (turns_self hl) step.1 hl step.2, by simp [Expr.literals, step.2, hl]⟩

/-- From any expression, every one without literals is reached: by a fresh node first, whose
operands are then brought to what they have to be, one after the other. -/
theorem reaches (few : d.inputs.length < UInt32.size) {t : Expr} (free : t.literals = [])
    (fits : t.Fits d) (e : Expr) : ReflTransGen (Leads d) e t := by
  induction t generalizing e with
  | literal x => simp [Expr.literals] at free
  | input name =>
    have fresh := canYield_freshTree_input few (Expr.fits_input.mp fits)
    exact .single ⟨canYield_freshOr_fresh fresh, rfl⟩
  | binary op left right ihl ihr =>
    obtain ⟨name, known⟩ := List.exists_mem_of_ne_nil d.inputs d.inputs_ne_nil
    obtain ⟨fl, fr⟩ := List.append_eq_nil_iff.mp free
    obtain ⟨hl, hr⟩ := Expr.fits_binary.mp fits
    have fresh := canYield_freshTree_binary few op known
    have node : Leads d e (.binary op (.input name) (.input name)) :=
      ⟨canYield_freshOr_fresh fresh, rfl⟩
    have first : ReflTransGen (Leads d) (.binary op (.input name) (.input name))
        (.binary op left (.input name)) := reaches_left op rfl (ihl fl hl (.input name))
    have second := reaches_right op fl (ihr fr hr (.input name))
    exact .head node (first.trans second)

end SymbolicRegression.Mutation.Context

namespace SymbolicRegression.Formula

open Mutation Mutation.Context Draw WordSource Relation

/-- A number of mutations, one after the other. -/
def mutations {σ : Type} [WordSource σ] (c : Context) : ℕ → Formula → Draw σ Formula
  | 0, f => pure f
  | n + 1, f => f.mutate c >>= mutations c n

variable {d : Dataset}

theorem canYield_mutations {e t : Expr} (h : ReflTransGen (Leads d) e t) :
    ∃ n, CanYield (fun _ => mutations (standard d) n ⟨e⟩) ⟨t⟩ := by
  induction h using ReflTransGen.head_induction_on with
  | refl => exact ⟨0, canYield_pure _⟩
  | head step _ ih =>
    obtain ⟨n, rest⟩ := ih
    refine ⟨n + 1, canYield_bind (f := fun f _ _ => mutations (standard d) n f) ?_ rest⟩
    exact canYield_bind step.1 (canYield_pure _)

/-- From every formula, mutation with the standard parameters can reach every expression without
literals over the inputs of the dataset: there are words such that some number of mutations on any
source that begins with them comes to just this expression and uses up just these words. There is
such a source, the script of the words. -/
theorem mutations_reach (d : Dataset) (few : d.inputs.length < 2 ^ 32) (f : Formula) (t : Expr)
    (free : t.literals = []) (fits : ∀ name ∈ t.fields, name ∈ d.inputs) :
    ∃ (words : List UInt32) (n : ℕ),
      (∀ (σ : Type) [WordSource σ] (s : σ), Begins s words →
        f.mutations (standard d) n s = .ok (⟨t⟩, drop words.length s)) ∧
      Begins (Script.ofWords words.toArray) words := by
  obtain ⟨n, words, all⟩ := canYield_mutations (reaches few free fits f.root)
  exact ⟨words, n, all, Script.begins_ofWords words⟩

/-- An expression of twelve levels, four more than a fresh tree may have. -/
def leaningSample : Expr :=
  (fun e => .binary .divide e (.input "second"))^[11] (.input "first")

theorem mutations_reach_leaningSample :
    Dataset.sample.inputs.length < 2 ^ 32 ∧ leaningSample.depth = 12 ∧
      leaningSample.literals = [] ∧
      (∀ name ∈ leaningSample.fields, name ∈ Dataset.sample.inputs) ∧
      ∃ (words : List UInt32) (n : ℕ),
        (∀ (σ : Type) [WordSource σ] (s : σ), Begins s words →
          mutations (standard Dataset.sample) n ⟨.literal 0.0⟩ s =
            .ok (⟨leaningSample⟩, drop words.length s)) ∧
        Begins (Script.ofWords words.toArray) words := by
  have few : Dataset.sample.inputs.length < 2 ^ 32 := by decide
  have free : leaningSample.literals = [] := by decide
  have fits : ∀ name ∈ leaningSample.fields, name ∈ Dataset.sample.inputs := by decide
  exact ⟨few, by decide, free, fits,
    mutations_reach Dataset.sample few ⟨.literal 0.0⟩ leaningSample free fits⟩

end SymbolicRegression.Formula
