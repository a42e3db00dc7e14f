import SymbolicRegression.Proofs.Mutation.DepthCap
import SymbolicRegression.Proofs.Random.Observation

/-!
# How much a mutation grows an expression

What decides about a node of a fresh tree is a number that is meant to be below the total weight,
though the draw can round up to it. As long as it does not, fresh trees keep to the greatest depth
of generation. Then a mutation, which may put a fresh tree beside every node on every path, at most
doubles the depth of an expression but for a constant, and multiplies its size by a constant.
-/
namespace SymbolicRegression.Mutation

open Draw

/-- A weight that was drawn, and the total of which it should be a part. -/
structure Weighing where
  drawn : Float
  total : Float

/-- Whether the weight is below the total. -/
def Weighing.IsPart (w : Weighing) : Prop := w.drawn < w.total

instance (w : Weighing) : Decidable w.IsPart := inferInstanceAs (Decidable (_ < _))

namespace Context

variable {σ : Type} [WordSource σ]

/-- The weighings in the course of a fresh tree whose root stands at `depth`. -/
def treeWeighings (c : Context) : (levels depth : ℕ) → σ → List Weighing
  | 0, _ => fun _ => []
  | levels + 1, depth =>
    behind (between .excluded 0.0 (c.totalWeight depth)) fun r s =>
      ⟨r, c.totalWeight depth⟩ ::
        if r < c.parameters.literalWeight then []
        else if r < c.parameters.leafWeight then []
        else
          behind operator (fun _ s =>
            treeWeighings c levels (depth + 1) s ++
              behind (c.tree levels (depth + 1))
                (fun _ => treeWeighings c levels (depth + 1)) s) s

def freshWeighings (c : Context) : σ → List Weighing :=
  c.treeWeighings (c.parameters.maxDepth.toNat + spareLevels) 1

/-- The weighings while an expression is wrapped, if that comes up. -/
def growWeighings (c : Context) : σ → List Weighing :=
  behind (chance c.parameters.wrap) fun wraps s =>
    if wraps then behind operator (fun _ => c.freshWeighings) s else []

/-- The weighings of a fresh tree if that comes up, and otherwise those given. -/
def freshOrWeighings (c : Context) (weighings : σ → List Weighing) : σ → List Weighing :=
  behind (chance c.parameters.regenerate) fun regenerates s =>
    if regenerates then c.freshWeighings s else weighings s

/-- The weighings in the course of a mutation. -/
def mutateWeighings (c : Context) : Expr → σ → List Weighing
  | .literal value => behind (c.mutateLiteral value) fun _ => c.growWeighings
  | .input name => behind (c.mutateInput name) fun _ => c.growWeighings
  | .binary op left right =>
    behind (chance c.parameters.collapse) fun collapses s =>
      if collapses then []
      else
        behind (c.mutateOperator op) (fun _ s =>
          c.freshOrWeighings (mutateWeighings c left) s ++
            behind (c.freshOr (c.mutate left)) (fun _ s =>
              c.freshOrWeighings (mutateWeighings c right) s ++
                behind (c.freshOr (c.mutate right)) (fun _ => c.growWeighings) s) s) s

variable {c : Context}

/-- As long as all weights are parts of their totals, a fresh tree keeps to its cap. -/
theorem yieldsIf_tree (levels : ℕ) {depth : ℕ} (hd : 0 < depth)
    (enough : c.levelCap depth ≤ levels) :
    YieldsIf Weighing.IsPart (c.tree levels depth : Draw σ Expr) (c.treeWeighings levels depth)
      (fun e => e.depth ≤ c.levelCap depth ∧ e.size < 2 ^ c.levelCap depth) (· ≠ .tooDeep) := by
  have admits : c.AdmitsRanges (· ≠ .tooDeep) := admitsRanges_of_unbounded (by decide)
  have one : 1 ≤ c.levelCap depth := one_le_levelCap depth
  have leaf : 1 < 2 ^ c.levelCap depth := Nat.one_lt_two_pow (by omega)
  induction levels generalizing depth with
  | zero => omega
  | succ levels ih =>
    refine yieldsIf_behind (yields_weight admits hd) fun r hr => yieldsIf_cons fun part => ?_
    obtain ⟨finite, v, rfl⟩ := hr
    refine yieldsIf_ite (fun literal => Yields.yieldsIf ?_) fun _ =>
      yieldsIf_ite (fun _ => Yields.yieldsIf ?_) fun binary => ?_
    · exact yields_seq (yields_delta admits (drawsDelta_of_lt finite literal)) fun x =>
        yields_pure ⟨one, leaf⟩
    · exact yields_bind yields_inputName fun name _ => yields_pure ⟨one, leaf⟩
    · -- from the greatest depth on, the total is the weight of the leaves
      have shallow : depth < c.parameters.maxDepth.toNat := by
        by_contra deep
        have leaves : c.totalWeight depth = c.parameters.leafWeight := if_neg deep
        rw [leaves] at part binary
        exact binary part
      have next := levelCap_of_lt shallow
      have some_level := one_le_levelCap (c := c) (depth + 1)
      have child := @ih (depth + 1) (by omega) (by omega) some_level
        (Nat.one_lt_two_pow (by omega))
      refine yieldsIf_behind yields_operator fun op _ => yieldsIf_bind child fun left hleft => ?_
      exact yieldsIf_seq child fun right hright =>
        yields_pure (combine_capped shallow op hleft hright)

theorem yieldsIf_freshTree :
    YieldsIf Weighing.IsPart (c.freshTree : Draw σ Expr) c.freshWeighings
      (fun e => e.depth ≤ c.levelCap 1 ∧ e.size < 2 ^ c.levelCap 1) (· ≠ .tooDeep) :=
  yieldsIf_tree _ Nat.one_pos levelCap_one_le

/-- Wrapping adds a node above, and a fresh tree beside. -/
theorem yieldsIf_grow {e : Expr} {depth size : ℕ} (hdepth : e.depth ≤ depth)
    (room : c.levelCap 1 ≤ depth) (hsize : e.size ≤ size) :
    YieldsIf Weighing.IsPart (c.grow e : Draw σ Expr) c.growWeighings
      (fun e => e.depth ≤ depth + 1 ∧ e.size ≤ size + 2 ^ c.levelCap 1) (· ≠ .tooDeep) := by
  have alone : e.depth ≤ depth + 1 ∧ e.size ≤ size + 2 ^ c.levelCap 1 :=
    ⟨Nat.le_add_right_of_le hdepth, Nat.le_add_right_of_le hsize⟩
  refine yieldsIf_behind
    (yields_chance_of_mem (c := c) (p := c.parameters.wrap) (by simp [Parameters.chances]))
    fun wraps _ => yieldsIf_ite (fun _ => ?_) fun _ =>
      Yields.yieldsIf (yields_pure alone)
  refine yieldsIf_behind yields_operator fun op _ => yieldsIf_seq yieldsIf_freshTree ?_
  intro fresh hfresh
  refine yields_seq yields_half fun first => yields_ite (fun _ => yields_pure ?_) fun _ =>
    yields_pure ?_
  · rw [Expr.depth_combine, Expr.size_combine]
    omega
  · rw [Expr.depth_combine, Expr.size_combine]
    omega

/-- How far a mutation may take an expression. -/
structure GrowsTo (c : Context) (e e' : Expr) : Prop where
  depth : e'.depth ≤ 2 * e.depth - 1 + c.levelCap 1
  size : e'.size ≤ (2 ^ c.levelCap 1 + 1) * e.size

/-- A fresh tree goes no further, whatever it replaces. -/
theorem growsTo_of_capped {e fresh : Expr}
    (h : fresh.depth ≤ c.levelCap 1 ∧ fresh.size < 2 ^ c.levelCap 1) : c.GrowsTo e fresh where
  depth := by omega
  size := by
    have := Nat.le_mul_of_pos_right (2 ^ c.levelCap 1 + 1) e.size_pos
    omega

/-- Neither does what is no larger than the expression itself. -/
theorem growsTo_of_le {e e' : Expr} (hdepth : e'.depth ≤ e.depth) (hsize : e'.size ≤ e.size) :
    c.GrowsTo e e' where
  depth := by
    have := e.depth_pos
    omega
  size := hsize.trans (Nat.le_mul_of_pos_left _ (Nat.succ_pos _))

theorem yieldsIf_freshOr {e : Expr} {mutated : Draw σ Expr} {weighings : σ → List Weighing}
    (h : YieldsIf Weighing.IsPart mutated weighings (c.GrowsTo e) (· ≠ .tooDeep)) :
    YieldsIf Weighing.IsPart (c.freshOr mutated) (c.freshOrWeighings weighings) (c.GrowsTo e)
      (· ≠ .tooDeep) := by
  refine yieldsIf_behind
    (yields_chance_of_mem (c := c) (p := c.parameters.regenerate) (by simp [Parameters.chances]))
    fun regenerates _ => yieldsIf_ite (fun _ => ?_) fun _ => h
  exact yieldsIf_freshTree.mono fun _ => growsTo_of_capped

/-- A leaf may be wrapped. -/
theorem yieldsIf_grow_leaf {e leaf : Expr} (he : e.depth = 1 ∧ e.size = 1)
    (hleaf : leaf.depth = 1 ∧ leaf.size = 1) :
    YieldsIf Weighing.IsPart (c.grow e : Draw σ Expr) c.growWeighings (c.GrowsTo leaf)
      (· ≠ .tooDeep) := by
  have one := one_le_levelCap (c := c) 1
  refine (yieldsIf_grow (he.1.trans_le one) le_rfl he.2.le).mono fun grown h => ⟨?_, ?_⟩
  · rw [hleaf.1]
    omega
  · rw [hleaf.2]
    omega

/-- A node of grown operands may be wrapped. -/
theorem yieldsIf_grow_combine {left left' right right' : Expr} (hleft : c.GrowsTo left left')
    (hright : c.GrowsTo right right') (op op' : Operator) :
    YieldsIf Weighing.IsPart (c.grow (.combine op' left' right') : Draw σ Expr) c.growWeighings
      (c.GrowsTo (.binary op left right)) (· ≠ .tooDeep) := by
  have left_pos := left.depth_pos
  have right_pos := right.depth_pos
  have depth : (Expr.combine op' left' right').depth
      ≤ 2 * max left.depth right.depth + c.levelCap 1 := by
    have hl := hleft.depth
    have hr := hright.depth
    rw [Expr.depth_combine]
    omega
  have size : (Expr.combine op' left' right').size
      ≤ 1 + (2 ^ c.levelCap 1 + 1) * (left.size + right.size) := by
    have hl := hleft.size
    have hr := hright.size
    rw [Expr.size_combine, Nat.mul_add]
    omega
  refine (yieldsIf_grow depth (Nat.le_add_left _ _) size).mono fun grown h => ⟨?_, ?_⟩
  · rw [Expr.depth]
    omega
  · rw [Expr.size, Nat.add_assoc, Nat.mul_add]
    omega

/-- As long as all weights are parts of their totals, a mutation is bounded. By induction on the
expression: what stands below may have grown, and the node itself may be wrapped. -/
theorem yieldsIf_mutate (e : Expr) :
    YieldsIf Weighing.IsPart (c.mutate e : Draw σ Expr) (c.mutateWeighings e) (c.GrowsTo e)
      (· ≠ .tooDeep) := by
  have admits : c.AdmitsRanges (· ≠ .tooDeep) := admitsRanges_of_unbounded (by decide)
  induction e with
  | literal x =>
    refine yieldsIf_behind (yields_mutateLiteral_eq admits x) ?_
    rintro _ ⟨y, rfl⟩
    exact yieldsIf_grow_leaf ⟨rfl, rfl⟩ ⟨rfl, rfl⟩
  | input name =>
    refine yieldsIf_behind (yields_mutateInput_eq name) ?_
    rintro _ ⟨other, -, rfl⟩
    exact yieldsIf_grow_leaf ⟨rfl, rfl⟩ ⟨rfl, rfl⟩
  | binary op left right ihl ihr =>
    refine yieldsIf_behind
      (yields_chance_of_mem (c := c) (p := c.parameters.collapse) (by simp [Parameters.chances]))
      fun collapses _ => yieldsIf_ite (fun _ => Yields.yieldsIf ?_) fun _ => ?_
    · refine yields_seq yields_half fun first =>
        yields_ite (fun _ => yields_pure ?_) fun _ => yields_pure ?_
      · exact growsTo_of_le (by rw [Expr.depth]; omega) (by rw [Expr.size]; omega)
      · exact growsTo_of_le (by rw [Expr.depth]; omega) (by rw [Expr.size]; omega)
    · refine yieldsIf_behind (yields_mutateOperator op) fun op _ => ?_
      refine yieldsIf_bind (yieldsIf_freshOr ihl) fun left hleft => ?_
      refine yieldsIf_bind (yieldsIf_freshOr ihr) fun right hright => ?_
      exact yieldsIf_grow_combine hleft hright _ op

theorem levelCap_one : c.levelCap 1 = max 1 c.parameters.maxDepth.toNat := by
  unfold levelCap
  omega

end Context
end SymbolicRegression.Mutation

namespace SymbolicRegression.Formula

open Mutation Mutation.Context Draw

def mutateWeighings {σ : Type} [WordSource σ] (c : Context) (f : Formula) : σ → List Weighing :=
  c.freshOrWeighings (c.mutateWeighings f.root)

/-- Let `n` be the greatest depth of generation, or one if that is zero. If every range, choice and
chance can be drawn for, and no weight is rounded up to the total of which it should be a part, then
a mutation of an expression, or of a formula, comes to an end. What it returns has at most twice the
depth and `n - 1` levels more, and at most `2 ^ n + 1` times the size. -/
theorem mutate_growsTo (σ : Type) [WordSource σ] (c : Context) :
    (∀ (e : Expr) (s : σ), (∀ fault, c.mutate e s = .error fault → fault = .tooDeep) →
      (∀ w ∈ c.mutateWeighings e s, w.drawn < w.total) →
      ∃ e' s', c.mutate e s = .ok (e', s') ∧
        e'.depth ≤ 2 * e.depth - 1 + max 1 c.parameters.maxDepth.toNat ∧
        e'.size ≤ (2 ^ max 1 c.parameters.maxDepth.toNat + 1) * e.size) ∧
    ∀ (f : Formula) (s : σ), (∀ fault, f.mutate c s = .error fault → fault = .tooDeep) →
      (∀ w ∈ f.mutateWeighings c s, w.drawn < w.total) →
      ∃ f' s', f.mutate c s = .ok (f', s') ∧
        f'.root.depth ≤ 2 * f.root.depth - 1 + max 1 c.parameters.maxDepth.toNat ∧
        f'.size ≤ (2 ^ max 1 c.parameters.maxDepth.toNat + 1) * f.size := by
  rw [← levelCap_one]
  constructor
  · intro e s drawn parts
    obtain ⟨e', s', run, grown⟩ := (yieldsIf_mutate e s parts).exists_ok drawn
    exact ⟨e', s', run, grown.depth, grown.size⟩
  · intro f s drawn parts
    have yields : YieldsIf Weighing.IsPart (f.mutate c : Draw σ Formula) (f.mutateWeighings c)
        (fun f' => c.GrowsTo f.root f'.root) (· ≠ .tooDeep) :=
      yieldsIf_seq (yieldsIf_freshOr (yieldsIf_mutate f.root)) fun _ grown => yields_pure grown
    obtain ⟨f', s', run, grown⟩ := (yields s parts).exists_ok drawn
    exact ⟨f', s', run, grown.depth, grown.size⟩

/-- Parameters under which every node is wrapped, fresh trees are leaves, and nothing else
happens. -/
def wrapParameters : Parameters :=
  { Parameters.standard with
    wrap := 1.0
    change := 0.0
    changeOperator := 0.0
    regenerate := 0.0
    collapse := 0.0
    maxDepth := 1 }

def wrapContext : Context := ⟨Dataset.sample, wrapParameters, by decide +kernel⟩

def sumOfFields : Expr := .binary .add (.input "first") (.input "second")

/-- With three weights drawn for three fresh leaves, the sum grows from depth two to four and from
three nodes to nine, as far as it may. -/
theorem mutate_growsTo_sum :
    (wrapContext.mutateWeighings sumOfFields (Script.ofWords #[])).length = 3 ∧
      (wrapContext.mutate sumOfFields (Script.ofWords #[])).map
        (fun result => (result.1.depth, result.1.size)) = .ok (4, 9) ∧
      (∃ e s, wrapContext.mutate sumOfFields (Script.ofWords #[]) = .ok (e, s) ∧
        e.depth ≤ 4 ∧ e.size ≤ 9) ∧
      ∃ f s, Formula.mutate wrapContext ⟨sumOfFields⟩ (Script.ofWords #[]) = .ok (f, s) ∧
        f.root.depth ≤ 4 ∧ f.size ≤ 9 := by
  obtain ⟨expression, formula⟩ := mutate_growsTo Script wrapContext
  have grown : (wrapContext.mutate sumOfFields (Script.ofWords #[])).map
      (fun result => (result.1.depth, result.1.size)) = .ok (4, 9) := by decide +kernel
  have formula_grown : (Formula.mutate wrapContext ⟨sumOfFields⟩ (Script.ofWords #[])).map
      (fun result => result.1.size) = .ok 9 := by decide +kernel
  refine ⟨by decide +kernel, grown,
    expression sumOfFields (Script.ofWords #[]) ?_ (by decide +kernel),
    formula ⟨sumOfFields⟩ (Script.ofWords #[]) ?_ (by decide +kernel)⟩
  · intro fault failed
    rw [failed] at grown
    cases grown
  · intro fault failed
    rw [failed] at formula_grown
    cases formula_grown

end SymbolicRegression.Formula
