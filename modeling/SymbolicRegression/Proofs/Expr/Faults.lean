import SymbolicRegression.Dataset.Sample
import SymbolicRegression.Proofs.Binary64.Quotient
import SymbolicRegression.Proofs.Expr.Evaluation

/-!
# Where an evaluation fails

An expression is evaluated in postorder: the left operand, then the right one, then the node
itself. A literal is at fault if it is not finite; an addition, a subtraction or a multiplication is
if its operands have values and its result is not finite. A division never is, since a divisor of
magnitude one or more leaves a finite dividend finite. An evaluation fails with the first fault in
that order, and succeeds if there is none; then every node has a finite value.
-/
namespace SymbolicRegression

open Binary64

/-- A finite divisor is moved to a finite one of magnitude one or more. -/
theorem awayFromZero_spec {x : Float} (finite : x.isFinite = true) :
    (awayFromZero x).isFinite = true ∧ 1 ≤ |toRat (awayFromZero x)| := by
  unfold awayFromZero
  split_ifs with small negative
  · decide +kernel
  · decide +kernel
  · obtain ⟨magnitude, abs_eq⟩ := abs_spec finite
    have one : toRat 1.0 = 1 := by decide +kernel
    rw [lt_iff magnitude (by rfl), abs_eq, one, not_lt] at small
    exact ⟨finite, small⟩

/-- A quotient of finite numbers is finite, and no larger than its dividend. -/
theorem Operator.compute_divide_spec {a b : Float} (ha : a.isFinite = true)
    (hb : b.isFinite = true) :
    (divide.compute a b).isFinite = true ∧ (divide.compute a b).abs ≤ a.abs := by
  obtain ⟨divisor, large⟩ := awayFromZero_spec hb
  obtain ⟨finite, bounded⟩ := div_spec ha divisor large
  obtain ⟨quotient_abs, quotient_eq⟩ := abs_spec finite
  obtain ⟨dividend_abs, dividend_eq⟩ := abs_spec ha
  refine ⟨finite, ?_⟩
  rwa [compute, le_iff quotient_abs dividend_abs, quotient_eq, dividend_eq]

namespace Expr

variable {e : Expr} {r : Record}

/-- All nodes in the order in which they are evaluated: each behind its operands, the left one
first. -/
def postorder : Expr → List Expr
  | literal x => [literal x]
  | input name => [input name]
  | binary op left right => left.postorder ++ right.postorder ++ [binary op left right]

/-- Whether an expression is an addition, a subtraction or a multiplication whose operands have
values on a record, while its result is not finite. -/
def Overflows (r : Record) : Expr → Prop
  | literal _ => False
  | input _ => False
  | binary op left right => op ≠ .divide ∧ ∃ a b, left.evaluate r = .ok a ∧
      right.evaluate r = .ok b ∧ ¬(op.compute a b).isFinite = true

/-- What is wrong with the root of an expression on a record, all else being right. -/
def ownFault (r : Record) : Expr → Option EvaluationError
  | literal x => if x.isFinite then none else some .nonFiniteLiteral
  | input _ => none
  | binary op left right =>
    match left.evaluate r, right.evaluate r with
    | .ok a, .ok b => if (op.compute a b).isFinite then none else some (.overflow op)
    | _, _ => none

/-- An evaluation comes to the first fault of all nodes, if any is at fault. -/
theorem findSome?_ownFault (e : Expr) (r : Record) :
    e.postorder.findSome? (ownFault r) =
      match e.evaluate r with
      | .ok _ => none
      | .error fault => some fault := by
  induction e with
  | literal x =>
    by_cases finite : x.isFinite = true <;> simp [postorder, ownFault, evaluate, finite]
  | input name => rfl
  | binary op left right ihl ihr =>
    rw [postorder, List.findSome?_append, List.findSome?_append, ihl, ihr, evaluate_binary]
    cases hl : left.evaluate r with
    | error fault => simp [bind, Except.bind]
    | ok a =>
      cases hr : right.evaluate r with
      | error fault => simp [bind, Except.bind]
      | ok b =>
        by_cases finite : (op.compute a b).isFinite = true <;>
          simp [bind, Except.bind, ownFault, hl, hr, Operator.apply_eq, finite]

/-- An evaluation fails with a fault if a node has it and no node before is at fault. -/
theorem evaluate_eq_error_iff {fault : EvaluationError} :
    e.evaluate r = .error fault ↔ ∃ before node after, e.postorder = before ++ node :: after ∧
      node.ownFault r = some fault ∧ ∀ other ∈ before, other.ownFault r = none := by
  rw [← List.findSome?_eq_some_iff, findSome?_ownFault]
  cases e.evaluate r <;> simp

/-- An evaluation succeeds if no node is at fault. -/
theorem exists_evaluate_eq_ok_iff :
    (∃ x, e.evaluate r = .ok x) ↔ ∀ node ∈ e.postorder, node.ownFault r = none := by
  rw [← List.findSome?_eq_none_iff, findSome?_ownFault]
  cases e.evaluate r <;> simp

/-- Where an expression has a value, so have all of its nodes. -/
theorem exists_evaluate_of_mem_postorder {x : Float} (value : e.evaluate r = .ok x) {node : Expr}
    (h : node ∈ e.postorder) : ∃ y, node.evaluate r = .ok y := by
  induction e generalizing x with
  | literal _ =>
    rw [postorder, List.mem_singleton] at h
    exact ⟨x, by rw [h, value]⟩
  | input _ =>
    rw [postorder, List.mem_singleton] at h
    exact ⟨x, by rw [h, value]⟩
  | binary op left right ihl ihr =>
    obtain ⟨a, b, hl, hr, -⟩ := evaluate_binary_eq_ok_iff.mp value
    simp only [postorder, List.mem_append, List.mem_singleton] at h
    rcases h with (h | h) | rfl
    · exact ihl hl h
    · exact ihr hr h
    · exact ⟨x, value⟩

theorem ownFault_literal_eq_some_iff {x : Float} {fault : EvaluationError} :
    (literal x).ownFault r = some fault ↔ fault = .nonFiniteLiteral ∧ ¬x.isFinite = true := by
  by_cases finite : x.isFinite = true <;> simp [ownFault, finite, eq_comm]

theorem ownFault_binary_eq_some_iff {op : Operator} {left right : Expr}
    {fault : EvaluationError} :
    (binary op left right).ownFault r = some fault ↔ fault = .overflow op ∧
      ∃ a b, left.evaluate r = .ok a ∧ right.evaluate r = .ok b ∧
        ¬(op.compute a b).isFinite = true := by
  cases hl : left.evaluate r with
  | error _ => simp [ownFault, hl]
  | ok a =>
    cases hr : right.evaluate r with
    | error _ => simp [ownFault, hl, hr]
    | ok b =>
      by_cases finite : (op.compute a b).isFinite = true <;>
        simp [ownFault, hl, hr, finite, @eq_comm _ fault]

theorem ownFault_eq_nonFiniteLiteral_iff :
    e.ownFault r = some .nonFiniteLiteral ↔ ∃ x, e = literal x ∧ ¬x.isFinite = true := by
  cases e with
  | literal x => simp [ownFault_literal_eq_some_iff]
  | input name => simp [ownFault]
  | binary op left right => simp [ownFault_binary_eq_some_iff]

/-- On a record of finite numbers every operator but division may overflow. -/
theorem ownFault_eq_overflow_iff (finite : ∀ entry ∈ r.entries, entry.2.isFinite = true)
    {op : Operator} : e.ownFault r = some (.overflow op) ↔
      ∃ left right, e = binary op left right ∧ e.Overflows r := by
  cases e with
  | literal x => simp [ownFault_literal_eq_some_iff]
  | input name => simp [ownFault]
  | binary op' left right =>
    have other (a b : Float) (hl : left.evaluate r = .ok a) (hr : right.evaluate r = .ok b)
        (result : ¬(op'.compute a b).isFinite = true) : op' ≠ .divide := by
      rintro rfl
      exact result (Operator.compute_divide_spec (isFinite_of_evaluate finite hl)
        (isFinite_of_evaluate finite hr)).1
    rw [ownFault_binary_eq_some_iff]
    constructor
    · rintro ⟨same, a, b, hl, hr, result⟩
      cases same
      exact ⟨left, right, rfl, other a b hl hr result, a, b, hl, hr, result⟩
    · rintro ⟨_, _, same, -, overflow⟩
      cases same
      exact ⟨rfl, overflow⟩

/-- Nothing else can be wrong with a node. -/
theorem eq_nonFiniteLiteral_or_overflows (finite : ∀ entry ∈ r.entries, entry.2.isFinite = true)
    {fault : EvaluationError} (h : e.ownFault r = some fault) :
    fault = .nonFiniteLiteral ∨ e.Overflows r := by
  cases e with
  | literal x => exact .inl (ownFault_literal_eq_some_iff.mp h).1
  | input name => cases h
  | binary op left right =>
    obtain ⟨rfl, -⟩ := ownFault_binary_eq_some_iff.mp h
    obtain ⟨-, -, -, overflows⟩ := (ownFault_eq_overflow_iff finite).mp h
    exact .inr overflows

theorem ownFault_eq_none_iff (finite : ∀ entry ∈ r.entries, entry.2.isFinite = true) :
    e.ownFault r = none ↔ (∀ x, e = literal x → x.isFinite = true) ∧ ¬e.Overflows r := by
  constructor
  · intro right
    refine ⟨fun x same => ?_, fun overflows => ?_⟩
    · by_contra infinite
      cases right.symm.trans (ownFault_eq_nonFiniteLiteral_iff.mpr ⟨x, same, infinite⟩)
    · cases e with
      | literal x => exact overflows
      | input name => exact overflows
      | binary op left other =>
        cases right.symm.trans ((ownFault_eq_overflow_iff finite).mpr ⟨left, other, rfl, overflows⟩)
  · rintro ⟨literals, operators⟩
    by_contra wrong
    obtain ⟨fault, h⟩ := Option.ne_none_iff_exists'.mp wrong
    rcases eq_nonFiniteLiteral_or_overflows finite h with rfl | overflows
    · obtain ⟨x, same, infinite⟩ := ownFault_eq_nonFiniteLiteral_iff.mp h
      exact infinite (literals x same)
    · exact operators overflows

/-- Whether no node of a list is a literal that is not finite, or overflows. -/
theorem forall_ownFault_eq_none_iff (finite : ∀ entry ∈ r.entries, entry.2.isFinite = true)
    {nodes : List Expr} : (∀ node ∈ nodes, node.ownFault r = none) ↔
      (∀ x, literal x ∈ nodes → x.isFinite = true) ∧ ∀ node ∈ nodes, ¬node.Overflows r := by
  simp only [ownFault_eq_none_iff finite]
  constructor
  · intro h
    exact ⟨fun x hx => (h _ hx).1 x rfl, fun node hnode => (h node hnode).2⟩
  · rintro ⟨literals, operators⟩ node hnode
    exact ⟨fun x same => literals x (same ▸ hnode), operators node hnode⟩

/-- A literal is to blame if nothing overflows before the first one that is not finite. -/
theorem evaluate_eq_nonFiniteLiteral_iff
    (finite : ∀ entry ∈ r.entries, entry.2.isFinite = true) :
    e.evaluate r = .error .nonFiniteLiteral ↔
      ∃ before x after, e.postorder = before ++ literal x :: after ∧ ¬x.isFinite = true ∧
        ∀ node ∈ before, ¬node.Overflows r := by
  constructor
  · intro failed
    obtain ⟨before, node, after, split, fault, quiet⟩ := evaluate_eq_error_iff.mp failed
    obtain ⟨x, rfl, infinite⟩ := ownFault_eq_nonFiniteLiteral_iff.mp fault
    exact ⟨before, x, after, split, infinite, ((forall_ownFault_eq_none_iff finite).mp quiet).2⟩
  · rintro ⟨before, x, after, split, infinite, quiet⟩
    have found : e.postorder.findSome? (ownFault r) = some .nonFiniteLiteral := by
      rw [split, List.findSome?_append]
      cases first : before.findSome? (ownFault r) with
      | none => simp [ownFault, infinite]
      | some fault =>
        -- the first fault may come before this literal, but then it is another literal's
        obtain ⟨node, hnode, own⟩ := List.exists_of_findSome?_eq_some first
        rcases eq_nonFiniteLiteral_or_overflows finite own with rfl | overflows
        · rfl
        · exact absurd overflows (quiet node hnode)
    rw [findSome?_ownFault] at found
    cases result : e.evaluate r with
    | ok y =>
      rw [result] at found
      cases found
    | error fault =>
      rw [result] at found
      rw [Option.some.inj found]

/-- An operator is to blame if nothing is wrong before the first node that overflows. -/
theorem evaluate_eq_overflow_iff (finite : ∀ entry ∈ r.entries, entry.2.isFinite = true)
    {op : Operator} :
    e.evaluate r = .error (.overflow op) ↔
      ∃ before left right after, e.postorder = before ++ binary op left right :: after ∧
        (binary op left right).Overflows r ∧ (∀ x, literal x ∈ before → x.isFinite = true) ∧
        ∀ node ∈ before, ¬node.Overflows r := by
  simp only [evaluate_eq_error_iff, forall_ownFault_eq_none_iff finite,
    ownFault_eq_overflow_iff finite]
  constructor
  · rintro ⟨before, _, after, split, ⟨left, right, rfl, overflows⟩, quiet⟩
    exact ⟨before, left, right, after, split, overflows, quiet⟩
  · rintro ⟨before, left, right, after, split, overflows, quiet⟩
    exact ⟨before, _, after, split, ⟨left, right, rfl, overflows⟩, quiet⟩

/-- On the records of a dataset no value is infinite or not a number, be it that of an expression
or of one of its nodes, and no division fails: a quotient is no larger than its dividend. An
evaluation fails for a literal exactly if, in postorder, a literal that is not finite comes before
all additions, subtractions and multiplications that overflow. It fails for an operator exactly if
a node with this operator overflows, no node before it does, and all literals before it are finite.
It succeeds exactly if there is neither. -/
theorem evaluate_fails_first (d : Dataset) (r : Record) (hr : r ∈ d.records) (e : Expr) :
    (∀ x, e.evaluate r = .ok x → x.isFinite = true ∧
      ∀ node ∈ e.postorder, ∃ y, node.evaluate r = .ok y ∧ y.isFinite = true) ∧
    e.evaluate r ≠ .error .errorOverflow ∧
    e.evaluate r ≠ .error (.overflow .divide) ∧
    (∀ a b : Float, a.isFinite = true → b.isFinite = true →
      (a / awayFromZero b).isFinite = true ∧ (a / awayFromZero b).abs ≤ a.abs) ∧
    (e.evaluate r = .error .nonFiniteLiteral ↔
      ∃ before x after, e.postorder = before ++ literal x :: after ∧ ¬x.isFinite = true ∧
        ∀ node ∈ before, ¬node.Overflows r) ∧
    (∀ op, e.evaluate r = .error (.overflow op) ↔
      ∃ before left right after, e.postorder = before ++ binary op left right :: after ∧
        (binary op left right).Overflows r ∧ (∀ x, literal x ∈ before → x.isFinite = true) ∧
        ∀ node ∈ before, ¬node.Overflows r) ∧
    ((∃ x, e.evaluate r = .ok x) ↔ (∀ x, literal x ∈ e.postorder → x.isFinite = true) ∧
      ∀ node ∈ e.postorder, ¬node.Overflows r) := by
  have finite := d.finite r hr
  refine ⟨fun x value => ⟨isFinite_of_evaluate finite value, fun node hnode => ?_⟩,
    evaluate_ne_errorOverflow e r, fun failed => ?_,
    fun a b ha hb => Operator.compute_divide_spec ha hb,
    evaluate_eq_nonFiniteLiteral_iff finite, fun op => evaluate_eq_overflow_iff finite, ?_⟩
  · obtain ⟨y, node_value⟩ := exists_evaluate_of_mem_postorder value hnode
    exact ⟨y, node_value, isFinite_of_evaluate finite node_value⟩
  · obtain ⟨-, -, -, -, -, ⟨other, -⟩, -⟩ := (evaluate_eq_overflow_iff finite).mp failed
    exact other rfl
  · rw [exists_evaluate_eq_ok_iff, forall_ownFault_eq_none_iff finite]

/-- A product that is beyond the finite numbers on the first record of the built-in dataset. -/
def hugeProduct : Expr := binary .multiply (literal 1e308) (input "second")

/-- On that record, the sum of the product and of a literal that is no number fails for whichever
stands on the left. The quotient of the least number and a missing field has a value. -/
theorem evaluate_fails_first_product :
    Dataset.sampleRecords[0] ∈ Dataset.sample.records ∧
      (binary .add hugeProduct (literal (0.0 / 0.0))).evaluate Dataset.sampleRecords[0]
        = .error (.overflow .multiply) ∧
      (binary .add (literal (0.0 / 0.0)) hugeProduct).evaluate Dataset.sampleRecords[0]
        = .error .nonFiniteLiteral ∧
      ∃ x, (binary .divide (literal 5e-324) (input "none")).evaluate Dataset.sampleRecords[0]
        = .ok x := by
  have known : Dataset.sampleRecords[0] ∈ Dataset.sample.records := List.getElem_mem _
  have first := evaluate_fails_first Dataset.sample _ known
  have overflows : hugeProduct.Overflows Dataset.sampleRecords[0] :=
    ⟨by decide, 1e308, 500.0, by decide +kernel, by decide +kernel, by decide +kernel⟩
  refine ⟨known, ?_, ?_, ?_⟩
  · obtain ⟨-, -, -, -, -, operator, -⟩ := first (binary .add hugeProduct (literal (0.0 / 0.0)))
    refine (operator .multiply).mpr ⟨[literal 1e308, input "second"], _, _, _, rfl, overflows,
      fun x hx => ?_, by simp [Overflows]⟩
    obtain rfl : x = 1e308 := by simpa using hx
    decide +kernel
  · obtain ⟨-, -, -, -, literals, -⟩ := first (binary .add (literal (0.0 / 0.0)) hugeProduct)
    exact literals.mpr ⟨[], 0.0 / 0.0, _, rfl, by decide, by simp⟩
  · obtain ⟨-, -, -, -, -, -, success⟩ := first (binary .divide (literal 5e-324) (input "none"))
    refine success.mpr ⟨fun x hx => ?_, by simp [postorder, Overflows]⟩
    obtain rfl : x = 5e-324 := by simpa [postorder] using hx
    decide +kernel

end Expr
end SymbolicRegression
