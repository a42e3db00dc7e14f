import SymbolicRegression.Mutation.Json
import SymbolicRegression.Proofs.Binary64.Sum
import SymbolicRegression.Proofs.Json.Overrides
import SymbolicRegression.Proofs.Mutation.Parameters

/-!
# Parameters that differ from the standard ones

A document names the parameters that differ from the standard ones. Each parameter is a number of
its kind, so what can be said of a number and of a whole number is said of all of them at once.
-/
namespace SymbolicRegression.Mutation

open Json Reader Written

namespace Parameter

def all : List Parameter :=
  [wrap, change, changeOperator, regenerate, collapse, maxDelta, literalWeight, inputWeight,
    binaryWeight, maxDepth]

theorem mem_all (k : Parameter) : k ∈ all := by
  cases k <;> decide

theorem nodup_all : all.Nodup := by decide

/-- The kind of number that a parameter is. -/
def Amount : Parameter → Type
  | maxDepth => UInt64
  | _ => Float

/-- What there is for numbers and for whole numbers there is for every parameter. -/
def byAmount (β : Type → Type) (float : β Float) (word : β UInt64) : (k : Parameter) → β k.Amount
  | wrap | change | changeOperator | regenerate | collapse => float
  | maxDelta | literalWeight | inputWeight | binaryWeight => float
  | maxDepth => word

/-- How a parameter is read straight from a text. -/
def read : (k : Parameter) → Reader k.Amount := byAmount Reader Reader.float (Reader.word64 "usize")

/-- What a document is as a parameter. -/
def ofWritten : (k : Parameter) → Held Written k.Amount :=
  byAmount (Held Written) (Written.held 0 Value.asFloat) (Written.held 0 (Value.asWord "usize"))

/-- Whether a document is a number of the kind of a parameter. -/
def IsAmount : (k : Parameter) → Written → k.Amount → Prop :=
  byAmount (fun α => Written → α → Prop) IsFloat IsWord

theorem ofWritten_iff {k : Parameter} {w : Written} {a : k.Amount} :
    k.ofWritten w = .ok a ↔ k.IsAmount w a := by
  cases k
  case maxDepth => exact held_word_iff
  all_goals exact held_float_iff

theorem reads_read (k : Parameter) : Reads [] k.read k.ofWritten := by
  cases k
  case maxDepth => exact reads_word64 0 "usize"
  all_goals exact reads_float 0

theorem succeeds_read (k : Parameter) : Succeeds k.read k.ofWritten := by
  cases k
  case maxDepth => exact succeeds_word64 "usize"
  all_goals exact succeeds_float

theorem areHeld_ofWritten (depth : ℕ) (k : Parameter) : AreHeld depth k.ofWritten := by
  cases k <;> exact areHeld_held depth _

end Parameter

namespace Parameters

/-- A parameter by its name. -/
def amount (p : Parameters) : (k : Parameter) → k.Amount
  | .wrap => p.wrap
  | .change => p.change
  | .changeOperator => p.changeOperator
  | .regenerate => p.regenerate
  | .collapse => p.collapse
  | .maxDelta => p.maxDelta
  | .literalWeight => p.literalWeight
  | .inputWeight => p.inputWeight
  | .binaryWeight => p.binaryWeight
  | .maxDepth => p.maxDepth

/-- Parameters are told by the amounts of all of them. -/
theorem eq_of_amount {p q : Parameters} (h : ∀ k, p.amount k = q.amount k) : p = q := by
  cases p
  cases q
  cases h .wrap
  cases h .change
  cases h .changeOperator
  cases h .regenerate
  cases h .collapse
  cases h .maxDelta
  cases h .literalWeight
  cases h .inputWeight
  cases h .binaryWeight
  cases h .maxDepth
  rfl

def fields : Fields Parameter Parts where
  name := Parameter.name
  Value := Parameter.Amount
  get p
    | .wrap => p.wrap
    | .change => p.change
    | .changeOperator => p.changeOperator
    | .regenerate => p.regenerate
    | .collapse => p.collapse
    | .maxDelta => p.maxDelta
    | .literalWeight => p.literalWeight
    | .inputWeight => p.inputWeight
    | .binaryWeight => p.binaryWeight
    | .maxDepth => p.maxDepth
  put p
    | .wrap => fun x => { p with wrap := some x }
    | .change => fun x => { p with change := some x }
    | .changeOperator => fun x => { p with changeOperator := some x }
    | .regenerate => fun x => { p with regenerate := some x }
    | .collapse => fun x => { p with collapse := some x }
    | .maxDelta => fun x => { p with maxDelta := some x }
    | .literalWeight => fun x => { p with literalWeight := some x }
    | .inputWeight => fun x => { p with inputWeight := some x }
    | .binaryWeight => fun x => { p with binaryWeight := some x }
    | .maxDepth => fun n => { p with maxDepth := some n }
  name_injective i j h := by
    cases i <;> cases j <;> first | rfl | exact absurd h (by decide)
  get_put_self acc i a := by cases i <;> rfl
  get_put_of_ne acc i a j h := by
    cases i <;> cases j <;> first | rfl | exact absurd rfl h
  ext acc acc' h := by
    cases acc
    cases acc'
    cases h .wrap
    cases h .change
    cases h .changeOperator
    cases h .regenerate
    cases h .collapse
    cases h .maxDelta
    cases h .literalWeight
    cases h .inputWeight
    cases h .binaryWeight
    cases h .maxDepth
    rfl

/-- What has been read of parameters, if these amounts are named. -/
def partsOf (named : (k : Parameter) → Option k.Amount) : Parts where
  wrap := named .wrap
  change := named .change
  changeOperator := named .changeOperator
  regenerate := named .regenerate
  collapse := named .collapse
  maxDelta := named .maxDelta
  literalWeight := named .literalWeight
  inputWeight := named .inputWeight
  binaryWeight := named .binaryWeight
  maxDepth := named .maxDepth

theorem get_partsOf (named : (k : Parameter) → Option k.Amount) (k : Parameter) :
    fields.get (partsOf named) k = named k := by
  cases k <;> rfl

/-- A parameter that has not been read is the standard one. -/
theorem amount_ofParts (parts : Parts) (k : Parameter) :
    (ofParts parts).amount k = (fields.get parts k).getD (standard.amount k) := by
  cases k <;> rfl

theorem get_empty (k : Parameter) : fields.get form.empty k = none := by
  cases k <;> rfl

/-- The parameters that the tree of a document is. -/
def ofWritten : ℕ → Held Written Parameters :=
  form.ofWritten fun _ => fields.slots Parameter.all Parameter.ofWritten

theorem areReadBy_ofWritten :
    fields.AreReadBy (fields.slots Parameter.all Parameter.ofWritten) Parameter.ofWritten :=
  fields.areReadBy_slots Parameter.mem_all Parameter.ofWritten

theorem slots_eq : slots = fields.slots Parameter.all Parameter.read := rfl

theorem pairs_reads :
    List.Forall₂ (Slot.Pairs (Reads [])) slots
      (fields.slots Parameter.all Parameter.ofWritten) := by
  rw [slots_eq]
  exact fields.pairs_slots Parameter.all fun k g => k.reads_read.map g

theorem pairs_succeeds :
    List.Forall₂ (Slot.Pairs Succeeds) slots (fields.slots Parameter.all Parameter.ofWritten) := by
  rw [slots_eq]
  exact fields.pairs_slots Parameter.all fun k g => k.succeeds_read.map g

theorem reads_reader (depth : ℕ) : Reads [] (reader depth) (ofWritten depth) :=
  reads_record (fun _ => pairs_reads) depth

theorem succeeds_reader (depth : ℕ) : Succeeds (reader (depth + 1)) (ofWritten (depth + 1)) :=
  succeeds_record pairs_succeeds

theorem areHeld_ofWritten (depth : ℕ) : AreHeld depth (ofWritten depth) :=
  Json.areHeld_ofWritten rfl
    (fun depth => fields.areHeld_slots Parameter.all (Parameter.areHeld_ofWritten depth)) depth

/-- Whether a document is an object that names parameters, each at most once, with these amounts. -/
def AreGiven (w : Written) (named : (k : Parameter) → Option k.Amount) : Prop :=
  ∃ members, w.IsObject members ∧ fields.Gives Parameter.IsAmount members named

/-- Of an object that names parameters the standard ones are read, with these in their place. -/
theorem ofWritten_of_areGiven {w : Written} {named : (k : Parameter) → Option k.Amount}
    (h : AreGiven w named) (depth : ℕ) :
    ofWritten (depth + 1) w = .ok (ofParts (partsOf named)) := by
  obtain ⟨members, ⟨ms, rfl, areNamed⟩, gives⟩ := h
  refine (ofWritten_object_iff areReadBy_ofWritten rfl get_empty).mpr
    ⟨members, partsOf named, areNamed, ?_, rfl⟩
  rw [funext (get_partsOf named)]
  exact (Fields.gives_congr fun k u a => Parameter.ofWritten_iff).mpr gives

/-- Parameters are read only of objects that name each of them at most once. -/
theorem namesOnce_of_made {w : Written} {p : Parameters} {depth : ℕ} {vs : List (String × Value)}
    (made : ofWritten (depth + 1) w = .ok p) (held : w.value (depth + 1) = .ok (.object vs)) :
    fields.NamesOnce (vs.map Prod.fst) := by
  obtain ⟨members, acc, inside, gives⟩ :=
    exists_gives_of_made areReadBy_ofWritten rfl get_empty made held
  rw [← inside.names]
  exact gives.namesOnce

end Parameters

namespace Parameter

def toValue : (k : Parameter) → k.Amount → Value :=
  byAmount (fun α => α → Value) .ofFloat .ofWord

def IsFinite : (k : Parameter) → k.Amount → Prop :=
  byAmount (fun α => α → Prop) (fun x => x.isFinite = true) fun _ => True

theorem isAmount_of_value {k : Parameter} {a : k.Amount} (finite : k.IsFinite a) {u : Written}
    {depth : ℕ} (held : u.value depth = .ok (k.toValue a)) : k.IsAmount u a := by
  have number {x : Float} (finite : x.isFinite = true) (held : u.value depth = .ok (.ofFloat x)) :
      u.IsFloat x := by
    rw [Value.ofFloat, if_pos finite] at held
    exact isLike_of_value held
  cases k
  case maxDepth => exact isWord_of_value held
  all_goals exact number finite held

end Parameter

theorem Parameters.toValue_eq (p : Parameters) :
    p.toValue = .object (Parameter.all.map fun k => (k.name, k.toValue (p.amount k))) := rfl

/-- Sensible parameters are finite. -/
theorem Parameters.IsSensible.isFinite {p : Parameters} (h : p.IsSensible) (k : Parameter) :
    k.IsFinite (p.amount k) := by
  have chance {x : Float} (hx : x ∈ p.chances.map Prod.snd) : x.isFinite = true := by
    obtain ⟨c, mem, rfl⟩ := List.mem_map.mp hx
    obtain ⟨low, high⟩ := h.chance c mem
    exact Binary64.isFinite_of_between (by decide) (by decide) low high
  cases k
  case wrap => exact chance (by simp [chances, Parameters.amount])
  case change => exact chance (by simp [chances, Parameters.amount])
  case changeOperator => exact chance (by simp [chances, Parameters.amount])
  case regenerate => exact chance (by simp [chances, Parameters.amount])
  case collapse => exact chance (by simp [chances, Parameters.amount])
  case maxDelta => exact h.maxDelta_finite
  case literalWeight => exact h.literalWeight.1
  case inputWeight => exact h.inputWeight.1
  case binaryWeight => exact h.binaryWeight.1
  case maxDepth => trivial

/-- A document that holds finite parameters is made into them again. -/
theorem Parameters.ofWritten_of_value {p : Parameters}
    (finite : ∀ k : Parameter, k.IsFinite (p.amount k)) {w : Written} {depth : ℕ}
    (held : w.value (depth + 1) = .ok p.toValue) :
    ofWritten (depth + 1) w = .ok p := by
  rw [toValue_eq] at held
  obtain ⟨members, object, gives⟩ := fields.exists_gives_of_value Parameter.nodup_all
    Parameter.mem_all (fun k _ held => Parameter.isAmount_of_value (finite k) held) held
  have same : ofParts (partsOf fun k => some (p.amount k)) = p := eq_of_amount fun k => by
    rw [amount_ofParts, get_partsOf]
    rfl
  have given : AreGiven w fun k => some (p.amount k) := ⟨members, object, gives⟩
  rw [ofWritten_of_areGiven given depth, same]

theorem Parameters.isPrinted_toValue (p : Parameters) : p.toValue.IsPrinted := by
  simp [toValue, Value.IsPrinted, Value.MembersArePrinted, Value.isPrinted_ofFloat, Value.ofWord,
    Number.IsPrinted]

theorem Parameters.nesting_toValue (p : Parameters) : p.toValue.nesting = 1 := by
  simp [toValue, Value.nesting, Value.nestingMembers, Value.nesting_ofFloat, Value.ofWord]

end SymbolicRegression.Mutation
