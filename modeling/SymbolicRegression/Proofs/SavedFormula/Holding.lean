import SymbolicRegression.Proofs.Expr.Trees
import SymbolicRegression.Proofs.Json.Holding
import SymbolicRegression.SavedFormula

/-!
# Formulas straight from the text, or from memory

A document that holds a formula is held in memory before the forms that it may have are tried one
after another. Each of the forms can also be read straight from a text. Whatever is read that way
is also found in memory, if the text can be held there at all.
-/
namespace SymbolicRegression

open Json Reader

namespace Formula

theorem pairs_slots {m n : Type → Type} [Functor m] [Functor n]
    {related : m (Option Expr) → n (Option Expr) → Prop} {first : m Expr} {second : n Expr}
    (h : related (some <$> first) (some <$> second)) :
    List.Forall₂ (Slot.Pairs related) (slots first) (slots second) :=
  .cons (pairs_field "root" id (fun _ e => some e) fun _ => h) .nil

/-- The formula that the tree of a document is, read straight. -/
def ofWritten : ℕ → Held Written Formula :=
  form.ofWritten fun depth => slots (Written.held depth Expr.ofValue)

theorem reads_reader (depth : ℕ) : Reads [] (reader depth) (ofWritten depth) :=
  reads_record (fun depth => pairs_slots ((Expr.reads_reader depth).map some)) depth

theorem ofWritten_follows (depth : ℕ) : Follows depth (ofWritten depth) ofValue :=
  Json.ofWritten_follows
    (fun depth => pairs_slots ((follows_held depth Expr.ofValue).map some)) depth

end Formula

namespace SavedFormula

/-- The slots of a result are related if the ways of reading its fields are. -/
theorem pairs_slots {m n : Type → Type} [Functor m] [Functor n]
    (related : {α : Type} → m α → n α → Prop)
    (map : ∀ {α β : Type} {a : m α} {b : n α}, related a b → ∀ g : α → β,
      related (g <$> a) (g <$> b))
    {instant : m Instant} {word : String → m UInt64} {float : m Float} {formula : m Formula}
    {instant' : n Instant} {word' : String → n UInt64} {float' : n Float} {formula' : n Formula}
    (hinstant : related instant instant') (hword : ∀ kind, related (word kind) (word' kind))
    (hfloat : related float float') (hformula : related formula formula') :
    List.Forall₂ (Slot.Pairs related) (slots instant word float formula)
      (slots instant' word' float' formula') :=
  .cons (pairs_field _ _ _ fun _ => map hinstant _) <|
  .cons (pairs_field _ _ _ fun _ => map (hword "u64") _) <|
  .cons (pairs_field _ _ _ fun _ => map (hword "u64") _) <|
  .cons (pairs_field _ _ _ fun _ => map (hword "u64") _) <|
  .cons (pairs_field _ _ _ fun _ => map hfloat _) <|
  .cons (pairs_field _ _ _ fun _ => map (hword "usize") _) <|
  .cons (pairs_field _ _ _ fun _ => map hformula _) .nil

/-- An instant read straight is the instant held in memory. -/
theorem reads_readInstant (depth : ℕ) :
    Reads [] readInstant (Written.held depth instantOfValue) := by
  have checked := (reads_text depth instantKind).bind instantOf
  intro s t rest h
  obtain ⟨w, spelled, made⟩ := checked s t rest h
  refine ⟨w, spelled, ?_⟩
  change (w.value depth >>= fun v => v.asText instantKind >>= instantOf) = .ok t
  rw [← bind_assoc]
  exact made

/-- The result that the tree of a document is, read straight. -/
def ofWritten : ℕ → Held Written SavedFormula :=
  form.ofWritten fun depth =>
    slots (Written.held depth instantOfValue)
      (fun kind => Written.held depth (Value.asWord kind))
      (Written.held depth Value.asFloat) (Formula.ofWritten depth)

theorem reads_reader (depth : ℕ) : Reads [] (reader depth) (ofWritten depth) :=
  reads_record (fun depth => pairs_slots (m := Reader) (n := Held Written) (Reads []) Reads.map
    (reads_readInstant depth) (reads_word64 depth) (reads_float depth)
    (Formula.reads_reader depth)) depth

theorem ofWritten_follows (depth : ℕ) : Follows depth (ofWritten depth) ofValue :=
  Json.ofWritten_follows (fun depth => pairs_slots (m := Held Written) (n := Held Value)
    (Follows depth) Follows.map (follows_held depth instantOfValue)
    (fun kind => follows_held depth (Value.asWord kind)) (follows_held depth Value.asFloat)
    (Formula.ofWritten_follows depth)) depth

end SavedFormula

namespace FormulaDocument

variable {text : String}

/-- A document is what the first fitting form makes of the value that the text holds. -/
theorem read_of_value {v : Value} (h : Value.read text = .ok v) : read text = ofValue v :=
  run_bind_of_ok h

/-- A document is held in memory before it is taken for any form. -/
theorem exists_of_read {d : FormulaDocument} (h : read text = .ok d) :
    ∃ v, Value.read text = .ok v ∧ ofValue v = .ok d := exists_of_run_bind h

/-- A text that cannot be held in memory is refused for the same reason. -/
theorem read_of_unheld {fault : Fault} (unheld : Unheld fault)
    (h : Value.read text = .error fault) : read text = .error fault := by
  rcases run_eq_error h with failed | rfl
  · exact run_of_error (bind_of_error failed)
  · cases unheld

/-- If the record of a result does not fit, a formula is tried next. -/
theorem ofValue_of_not_saved {v : Value} (h : ∀ s, SavedFormula.ofValue v ≠ .ok s) :
    ofValue v =
      match Formula.ofValue v with
      | .ok f => .ok (formula f)
      | .error _ =>
        match Expr.ofValue v with
        | .ok e => .ok (expr e)
        | .error _ => .error (.content (.noVariant "FormulaFile")) := by
  unfold ofValue
  cases saved : SavedFormula.ofValue v with
  | ok s => exact absurd saved (h s)
  | error fault => rfl

/-- What is read straight from a text as an expression, a formula or a saved formula is also what
that form makes of the text held in memory. Only with a formula or a saved formula the text may be
one that cannot be held, and is then refused for it. Of a text that is held, the first form that
fits is taken, and a text that is no document is not taken for anything. -/
theorem straight_is_held (text : String) :
    (∀ e, Expr.read text = .ok e → ∃ v, Value.read text = .ok v ∧ Expr.ofValue v = .ok e) ∧
    (∀ f, Formula.read text = .ok f → IsHeldAs text Formula.ofValue f) ∧
    (∀ s, SavedFormula.read text = .ok s → IsHeldAs text SavedFormula.ofValue s) ∧
    (∀ fault, Unheld fault → Value.read text = .error fault → read text = .error fault) ∧
    (∀ v, Value.read text = .ok v →
      (∀ s, SavedFormula.read text = .ok s → read text = .ok (saved s)) ∧
      ((∀ s, SavedFormula.ofValue v ≠ .ok s) →
        (∀ f, Formula.read text = .ok f → read text = .ok (formula f)) ∧
        ((∀ f, Formula.ofValue v ≠ .ok f) →
          ∀ e, Expr.read text = .ok e → read text = .ok (expr e)))) ∧
    ∀ d, read text = .ok d → ∃ w : Written, w.IsSpelled text := by
  have asExpr (e) (h : Expr.read text = .ok e) :
      ∃ v, Value.read text = .ok v ∧ Expr.ofValue v = .ok e := by
    obtain ⟨w, spelled, made⟩ := (Expr.reads_reader depthLimit).exists_of_run h
    obtain ⟨v, holds, made⟩ := ok_of_bind made
    exact ⟨v, (read_of_isSpelled spelled).trans holds, made⟩
  have asFormula (f) (h : Formula.read text = .ok f) : IsHeldAs text Formula.ofValue f :=
    isHeldAs_of_run (Formula.reads_reader depthLimit) (Formula.ofWritten_follows depthLimit) h
  have asSaved (s) (h : SavedFormula.read text = .ok s) :
      IsHeldAs text SavedFormula.ofValue s :=
    isHeldAs_of_run (SavedFormula.reads_reader depthLimit)
      (SavedFormula.ofWritten_follows depthLimit) h
  refine ⟨asExpr, asFormula, asSaved, fun fault => read_of_unheld, ?_, ?_⟩
  · intro v held
    refine ⟨fun s h => ?_, fun notSaved => ⟨fun f h => ?_, fun notFormula e h => ?_⟩⟩
    · rw [read_of_value held, ofValue, (asSaved s h).of_read held]
    · rw [read_of_value held, ofValue_of_not_saved notSaved, (asFormula f h).of_read held]
    · obtain ⟨v', held', made⟩ := asExpr e h
      cases held.symm.trans held'
      rw [read_of_value held, ofValue_of_not_saved notSaved, made]
      cases taken : Formula.ofValue v with
      | ok f => exact absurd taken (notFormula f)
      | error fault => rfl
  · intro d h
    obtain ⟨v, held, -⟩ := exists_of_read h
    obtain ⟨w, spelled, -⟩ := Json.exists_of_read held
    exact ⟨w, spelled⟩

/-- An expression alone. -/
def exprText : String := "[\"input\",\"x\"]"

/-- A formula alone. -/
def formulaText : String := "[[\"input\",\"x\"]]"

/-- The record of a search without a generation. -/
def savedText : String := "[\"1970-01-01T00:00:00Z\",0,0,0,0,1,[[\"input\",\"x\"]]]"

theorem straight_is_held_lists :
    read exprText = .ok (expr (.input "x")) ∧ read formulaText = .ok (formula ⟨.input "x"⟩) ∧
      read savedText = .ok (saved ⟨⟨0, 0⟩, 0, 0, 0, 0.0, 1, ⟨.input "x"⟩⟩) := by
  refine ⟨?_, ?_, ?_⟩
  · have straight : Expr.read exprText = .ok (.input "x") := ok_of_toOption (by decide +kernel)
    have held : Value.read exprText = .ok (.list [.text "input", .text "x"]) := by cbv
    obtain ⟨-, -, -, -, forms, -⟩ := straight_is_held exprText
    obtain ⟨-, others⟩ := forms _ held
    obtain ⟨-, last⟩ := others (ne_ok_of_toOption rfl)
    exact last (ne_ok_of_toOption rfl) _ straight
  · have straight : Formula.read formulaText = .ok ⟨.input "x"⟩ :=
      ok_of_toOption (by decide +kernel)
    have held : Value.read formulaText = .ok (.list [.list [.text "input", .text "x"]]) := by cbv
    obtain ⟨-, -, -, -, forms, -⟩ := straight_is_held formulaText
    obtain ⟨-, others⟩ := forms _ held
    exact (others (ne_ok_of_toOption rfl)).1 _ straight
  · have straight : SavedFormula.read savedText = .ok ⟨⟨0, 0⟩, 0, 0, 0, 0.0, 1, ⟨.input "x"⟩⟩ :=
      ok_of_toOption (by decide +kernel)
    have held : Value.read savedText =
        .ok (.list [.text "1970-01-01T00:00:00Z", .number (.natural 0), .number (.natural 0),
          .number (.natural 0), .number (.natural 0), .number (.natural 1),
          .list [.list [.text "input", .text "x"]]]) := by cbv
    obtain ⟨-, -, -, -, forms, -⟩ := straight_is_held savedText
    exact (forms _ held).1 _ straight

/-- A formula with a member that is no field, whose number is out of range. -/
def skippedNumber : String := "\x7b\"root\":[\"input\",\"x\"],\"note\":1e999\x7d"

/-- An expression with a member that is no field, in which a form is given by its position. -/
def positionedForm : String :=
  "\x7b\"type\":\"input\",\"name\":\"x\",\"root\":[1,\"y\"]\x7d"

/-- Not everything that is read straight is found in memory: what is skipped straight may not be
held, and what is refused straight may be held as a form that is tried before. -/
theorem straight_is_not_always_held :
    (Formula.read skippedNumber = .ok ⟨.input "x"⟩ ∧ (∀ v, Value.read skippedNumber ≠ .ok v) ∧
      ∀ d, read skippedNumber ≠ .ok d) ∧
    Expr.read positionedForm = .ok (.input "x") ∧
      (∀ s, SavedFormula.read positionedForm ≠ .ok s) ∧
      (∀ f, Formula.read positionedForm ≠ .ok f) ∧
      read positionedForm = .ok (formula ⟨.input "y"⟩) := by
  refine ⟨⟨ok_of_toOption ?_, ne_ok_of_toOption ?_, ne_ok_of_toOption ?_⟩, ok_of_toOption ?_,
    ne_ok_of_toOption ?_, ne_ok_of_toOption ?_, ok_of_toOption ?_⟩
  -- values cannot be compared, so of this one only that there is none is decided
  rotate_left 1
  · exact Option.isNone_iff_eq_none.mp (by decide +kernel)
  all_goals decide +kernel

end FormulaDocument

end SymbolicRegression
