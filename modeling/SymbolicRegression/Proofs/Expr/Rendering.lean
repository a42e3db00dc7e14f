import SymbolicRegression.Expr.Rendering
import SymbolicRegression.Proofs.Decimal.Plain
import SymbolicRegression.Proofs.Expr.Fields

/-!
# The text of an expression is unambiguous

A number ends where a character comes that no number has, a name in braces ends with the first
closing brace, and a node in parentheses has its operands and its symbol one after the other. So
what begins with the text of an expression tells where that text ends, and which expression it is,
as long as no name has a closing brace itself.
-/
namespace SymbolicRegression.Expr

/-- Whether no name in an expression has a closing brace. -/
def HasOpenNames (e : Expr) : Prop := ∀ name ∈ e.fields, '\x7d' ∉ name.toList

instance (e : Expr) : Decidable e.HasOpenNames :=
  inferInstanceAs (Decidable (∀ name ∈ e.fields, '\x7d' ∉ name.toList))

theorem hasOpenNames_binary {op : Operator} {left right : Expr} :
    (binary op left right).HasOpenNames ↔ left.HasOpenNames ∧ right.HasOpenNames := by
  simp [HasOpenNames, fields, or_imp, forall_and]

/-- Two rows of characters of one kind are the same if what follows them is of another kind. -/
theorem row_inj {kind : Char → Bool} {a b rest rest' : List Char}
    (ha : ∀ c ∈ a, kind c = true) (hb : ∀ c ∈ b, kind c = true)
    (hrest : ∀ c ∈ rest.head?, kind c = false) (hrest' : ∀ c ∈ rest'.head?, kind c = false)
    (h : a ++ rest = b ++ rest') : a = b ∧ rest = rest' := by
  have ends {s : List Char} (hs : ∀ c ∈ s.head?, kind c = false) : s.takeWhile kind = [] := by
    cases s with
    | nil => rfl
    | cons c s => rw [List.takeWhile_cons, hs c rfl, if_neg Bool.false_ne_true]
  have same := congrArg (List.takeWhile kind) h
  rw [List.takeWhile_append_of_pos ha, List.takeWhile_append_of_pos hb, ends hrest, ends hrest',
    List.append_nil, List.append_nil] at same
  subst same
  exact ⟨rfl, List.append_cancel_left h⟩

/-- What follows an operand, or the whole text. -/
def Follows (rest : List Char) : Prop := ∀ c ∈ rest.head?, c = ' ' ∨ c = ')'

theorem follows_nil : Follows [] := by simp [Follows]

theorem follows_space (rest : List Char) : Follows (' ' :: rest) := by simp [Follows]

theorem follows_close (rest : List Char) : Follows (')' :: rest) := by simp [Follows]

theorem Follows.not_plain {rest : List Char} (h : Follows rest) :
    ∀ c ∈ rest.head?, Decimal.isPlainChar c = false := by
  intro c hc
  rcases h c hc with rfl | rfl <;> rfl

/-- No number, and nothing that follows one, starts with a brace or a parenthesis. -/
theorem put_literal_ne_cons {x : Float} {rest : List Char} (hrest : Follows rest) {c : Char}
    (hc : c = '\x7b' ∨ c = '(') (text : List Char) : (literal x).put rest ≠ c :: text := by
  intro same
  cases chars : Decimal.Style.plain.chars x with
  | nil =>
    rw [put, chars, List.nil_append] at same
    have first := hrest c (by rw [same]; rfl)
    rcases hc with rfl | rfl <;> rcases first with first | first <;> cases first
  | cons d ds =>
    rw [put, chars, List.cons_append] at same
    obtain rfl := (List.cons.inj same).1
    have plain := Decimal.isPlainChar_chars x d (by rw [chars]; exact List.mem_cons_self)
    rcases hc with rfl | rfl <;> cases plain

theorem symbol_injective : Function.Injective Operator.symbol := by
  intro a b h
  cases a <;> cases b <;> first | rfl | cases h

theorem put_input_inj {name name' : String} {rest rest' : List Char}
    (hname : '\x7d' ∉ name.toList) (hname' : '\x7d' ∉ name'.toList)
    (h : (input name).put rest = (input name').put rest') : name = name' ∧ rest = rest' := by
  have kind {n : String} (hn : '\x7d' ∉ n.toList) :
      ∀ c ∈ n.toList, decide (c ≠ '\x7d') = true := by
    intro c hc
    rw [decide_eq_true_eq]
    rintro rfl
    exact hn hc
  obtain ⟨names, rests⟩ := row_inj (kind hname) (kind hname') (by simp) (by simp)
    (List.cons.inj h).2
  exact ⟨String.toList_inj.mp names, (List.cons.inj rests).2⟩

/-- What begins with the text of an expression tells where that text ends. -/
theorem put_inj {e e' : Expr} {rest rest' : List Char} (he : e.HasOpenNames)
    (he' : e'.HasOpenNames) (hrest : Follows rest) (hrest' : Follows rest')
    (h : e.put rest = e'.put rest') : e = e' ∧ rest = rest' := by
  induction e generalizing e' rest rest' with
  | literal x =>
    cases e' with
    | literal y =>
      obtain ⟨chars, rests⟩ := row_inj (Decimal.isPlainChar_chars x) (Decimal.isPlainChar_chars y)
        hrest.not_plain hrest'.not_plain h
      exact ⟨congrArg literal (Decimal.plain_chars_injective chars), rests⟩
    | input name => exact absurd h (put_literal_ne_cons hrest (.inl rfl) _)
    | binary op left right => exact absurd h (put_literal_ne_cons hrest (.inr rfl) _)
  | input name =>
    cases e' with
    | literal y => exact absurd h.symm (put_literal_ne_cons hrest' (.inl rfl) _)
    | input name' =>
      obtain ⟨rfl, rests⟩ := put_input_inj (he name (by simp [fields]))
        (he' name' (by simp [fields])) h
      exact ⟨rfl, rests⟩
    | binary op left right => cases (List.cons.inj h).1
  | binary op left right ihl ihr =>
    cases e' with
    | literal y => exact absurd h.symm (put_literal_ne_cons hrest' (.inr rfl) _)
    | input name => cases (List.cons.inj h).1
    | binary op' left' right' =>
      obtain ⟨hleft, hright⟩ := hasOpenNames_binary.mp he
      obtain ⟨hleft', hright'⟩ := hasOpenNames_binary.mp he'
      obtain ⟨rfl, behindLeft⟩ := ihl hleft hleft' (follows_space _) (follows_space _)
        (List.cons.inj h).2
      obtain ⟨symbols, behindSymbol⟩ := List.cons.inj (List.cons.inj behindLeft).2
      obtain rfl := symbol_injective symbols
      obtain ⟨rfl, behindRight⟩ := ihr hright hright' (follows_close _) (follows_close _)
        (List.cons.inj behindSymbol).2
      exact ⟨rfl, (List.cons.inj behindRight).2⟩

/-- Expressions with the same text are the same. -/
theorem render_inj {e e' : Expr} (he : e.HasOpenNames) (he' : e'.HasOpenNames) :
    e.render = e'.render ↔ e = e' := by
  refine ⟨fun h => ?_, congrArg render⟩
  exact (put_inj he he' follows_nil follows_nil (String.ofList_inj.mp h)).1

end SymbolicRegression.Expr
