import SymbolicRegression.Json.Document
import SymbolicRegression.Proofs.Json.Quoting
import SymbolicRegression.Proofs.Json.Spelling

/-!
# The grammar of documents

A document is a tree of numerals and quoted texts, and is spelled by the tokens of this tree in
their order, with blanks between them. Lists and objects are walked through item by item: what the
walk takes are the tokens of a list or an object, and it takes them all.
-/
namespace SymbolicRegression.Json

open Reader

/-- A document as it is written. -/
inductive Written where
  | null
  | boolean (b : Bool)
  | numeral (n : WrittenNumber)
  | quoted (t : WrittenText)
  | list (items : List Written)
  | object (members : List (WrittenText × Written))

/-- A text in quotes. -/
def WrittenText.token (t : WrittenText) : List Char := '"' :: (t.chars ++ ['"'])

/-- The text that is written, if it stands for one. -/
def WrittenText.text (t : WrittenText) : Except Fault String :=
  match t.letters with
  | .ok cs => .ok (String.ofList cs)
  | .error fault => .error (.grammar fault)

/-- What stands in front of an item: a comma, unless it is the first one. -/
def separator (first : Bool) : List (List Char) := if first then [] else [[',']]

namespace Written

/-- Every part of a document can be reached. -/
theorem induct {motive : Written → Prop} (null : motive .null)
    (boolean : ∀ b, motive (.boolean b)) (numeral : ∀ n, motive (.numeral n))
    (quoted : ∀ t, motive (.quoted t))
    (list : ∀ items, (∀ w ∈ items, motive w) → motive (.list items))
    (object : ∀ members, (∀ m ∈ members, motive m.2) → motive (.object members)) (w : Written) :
    motive w :=
  @Written.rec motive (fun items => ∀ w ∈ items, motive w)
    (fun members => ∀ m ∈ members, motive m.2) (fun m => motive m.2) null boolean numeral quoted
    list object (fun _ h => by cases h) (fun _ _ hw hws => List.forall_mem_cons.mpr ⟨hw, hws⟩)
    (fun _ h => by cases h) (fun _ _ hm hms => List.forall_mem_cons.mpr ⟨hm, hms⟩)
    (fun _ _ h => h) w

mutual

/-- The tokens of a document. -/
def tokens : Written → List (List Char)
  | null => [['n', 'u', 'l', 'l']]
  | boolean true => [['t', 'r', 'u', 'e']]
  | boolean false => [['f', 'a', 'l', 's', 'e']]
  | numeral n => [n.chars]
  | quoted t => [t.token]
  | list items => ['['] :: itemTokens true items
  | object members => ['\x7b'] :: memberTokens true members

/-- The tokens of items and of the bracket behind them. -/
def itemTokens (first : Bool) : List Written → List (List Char)
  | [] => [[']']]
  | item :: items => separator first ++ (tokens item ++ itemTokens false items)

/-- The tokens of members and of the bracket behind them. -/
def memberTokens (first : Bool) : List (WrittenText × Written) → List (List Char)
  | [] => [['\x7d']]
  | (name, value) :: members =>
    separator first ++ ([name.token, [':']] ++ (tokens value ++ memberTokens false members))

end

mutual

/-- The value that a document holds, if its numbers are in range, its texts stand for something, and
no more than `depth` lists and objects are open inside one another. -/
def value : ℕ → Written → Except Fault Value
  | _, null => .ok .null
  | _, boolean b => .ok (.boolean b)
  | _, numeral n => Value.number <$> n.number
  | _, quoted t => Value.text <$> t.text
  | 0, list _ => .error (.grammar .tooDeep)
  | depth + 1, list items => Value.list <$> values depth items
  | 0, object _ => .error (.grammar .tooDeep)
  | depth + 1, object members => Value.object <$> memberValues depth members

def values (depth : ℕ) : List Written → Except Fault (List Value)
  | [] => .ok []
  | item :: items => do
    let v ← value depth item
    let vs ← values depth items
    pure (v :: vs)

def memberValues (depth : ℕ) : List (WrittenText × Written) → Except Fault (List (String × Value))
  | [] => .ok []
  | (name, item) :: members => do
    let s ← name.text
    let v ← value depth item
    let vs ← memberValues depth members
    pure ((s, v) :: vs)

end

/-- A numeral starts with its sign or a digit. -/
theorem exists_head_numeral (n : WrittenNumber) :
    ∃ c cs, n.chars = c :: cs ∧ (c = '-' ∨ c.isDigit = true) := by
  rcases chars_cases n with ⟨-, shape⟩ | ⟨-, shape, -⟩
  · exact ⟨'-', _, shape, .inl rfl⟩
  · obtain ⟨c, cs, shape', digit⟩ := exists_digit n
    exact ⟨c, cs, shape.trans shape', .inr digit⟩

/-- What a numeral starts with is not a bracket. -/
theorem not_bracket_of_number {c : Char} (h : c = '-' ∨ c.isDigit = true) :
    c ≠ '[' ∧ c ≠ ']' ∧ c ≠ '\x7b' := by
  refine ⟨?_, ?_, ?_⟩ <;>
  · rintro rfl
    revert h
    decide

/-- What a document starts with: no blank, and no closing bracket. -/
theorem exists_head (w : Written) :
    ∃ c cs tokens, w.tokens = (c :: cs) :: tokens ∧ isBlank c = false ∧ c ≠ ']' := by
  cases w with
  | null => exact ⟨'n', _, _, rfl, rfl, by decide⟩
  | boolean b =>
    cases b with
    | true => exact ⟨'t', _, _, rfl, rfl, by decide⟩
    | false => exact ⟨'f', _, _, rfl, rfl, by decide⟩
  | numeral n =>
    obtain ⟨c, cs, shape, first⟩ := exists_head_numeral n
    refine ⟨c, cs, [], by rw [tokens, shape], ?_, (not_bracket_of_number first).2.1⟩
    rw [Bool.eq_false_iff]
    intro blank
    simp only [isBlank, Bool.or_eq_true, decide_eq_true_eq] at blank
    rcases blank with ((rfl | rfl) | rfl) | rfl <;> revert first <;> decide
  | quoted t => exact ⟨'"', _, _, rfl, rfl, by decide⟩
  | list items => exact ⟨'[', _, _, rfl, rfl, by decide⟩
  | object members => exact ⟨'\x7b', _, _, rfl, rfl, by decide⟩

theorem tokens_ne_nil (w : Written) : w.tokens ≠ [] := by
  obtain ⟨c, cs, tokens, shape, -⟩ := exists_head w
  rw [shape]
  exact List.cons_ne_nil _ _

theorem forall_separator (first : Bool) : ∀ token ∈ separator first, token ≠ [] := by
  cases first <;> simp [separator]

theorem forall_itemTokens {items : List Written}
    (h : ∀ w ∈ items, ∀ token ∈ w.tokens, token ≠ []) (first : Bool) :
    ∀ token ∈ itemTokens first items, token ≠ [] := by
  induction items generalizing first with
  | nil => simp [itemTokens]
  | cons item items ih =>
    obtain ⟨head, tail⟩ := List.forall_mem_cons.mp h
    rw [itemTokens]
    exact List.forall_mem_append.mpr ⟨forall_separator first,
      List.forall_mem_append.mpr ⟨head, ih tail false⟩⟩

theorem forall_memberTokens {members : List (WrittenText × Written)}
    (h : ∀ m ∈ members, ∀ token ∈ m.2.tokens, token ≠ []) (first : Bool) :
    ∀ token ∈ memberTokens first members, token ≠ [] := by
  induction members generalizing first with
  | nil => simp [memberTokens]
  | cons member members ih =>
    obtain ⟨name, value⟩ := member
    obtain ⟨head, tail⟩ := List.forall_mem_cons.mp h
    rw [memberTokens]
    exact List.forall_mem_append.mpr ⟨forall_separator first,
      List.forall_mem_append.mpr ⟨by simp [WrittenText.token],
        List.forall_mem_append.mpr ⟨head, ih tail false⟩⟩⟩

/-- No token is empty. -/
theorem forall_tokens (w : Written) : ∀ token ∈ w.tokens, token ≠ [] := by
  induction w using induct with
  | null => simp [tokens]
  | boolean b => cases b <;> simp [tokens]
  | numeral n =>
    obtain ⟨c, cs, shape, -⟩ := exists_head_numeral n
    simp [tokens, shape]
  | quoted t => simp [tokens, WrittenText.token]
  | list items ih =>
    rw [tokens]
    exact List.forall_mem_cons.mpr ⟨List.cons_ne_nil _ _, forall_itemTokens ih true⟩
  | object members ih =>
    rw [tokens]
    exact List.forall_mem_cons.mpr ⟨List.cons_ne_nil _ _, forall_memberTokens ih true⟩

/-- Every item has a token of its own, and the bracket is one more. -/
theorem length_lt_itemTokens (first : Bool) (items : List Written) :
    items.length < (itemTokens first items).length := by
  induction items generalizing first with
  | nil => simp [itemTokens]
  | cons item items ih =>
    have own := List.length_pos_of_ne_nil (tokens_ne_nil item)
    have others := ih false
    simp only [itemTokens, List.length_append, List.length_cons]
    omega

/-- Every member has tokens of its own, and the bracket is one more. -/
theorem length_lt_memberTokens (first : Bool) (members : List (WrittenText × Written)) :
    members.length < (memberTokens first members).length := by
  induction members generalizing first with
  | nil => simp [memberTokens]
  | cons member members ih =>
    have others := ih false
    simp only [memberTokens, List.length_append, List.length_cons]
    omega

theorem length_tokens_lt_items (first : Bool) {items : List Written} {w : Written} (h : w ∈ items) :
    w.tokens.length < (itemTokens first items).length := by
  induction items generalizing first with
  | nil => cases h
  | cons item items ih =>
    have some_ := length_lt_itemTokens false items
    simp only [itemTokens, List.length_append]
    rcases List.mem_cons.mp h with rfl | h
    · omega
    · have others := ih false h
      omega

theorem length_tokens_lt_members (first : Bool) {members : List (WrittenText × Written)}
    {m : WrittenText × Written} (h : m ∈ members) :
    m.2.tokens.length < (memberTokens first members).length := by
  induction members generalizing first with
  | nil => cases h
  | cons member members ih =>
    have some_ := length_lt_memberTokens false members
    simp only [memberTokens, List.length_append]
    rcases List.mem_cons.mp h with rfl | h
    · omega
    · have others := ih false h
      omega

end Written

/-- Whether tokens stand in front of a text, in their order and with blanks before each of them,
and the rest is what is behind them. -/
def Spells : List (List Char) → List Char → List Char → Prop
  | [], s, rest => s = rest
  | token :: tokens, s, rest => ∃ s', s.dropWhile isBlank = token ++ s' ∧ Spells tokens s' rest

theorem spells_append {first second : List (List Char)} {s rest : List Char} :
    Spells (first ++ second) s rest ↔ ∃ mid, Spells first s mid ∧ Spells second mid rest := by
  induction first generalizing s with
  | nil => simp [Spells]
  | cons token first ih =>
    simp only [List.cons_append, Spells, ih]
    constructor
    · rintro ⟨s', shape, mid, before, behind⟩
      exact ⟨mid, ⟨s', shape, before⟩, behind⟩
    · rintro ⟨mid, ⟨s', shape, before⟩, behind⟩
      exact ⟨s', shape, mid, before, behind⟩

theorem spells_cons {token : List Char} {tokens : List (List Char)} {s rest : List Char} :
    Spells (token :: tokens) s rest ↔ ∃ mid, Spells [token] s mid ∧ Spells tokens mid rest :=
  @spells_append [token] tokens s rest

/-- Blanks in front of a token make no difference. -/
theorem spells_dropWhile {tokens : List (List Char)} (h : tokens ≠ []) {s rest : List Char} :
    Spells tokens (s.dropWhile isBlank) rest ↔ Spells tokens s rest := by
  obtain ⟨token, tokens, rfl⟩ := List.exists_cons_of_ne_nil h
  simp only [Spells, List.dropWhile_idempotent]

/-- What is behind the blanks in front of the first token. -/
theorem dropWhile_of_spells {c : Char} {cs : List Char} {tokens : List (List Char)}
    {s rest : List Char} (h : Spells ((c :: cs) :: tokens) s rest) :
    ∃ s', s.dropWhile isBlank = c :: s' := by
  obtain ⟨s', shape, -⟩ := h
  exact ⟨cs ++ s', shape⟩

/-- Every token takes a character of the text. -/
theorem length_le_of_spells {tokens : List (List Char)} (h : ∀ token ∈ tokens, token ≠ [])
    {s rest : List Char} (spelled : Spells tokens s rest) :
    tokens.length + rest.length ≤ s.length := by
  induction tokens generalizing s with
  | nil =>
    obtain rfl : s = rest := spelled
    simp
  | cons token tokens ih =>
    obtain ⟨head, tail⟩ := List.forall_mem_cons.mp h
    obtain ⟨s', shape, behind⟩ := spelled
    have shorter : (s.dropWhile isBlank).length ≤ s.length := List.length_dropWhile_le _ _
    have own := List.length_pos_of_ne_nil head
    have others := ih tail behind
    rw [shape, List.length_append] at shorter
    simp only [List.length_cons]
    omega

end SymbolicRegression.Json
