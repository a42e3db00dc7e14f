import SymbolicRegression.Proofs.Json.Trees

/-!
# Skipped values

What is skipped is a document of the grammar, and every document can be skipped: no matter how
deep it is, and whether or not its numbers are in range and its texts stand for something.
-/
namespace SymbolicRegression.Json.Reader

open Written

variable {s s' mid rest : List Char} {first : Bool}

section Taking

theorem moreSkippedItems_eq_ok {more : Bool} (h : moreSkippedItems first s = .ok (more, s')) :
    (more = false ∧ ∃ rest, s' = ']' :: rest ∧ Spells [[']']] s rest) ∨
      more = true ∧ ∃ mid, Spells (separator first) s mid ∧
        s'.dropWhile isBlank = mid.dropWhile isBlank := by
  unfold moreSkippedItems at h
  rw [bind_of_ok (peek_eq s)] at h
  cases shape : s.dropWhile isBlank with
  | nil =>
    rw [shape] at h
    cases h
  | cons c r =>
    simp only [shape, List.head?_cons] at h
    split_ifs at h with close start comma
    · cases h
      exact .inl ⟨rfl, r, by rw [close], r, by rw [shape, close]; rfl, rfl⟩
    · cases h
      refine .inr ⟨rfl, s, by rw [start]; rfl, ?_⟩
      rw [← shape, List.dropWhile_idempotent]
    · cases h
      rw [Bool.eq_false_iff.mpr start]
      exact .inr ⟨rfl, r, ⟨r, by rw [shape, comma]; rfl, rfl⟩, rfl⟩
    · cases h

/-- Another member of a skipped object follows only where one of an object that is read does. -/
theorem moreMembers_of_skipped {more : Bool}
    (h : moreSkippedMembers first s = .ok (more, s')) : moreMembers first s = .ok (more, s') := by
  unfold moreSkippedMembers at h
  unfold moreMembers
  rw [bind_of_ok (peek_eq s)] at h ⊢
  cases shape : s.dropWhile isBlank with
  | nil =>
    rw [shape] at h
    cases h
  | cons c r =>
    simp only [shape, List.head?_cons] at h ⊢
    split_ifs at h ⊢ with close start quote comma
    · exact h
    · exact h
    · cases h
    · -- behind a comma the two differ, but only in what they call the fault
      rw [bind_of_ok (advance_run c r), bind_of_ok (peek_eq r)] at h ⊢
      cases behind : r.dropWhile isBlank with
      | nil =>
        rw [behind] at h
        cases h
      | cons d r' =>
        rw [behind] at h
        by_cases quote : d = '"'
        · subst quote
          exact h
        · have refused : (fail .keyNotText : Reader Bool) (d :: r') = .ok (more, s') := by
            rw [← h]
            apply congrFun
            split
            next same => exact absurd (Option.some.inj same) quote
            next => rfl
            next none_ => cases none_
          cases refused
    · cases h

theorem skipText_eq_ok (h : skipText ('"' :: s) = .ok ((), rest)) :
    ∃ t : WrittenText, '"' :: s = t.token ++ rest := by
  unfold skipText at h
  rw [List.tail_cons] at h
  cases skipped : skipQuoted s with
  | error fault =>
    rw [skipped] at h
    cases h
  | ok rest' =>
    rw [skipped] at h
    cases h
    obtain ⟨t, rfl⟩ := exists_of_skipQuoted skipped
    exact ⟨t, by simp [WrittenText.token]⟩

theorem skipScalar_eq_ok {c : Char} {r : List Char}
    (h : skipScalar c (c :: r) = .ok ((), rest)) :
    ∃ (w : Written) (token : List Char), w.tokens = [token] ∧ c :: r = token ++ rest := by
  unfold skipScalar at h
  split_ifs at h with null true_ false_ quote digit
  · exact ⟨.null, _, rfl, word_eq_ok h⟩
  · exact ⟨.boolean true, _, rfl, word_eq_ok h⟩
  · exact ⟨.boolean false, _, rfl, word_eq_ok h⟩
  · subst quote
    obtain ⟨t, shape⟩ := skipText_eq_ok h
    exact ⟨.quoted t, _, rfl, shape⟩
  · obtain ⟨t, shape⟩ := skipNumber_eq_ok h
    exact ⟨.numeral t, _, rfl, shape⟩
  · cases h

section Walking

variable {item : Reader Unit}
  (reads : ∀ s rest, item s = .ok ((), rest) → ∃ w : Written, Spells w.tokens s rest)

include reads

theorem skipItems_eq_ok {fuel : ℕ} (h : skipItems item fuel first s = .ok ((), rest)) :
    ∃ ws, Spells (itemTokens first ws) s rest := by
  induction fuel generalizing first s with
  | zero => cases h
  | succ fuel ih =>
    unfold skipItems at h
    obtain ⟨more, front, announced, h⟩ := exists_of_bind h
    rcases moreSkippedItems_eq_ok announced with ⟨rfl, rest', rfl, close⟩ | ⟨rfl, mid, comma, same⟩
    · cases h
      exact ⟨[], close⟩
    · obtain ⟨u, s₁, taken, h⟩ := exists_of_bind h
      obtain ⟨w, spelled⟩ := reads _ _ taken
      obtain ⟨ws, others⟩ := ih h
      refine ⟨w :: ws, ?_⟩
      rw [itemTokens]
      refine spells_behind (by simp [tokens_ne_nil]) comma ?_
      rw [← same, spells_dropWhile (by simp [tokens_ne_nil])]
      exact spells_append.mpr ⟨s₁, spelled, others⟩

theorem skipMembers_eq_ok {fuel : ℕ} (h : skipMembers item fuel first s = .ok ((), rest)) :
    ∃ ms, Spells (memberTokens first ms) s rest := by
  induction fuel generalizing first s with
  | zero => cases h
  | succ fuel ih =>
    unfold skipMembers at h
    obtain ⟨more, front, announced, h⟩ := exists_of_bind h
    rcases moreMembers_eq_ok (moreMembers_of_skipped announced) with
      ⟨rfl, rest', rfl, close⟩ | ⟨rfl, mid, r, comma, shape, rfl⟩
    · cases h
      exact ⟨[], close⟩
    · obtain ⟨u₁, s₁, named, h⟩ := exists_of_bind h
      obtain ⟨u₂, s₂, mark, h⟩ := exists_of_bind h
      obtain ⟨u₃, s₃, taken, h⟩ := exists_of_bind h
      obtain ⟨t, token⟩ := skipText_eq_ok named
      obtain ⟨w, spelled⟩ := reads _ _ taken
      obtain ⟨ms, others⟩ := ih h
      refine ⟨(t, w) :: ms, ?_⟩
      rw [memberTokens]
      refine spells_append.mpr ⟨mid, comma, s₁, shape.trans token, ?_⟩
      change Spells ([':'] :: (w.tokens ++ memberTokens false ms)) s₁ rest
      refine spells_cons.mpr ⟨s₂, colon_eq_ok mark, ?_⟩
      exact spells_append.mpr ⟨s₃, spelled, others⟩

end Walking

section Fronts

variable {blanks : List Char} (hb : Blank blanks) (steps depth : ℕ)

theorem skipWithin_of_end (h : s.dropWhile isBlank = []) :
    skipWithin steps depth s = .error (.grammar .endOfValue) := by
  rw [skipWithin.eq_def, bind_of_ok (peek_eq s), h]
  rfl

include hb

theorem skipWithin_of_scalar {c : Char} (hc : isBlank c = false) (list : c ≠ '[')
    (object : c ≠ '\x7b') (rest : List Char) :
    skipWithin steps depth (blanks ++ c :: rest) = skipScalar c (c :: rest) := by
  rw [skipWithin.eq_def]
  refine (bind_of_ok (peek_of_blank hb hc rest)).trans ?_
  apply congrFun
  split
  next none_ => cases none_
  next same => exact absurd (Option.some.inj same) list
  next same => exact absurd (Option.some.inj same) object
  next same =>
    cases same
    rfl

theorem skipWithin_zero {c : Char} (hc : c = '[' ∨ c = '\x7b') (rest : List Char) :
    skipWithin steps 0 (blanks ++ c :: rest) = .error (.grammar .tooDeep) := by
  rw [skipWithin]
  rcases hc with rfl | rfl <;>
  · refine (bind_of_ok (peek_of_blank hb (by decide) rest)).trans ?_
    rfl

theorem skipWithin_of_list (rest : List Char) :
    skipWithin steps (depth + 1) (blanks ++ '[' :: rest)
      = skipItems (skipWithin steps depth) steps true rest := by
  rw [skipWithin]
  refine (bind_of_ok (peek_of_blank hb (by decide) rest)).trans ?_
  exact bind_of_ok (advance_run '[' rest)

theorem skipWithin_of_object (rest : List Char) :
    skipWithin steps (depth + 1) (blanks ++ '\x7b' :: rest)
      = skipMembers (skipWithin steps depth) steps true rest := by
  rw [skipWithin]
  refine (bind_of_ok (peek_of_blank hb (by decide) rest)).trans ?_
  exact bind_of_ok (advance_run '\x7b' rest)

end Fronts

/-- What is skipped is a document. -/
theorem skipWithin_eq_ok {steps depth : ℕ} (h : skipWithin steps depth s = .ok ((), rest)) :
    ∃ w : Written, Spells w.tokens s rest := by
  induction depth using Nat.strong_induction_on generalizing s rest with
  | h depth ih =>
    cases shape : s.dropWhile isBlank with
    | nil =>
      rw [skipWithin_of_end steps depth shape] at h
      cases h
    | cons c r =>
      obtain ⟨blanks, hb, hc, rfl⟩ := exists_blanks shape
      by_cases bracket : c = '[' ∨ c = '\x7b'
      · cases depth with
        | zero =>
          rw [skipWithin_zero hb steps bracket] at h
          cases h
        | succ depth =>
          have inner := fun s rest => @ih depth (Nat.lt_succ_self depth) s rest
          rcases bracket with rfl | rfl
          · rw [skipWithin_of_list hb] at h
            obtain ⟨ws, spelled⟩ := skipItems_eq_ok inner h
            exact ⟨.list ws, r, shape, spelled⟩
          · rw [skipWithin_of_object hb] at h
            obtain ⟨ms, spelled⟩ := skipMembers_eq_ok inner h
            exact ⟨.object ms, r, shape, spelled⟩
      · obtain ⟨list, object⟩ := not_or.mp bracket
        rw [skipWithin_of_scalar hb steps depth hc list object] at h
        obtain ⟨w, token, alone, front⟩ := skipScalar_eq_ok h
        refine ⟨w, ?_⟩
        rw [alone]
        exact ⟨rest, shape.trans front, rfl⟩

theorem skip_eq_ok (h : skip s = .ok ((), rest)) : ∃ w : Written, Spells w.tokens s rest := by
  unfold skip at h
  rw [get_bind] at h
  exact skipWithin_eq_ok h

end Taking

section Going

theorem moreSkippedItems_of_spells (comma : Spells (separator first) s mid) {c : Char}
    {r : List Char} (shape : mid.dropWhile isBlank = c :: r) (open_ : c ≠ ']') :
    ∃ s', moreSkippedItems first s = .ok (true, s') ∧ s'.dropWhile isBlank = c :: r := by
  cases first with
  | true =>
    obtain rfl : s = mid := comma
    refine ⟨c :: r, ?_, by rw [← shape, List.dropWhile_idempotent]⟩
    unfold moreSkippedItems
    rw [bind_of_ok (peek_eq s), shape]
    simp only [List.head?_cons, open_, if_false, if_true]
    rfl
  | false =>
    obtain ⟨s', shape', rfl⟩ := comma
    refine ⟨s', ?_, shape⟩
    unfold moreSkippedItems
    rw [bind_of_ok (peek_eq s), shape']
    rfl

theorem moreSkippedItems_of_close (h : Spells [[']']] s rest) (first : Bool) :
    moreSkippedItems first s = .ok (false, ']' :: rest) := by
  obtain ⟨s', shape, rfl⟩ := h
  unfold moreSkippedItems
  rw [bind_of_ok (peek_eq s), shape]
  rfl

theorem moreSkippedMembers_of_spells (comma : Spells (separator first) s mid) {r : List Char}
    (shape : mid.dropWhile isBlank = '"' :: r) :
    moreSkippedMembers first s = .ok (true, '"' :: r) := by
  unfold moreSkippedMembers
  cases first with
  | true =>
    obtain rfl : s = mid := comma
    rw [bind_of_ok (peek_eq s), shape]
    rfl
  | false =>
    obtain ⟨s', shape', rfl⟩ := comma
    rw [bind_of_ok (peek_eq s), shape']
    refine (bind_of_ok (advance_run ',' s')).trans ?_
    rw [bind_of_ok (peek_eq s'), shape]
    rfl

theorem moreSkippedMembers_of_close (h : Spells [['\x7d']] s rest) (first : Bool) :
    moreSkippedMembers first s = .ok (false, '\x7d' :: rest) := by
  obtain ⟨s', shape, rfl⟩ := h
  unfold moreSkippedMembers
  rw [bind_of_ok (peek_eq s), shape]
  rfl

theorem skipText_spelled (t : WrittenText) (rest : List Char) :
    skipText (t.token ++ rest) = .ok ((), rest) := by
  have shape : (t.token ++ rest).tail = t.chars ++ '"' :: rest := by simp [WrittenText.token]
  unfold skipText
  rw [shape, skipQuoted_spelled]

theorem skipItems_spelled {item : Reader Unit} {ws : List Written}
    (goes : ∀ w ∈ ws, ∀ s mid, Spells w.tokens s mid → Delimited mid → item s = .ok ((), mid))
    (h : Spells (itemTokens first ws) s rest) {fuel : ℕ} (enough : ws.length < fuel) :
    skipItems item fuel first s = .ok ((), rest) := by
  induction ws generalizing first s fuel with
  | nil =>
    obtain ⟨fuel, rfl⟩ : ∃ n, fuel = n + 1 := Nat.exists_eq_succ_of_ne_zero enough.ne'
    exact bind_of_ok (moreSkippedItems_of_close h first)
  | cons w ws ih =>
    obtain ⟨fuel, rfl⟩ : ∃ n, fuel = n + 1 := ⟨fuel - 1, by omega⟩
    obtain ⟨front, others⟩ := List.forall_mem_cons.mp goes
    obtain ⟨mid, behind, c, r, comma, shape, open_, own, delimited, h⟩ :=
      exists_of_itemTokens_cons h
    obtain ⟨s', more, same⟩ := moreSkippedItems_of_spells comma shape open_
    rw [← same, spells_dropWhile w.tokens_ne_nil] at own
    unfold skipItems
    refine (bind_of_ok more).trans ?_
    refine (bind_of_ok (front _ _ own delimited)).trans ?_
    exact ih others h (Nat.lt_of_succ_lt_succ enough)

theorem skipMembers_spelled {item : Reader Unit} {ms : List (WrittenText × Written)}
    (goes : ∀ m ∈ ms, ∀ s mid, Spells m.2.tokens s mid → Delimited mid → item s = .ok ((), mid))
    (h : Spells (memberTokens first ms) s rest) {fuel : ℕ} (enough : ms.length < fuel) :
    skipMembers item fuel first s = .ok ((), rest) := by
  induction ms generalizing first s fuel with
  | nil =>
    obtain ⟨fuel, rfl⟩ : ∃ n, fuel = n + 1 := Nat.exists_eq_succ_of_ne_zero enough.ne'
    exact bind_of_ok (moreSkippedMembers_of_close h first)
  | cons m ms ih =>
    obtain ⟨fuel, rfl⟩ : ∃ n, fuel = n + 1 := ⟨fuel - 1, by omega⟩
    obtain ⟨t, w⟩ := m
    obtain ⟨front, others⟩ := List.forall_mem_cons.mp goes
    obtain ⟨mid, r, behind, comma, shape, own, delimited, h⟩ := exists_of_memberTokens_cons h
    obtain ⟨s₁, mark, own⟩ := spells_cons.mp own
    unfold skipMembers
    refine (bind_of_ok (moreSkippedMembers_of_spells comma shape)).trans ?_
    refine (bind_of_ok (skipText_spelled t r)).trans ?_
    refine (bind_of_ok (colon_of_spells mark)).trans ?_
    refine (bind_of_ok (front _ _ own delimited)).trans ?_
    exact ih others h (Nat.lt_of_succ_lt_succ enough)

theorem skipWithin_of_token {c : Char} {cs : List Char} (h : Spells [c :: cs] s rest)
    (list : c ≠ '[') (object : c ≠ '\x7b') (steps depth : ℕ) :
    skipWithin steps depth s = skipScalar c (c :: (cs ++ rest)) := by
  obtain ⟨s', shape, rfl⟩ := h
  obtain ⟨blanks, hb, hc, rfl⟩ := exists_blanks shape
  exact skipWithin_of_scalar hb steps depth hc list object (cs ++ s')

theorem skipScalar_of_number {c : Char} (h : c = '-' ∨ c.isDigit = true) :
    skipScalar c = skipNumber := by
  unfold skipScalar
  rw [if_neg, if_neg, if_neg, if_neg, if_pos h]
  all_goals
    rintro rfl
    revert h
    decide

/-- A document can be skipped with as many steps and as much depth as it has tokens. -/
theorem skipWithin_spelled (w : Written) (h : Spells w.tokens s rest) (delimited : Delimited rest)
    {steps depth : ℕ} (enough : w.tokens.length ≤ steps) (deep : w.tokens.length ≤ depth) :
    skipWithin steps depth s = .ok ((), rest) := by
  induction w using Written.induct generalizing s rest depth with
  | null =>
    rw [skipWithin_of_token h (by decide) (by decide)]
    exact word_append ['n', 'u', 'l', 'l'] rest
  | boolean b =>
    cases b with
    | true =>
      rw [skipWithin_of_token h (by decide) (by decide)]
      exact word_append ['t', 'r', 'u', 'e'] rest
    | false =>
      rw [skipWithin_of_token h (by decide) (by decide)]
      exact word_append ['f', 'a', 'l', 's', 'e'] rest
  | numeral n =>
    obtain ⟨c, cs, shape, first⟩ := exists_head_numeral n
    have skipped := skipNumber_spelled n delimited
    rw [Written.tokens, shape] at h
    rw [shape, List.cons_append] at skipped
    obtain ⟨list, -, object⟩ := not_bracket_of_number first
    rw [skipWithin_of_token h list object, skipScalar_of_number first, skipped]
  | quoted t =>
    rw [skipWithin_of_token h (by decide) (by decide)]
    have skipped := skipText_spelled t rest
    rwa [WrittenText.token, List.cons_append] at skipped
  | list items ih =>
    obtain ⟨s', shape, h⟩ := h
    obtain ⟨blanks, hb, -, rfl⟩ := exists_blanks shape
    rw [tokens, List.length_cons] at enough deep
    obtain ⟨depth, rfl⟩ : ∃ n, depth = n + 1 := ⟨depth - 1, by omega⟩
    have fewer := length_lt_itemTokens true items
    rw [skipWithin_of_list hb]
    refine skipItems_spelled ?_ h (by omega)
    intro w hw s mid own delimited
    have shorter := length_tokens_lt_items true hw
    exact ih w hw own delimited (by omega) (by omega)
  | object members ih =>
    obtain ⟨s', shape, h⟩ := h
    obtain ⟨blanks, hb, -, rfl⟩ := exists_blanks shape
    rw [tokens, List.length_cons] at enough deep
    obtain ⟨depth, rfl⟩ : ∃ n, depth = n + 1 := ⟨depth - 1, by omega⟩
    have fewer := length_lt_memberTokens true members
    rw [skipWithin_of_object hb]
    refine skipMembers_spelled ?_ h (by omega)
    intro m hm s mid own delimited
    have shorter := length_tokens_lt_members true hm
    exact ih m hm own delimited (by omega) (by omega)

/-- Every document can be skipped. -/
theorem skip_spelled (w : Written) (h : Spells w.tokens s rest) (delimited : Delimited rest) :
    skip s = .ok ((), rest) := by
  have length := length_le_of_spells w.forall_tokens h
  unfold skip
  rw [get_bind]
  exact skipWithin_spelled w h delimited (by omega) (by omega)

end Going

end SymbolicRegression.Json.Reader
