import SymbolicRegression.Proofs.Json.Walking

/-!
# Values as trees

What is read as a value is a document of the grammar, and the value is the one that its tree holds.
Conversely every document is read as what its tree holds, or refused for what its tree does not
hold: a number out of range, a text that stands for none, or too many brackets inside one another.
-/
namespace SymbolicRegression.Json

open Reader Written

/-- What a list in memory gathers of its items. -/
def valueStep (depth : ℕ) (acc : List Value) (w : Written) : Except Fault (List Value) :=
  (· :: acc) <$> w.value depth

/-- What an object in memory gathers of its members. -/
def memberStep (depth : ℕ) (acc : List (String × Value)) (name : String) (w : Written) :
    Except Fault (List (String × Value)) :=
  (fun v => (name, v) :: acc) <$> w.value depth

theorem foldlM_valueStep (depth : ℕ) (ws : List Written) (acc : List Value) :
    ws.foldlM (valueStep depth) acc = (fun vs => vs.reverse ++ acc) <$> values depth ws := by
  induction ws generalizing acc with
  | nil => rfl
  | cons w ws ih =>
    rw [List.foldlM_cons, valueStep, values]
    cases w.value depth with
    | error fault => rfl
    | ok v =>
      refine (ih (v :: acc)).trans ?_
      cases values depth ws with
      | error fault => rfl
      | ok vs =>
        change Except.ok (vs.reverse ++ v :: acc) = Except.ok ((v :: vs).reverse ++ acc)
        simp

theorem foldlM_memberStep (depth : ℕ) (ms : List (WrittenText × Written))
    (acc : List (String × Value)) :
    ms.foldlM (namedStep (memberStep depth)) acc =
      (fun vs => vs.reverse ++ acc) <$> memberValues depth ms := by
  induction ms generalizing acc with
  | nil => rfl
  | cons m ms ih =>
    obtain ⟨t, w⟩ := m
    rw [List.foldlM_cons, namedStep, memberValues]
    cases t.text with
    | error fault => rfl
    | ok name =>
      change memberStep depth acc name w >>= _ = _
      rw [memberStep]
      cases w.value depth with
      | error fault => rfl
      | ok v =>
        refine (ih ((name, v) :: acc)).trans ?_
        cases memberValues depth ms with
        | error fault => rfl
        | ok vs =>
          change Except.ok (vs.reverse ++ (name, v) :: acc) =
            Except.ok (((name, v) :: vs).reverse ++ acc)
          simp

theorem gatheredList_foldlM (depth : ℕ) (ws : List Written) :
    gatheredList <$> ws.foldlM (valueStep depth) [] = (Written.list ws).value (depth + 1) := by
  rw [foldlM_valueStep, Written.value]
  cases values depth ws with
  | error fault => rfl
  | ok vs =>
    change Except.ok (gatheredList (vs.reverse ++ [])) = Except.ok (Value.list vs)
    rw [gatheredList, List.append_nil, List.reverse_reverse]

theorem gatheredObject_foldlM (depth : ℕ) (ms : List (WrittenText × Written)) :
    (ms.foldlM (namedStep (memberStep depth)) [] >>= fun gathered =>
      .ok (gatheredObject gathered)) = (Written.object ms).value (depth + 1) := by
  rw [foldlM_memberStep, Written.value]
  cases memberValues depth ms with
  | error fault => rfl
  | ok vs =>
    change Except.ok (gatheredObject (vs.reverse ++ [])) = Except.ok (Value.object vs)
    rw [gatheredObject, List.append_nil, List.reverse_reverse]

namespace Reader

variable {s rest : List Char}

theorem word_eq_ok {cs : List Char} (h : word cs s = .ok ((), rest)) : s = cs ++ rest := by
  induction cs generalizing s with
  | nil =>
    cases h
    rfl
  | cons c cs ih =>
    cases s with
    | nil => cases h
    | cons d s =>
      change (if d = c then (do set s; word cs : Reader Unit) else fail .expectedWord) (d :: s) = _
        at h
      split_ifs at h with same
      · rw [same, ih h]
        rfl
      · cases h

/-- A scalar is a document of one token, whatever the depth. -/
theorem scalar_eq_ok {c : Char} {r : List Char} {v : Value}
    (h : scalar c (c :: r) = .ok (v, rest)) :
    ∃ (w : Written) (token : List Char), w.tokens = [token] ∧ c :: r = token ++ rest ∧
      ∀ depth, w.value depth = .ok v := by
  unfold scalar at h
  split_ifs at h with null true_ false_ quote digit
  · obtain ⟨u, s, taken, h⟩ := exists_of_bind h
    cases h
    exact ⟨.null, _, rfl, word_eq_ok taken, fun _ => rfl⟩
  · obtain ⟨u, s, taken, h⟩ := exists_of_bind h
    cases h
    exact ⟨.boolean true, _, rfl, word_eq_ok taken, fun _ => rfl⟩
  · obtain ⟨u, s, taken, h⟩ := exists_of_bind h
    cases h
    exact ⟨.boolean false, _, rfl, word_eq_ok taken, fun _ => rfl⟩
  · subst quote
    obtain ⟨name, s, taken, h⟩ := exists_of_bind h
    cases h
    obtain ⟨t, shape, text⟩ := quotedText_eq_ok taken
    refine ⟨.quoted t, _, rfl, shape, fun depth => ?_⟩
    rw [Written.value, text]
    rfl
  · obtain ⟨n, s, taken, h⟩ := exists_of_bind h
    cases h
    obtain ⟨t, shape, number⟩ := number_eq_ok taken
    refine ⟨.numeral t, _, rfl, shape, fun depth => ?_⟩
    rw [Written.value, number]
    rfl
  · cases h

section Gathering

variable {depth : ℕ} (inner : Reads [] (Reader.value depth) (Written.value depth))

include inner

theorem reads_gatherItem (acc : List Value) :
    Reads [] (gatherItem depth acc) (valueStep depth acc) := by
  intro s acc' rest h
  obtain ⟨v, s', read, h⟩ := exists_of_bind h
  cases h
  obtain ⟨w, spelled, holds⟩ := inner _ _ _ read
  exact ⟨w, spelled, by rw [valueStep, holds]; rfl⟩

theorem reads_gatherMember (acc : List (String × Value)) (name : String) :
    Reads [[':']] (gatherMember depth acc name) (memberStep depth acc name) := by
  intro s acc' rest h
  obtain ⟨u, s₁, mark, h⟩ := exists_of_bind h
  obtain ⟨v, s₂, read, h⟩ := exists_of_bind h
  cases h
  obtain ⟨w, spelled, holds⟩ := inner _ _ _ read
  exact ⟨w, spells_cons.mpr ⟨s₁, colon_eq_ok mark, spelled⟩, by rw [memberStep, holds]; rfl⟩

end Gathering

theorem value_of_end (depth : ℕ) (h : s.dropWhile isBlank = []) :
    Reader.value depth s = .error (.grammar .endOfValue) := by
  rw [value.eq_def, bind_of_ok (peek_eq s), h]
  rfl

/-- What is read as a value is a document whose tree holds that value. -/
theorem reads_value (depth : ℕ) : Reads [] (Reader.value depth) (Written.value depth) := by
  induction depth using Nat.strong_induction_on with
  | h depth ih =>
    intro s v rest h
    cases shape : s.dropWhile isBlank with
    | nil =>
      rw [value_of_end depth shape] at h
      cases h
    | cons c r =>
      obtain ⟨blanks, hb, hc, rfl⟩ := exists_blanks shape
      by_cases bracket : c = '[' ∨ c = '\x7b'
      · cases depth with
        | zero =>
          rw [value_zero hb bracket] at h
          cases h
        | succ depth =>
          have inner := ih depth (Nat.lt_succ_self depth)
          rcases bracket with rfl | rfl
          · rw [value_of_list hb] at h
            obtain ⟨gathered, s₁, taken, h⟩ := exists_of_bind h
            cases h
            obtain ⟨ws, spelled, made⟩ := items_eq_ok (reads_gatherItem inner) taken
            refine ⟨.list ws, ⟨r, shape, spelled⟩, ?_⟩
            rw [← gatheredList_foldlM, made]
            rfl
          · rw [value_of_object hb] at h
            obtain ⟨ms, spelled, made⟩ := members_eq_ok (reads_gatherMember inner) h
            exact ⟨.object ms, ⟨r, shape, spelled⟩,
              (gatheredObject_foldlM depth ms).symm.trans made⟩
      · obtain ⟨list, object⟩ := not_or.mp bracket
        rw [value_of_scalar hb hc list object] at h
        obtain ⟨w, token, alone, front, holds⟩ := scalar_eq_ok h
        refine ⟨w, ?_, holds depth⟩
        rw [alone]
        exact ⟨rest, shape.trans front, rfl⟩

/-- What is made of a result behind a reader. -/
theorem bind_pure_of_eq {α β : Type} {m : Reader α} {expected : Except Fault α} (g : α → β)
    (h : m s = (fun a => (a, rest)) <$> expected) :
    (m >>= fun a => pure (g a)) s = (fun b => (b, rest)) <$> (g <$> expected) := by
  cases expected with
  | ok a => exact bind_of_ok h
  | error fault => exact bind_of_error h

theorem value_of_token {c : Char} {cs : List Char} (h : Spells [c :: cs] s rest)
    (list : c ≠ '[') (object : c ≠ '\x7b') (depth : ℕ) :
    Reader.value depth s = scalar c (c :: (cs ++ rest)) := by
  obtain ⟨s', shape, rfl⟩ := h
  obtain ⟨blanks, hb, hc, rfl⟩ := exists_blanks shape
  exact value_of_scalar hb hc list object depth (cs ++ s')

/-- A document is read as what its tree holds. -/
theorem value_spelled (w : Written) (h : Spells w.tokens s rest) (delimited : Delimited rest)
    (depth : ℕ) : Reader.value depth s = (fun v => (v, rest)) <$> w.value depth := by
  induction w using Written.induct generalizing s rest depth with
  | null =>
    rw [value_of_token h (by decide) (by decide)]
    exact bind_of_ok (word_append ['n', 'u', 'l', 'l'] rest)
  | boolean b =>
    cases b with
    | true =>
      rw [value_of_token h (by decide) (by decide)]
      exact bind_of_ok (word_append ['t', 'r', 'u', 'e'] rest)
    | false =>
      rw [value_of_token h (by decide) (by decide)]
      exact bind_of_ok (word_append ['f', 'a', 'l', 's', 'e'] rest)
  | numeral n =>
    obtain ⟨c, cs, shape, first⟩ := exists_head_numeral n
    have read := number_spelled n delimited
    rw [Written.tokens, shape] at h
    rw [shape, List.cons_append] at read
    obtain ⟨list, -, object⟩ := not_bracket_of_number first
    rw [value_of_token h list object, Value.scalar_of_number first, Written.value]
    exact bind_pure_of_eq Value.number read
  | quoted t =>
    rw [value_of_token h (by decide) (by decide), Written.value]
    have read := quotedText_spelled t rest
    rw [WrittenText.token, List.cons_append] at read
    exact bind_pure_of_eq Value.text read
  | list items ih =>
    obtain ⟨s', shape, h⟩ := h
    obtain ⟨blanks, hb, -, rfl⟩ := exists_blanks shape
    cases depth with
    | zero => exact value_zero hb (.inl rfl) s'
    | succ depth =>
      rw [value_of_list hb, ← gatheredList_foldlM]
      refine bind_pure_of_eq gatheredList (yields_iff.mp (items_spelled ?_ h []))
      intro w hw acc s mid own delimited
      exact yields_iff.mpr (bind_pure_of_eq (· :: acc) (ih w hw own delimited depth))
  | object members ih =>
    obtain ⟨s', shape, h⟩ := h
    obtain ⟨blanks, hb, -, rfl⟩ := exists_blanks shape
    cases depth with
    | zero => exact value_zero hb (.inr rfl) s'
    | succ depth =>
      rw [value_of_object hb, ← gatheredObject_foldlM]
      refine yields_iff.mp (members_spelled ?_ h [])
      intro m hm acc name s mid own delimited
      obtain ⟨s₁, mark, own⟩ := spells_cons.mp own
      refine yields_iff.mpr ((bind_of_ok (colon_of_spells mark)).trans ?_)
      exact bind_pure_of_eq (fun v => (name, v) :: acc) (ih m hm own delimited depth)

end Reader

/-- Whether a text is the document with the given tree, with nothing but blanks around it. -/
def Written.IsSpelled (w : Written) (text : String) : Prop :=
  ∃ rest, Spells w.tokens text.toList rest ∧ Blank rest

theorem delimited_of_blank {s : List Char} (h : Blank s) : Delimited s := by
  rw [← List.append_nil s]
  exact delimited_nil.append_blank h

theorem dropWhile_eq_nil_iff {s : List Char} : s.dropWhile isBlank = [] ↔ Blank s := by
  rw [List.dropWhile_eq_nil_iff]
  rfl

section Whole

variable {α : Type} {reader : Reader α} {text : String} {a : α} {rest : List Char}

/-- A whole text is read if nothing but blanks is left of it. -/
theorem run_eq_ok (h : reader.run text = .ok a) :
    ∃ rest, reader text.toList = .ok (a, rest) ∧ Blank rest := by
  unfold Reader.run at h
  obtain ⟨⟨b, rest⟩, read, h⟩ := ok_of_bind h
  obtain ⟨⟨u, s⟩, ended, h⟩ := ok_of_bind h
  cases h
  refine ⟨rest, read, dropWhile_eq_nil_iff.mp ?_⟩
  unfold finish at ended
  rw [bind_of_ok (peek_eq rest)] at ended
  cases shape : rest.dropWhile isBlank with
  | nil => rfl
  | cons c r =>
    rw [shape] at ended
    cases ended

theorem run_of_ok (h : reader text.toList = .ok (a, rest)) (blank : Blank rest) :
    reader.run text = .ok a := by
  have ended : finish rest = .ok ((), []) := by
    unfold finish
    rw [bind_of_ok (peek_eq rest), dropWhile_eq_nil_iff.mpr blank]
    rfl
  unfold Reader.run
  rw [h]
  change (finish rest >>= fun _ => pure a) = _
  rw [ended]
  rfl

theorem run_of_error {fault : Fault} (h : reader text.toList = .error fault) :
    reader.run text = .error fault := by
  unfold Reader.run
  rw [h]
  rfl

/-- A result that is checked behind the whole text. -/
theorem run_bind_of_ok {β : Type} {check : α → Except Fault β} (h : reader.run text = .ok a) :
    (reader >>= fun a => (check a : Except Fault β)).run text = check a := by
  obtain ⟨rest, read, blank⟩ := run_eq_ok h
  cases checked : check a with
  | ok b =>
    refine run_of_ok ((bind_of_ok read).trans ?_) blank
    rw [checked]
    rfl
  | error fault =>
    refine run_of_error ((bind_of_ok read).trans ?_)
    rw [checked]
    rfl

theorem exists_of_run_bind {β : Type} {check : α → Except Fault β} {b : β}
    (h : (reader >>= fun a => (check a : Except Fault β)).run text = .ok b) :
    ∃ a, reader.run text = .ok a ∧ check a = .ok b := by
  obtain ⟨rest, read, blank⟩ := run_eq_ok h
  obtain ⟨a, s, first, lifted⟩ := exists_of_bind read
  obtain ⟨checked, rfl⟩ := lift_eq_ok lifted
  exact ⟨a, run_of_ok first blank, checked⟩

/-- A text that was read is refused only for what is left of it. -/
theorem run_eq_error {fault : Fault} (h : reader.run text = .error fault) :
    reader text.toList = .error fault ∨ fault = .grammar .trailingCharacters := by
  unfold Reader.run at h
  rcases error_of_bind h with failed | ⟨⟨a, rest⟩, -, h⟩
  · exact .inl failed
  rcases error_of_bind h with ended | ⟨u, -, done⟩
  · refine .inr ?_
    unfold finish at ended
    rw [bind_of_ok (peek_eq rest)] at ended
    cases shape : rest.dropWhile isBlank with
    | nil =>
      rw [shape] at ended
      cases ended
    | cons c r =>
      rw [shape] at ended
      cases ended
      rfl
  · cases done

/-- What is read of a whole text is told by the tree of the document that the text is. -/
theorem Reads.exists_of_run {meaning : Written → Except Fault α} (h : Reads [] reader meaning)
    (read : reader.run text = .ok a) : ∃ w : Written, w.IsSpelled text ∧ meaning w = .ok a := by
  obtain ⟨rest, taken, blank⟩ := run_eq_ok read
  obtain ⟨w, spelled, made⟩ := h _ _ _ taken
  exact ⟨w, ⟨rest, spelled, blank⟩, made⟩

/-- A document is read as the value that its tree holds. -/
theorem read_of_isSpelled {w : Written} (h : w.IsSpelled text) :
    Value.read text = w.value depthLimit := by
  obtain ⟨rest, spelled, blank⟩ := h
  have read := value_spelled w spelled (delimited_of_blank blank) depthLimit
  cases holds : w.value depthLimit with
  | error fault =>
    rw [holds] at read
    exact run_of_error read
  | ok v =>
    rw [holds] at read
    exact run_of_ok read blank

/-- A text that is read at all is a document. -/
theorem exists_of_read {v : Value} (h : Value.read text = .ok v) :
    ∃ w : Written, w.IsSpelled text ∧ w.value depthLimit = .ok v :=
  (reads_value depthLimit).exists_of_run h

end Whole

end SymbolicRegression.Json
