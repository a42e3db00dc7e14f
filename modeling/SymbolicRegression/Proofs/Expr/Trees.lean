import SymbolicRegression.Proofs.Expr.Reader
import SymbolicRegression.Proofs.Json.Fields

/-!
# Expressions as trees

Of a node that is read straight from a text, only the name of its form is looked at on the way.
Everything else is held in memory as it is in the node of a document held in memory whole, and
both are taken apart alike. So an expression that is read straight is always the one that the
text, held in memory, is.
-/
namespace SymbolicRegression.Expr

open Json Reader Written

/-- A name that is read straight is the name held in memory. -/
theorem reads_kind (depth : ℕ) : Reads [] Kind.read (Written.held depth Kind.ofValue) := by
  intro s kind rest h
  obtain ⟨name, s', read, h⟩ := exists_of_bind h
  obtain ⟨t, spelled, text⟩ := text_eq_ok read
  obtain ⟨named, rfl⟩ := lift_eq_ok h
  refine ⟨.quoted t, spelled, ?_⟩
  rw [Written.held, Written.value, text]
  exact named

/-- What a node gathers of its members. -/
def nodeStep (depth : ℕ) (acc : Option Kind × List (String × Value)) (name : String)
    (w : Written) : Except Fault (Option Kind × List (String × Value)) :=
  if name = "type" then
    match acc.1 with
    | some _ => .error (.content (.duplicateField name))
    | none => (fun kind => (some kind, acc.2)) <$> w.held depth Kind.ofValue
  else (fun v => (acc.1, (name, v) :: acc.2)) <$> w.value depth

theorem reads_nodeMember (depth : ℕ) (acc : Option Kind × List (String × Value))
    (name : String) : Reads [[':']] (nodeMember depth acc name) (nodeStep depth acc name) := by
  intro s acc' rest h
  obtain ⟨kind, others⟩ := acc
  unfold nodeMember at h
  unfold nodeStep
  split_ifs at h ⊢ with type
  · cases kind with
    | some kind => cases h
    | none =>
      obtain ⟨u, s₁, mark, h⟩ := exists_of_bind h
      obtain ⟨kind, s₂, read, h⟩ := exists_of_bind h
      cases h
      obtain ⟨w, spelled, holds⟩ := reads_kind depth _ _ _ read
      refine ⟨w, spells_cons.mpr ⟨s₁, colon_eq_ok mark, spelled⟩, ?_⟩
      change (fun kind => (some kind, others)) <$> w.held depth Kind.ofValue = _
      rw [holds]
      rfl
  · obtain ⟨u, s₁, mark, h⟩ := exists_of_bind h
    obtain ⟨v, s₂, read, h⟩ := exists_of_bind h
    cases h
    obtain ⟨w, spelled, holds⟩ := reads_value depth _ _ _ read
    refine ⟨w, spells_cons.mpr ⟨s₁, colon_eq_ok mark, spelled⟩, ?_⟩
    rw [holds]
    rfl

/-- The members of a node that are gathered on the way are those of the node held in memory. -/
theorem separate_of_foldlM {depth : ℕ} {ms : List (WrittenText × Written)}
    {acc acc' : Option Kind × List (String × Value)}
    (h : ms.foldlM (namedStep (nodeStep depth)) acc = .ok acc') :
    ∃ vs, memberValues depth ms = .ok vs ∧
      separate (acc.1, memberParts acc.2) (memberParts vs) =
        .ok (acc'.1, memberParts acc'.2) := by
  induction ms generalizing acc with
  | nil =>
    cases h
    exact ⟨[], rfl, rfl⟩
  | cons m ms ih =>
    obtain ⟨t, w⟩ := m
    obtain ⟨kind, others⟩ := acc
    rw [List.foldlM_cons] at h
    obtain ⟨acc₁, step, h⟩ := ok_of_bind h
    obtain ⟨name, text, step⟩ := ok_of_bind step
    obtain ⟨vs, holds, separated⟩ := ih h
    unfold nodeStep at step
    split_ifs at step with type
    · cases kind with
      | some kind => cases step
      | none =>
        obtain ⟨kind, read, rfl⟩ := ok_of_map step
        obtain ⟨v, value, read⟩ := ok_of_bind read
        refine ⟨(name, v) :: vs, ?_, ?_⟩
        · rw [memberValues, text, value, holds]
          rfl
        · rw [memberParts, separate, if_pos type, read]
          exact separated
    · obtain ⟨v, value, rfl⟩ := ok_of_map step
      refine ⟨(name, v) :: vs, ?_, ?_⟩
      · rw [memberValues, text, value, holds]
        rfl
      · rw [memberParts, separate.eq_def]
        simp only [if_neg type]
        exact separated

theorem reader_of_list {s r : List Char} (h : s.dropWhile isBlank = '[' :: r) (depth : ℕ) :
    reader (depth + 1) s =
      (do
        if ← moreItems true then
          let kind ← Kind.read
          let text ← get
          let items ← foldItems (gatherItem depth) (text.length + 1) false []
          closeList
          (assembleList (itemParts items.reverse) kind : Except Fault Expr)
        else reject (.missingField "type") : Reader Expr) r := by
  rw [reader, bind_of_ok (peek_eq s), h]
  exact bind_of_ok (advance_run '[' r)

/-- An expression that is read straight is the one that the text, held in memory, is. -/
theorem reads_reader (depth : ℕ) : Reads [] (reader depth) (Written.held depth ofValue) := by
  intro s e rest h
  cases shape : s.dropWhile isBlank with
  | nil =>
    rw [reader.eq_def, bind_of_ok (peek_eq s), shape] at h
    cases h
  | cons c r =>
    by_cases list : c = '['
    · subst list
      cases depth with
      | zero =>
        rw [reader, bind_of_ok (peek_eq s), shape] at h
        cases h
      | succ depth =>
        rw [reader_of_list shape] at h
        obtain ⟨more, front, announced, h⟩ := exists_of_bind h
        rcases moreItems_eq_ok announced with ⟨rfl, rest', rfl, close⟩ | ⟨rfl, mid, comma, rfl⟩
        · cases h
        · obtain ⟨kind, s₁, named, h⟩ := exists_of_bind h
          rw [get_bind] at h
          obtain ⟨items, s₂, gathered, h⟩ := exists_of_bind h
          obtain ⟨u, s₃, close, h⟩ := exists_of_bind h
          obtain ⟨w, spelled, type⟩ := reads_kind depth _ _ _ named
          obtain ⟨ws, rest', rfl, others, made⟩ :=
            foldItems_eq_ok (reads_gatherItem (reads_value depth)) gathered
          rw [closeList_run] at close
          cases close
          obtain ⟨v, value, type⟩ := ok_of_bind type
          obtain ⟨assembled, rfl⟩ := lift_eq_ok h
          rw [foldlM_valueStep] at made
          obtain ⟨vs, holds, rfl⟩ := ok_of_map made
          rw [List.append_nil, List.reverse_reverse] at assembled
          refine ⟨.list (w :: ws), ⟨r, shape, ?_⟩, ?_⟩
          · rw [itemTokens]
            exact spells_behind (by simp [tokens_ne_nil]) comma
              (spells_append.mpr ⟨s₁, spelled, others⟩)
          · have items : (Written.list (w :: ws)).value (depth + 1) = .ok (.list (v :: vs)) := by
              rw [Written.value, values, value, holds]
              rfl
            rw [Written.held, items]
            change ofValue (.list (v :: vs)) = .ok e
            rw [ofValue, itemParts, ofItems, type]
            exact assembled
    by_cases object : c = '\x7b'
    · subst object
      obtain ⟨blanks, hb, -, rfl⟩ := exists_blanks shape
      cases depth with
      | zero =>
        rw [reader_zero hb] at h
        cases h
      | succ depth =>
        rw [reader_of_object hb] at h
        obtain ⟨ms, spelled, made⟩ := members_eq_ok (reads_nodeMember depth) h
        obtain ⟨acc, gathered, checked⟩ := ok_of_bind made
        obtain ⟨vs, holds, separated⟩ := separate_of_foldlM gathered
        refine ⟨.object ms, ⟨r, shape, spelled⟩, ?_⟩
        rw [Written.held, Written.value, holds]
        change separate (none, []) (memberParts vs) >>= ofGathered = .ok e
        rw [memberParts] at separated
        rw [separated]
        exact checked
    · have refused : mismatch "internally tagged enum Expr" (c :: r) = .ok (e, rest) := by
        rw [← h, reader.eq_def, bind_of_ok (peek_eq s), shape]
        apply congrFun
        split
        next none_ => cases none_
        next same => exact absurd (Option.some.inj same) list
        next same => exact absurd (Option.some.inj same) object
        next => rfl
      exact absurd refused (mismatch_ne_ok _ _)

end SymbolicRegression.Expr
