import SymbolicRegression.Proofs.Json.Fields
import SymbolicRegression.Proofs.Record.Writing
import SymbolicRegression.Record.Json

/-!
# Records of numbers as trees

A document is a record of numbers if it is an object whose members are numbers, the last of each
name being that of the record. The reader of records finds exactly these, and a document that holds
what has been written of a record is that record.
-/
namespace SymbolicRegression

open Json Reader

namespace Json.Written

/-- Whether a document is a text. -/
def IsText (w : Written) (s : String) : Prop := ∃ t, w = .quoted t ∧ t.text = .ok s

/-- Whether a document is a number to which a binary64 number is nearest. -/
def IsFloat (w : Written) (x : Float) : Prop :=
  ∃ n number, w = .numeral n ∧ n.number = .ok number ∧ number.toFloat = x

/-- Whether a document is a whole number of 64 bits without sign. -/
def IsWord (w : Written) (n : UInt64) : Prop := ∃ t, w = .numeral t ∧ t.number = .ok (.natural n)

/-- Whether written members have the given names and values. -/
def AreNamed (ms : List (WrittenText × Written)) (members : List (String × Written)) : Prop :=
  List.Forall₂ (fun m member => m.1.text = .ok member.1 ∧ m.2 = member.2) ms members

/-- Whether a document is an object with the given members. -/
def IsObject (w : Written) (members : List (String × Written)) : Prop :=
  ∃ ms, w = .object ms ∧ AreNamed ms members

/-- Whether members are the given entries. -/
def AreEntries (members : List (String × Written)) (entries : List (String × Float)) : Prop :=
  List.Forall₂ (fun member e => member.1 = e.1 ∧ member.2.IsFloat e.2) members entries

/-- Whether a document is an object of numbers, the last of each name being that of a record. -/
def IsRecord (w : Written) (r : Record) : Prop :=
  ∃ members entries, w.IsObject members ∧ AreEntries members entries ∧ r = .ofList entries

end Json.Written

open Json.Written

/-- What is made of a text. -/
theorem held_text_iff {w : Written} {expected s : String} :
    w.held 0 (Value.asText expected) = .ok s ↔ w.IsText s := by
  constructor
  · intro h
    cases w with
    | quoted t =>
      obtain ⟨v, holds, taken⟩ := ok_of_bind h
      obtain ⟨s', text, rfl⟩ := ok_of_map holds
      cases taken
      exact ⟨t, rfl, text⟩
    | numeral n =>
      obtain ⟨v, holds, taken⟩ := ok_of_bind h
      obtain ⟨number, -, rfl⟩ := ok_of_map holds
      cases taken
    | null => cases h
    | boolean b => cases h
    | list items => cases h
    | object members => cases h
  · rintro ⟨t, rfl, text⟩
    exact held_text text 0 expected

theorem held_float_iff {w : Written} {x : Float} :
    w.held 0 Value.asFloat = .ok x ↔ w.IsFloat x := by
  constructor
  · intro h
    cases w with
    | quoted t =>
      obtain ⟨v, holds, taken⟩ := ok_of_bind h
      obtain ⟨s', -, rfl⟩ := ok_of_map holds
      cases taken
    | numeral n =>
      obtain ⟨v, holds, taken⟩ := ok_of_bind h
      obtain ⟨number, denotes, rfl⟩ := ok_of_map holds
      cases taken
      exact ⟨n, number, rfl, denotes, rfl⟩
    | null => cases h
    | boolean b => cases h
    | list items => cases h
    | object members => cases h
  · rintro ⟨n, number, rfl, denotes, rfl⟩
    exact held_number denotes 0 _

theorem held_word_iff {w : Written} {expected : String} {n : UInt64} :
    w.held 0 (Value.asWord expected) = .ok n ↔ w.IsWord n := by
  constructor
  · intro h
    cases w with
    | quoted t =>
      obtain ⟨v, holds, taken⟩ := ok_of_bind h
      obtain ⟨s', -, rfl⟩ := ok_of_map holds
      cases taken
    | numeral t =>
      obtain ⟨v, holds, taken⟩ := ok_of_bind h
      obtain ⟨number, denotes, rfl⟩ := ok_of_map holds
      cases number <;> cases taken
      exact ⟨t, rfl, denotes⟩
    | null => cases h
    | boolean b => cases h
    | list items => cases h
    | object members => cases h
  · rintro ⟨t, rfl, denotes⟩
    exact held_number denotes 0 _

theorem succeeds_float : Succeeds Reader.float (Written.held 0 Value.asFloat) := by
  intro w
  refine goes_of_ok fun x s rest made spelled delimited => ?_
  obtain ⟨n, number, rfl, denotes, rfl⟩ := held_float_iff.mp made
  exact float_spelled spelled delimited denotes

theorem succeeds_word64 (expected : String) :
    Succeeds (Reader.word64 expected) (Written.held 0 (Value.asWord expected)) := by
  intro w
  refine goes_of_ok fun n s rest made spelled delimited => ?_
  obtain ⟨t, rfl, denotes⟩ := held_word_iff.mp made
  exact word64_spelled spelled delimited denotes expected

theorem succeeds_text {expected : String} :
    Succeeds (Reader.text expected) (Written.held 0 (Value.asText expected)) := by
  intro w
  refine goes_of_ok fun s' s rest made spelled delimited => ?_
  obtain ⟨t, rfl, text⟩ := held_text_iff.mp made
  rw [text_spelled spelled, text]
  rfl

namespace Record

/-- What a record gathers of the members of an object. -/
def entryStep (r : Record) (name : String) (w : Written) : Except Fault Record :=
  r.set name <$> w.held 0 Value.asFloat

/-- The record that the tree of a document is. -/
def ofWritten : Written → Except Fault Record
  | .object members => members.foldlM (namedStep entryStep) empty
  | w => w.held 0 (Value.mismatch "a map")

theorem foldlM_entryStep_iff {ms : List (WrittenText × Written)} {r r' : Record} :
    ms.foldlM (namedStep entryStep) r = .ok r' ↔
      ∃ members entries, AreNamed ms members ∧ AreEntries members entries ∧
        r' = r.write entries := by
  induction ms generalizing r with
  | nil =>
    constructor
    · intro h
      cases h
      exact ⟨[], [], .nil, .nil, rfl⟩
    · rintro ⟨members, entries, named, are, rfl⟩
      cases named
      cases are
      rfl
  | cons m ms ih =>
    obtain ⟨t, w⟩ := m
    rw [List.foldlM_cons]
    constructor
    · intro h
      obtain ⟨r₁, step, h⟩ := ok_of_bind h
      obtain ⟨name, text, step⟩ := ok_of_bind step
      obtain ⟨x, number, rfl⟩ := ok_of_map step
      obtain ⟨members, entries, named, are, rfl⟩ := ih.mp h
      exact ⟨(name, w) :: members, (name, x) :: entries, .cons ⟨text, rfl⟩ named,
        .cons ⟨rfl, held_float_iff.mp number⟩ are, rfl⟩
    · rintro ⟨members, entries, named, are, rfl⟩
      cases named with
      | cons this named =>
        cases are with
        | cons that are =>
          obtain ⟨text, rfl⟩ := this
          obtain ⟨same, number⟩ := that
          rw [namedStep, text]
          change entryStep r _ _ >>= _ = _
          rw [entryStep, held_float_iff.mpr number, same]
          exact ih.mpr ⟨_, _, named, are, rfl⟩

theorem ofWritten_iff {w : Written} {r : Record} : ofWritten w = .ok r ↔ w.IsRecord r := by
  constructor
  · intro h
    cases w with
    | object ms =>
      obtain ⟨members, entries, named, are, rfl⟩ := foldlM_entryStep_iff.mp h
      exact ⟨members, entries, ⟨ms, rfl, named⟩, are, rfl⟩
    | null => exact absurd h (held_mismatch_ne_ok _ 0 _ r)
    | boolean b => exact absurd h (held_mismatch_ne_ok _ 0 _ r)
    | numeral n => exact absurd h (held_mismatch_ne_ok _ 0 _ r)
    | quoted t => exact absurd h (held_mismatch_ne_ok _ 0 _ r)
    | list items => exact absurd h (held_mismatch_ne_ok _ 0 _ r)
  · rintro ⟨members, entries, ⟨ms, rfl, named⟩, are, rfl⟩
    exact foldlM_entryStep_iff.mpr ⟨members, entries, named, are, rfl⟩

/-- What the reader of records does with each member. -/
def readEntry (r : Record) (name : String) : Reader Record := do
  Reader.colon
  let x ← Reader.float
  pure (r.set name x)

theorem read_of_object {s rest : List Char} (h : s.dropWhile isBlank = '\x7b' :: rest)
    (depth : ℕ) : read (depth + 1) s = members readEntry empty .ok rest := by
  unfold read
  rw [bind_of_ok (peek_eq s), h]
  exact bind_of_ok (advance_run '\x7b' rest)

theorem reads_readEntry (r : Record) (name : String) :
    Reads [[':']] (readEntry r name) (entryStep r name) := by
  intro s r' rest h
  obtain ⟨u, s₁, mark, h⟩ := exists_of_bind h
  obtain ⟨x, s₂, read, h⟩ := exists_of_bind h
  cases h
  obtain ⟨w, spelled, holds⟩ := reads_float 0 _ _ _ read
  exact ⟨w, spells_cons.mpr ⟨s₁, colon_eq_ok mark, spelled⟩, by rw [entryStep, holds]; rfl⟩

theorem reads_read (depth : ℕ) : Reads [] (read depth) ofWritten := by
  intro s r rest h
  cases shape : s.dropWhile isBlank with
  | nil =>
    unfold read at h
    rw [bind_of_ok (peek_eq s), shape] at h
    cases h
  | cons c s' =>
    by_cases object : c = '\x7b'
    · subst object
      cases depth with
      | zero =>
        unfold read at h
        rw [bind_of_ok (peek_eq s), shape] at h
        cases h
      | succ depth =>
        rw [read_of_object shape] at h
        obtain ⟨ms, spelled, made⟩ := members_eq_ok reads_readEntry h
        obtain ⟨r', made, same⟩ := ok_of_bind made
        cases same
        exact ⟨.object ms, ⟨s', shape, spelled⟩, made⟩
    · have refused : mismatch "a map" (c :: s') = .ok (r, rest) := by
        rw [← h]
        unfold read
        rw [bind_of_ok (peek_eq s), shape]
        apply congrFun
        split
        next none_ => cases none_
        next same => exact absurd (Option.some.inj same) object
        next => rfl
      exact absurd refused (mismatch_ne_ok _ _)

theorem succeeds_read (depth : ℕ) : Succeeds (read (depth + 1)) ofWritten := by
  intro w
  refine goes_of_ok fun r s rest made spelled delimited => ?_
  obtain ⟨members, entries, ⟨ms, rfl, named⟩, are, rfl⟩ := ofWritten_iff.mp made
  obtain ⟨s', shape, spelled⟩ := spelled
  have goes (m : WrittenText × Written) (r : Record) (name : String) :
      Goes (fun _ => False) [[':']] (readEntry r name) (entryStep r name) m.2 := by
    refine goes_of_ok fun r' s rest made spelled delimited => ?_
    obtain ⟨x, number, rfl⟩ := ok_of_map made
    obtain ⟨n, value, shape, denotes, rfl⟩ := held_float_iff.mp number
    rw [shape] at spelled
    obtain ⟨mid, mark, spelled⟩ := spells_cons.mp spelled
    refine (bind_of_ok (colon_of_spells mark)).trans ?_
    exact bind_of_ok (float_spelled spelled delimited denotes)
  have read : Yields (fun _ => False) (Reader.members readEntry empty .ok s') rest
      (ms.foldlM (namedStep entryStep) empty >>= .ok) :=
    members_spelled (fun m _ r name => goes m r name) spelled empty
  rw [show ms.foldlM (namedStep entryStep) empty = .ok (ofList entries) from made] at read
  exact (read_of_object shape depth).trans read

end Record

/-- What a document is that holds a value. -/
def Json.Written.IsLike (w : Written) : Value → Prop
  | .text s => w.IsText s
  | .number n => w.IsFloat n.toFloat
  | .list vs => ∃ ws depth, w = .list ws ∧ values depth ws = .ok vs
  | .object vs => ∃ ms depth, w = .object ms ∧ memberValues depth ms = .ok vs
  | _ => True

theorem isLike_of_value {w : Written} {depth : ℕ} {v : Value} (h : w.value depth = .ok v) :
    w.IsLike v := by
  cases w with
  | null =>
    cases h
    trivial
  | boolean b =>
    cases h
    trivial
  | numeral n =>
    obtain ⟨number, denotes, rfl⟩ := ok_of_map h
    exact ⟨n, number, rfl, denotes, rfl⟩
  | quoted t =>
    obtain ⟨s, text, rfl⟩ := ok_of_map h
    exact ⟨t, rfl, text⟩
  | list ws =>
    cases depth with
    | zero => cases h
    | succ depth =>
      obtain ⟨vs, holds, rfl⟩ := ok_of_map h
      exact ⟨ws, depth, rfl, holds⟩
  | object ms =>
    cases depth with
    | zero => cases h
    | succ depth =>
      obtain ⟨vs, holds, rfl⟩ := ok_of_map h
      exact ⟨ms, depth, rfl, holds⟩

/-- What holds a word is that word. -/
theorem isWord_of_value {w : Written} {depth : ℕ} {n : UInt64}
    (h : w.value depth = .ok (.ofWord n)) : w.IsWord n := by
  cases w with
  | numeral t =>
    obtain ⟨number, denotes, same⟩ := ok_of_map h
    cases same
    exact ⟨t, rfl, denotes⟩
  | quoted t =>
    obtain ⟨s, -, same⟩ := ok_of_map h
    cases same
  | list ws =>
    cases depth with
    | zero => cases h
    | succ depth =>
      obtain ⟨vs, -, same⟩ := ok_of_map h
      cases same
  | object ms =>
    cases depth with
    | zero => cases h
    | succ depth =>
      obtain ⟨vs, -, same⟩ := ok_of_map h
      cases same
  | null => cases h
  | boolean b => cases h

theorem forall₂_of_values {depth : ℕ} {ws : List Written} {vs : List Value}
    (h : values depth ws = .ok vs) : List.Forall₂ IsLike ws vs := by
  induction ws generalizing vs with
  | nil =>
    cases h
    exact .nil
  | cons w ws ih =>
    obtain ⟨v, first, h⟩ := ok_of_bind h
    obtain ⟨vs, others, h⟩ := ok_of_bind h
    cases h
    exact .cons (isLike_of_value first) (ih others)

theorem exists_members_of_values {depth : ℕ} {ms : List (WrittenText × Written)}
    {vs : List (String × Value)} (h : memberValues depth ms = .ok vs) :
    ∃ members, AreNamed ms members ∧
      List.Forall₂ (fun member v => member.1 = v.1 ∧ member.2.IsLike v.2) members vs := by
  induction ms generalizing vs with
  | nil =>
    cases h
    exact ⟨[], .nil, .nil⟩
  | cons m ms ih =>
    obtain ⟨t, w⟩ := m
    obtain ⟨name, text, h⟩ := ok_of_bind h
    obtain ⟨v, first, h⟩ := ok_of_bind h
    obtain ⟨vs, others, h⟩ := ok_of_bind h
    cases h
    obtain ⟨members, named, like⟩ := ih others
    exact ⟨(name, w) :: members, .cons ⟨text, rfl⟩ named, .cons ⟨rfl, isLike_of_value first⟩ like⟩

namespace Record

theorem isPrinted_entries (entries : List (String × Float)) :
    Value.MembersArePrinted (entries.map fun e => (e.1, .ofFloat e.2)) := by
  induction entries with
  | nil => trivial
  | cons e entries ih => exact ⟨Value.isPrinted_ofFloat e.2, ih⟩

theorem isPrinted_toValue (r : Record) : r.toValue.IsPrinted := isPrinted_entries r.entries

theorem nesting_entries (entries : List (String × Float)) :
    Value.nestingMembers (entries.map fun e => (e.1, .ofFloat e.2)) = 0 := by
  induction entries with
  | nil => rfl
  | cons e entries ih =>
    rw [List.map_cons, Value.nestingMembers, Value.nesting_ofFloat, ih]
    rfl

theorem nesting_toValue (r : Record) : r.toValue.nesting = 1 := by
  rw [toValue, Value.nesting, nesting_entries]

end Record

/-- A document that holds finite numbers by their names lists them as its entries. -/
theorem exists_entries_of_value {w : Written} {entries : List (String × Float)}
    (finite : ∀ e ∈ entries, e.2.isFinite = true)
    (h : w.IsLike (.object (entries.map fun e => (e.1, .ofFloat e.2)))) :
    ∃ members, w.IsObject members ∧ AreEntries members entries := by
  obtain ⟨ms, depth, rfl, holds⟩ := h
  obtain ⟨members, named, like⟩ := exists_members_of_values holds
  refine ⟨members, ⟨ms, rfl, named⟩, ?_⟩
  rw [List.forall₂_map_right_iff] at like
  refine ((List.forall₂_and_left _ _).mpr ⟨finite, like.flip⟩).flip.imp ?_
  rintro member e ⟨isFinite, same, like⟩
  have number : Value.ofFloat e.2 = .number (.real e.2) := if_pos isFinite
  rw [number] at like
  exact ⟨same, like⟩

/-- A document that holds a record of finite numbers is that record. -/
theorem Record.isRecord_of_value {w : Written} {r : Record}
    (finite : ∀ e ∈ r.entries, e.2.isFinite = true) (h : w.IsLike r.toValue) : w.IsRecord r := by
  obtain ⟨members, object, are⟩ := exists_entries_of_value finite h
  exact ⟨members, r.entries, object, are, r.ofList_entries.symm⟩

end SymbolicRegression
