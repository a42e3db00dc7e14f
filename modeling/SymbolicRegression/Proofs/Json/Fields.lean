import SymbolicRegression.Json.Fields
import SymbolicRegression.Proofs.Json.Skipping

/-!
# Records as trees

What a record is made of is told by the tree of the document that it is read from: scalars by their
tokens, and the members of an object, or the items of a list, by the slots that read them. A record
read straight from a text is what the same slots make of its tree, where members that are no fields
are left out unseen.
-/
namespace SymbolicRegression.Json

open Reader Written

namespace Reader

variable {s rest : List Char}

/-- A value that is not of the expected kind is refused. -/
theorem mismatch_ne_ok {α : Type} (expected : String) (result : α × List Char) :
    mismatch expected s ≠ .ok result := by
  intro h
  unfold mismatch at h
  rw [bind_of_ok (peek_eq s)] at h
  cases shape : s.dropWhile isBlank with
  | nil =>
    rw [shape] at h
    cases h
  | cons c r =>
    rw [shape] at h
    by_cases list : c = '['
    · rw [list] at h
      cases h
    by_cases object : c = '\x7b'
    · rw [object] at h
      cases h
    have read : (do
        let v ← scalar c
        reject (.wrongType (.ofValue v) expected) : Reader α) (c :: r) = .ok result := by
      rw [← h]
      apply congrFun
      split
      next none_ => cases none_
      next same => exact absurd (Option.some.inj same) list
      next same => exact absurd (Option.some.inj same) object
      next same =>
        cases same
        rfl
    obtain ⟨v, s', -, refused⟩ := exists_of_bind read
    cases refused

/-- What is read as a text is a text in quotes. -/
theorem text_eq_ok {expected name : String} (h : Reader.text expected s = .ok (name, rest)) :
    ∃ t : WrittenText, Spells [t.token] s rest ∧ t.text = .ok name := by
  unfold Reader.text at h
  rw [bind_of_ok (peek_eq s)] at h
  cases shape : s.dropWhile isBlank with
  | nil =>
    rw [shape] at h
    cases h
  | cons c r =>
    rw [shape] at h
    by_cases quote : c = '"'
    · subst quote
      obtain ⟨t, token, text⟩ := quotedText_eq_ok h
      exact ⟨t, ⟨rest, shape.trans token, rfl⟩, text⟩
    · have refused : mismatch expected (c :: r) = .ok (name, rest) := by
        rw [← h]
        apply congrFun
        split
        next none_ => cases none_
        next same => exact absurd (Option.some.inj same) quote
        next => rfl
      exact absurd refused (mismatch_ne_ok expected _)

/-- A text in quotes is read as the text that it stands for. -/
theorem text_spelled {t : WrittenText} (h : Spells [t.token] s rest) (expected : String) :
    Reader.text expected s = (fun name => (name, rest)) <$> t.text := by
  obtain ⟨s', shape, rfl⟩ := h
  unfold Reader.text
  rw [bind_of_ok (peek_eq s), shape]
  exact quotedText_spelled t s'

/-- What is read as a number in front of a continuation is a numeral. -/
theorem number_of_digit {α : Type} {f : Number → Reader α} {expected : String} {a : α}
    (h : (do
      match ← peek with
      | none => fail .endOfValue
      | some c =>
        if c = '-' ∨ c.isDigit then do
          let n ← number
          f n
        else mismatch expected : Reader α) s = .ok (a, rest)) :
    ∃ (n : WrittenNumber) (x : Number) (s' : List Char),
      Spells [n.chars] s s' ∧ n.number = .ok x ∧ f x s' = .ok (a, rest) := by
  rw [bind_of_ok (peek_eq s)] at h
  cases shape : s.dropWhile isBlank with
  | nil =>
    rw [shape] at h
    cases h
  | cons c r =>
    simp only [shape, List.head?_cons] at h
    split_ifs at h with digit
    · obtain ⟨x, s', read, h⟩ := exists_of_bind h
      obtain ⟨n, chars, number⟩ := number_eq_ok read
      exact ⟨n, x, s', ⟨s', shape.trans chars, rfl⟩, number, h⟩
    · exact absurd h (mismatch_ne_ok expected _)

theorem float_eq_ok {x : Float} (h : Reader.float s = .ok (x, rest)) :
    ∃ (n : WrittenNumber) (number : Number),
      Spells [n.chars] s rest ∧ n.number = .ok number ∧ number.toFloat = x := by
  obtain ⟨n, number, s', spelled, holds, read⟩ := number_of_digit h
  cases read
  exact ⟨n, number, spelled, holds, rfl⟩

theorem word64_eq_ok {expected : String} {x : UInt64}
    (h : Reader.word64 expected s = .ok (x, rest)) :
    ∃ (n : WrittenNumber) (number : Number),
      Spells [n.chars] s rest ∧ n.number = .ok number ∧ wordOf expected number = .ok x := by
  obtain ⟨n, number, s', spelled, holds, read⟩ := number_of_digit h
  cases word : wordOf expected number with
  | error fault =>
    rw [word] at read
    cases read
  | ok y =>
    rw [word] at read
    cases read
    exact ⟨n, number, spelled, holds, word⟩

/-- A numeral is read as the binary64 number nearest to the number that it stands for. -/
theorem float_spelled {n : WrittenNumber} (h : Spells [n.chars] s rest) (delimited : Delimited rest)
    {number : Number} (holds : n.number = .ok number) :
    Reader.float s = .ok (number.toFloat, rest) := by
  obtain ⟨s', shape, rfl⟩ := h
  obtain ⟨c, cs, chars, digit⟩ := exists_head_numeral n
  have read := number_spelled n delimited
  rw [chars] at shape read
  rw [holds] at read
  unfold Reader.float
  rw [bind_of_ok (peek_eq s), shape]
  simp only [List.cons_append, List.head?_cons, if_pos digit]
  exact bind_of_ok read

/-- A numeral that stands for a word is read as that word. -/
theorem word64_spelled {n : WrittenNumber} (h : Spells [n.chars] s rest)
    (delimited : Delimited rest) {word : UInt64} (holds : n.number = .ok (.natural word))
    (expected : String) : Reader.word64 expected s = .ok (word, rest) := by
  obtain ⟨s', shape, rfl⟩ := h
  obtain ⟨c, cs, chars, digit⟩ := exists_head_numeral n
  have read := number_spelled n delimited
  rw [chars] at shape read
  rw [holds] at read
  unfold Reader.word64
  rw [bind_of_ok (peek_eq s), shape]
  simp only [List.cons_append, List.head?_cons, if_pos digit]
  exact bind_of_ok read

theorem closeList_eq_ok (h : closeList s = .ok ((), rest)) : Spells [[']']] s rest := by
  unfold closeList at h
  rw [bind_of_ok (peek_eq s)] at h
  cases shape : s.dropWhile isBlank with
  | nil =>
    rw [shape] at h
    cases h
  | cons c r =>
    rw [shape] at h
    by_cases close : c = ']'
    · rw [close] at h
      cases h
      exact ⟨r, by rw [shape, close]; rfl, rfl⟩
    by_cases comma : c = ','
    · rw [comma] at h
      obtain ⟨u, s₁, -, h⟩ := exists_of_bind h
      obtain ⟨front, s₂, -, h⟩ := exists_of_bind h
      by_cases bracket : front = some ']'
      · rw [bracket] at h
        cases h
      · have refused : (fail .trailingCharacters : Reader Unit) s₂ = .ok ((), rest) := by
          rw [← h]
          apply congrFun
          split
          next => exact absurd rfl bracket
          next => rfl
        cases refused
    · have refused : (fail .trailingCharacters : Reader Unit) (c :: r) = .ok ((), rest) := by
        rw [← h]
        apply congrFun
        split
        next same => exact absurd (Option.some.inj same) close
        next same => exact absurd (Option.some.inj same) comma
        next => rfl
        next none_ => cases none_
      cases refused

theorem closeList_of_spells (h : Spells [[']']] s rest) : closeList s = .ok ((), rest) := by
  obtain ⟨s', shape, rfl⟩ := h
  unfold closeList
  rw [bind_of_ok (peek_eq s), shape]
  rfl

end Reader

/-- What a reader of values held in memory makes of a document. -/
def Written.held {α : Type} (depth : ℕ) (f : Value → Except Fault α) (w : Written) :
    Except Fault α := w.value depth >>= f

theorem held_text {t : WrittenText} {name : String} (h : t.text = .ok name) (depth : ℕ)
    (expected : String) : (Written.quoted t).held depth (Value.asText expected) = .ok name := by
  rw [Written.held, Written.value, h]
  rfl

theorem held_number {α : Type} {n : WrittenNumber} {number : Number} (h : n.number = .ok number)
    (depth : ℕ) (f : Value → Except Fault α) :
    (Written.numeral n).held depth f = f (.number number) := by
  rw [Written.held, Written.value, h]
  rfl

/-- A document that is not of the expected kind is refused. -/
theorem held_mismatch_ne_ok {α : Type} (w : Written) (depth : ℕ) (expected : String) (a : α) :
    w.held depth (Value.mismatch expected) ≠ .ok a := by
  intro h
  obtain ⟨v, -, refused⟩ := ok_of_bind h
  cases refused

/-- A text read straight is the text held in memory. -/
theorem reads_text (depth : ℕ) (expected : String) :
    Reads [] (Reader.text expected) (Written.held depth (Value.asText expected)) := by
  intro s name rest h
  obtain ⟨t, spelled, text⟩ := text_eq_ok h
  exact ⟨.quoted t, spelled, held_text text depth expected⟩

/-- A binary64 number read straight is the number held in memory. -/
theorem reads_float (depth : ℕ) :
    Reads [] Reader.float (Written.held depth Value.asFloat) := by
  intro s x rest h
  obtain ⟨n, number, spelled, holds, rfl⟩ := float_eq_ok h
  exact ⟨.numeral n, spelled, held_number holds depth _⟩

/-- A whole number read straight is the number held in memory. -/
theorem reads_word64 (depth : ℕ) (expected : String) :
    Reads [] (Reader.word64 expected) (Written.held depth (Value.asWord expected)) := by
  intro s x rest h
  obtain ⟨n, number, spelled, holds, word⟩ := word64_eq_ok h
  exact ⟨.numeral n, spelled, (held_number holds depth _).trans word⟩

/-- What is made of a result is made of its meaning. -/
theorem Reads.map {α β : Type} {lead : List (List Char)} {reader : Reader α}
    {meaning : Written → Except Fault α} (h : Reads lead reader meaning) (g : α → β) :
    Reads lead (g <$> reader) fun w => g <$> meaning w := by
  intro s b rest read
  rw [map_eq_pure_bind] at read
  obtain ⟨a, s', read, done⟩ := exists_of_bind read
  cases done
  obtain ⟨w, spelled, holds⟩ := h _ _ _ read
  refine ⟨w, spelled, ?_⟩
  change g <$> meaning w = .ok (g a)
  rw [holds]
  rfl

/-- What is made of a result if it passes a check. -/
theorem Reads.bind {α β : Type} {lead : List (List Char)} {reader : Reader α}
    {meaning : Written → Except Fault α} (h : Reads lead reader meaning)
    (check : α → Except Fault β) :
    Reads lead (reader >>= fun a => (check a : Except Fault β)) fun w => meaning w >>= check := by
  intro s b rest read
  obtain ⟨a, s', read, done⟩ := exists_of_bind read
  obtain ⟨w, spelled, holds⟩ := h _ _ _ read
  obtain ⟨checked, rfl⟩ := lift_eq_ok done
  refine ⟨w, spelled, ?_⟩
  change meaning w >>= check = .ok b
  rw [holds]
  exact checked

/-- Whether a reader succeeds on every document of which there is something to make. -/
def Succeeds {α : Type} (reader : Reader α) (meaning : Written → Except Fault α) : Prop :=
  ∀ w, Goes (fun _ => False) [] reader meaning w

theorem goes_of_ok {α : Type} {lead : List (List Char)} {reader : Reader α}
    {meaning : Written → Except Fault α} {w : Written}
    (h : ∀ a s rest, meaning w = .ok a → Spells (lead ++ w.tokens) s rest → Delimited rest →
      reader s = .ok (a, rest)) : Goes (fun _ => False) lead reader meaning w := by
  intro s rest spelled delimited
  cases made : meaning w with
  | ok a => exact h a s rest made spelled delimited
  | error fault => exact fun known => known.elim

theorem Succeeds.map {α β : Type} {reader : Reader α} {meaning : Written → Except Fault α}
    (h : Succeeds reader meaning) (g : α → β) :
    Succeeds (g <$> reader) fun w => g <$> meaning w := by
  intro w
  refine goes_of_ok fun b s rest made spelled delimited => ?_
  obtain ⟨a, first, rfl⟩ := ok_of_map made
  have read := h w s rest spelled delimited
  rw [first] at read
  rw [map_eq_pure_bind]
  exact bind_of_ok read

theorem Succeeds.bind {α β : Type} {reader : Reader α} {meaning : Written → Except Fault α}
    (h : Succeeds reader meaning) (check : α → Except Fault β) :
    Succeeds (reader >>= fun a => (check a : Except Fault β)) fun w => meaning w >>= check := by
  intro w
  refine goes_of_ok fun b s rest made spelled delimited => ?_
  obtain ⟨a, first, checked⟩ := ok_of_bind made
  have read := h w s rest spelled delimited
  rw [first] at read
  refine (bind_of_ok read).trans ?_
  rw [checked]
  rfl

/-- A whole text is read if and only if something is made of the tree of the document that it is. -/
theorem run_iff {α : Type} {reader : Reader α} {meaning : Written → Except Fault α}
    (reads : Reads [] reader meaning) (succeeds : Succeeds reader meaning) {text : String} {a : α} :
    reader.run text = .ok a ↔ ∃ w : Written, w.IsSpelled text ∧ meaning w = .ok a := by
  constructor
  · exact reads.exists_of_run
  · rintro ⟨w, ⟨rest, spelled, blank⟩, made⟩
    have read := succeeds w _ _ spelled (delimited_of_blank blank)
    rw [made] at read
    exact run_of_ok read blank

/-- Two slots of one field, whose ways of reading it are related. -/
structure Slot.Pairs {m n : Type → Type} {σ : Type} (related : m σ → n σ → Prop)
    (first : Slot m σ) (second : Slot n σ) : Prop where
  name : first.name = second.name
  filled : first.filled = second.filled
  read : ∀ acc, related (first.read acc) (second.read acc)

/-- A slot that reads one field in two ways. -/
theorem pairs_field {m n : Type → Type} [Functor m] [Functor n] {σ β : Type} (name : String)
    (get : σ → Option β) (put : σ → β → σ) {first : m β} {second : n β}
    {related : m σ → n σ → Prop} (h : ∀ acc, related (put acc <$> first) (put acc <$> second)) :
    Slot.Pairs related (.field name get put first) (.field name get put second) :=
  ⟨rfl, rfl, h⟩

/-- The slot of a name is found among either. -/
theorem Slot.find_pairs {m n : Type → Type} {σ : Type} {related : m σ → n σ → Prop}
    {first : List (Slot m σ)} {second : List (Slot n σ)}
    (h : List.Forall₂ (Slot.Pairs related) first second) (name : String) :
    (first.find? (fun slot => slot.name = name) = none ∧
        second.find? (fun slot => slot.name = name) = none) ∨
      ∃ a b, first.find? (fun slot => slot.name = name) = some a ∧
        second.find? (fun slot => slot.name = name) = some b ∧ Slot.Pairs related a b := by
  induction h with
  | nil => exact .inl ⟨rfl, rfl⟩
  | @cons a b first second pair pairs ih =>
    by_cases same : a.name = name
    · have same' : b.name = name := pair.name.symm.trans same
      exact .inr ⟨a, b, List.find?_cons_of_pos (by simpa using same),
        List.find?_cons_of_pos (by simpa using same'), pair⟩
    · have other : ¬b.name = name := fun h => same (pair.name.trans h)
      rw [List.find?_cons_of_neg (by simpa using same),
        List.find?_cons_of_neg (by simpa using other)]
      exact ih

section Records

variable {σ α : Type} {form : Form σ α} {direct : ℕ → List (Slot Reader σ)}
  {slots : ℕ → List (Slot (Held Written) σ)}

/-- What a record read straight from a text is, told by its tree. -/
def Form.ofWritten (form : Form σ α) (slots : ℕ → List (Slot (Held Written) σ)) :
    ℕ → Written → Except Fault α
  | depth + 1, .object members =>
    members.foldlM (namedStep (Form.intoSlot form.unknown (slots depth))) form.empty >>= form.check
  | depth + 1, .list items => form.ofItems (slots depth) items
  | depth, w => w.held depth (Value.mismatch form.kind)

theorem reads_intoSlot {direct : List (Slot Reader σ)} {slots : List (Slot (Held Written) σ)}
    (h : List.Forall₂ (Slot.Pairs (Reads [])) direct slots) (unknown : Unknown) (acc : σ)
    (name : String) :
    Reads [[':']] (Reader.intoSlot unknown direct acc name)
      (Form.intoSlot unknown slots acc name) := by
  intro s acc' rest read
  unfold Reader.intoSlot at read
  unfold Form.intoSlot
  rcases Slot.find_pairs h name with ⟨absent, absent'⟩ | ⟨slot, slot', found, found', pair⟩
  · rw [absent] at read
    cases unknown with
    | refuse => cases read
    | skip =>
      obtain ⟨u₁, s₁, mark, read⟩ := exists_of_bind read
      obtain ⟨u₂, s₂, skipped, read⟩ := exists_of_bind read
      cases read
      obtain ⟨w, spelled⟩ := skip_eq_ok skipped
      refine ⟨w, spells_cons.mpr ⟨s₁, colon_eq_ok mark, spelled⟩, ?_⟩
      rw [absent']
  · simp only [found] at read
    split_ifs at read with filled
    · cases read
    · obtain ⟨u₁, s₁, mark, read⟩ := exists_of_bind read
      obtain ⟨w, spelled, holds⟩ := pair.read acc _ _ _ read
      refine ⟨w, spells_cons.mpr ⟨s₁, colon_eq_ok mark, spelled⟩, ?_⟩
      simp only [found']
      rw [if_neg (by rwa [← pair.filled]), holds]

theorem intoSlots_eq_ok {direct : List (Slot Reader σ)} {slots : List (Slot (Held Written) σ)}
    (h : List.Forall₂ (Slot.Pairs (Reads [])) direct slots) {count : ℕ} {acc : σ} {a : α}
    {s s' rest : List Char} (read : intoSlots form direct count acc s = .ok (a, s'))
    (close : closeList s' = .ok ((), rest)) :
    ∃ ws, Spells (itemTokens (decide (count = 0)) ws) s rest ∧
      form.ofItemsFrom slots count acc ws = .ok a := by
  induction h generalizing count acc s with
  | nil =>
    obtain ⟨checked, rfl⟩ := lift_eq_ok read
    exact ⟨[], closeList_eq_ok close, checked⟩
  | @cons slot slot' direct slots pair pairs ih =>
    unfold intoSlots at read
    obtain ⟨more, front, announced, read⟩ := exists_of_bind read
    rcases moreItems_eq_ok announced with ⟨rfl, rest', rfl, ended⟩ | ⟨rfl, mid, comma, rfl⟩
    · obtain ⟨checked, rfl⟩ := lift_eq_ok read
      rw [closeList_run] at close
      cases close
      exact ⟨[], ended, checked⟩
    · obtain ⟨acc₁, s₁, first, read⟩ := exists_of_bind read
      obtain ⟨w, spelled, holds⟩ := pair.read acc _ _ _ first
      obtain ⟨ws, others, made⟩ := ih read
      refine ⟨w :: ws, ?_, ?_⟩
      · rw [itemTokens]
        exact spells_behind (by simp [tokens_ne_nil]) comma
          (spells_append.mpr ⟨s₁, spelled, others⟩)
      · rw [Form.ofItemsFrom]
        rw [holds]
        exact made

theorem record_of_end (depth : ℕ) {s : List Char} (h : s.dropWhile isBlank = []) :
    Reader.record form direct depth s = .error (.grammar .endOfValue) := by
  unfold Reader.record
  rw [bind_of_ok (peek_eq s), h]
  rfl

theorem record_zero {s r : List Char} {c : Char} (h : s.dropWhile isBlank = c :: r)
    (hc : c = '[' ∨ c = '\x7b') :
    Reader.record form direct 0 s = .error (.grammar .tooDeep) := by
  unfold Reader.record
  rw [bind_of_ok (peek_eq s), h]
  rcases hc with rfl | rfl <;> rfl

theorem record_of_list {s r : List Char} (h : s.dropWhile isBlank = '[' :: r) (depth : ℕ) :
    Reader.record form direct (depth + 1) s =
      (do
        let result ← intoSlots form (direct depth) 0 form.empty
        closeList
        pure result : Reader α) r := by
  unfold Reader.record
  rw [bind_of_ok (peek_eq s), h]
  exact bind_of_ok (advance_run '[' r)

theorem record_of_object {s r : List Char} (h : s.dropWhile isBlank = '\x7b' :: r)
    (depth : ℕ) :
    Reader.record form direct (depth + 1) s =
      members (Reader.intoSlot form.unknown (direct depth)) form.empty form.check r := by
  unfold Reader.record
  rw [bind_of_ok (peek_eq s), h]
  exact bind_of_ok (advance_run '\x7b' r)

theorem record_of_scalar {s r : List Char} {c : Char} (h : s.dropWhile isBlank = c :: r)
    (list : c ≠ '[') (object : c ≠ '\x7b') (depth : ℕ) :
    Reader.record form direct depth s = mismatch form.kind (c :: r) := by
  unfold Reader.record
  rw [bind_of_ok (peek_eq s), h]
  apply congrFun
  split
  next none_ => cases none_
  next same => exact absurd (Option.some.inj same) list
  next same => exact absurd (Option.some.inj same) object
  next => rfl

/-- A record read straight is what its slots make of the tree of its document. -/
theorem reads_record
    (h : ∀ depth, List.Forall₂ (Slot.Pairs (Reads [])) (direct depth) (slots depth)) (depth : ℕ) :
    Reads [] (Reader.record form direct depth) (form.ofWritten slots depth) := by
  intro s a rest read
  cases shape : s.dropWhile isBlank with
  | nil =>
    rw [record_of_end depth shape] at read
    cases read
  | cons c r =>
    by_cases bracket : c = '[' ∨ c = '\x7b'
    · cases depth with
      | zero =>
        rw [record_zero shape bracket] at read
        cases read
      | succ depth =>
        rcases bracket with rfl | rfl
        · rw [record_of_list shape] at read
          obtain ⟨b, s', gathered, read⟩ := exists_of_bind read
          obtain ⟨u, s'', close, read⟩ := exists_of_bind read
          cases read
          obtain ⟨ws, spelled, made⟩ := intoSlots_eq_ok (h depth) gathered close
          exact ⟨.list ws, ⟨r, shape, spelled⟩, made⟩
        · rw [record_of_object shape] at read
          obtain ⟨ms, spelled, made⟩ :=
            members_eq_ok (reads_intoSlot (h depth) form.unknown) read
          exact ⟨.object ms, ⟨r, shape, spelled⟩, made⟩
    · obtain ⟨list, object⟩ := not_or.mp bracket
      rw [record_of_scalar shape list object] at read
      exact absurd read (mismatch_ne_ok form.kind _)

theorem goes_intoSlot {direct : List (Slot Reader σ)} {slots : List (Slot (Held Written) σ)}
    (h : List.Forall₂ (Slot.Pairs Succeeds) direct slots) (unknown : Unknown) (acc : σ)
    (name : String) (w : Written) :
    Goes (fun _ => False) [[':']] (Reader.intoSlot unknown direct acc name)
      (Form.intoSlot unknown slots acc name) w := by
  intro s rest spelled delimited
  obtain ⟨mid, mark, spelled⟩ := spells_cons.mp spelled
  have mark := colon_of_spells mark
  unfold Reader.intoSlot Form.intoSlot
  rcases Slot.find_pairs h name with ⟨absent, absent'⟩ | ⟨slot, slot', found, found', pair⟩
  · rw [absent, absent']
    cases unknown with
    | refuse => exact fun known => known.elim
    | skip => exact (bind_of_ok mark).trans (bind_of_ok (skip_spelled w spelled delimited))
  · simp only [found, found', ← pair.filled]
    split_ifs with filled
    · exact fun known => known.elim
    · rw [bind_of_ok mark]
      exact pair.read acc w mid rest spelled delimited

theorem intoSlots_spelled {direct : List (Slot Reader σ)} {slots : List (Slot (Held Written) σ)}
    (h : List.Forall₂ (Slot.Pairs Succeeds) direct slots) {count : ℕ} {acc : σ} {a : α}
    {ws : List Written} {s rest : List Char}
    (spelled : Spells (itemTokens (decide (count = 0)) ws) s rest)
    (made : form.ofItemsFrom slots count acc ws = .ok a) :
    ∃ s', intoSlots form direct count acc s = .ok (a, s') ∧ closeList s' = .ok ((), rest) := by
  induction h generalizing count acc ws s with
  | nil =>
    cases ws with
    | cons w ws => cases made
    | nil =>
      rw [Form.ofItemsFrom] at made
      refine ⟨s, ?_, closeList_of_spells spelled⟩
      rw [intoSlots, made]
      rfl
  | @cons slot slot' direct slots pair pairs ih =>
    cases ws with
    | nil =>
      rw [Form.ofItemsFrom] at made
      refine ⟨']' :: rest, ?_, closeList_run rest⟩
      rw [intoSlots, bind_of_ok (moreItems_of_close spelled _), made]
      rfl
    | cons w ws =>
      obtain ⟨acc₁, step, made⟩ := ok_of_bind made
      obtain ⟨mid, behind, c, r, comma, shape, open_, own, delimited, spelled⟩ :=
        exists_of_itemTokens_cons spelled
      have taken := pair.read acc w _ _ own delimited
      rw [step] at taken
      have others : Spells (itemTokens (decide (count + 1 = 0)) ws) behind rest := spelled
      obtain ⟨s', gathered, close⟩ := ih others made
      refine ⟨s', ?_, close⟩
      rw [intoSlots, bind_of_ok (moreItems_of_spells comma shape open_)]
      exact (bind_of_ok taken).trans gathered

/-- A record is read of every document of whose tree its slots make one. -/
theorem succeeds_record {depth : ℕ}
    (h : List.Forall₂ (Slot.Pairs Succeeds) (direct depth) (slots depth)) :
    Succeeds (Reader.record form direct (depth + 1)) (form.ofWritten slots (depth + 1)) := by
  intro w
  refine goes_of_ok fun a s rest made spelled delimited => ?_
  cases w with
  | object members =>
    obtain ⟨r, shape, spelled⟩ := spelled
    have read : Yields (fun _ => False)
        (Reader.members (Reader.intoSlot form.unknown (direct depth)) form.empty form.check r)
        rest (form.ofWritten slots (depth + 1) (.object members)) :=
      members_spelled (fun m _ acc name => goes_intoSlot h form.unknown acc name m.2)
        spelled form.empty
    rw [made] at read
    exact (record_of_object shape depth).trans read
  | list items =>
    obtain ⟨r, shape, spelled⟩ := spelled
    have first : Spells (itemTokens (decide (0 = 0)) items) r rest := spelled
    obtain ⟨s', gathered, close⟩ := intoSlots_spelled h first made
    refine (record_of_list shape depth).trans ?_
    exact (bind_of_ok gathered).trans (bind_of_ok close)
  | null => exact absurd made (held_mismatch_ne_ok _ _ _ a)
  | boolean b => exact absurd made (held_mismatch_ne_ok _ _ _ a)
  | numeral n => exact absurd made (held_mismatch_ne_ok _ _ _ a)
  | quoted t => exact absurd made (held_mismatch_ne_ok _ _ _ a)

end Records

end SymbolicRegression.Json
