import SymbolicRegression.Proofs.Json.Fields

/-!
# Straight from the text, or from memory

What is read straight from a text is also made of the value that the text holds, if the text holds
one at all. It may hold none, since members that are no fields are skipped by their form only:
a number among them may be out of range, a text may stand for none, and brackets may be too deep.
-/
namespace SymbolicRegression.Json

open Written

/-- Why a document may hold no value, although it is one. -/
inductive Unheld : Fault → Prop where
  | number : Unheld (.grammar .numberRange)
  | leading : Unheld (.grammar .loneSurrogate)
  | broken : Unheld (.grammar .brokenSurrogate)
  | deep : Unheld (.grammar .tooDeep)

theorem unheld_of_text {t : WrittenText} {fault : Fault} (h : t.text = .error fault) :
    Unheld fault := by
  unfold WrittenText.text at h
  cases letters : t.letters with
  | ok cs =>
    rw [letters] at h
    cases h
  | error fault' =>
    rw [letters] at h
    cases h
    rcases letters_error letters with rfl | rfl
    · exact .leading
    · exact .broken

theorem unheld_of_values {depth : ℕ} {ws : List Written} {fault : Fault}
    (h : values depth ws = .error fault)
    (each : ∀ w ∈ ws, ∀ fault, w.value depth = .error fault → Unheld fault) : Unheld fault := by
  induction ws with
  | nil => cases h
  | cons w ws ih =>
    obtain ⟨head, tail⟩ := List.forall_mem_cons.mp each
    rw [values] at h
    rcases error_of_bind h with first | ⟨v, -, h⟩
    · exact head fault first
    · rcases error_of_bind h with others | ⟨vs, -, h⟩
      · exact ih others tail
      · cases h

theorem unheld_of_memberValues {depth : ℕ} {ms : List (WrittenText × Written)} {fault : Fault}
    (h : memberValues depth ms = .error fault)
    (each : ∀ m ∈ ms, ∀ fault, m.2.value depth = .error fault → Unheld fault) :
    Unheld fault := by
  induction ms with
  | nil => cases h
  | cons m ms ih =>
    obtain ⟨t, w⟩ := m
    obtain ⟨head, tail⟩ := List.forall_mem_cons.mp each
    rw [memberValues] at h
    rcases error_of_bind h with name | ⟨s, -, h⟩
    · exact unheld_of_text name
    rcases error_of_bind h with first | ⟨v, -, h⟩
    · exact head fault first
    rcases error_of_bind h with others | ⟨vs, -, h⟩
    · exact ih others tail
    · cases h

/-- A document holds a value, but for these reasons. -/
theorem unheld_of_value {w : Written} {depth : ℕ} {fault : Fault}
    (h : w.value depth = .error fault) : Unheld fault := by
  induction w using Written.induct generalizing depth fault with
  | null => cases h
  | boolean b => cases h
  | numeral n =>
    rw [Reader.number_error (error_of_map h)]
    exact .number
  | quoted t => exact unheld_of_text (error_of_map h)
  | list items ih =>
    cases depth with
    | zero =>
      cases h
      exact .deep
    | succ depth => exact unheld_of_values (error_of_map h) fun w hw fault => ih w hw
  | object members ih =>
    cases depth with
    | zero =>
      cases h
      exact .deep
    | succ depth => exact unheld_of_memberValues (error_of_map h) fun m hm fault => ih m hm

/-- Whether what is made of the tree of a document is also made of the value that it holds. -/
def Follows {α : Type} (depth : ℕ) (direct : Held Written α) (held : Held Value α) : Prop :=
  ∀ w v a, direct w = .ok a → w.value depth = .ok v → held v = .ok a

theorem follows_held {α : Type} (depth : ℕ) (f : Value → Except Fault α) :
    Follows depth (Written.held depth f) f := by
  intro w v a made holds
  rw [Written.held, holds] at made
  exact made

theorem Follows.map {α β : Type} {depth : ℕ} {direct : Held Written α} {held : Held Value α}
    (h : Follows depth direct held) (g : α → β) : Follows depth (g <$> direct) (g <$> held) := by
  intro w v b made holds
  change g <$> direct w = .ok b at made
  change g <$> held v = .ok b
  cases first : direct w with
  | error fault =>
    rw [first] at made
    cases made
  | ok a =>
    rw [h w v a first holds, ← first]
    exact made

section Records

variable {σ α : Type} {form : Form σ α} {depth : ℕ}

variable {direct : List (Slot (Held Written) σ)} {held : List (Slot (Held Value) σ)}

theorem intoSlot_follows (h : List.Forall₂ (Slot.Pairs (Follows depth)) direct held)
    (unknown : Unknown) (acc : σ) (name : String) :
    Follows depth (Form.intoSlot unknown direct acc name)
      (Form.intoSlot unknown held acc name) := by
  intro w v acc' made holds
  unfold Form.intoSlot at made ⊢
  rcases Slot.find_pairs h name with ⟨absent, absent'⟩ | ⟨slot, slot', found, found', pair⟩
  · rw [absent] at made
    rw [absent']
    cases unknown with
    | skip => exact made
    | refuse => cases made
  · simp only [found] at made
    simp only [found']
    rw [← pair.filled]
    split_ifs at made ⊢ with filled
    · exact pair.read acc w v acc' made holds

theorem gather_follows (h : List.Forall₂ (Slot.Pairs (Follows depth)) direct held)
    (unknown : Unknown) {ms : List (WrittenText × Written)} {vs : List (String × Value)}
    {acc acc' : σ} (made : ms.foldlM (namedStep (Form.intoSlot unknown direct)) acc = .ok acc')
    (holds : memberValues depth ms = .ok vs) : Form.gather unknown held acc vs = .ok acc' := by
  induction ms generalizing vs acc with
  | nil =>
    cases holds
    exact made
  | cons m ms ih =>
    obtain ⟨t, w⟩ := m
    obtain ⟨name, text, holds⟩ := ok_of_bind holds
    obtain ⟨v, first, holds⟩ := ok_of_bind holds
    obtain ⟨vs, others, holds⟩ := ok_of_bind holds
    cases holds
    rw [List.foldlM_cons, namedStep, text] at made
    obtain ⟨acc₁, step, made⟩ := ok_of_bind made
    have taken := intoSlot_follows h unknown acc name w v acc₁ step first
    rw [Form.gather, taken]
    exact ih made others

theorem ofItemsFrom_follows (h : List.Forall₂ (Slot.Pairs (Follows depth)) direct held)
    {ws : List Written} {vs : List Value} {count : ℕ} {acc : σ} {a : α}
    (made : form.ofItemsFrom direct count acc ws = .ok a) (holds : values depth ws = .ok vs) :
    form.ofItemsFrom held count acc vs = .ok a := by
  induction h generalizing ws vs count acc with
  | nil =>
    cases ws with
    | nil =>
      cases holds
      exact made
    | cons w ws => cases made
  | cons pair pairs ih =>
    cases ws with
    | nil =>
      cases holds
      exact made
    | cons w ws =>
      obtain ⟨v, first, holds⟩ := ok_of_bind holds
      obtain ⟨vs, others, holds⟩ := ok_of_bind holds
      cases holds
      obtain ⟨acc₁, step, made⟩ := ok_of_bind made
      rw [Form.ofItemsFrom, pair.read acc w v acc₁ step first]
      exact ih made others

/-- A record read straight is also made of the value that the text holds. -/
theorem ofWritten_follows {slots : ℕ → List (Slot (Held Written) σ)}
    {held : List (Slot (Held Value) σ)}
    (h : ∀ depth, List.Forall₂ (Slot.Pairs (Follows depth)) (slots depth) held) (depth : ℕ) :
    Follows depth (form.ofWritten slots depth) (form.ofValue held) := by
  intro w v a made holds
  cases w with
  | object members =>
    cases depth with
    | zero => exact absurd made (held_mismatch_ne_ok _ _ _ a)
    | succ depth =>
      obtain ⟨acc, gathered, checked⟩ := ok_of_bind made
      obtain ⟨vs, others, rfl⟩ := ok_of_map holds
      rw [Form.ofValue, Form.ofMembers, gather_follows (h depth) form.unknown gathered others]
      exact checked
  | list items =>
    cases depth with
    | zero => exact absurd made (held_mismatch_ne_ok _ _ _ a)
    | succ depth =>
      obtain ⟨vs, others, rfl⟩ := ok_of_map holds
      exact ofItemsFrom_follows (h depth) made others
  | null => cases depth <;> exact absurd made (held_mismatch_ne_ok _ _ _ a)
  | boolean b => cases depth <;> exact absurd made (held_mismatch_ne_ok _ _ _ a)
  | numeral n => cases depth <;> exact absurd made (held_mismatch_ne_ok _ _ _ a)
  | quoted t => cases depth <;> exact absurd made (held_mismatch_ne_ok _ _ _ a)

end Records

/-- Whether a text is held in memory as something that is taken for `a`. If it cannot be held, one
of few reasons is named. -/
def IsHeldAs {α : Type} (text : String) (held : Value → Except Fault α) (a : α) : Prop :=
  (∃ v, Value.read text = .ok v ∧ held v = .ok a) ∨
    ∃ fault, Value.read text = .error fault ∧ Unheld fault

/-- Of a text that is held the value is known. -/
theorem IsHeldAs.of_read {α : Type} {text : String} {held : Value → Except Fault α} {a : α}
    (h : IsHeldAs text held a) {v : Value} (read : Value.read text = .ok v) :
    held v = .ok a := by
  rcases h with ⟨v', read', made⟩ | ⟨fault, refused, -⟩
  · cases read.symm.trans read'
    exact made
  · cases read.symm.trans refused

/-- What is read of a whole text is also made of the value that the text holds, if any. -/
theorem isHeldAs_of_run {α : Type} {reader : Reader α} {direct : Held Written α}
    {held : Held Value α} (reads : Reads [] reader direct)
    (follows : Follows depthLimit direct held) {text : String} {a : α}
    (h : reader.run text = .ok a) : IsHeldAs text held a := by
  obtain ⟨w, spelled, made⟩ := reads.exists_of_run h
  have read := read_of_isSpelled spelled
  cases holds : w.value depthLimit with
  | ok v => exact .inl ⟨v, read.trans holds, follows w v a made holds⟩
  | error fault => exact .inr ⟨fault, read.trans holds, unheld_of_value holds⟩

end SymbolicRegression.Json
