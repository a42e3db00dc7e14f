import SymbolicRegression.Dataset.Json
import SymbolicRegression.Proofs.Record.Trees

/-!
# Datasets as trees

What target and records a document holds is told by its tree: which members it has, which texts and
numbers they are. The reader of datasets takes exactly these out of a document, whether or not they
go together.
-/
namespace SymbolicRegression

open Json Reader

namespace Json.Written

/-- Whether a document is a list of records. -/
def AreRecords (w : Written) (records : List Record) : Prop :=
  ∃ items, w = .list items ∧ List.Forall₂ IsRecord items records

/-- Whether exactly one of the members has the given name, and what its value is. -/
def HasOnce (members : List (String × Written)) (name : String) (w : Written) : Prop :=
  members.filter (fun member => member.1 = name) = [(name, w)]

/-- Whether a document holds a target and records: as members of an object, among which there may
be others, or as the two items of a list. -/
def HoldsTable (w : Written) (target : String) (records : List Record) : Prop :=
  ∃ t rs : Written, t.IsText target ∧ rs.AreRecords records ∧
    ((∃ members, w.IsObject members ∧ HasOnce members "target" t ∧ HasOnce members "records" rs) ∨
      w = .list [t, rs])

end Json.Written

open Json.Written

namespace Dataset

/-- What a list of records gathers of its items. -/
def recordStep (acc : List Record) (w : Written) : Except Fault (List Record) :=
  (· :: acc) <$> Record.ofWritten w

/-- The records that the tree of a document is. -/
def recordsOf : Written → Except Fault (List Record)
  | .list items => List.reverse <$> items.foldlM recordStep []
  | w => w.held 0 (Value.mismatch "a sequence")

theorem foldlM_recordStep_iff {items : List Written} {acc acc' : List Record} :
    items.foldlM recordStep acc = .ok acc' ↔
      ∃ records, List.Forall₂ IsRecord items records ∧ acc' = records.reverse ++ acc := by
  induction items generalizing acc with
  | nil =>
    constructor
    · intro h
      cases h
      exact ⟨[], .nil, rfl⟩
    · rintro ⟨records, are, rfl⟩
      cases are
      rfl
  | cons w items ih =>
    rw [List.foldlM_cons]
    constructor
    · intro h
      obtain ⟨acc₁, step, h⟩ := ok_of_bind h
      obtain ⟨r, made, rfl⟩ := ok_of_map step
      obtain ⟨records, are, rfl⟩ := ih.mp h
      exact ⟨r :: records, .cons (Record.ofWritten_iff.mp made) are, by simp⟩
    · rintro ⟨records, are, rfl⟩
      cases are with
      | @cons _ r _ records is are =>
        rw [recordStep, Record.ofWritten_iff.mpr is]
        exact ih.mpr ⟨records, are, by simp⟩

theorem recordsOf_iff {w : Written} {records : List Record} :
    recordsOf w = .ok records ↔ w.AreRecords records := by
  constructor
  · intro h
    cases w with
    | list items =>
      obtain ⟨acc, made, rfl⟩ := ok_of_map h
      obtain ⟨records, are, rfl⟩ := foldlM_recordStep_iff.mp made
      exact ⟨items, rfl, by simpa using are⟩
    | null => exact absurd h (held_mismatch_ne_ok _ _ _ _)
    | boolean b => exact absurd h (held_mismatch_ne_ok _ _ _ _)
    | numeral n => exact absurd h (held_mismatch_ne_ok _ _ _ _)
    | quoted t => exact absurd h (held_mismatch_ne_ok _ _ _ _)
    | object members => exact absurd h (held_mismatch_ne_ok _ _ _ _)
  · rintro ⟨items, rfl, are⟩
    rw [recordsOf, foldlM_recordStep_iff.mpr ⟨records, are, rfl⟩]
    change Except.ok (records.reverse ++ []).reverse = _
    simp

/-- What the reader of lists does with each record. -/
def readRecord (depth : ℕ) (acc : List Record) : Reader (List Record) := do
  let r ← Record.read depth
  pure (r :: acc)

theorem listOf_of_list {s rest : List Char} (h : s.dropWhile isBlank = '[' :: rest)
    (depth : ℕ) :
    Reader.listOf Record.read (depth + 1) s =
      (items (readRecord depth) [] >>= fun gathered => pure gathered.reverse) rest := by
  unfold Reader.listOf
  rw [bind_of_ok (peek_eq s), h]
  exact bind_of_ok (advance_run '[' rest)

theorem reads_listOf (depth : ℕ) : Reads [] (Reader.listOf Record.read depth) recordsOf := by
  intro s records rest h
  cases shape : s.dropWhile isBlank with
  | nil =>
    unfold Reader.listOf at h
    rw [bind_of_ok (peek_eq s), shape] at h
    cases h
  | cons c s' =>
    by_cases list : c = '['
    · subst list
      cases depth with
      | zero =>
        unfold Reader.listOf at h
        rw [bind_of_ok (peek_eq s), shape] at h
        cases h
      | succ depth =>
        rw [listOf_of_list shape] at h
        obtain ⟨acc, s₁, gathered, h⟩ := exists_of_bind h
        cases h
        have reads (acc : List Record) : Reads [] (readRecord depth acc) (recordStep acc) := by
          intro s acc' rest h
          obtain ⟨r, s₁, read, h⟩ := exists_of_bind h
          cases h
          obtain ⟨w, spelled, made⟩ := Record.reads_read depth _ _ _ read
          exact ⟨w, spelled, by rw [recordStep, made]; rfl⟩
        obtain ⟨ws, spelled, made⟩ := items_eq_ok reads gathered
        exact ⟨.list ws, ⟨s', shape, spelled⟩, by rw [recordsOf, made]; rfl⟩
    · have refused : mismatch "a sequence" (c :: s') = .ok (records, rest) := by
        rw [← h]
        unfold Reader.listOf
        rw [bind_of_ok (peek_eq s), shape]
        apply congrFun
        split
        next none_ => cases none_
        next same => exact absurd (Option.some.inj same) list
        next => rfl
      exact absurd refused (mismatch_ne_ok _ _)

theorem succeeds_listOf (depth : ℕ) :
    Succeeds (Reader.listOf Record.read (depth + 2)) recordsOf := by
  intro w
  refine goes_of_ok fun records s rest made spelled delimited => ?_
  obtain ⟨items, rfl, are⟩ := recordsOf_iff.mp made
  obtain ⟨s', shape, spelled⟩ := spelled
  have goes (w : Written) (acc : List Record) :
      Goes (fun _ => False) [] (readRecord (depth + 1) acc) (recordStep acc) w := by
    refine goes_of_ok fun acc' s rest made spelled delimited => ?_
    obtain ⟨r, record, rfl⟩ := ok_of_map made
    have read := Record.succeeds_read depth w s rest spelled delimited
    rw [record] at read
    exact bind_of_ok read
  obtain ⟨acc, folded, rfl⟩ := ok_of_map made
  have read : Yields (fun _ => False) (Reader.items (readRecord (depth + 1)) [] s') rest
      (items.foldlM recordStep []) :=
    items_spelled (fun w _ acc => goes w acc) spelled []
  rw [folded] at read
  exact (listOf_of_list shape (depth + 1)).trans (bind_of_ok read)

/-- The fields of a dataset, made of the trees of their values. -/
def writtenSlots : List (Slot (Held Written) Parts) :=
  [ .field "target" Parts.target (fun p s => { p with target := some s })
      (Written.held 0 (Value.asText "a string")),
    .field "records" Parts.records (fun p rs => { p with records := some rs }) recordsOf ]

theorem pairs_reads (depth : ℕ) :
    List.Forall₂ (Slot.Pairs (Reads [])) (slots depth) writtenSlots :=
  .cons (pairs_field _ _ _ fun _ => (reads_text 0 _).map _) <|
  .cons (pairs_field _ _ _ fun _ => (reads_listOf depth).map _) .nil

theorem pairs_succeeds (depth : ℕ) :
    List.Forall₂ (Slot.Pairs Succeeds) (slots (depth + 2)) writtenSlots :=
  .cons (pairs_field _ _ _ fun _ => succeeds_text.map _) <|
  .cons (pairs_field _ _ _ fun _ => (succeeds_listOf depth).map _) .nil

/-- What is gathered under a name: what was there before if no member has the name, and otherwise
what the only one of them is. -/
def Gathers {α : Type} (name : String) (IsA : Written → α → Prop)
    (members : List (String × Written)) (before after : Option α) : Prop :=
  (members.filter (fun member => member.1 = name) = [] ∧ after = before) ∨
    (before = none ∧ ∃ w a, HasOnce members name w ∧ IsA w a ∧ after = some a)

/-- What is gathered of one member. -/
def Takes {α : Type} (name : String) (IsA : Written → α → Prop) (member : String × Written)
    (before after : Option α) : Prop :=
  if member.1 = name then before = none ∧ ∃ a, IsA member.2 a ∧ after = some a
  else after = before

section Gathers

variable {α : Type} {name : String} {IsA : Written → α → Prop}
  {members : List (String × Written)} {w : Written} {before after : Option α}

/-- The first member is taken, and then the others. -/
theorem gathers_cons {member : String × Written} :
    Gathers name IsA (member :: members) before after ↔
      ∃ mid, Takes name IsA member before mid ∧ Gathers name IsA members mid after := by
  obtain ⟨key, w⟩ := member
  unfold Gathers HasOnce Takes
  by_cases same : key = name
  · subst same
    simp only [if_true]
    rw [List.filter_cons_of_pos (by simp)]
    constructor
    · rintro (⟨none_, -⟩ | ⟨rfl, w', a, one, is, rfl⟩)
      · cases none_
      · obtain ⟨same, none_⟩ := List.cons.inj one
        cases same
        exact ⟨some a, ⟨rfl, a, is, rfl⟩, .inl ⟨none_, rfl⟩⟩
    · rintro ⟨mid, ⟨rfl, a, is, rfl⟩, ⟨none_, rfl⟩ | ⟨absent, -⟩⟩
      · exact .inr ⟨rfl, w, a, by rw [none_], is, rfl⟩
      · cases absent
  · simp only [if_neg same, exists_eq_left]
    rw [List.filter_cons_of_neg (by simpa using same)]

theorem gathers_none_some {a : α} :
    Gathers name IsA members none (some a) ↔ ∃ w, HasOnce members name w ∧ IsA w a := by
  constructor
  · rintro (⟨-, absent⟩ | ⟨-, w, a', one, is, same⟩)
    · cases absent
    · cases same
      exact ⟨w, one, is⟩
  · rintro ⟨w, one, is⟩
    exact .inr ⟨rfl, w, a, one, is, rfl⟩

end Gathers

theorem intoSlot_target (acc : Parts) (w : Written) :
    Form.intoSlot .skip writtenSlots acc "target" w =
      if acc.target.isSome then .error (.content (.duplicateField "target"))
      else (fun s => { acc with target := some s }) <$> w.held 0 (Value.asText "a string") := rfl

theorem intoSlot_records (acc : Parts) (w : Written) :
    Form.intoSlot .skip writtenSlots acc "records" w =
      if acc.records.isSome then .error (.content (.duplicateField "records"))
      else (fun rs => { acc with records := some rs }) <$> recordsOf w := rfl

theorem intoSlot_of_ne {name : String} (target : name ≠ "target") (records : name ≠ "records")
    (acc : Parts) (w : Written) : Form.intoSlot .skip writtenSlots acc name w = .ok acc := by
  have none_ : writtenSlots.find? (fun slot => slot.name = name) = none := by
    rw [List.find?_eq_none]
    simp [writtenSlots, Slot.field, Ne.symm target, Ne.symm records]
  rw [Form.intoSlot, none_]

/-- A field that has been filled is not read again. -/
theorem fill_eq_ok_iff {α : Type} {before : Option α} {fault : Fault} {value : Except Fault α}
    {put : α → Parts} {acc : Parts} :
    (if before.isSome then .error fault else put <$> value) = .ok acc ↔
      before = none ∧ ∃ a, value = .ok a ∧ put a = acc := by
  cases before with
  | some a =>
    constructor
    · intro h
      cases h
    · rintro ⟨absent, -⟩
      cases absent
  | none =>
    constructor
    · intro h
      exact ⟨rfl, ok_of_map h⟩
    · rintro ⟨-, a, made, rfl⟩
      rw [made]
      rfl

theorem intoSlot_iff {acc acc' : Parts} {name : String} {w : Written} :
    Form.intoSlot .skip writtenSlots acc name w = .ok acc' ↔
      Takes "target" IsText (name, w) acc.target acc'.target ∧
        Takes "records" AreRecords (name, w) acc.records acc'.records := by
  obtain ⟨target, records⟩ := acc
  obtain ⟨target', records'⟩ := acc'
  unfold Takes
  by_cases isTarget : name = "target"
  · subst isTarget
    have other : ¬"target" = "records" := by decide
    rw [intoSlot_target, fill_eq_ok_iff, if_pos rfl, if_neg other]
    simp only [held_text_iff, Parts.mk.injEq]
    constructor
    · rintro ⟨rfl, s, is, rfl, rfl⟩
      exact ⟨⟨rfl, s, is, rfl⟩, rfl⟩
    · rintro ⟨⟨rfl, s, is, rfl⟩, rfl⟩
      exact ⟨rfl, s, is, rfl, rfl⟩
  by_cases areRecords : name = "records"
  · subst areRecords
    rw [intoSlot_records, fill_eq_ok_iff, if_neg isTarget, if_pos rfl]
    simp only [recordsOf_iff, Parts.mk.injEq]
    constructor
    · rintro ⟨rfl, rs, are, rfl, rfl⟩
      exact ⟨rfl, rfl, rs, are, rfl⟩
    · rintro ⟨rfl, rfl, rs, are, rfl⟩
      exact ⟨rfl, rs, are, rfl, rfl⟩
  · rw [intoSlot_of_ne isTarget areRecords, if_neg isTarget, if_neg areRecords]
    constructor
    · intro h
      cases h
      exact ⟨rfl, rfl⟩
    · rintro ⟨rfl, rfl⟩
      rfl

/-- Of the members of an object exactly the target and the records are gathered. -/
theorem foldlM_intoSlot_iff {ms : List (WrittenText × Written)} {acc acc' : Parts} :
    ms.foldlM (namedStep (Form.intoSlot .skip writtenSlots)) acc = .ok acc' ↔
      ∃ members, AreNamed ms members ∧
        Gathers "target" IsText members acc.target acc'.target ∧
        Gathers "records" AreRecords members acc.records acc'.records := by
  induction ms generalizing acc with
  | nil =>
    constructor
    · intro h
      cases h
      exact ⟨[], .nil, .inl ⟨rfl, rfl⟩, .inl ⟨rfl, rfl⟩⟩
    · rintro ⟨members, named, target, records⟩
      cases named
      obtain ⟨-, target⟩ | ⟨-, w, a, absent, -⟩ := target
      · obtain ⟨-, records⟩ | ⟨-, w, a, absent, -⟩ := records
        · obtain ⟨target', records'⟩ := acc'
          cases target
          cases records
          rfl
        · cases absent
      · cases absent
  | cons m ms ih =>
    obtain ⟨t, w⟩ := m
    rw [List.foldlM_cons]
    constructor
    · intro h
      obtain ⟨acc₁, step, h⟩ := ok_of_bind h
      obtain ⟨name, text, step⟩ := ok_of_bind step
      obtain ⟨members, named, target, records⟩ := ih.mp h
      obtain ⟨first, second⟩ := intoSlot_iff.mp step
      exact ⟨(name, w) :: members, .cons ⟨text, rfl⟩ named,
        gathers_cons.mpr ⟨_, first, target⟩, gathers_cons.mpr ⟨_, second, records⟩⟩
    · rintro ⟨members, named, target, records⟩
      cases named with
      | @cons _ member _ members this named =>
        obtain ⟨name, w⟩ := member
        obtain ⟨text, rfl⟩ := this
        obtain ⟨target₁, first, target⟩ := gathers_cons.mp target
        obtain ⟨records₁, second, records⟩ := gathers_cons.mp records
        rw [namedStep, text]
        change Form.intoSlot .skip writtenSlots acc name _ >>= _ = _
        have step : Form.intoSlot .skip writtenSlots acc name _ = .ok ⟨target₁, records₁⟩ :=
          intoSlot_iff.mpr ⟨first, second⟩
        rw [step]
        exact ih.mpr ⟨members, named, target, records⟩

theorem check_eq_ok_iff {parts : Parts} {target : String} {records : List Record} :
    form.check parts = .ok (target, records) ↔ parts = ⟨some target, some records⟩ := by
  obtain ⟨target', records'⟩ := parts
  constructor
  · intro h
    cases target' with
    | none => cases h
    | some target' =>
      cases records' with
      | none => cases h
      | some records' =>
        cases h
        rfl
  · intro h
    cases h
    rfl

/-- Of the items of a list the first is the target and the second are the records. -/
theorem ofItems_eq_ok_iff {items : List Written} {target : String} {records : List Record} :
    form.ofItems writtenSlots items = .ok (target, records) ↔
      ∃ t rs : Written, items = [t, rs] ∧ t.IsText target ∧ rs.AreRecords records := by
  constructor
  · intro h
    cases items with
    | nil => cases h
    | cons t items =>
      obtain ⟨acc₁, first, h⟩ := ok_of_bind h
      obtain ⟨s, text, rfl⟩ := ok_of_map first
      cases items with
      | nil => cases h
      | cons rs items =>
        obtain ⟨acc₂, second, h⟩ := ok_of_bind h
        obtain ⟨records', made, rfl⟩ := ok_of_map second
        cases items with
        | cons w items => cases h
        | nil =>
          cases h
          exact ⟨t, rs, rfl, held_text_iff.mp text, recordsOf_iff.mp made⟩
  · rintro ⟨t, rs, rfl, text, are⟩
    change (_ <$> t.held 0 (Value.asText "a string")) >>= _ = _
    rw [held_text_iff.mpr text]
    change (_ <$> recordsOf rs) >>= _ = _
    rw [recordsOf_iff.mpr are]
    rfl

/-- The slots of a dataset make of a document what it holds. -/
theorem ofWritten_iff {depth : ℕ} {w : Written} {target : String} {records : List Record} :
    form.ofWritten (fun _ => writtenSlots) (depth + 1) w = .ok (target, records) ↔
      w.HoldsTable target records := by
  constructor
  · intro h
    cases w with
    | object ms =>
      obtain ⟨parts, gathered, checked⟩ := ok_of_bind h
      obtain ⟨members, named, first, second⟩ := foldlM_intoSlot_iff.mp gathered
      rw [check_eq_ok_iff.mp checked] at first second
      obtain ⟨t, one, text⟩ := gathers_none_some.mp first
      obtain ⟨rs, one', are⟩ := gathers_none_some.mp second
      exact ⟨t, rs, text, are, .inl ⟨members, ⟨ms, rfl, named⟩, one, one'⟩⟩
    | list items =>
      obtain ⟨t, rs, rfl, text, are⟩ := ofItems_eq_ok_iff.mp h
      exact ⟨t, rs, text, are, .inr rfl⟩
    | null => exact absurd h (held_mismatch_ne_ok _ _ _ _)
    | boolean b => exact absurd h (held_mismatch_ne_ok _ _ _ _)
    | numeral n => exact absurd h (held_mismatch_ne_ok _ _ _ _)
    | quoted t => exact absurd h (held_mismatch_ne_ok _ _ _ _)
  · rintro ⟨t, rs, text, are, ⟨members, ⟨ms, rfl, named⟩, one, one'⟩ | rfl⟩
    · have gathered : ms.foldlM (namedStep (Form.intoSlot form.unknown writtenSlots)) form.empty =
          .ok ⟨some target, some records⟩ :=
        foldlM_intoSlot_iff.mpr ⟨members, named, gathers_none_some.mpr ⟨t, one, text⟩,
          gathers_none_some.mpr ⟨rs, one', are⟩⟩
      rw [Form.ofWritten, gathered]
      rfl
    · exact ofItems_eq_ok_iff.mpr ⟨t, rs, rfl, text, are⟩

end Dataset

end SymbolicRegression
