import SymbolicRegression.Proofs.Json.Gathering
import SymbolicRegression.Proofs.Json.Nesting

/-!
# Records that name what they hold

A record whose fields may all be left open, and that refuses every other name, is read of an object
exactly if each name is one of its fields and stands there once, with a value that the field can
take. What such an object names is then told by the record that is read.
-/
namespace SymbolicRegression.Json

open Written

variable {V σ ι α : Type}

namespace Fields

/-- Whether names are those of fields, none of them listed twice. -/
def NamesOnce (f : Fields ι σ) (names : List String) : Prop :=
  names.Nodup ∧ ∀ name ∈ names, ∃ i, name = f.name i

/-- Whether members give values to fields, to each one at most, and to nothing else. -/
def Gives (f : Fields ι σ) (IsA : (i : ι) → V → f.Value i → Prop) (members : List (String × V))
    (values : (i : ι) → Option (f.Value i)) : Prop :=
  (∀ member ∈ members, ∃ i, member.1 = f.name i) ∧
    ∀ i, List.Forall₂ (IsA i) (under members (f.name i)) (values i).toList

variable {f : Fields ι σ}

theorem length_under (members : List (String × V)) (name : String) :
    (under members name).length = (members.map Prod.fst).count name := by
  rw [under, List.length_map, List.count, List.countP_map, List.countP_eq_length_filter]
  rfl

theorem Gives.namesOnce {IsA : (i : ι) → V → f.Value i → Prop} {members : List (String × V)}
    {values : (i : ι) → Option (f.Value i)} (h : f.Gives IsA members values) :
    f.NamesOnce (members.map Prod.fst) := by
  obtain ⟨known, given⟩ := h
  have known' : ∀ name ∈ members.map Prod.fst, ∃ i, name = f.name i :=
    List.forall_mem_map.mpr known
  refine ⟨List.nodup_iff_count_le_one.mpr fun name => ?_, known'⟩
  by_cases listed : name ∈ members.map Prod.fst
  · obtain ⟨i, rfl⟩ := known' name listed
    rw [← length_under, (given i).length_eq]
    exact Option.length_toList_le
  · rw [List.count_eq_zero_of_not_mem listed]
    exact Nat.zero_le 1

theorem gives_congr {IsA IsB : (i : ι) → V → f.Value i → Prop}
    (h : ∀ i v a, IsA i v a ↔ IsB i v a) {members : List (String × V)}
    {values : (i : ι) → Option (f.Value i)} :
    f.Gives IsA members values ↔ f.Gives IsB members values := by
  have same : IsA = IsB := funext fun i => funext fun v => funext fun a => propext (h i v a)
  rw [same]

/-- A record without open requirements gathers exactly what it is given. -/
theorem AreReadBy.gather_refuse_iff {slots : List (Slot (Held V) σ)}
    {value : (i : ι) → Held V (f.Value i)} (h : f.AreReadBy slots value) {empty acc : σ}
    (opened : ∀ i, f.get empty i = none) {members : List (String × V)} :
    Form.gather .refuse slots empty members = .ok acc ↔
      f.Gives (fun i v a => value i v = .ok a) members (f.get acc) := by
  rw [h.gather_iff, Gives]
  refine and_congr (by simp) (forall_congr' fun i => ?_)
  rw [opened i, fills_none_iff]

end Fields

section Written

variable {f : Fields ι σ} {slots : List (Slot (Held Written) σ)}

/-- Members are gathered behind their names. -/
theorem foldlM_intoSlot_iff {unknown : Unknown} {ms : List (WrittenText × Written)} {acc acc' : σ} :
    ms.foldlM (namedStep (Form.intoSlot unknown slots)) acc = .ok acc' ↔
      ∃ members, AreNamed ms members ∧ Form.gather unknown slots acc members = .ok acc' := by
  induction ms generalizing acc with
  | nil =>
    constructor
    · intro h
      exact ⟨[], .nil, h⟩
    · rintro ⟨members, ⟨⟩, h⟩
      exact h
  | cons m ms ih =>
    obtain ⟨t, w⟩ := m
    rw [List.foldlM_cons]
    constructor
    · intro h
      obtain ⟨mid, step, h⟩ := ok_of_bind h
      obtain ⟨name, text, step⟩ := ok_of_bind step
      obtain ⟨members, named, gathered⟩ := ih.mp h
      refine ⟨(name, w) :: members, .cons ⟨text, rfl⟩ named, ?_⟩
      rw [Form.gather, step]
      exact gathered
    · rintro ⟨members, named, h⟩
      obtain _ | ⟨⟨text, rfl⟩, named⟩ := named
      obtain ⟨mid, step, gathered⟩ := ok_of_bind h
      rw [namedStep, text]
      change Form.intoSlot unknown slots acc _ _ >>= _ = _
      rw [step]
      exact ih.mpr ⟨_, named, gathered⟩

/-- Slots of the same fields are related if the ways of reading their values are. -/
theorem Fields.pairs_slots {m n : Type → Type} [Functor m] [Functor n] (f : Fields ι σ)
    (all : List ι) {first : (i : ι) → m (f.Value i)} {second : (i : ι) → n (f.Value i)}
    {related : m σ → n σ → Prop}
    (h : ∀ i (g : f.Value i → σ), related (g <$> first i) (g <$> second i)) :
    List.Forall₂ (Slot.Pairs related) (f.slots all first) (f.slots all second) := by
  rw [slots, slots, List.forall₂_map_left_iff, List.forall₂_map_right_iff]
  exact List.forall₂_same.mpr fun i _ => pairs_field _ _ _ fun acc => h i (f.put acc i)

/-- A record that refuses other names is read of the objects that give its fields what it holds. -/
theorem ofWritten_object_iff {form : Form σ α} {slots : ℕ → List (Slot (Held Written) σ)}
    {depth : ℕ} {value : (i : ι) → Held Written (f.Value i)}
    (reads : f.AreReadBy (slots depth) value) (refuse : form.unknown = .refuse)
    (opened : ∀ i, f.get form.empty i = none) {ms : List (WrittenText × Written)} {a : α} :
    form.ofWritten slots (depth + 1) (.object ms) = .ok a ↔
      ∃ members acc, AreNamed ms members ∧
        f.Gives (fun i w a => value i w = .ok a) members (f.get acc) ∧ form.check acc = .ok a := by
  constructor
  · intro h
    obtain ⟨acc, gathered, checked⟩ := ok_of_bind h
    obtain ⟨members, named, gathered⟩ := foldlM_intoSlot_iff.mp gathered
    rw [refuse, reads.gather_refuse_iff opened] at gathered
    exact ⟨members, acc, named, gathered, checked⟩
  · rintro ⟨members, acc, named, gives, checked⟩
    have gathered := (reads.gather_refuse_iff opened).mpr gives
    rw [← refuse] at gathered
    rw [Form.ofWritten, foldlM_intoSlot_iff.mpr ⟨members, named, gathered⟩]
    exact checked

/-- Whether all documents of which something is made hold a value. -/
def AreHeld (depth : ℕ) (meaning : Held Written α) : Prop :=
  ∀ w a, meaning w = .ok a → ∃ v, w.value depth = .ok v

/-- What is held without any brackets is held at any depth. -/
theorem areHeld_held (depth : ℕ) (g : Value → Except Fault α) :
    AreHeld depth (Written.held 0 g) := by
  intro w a made
  obtain ⟨v, held, -⟩ := ok_of_bind made
  obtain ⟨flat, always⟩ := needs_value w 0 v held
  exact ⟨v, always depth (flat.trans (Nat.zero_le depth))⟩

theorem AreHeld.map {β : Type} {depth : ℕ} {meaning : Held Written α} (h : AreHeld depth meaning)
    (g : α → β) : AreHeld depth (g <$> meaning) := by
  intro w b made
  change g <$> meaning w = .ok b at made
  obtain ⟨a, first, -⟩ := ok_of_map made
  exact h w a first

section AreHeld

variable {depth : ℕ} (held : ∀ slot ∈ slots, ∀ acc, AreHeld depth (slot.read acc))

include held

theorem areHeld_intoSlot (acc : σ) (name : String) :
    AreHeld depth (Form.intoSlot .refuse slots acc name) := by
  intro w acc' made
  unfold Form.intoSlot at made
  cases found : slots.find? (fun slot => slot.name = name) with
  | none =>
    rw [found] at made
    cases made
  | some slot =>
    simp only [found] at made
    split_ifs at made
    exact held slot (List.mem_of_find?_eq_some found) acc w acc' made

theorem exists_memberValues {ms : List (WrittenText × Written)} {acc acc' : σ}
    (made : ms.foldlM (namedStep (Form.intoSlot .refuse slots)) acc = .ok acc') :
    ∃ vs, memberValues depth ms = .ok vs := by
  induction ms generalizing acc with
  | nil => exact ⟨[], rfl⟩
  | cons m ms ih =>
    obtain ⟨t, w⟩ := m
    rw [List.foldlM_cons] at made
    obtain ⟨mid, step, made⟩ := ok_of_bind made
    obtain ⟨name, text, step⟩ := ok_of_bind step
    obtain ⟨v, first⟩ := areHeld_intoSlot held acc name w mid step
    obtain ⟨vs, others⟩ := ih made
    exact ⟨(name, v) :: vs, by rw [memberValues, text, first, others]; rfl⟩

theorem exists_values_of_ofItemsFrom {form : Form σ α} {count : ℕ} {acc : σ} {ws : List Written}
    {a : α} (made : form.ofItemsFrom slots count acc ws = .ok a) :
    ∃ vs, values depth ws = .ok vs := by
  induction slots generalizing count acc ws with
  | nil =>
    cases ws with
    | nil => exact ⟨[], rfl⟩
    | cons w ws => cases made
  | cons slot slots ih =>
    cases ws with
    | nil => exact ⟨[], rfl⟩
    | cons w ws =>
      obtain ⟨mid, step, made⟩ := ok_of_bind made
      obtain ⟨front, behind⟩ := List.forall_mem_cons.mp held
      obtain ⟨v, first⟩ := front acc w mid step
      obtain ⟨vs, others⟩ := ih behind made
      exact ⟨v :: vs, by rw [values, first, others]; rfl⟩

end AreHeld

/-- A record that refuses other names is made only of what holds a value. -/
theorem areHeld_ofWritten {form : Form σ α} (refuse : form.unknown = .refuse)
    {slots : ℕ → List (Slot (Held Written) σ)}
    (held : ∀ depth, ∀ slot ∈ slots depth, ∀ acc, AreHeld depth (slot.read acc)) (depth : ℕ) :
    AreHeld depth (form.ofWritten slots depth) := by
  intro w a made
  cases w with
  | object ms =>
    cases depth with
    | zero => exact absurd made (held_mismatch_ne_ok _ _ _ a)
    | succ depth =>
      obtain ⟨acc, gathered, -⟩ := ok_of_bind made
      rw [refuse] at gathered
      obtain ⟨vs, held⟩ := exists_memberValues (held depth) gathered
      exact ⟨.object vs, by rw [Written.value, held]; rfl⟩
  | list items =>
    cases depth with
    | zero => exact absurd made (held_mismatch_ne_ok _ _ _ a)
    | succ depth =>
      obtain ⟨vs, held⟩ := exists_values_of_ofItemsFrom (held depth) made
      exact ⟨.list vs, by rw [Written.value, held]; rfl⟩
  | null => cases depth <;> exact absurd made (held_mismatch_ne_ok _ _ _ a)
  | boolean b => cases depth <;> exact absurd made (held_mismatch_ne_ok _ _ _ a)
  | numeral n => cases depth <;> exact absurd made (held_mismatch_ne_ok _ _ _ a)
  | quoted t => cases depth <;> exact absurd made (held_mismatch_ne_ok _ _ _ a)

theorem Fields.areHeld_slots (f : Fields ι σ) (all : List ι) {depth : ℕ}
    {value : (i : ι) → Held Written (f.Value i)} (h : ∀ i, AreHeld depth (value i)) :
    ∀ slot ∈ f.slots all value, ∀ acc, AreHeld depth (slot.read acc) :=
  List.forall_mem_map.mpr fun i _ acc => (h i).map (f.put acc i)

/-- What an object holds that a record is read of: the fields of the record, and nothing else. -/
theorem exists_gives_of_made {form : Form σ α} {slots : ℕ → List (Slot (Held Written) σ)}
    {depth : ℕ} {value : (i : ι) → Held Written (f.Value i)}
    (reads : f.AreReadBy (slots depth) value) (refuse : form.unknown = .refuse)
    (opened : ∀ i, f.get form.empty i = none) {w : Written} {a : α} {vs : List (String × Value)}
    (made : form.ofWritten slots (depth + 1) w = .ok a)
    (held : w.value (depth + 1) = .ok (.object vs)) :
    ∃ members acc, MembersHold depth members vs ∧
      f.Gives (fun i w a => value i w = .ok a) members (f.get acc) := by
  obtain ⟨_, _, -, ⟨ms, rfl, -⟩, -⟩ := exists_object_of_value held
  obtain ⟨members, acc, named, gives, -⟩ := (ofWritten_object_iff reads refuse opened).mp made
  obtain ⟨vs', same, inside⟩ := Written.IsObject.exists_of_value ⟨ms, rfl, named⟩ held
  cases same
  exact ⟨members, acc, inside, gives⟩

/-- An object that holds a value for every field gives the fields what these values are. -/
theorem Fields.exists_gives_of_value (f : Fields ι σ) {all : List ι} (distinct : all.Nodup)
    (complete : ∀ i, i ∈ all) {val : ι → Json.Value} {IsA : (i : ι) → Written → f.Value i → Prop}
    {a : (i : ι) → f.Value i} {depth : ℕ}
    (is : ∀ i (u : Written), u.value depth = .ok (val i) → IsA i u (a i)) {w : Written}
    (held : w.value (depth + 1) = .ok (.object (all.map fun i => (f.name i, val i)))) :
    ∃ members, w.IsObject members ∧ f.Gives IsA members fun i => some (a i) := by
  obtain ⟨_, ws, -, object, -⟩ := exists_object_of_value held
  obtain ⟨vs, same, inside⟩ := object.exists_of_value held
  cases same
  refine ⟨_, object, fun member mem => ?_, fun i => ?_⟩
  · have listed := List.mem_map_of_mem (f := Prod.fst) mem
    rw [inside.names, List.map_map] at listed
    obtain ⟨i, -, same⟩ := List.mem_map.mp listed
    exact ⟨i, same.symm⟩
  · have names : ((all.map fun i => (f.name i, val i)).map Prod.fst).Nodup := by
      rw [List.map_map]
      exact distinct.map f.name_injective
    have alone : (all.map fun i => (f.name i, val i)).Perm
        ((all.map fun i => (f.name i, val i)) ++ []) := by rw [List.append_nil]
    have once : under (all.map fun i => (f.name i, val i)) (f.name i) = [val i] :=
      under_of_listed alone names (by simp) (f.name i, val i)
        (List.mem_map.mpr ⟨i, complete i, rfl⟩)
    have values := inside.under (f.name i)
    rw [once] at values
    change List.Forall₂ (IsA i) (under _ (f.name i)) [a i]
    generalize under _ (f.name i) = found at values ⊢
    obtain _ | ⟨held, ⟨⟩⟩ := values
    exact .cons (is i _ held) .nil

end Written
end SymbolicRegression.Json
