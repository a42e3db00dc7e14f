import Mathlib.Data.List.Perm.Basic
import SymbolicRegression.Json.Fields
import SymbolicRegression.Proofs.Json.Reading

/-!
# Members in any order

What a record gathers of the members of an object depends on the values listed under each name, and
not on how the names are mixed. A field comes from the only value under its name, and is left open
if there is none; two values under one name are refused, and so is a name that is no field, unless
such members are left out.
-/
namespace SymbolicRegression.Json

variable {V σ ι : Type}

/-- The values listed under a name, in their order. -/
def under (members : List (String × V)) (name : String) : List V :=
  (members.filter fun member => member.1 = name).map Prod.snd

theorem under_cons_self (name : String) (v : V) (members : List (String × V)) :
    under ((name, v) :: members) name = v :: under members name := by
  unfold under
  rw [List.filter_cons_of_pos (by simp), List.map_cons]

theorem under_cons_of_ne {key name : String} (h : key ≠ name) (v : V)
    (members : List (String × V)) : under ((key, v) :: members) name = under members name := by
  unfold under
  rw [List.filter_cons_of_neg (by simpa using h)]

theorem under_append (first second : List (String × V)) (name : String) :
    under (first ++ second) name = under first name ++ under second name := by
  simp only [under, List.filter_append, List.map_append]

theorem under_eq_nil_iff {members : List (String × V)} {name : String} :
    under members name = [] ↔ ∀ member ∈ members, member.1 ≠ name := by
  simp [under]

theorem mem_under {members : List (String × V)} {name : String} {v : V} :
    v ∈ under members name ↔ (name, v) ∈ members := by
  simp [under]

/-- The order of the members makes no difference to a name that is listed at most once. -/
theorem under_of_perm {first second : List (String × V)} (h : first.Perm second) {name : String}
    {v : V} (once : under second name = [v]) : under first name = [v] := by
  have same : (under first name).Perm (under second name) := (h.filter _).map _
  rw [once] at same
  exact List.perm_singleton.mp same

/-- Members that are left out make no difference to other names. -/
theorem under_filter {p : String × V → Bool} {name : String}
    (h : ∀ member : String × V, member.1 = name → p member = true) (members : List (String × V)) :
    under (members.filter p) name = under members name := by
  unfold under
  rw [List.filter_filter]
  congr 1
  refine List.filter_congr fun member _ => ?_
  by_cases same : member.1 = name
  · simp [same, h member same]
  · simp [same]

theorem under_map {W : Type} (g : V → W) (members : List (String × V)) (name : String) :
    under (members.map fun member => (member.1, g member.2)) name = (under members name).map g := by
  unfold under
  rw [List.filter_map, List.map_map, List.map_map]
  rfl

/-- Members that are related under the same names are related under each name. -/
theorem forall₂_under {W : Type} {R : V → W → Prop} {first : List (String × V)}
    {second : List (String × W)}
    (h : List.Forall₂ (fun a b => a.1 = b.1 ∧ R a.2 b.2) first second) (name : String) :
    List.Forall₂ R (under first name) (under second name) := by
  induction h with
  | nil => exact .nil
  | @cons a b first second this others ih =>
    obtain ⟨key, v⟩ := a
    obtain ⟨key', w⟩ := b
    obtain ⟨rfl, related⟩ := this
    by_cases same : key = name
    · subst same
      rw [under_cons_self, under_cons_self]
      exact .cons related ih
    · rwa [under_cons_of_ne same, under_cons_of_ne same]

/-- What is listed is related to something that is. -/
theorem exists_mem_of_forall₂ {W : Type} {R : V → W → Prop} {first : List V} {second : List W}
    (h : List.Forall₂ R first second) {a : V} (mem : a ∈ first) : ∃ b ∈ second, R a b := by
  induction h with
  | nil => cases mem
  | @cons a' b first second related others ih =>
    rcases List.mem_cons.mp mem with rfl | mem
    · exact ⟨b, List.mem_cons_self, related⟩
    · obtain ⟨c, listed, related⟩ := ih mem
      exact ⟨c, List.mem_cons_of_mem _ listed, related⟩

/-- Each of several members is the only one under its name, if their names differ and no others
share them. -/
theorem under_of_listed {members fields others : List (String × V)}
    (h : members.Perm (fields ++ others)) (differ : (fields.map Prod.fst).Nodup)
    (apart : ∀ other ∈ others, other.1 ∉ fields.map Prod.fst) :
    ∀ field ∈ fields, under members field.1 = [field.2] := by
  intro field listed
  have own : under fields field.1 = [field.2] := by
    clear h apart
    induction fields with
    | nil => cases listed
    | cons first fields ih =>
      obtain ⟨name, v⟩ := first
      obtain ⟨new, differ⟩ := List.nodup_cons.mp differ
      rcases List.mem_cons.mp listed with rfl | listed
      · rw [under_cons_self, under_eq_nil_iff.mpr]
        exact fun member mem same => new (List.mem_map.mpr ⟨member, mem, same⟩)
      · have ne : name ≠ field.1 := fun same => new (List.mem_map.mpr ⟨field, listed, same.symm⟩)
        rw [under_cons_of_ne ne, ih differ listed]
  have none_ : under others field.1 = [] :=
    under_eq_nil_iff.mpr fun other mem same => apart other mem (same ▸ List.mem_map_of_mem listed)
  refine under_of_perm h ?_
  rw [under_append, own, none_]
  rfl

/-- What comes of a field that may be filled already, and of the values listed for it: together
they are one at most. -/
inductive Fills {α : Type} (value : Held V α) : List V → Option α → Option α → Prop
  | left (before : Option α) : Fills value [] before before
  | filled {v : V} {a : α} (made : value v = .ok a) : Fills value [v] none (some a)

section Fills

variable {α : Type} {value : Held V α}

theorem fills_cons_iff {v : V} {vs : List V} {before after : Option α} :
    Fills value (v :: vs) before after ↔
      before = none ∧ vs = [] ∧ ∃ a, value v = .ok a ∧ after = some a := by
  constructor
  · rintro (_ | made)
    exact ⟨rfl, rfl, _, made, rfl⟩
  · rintro ⟨rfl, rfl, a, made, rfl⟩
    exact .filled made

theorem fills_nil_iff {before after : Option α} : Fills value [] before after ↔ after = before := by
  constructor
  · rintro ⟨⟩
    rfl
  · rintro rfl
    exact .left _

/-- A field that has been filled takes no further value. -/
theorem fills_some_iff {vs : List V} {a : α} {after : Option α} :
    Fills value vs (some a) after ↔ vs = [] ∧ after = some a := by
  cases vs with
  | nil => simp [fills_nil_iff]
  | cons v vs => simp [fills_cons_iff]

/-- An open field takes the only value listed for it, if there is one. -/
theorem fills_none_iff {vs : List V} {after : Option α} :
    Fills value vs none after ↔ List.Forall₂ (fun v a => value v = .ok a) vs after.toList := by
  cases vs with
  | nil => cases after <;> simp [fills_nil_iff]
  | cons v vs => cases after <;> simp [fills_cons_iff, and_comm]

end Fills

/-- The fields of a record that is being gathered in `σ`: each is open or filled by itself, and
together they are all there is. -/
structure Fields (ι σ : Type) where
  name : ι → String
  Value : ι → Type
  get : σ → (i : ι) → Option (Value i)
  put : σ → (i : ι) → Value i → σ
  name_injective : Function.Injective name
  get_put_self : ∀ acc i a, get (put acc i a) i = some a
  get_put_of_ne : ∀ acc i a j, j ≠ i → get (put acc i a) j = get acc j
  ext : ∀ acc acc', (∀ i, get acc i = get acc' i) → acc = acc'

namespace Fields

/-- A record of a single field. -/
def single (name : String) (α : Type) : Fields Unit (Option α) where
  name _ := name
  Value _ := α
  get acc _ := acc
  put _ _ a := some a
  name_injective _ _ _ := rfl
  get_put_self _ _ _ := rfl
  get_put_of_ne _ _ _ _ h := absurd rfl h
  ext _ _ h := h ()

/-- Whether slots read the fields in the given way, and nothing else. -/
structure AreReadBy (f : Fields ι σ) (slots : List (Slot (Held V) σ))
    (value : (i : ι) → Held V (f.Value i)) : Prop where
  find : ∀ i, slots.find? (fun slot => slot.name = f.name i) =
    some (.field (f.name i) (fun acc => f.get acc i) (fun acc a => f.put acc i a) (value i))
  only : ∀ slot ∈ slots, ∃ i, slot.name = f.name i

/-- The slots of fields, each read in a way of its own. -/
def slots {m : Type → Type} [Functor m] (f : Fields ι σ) (all : List ι)
    (value : (i : ι) → m (f.Value i)) : List (Slot m σ) :=
  all.map fun i =>
    .field (f.name i) (fun acc => f.get acc i) (fun acc a => f.put acc i a) (value i)

theorem areReadBy_slots (f : Fields ι σ) {all : List ι} (complete : ∀ i, i ∈ all)
    (value : (i : ι) → Held V (f.Value i)) : f.AreReadBy (f.slots all value) value where
  find i := by
    rw [slots, List.find?_map]
    have own : all.find? (fun j => f.name j = f.name i) = some i := by
      cases found : all.find? (fun j => f.name j = f.name i) with
      | none => exact absurd (decide_eq_true rfl) (List.find?_eq_none.mp found i (complete i))
      | some j =>
        have hit := List.find?_some found
        exact congrArg some (f.name_injective (of_decide_eq_true hit))
    exact congrArg (Option.map _) own
  only slot member := by
    obtain ⟨i, -, rfl⟩ := List.mem_map.mp member
    exact ⟨i, rfl⟩

theorem areReadBy_single {α : Type} (name : String) (value : Held V α) :
    (single name α).AreReadBy [.field name id (fun _ a => some a) value] fun _ => value :=
  (single name α).areReadBy_slots (fun _ => List.mem_singleton_self ()) fun _ => value

variable {f : Fields ι σ} {slots : List (Slot (Held V) σ)} {value : (i : ι) → Held V (f.Value i)}
  {unknown : Unknown} {acc acc' : σ}

theorem AreReadBy.intoSlot_iff (h : f.AreReadBy slots value) {i : ι} {v : V} :
    Form.intoSlot unknown slots acc (f.name i) v = .ok acc' ↔
      f.get acc i = none ∧ ∃ a, value i v = .ok a ∧ f.put acc i a = acc' := by
  have slot : Form.intoSlot unknown slots acc (f.name i) v =
      if (f.get acc i).isSome then .error (.content (.duplicateField (f.name i)))
      else f.put acc i <$> value i v := by
    unfold Form.intoSlot
    rw [h.find i]
    rfl
  rw [slot]
  cases f.get acc i with
  | some a =>
    constructor
    · intro refused
      cases refused
    · rintro ⟨filled, -⟩
      cases filled
  | none =>
    constructor
    · intro made
      exact ⟨rfl, ok_of_map made⟩
    · rintro ⟨-, a, made, rfl⟩
      rw [made]
      rfl

theorem AreReadBy.intoSlot_of_ne (h : f.AreReadBy slots value) {name : String}
    (other : ∀ i, name ≠ f.name i) {v : V} :
    Form.intoSlot unknown slots acc name v = .ok acc' ↔ unknown = .skip ∧ acc = acc' := by
  have absent : slots.find? (fun slot => slot.name = name) = none := by
    rw [List.find?_eq_none]
    intro slot member same
    obtain ⟨i, named⟩ := h.only slot member
    exact other i ((of_decide_eq_true same).symm.trans named)
  unfold Form.intoSlot
  rw [absent]
  cases unknown <;> simp

/-- Members are gathered if all of them are fields, or those that are not are left out, and if of
each field there is one at most; the fields are then what is listed under their names. -/
theorem AreReadBy.gather_iff (h : f.AreReadBy slots value) {members : List (String × V)} :
    Form.gather unknown slots acc members = .ok acc' ↔
      (unknown = .refuse → ∀ member ∈ members, ∃ i, member.1 = f.name i) ∧
        ∀ i, Fills (value i) (under members (f.name i)) (f.get acc i) (f.get acc' i) := by
  induction members generalizing acc with
  | nil =>
    constructor
    · intro done
      cases done
      exact ⟨by simp, fun i => .left _⟩
    · rintro ⟨-, fields⟩
      have same : acc' = acc := f.ext _ _ fun i => fills_nil_iff.mp (fields i)
      rw [same]
      rfl
  | cons member members ih =>
    obtain ⟨name, v⟩ := member
    have step : Form.gather unknown slots acc ((name, v) :: members) = .ok acc' ↔
        ∃ mid, Form.intoSlot unknown slots acc name v = .ok mid ∧
          Form.gather unknown slots mid members = .ok acc' := by
      rw [Form.gather]
      constructor
      · exact ok_of_bind
      · rintro ⟨mid, first, others⟩
        rw [first]
        exact others
    rw [step, List.forall_mem_cons]
    by_cases field : ∃ i, name = f.name i
    · obtain ⟨i, rfl⟩ := field
      have others (j : ι) (ne : j ≠ i) :
          under ((f.name i, v) :: members) (f.name j) = under members (f.name j) :=
        under_cons_of_ne (fun same => ne (f.name_injective same.symm)) v members
      simp only [h.intoSlot_iff, ih]
      constructor
      · rintro ⟨mid, ⟨opened, a, made, rfl⟩, known, fields⟩
        refine ⟨fun refuse => ⟨⟨i, rfl⟩, known refuse⟩, fun j => ?_⟩
        have rest := fields j
        by_cases same : j = i
        · subst same
          rw [f.get_put_self] at rest
          obtain ⟨none_, after⟩ := fills_some_iff.mp rest
          rw [under_cons_self, fills_cons_iff]
          exact ⟨opened, none_, a, made, after⟩
        · rwa [others j same, ← f.get_put_of_ne acc i a j same]
      · rintro ⟨known, fields⟩
        have own := fields i
        rw [under_cons_self, fills_cons_iff] at own
        obtain ⟨opened, none_, a, made, after⟩ := own
        refine ⟨f.put acc i a, ⟨opened, a, made, rfl⟩, fun refuse => (known refuse).2, fun j => ?_⟩
        by_cases same : j = i
        · subst same
          rw [f.get_put_self, none_, fills_some_iff]
          exact ⟨rfl, after⟩
        · have rest := fields j
          rwa [others j same, ← f.get_put_of_ne acc i a j same] at rest
    · have other : ∀ i, name ≠ f.name i := not_exists.mp field
      have same (i : ι) : under ((name, v) :: members) (f.name i) = under members (f.name i) :=
        under_cons_of_ne (other i) v members
      simp only [same]
      constructor
      · rintro ⟨mid, left_out, rest⟩
        obtain ⟨rfl, rfl⟩ := (h.intoSlot_of_ne other).mp left_out
        exact ⟨nofun, (ih.mp rest).2⟩
      · rintro ⟨known, fields⟩
        cases unknown with
        | skip => exact ⟨acc, (h.intoSlot_of_ne other).mpr ⟨rfl, rfl⟩, ih.mpr ⟨nofun, fields⟩⟩
        | refuse => exact absurd (known rfl).1 field

end Fields

end SymbolicRegression.Json
