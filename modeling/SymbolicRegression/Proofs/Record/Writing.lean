import Mathlib.Data.List.Nodup
import Mathlib.Data.String.Basic
import Mathlib.Tactic.Tauto
import SymbolicRegression.Record.Basic

/-!
# Writing fields of records

What a record reads as after fields have been written. A field that is missing reads as zero, so to
write it out with this value makes no difference to a reader.
-/
namespace SymbolicRegression.Record

theorem mem_place {name : String} {value : Float} {l : List (String × Float)}
    {e : String × Float} (h : e ∈ place name value l) : e = (name, value) ∨ e ∈ l := by
  induction l with
  | nil => exact .inl (List.mem_singleton.mp h)
  | cons head tail ih =>
    obtain ⟨key, old⟩ := head
    unfold place at h
    split_ifs at h
    · exact List.mem_cons.mp h
    · exact (List.mem_cons.mp h).imp_right (List.mem_cons_of_mem _)
    · rcases List.mem_cons.mp h with rfl | h
      · exact .inr List.mem_cons_self
      · exact (ih h).imp_right (List.mem_cons_of_mem _)

theorem mem_fst_place {name key : String} {value : Float} {l : List (String × Float)} :
    key ∈ (place name value l).map Prod.fst ↔ key = name ∨ key ∈ l.map Prod.fst := by
  induction l with
  | nil => exact List.mem_singleton.trans (by simp)
  | cons head tail ih =>
    obtain ⟨first, old⟩ := head
    unfold place
    split_ifs with before same
    · rw [List.map_cons, List.mem_cons]
    · rw [List.map_cons, List.map_cons, List.mem_cons, List.mem_cons, same]
      tauto
    · rw [List.map_cons, List.mem_cons, ih, List.map_cons, List.mem_cons]
      tauto

theorem find?_place {name key : String} {value : Float} {l : List (String × Float)} :
    (place name value l).find? (fun e => e.1 = key) =
      if key = name then some (name, value) else l.find? (fun e => e.1 = key) := by
  induction l with
  | nil =>
    unfold place
    by_cases same : key = name
    · simp [same]
    · simp [same, Ne.symm same]
  | cons head tail ih =>
    obtain ⟨first, old⟩ := head
    unfold place
    by_cases same : key = name
    · subst same
      rw [if_pos rfl] at ih ⊢
      split_ifs with before found
      · rw [List.find?_cons_of_pos (by simp)]
      · rw [List.find?_cons_of_pos (by simp)]
      · rw [List.find?_cons_of_neg (by simp [Ne.symm found]), ih]
    · rw [if_neg same] at ih ⊢
      split_ifs with before found
      · rw [List.find?_cons_of_neg (by simp [Ne.symm same])]
      · subst found
        rw [List.find?_cons_of_neg (by simp [Ne.symm same]),
          List.find?_cons_of_neg (by simp [Ne.symm same])]
      · rw [List.find?_cons, List.find?_cons, ih]

theorem mem_fields_set {r : Record} {name key : String} {value : Float} :
    key ∈ (r.set name value).fields ↔ key = name ∨ key ∈ r.fields := mem_fst_place

theorem get_set {r : Record} {name key : String} {value : Float} :
    (r.set name value).get key = if key = name then value else r.get key := by
  unfold get get? set
  rw [find?_place]
  split_ifs <;> rfl

theorem contains_iff {r : Record} {name : String} : r.contains name = true ↔ name ∈ r.fields := by
  simp [contains, fields]

theorem get_of_not_mem {r : Record} {name : String} (h : name ∉ r.fields) : r.get name = 0.0 := by
  have none : r.entries.find? (fun e => e.1 = name) = none := by
    rw [List.find?_eq_none]
    intro e member
    rw [decide_eq_true_iff]
    rintro rfl
    exact h (List.mem_map_of_mem member)
  rw [get, get?, none]
  rfl

/-- What is read is zero, unless the record has an entry with that name and value. -/
theorem get_cases (r : Record) (name : String) :
    name ∉ r.fields ∧ r.get name = 0.0 ∨ (name, r.get name) ∈ r.entries := by
  unfold get get?
  cases found : r.entries.find? (fun e => e.1 = name) with
  | none =>
    left
    rw [List.find?_eq_none] at found
    refine ⟨fun member => ?_, rfl⟩
    obtain ⟨e, entry, rfl⟩ := List.mem_map.mp member
    exact found e entry (decide_eq_true rfl)
  | some e =>
    right
    have hit := List.find?_some found
    obtain rfl : e.1 = name := of_decide_eq_true hit
    exact List.mem_of_find?_eq_some found

/-- A record has one entry for each of its fields. -/
theorem get_of_mem {r : Record} {name : String} {value : Float} (h : (name, value) ∈ r.entries) :
    r.get name = value := by
  have distinct : (r.entries.map Prod.fst).Nodup := by
    rw [List.Nodup, List.pairwise_map]
    exact r.sorted.imp fun lt => ne_of_lt lt
  rcases r.get_cases name with ⟨absent, -⟩ | found
  · exact absurd (List.mem_map_of_mem h) absent
  · exact congrArg Prod.snd (List.inj_on_of_nodup_map distinct found h rfl)

theorem isFinite_get {r : Record} (h : ∀ e ∈ r.entries, e.2.isFinite = true) (name : String) :
    (r.get name).isFinite = true := by
  rcases r.get_cases name with ⟨-, zero⟩ | found
  · rw [zero]
    decide
  · exact h (name, r.get name) found

/-- The record with entries written one after the other. -/
def write (r : Record) (entries : List (String × Float)) : Record :=
  entries.foldl (fun r e => r.set e.1 e.2) r

theorem mem_fields_write {r : Record} {entries : List (String × Float)} {key : String} :
    key ∈ (r.write entries).fields ↔ key ∈ entries.map Prod.fst ∨ key ∈ r.fields := by
  induction entries generalizing r with
  | nil => simp [write]
  | cons e entries ih =>
    rw [write, List.foldl_cons, ← write, ih, mem_fields_set, List.map_cons, List.mem_cons]
    tauto

/-- If all that is written under a name is one value, it is read there. -/
theorem get_write {r : Record} {entries : List (String × Float)} {key : String} {value : Float}
    (h : ∀ e ∈ entries, e.1 = key → e.2 = value) :
    (r.write entries).get key =
      if key ∈ entries.map Prod.fst then value else r.get key := by
  induction entries generalizing r with
  | nil => simp [write]
  | cons e entries ih =>
    rw [write, List.foldl_cons, ← write,
      ih fun e member => h e (List.mem_cons_of_mem _ member), get_set, List.map_cons]
    by_cases again : key ∈ entries.map Prod.fst
    · rw [if_pos again, if_pos (List.mem_cons_of_mem _ again)]
    · rw [if_neg again]
      by_cases here : key = e.1
      · rw [if_pos here, if_pos (List.mem_cons.mpr (.inl here)), h e List.mem_cons_self here.symm]
      · rw [if_neg here, if_neg (by simp [here, again])]

theorem isFinite_write {r : Record} {entries : List (String × Float)}
    (hr : ∀ e ∈ r.entries, e.2.isFinite = true) (h : ∀ e ∈ entries, e.2.isFinite = true) :
    ∀ e ∈ (r.write entries).entries, e.2.isFinite = true := by
  induction entries generalizing r with
  | nil => exact hr
  | cons e entries ih =>
    rw [write, List.foldl_cons, ← write]
    refine ih (fun f member => ?_) fun f member => h f (List.mem_cons_of_mem _ member)
    rcases mem_place member with rfl | member
    · exact h e List.mem_cons_self
    · exact hr f member

/-- A name behind all others is placed at the end. -/
theorem place_of_forall_lt {name : String} {value : Float} {l : List (String × Float)}
    (h : ∀ e ∈ l, e.1 < name) : place name value l = l ++ [(name, value)] := by
  induction l with
  | nil => rfl
  | cons head tail ih =>
    obtain ⟨key, old⟩ := head
    obtain ⟨first, rest⟩ := List.forall_mem_cons.mp h
    rw [place, if_neg (String.lt_asymm first), if_neg (ne_of_gt first), ih rest,
      List.cons_append]

/-- Entries in increasing order, behind all others, are written as they are. -/
theorem entries_write {r : Record} {entries : List (String × Float)}
    (h : (r.entries ++ entries).Pairwise fun a b => a.1 < b.1) :
    (r.write entries).entries = r.entries ++ entries := by
  induction entries generalizing r with
  | nil => simp [write]
  | cons e entries ih =>
    have behind : ∀ f ∈ r.entries, f.1 < e.1 := fun f member =>
      (List.pairwise_append.mp h).2.2 f member e List.mem_cons_self
    have placed : (r.set e.1 e.2).entries = r.entries ++ [e] := place_of_forall_lt behind
    rw [write, List.foldl_cons, ← write, ih (by rwa [placed, List.append_assoc]), placed,
      List.append_assoc]
    rfl

/-- A record is the record of its entries. -/
theorem ofList_entries (r : Record) : ofList r.entries = r := by
  have written : (empty.write r.entries).entries = r.entries := entries_write r.sorted
  obtain ⟨entries, sorted⟩ := r
  change empty.write entries = _
  cases filled : empty.write entries with
  | mk entries' sorted' =>
    rw [filled] at written
    cases written
    rfl

/-- The record with the given fields written out as they read. -/
def filled (names : List String) (r : Record) : Record :=
  r.write (names.map fun name => (name, r.get name))

theorem get_filled (names : List String) (r : Record) (key : String) :
    (r.filled names).get key = r.get key := by
  have same : ∀ e ∈ names.map (fun name => (name, r.get name)), e.1 = key → e.2 = r.get key := by
    intro e member eq
    obtain ⟨name, -, rfl⟩ := List.mem_map.mp member
    rw [← eq]
  rw [filled, get_write same, ite_self]

theorem mem_fields_filled {names : List String} {r : Record} {key : String} :
    key ∈ (r.filled names).fields ↔ key ∈ names ∨ key ∈ r.fields := by
  rw [filled, mem_fields_write, List.map_map]
  simp

/-- The record with other names for its fields. -/
def renamed (s : String → String) (r : Record) : Record :=
  empty.write (r.entries.map fun e => (s e.1, e.2))

theorem mem_fields_renamed {s : String → String} {r : Record} {key : String} :
    key ∈ (r.renamed s).fields ↔ key ∈ r.fields.map s := by
  rw [renamed, mem_fields_write]
  simp [empty, fields]

/-- A renamed field is read as before if its new name is given to no other field. -/
theorem get_renamed {s : String → String} {r : Record} {name : String}
    (h : ∀ other ∈ r.fields, s other = s name → other = name) :
    (r.renamed s).get (s name) = r.get name := by
  have same : ∀ e ∈ r.entries.map (fun e => (s e.1, e.2)), e.1 = s name → e.2 = r.get name := by
    intro e member eq
    obtain ⟨f, entry, rfl⟩ := List.mem_map.mp member
    obtain rfl := h f.1 (List.mem_map_of_mem entry) eq
    exact (get_of_mem entry).symm
  rw [renamed, get_write same]
  split_ifs with present
  · rfl
  · refine (get_of_not_mem fun member => present ?_).symm
    rw [List.map_map]
    exact List.mem_map.mpr ((List.mem_map.mp member).imp fun e h => ⟨h.1, congrArg s h.2⟩)

end SymbolicRegression.Record
