import SymbolicRegression.Proofs.Json.Nesting
import SymbolicRegression.Proofs.Text.ByteOrder

/-!
# Building records

A record is the same whether its entries are set one after the other, collected at once, or read
from a document that lists them. To collect entries is to sort them by their names, those of one
name staying in their order, and then to keep the last of each name.
-/
namespace SymbolicRegression

open Json Reader Written

namespace Record

section Collecting

/-- Whether the name of an entry is not behind that of another one. -/
def byName (a b : String × Float) : Bool := a.1 ≤ b.1

theorem byName_trans (a b c : String × Float) (first : byName a b = true)
    (second : byName b c = true) : byName a c = true :=
  decide_eq_true (le_trans (of_decide_eq_true first) (of_decide_eq_true second))

theorem byName_total (a b : String × Float) : (byName a b || byName b a) = true := by
  simpa [byName] using le_total a.1 b.1

theorem pairwise_mergeSort_byName (entries : List (String × Float)) :
    (entries.mergeSort byName).Pairwise fun a b => a.1 ≤ b.1 :=
  (List.pairwise_mergeSort byName_trans byName_total entries).imp of_decide_eq_true

/-- Sorting by names keeps the values of each name in their order. -/
theorem under_mergeSort_byName (entries : List (String × Float)) (name : String) :
    under (entries.mergeSort byName) name = under entries name := by
  let own (e : String × Float) : Bool := e.1 = name
  have level : (entries.filter own).Pairwise fun a b => byName a b = true := by
    refine List.pairwise_of_forall_mem_list fun a ha b hb => decide_eq_true (le_of_eq ?_)
    have first : own a = true := List.of_mem_filter ha
    have second : own b = true := List.of_mem_filter hb
    exact (of_decide_eq_true first).trans (of_decide_eq_true second).symm
  have sublist : (entries.filter own).Sublist ((entries.mergeSort byName).filter own) := by
    have kept := (List.sublist_mergeSort byName_trans byName_total level
      List.filter_sublist).filter own
    simpa only [List.filter_filter, Bool.and_self] using kept
  have same : entries.filter own = (entries.mergeSort byName).filter own :=
    sublist.eq_of_length ((List.mergeSort_perm entries byName).filter own).length_eq.symm
  exact congrArg (List.map Prod.snd) same.symm

/-- The last of each row of entries that share a name. -/
def lastOfEach : List (String × Float) → List (String × Float)
  | [] => []
  | [e] => [e]
  | e :: f :: entries =>
    if e.1 = f.1 then lastOfEach (f :: entries) else e :: lastOfEach (f :: entries)

/-- Entries collected at once: sorted by their names, with the last of each name. -/
def collected (entries : List (String × Float)) : List (String × Float) :=
  lastOfEach (entries.mergeSort byName)

theorem sublist_lastOfEach (entries : List (String × Float)) :
    (lastOfEach entries).Sublist entries := by
  induction entries using lastOfEach.induct with
  | case1 => exact .slnil
  | case2 e => exact .refl _
  | case3 e f entries same ih =>
    rw [lastOfEach, if_pos same]
    exact ih.cons e
  | case4 e f entries differ ih =>
    rw [lastOfEach, if_neg differ]
    exact ih.cons_cons e

/-- The first of sorted entries is in front of all others if its name is not the next one. -/
theorem forall_lt_of_sorted {e f : String × Float} {entries : List (String × Float)}
    (sorted : (e :: f :: entries).Pairwise fun a b => a.1 ≤ b.1) (differ : e.1 ≠ f.1) :
    ∀ g ∈ f :: entries, e.1 < g.1 := by
  obtain ⟨front, behind⟩ := List.pairwise_cons.mp sorted
  have lt : e.1 < f.1 := lt_of_le_of_ne (front f List.mem_cons_self) differ
  refine List.forall_mem_cons.mpr ⟨lt, fun g mem => ?_⟩
  exact lt_of_lt_of_le lt ((List.pairwise_cons.mp behind).1 g mem)

/-- Of sorted entries one is left of each name. -/
theorem pairwise_lastOfEach {entries : List (String × Float)}
    (sorted : entries.Pairwise fun a b => a.1 ≤ b.1) :
    (lastOfEach entries).Pairwise fun a b => a.1 < b.1 := by
  induction entries using lastOfEach.induct with
  | case1 => exact .nil
  | case2 e => exact List.pairwise_singleton _ _
  | case3 e f entries same ih =>
    rw [lastOfEach, if_pos same]
    exact ih (List.pairwise_cons.mp sorted).2
  | case4 e f entries differ ih =>
    rw [lastOfEach, if_neg differ]
    refine List.pairwise_cons.mpr ⟨fun g mem => ?_, ih (List.pairwise_cons.mp sorted).2⟩
    exact forall_lt_of_sorted sorted differ g ((sublist_lastOfEach _).subset mem)

/-- Of sorted entries the last of each name is left. -/
theorem mem_lastOfEach {entries : List (String × Float)}
    (sorted : entries.Pairwise fun a b => a.1 ≤ b.1) {name : String} {x : Float} :
    (name, x) ∈ lastOfEach entries ↔ (under entries name).getLast? = some x := by
  induction entries using lastOfEach.induct with
  | case1 => simp [lastOfEach, under]
  | case2 e =>
    obtain ⟨key, y⟩ := e
    by_cases same : key = name
    · subst same
      simp [lastOfEach, under, eq_comm]
    · simp [lastOfEach, under, same, Ne.symm same]
  | case3 e f entries same ih =>
    obtain ⟨key, y⟩ := e
    obtain ⟨key', z⟩ := f
    obtain rfl : key = key' := same
    rw [lastOfEach, if_pos rfl, ih (List.pairwise_cons.mp sorted).2]
    by_cases here : key = name
    · subst here
      rw [under_cons_self _ y, under_cons_self, List.getLast?_cons_cons]
    · rw [under_cons_of_ne here y]
  | case4 e f entries differ ih =>
    obtain ⟨key, y⟩ := e
    rw [lastOfEach, if_neg differ, List.mem_cons, ih (List.pairwise_cons.mp sorted).2]
    by_cases here : key = name
    · subst here
      have gone : under (f :: entries) key = [] := under_eq_nil_iff.mpr fun g mem =>
        (forall_lt_of_sorted sorted differ g mem).ne'
      rw [under_cons_self, gone]
      simp [eq_comm]
    · rw [under_cons_of_ne here]
      simp [Ne.symm here]

end Collecting

theorem get?_set {r : Record} {name key : String} {value : Float} :
    (r.set name value).get? key = if key = name then some value else r.get? key := by
  unfold get? set
  rw [find?_place]
  split_ifs <;> rfl

/-- Of the values that are set under one name the last is found. -/
theorem get?_write {r : Record} {entries : List (String × Float)} {name : String} :
    (r.write entries).get? name = (under entries name).getLast?.or (r.get? name) := by
  induction entries generalizing r with
  | nil => rfl
  | cons e entries ih =>
    obtain ⟨key, x⟩ := e
    rw [write, List.foldl_cons, ← write, ih, get?_set]
    by_cases here : key = name
    · subst here
      rw [if_pos rfl, under_cons_self, List.getLast?_cons]
      cases (under entries key).getLast? <;> rfl
    · rw [if_neg (Ne.symm here), under_cons_of_ne here]

/-- What a record has under a name is its only entry with that name. -/
theorem get?_eq_some_iff {r : Record} {name : String} {x : Float} :
    r.get? name = some x ↔ (name, x) ∈ r.entries := by
  constructor
  · intro h
    obtain ⟨e, found, rfl⟩ := Option.map_eq_some_iff.mp h
    have hit := List.find?_some found
    obtain rfl : e.1 = name := of_decide_eq_true hit
    exact List.mem_of_find?_eq_some found
  · intro h
    have value := get_of_mem h
    unfold get at value
    cases found : r.get? name with
    | some y =>
      rw [found] at value
      exact congrArg some value
    | none =>
      have absent := List.find?_eq_none.mp (Option.map_eq_none_iff.mp found) _ h
      exact absurd (decide_eq_true rfl) absent

theorem mem_entries_ofList {entries : List (String × Float)} {name : String} {x : Float} :
    (name, x) ∈ (ofList entries).entries ↔ (under entries name).getLast? = some x := by
  rw [← get?_eq_some_iff]
  change (empty.write entries).get? name = some x ↔ _
  rw [get?_write]
  simp [empty, get?]

/-- To collect entries gives the same as to set them one after the other. -/
theorem entries_ofList (entries : List (String × Float)) :
    (ofList entries).entries = collected entries := by
  have ordered : (entries.mergeSort byName).Pairwise fun a b => a.1 ≤ b.1 :=
    pairwise_mergeSort_byName entries
  have sorted : (collected entries).Pairwise fun a b => a.1 < b.1 := pairwise_lastOfEach ordered
  have distinct {l : List (String × Float)} (h : l.Pairwise fun a b => a.1 < b.1) : l.Nodup :=
    h.imp fun lt same => lt.ne (congrArg Prod.fst same)
  have same : (ofList entries).entries.Perm (collected entries) := by
    rw [List.perm_ext_iff_of_nodup (distinct (ofList entries).sorted) (distinct sorted)]
    rintro ⟨name, x⟩
    rw [mem_entries_ofList, collected, mem_lastOfEach ordered, under_mergeSort_byName]
  exact same.eq_of_pairwise (fun a b _ _ first second => absurd second (lt_asymm first))
    (ofList entries).sorted sorted

/-- A record is read of exactly those texts that are documents of it. -/
theorem read_run_iff {depth : ℕ} {text : String} {r : Record} :
    (read (depth + 1)).run text = .ok r ↔ ∃ w : Written, w.IsSpelled text ∧ w.IsRecord r :=
  (run_iff (reads_read (depth + 1)) (succeeds_read depth)).trans
    (exists_congr fun _ => and_congr_right fun _ => ofWritten_iff)

/-- The value of a document that lists entries in their order. -/
def listing (entries : List (String × Float)) : Value :=
  .object (entries.map fun e => (e.1, .ofFloat e.2))

/-- What is written of finite entries is a document that lists them. -/
theorem exists_spelled_listing {entries : List (String × Float)}
    (finite : ∀ e ∈ entries, e.2.isFinite = true) {sp : Spacing} (hsp : sp.IsBlank) :
    ∃ (w : Written) (members : List (String × Written)),
      w.IsSpelled ((listing entries).render sp) ∧ w.IsObject members ∧
        AreEntries members entries := by
  have printed : (listing entries).IsPrinted := isPrinted_entries entries
  obtain ⟨w, spelled, held⟩ := exists_spelled_render hsp printed
  obtain ⟨members, object, are⟩ := exists_entries_of_value finite (isLike_of_value held)
  exact ⟨w, members, spelled, object, are⟩

theorem isFinite_ofList {entries : List (String × Float)}
    (finite : ∀ e ∈ entries, e.2.isFinite = true) :
    ∀ e ∈ (ofList entries).entries, e.2.isFinite = true :=
  isFinite_write (fun _ mem => absurd mem List.not_mem_nil) finite

/-- Entries give the same record if they are set one after the other, if they are collected, and if
they are read from a document that lists them. Under a name it has the last value that was listed,
it has the names that were listed and no others, in the order of their bytes, and what is written of
it is read back. -/
theorem building_agrees (entries : List (String × Float))
    (finite : ∀ e ∈ entries, e.2.isFinite = true) (depth : ℕ) :
    entries.foldl (fun r e => r.set e.1 e.2) empty = ofList entries ∧
    (ofList entries).entries = collected entries ∧
    (∀ (w : Written) members text, w.IsObject members → AreEntries members entries →
      w.IsSpelled text → (read (depth + 1)).run text = .ok (ofList entries)) ∧
    (∀ sp : Spacing, sp.IsBlank →
      (read (depth + 1)).run ((listing entries).render sp) = .ok (ofList entries) ∧
      (read (depth + 1)).run ((ofList entries).toValue.render sp) = .ok (ofList entries)) ∧
    (∀ name, (ofList entries).get name = (under entries name).getLast?.getD 0.0) ∧
    (∀ name, (ofList entries).contains name = true ↔ name ∈ entries.map Prod.fst) ∧
    (∀ name, name ∈ (ofList entries).fields ↔ name ∈ entries.map Prod.fst) ∧
    (ofList entries).fields.Pairwise fun a b => bytes a < bytes b := by
  have names (name : String) : name ∈ (ofList entries).fields ↔ name ∈ entries.map Prod.fst := by
    change name ∈ (empty.write entries).fields ↔ _
    rw [mem_fields_write]
    simp [empty, fields]
  have listed (w : Written) (members : List (String × Written)) (text : String)
      (object : w.IsObject members) (are : AreEntries members entries)
      (spelled : w.IsSpelled text) : (read (depth + 1)).run text = .ok (ofList entries) :=
    read_run_iff.mpr ⟨w, spelled, members, entries, object, are, rfl⟩
  refine ⟨rfl, entries_ofList entries, listed, fun sp hsp => ⟨?_, ?_⟩, fun name => ?_,
    fun name => contains_iff.trans (names name), names, ?_⟩
  · obtain ⟨w, members, spelled, object, are⟩ := exists_spelled_listing finite hsp
    exact listed w members _ object are spelled
  · -- what is written of the record lists its own entries
    obtain ⟨w, members, spelled, object, are⟩ := exists_spelled_listing (isFinite_ofList finite) hsp
    exact read_run_iff.mpr ⟨w, spelled, members, _, object, are, (ofList_entries _).symm⟩
  · have found : (ofList entries).get? name = (under entries name).getLast?.or none := get?_write
    rw [get, found, Option.or_none]
  · exact List.pairwise_map.mpr ((ofList entries).sorted.imp lt_iff_bytes_lt.mp)

/-- Entries with a name that is set twice, around one that has to be escaped. -/
def repeated : List (String × Float) := [("é", 1.0), ("a\"\n", 2.0), ("é", -0.0)]

theorem building_agrees_repeated :
    (∀ e ∈ repeated, e.2.isFinite = true) ∧
      (ofList repeated).entries = [("a\"\n", 2.0), ("é", -0.0)] ∧
      (ofList repeated).get "é" = -0.0 ∧ (ofList repeated).get "e" = 0.0 ∧
      (read depthLimit).run (ofList repeated).toValue.compact = .ok (ofList repeated) := by
  have finite : ∀ e ∈ repeated, e.2.isFinite = true := by decide +kernel
  obtain ⟨-, -, -, back, last, -⟩ := building_agrees repeated finite 126
  refine ⟨finite, by decide +kernel, ?_, ?_, (back _ isBlank_compact).2⟩
  · rw [last]
    decide +kernel
  · rw [last]
    decide +kernel

end Record
end SymbolicRegression
