/-!
# Records

A record assigns numbers to field names. Its entries are kept in increasing order of their names,
one entry for each name, so two records with the same entries are equal.
-/
namespace SymbolicRegression

/-- A row of data: numbers by field name. -/
structure Record where
  /-- The fields with their values, in increasing order of the names. -/
  entries : List (String × Float)
  sorted : entries.Pairwise (fun a b => a.1 < b.1)
deriving DecidableEq

namespace Record

def empty : Record := ⟨[], .nil⟩

/-- Puts a value under a name into sorted entries, in place of an older value. -/
def place (name : String) (value : Float) : List (String × Float) → List (String × Float)
  | [] => [(name, value)]
  | (key, old) :: rest =>
    if name < key then (name, value) :: (key, old) :: rest
    else if name = key then (name, value) :: rest
    else (key, old) :: place name value rest

theorem fst_mem_place {name : String} {value : Float} {l : List (String × Float)}
    {e : String × Float} (h : e ∈ place name value l) : e.1 = name ∨ e ∈ l := by
  induction l with
  | nil => simp_all [place]
  | cons head tail ih =>
    obtain ⟨key, old⟩ := head
    simp only [place] at h
    split at h
    · simp only [List.mem_cons] at h ⊢
      rcases h with rfl | h
      · exact .inl rfl
      · exact .inr h
    · split at h
      · simp only [List.mem_cons] at h ⊢
        rcases h with rfl | h
        · exact .inl rfl
        · exact .inr (.inr h)
      · simp only [List.mem_cons] at h ⊢
        rcases h with h | h
        · exact .inr (.inl h)
        · rcases ih h with h | h
          · exact .inl h
          · exact .inr (.inr h)

theorem pairwise_place {name : String} {value : Float} {l : List (String × Float)}
    (h : l.Pairwise (fun a b => a.1 < b.1)) :
    (place name value l).Pairwise (fun a b => a.1 < b.1) := by
  induction l with
  | nil => simp [place]
  | cons head tail ih =>
    obtain ⟨key, old⟩ := head
    obtain ⟨first, rest⟩ := List.pairwise_cons.mp h
    simp only [place]
    split
    next lt =>
      refine List.pairwise_cons.mpr ⟨fun e he => ?_, h⟩
      rcases List.mem_cons.mp he with rfl | he
      · exact lt
      · exact String.lt_trans lt (first e he)
    next ge =>
      split
      next eq =>
        subst eq
        exact List.pairwise_cons.mpr ⟨first, rest⟩
      next ne =>
        refine List.pairwise_cons.mpr ⟨fun e he => ?_, ih rest⟩
        rcases fst_mem_place he with eq | he
        · simp only [eq]
          exact Std.lt_of_le_of_ne (Std.not_lt.mp ge) (Ne.symm ne)
        · exact first e he

def set (r : Record) (name : String) (value : Float) : Record :=
  ⟨place name value r.entries, pairwise_place r.sorted⟩

/-- The record of a row of entries; of several under one name the last counts. -/
def ofList (entries : List (String × Float)) : Record :=
  entries.foldl (fun r e => r.set e.1 e.2) empty

/-- The value under a name, if the record has one. -/
def get? (r : Record) (name : String) : Option Float :=
  (r.entries.find? (fun e => e.1 = name)).map Prod.snd

/-- The value under a name; a field that the record does not have reads as zero. -/
def get (r : Record) (name : String) : Float := (r.get? name).getD 0.0

def contains (r : Record) (name : String) : Bool := r.entries.any (fun e => e.1 = name)

/-- The field names, in increasing order. -/
def fields (r : Record) : List String := r.entries.map Prod.fst

end Record
end SymbolicRegression
