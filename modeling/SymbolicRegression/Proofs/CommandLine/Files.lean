import Mathlib.Data.List.Infix
import SymbolicRegression.CommandLine.Folder
import SymbolicRegression.Proofs.Json.Reading

/-!
# Files that have been written

A text that has been put into a file is found there again, and a file at another place stays as it
was. Where a path leads does not depend on what the files on the way hold, so whether a text can be
written depends neither on that text nor on what has been written elsewhere.
-/
namespace SymbolicRegression.CommandLine.Folder

/-- Whether everything above a place is a directory. -/
def IsOpen (f : Folder) (place : List String) : Prop :=
  ∀ above, above <+: place → above ≠ place → f.lookup above = some .directory

theorem lookup_of_prefix_home {f : Folder} {place : List String} (h : place <+: f.home) :
    f.lookup place = some .directory := by
  rw [lookup, if_pos (List.isPrefixOf_iff_prefix.mpr h)]

theorem isOpen_of_prefix_home {f : Folder} {place : List String} (h : place <+: f.home) :
    f.IsOpen place := fun _ above _ => lookup_of_prefix_home (above.trans h)

/-- Where one name leads from a directory, everything above is a directory again. -/
theorem IsOpen.step {f : Folder} {place : List String} (h : f.IsOpen place)
    (directory : f.lookup place = some .directory) (name : String) :
    f.IsOpen (step place name) := by
  have below {other : List String} (before : other <+: place) :
      f.lookup other = some .directory := by
    by_cases same : other = place
    · rwa [same]
    · exact h other before same
  intro above before other
  unfold Folder.step at before other
  split_ifs at before other
  · exact below before
  · exact below (before.trans (List.dropLast_prefix place))
  · rcases List.prefix_concat_iff.mp before with whole | before
    · exact absurd whole other
    · exact below before

theorem isOpen_of_walk {f : Folder} {start last names : List String}
    (h : f.walk start names = .ok last) (opened : f.IsOpen start) : f.IsOpen last := by
  induction names generalizing start with
  | nil =>
    cases h
    exact opened
  | cons name rest ih =>
    unfold walk at h
    split at h
    next directory =>
      split_ifs at h
      exact ih h (opened.step directory name)
    · cases h
    · cases h

theorem isOpen_of_follow {f : Folder} {path : String} {steps place : List String}
    (h : f.follow path steps = .ok place) : f.IsOpen place := by
  unfold follow at h
  split_ifs at h
  · exact isOpen_of_walk h (isOpen_of_prefix_home List.nil_prefix)
  · exact isOpen_of_walk h (isOpen_of_prefix_home List.prefix_rfl)

theorem walk_cons_ne_ok {f : Folder} {place : List String}
    (h : f.lookup place ≠ some .directory) (name : String) (rest last : List String) :
    f.walk place (name :: rest) ≠ .ok last := by
  unfold walk
  split
  next directory => exact absurd directory h
  · nofun
  · nofun

theorem walk_append {f : Folder} {start first second : List String} :
    f.walk start (first ++ second) = f.walk start first >>= fun place => f.walk place second := by
  induction first generalizing start with
  | nil => rfl
  | cons name rest ih =>
    rw [List.cons_append, walk, walk]
    split
    · split_ifs
      · rfl
      · exact ih
    · rfl
    · rfl

/-- Names that end with a dot lead to a directory. -/
theorem lookup_of_walk_dot {f : Folder} {start names place : List String}
    (h : f.walk start (names ++ ["."]) = .ok place) : f.lookup place = some .directory := by
  rw [walk_append] at h
  cases before : f.walk start names with
  | error e =>
    rw [before] at h
    cases h
  | ok last =>
    rw [before] at h
    change f.walk last ["."] = .ok place at h
    by_cases directory : f.lookup last = some .directory
    · unfold walk at h
      rw [directory] at h
      simp only at h
      split_ifs at h
      cases h
      exact directory
    · exact absurd h (walk_cons_ne_ok directory _ _ _)

theorem lookup_of_follow_holdingNames {f : Folder} {path : String} {place : List String}
    (h : f.follow path (holdingNames path) = .ok place) : f.lookup place = some .directory := by
  unfold follow holdingNames at h
  split_ifs at h
  · exact lookup_of_walk_dot h
  · exact lookup_of_walk_dot h

section Put

variable {f : Folder} {place : List String} (content : ByteArray)

/-- At any other place there is what was there, if only directories are above the file. -/
theorem lookup_put_of_ne (opened : f.IsOpen place) {other : List String} (h : other ≠ place) :
    (f.put place content).lookup other = f.lookup other := by
  by_cases home : other <+: f.home
  · rw [lookup_of_prefix_home home]
    exact lookup_of_prefix_home home
  have found : (f.put place content).nodes.find? (fun n => n.1 = other) =
      f.nodes.find? (fun n => n.1 = other) := by
    unfold put
    rw [List.find?_cons_of_neg (by simpa using h.symm), List.find?_filter]
    congr 1
    funext n
    by_cases same : n.1 = other
    · simp [same, h]
    · simp [same]
  have outside : ¬other.isPrefixOf f.home = true := mt List.isPrefixOf_iff_prefix.mp home
  have outside' : ¬other.isPrefixOf (f.put place content).home = true := outside
  by_cases above : other <+: place
  · -- a directory above the file is either listed, or implied by the file itself
    have directory := opened other above h
    rw [directory]
    rw [lookup, if_neg outside] at directory
    rw [lookup, if_neg outside', found]
    split at directory
    next n hit => exact directory
    next none =>
      have implied : (f.put place content).nodes.any (fun n => other.isPrefixOf n.1) = true := by
        unfold put
        rw [List.any_cons, List.isPrefixOf_iff_prefix.mpr above, Bool.true_or]
      simp only [implied, if_true]
  · have implied : (f.put place content).nodes.any (fun n => other.isPrefixOf n.1) =
        f.nodes.any (fun n => other.isPrefixOf n.1) := by
      have apart : other.isPrefixOf place = false :=
        Bool.eq_false_iff.mpr (mt List.isPrefixOf_iff_prefix.mp above)
      unfold put
      rw [List.any_cons, apart, Bool.false_or, List.any_filter]
      congr 1
      funext n
      by_cases same : n.1 = place
      · simp [same, apart]
      · simp [same]
    rw [lookup, lookup, if_neg outside, if_neg outside', found, implied]

theorem lookup_put_outside (h : ¬place <+: f.home) :
    (f.put place content).lookup place = some (.file content) := by
  have outside : ¬place.isPrefixOf (f.put place content).home = true :=
    mt List.isPrefixOf_iff_prefix.mp h
  rw [lookup, if_neg outside, put, List.find?_cons_of_pos (by simp)]

/-- At the place itself there is the file. -/
theorem lookup_put_self (free : f.lookup place ≠ some .directory) :
    (f.put place content).lookup place = some (.file content) :=
  lookup_put_outside content fun home => free (lookup_of_prefix_home home)

variable (opened : f.IsOpen place) (free : f.lookup place ≠ some .directory)

include opened free in
/-- A file in the folder is on no way: the ways that lead anywhere are the same as before. -/
theorem walk_put_eq_ok_iff {start names last : List String} :
    (f.put place content).walk start names = .ok last ↔ f.walk start names = .ok last := by
  induction names generalizing start with
  | nil => exact Iff.rfl
  | cons name rest ih =>
    by_cases here : start = place
    · subst here
      have file : (f.put start content).lookup start ≠ some .directory := by
        rw [lookup_put_self content free]
        nofun
      exact iff_of_false (walk_cons_ne_ok file name rest last) (walk_cons_ne_ok free name rest last)
    · unfold walk
      rw [lookup_put_of_ne content opened here]
      split
      · split_ifs
        · exact Iff.rfl
        · exact ih
      · exact Iff.rfl
      · exact Iff.rfl

include opened free in
theorem follow_put_eq_ok_iff {path : String} {steps last : List String} :
    (f.put place content).follow path steps = .ok last ↔ f.follow path steps = .ok last := by
  unfold follow
  split_ifs
  · exact Iff.rfl
  · exact walk_put_eq_ok_iff content opened free
  · exact walk_put_eq_ok_iff content opened free

end Put

/-- The place of the file that a text is written into, if there can be one. -/
def target (f : Folder) (path : String) : Except WriteError (List String) :=
  match f.follow path (if path.endsWith "/" then holdingNames path else names path) with
  | .error e => .error (.create e)
  | .ok place =>
    match f.lookup place with
    | some .directory => .error (.create .isDirectory)
    | some .full => .error (.write .noRoom)
    | _ => .ok place

theorem writeText_eq (f : Folder) (path text : String) :
    f.writeText path text = (fun place => f.put place text.toUTF8) <$> f.target path := by
  unfold writeText target
  cases f.follow path (if path.endsWith "/" then holdingNames path else names path) with
  | error e => rfl
  | ok place =>
    simp only
    cases f.lookup place with
    | none => rfl
    | some node => cases node <;> rfl

/-- A text goes into a file that a path without a slash at its end leads to. -/
theorem target_spec {f : Folder} {path : String} {place : List String}
    (h : f.target path = .ok place) :
    f.follow path (names path) = .ok place ∧ f.IsOpen place ∧
      f.lookup place ≠ some .directory ∧ path.endsWith "/" = false := by
  unfold target at h
  split at h
  · cases h
  next last leads =>
    have file : f.lookup last ≠ some .directory ∧ last = place := by
      split at h
      · cases h
      · cases h
      next directory _ => exact ⟨directory, Except.ok.inj h⟩
    obtain ⟨free, rfl⟩ := file
    cases slash : path.endsWith "/" with
    | false =>
      rw [slash, if_neg Bool.false_ne_true] at leads
      exact ⟨leads, isOpen_of_follow leads, free, rfl⟩
    | true =>
      rw [slash, if_pos rfl] at leads
      exact absurd (lookup_of_follow_holdingNames leads) free

/-- A text that has been put into the file of a path is read there. -/
theorem readText_of_lookup {f : Folder} {path text : String} {place : List String}
    (leads : f.follow path (names path) = .ok place) (slash : path.endsWith "/" = false)
    (file : f.lookup place = some (.file text.toUTF8)) : f.readText path = .ok text := by
  have reading : readingNames path = names path := by
    rw [readingNames, slash, if_neg Bool.false_ne_true]
  have decoded : String.fromUTF8? text.toUTF8 = some text := by
    rw [String.fromUTF8?, String.toUTF8_eq_toByteArray, dif_pos text.isValidUTF8]
    rfl
  unfold readText
  rw [reading, leads]
  dsimp only [bind, Except.bind]
  rw [file]
  simp only [decoded]

theorem exists_of_writeText {f g : Folder} {path text : String}
    (h : f.writeText path text = .ok g) :
    ∃ place, f.target path = .ok place ∧ g = f.put place text.toUTF8 := by
  rw [writeText_eq] at h
  obtain ⟨place, found, rfl⟩ := Json.ok_of_map h
  exact ⟨place, found, rfl⟩

/-- A text that has been written into a file is there. -/
theorem readText_of_writeText {f g : Folder} {path text : String}
    (h : f.writeText path text = .ok g) : g.readText path = .ok text := by
  obtain ⟨place, found, rfl⟩ := exists_of_writeText h
  obtain ⟨leads, opened, free, slash⟩ := target_spec found
  exact readText_of_lookup ((follow_put_eq_ok_iff _ opened free).mpr leads) slash
    (lookup_put_self _ free)

/-- Two texts that have been written into different files, one after the other, are both there. -/
theorem readText_writeText_writeText {f g h : Folder} {path path' text text' : String}
    (first : f.writeText path text = .ok g) (second : g.writeText path' text' = .ok h)
    (distinct : f.follow path (names path) ≠ f.follow path' (names path')) :
    h.readText path = .ok text ∧ h.readText path' = .ok text' := by
  obtain ⟨place, found, rfl⟩ := exists_of_writeText first
  obtain ⟨place', found', rfl⟩ := exists_of_writeText second
  obtain ⟨leads, opened, free, slash⟩ := target_spec found
  obtain ⟨leads', opened', free', -⟩ := target_spec found'
  have here := (follow_put_eq_ok_iff text.toUTF8 opened free).mpr leads
  have apart : place ≠ place' := by
    rintro rfl
    exact distinct (leads.trans ((follow_put_eq_ok_iff _ opened free).mp leads').symm)
  refine ⟨?_, readText_of_writeText second⟩
  refine readText_of_lookup ((follow_put_eq_ok_iff _ opened' free').mpr here) slash ?_
  rw [lookup_put_of_ne _ opened' apart]
  exact lookup_put_self _ free

section Contents

variable {f : Folder} {place : List String} (a b : ByteArray)

/-- What a file holds makes no difference to what is anywhere, but for the file itself. -/
theorem lookup_put_congr (other : List String) :
    (f.put place a).lookup other = (f.put place b).lookup other ∨
      (f.put place a).lookup other = some (.file a) ∧
        (f.put place b).lookup other = some (.file b) := by
  have implied : (f.put place a).nodes.any (fun n => other.isPrefixOf n.1) =
      (f.put place b).nodes.any (fun n => other.isPrefixOf n.1) := rfl
  by_cases same : place = other
  · subst same
    by_cases home : place <+: f.home
    · have inside (content : ByteArray) :
          (f.put place content).lookup place = some .directory := lookup_of_prefix_home home
      exact .inl ((inside a).trans (inside b).symm)
    · exact .inr ⟨lookup_put_outside a home, lookup_put_outside b home⟩
  · left
    unfold lookup
    rw [implied]
    unfold put
    rw [List.find?_cons_of_neg (by simpa using same), List.find?_cons_of_neg (by simpa using same)]

/-- Whatever a file holds, the ways past it are the same. -/
theorem walk_put_congr (start names : List String) :
    (f.put place a).walk start names = (f.put place b).walk start names := by
  induction names generalizing start with
  | nil => rfl
  | cons name rest ih =>
    unfold walk
    rcases lookup_put_congr a b start with same | ⟨left, right⟩
    · rw [same]
      simp only [ih]
    · rw [left, right]

/-- Whether a text can be written does not depend on what other files hold. -/
theorem target_put_congr (path : String) :
    (f.put place a).target path = (f.put place b).target path := by
  have ways (steps : List String) :
      (f.put place a).follow path steps = (f.put place b).follow path steps := by
    unfold follow
    rw [walk_put_congr a b]
    rfl
  unfold target
  rw [ways]
  split
  · rfl
  next last _ =>
    have found : (f.put place a).lookup last = (f.put place b).lookup last ∨ _ :=
      lookup_put_congr a b last
    rcases found with same | ⟨left, right⟩
    · rw [same]
    · rw [left, right]

end Contents

end SymbolicRegression.CommandLine.Folder
