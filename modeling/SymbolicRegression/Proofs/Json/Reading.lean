import SymbolicRegression.Json.Reader

/-!
# How readers run

A reader is a chain of steps. Where a step succeeds, the chain goes on with what it left; where it
fails, the chain fails alike.
-/
namespace SymbolicRegression.Json

section Results

variable {ε α β : Type} {m : Except ε α}

/-- A chain that succeeds has succeeded in its first step. -/
theorem ok_of_bind {f : α → Except ε β} {b : β} (h : m >>= f = .ok b) :
    ∃ a, m = .ok a ∧ f a = .ok b := by
  cases m with
  | error e => cases h
  | ok a => exact ⟨a, rfl, h⟩

/-- A fault of a chain is a fault of one of its steps. -/
theorem error_of_bind {f : α → Except ε β} {e : ε} (h : m >>= f = .error e) :
    m = .error e ∨ ∃ a, m = .ok a ∧ f a = .error e := by
  cases m with
  | error e' =>
    cases h
    exact .inl rfl
  | ok a => exact .inr ⟨a, rfl, h⟩

theorem ok_of_map {f : α → β} {b : β} (h : f <$> m = .ok b) : ∃ a, m = .ok a ∧ f a = b := by
  cases m with
  | error e => cases h
  | ok a =>
    cases h
    exact ⟨a, rfl, rfl⟩

theorem error_of_map {f : α → β} {e : ε} (h : f <$> m = .error e) : m = .error e := by
  cases m with
  | error e' =>
    cases h
    rfl
  | ok a => cases h

theorem ok_of_toOption {a : α} (h : m.toOption = some a) : m = .ok a := by
  cases m with
  | error e => cases h
  | ok b =>
    cases h
    rfl

theorem ne_ok_of_toOption (h : m.toOption = none) (a : α) : m ≠ .ok a := by
  rintro rfl
  cases h

end Results

namespace Reader

variable {α β : Type}

theorem bind_of_ok {m : Reader α} {f : α → Reader β} {s s' : List Char} {a : α}
    (h : m s = .ok (a, s')) : (m >>= f) s = f a s' := by
  change (m s >>= fun r => f r.1 r.2) = _
  rw [h]
  rfl

theorem bind_of_error {m : Reader α} {f : α → Reader β} {s : List Char} {fault : Fault}
    (h : m s = .error fault) : (m >>= f) s = .error fault := by
  change (m s >>= fun r => f r.1 r.2) = _
  rw [h]
  rfl

/-- A chain that succeeds has succeeded in each of its steps. -/
theorem exists_of_bind {m : Reader α} {f : α → Reader β} {s : List Char} {r : β × List Char}
    (h : (m >>= f) s = .ok r) : ∃ a s', m s = .ok (a, s') ∧ f a s' = .ok r := by
  cases first : m s with
  | error fault =>
    rw [bind_of_error first] at h
    cases h
  | ok result =>
    obtain ⟨a, s'⟩ := result
    rw [bind_of_ok first] at h
    exact ⟨a, s', rfl, h⟩

/-- A result that is taken into a chain consumes nothing. -/
theorem lift_eq_ok {x : Except Fault α} {s rest : List Char} {a : α}
    (h : (liftM x : Reader α) s = .ok (a, rest)) : x = .ok a ∧ s = rest := by
  cases x with
  | error fault => cases h
  | ok b =>
    cases h
    exact ⟨rfl, rfl⟩

theorem get_bind (f : List Char → Reader α) (s : List Char) :
    ((get : Reader (List Char)) >>= f) s = f s s := rfl

@[simp] theorem advance_run (c : Char) (s : List Char) : advance (c :: s) = .ok ((), s) := rfl

/-- Whether a text consists of blanks only. -/
def Blank (s : List Char) : Prop := ∀ c ∈ s, isBlank c = true

theorem blank_nil : Blank [] := by simp [Blank]

theorem dropWhile_of_blank {blanks : List Char} (h : Blank blanks) {c : Char}
    (hc : isBlank c = false) (rest : List Char) :
    (blanks ++ c :: rest).dropWhile isBlank = c :: rest := by
  rw [List.dropWhile_append_of_pos h, List.dropWhile_cons_of_neg (by simp [hc])]

/-- Looking ahead skips blanks. -/
theorem peek_of_blank {blanks : List Char} (h : Blank blanks) {c : Char} (hc : isBlank c = false)
    (rest : List Char) : peek (blanks ++ c :: rest) = .ok (some c, c :: rest) := by
  unfold peek
  simp only [dropWhile_of_blank h hc, List.head?_cons]

/-- What is in front of a text behind its blanks. -/
theorem exists_blanks {s rest : List Char} {c : Char} (h : s.dropWhile isBlank = c :: rest) :
    ∃ blanks, Blank blanks ∧ isBlank c = false ∧ s = blanks ++ c :: rest := by
  have first := List.head?_dropWhile_not isBlank s
  rw [h] at first
  refine ⟨s.takeWhile isBlank, List.all_eq_true.mp List.all_takeWhile, first, ?_⟩
  rw [← h, List.takeWhile_append_dropWhile]

theorem peek_cons {c : Char} (hc : isBlank c = false) (rest : List Char) :
    peek (c :: rest) = .ok (some c, c :: rest) := peek_of_blank blank_nil hc rest

/-- A word in front of a text is consumed. -/
theorem word_append (cs rest : List Char) : word cs (cs ++ rest) = .ok ((), rest) := by
  induction cs with
  | nil => rfl
  | cons c cs ih =>
    change (if c = c then (do set (cs ++ rest); word cs : Reader Unit) else fail .expectedWord)
      (c :: (cs ++ rest)) = _
    rw [if_pos rfl]
    exact ih

end Reader
end SymbolicRegression.Json
