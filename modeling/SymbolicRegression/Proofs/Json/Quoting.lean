import SymbolicRegression.Proofs.Json.Text

/-!
# How texts are spelled

The grammar of quoted texts, character by character. What the reader of texts takes from behind an
opening quote is such a row of characters with its closing quote, and so is what is skipped. Skipped
characters need not stand for anything: half a surrogate pair has the form of a character.
-/
namespace SymbolicRegression.Json

/-- A character of a quoted text as it is written: itself, an escape of one letter, or a unit of
four hexadecimal digits. -/
inductive WrittenChar where
  | plain (c : Char) (quote : c ≠ '"') (backslash : c ≠ '\\') (space : ¬c.toNat < 32)
  | escape (letter c : Char) (meaning : escapeChar? letter = some c)
  | unit (a b c d : Char) (n : ℕ) (value : hexUnit? a b c d = some n)

def WrittenChar.chars : WrittenChar → List Char
  | plain c _ _ _ => [c]
  | escape letter _ _ => ['\\', letter]
  | unit a b c d _ _ => ['\\', 'u', a, b, c, d]

/-- A quoted text as it is written, without its quotes. -/
abbrev WrittenText := List WrittenChar

namespace WrittenText

/-- The characters between the quotes. -/
def chars (t : WrittenText) : List Char := t.flatMap WrittenChar.chars

/-- The characters that a written text stands for. Units stand for characters of the basic plane,
or in pairs for the others. -/
def letters : WrittenText → Except GrammarFault (List Char)
  | [] => .ok []
  | .plain c _ _ _ :: t => (c :: ·) <$> letters t
  | .escape _ c _ :: t => (c :: ·) <$> letters t
  | .unit _ _ _ _ n _ :: t =>
    if isTrailing n then .error .loneSurrogate
    else if isLeading n then
      match t with
      | .unit _ _ _ _ m _ :: t =>
        if isTrailing m then (pairChar n m :: ·) <$> letters t else .error .loneSurrogate
      | _ => .error .brokenSurrogate
    else (Char.ofNat n :: ·) <$> letters t

end WrittenText

theorem WrittenText.chars_cons (c : WrittenChar) (t : WrittenText) (rest : List Char) :
    chars (c :: t) ++ rest = c.chars ++ (chars t ++ rest) := by
  rw [chars, List.flatMap_cons, List.append_assoc, chars]

/-- Characters are skipped by their form. -/
theorem skipQuoted_char (c : WrittenChar) (rest : List Char) :
    skipQuoted (c.chars ++ rest) = skipQuoted rest := by
  cases c with
  | plain c quote backslash space =>
    change skipQuoted (c :: rest) = _
    rw [skipQuoted.eq_def]
    split <;> simp_all
  | escape letter c meaning =>
    have notUnit : letter ≠ 'u' := by
      rintro rfl
      cases meaning
    change skipQuoted ('\\' :: letter :: rest) = _
    rw [skipQuoted.eq_def]
    split <;> simp_all
    next none _ eq => exact absurd eq.2.symm (none _ _ eq.1.symm)
  | unit a b c d n value =>
    change skipQuoted ('\\' :: 'u' :: a :: b :: c :: d :: rest) = _
    rw [skipQuoted]
    simp only [value]

/-- A quoted text is skipped up to its closing quote. -/
theorem skipQuoted_spelled (t : WrittenText) (rest : List Char) :
    skipQuoted (t.chars ++ '"' :: rest) = .ok rest := by
  induction t with
  | nil => rfl
  | cons c t ih => rw [WrittenText.chars_cons, skipQuoted_char, ih]

/-- What is skipped as a quoted text is one. -/
theorem exists_of_skipQuoted {s rest : List Char} (h : skipQuoted s = .ok rest) :
    ∃ t : WrittenText, s = t.chars ++ '"' :: rest := by
  fun_induction skipQuoted s with
  | case2 s =>
    cases h
    exact ⟨[], rfl⟩
  | case4 a b c d s n value ih =>
    obtain ⟨t, rfl⟩ := ih h
    exact ⟨.unit a b c d n value :: t, rfl⟩
  | case7 letter s _ _ c meaning ih =>
    obtain ⟨t, rfl⟩ := ih h
    exact ⟨.escape letter c meaning :: t, rfl⟩
  | case10 c s quote _ _ escape backslash space ih =>
    obtain ⟨t, rfl⟩ := ih h
    refine ⟨.plain c quote ?_ space :: t, rfl⟩
    rintro rfl
    cases shape : t.chars ++ '"' :: rest with
    | nil => exact backslash rfl shape
    | cons d s => exact escape d s rfl shape
  | _ => cases h

section Decoding

variable {a b c d : Char} {n : ℕ} (value : hexUnit? a b c d = some n)

include value in
theorem decode_trailing (trailing : isTrailing n = true) (rest : List Char) :
    decode ('\\' :: 'u' :: a :: b :: c :: d :: rest) = .error .loneSurrogate := by
  rw [decode]
  simp only [value, trailing, if_true]

include value in
/-- A unit of the basic plane is decoded by itself. -/
theorem decode_basic (trailing : isTrailing n = false) (leading : isLeading n = false)
    (rest : List Char) :
    decode ('\\' :: 'u' :: a :: b :: c :: d :: rest) =
      (decode rest).map fun r => (Char.ofNat n :: r.1, r.2) := by
  rw [decode]
  simp only [value, trailing, leading, Bool.false_eq_true, if_false]
  cases decode rest <;> rfl

include value in
/-- A pair of units is decoded to one character. -/
theorem decode_pair (trailing : isTrailing n = false) (leading : isLeading n = true)
    {e f g h : Char} {m : ℕ} (second : hexUnit? e f g h = some m) (rest : List Char) :
    decode ('\\' :: 'u' :: a :: b :: c :: d :: '\\' :: 'u' :: e :: f :: g :: h :: rest) =
      if isTrailing m then (decode rest).map fun r => (pairChar n m :: r.1, r.2)
      else .error .loneSurrogate := by
  rw [decode]
  simp only [value, second, trailing, leading, Bool.false_eq_true, if_false, if_true]
  split_ifs
  · cases decode rest <;> rfl
  · rfl

include value in
/-- Half a pair does not stand for anything where no unit follows. -/
theorem decode_half (trailing : isTrailing n = false) (leading : isLeading n = true)
    {rest : List Char} (alone : ∀ e f g h s, rest ≠ '\\' :: 'u' :: e :: f :: g :: h :: s) :
    decode ('\\' :: 'u' :: a :: b :: c :: d :: rest) = .error (pairFault rest) := by
  rw [decode.eq_def]
  simp only [value, trailing, leading, Bool.false_eq_true, if_false, if_true]

end Decoding

theorem map_map_letters (f : List Char → List Char) (letters : Except GrammarFault (List Char))
    (rest : List Char) :
    ((fun cs => (cs, rest)) <$> letters).map (fun r => (f r.1, r.2)) =
      (fun cs => (cs, rest)) <$> (f <$> letters) := by
  cases letters <;> rfl

theorem no_unit {t : WrittenText} (rest : List Char)
    (h : ∀ a b c d n value t', t ≠ .unit a b c d n value :: t') :
    pairFault (t.chars ++ '"' :: rest) = .brokenSurrogate ∧
      ∀ e f g h s, t.chars ++ '"' :: rest ≠ '\\' :: 'u' :: e :: f :: g :: h :: s := by
  cases t with
  | nil => exact ⟨rfl, fun _ _ _ _ _ => by simp [WrittenText.chars]⟩
  | cons first t =>
    rw [WrittenText.chars_cons]
    cases first with
    | plain c quote backslash space =>
      change pairFault (c :: _) = _ ∧ ∀ e f g h s, c :: _ ≠ _
      refine ⟨?_, fun e f g h s same => backslash (List.cons.inj same).1⟩
      unfold pairFault
      split <;> simp_all
    | escape letter c meaning =>
      have notUnit : letter ≠ 'u' := by
        rintro rfl
        cases meaning
      change pairFault ('\\' :: letter :: _) = _ ∧ ∀ e f g h s, '\\' :: letter :: _ ≠ _
      refine ⟨?_, fun e f g h s same => notUnit (List.cons.inj (List.cons.inj same).2).1⟩
      unfold pairFault
      split <;> simp_all
    | unit a b c d n value => exact absurd rfl (h a b c d n value t)

/-- A written text is decoded to its letters, if it has any. -/
theorem decode_spelled (t : WrittenText) (rest : List Char) :
    decode (t.chars ++ '"' :: rest) = (fun cs => (cs, rest)) <$> t.letters := by
  fun_induction WrittenText.letters t with
  | case1 => rfl
  | case2 c quote backslash space t ih =>
    rw [WrittenText.chars_cons, ← map_map_letters, ← ih]
    exact decode_plain quote backslash space _
  | case3 letter c meaning t ih =>
    rw [WrittenText.chars_cons, ← map_map_letters, ← ih]
    exact decode_letter meaning _
  | case4 a b c d n value t trailing =>
    rw [WrittenText.chars_cons]
    exact decode_trailing value trailing _
  | case5 a b c d n value trailing leading e f g h m second t isPair ih =>
    rw [WrittenText.chars_cons, WrittenText.chars_cons, ← map_map_letters, ← ih]
    refine (decode_pair value (by simpa using trailing) leading second _).trans ?_
    rw [if_pos isPair]
    rfl
  | case6 a b c d n value trailing leading e f g h m second t noPair =>
    rw [WrittenText.chars_cons, WrittenText.chars_cons]
    refine (decode_pair value (by simpa using trailing) leading second _).trans ?_
    rw [if_neg noPair]
    rfl
  | case7 a b c d n value t trailing leading none_ =>
    obtain ⟨fault, alone⟩ := no_unit rest none_
    rw [WrittenText.chars_cons]
    refine (decode_half value (by simpa using trailing) leading alone).trans ?_
    rw [fault]
    rfl
  | case8 a b c d n value t trailing leading ih =>
    rw [WrittenText.chars_cons, ← map_map_letters, ← ih]
    exact decode_basic value (by simpa using trailing) (by simpa using leading) _

theorem exists_of_bind_letters {m : Except GrammarFault (List Char × List Char)}
    {f : List Char → List Char} {cs rest : List Char}
    (h : (do let (letters, rest) ← m; .ok (f letters, rest)) = Except.ok (cs, rest)) :
    ∃ letters, m = .ok (letters, rest) := by
  cases m with
  | error fault => cases h
  | ok result =>
    cases h
    exact ⟨result.1, rfl⟩

/-- What is decoded as a quoted text is one that stands for its letters. -/
theorem exists_of_decode {s cs rest : List Char} (h : decode s = .ok (cs, rest)) :
    ∃ t : WrittenText, s = t.chars ++ '"' :: rest ∧ t.letters = .ok cs := by
  have written : ∃ t : WrittenText, s = t.chars ++ '"' :: rest := by
    fun_induction decode s generalizing cs with
    | case2 s =>
      cases h
      exact ⟨[], rfl⟩
    | case6 a b c d n value trailing leading e f g h' s m second isPair ih =>
      obtain ⟨letters, taken⟩ := exists_of_bind_letters h
      obtain ⟨t, rfl⟩ := ih taken
      exact ⟨.unit a b c d n value :: .unit e f g h' m second :: t, rfl⟩
    | case9 a b c d s n value trailing leading ih =>
      obtain ⟨letters, taken⟩ := exists_of_bind_letters h
      obtain ⟨t, rfl⟩ := ih taken
      exact ⟨.unit a b c d n value :: t, rfl⟩
    | case12 letter s _ _ c meaning ih =>
      obtain ⟨letters, taken⟩ := exists_of_bind_letters h
      obtain ⟨t, rfl⟩ := ih taken
      exact ⟨.escape letter c meaning :: t, rfl⟩
    | case15 c s quote _ _ escape backslash space ih =>
      obtain ⟨letters, taken⟩ := exists_of_bind_letters h
      obtain ⟨t, rfl⟩ := ih taken
      refine ⟨.plain c quote ?_ space :: t, rfl⟩
      rintro rfl
      cases shape : t.chars ++ '"' :: rest with
      | nil => exact backslash rfl shape
      | cons d s => exact escape d s rfl shape
    | _ => cases h
  obtain ⟨t, rfl⟩ := written
  refine ⟨t, rfl, ?_⟩
  rw [decode_spelled] at h
  cases letters : t.letters with
  | error fault =>
    rw [letters] at h
    cases h
  | ok cs' =>
    rw [letters] at h
    cases h
    rfl

/-- A written text stands for nothing only if half a surrogate pair is in it. -/
theorem letters_error {t : WrittenText} {fault : GrammarFault} (h : t.letters = .error fault) :
    fault = .loneSurrogate ∨ fault = .brokenSurrogate := by
  fun_induction WrittenText.letters t with
  | case1 => cases h
  | case2 c quote backslash space t ih => exact ih (error_of_map h)
  | case3 letter c meaning t ih => exact ih (error_of_map h)
  | case4 =>
    cases h
    exact .inl rfl
  | case5 a b c d n value trailing leading e f g h' m second t isPair ih =>
    exact ih (error_of_map h)
  | case6 =>
    cases h
    exact .inl rfl
  | case7 =>
    cases h
    exact .inr rfl
  | case8 a b c d n value t trailing leading ih => exact ih (error_of_map h)

end SymbolicRegression.Json
