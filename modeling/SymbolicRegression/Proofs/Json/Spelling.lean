import SymbolicRegression.Proofs.Json.Number

/-!
# How numbers are spelled

The grammar of numerals, told by their parts. What the reader of numbers takes from the front of a
text is a numeral, and a numeral is taken whole if nothing behind it could belong to it. The same
holds where a number is skipped.
-/
namespace SymbolicRegression.Json

open Reader Numeral

/-- The exponent of a numeral as it is written. -/
structure WrittenExponent where
  letter : Char
  sign : List Char
  digits : List Char
  letter_eq : letter = 'e' ∨ letter = 'E'
  sign_eq : sign = [] ∨ sign = ['+'] ∨ sign = ['-']
  digits_ne_nil : digits ≠ []
  allDigits : AllDigits digits

namespace WrittenExponent

def chars (e : WrittenExponent) : List Char := e.letter :: (e.sign ++ e.digits)

def value (e : WrittenExponent) : ℤ :=
  if e.sign = ['-'] then -(natOfDigits e.digits : ℤ) else natOfDigits e.digits

end WrittenExponent

/-- A numeral as it is written; no digits of a fraction stand for no fraction. -/
structure WrittenNumber where
  isNegative : Bool
  whole : List Char
  fraction : List Char
  exponent : Option WrittenExponent
  isWholePart : IsWholePart whole
  allDigits : AllDigits fraction

namespace WrittenNumber

/-- The characters of an exponent, if there is one. -/
def exponentText (e : Option WrittenExponent) : List Char := (e.map WrittenExponent.chars).getD []

/-- The characters behind the sign. -/
def magnitudeChars (n : WrittenNumber) : List Char :=
  n.whole ++ (fractionChars n.fraction ++ exponentText n.exponent)

def chars (n : WrittenNumber) : List Char := signChars n.isNegative ++ n.magnitudeChars

/-- The parts of a numeral without its sign. -/
def numeral (n : WrittenNumber) : Numeral :=
  ⟨n.whole, n.fraction, n.exponent.map WrittenExponent.value⟩

/-- The number that a numeral stands for, if it is in range. -/
def number (n : WrittenNumber) : Except Fault Number :=
  match n.numeral.toNumber n.isNegative with
  | .ok number => .ok number
  | .error fault => .error (.grammar fault)

end WrittenNumber

namespace Reader

section Taken

variable {ended : GrammarFault} {s rest : List Char}

theorem digits_eq_ok {ds : List Char} (h : digits s = .ok (ds, rest)) :
    s = ds ++ rest ∧ AllDigits ds := by
  unfold digits at h
  cases h
  exact ⟨List.takeWhile_append_dropWhile.symm, List.all_eq_true.mp List.all_takeWhile⟩

theorem wholePart_of_ne_zero {c : Char} (h : c ≠ '0') (s : List Char) :
    wholePart ended (c :: s) =
      (if c.isDigit then digits else fail .badNumber : Reader (List Char)) (c :: s) := by
  unfold wholePart
  rw [bind_of_ok (front_cons c s)]
  apply congrFun
  split
  next none_ => cases none_
  next zero => exact absurd (Option.some.inj zero) h
  next same =>
    cases same
    rfl

/-- What is taken as a whole part is one. -/
theorem wholePart_eq_ok {ds : List Char} (h : wholePart ended s = .ok (ds, rest)) :
    s = ds ++ rest ∧ IsWholePart ds := by
  cases s with
  | nil => cases h
  | cons c s =>
    by_cases zero : c = '0'
    · subst zero
      cases s with
      | nil =>
        cases h
        exact ⟨rfl, .inl rfl⟩
      | cons d s =>
        change (if d.isDigit then fail .badNumber else pure ['0'] : Reader (List Char)) (d :: s) = _
          at h
        split_ifs at h
        · cases h
        · cases h
          exact ⟨rfl, .inl rfl⟩
    · rw [wholePart_of_ne_zero zero] at h
      split_ifs at h with digit
      · obtain ⟨shape, all⟩ := digits_eq_ok h
        unfold digits at h
        rw [List.takeWhile_cons_of_pos digit] at h
        cases h
        exact ⟨shape, .inr ⟨c, _, rfl, zero, all⟩⟩
      · cases h

theorem fractionPart_of_no_point (h : s.head? ≠ some '.') :
    fractionPart ended s = .ok ([], s) := by
  have front_ : front s = .ok (s.head?, s) := rfl
  unfold fractionPart
  rw [bind_of_ok front_]
  trans (pure [] : Reader (List Char)) s
  · apply congrFun
    split
    next point => exact absurd point h
    next => rfl
  · rfl

/-- Digits that have to be there, and what is made of them. -/
def someDigits {α : Type} (ended : GrammarFault) (make : List Char → α) : Reader α := do
  match ← digits with
  | [] =>
    match ← front with
    | none => fail ended
    | some _ => fail .badNumber
  | ds => pure (make ds)

theorem someDigits_eq_ok {α : Type} {make : List Char → α} {a : α}
    (h : someDigits ended make s = .ok (a, rest)) :
    ∃ d ds, s = d :: ds ++ rest ∧ AllDigits (d :: ds) ∧ a = make (d :: ds) := by
  unfold someDigits at h
  obtain ⟨ds, s', taken, made⟩ := exists_of_bind h
  obtain ⟨shape, all⟩ := digits_eq_ok taken
  cases ds with
  | nil => cases s' <;> cases made
  | cons d ds =>
    cases made
    exact ⟨d, ds, shape, all, rfl⟩

theorem someDigits_append {α : Type} {make : List Char → α} {ds : List Char} (ne_nil : ds ≠ [])
    (all : AllDigits ds) (hrest : NoDigit rest) :
    someDigits ended make (ds ++ rest) = .ok (make ds, rest) := by
  obtain ⟨d, ds, rfl⟩ := List.exists_cons_of_ne_nil ne_nil
  unfold someDigits
  exact bind_of_ok (digits_append all hrest)

theorem fractionPart_of_point (s : List Char) :
    fractionPart ended ('.' :: s) = someDigits ended id s := rfl

/-- What is taken as a fraction is one, if there is one. -/
theorem fractionPart_eq_ok {ds : List Char} (h : fractionPart ended s = .ok (ds, rest)) :
    s = fractionChars ds ++ rest ∧ AllDigits ds := by
  by_cases point : s.head? = some '.'
  · obtain ⟨s, rfl⟩ : ∃ s', s = '.' :: s' := by
      cases s with
      | nil => cases point
      | cons c s => exact ⟨s, by rw [Option.some.inj point]⟩
    rw [fractionPart_of_point] at h
    obtain ⟨d, ds, rfl, all, rfl⟩ := someDigits_eq_ok h
    exact ⟨rfl, all⟩
  · rw [fractionPart_of_no_point point] at h
    cases h
    exact ⟨rfl, fun c hc => by cases hc⟩

/-- The value of an exponent with the given sign. -/
def exponentValue (sign : Option Char) (ds : List Char) : Option ℤ :=
  some (if sign = some '-' then -(natOfDigits ds : ℤ) else natOfDigits ds)

theorem exponentPart_of_letter {c : Char} (letter : c = 'e' ∨ c = 'E') (s : List Char) :
    exponentPart ended (c :: s) =
      if s.head? = some '+' ∨ s.head? = some '-' then
        someDigits ended (exponentValue s.head?) s.tail
      else someDigits ended (exponentValue s.head?) s := by
  unfold exponentPart
  rw [bind_of_ok (front_cons c s)]
  dsimp only
  rw [if_pos letter, bind_of_ok (advance_run c s)]
  have front_ : front s = .ok (s.head?, s) := rfl
  rw [bind_of_ok front_]
  by_cases signed : s.head? = some '+' ∨ s.head? = some '-'
  · rw [if_pos signed, if_pos signed]
    cases s with
    | nil => simp at signed
    | cons sign s => rfl
  · rw [if_neg signed, if_neg signed]
    rfl

theorem exponentPart_of_no_letter (h : ∀ c ∈ s.head?, ¬(c = 'e' ∨ c = 'E')) :
    exponentPart ended s = .ok (none, s) := by
  cases s with
  | nil => rfl
  | cons c s =>
    unfold exponentPart
    rw [bind_of_ok (front_cons c s)]
    dsimp only
    rw [if_neg (h c rfl)]
    rfl

/-- What is taken as an exponent is one, if there is one. -/
theorem exponentPart_eq_ok {value : Option ℤ} (h : exponentPart ended s = .ok (value, rest)) :
    ∃ e : Option WrittenExponent,
      s = WrittenNumber.exponentText e ++ rest ∧ value = e.map WrittenExponent.value := by
  by_cases first : ∃ c s', s = c :: s' ∧ (c = 'e' ∨ c = 'E')
  · obtain ⟨c, s, rfl, letter⟩ := first
    rw [exponentPart_of_letter letter] at h
    split_ifs at h with signed
    · obtain ⟨d, ds, shape, all, rfl⟩ := someDigits_eq_ok h
      cases s with
      | nil => simp at signed
      | cons sign s =>
        have sign_eq : sign = '+' ∨ sign = '-' := by simpa using signed
        rw [List.tail_cons] at shape
        refine ⟨some ⟨c, [sign], d :: ds, letter, .inr (by simpa using sign_eq),
          List.cons_ne_nil _ _, all⟩, ?_, ?_⟩
        · rw [shape]
          rfl
        · simp [exponentValue, WrittenExponent.value]
    · obtain ⟨d, ds, shape, all, rfl⟩ := someDigits_eq_ok h
      refine ⟨some ⟨c, [], d :: ds, letter, .inl rfl, List.cons_ne_nil _ _, all⟩, ?_, ?_⟩
      · rw [shape]
        rfl
      · rw [not_or] at signed
        simp [exponentValue, WrittenExponent.value, signed.2]
  · have none_ : ∀ c ∈ s.head?, ¬(c = 'e' ∨ c = 'E') := by
      intro c hc letter
      obtain ⟨s', rfl⟩ : ∃ s', s = c :: s' := List.head?_eq_some_iff.mp hc
      exact first ⟨c, s', rfl, letter⟩
    rw [exponentPart_of_no_letter none_] at h
    cases h
    exact ⟨none, rfl, rfl⟩

/-- What is taken as a numeral is one. -/
theorem numeral_eq_ok {n : Numeral} (h : numeral ended s = .ok (n, rest)) (isNegative : Bool) :
    ∃ t : WrittenNumber,
      t.isNegative = isNegative ∧ s = t.magnitudeChars ++ rest ∧ n = t.numeral := by
  unfold numeral at h
  obtain ⟨whole, s₁, first, h⟩ := exists_of_bind h
  obtain ⟨fraction, s₂, second, h⟩ := exists_of_bind h
  obtain ⟨exponent, s₃, third, h⟩ := exists_of_bind h
  cases h
  obtain ⟨rfl, isWhole⟩ := wholePart_eq_ok first
  obtain ⟨rfl, all⟩ := fractionPart_eq_ok second
  obtain ⟨e, rfl, rfl⟩ := exponentPart_eq_ok third
  refine ⟨⟨isNegative, whole, fraction, e, isWhole, all⟩, rfl, ?_, rfl⟩
  simp only [WrittenNumber.magnitudeChars, List.append_assoc]

end Taken

section Numbers

variable {s rest : List Char}

/-- The number of a numeral with the given sign. -/
def numberOf (isNegative : Bool) (n : Numeral) : Reader Number :=
  match n.toNumber isNegative with
  | .ok number => pure number
  | .error fault => fail fault

theorem number_of_minus (s : List Char) :
    number ('-' :: s) = (numeral .endOfValue >>= numberOf true) s := rfl

theorem number_of_no_minus (h : s.head? ≠ some '-') :
    number s = (numeral .endOfValue >>= numberOf false) s := by
  have front_ : front s = .ok (s.head?, s) := rfl
  unfold number
  rw [bind_of_ok front_, decide_eq_false h, if_neg h]
  rfl

theorem skipNumber_of_minus (s : List Char) :
    skipNumber ('-' :: s) = (numeral .badNumber >>= fun _ => pure ()) s := rfl

theorem skipNumber_of_no_minus (h : s.head? ≠ some '-') :
    skipNumber s = (numeral .badNumber >>= fun _ => pure ()) s := by
  have front_ : front s = .ok (s.head?, s) := rfl
  unfold skipNumber
  rw [bind_of_ok front_, if_neg h]

theorem numberOf_run (t : WrittenNumber) (s : List Char) :
    numberOf t.isNegative t.numeral s = (fun x => (x, s)) <$> t.number := by
  unfold numberOf WrittenNumber.number
  cases t.numeral.toNumber t.isNegative <;> rfl

/-- A text either starts with a minus or does not. -/
theorem minus_cases (s : List Char) : (∃ s', s = '-' :: s') ∨ s.head? ≠ some '-' := by
  by_cases minus : s.head? = some '-'
  · exact .inl (List.head?_eq_some_iff.mp minus)
  · exact .inr minus

/-- What is taken as a number is a numeral that stands for it. -/
theorem number_eq_ok {x : Number} (h : number s = .ok (x, rest)) :
    ∃ t : WrittenNumber, s = t.chars ++ rest ∧ t.number = .ok x := by
  have taken {isNegative : Bool} {s : List Char}
      (h : (numeral .endOfValue >>= numberOf isNegative) s = .ok (x, rest)) :
      ∃ t : WrittenNumber,
        t.isNegative = isNegative ∧ s = t.magnitudeChars ++ rest ∧ t.number = .ok x := by
    obtain ⟨n, s', first, h⟩ := exists_of_bind h
    obtain ⟨t, rfl, shape, rfl⟩ := numeral_eq_ok first isNegative
    rw [numberOf_run] at h
    cases denotes : t.number with
    | error fault =>
      rw [denotes] at h
      cases h
    | ok y =>
      rw [denotes] at h
      cases h
      exact ⟨t, rfl, shape, denotes⟩
  rcases minus_cases s with ⟨s, rfl⟩ | none_
  · rw [number_of_minus] at h
    obtain ⟨t, sign, rfl, denotes⟩ := taken h
    refine ⟨t, ?_, denotes⟩
    rw [WrittenNumber.chars, sign]
    rfl
  · rw [number_of_no_minus none_] at h
    obtain ⟨t, sign, shape, denotes⟩ := taken h
    refine ⟨t, ?_, denotes⟩
    rw [WrittenNumber.chars, sign]
    exact shape

/-- What is skipped as a number is a numeral. -/
theorem skipNumber_eq_ok (h : skipNumber s = .ok ((), rest)) :
    ∃ t : WrittenNumber, s = t.chars ++ rest := by
  rcases minus_cases s with ⟨s, rfl⟩ | none_
  · rw [skipNumber_of_minus] at h
    obtain ⟨n, s', first, h⟩ := exists_of_bind h
    cases h
    obtain ⟨t, sign, rfl, -⟩ := numeral_eq_ok first true
    refine ⟨t, ?_⟩
    rw [WrittenNumber.chars, sign]
    rfl
  · rw [skipNumber_of_no_minus none_] at h
    obtain ⟨n, s', first, h⟩ := exists_of_bind h
    cases h
    obtain ⟨t, sign, rfl, -⟩ := numeral_eq_ok first false
    refine ⟨t, ?_⟩
    rw [WrittenNumber.chars, sign]
    rfl

theorem exponentPart_spelled {ended : GrammarFault} (e : Option WrittenExponent)
    (hrest : Delimited rest) :
    exponentPart ended (WrittenNumber.exponentText e ++ rest) =
      .ok (e.map WrittenExponent.value, rest) := by
  cases e with
  | none =>
    refine exponentPart_of_no_letter fun c hc letter => ?_
    obtain ⟨-, -, small, large⟩ := hrest c hc
    exact letter.elim small large
  | some e =>
    obtain ⟨letter, sign, ds, letter_eq, sign_eq, ne_nil, all⟩ := e
    have read {make : List Char → Option ℤ} :
        someDigits ended make (ds ++ rest) = .ok (make ds, rest) :=
      someDigits_append ne_nil all hrest.noDigit
    change exponentPart ended (letter :: (sign ++ ds ++ rest)) = _
    rw [exponentPart_of_letter letter_eq, List.append_assoc]
    rcases sign_eq with rfl | rfl | rfl
    · obtain ⟨d, ds, rfl⟩ := List.exists_cons_of_ne_nil ne_nil
      have digit : d.isDigit = true := all d List.mem_cons_self
      have plus : d ≠ '+' := by
        rintro rfl
        cases digit
      have minus : d ≠ '-' := by
        rintro rfl
        cases digit
      rw [List.nil_append, if_neg (by simp [plus, minus]), read]
      simp [exponentValue, WrittenExponent.value, minus]
    · rw [if_pos (.inl rfl)]
      exact read
    · rw [if_pos (.inr rfl)]
      exact read

theorem numeral_spelled {ended : GrammarFault} (t : WrittenNumber) (hrest : Delimited rest) :
    numeral ended (t.magnitudeChars ++ rest) = .ok (t.numeral, rest) := by
  have behind : NoDigit (WrittenNumber.exponentText t.exponent ++ rest) ∧
      (WrittenNumber.exponentText t.exponent ++ rest).head? ≠ some '.' := by
    cases t.exponent with
    | none => exact ⟨hrest.noDigit, fun point => (hrest '.' point).2.1 rfl⟩
    | some e =>
      change NoDigit (e.letter :: (e.sign ++ e.digits ++ rest)) ∧ some e.letter ≠ some '.'
      rcases e.letter_eq with letter | letter <;> rw [letter] <;>
        exact ⟨noDigit_cons rfl _, by decide⟩
  unfold numeral WrittenNumber.magnitudeChars
  rw [List.append_assoc, List.append_assoc]
  refine (bind_of_ok (wholePart_append t.isWholePart (noDigit_fractionChars behind.1))).trans ?_
  refine (bind_of_ok (fractionPart_append t.allDigits behind.1 behind.2)).trans ?_
  exact bind_of_ok (exponentPart_spelled t.exponent hrest)

theorem exists_digit (t : WrittenNumber) :
    ∃ c cs, t.magnitudeChars = c :: cs ∧ c.isDigit = true := by
  obtain ⟨isNegative, whole, fraction, e, isWhole, all⟩ := t
  rcases isWhole with rfl | ⟨c, cs, rfl, -, digits⟩
  · exact ⟨'0', _, rfl, rfl⟩
  · exact ⟨c, _, rfl, digits c List.mem_cons_self⟩

/-- A numeral starts with its sign or with a digit. -/
theorem chars_cases (t : WrittenNumber) :
    (t.isNegative = true ∧ t.chars = '-' :: t.magnitudeChars) ∨
      t.isNegative = false ∧ t.chars = t.magnitudeChars ∧
        ∀ rest, (t.magnitudeChars ++ rest).head? ≠ some '-' := by
  cases sign : t.isNegative with
  | true => exact .inl ⟨rfl, by rw [WrittenNumber.chars, sign]; rfl⟩
  | false =>
    refine .inr ⟨rfl, by rw [WrittenNumber.chars, sign]; rfl, fun rest minus => ?_⟩
    obtain ⟨c, cs, shape, digit⟩ := exists_digit t
    rw [shape] at minus
    cases minus
    cases digit

/-- A numeral is taken as the number that it stands for. -/
theorem number_spelled (t : WrittenNumber) (hrest : Delimited rest) :
    number (t.chars ++ rest) = (fun x => (x, rest)) <$> t.number := by
  have taken := numberOf_run t rest
  rcases chars_cases t with ⟨sign, shape⟩ | ⟨sign, shape, none_⟩
  · rw [shape, List.cons_append, number_of_minus, bind_of_ok (numeral_spelled t hrest), ← sign]
    exact taken
  · rw [shape, number_of_no_minus (none_ rest), bind_of_ok (numeral_spelled t hrest), ← sign]
    exact taken

/-- A numeral is skipped whole. -/
theorem skipNumber_spelled (t : WrittenNumber) (hrest : Delimited rest) :
    skipNumber (t.chars ++ rest) = .ok ((), rest) := by
  rcases chars_cases t with ⟨-, shape⟩ | ⟨-, shape, none_⟩
  · rw [shape, List.cons_append, skipNumber_of_minus, bind_of_ok (numeral_spelled t hrest)]
    rfl
  · rw [shape, skipNumber_of_no_minus (none_ rest), bind_of_ok (numeral_spelled t hrest)]
    rfl

/-- A numeral stands for no number only if that would be out of range. -/
theorem number_error {t : WrittenNumber} {fault : Fault} (h : t.number = .error fault) :
    fault = .grammar .numberRange := by
  have real {isNegative : Bool} {n : Numeral} {fault : GrammarFault}
      (h : n.toReal isNegative = .error fault) : fault = .numberRange := by
    unfold Numeral.toReal at h
    dsimp only at h
    split_ifs at h
    cases h
    rfl
  have range {fault : GrammarFault} (h : t.numeral.toNumber t.isNegative = .error fault) :
      fault = .numberRange := by
    unfold Numeral.toNumber at h
    split at h
    · split_ifs at h
      exact real h
    · exact real h
  unfold WrittenNumber.number at h
  cases denotes : t.numeral.toNumber t.isNegative with
  | ok x =>
    rw [denotes] at h
    cases h
  | error fault' =>
    rw [denotes] at h
    cases h
    rw [range denotes]

end Numbers

end Reader
end SymbolicRegression.Json
