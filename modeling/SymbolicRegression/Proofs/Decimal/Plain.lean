import SymbolicRegression.Proofs.Binary64.Sum
import SymbolicRegression.Proofs.Json.Number

/-!
# Plain numbers can be told apart

The plain text of a finite number is a sign and digits with at most one point among them. They stand
for the value of the decimal that is written, so they denote the number again. What is not finite
has a name that cannot be taken for digits. Hence numbers with the same plain text are the same.
-/
namespace SymbolicRegression.Decimal

open Binary64 Json Float.Model Float.Model.UnpackedFloat

/-- The rational number that digits with at most one point among them stand for. -/
def plainValue (text : List Char) : ℚ :=
  let fraction := (text.dropWhile (· ≠ '.')).drop 1
  natOfDigits (text.takeWhile (· ≠ '.') ++ fraction) * 10 ^ (-(fraction.length : ℤ))

theorem ne_point_of_digits {ds : List Char} (h : AllDigits ds) :
    ∀ c ∈ ds, decide (c ≠ '.') = true := by
  intro c hc
  rw [decide_eq_true_eq]
  rintro rfl
  exact absurd (h _ hc) (by decide)

theorem plainValue_whole {ds : List Char} (h : AllDigits ds) : plainValue ds = natOfDigits ds := by
  have none : ds.dropWhile (· ≠ '.') = [] :=
    List.dropWhile_eq_nil_iff.mpr (ne_point_of_digits h)
  have all : ds.takeWhile (· ≠ '.') = ds := List.takeWhile_eq_self_iff.mpr (ne_point_of_digits h)
  simp only [plainValue, none, all]
  simp

theorem plainValue_point {ds : List Char} (h : AllDigits ds) (fraction : List Char) :
    plainValue (ds ++ '.' :: fraction) =
      natOfDigits (ds ++ fraction) * 10 ^ (-(fraction.length : ℤ)) := by
  have behind : (ds ++ '.' :: fraction).dropWhile (· ≠ '.') = '.' :: fraction := by
    rw [List.dropWhile_append_of_pos (ne_point_of_digits h)]
    rfl
  have before : (ds ++ '.' :: fraction).takeWhile (· ≠ '.') = ds := by
    rw [List.takeWhile_append_of_pos (ne_point_of_digits h)]
    exact List.append_nil ds
  simp only [plainValue, behind, before, List.drop_succ_cons, List.drop_zero]

/-- The digits of a decimal, with the point where the exponent says, stand for its value. -/
theorem plainValue_decimal (d : Decimal) : plainValue (Style.plain.decimal d) = d.value := by
  have digits : AllDigits d.digits := allDigits_toDigits _
  have row : natOfDigits d.digits = d.coefficient := natOfDigits_digits d
  change plainValue (Style.plain.placePoint d.digits d.exponent) = _
  unfold Style.placePoint value
  dsimp only
  split_ifs with nonneg whole inside
  · cases whole
  · have power : (10 : ℚ) ^ d.exponent = 10 ^ d.exponent.toNat := by
      rw [← zpow_natCast, Int.toNat_of_nonneg nonneg]
    rw [List.append_nil, plainValue_whole (digits.append (allDigits_zeros _)), natOfDigits_append,
      row, natOfDigits_zeros, List.length_replicate, power]
    push_cast
    ring
  · have front : AllDigits (d.digits.take (d.digits.length - d.exponent.natAbs)) :=
      fun c hc => digits c (List.mem_of_mem_take hc)
    have places : -((d.digits.drop (d.digits.length - d.exponent.natAbs)).length : ℤ)
        = d.exponent := by
      rw [List.length_drop]
      omega
    rw [plainValue_point front, List.take_append_drop, row, places]
  · have places : -((List.replicate (d.exponent.natAbs - d.digits.length) '0'
        ++ d.digits).length : ℤ) = d.exponent := by
      rw [List.length_append, List.length_replicate]
      omega
    have shape : '0' :: '.' :: (List.replicate (d.exponent.natAbs - d.digits.length) '0'
          ++ d.digits)
        = List.replicate 1 '0' ++ '.' :: (List.replicate (d.exponent.natAbs - d.digits.length) '0'
          ++ d.digits) := rfl
    rw [shape, plainValue_point (allDigits_zeros 1), places, natOfDigits_append, natOfDigits_append,
      natOfDigits_zeros, natOfDigits_zeros, row, zero_mul, zero_add, zero_mul, zero_add]

/-- A decimal denotes the number nearest to its value, also if that is zero. -/
theorem toFloat_eq_near_value (d : Decimal) : d.toFloat = near .positive d.value := by
  rcases Nat.eq_zero_or_pos d.coefficient with zero | pos
  · have none : significand 0 = 0 := by
      have := roundEven_natCast 0
      simpa [significand, scaled] using this
    rw [toFloat_of_coefficient_eq_zero zero, value, zero, Nat.cast_zero, zero_mul, near, rounded,
      dif_pos none]
    rfl
  · exact toFloat_eq_near pos

theorem exists_cons_decimal (d : Decimal) :
    ∃ c text, Style.plain.decimal d = c :: text ∧ c.isDigit = true := by
  have digits : AllDigits d.digits := allDigits_toDigits _
  obtain ⟨c, cs, shape⟩ : ∃ c cs, d.digits = c :: cs :=
    List.exists_cons_of_ne_nil Nat.toDigits_ne_nil
  rw [shape] at digits
  have first : c.isDigit = true := digits c List.mem_cons_self
  change ∃ _ _, Style.plain.placePoint d.digits d.exponent = _ ∧ _
  rw [shape]
  unfold Style.placePoint
  dsimp only
  split_ifs with nonneg whole inside
  · exact ⟨c, _, rfl, first⟩
  · exact ⟨c, _, rfl, first⟩
  · obtain ⟨k, some_⟩ : ∃ k, (c :: cs).length - d.exponent.natAbs = k + 1 :=
      ⟨(c :: cs).length - d.exponent.natAbs - 1, by omega⟩
    rw [some_]
    exact ⟨c, _, rfl, first⟩
  · exact ⟨'0', _, rfl, rfl⟩

/-- The magnitude that a plain text without a sign is of. -/
def ofPlainMagnitude (text : List Char) : Float :=
  if text = ['N', 'a', 'N'] then packed .notANumber
  else if text = ['i', 'n', 'f'] then packed (.infinity .positive)
  else near .positive (plainValue text)

/-- The number that a plain text is of. -/
def ofPlain : List Char → Float
  | '-' :: text => -ofPlainMagnitude text
  | text => ofPlainMagnitude text

/-- A number with the given sign, made of a magnitude. -/
def withSign (s : Sign) (x : Float) : Float :=
  match s with
  | .positive => x
  | .negative => -x

theorem ofPlain_sign (s : Sign) {c : Char} (h : c ≠ '-') (text : List Char) :
    ofPlain (Style.sign s ++ c :: text) = withSign s (ofPlainMagnitude (c :: text)) := by
  cases s with
  | negative => rfl
  | positive =>
    change ofPlain (c :: text) = ofPlainMagnitude (c :: text)
    unfold ofPlain
    split
    next same => exact absurd (List.cons.inj same).1 h
    next => rfl

theorem ofPlain_sign_decimal (s : Sign) (d : Decimal) :
    ofPlain (Style.sign s ++ Style.plain.decimal d) = withSign s d.toFloat := by
  obtain ⟨c, text, shape, digit⟩ := exists_cons_decimal d
  have other {letter : Char} (h : letter.isDigit = false) : c ≠ letter := by
    rintro rfl
    rw [digit] at h
    cases h
  have magnitude : ofPlainMagnitude (c :: text) = d.toFloat := by
    unfold ofPlainMagnitude
    rw [if_neg fun same => other (by rfl) (List.cons.inj same).1,
      if_neg fun same => other (by rfl) (List.cons.inj same).1, ← shape, plainValue_decimal,
      toFloat_eq_near_value]
  rw [shape, ofPlain_sign s (other (by rfl)), magnitude]

theorem withSign_abs {x : Float} {s : Sign} (h : HasSign s x.toModel.unpack) :
    withSign s x.abs = x := by
  apply eq_of_unpack_eq
  cases s with
  | positive =>
    rw [withSign, unpack_abs]
    cases hx : x.toModel.unpack <;> rw [hx] at h <;> cases h <;> rfl
  | negative =>
    rw [withSign, unpack_neg, unpack_abs]
    cases hx : x.toModel.unpack <;> rw [hx] at h <;> cases h <;> rfl

/-- Every number can be read off its plain text. -/
theorem ofPlain_chars (x : Float) : ofPlain (Style.plain.chars x) = x := by
  unfold Style.chars
  cases hx : x.toModel.unpack with
  | notANumber =>
    rw [← ofModel_pack_unpack x, hx]
    rfl
  | infinity s =>
    have magnitude : packed (.infinity .positive) = x.abs := by
      apply eq_of_unpack_eq
      rw [unpack_abs, hx]
      exact unpack_packedInfinity .positive
    have sign : HasSign s x.toModel.unpack := by rw [hx]; rfl
    rw [← withSign_abs sign, ← magnitude]
    exact ofPlain_sign s (by decide) ['n', 'f']
  | zero s =>
    have magnitude : (⟨0, 0⟩ : Decimal).toFloat = x.abs := by
      apply eq_of_unpack_eq
      rw [toFloat_of_coefficient_eq_zero rfl, unpack_abs, hx]
      rfl
    have sign : HasSign s x.toModel.unpack := by rw [hx]; rfl
    rw [← withSign_abs sign, ← magnitude]
    exact ofPlain_sign_decimal s ⟨0, 0⟩
  | finite s m q hm =>
    have positive : x.abs.toModel.unpack = .finite .positive m q hm := by
      rw [unpack_abs, hx]
      rfl
    have magnitude := (shortest_spec Style.plain.tie (toFloat_ofBinary positive)).1
    have sign : HasSign s x.toModel.unpack := by rw [hx]; rfl
    calc _ = withSign s (shortest Style.plain.tie x.abs (ofBinary m q)).toFloat :=
          ofPlain_sign_decimal s _
      _ = withSign s x.abs := by rw [magnitude]
      _ = x := withSign_abs sign

/-- Numbers with the same plain text are the same. -/
theorem plain_chars_injective : Function.Injective Style.plain.chars :=
  Function.LeftInverse.injective ofPlain_chars

/-- The characters of plain numbers: digits, a sign, a point, and the letters of the names of what
is not finite. -/
def isPlainChar (c : Char) : Bool := c.isDigit || ['-', '.', 'i', 'n', 'f', 'N', 'a'].contains c

theorem isPlainChar_of_isDigit {c : Char} (h : c.isDigit = true) : isPlainChar c = true := by
  rw [isPlainChar, h, Bool.true_or]

theorem isPlainChar_decimal (d : Decimal) :
    ∀ c ∈ Style.plain.decimal d, isPlainChar c = true := by
  have digits : ∀ c ∈ d.digits, isPlainChar c = true := fun c hc =>
    isPlainChar_of_isDigit (allDigits_toDigits _ c hc)
  have zeros (n : ℕ) : ∀ c ∈ List.replicate n '0', isPlainChar c = true := fun c hc =>
    isPlainChar_of_isDigit (allDigits_zeros n c hc)
  have point : isPlainChar '.' = true := rfl
  have zero : isPlainChar '0' = true := rfl
  change ∀ c ∈ Style.plain.placePoint d.digits d.exponent, _
  unfold Style.placePoint
  dsimp only
  split_ifs with nonneg whole inside
  · cases whole
  · simpa only [List.append_nil] using List.forall_mem_append.mpr ⟨digits, zeros _⟩
  · exact List.forall_mem_append.mpr ⟨fun c hc => digits c (List.mem_of_mem_take hc),
      List.forall_mem_cons.mpr ⟨point, fun c hc => digits c (List.mem_of_mem_drop hc)⟩⟩
  · exact List.forall_mem_cons.mpr ⟨zero, List.forall_mem_cons.mpr
      ⟨point, List.forall_mem_append.mpr ⟨zeros _, digits⟩⟩⟩

theorem isPlainChar_chars (x : Float) : ∀ c ∈ Style.plain.chars x, isPlainChar c = true := by
  have sign (s : Sign) : ∀ c ∈ Style.sign s, isPlainChar c = true := by
    cases s <;> simp [Style.sign, isPlainChar]
  unfold Style.chars
  cases x.toModel.unpack with
  | notANumber => simp [isPlainChar]
  | infinity s => exact List.forall_mem_append.mpr ⟨sign s, by simp [isPlainChar]⟩
  | zero s => exact List.forall_mem_append.mpr ⟨sign s, isPlainChar_decimal _⟩
  | finite s m q hm => exact List.forall_mem_append.mpr ⟨sign s, isPlainChar_decimal _⟩

end SymbolicRegression.Decimal
