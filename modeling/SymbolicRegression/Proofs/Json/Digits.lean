import SymbolicRegression.Json.Numeral
import SymbolicRegression.Proofs.Decimal.Nearest

/-!
# The number behind a row of digits

A row of digits is read as a whole number from the left. Zeros in front of it do not count, zeros
behind it are factors of ten, and a row that does not start with a zero is as long as its number is
large.
-/
namespace SymbolicRegression.Json

def AllDigits (ds : List Char) : Prop := ∀ c ∈ ds, c.isDigit = true

theorem allDigits_toDigits (n : ℕ) : AllDigits (Nat.toDigits 10 n) := fun _ h =>
  Nat.isDigit_of_mem_toDigits (by norm_num) (by norm_num) h

theorem AllDigits.append {a b : List Char} (ha : AllDigits a) (hb : AllDigits b) :
    AllDigits (a ++ b) := by
  intro c hc
  rcases List.mem_append.mp hc with h | h
  · exact ha c h
  · exact hb c h

theorem allDigits_zeros (n : ℕ) : AllDigits (List.replicate n '0') := by
  intro c hc
  rw [List.eq_of_mem_replicate hc]
  rfl

theorem natOfDigits_eq (ds : List Char) : natOfDigits ds = Nat.ofDigitChars 10 ds 0 := by
  unfold natOfDigits
  rw [Nat.ofDigitChars_eq_foldl]
  congr 1
  funext n c
  rw [Nat.mul_comm]
  rfl

@[simp] theorem natOfDigits_toDigits (n : ℕ) : natOfDigits (Nat.toDigits 10 n) = n := by
  rw [natOfDigits_eq, Nat.ofDigitChars_ten_toDigits]

theorem natOfDigits_append (a b : List Char) :
    natOfDigits (a ++ b) = natOfDigits a * 10 ^ b.length + natOfDigits b := by
  rw [natOfDigits_eq, natOfDigits_eq, natOfDigits_eq, Nat.ofDigitChars_append,
    Nat.ofDigitChars_eq_ofDigitChars_zero, Nat.mul_comm]

@[simp] theorem natOfDigits_zeros (n : ℕ) : natOfDigits (List.replicate n '0') = 0 := by
  rw [natOfDigits_eq, Nat.ofDigitChars_replicate_zero, Nat.mul_zero]

theorem natOfDigits_dropWhile_zero (ds : List Char) :
    natOfDigits (ds.dropWhile (· = '0')) = natOfDigits ds := by
  induction ds with
  | nil => rfl
  | cons c ds ih =>
    rw [List.dropWhile_cons]
    split
    next zero =>
      have zero : c = '0' := by simpa using zero
      have split := natOfDigits_append ['0'] ds
      rw [ih, zero]
      rw [show natOfDigits ['0'] = 0 from rfl, Nat.zero_mul, Nat.zero_add] at split
      exact split.symm
    next => rfl

/-- A row of digits without the zeros at its end, and how many there are. -/
theorem exists_trailing_zeros (ds : List Char) :
    ∃ k, ds = (ds.reverse.dropWhile (· = '0')).reverse ++ List.replicate k '0' := by
  refine ⟨(ds.reverse.takeWhile (· = '0')).length, ?_⟩
  have zeros : ds.reverse.takeWhile (· = '0')
      = List.replicate (ds.reverse.takeWhile (· = '0')).length '0' := by
    rw [List.eq_replicate_iff]
    exact ⟨rfl, fun c hc => by simpa using List.all_eq_true.mp List.all_takeWhile c hc⟩
  have split := congrArg List.reverse
    (List.takeWhile_append_dropWhile (p := fun c => decide (c = '0')) (l := ds.reverse))
  rw [List.reverse_append, List.reverse_reverse] at split
  rw [zeros, List.reverse_replicate] at split
  exact split.symm

/-- A row that does not start with a zero is as long as its number is large. -/
theorem pow_length_le_natOfDigits {c : Char} {ds : List Char} (digit : c.isDigit = true)
    (hc : c ≠ '0') : 10 ^ ds.length ≤ natOfDigits (c :: ds) := by
  have value : 1 ≤ c.toNat - 48 := by
    have bounds : 48 ≤ c.val ∧ c.val ≤ 57 := by simpa [Char.isDigit] using digit
    have low : 48 ≤ c.toNat := bounds.1
    have ne : c.toNat ≠ 48 := fun h => hc (Char.toNat_inj.mp h)
    omega
  have split := natOfDigits_append [c] ds
  have single : natOfDigits [c] = c.toNat - 48 := by simp [natOfDigits]
  rw [List.singleton_append, single] at split
  rw [split]
  calc 10 ^ ds.length = 1 * 10 ^ ds.length := (Nat.one_mul _).symm
    _ ≤ (c.toNat - 48) * 10 ^ ds.length := Nat.mul_le_mul_right _ value
    _ ≤ _ := Nat.le_add_right _ _

/-- A number below a power of ten has no more digits than that, but for zeros in front. -/
theorem length_significant_le {ds : List Char} (digits : AllDigits ds) {n : ℕ}
    (h : natOfDigits ds < 10 ^ n) : (ds.dropWhile (· = '0')).length ≤ n := by
  rw [← natOfDigits_dropWhile_zero] at h
  cases rest : ds.dropWhile (· = '0') with
  | nil => exact Nat.zero_le n
  | cons c cs =>
    have first : c ≠ '0' := by
      have head : ∀ hne, ¬decide ((ds.dropWhile (· = '0')).head hne = '0') = true :=
        fun hne => by
          have := List.head_dropWhile_not (fun c => decide (c = '0')) hne
          simpa using this
      have := head (by rw [rest]; simp)
      simpa [rest] using this
    have digit : c.isDigit = true :=
      digits c ((List.dropWhile_sublist _).subset (by rw [rest]; exact List.mem_cons_self))
    rw [rest] at h
    have large : 10 ^ cs.length ≤ natOfDigits (c :: cs) := pow_length_le_natOfDigits digit first
    have := (Nat.pow_lt_pow_iff_right (by norm_num : 1 < 10)).mp (large.trans_lt h)
    rw [List.length_cons]
    omega

end SymbolicRegression.Json
