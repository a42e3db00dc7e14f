import SymbolicRegression.Random.Source

/-!
# Drawing from a source

A draw takes words from a source and makes of them a decision, a position or a number. An empty
range, a range of numbers without a finite width and a chance outside of zero to one admit no draw.
-/
namespace SymbolicRegression

/-- Why nothing could be drawn. -/
inductive DrawError where
  /-- The width of a range of numbers is not finite. -/
  | unboundedRange
  /-- There is nothing to choose from. -/
  | emptyRange
  /-- A chance does not lie between zero and one. -/
  | noChance
  /-- A tree being generated grew too deep. -/
  | tooDeep
deriving DecidableEq

/-- Whether the upper end of a range of numbers belongs to it. -/
inductive RangeEnd where
  | excluded
  | included

/-- Whether no number lies between two ends. -/
def RangeEnd.isEmpty (last : RangeEnd) (low high : Float) : Bool :=
  match last with
  | excluded => !(low < high)
  | included => !(low ≤ high)

/-- A computation that takes words from a source of type `σ`. -/
abbrev Draw (σ : Type) := StateT σ (Except DrawError)

namespace Draw

variable {σ : Type} [WordSource σ]

def fail {α : Type} (e : DrawError) : Draw σ α := throw e

def word : Draw σ UInt32 := fun s => .ok (WordSource.next s)

/-- A word of 64 bits, its low half drawn first. -/
def wide : Draw σ UInt64 := do
  let low ← word
  let high ← word
  pure (low.toUInt64 ||| high.toUInt64 <<< 32)

/-- The number of wide words below which a draw counts as a hit: the part `p` of all of them,
rounded down. -/
def hits (p : Float) : UInt64 := (p * 18446744073709551616.0).toUInt64

/-- True with probability `p`. A sure hit takes no words. -/
def chance (p : Float) : Draw σ Bool :=
  if p == 1.0 then pure true
  else if 0.0 ≤ p ∧ p < 1.0 then do
    let v ← wide
    pure (v < hits p)
  else fail .noChance

/-- The part of a unit that a wide word stands for, by its 52 highest bits. -/
def unit (v : UInt64) : Float := (v >>> 12).toFloat * 2.220446049250313e-16

/-- A number from `low` towards `high`. Whether there is one is asked before the width. -/
def between (last : RangeEnd) (low high : Float) : Draw σ Float :=
  let width := high - low
  if last.isEmpty low high then fail .emptyRange
  else if width.isFinite then do
    let v ← wide
    pure (unit v * width + low)
  else fail .unboundedRange

/-- The position below `n` that a draw from `size` values stands for: the values are dealt out in
equal steps, and a second draw `second` decides those near the end of a step. -/
def position (size n first second : Nat) : Nat :=
  let product := first * n
  if size - n < product % size ∧ size ≤ product % size + second * n / size then
    product / size + 1
  else product / size

/-- Whether the first draw leaves the position open. -/
def needsSecond (size n first : Nat) : Bool := size - n < first * n % size

theorem position_lt {size n first second : Nat} (hn : 0 < n) (h : first < size) :
    position size n first second < n := by
  have hsize : 0 < size := by omega
  have hproduct : first * n ≤ size * n - n := by
    rw [← Nat.sub_one_mul]
    exact Nat.mul_le_mul_right n (by omega)
  have hquotient : first * n / size < n := by
    rw [Nat.div_lt_iff_lt_mul hsize]
    have : n ≤ size * n := Nat.le_mul_of_pos_left n hsize
    rw [Nat.mul_comm n size]
    omega
  unfold position
  simp only
  split
  next open_ =>
    by_cases last : first * n / size = n - 1
    · exfalso
      have split := Nat.div_add_mod (first * n) size
      rw [last, Nat.mul_sub, Nat.mul_one] at split
      have : size ≤ size * n := Nat.le_mul_of_pos_right size hn
      omega
    · omega
  next => exact hquotient

/-- A position below `n` from draws of `size` values each. -/
def positionBelow (size n : Nat) (draw : Draw σ { v : Nat // v < size }) : Draw σ (Fin n) :=
  if hn : 0 < n then do
    let first ← draw
    if needsSecond size n first then
      let second ← draw
      pure ⟨position size n first second, position_lt hn first.2⟩
    else pure ⟨position size n first 0, position_lt hn first.2⟩
  else fail .emptyRange

/-- A word as a number below its size. -/
def bounded : Draw σ { v : Nat // v < UInt32.size } := do
  let v ← word
  pure ⟨v.toNat, v.toNat_lt⟩

/-- A wide word as a number below its size. -/
def boundedWide : Draw σ { v : Nat // v < UInt64.size } := do
  let v ← wide
  pure ⟨v.toNat, v.toNat_lt⟩

/-- A position below `n`. Single words are enough unless `n` itself takes more than one. -/
def below (n : Nat) : Draw σ (Fin n) :=
  if n < UInt32.size then positionBelow UInt32.size n bounded
  else positionBelow UInt64.size n boundedWide

end Draw
end SymbolicRegression
