import SymbolicRegression.Random.Source

/-!
# A permuted congruential generator

The state is a 64-bit word that advances by a linear congruence. A word handed out folds the high
bits of the state into its middle and rotates the result by its highest bits.
-/
namespace SymbolicRegression

/-- The state of a generator with 64 bits of state and 32 bits of output. -/
structure Pcg where
  state : UInt64
  /-- The odd summand of the congruence, which selects one of many sequences. -/
  increment : UInt64
deriving DecidableEq

namespace Pcg

/-- The factor of the congruence. -/
def multiplier : UInt64 := 6364136223846793005

/-- Turns the bits of a word to the right, the lowest ones coming back at the top. -/
def rotateRight (x : UInt32) (n : UInt32) : UInt32 := (x >>> n) ||| (x <<< (32 - n))

/-- The word that a state stands for. -/
def output (state : UInt64) : UInt32 :=
  rotateRight (((state >>> 18) ^^^ state) >>> 27).toUInt32 (state >>> 59).toUInt32

/-- The state behind a state. -/
def advance (g : Pcg) : Pcg := { g with state := g.state * multiplier + g.increment }

instance : WordSource Pcg where
  next g := (output g.state, g.advance)

/-- The generator that stretches a seed to the bits of a generator. -/
def stretch (seed : UInt64) (n : Nat) : UInt64 :=
  match n with
  | 0 => seed
  | n + 1 => stretch (seed * multiplier + 11634580027462260723) n

/-- The `n`-th word stretched from a seed. -/
def seedWord (seed : UInt64) (n : Nat) : UInt64 := (output (stretch seed (n + 1))).toUInt64

def ofSeed (seed : UInt64) : Pcg :=
  let a := seedWord seed 0 ||| seedWord seed 1 <<< 32
  let increment := (seedWord seed 2 ||| seedWord seed 3 <<< 32) ||| 1
  ⟨(a + increment) * multiplier + increment, increment⟩

end Pcg
end SymbolicRegression
