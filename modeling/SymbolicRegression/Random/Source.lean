/-!
# Sources of random words

All randomness is a sequence of 32-bit words. A source hands out the next word together with what
is left of it, so a computation that starts from the same source takes the same course.
-/
namespace SymbolicRegression

/-- A supply of 32-bit words without end. -/
class WordSource (σ : Type) where
  /-- The next word, and the source behind it. -/
  next : σ → UInt32 × σ

namespace WordSource

variable {σ : Type} [WordSource σ]

/-- The next word. -/
def word (s : σ) : UInt32 := (next s).1

/-- The source behind the next word. -/
def rest (s : σ) : σ := (next s).2

/-- The source behind the next `n` words. -/
def drop : Nat → σ → σ
  | 0, s => s
  | n + 1, s => drop n (rest s)

end WordSource

/-- A source together with the number of words taken from it. -/
structure Metered (σ : Type) where
  source : σ
  taken : Nat

instance {σ : Type} [WordSource σ] : WordSource (Metered σ) where
  next m := (WordSource.word m.source, ⟨WordSource.rest m.source, m.taken + 1⟩)

/-- Given words, handed out again from the start after the last one. Without any word all are
zero. -/
structure Script where
  words : Array UInt32
  position : Nat

namespace Script

/-- A script that has not been used. -/
def ofWords (words : Array UInt32) : Script := ⟨words, 0⟩

instance : WordSource Script where
  next s :=
    (s.words[s.position % s.words.size]?.getD 0, { s with position := s.position + 1 })

end Script
end SymbolicRegression
