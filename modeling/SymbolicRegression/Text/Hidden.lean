import SymbolicRegression.Text.HiddenRanges

/-!
# Characters that do not show

Controls, blanks other than the space, fillers, format, private and unassigned characters, and
marks that join the character before them cannot be told apart on paper.
-/
namespace SymbolicRegression

/-- Whether a character does not show. -/
def isHiddenChar (c : Char) : Bool :=
  hiddenRanges.any fun r => r.1 ≤ c.toNat && c.toNat ≤ r.2

end SymbolicRegression
