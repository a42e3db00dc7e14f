import SymbolicRegression.Expr.Json
import SymbolicRegression.Formula.Basic

/-!
# Formulas in documents

A formula is an object with the root of its tree.
-/
namespace SymbolicRegression.Formula

open Json

def form : Form (Option Expr) Formula where
  kind := "struct Formula"
  unknown := .skip
  empty := none
  check root := Formula.mk <$> required "root" root
  checkShort count _ := .error (.content (.wrongLength count "struct Formula with 1 element"))

/-- The fields of a formula, its tree being read by `expr`. -/
def slots {m : Type → Type} [Functor m] (expr : m Expr) : List (Slot m (Option Expr)) :=
  [.field "root" id (fun _ e => some e) expr]

def reader (depth : Nat) : Reader Formula :=
  Reader.record form (fun depth => slots (Expr.reader depth)) depth

def read (text : String) : Except Fault Formula := (reader depthLimit).run text

/-- The formula that a value held in memory is. -/
def ofValue (v : Value) : Except Fault Formula := form.ofValue (slots Expr.ofValue) v

def toValue (f : Formula) : Value := .object [("root", f.root.toValue)]

end SymbolicRegression.Formula
