import FormulaSheet.Expr.Basic
import FormulaSheet.Policy

/-!
# Checking expressions against a policy

An expression offends a policy by a denied name, and by a property access that is not an allowed
method of a namespace. The check looks at every node, whether it would be evaluated or not.
-/

namespace FormulaSheet

/-- A reference outside a policy, as an error names it, and where it starts. -/
structure Offense where
  name : String
  position : Nat
deriving DecidableEq, Repr

namespace Expr

/-- The offense of a property access. A denied object is reported by itself, unless it is a
namespace too. -/
def memberOffense? (p : Policy) (target : Expr) (property : String) (span : Span) :
    Option Offense :=
  match target with
  | ident name _ =>
    if p.isSpace name then
      if p.isAllowed name property then none else some ⟨name ++ "." ++ property, span.start⟩
    else if p.isDenied name then none
    else some ⟨name ++ "." ++ property, span.start⟩
  | _ => some ⟨"(expr)." ++ property, span.start⟩

def offense? (p : Policy) : Expr → Option Offense
  | ident name span => if p.isDenied name then some ⟨name, span.start⟩ else none
  | member target property span => memberOffense? p target property span
  | _ => none

/-- The offenses of an expression, in source order. -/
def offenses (p : Policy) (e : Expr) : List Offense := e.nodes.filterMap (offense? p)

def isSafe (p : Policy) (e : Expr) : Bool := (e.offenses p).isEmpty

end Expr

end FormulaSheet
