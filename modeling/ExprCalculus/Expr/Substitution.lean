import ExprCalculus.Notice

/-!
# Substitution

An expression takes the place of a variable wherever that variable stands.  The
variable of an unknown integral can only be renamed: when another expression
takes its place, the integrand changes and the integral keeps its variable,
which is reported.
-/

namespace ExprCalculus

namespace Expr

variable {α : Type}

/-- The variable of an unknown integral over `bound` after an expression has
taken the place of the variable `name`. -/
def renamedBound (name bound : String) : Expr α → String
  | var other => if bound = name then other else bound
  | _ => bound

mutual

def substitute (name : String) (replacement : Expr α) : Expr α → Expr α
  | const value => const value
  | var other => if other = name then replacement else var other
  | unary operator operand => unary operator (substitute name replacement operand)
  | binary operator left right =>
      binary operator (substitute name replacement left) (substitute name replacement right)
  | call function first others =>
      call function (substitute name replacement first)
        (substituteAll name replacement others)
  | integral integrand bound =>
      integral (substitute name replacement integrand) (renamedBound name bound replacement)

def substituteAll (name : String) (replacement : Expr α) :
    List (Expr α) → List (Expr α)
  | [] => []
  | expression :: rest =>
      substitute name replacement expression :: substituteAll name replacement rest

end

mutual

/-- The number of unknown integrals over the given variable. -/
def integralsOver (name : String) : Expr α → Nat
  | const _ => 0
  | var _ => 0
  | unary _ operand => operand.integralsOver name
  | binary _ left right => left.integralsOver name + right.integralsOver name
  | call _ first others => first.integralsOver name + integralsOverAll name others
  | integral integrand bound =>
      (if bound = name then 1 else 0) + integrand.integralsOver name

def integralsOverAll (name : String) : List (Expr α) → Nat
  | [] => 0
  | expression :: rest => expression.integralsOver name + integralsOverAll name rest

end

/-- The reports made while a replacement takes the place of a variable: one for
each unknown integral over that variable, unless the replacement is a variable. -/
def substitutionNotices (name : String) (replacement expression : Expr α) :
    List (Notice α) :=
  match replacement with
  | var _ => []
  | _ => List.replicate (expression.integralsOver name) (.substitutedBound replacement name)

end Expr

end ExprCalculus
