import ExprCalculus.Evaluation.Arithmetic

/-!
# Elementary functions as expressions

Short names for the applications of elementary functions that derivatives and
antiderivatives are built from, and for the whole numbers in them.
-/

namespace ExprCalculus

namespace Expr

variable {α : Type}

def sin (operand : Expr α) : Expr α :=
  unary .sin operand

def cos (operand : Expr α) : Expr α :=
  unary .cos operand

def tan (operand : Expr α) : Expr α :=
  unary .tan operand

def sinh (operand : Expr α) : Expr α :=
  unary .sinh operand

def cosh (operand : Expr α) : Expr α :=
  unary .cosh operand

def tanh (operand : Expr α) : Expr α :=
  unary .tanh operand

def atan (operand : Expr α) : Expr α :=
  unary .atan operand

def exp (operand : Expr α) : Expr α :=
  unary .exp operand

def ln (operand : Expr α) : Expr α :=
  unary .ln operand

def sqrt (operand : Expr α) : Expr α :=
  unary .sqrt operand

def abs (operand : Expr α) : Expr α :=
  unary .abs operand

def sign (operand : Expr α) : Expr α :=
  unary .sign operand

def sec (operand : Expr α) : Expr α :=
  call "sec" operand []

def csc (operand : Expr α) : Expr α :=
  call "csc" operand []

def cot (operand : Expr α) : Expr α :=
  call "cot" operand []

def isVar (name : String) : Expr α → Bool
  | var other => other = name
  | _ => false

end Expr

namespace Arithmetic

variable {α : Type} (arithmetic : Arithmetic α)

def number (value : Int) : Expr α :=
  .const (arithmetic.ofInt value)

end Arithmetic

end ExprCalculus
