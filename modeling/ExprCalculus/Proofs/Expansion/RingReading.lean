import ExprCalculus.Proofs.Expansion.Distribution
import Mathlib.Tactic.Ring

/-!
# Expanding in commutative rings

Expressions are read in a commutative ring.  Sums, differences, products, signs and squares
are those of the ring, two is the sum of one and one, and everything else is read by any
functions.  Expanding keeps the element of the ring, as long as only the number two itself
is taken for the exponent of a square.
-/

namespace ExprCalculus

variable {α : Type}

/-- How the parts of expressions are read in a commutative ring: `raise` reads powers with a
constant exponent, and `integral` the marker of an unknown integral by what its integrand is
under all bindings. -/
structure RingReading (arithmetic : Arithmetic α) (R : Type*) [CommRing R] where
  constant : α → R
  constant_two : constant (arithmetic.ofInt 2) = 1 + 1
  raise : α → R → R
  raise_two : ∀ base, raise (arithmetic.ofInt 2) base = base * base
  unary : UnaryOperator → R → R
  binary : BinaryOperator → R → R → R
  call : String → List R → R
  integral : ((String → R) → R) → String → (String → R) → R

namespace RingReading

variable {arithmetic : Arithmetic α} {R : Type*} [CommRing R]

section Values

variable (reading : RingReading arithmetic R)

def unaryValue (operator : UnaryOperator) (operand : R) : R :=
  if operator = .negate then -operand else reading.unary operator operand

/-- The reading of a power, of which the exponent is given as an expression too. -/
def powerValue (exponent : Expr α) (base value : R) : R :=
  match exponent with
  | .const constant => reading.raise constant base
  | _ => reading.binary .power base value

def binaryValue (operator : BinaryOperator) (right : Expr α) (first second : R) : R :=
  match operator with
  | .add => first + second
  | .subtract => first - second
  | .multiply => first * second
  | .power => reading.powerValue right first second
  | other => reading.binary other first second

mutual

/-- The element that an expression is read as, under bindings of its variables. -/
def value (bindings : String → R) : Expr α → R
  | .const constant => reading.constant constant
  | .var name => bindings name
  | .unary operator operand => reading.unaryValue operator (value bindings operand)
  | .binary operator left right =>
      reading.binaryValue operator right (value bindings left) (value bindings right)
  | .call name first others => reading.call name (value bindings first :: values bindings others)
  | .integral integrand name =>
      reading.integral (fun others => value others integrand) name bindings

def values (bindings : String → R) : List (Expr α) → List R
  | [] => []
  | expression :: rest => value bindings expression :: values bindings rest

end

end Values

variable (reading : RingReading arithmetic R) (bindings : String → R)

section Nodes

variable (left right : Expr α)

@[simp]
theorem value_add : reading.value bindings (left + right) =
    reading.value bindings left + reading.value bindings right :=
  rfl

@[simp]
theorem value_sub : reading.value bindings (left - right) =
    reading.value bindings left - reading.value bindings right :=
  rfl

@[simp]
theorem value_mul : reading.value bindings (left * right) =
    reading.value bindings left * reading.value bindings right :=
  rfl

@[simp]
theorem value_two : reading.value bindings (.const (arithmetic.ofInt 2)) = 1 + 1 :=
  reading.constant_two

/-- A power with exponent two is a square. -/
@[simp]
theorem value_square : reading.value bindings
      (left ^ (.const (arithmetic.ofInt 2) : Expr α)) =
    reading.value bindings left * reading.value bindings left :=
  reading.raise_two _

end Nodes

section Products

theorem value_distributeRight (left right : Expr α) :
    reading.value bindings (Expr.distributeRight left right) =
      reading.value bindings left * reading.value bindings right := by
  fun_induction Expr.distributeRight left right with
  | case1 first second firstIH secondIH =>
      rw [value_add, firstIH, secondIH, ← mul_add]
      rfl
  | case2 first second firstIH secondIH =>
      rw [value_sub, firstIH, secondIH, ← mul_sub]
      rfl
  | case3 => rw [value_mul]

/-- Pushing a product through sums keeps the product. -/
theorem value_distribute (left right : Expr α) :
    reading.value bindings (Expr.distribute left right) =
      reading.value bindings left * reading.value bindings right := by
  fun_induction Expr.distribute left right with
  | case1 first second right firstIH secondIH =>
      rw [value_add, firstIH, secondIH, ← add_mul]
      rfl
  | case2 first second right firstIH secondIH =>
      rw [value_sub, firstIH, secondIH, ← sub_mul]
      rfl
  | case3 => exact value_distributeRight reading bindings _ _

theorem value_twiceProduct (left right : Expr α) :
    reading.value bindings (Expr.twiceProduct arithmetic left right) =
      (1 + 1) * reading.value bindings left * reading.value bindings right := by
  rw [Expr.twiceProduct, value_distribute, value_distribute, value_two]

/-- Writing out the squares of sums and differences keeps the square. -/
theorem value_expandedSquare (base : Expr α) :
    reading.value bindings (Expr.expandedSquare arithmetic base) =
      reading.value bindings base * reading.value bindings base := by
  fun_induction Expr.expandedSquare arithmetic base with
  | case1 first second firstIH secondIH =>
      have sum : reading.value bindings (.binary .add first second) =
          reading.value bindings first + reading.value bindings second := rfl
      rw [value_add, value_add, value_twiceProduct, firstIH, secondIH, sum]
      ring
  | case2 first second firstIH secondIH =>
      have difference : reading.value bindings (.binary .subtract first second) =
          reading.value bindings first - reading.value bindings second := rfl
      rw [value_add, value_sub, value_twiceProduct, firstIH, secondIH, difference]
      ring
  | case3 => rw [value_square]

end Products

end RingReading

namespace Expr

/-- A power that counts as the square of a sum or difference, once its base is expanded,
although its exponent is not the number two. -/
inductive InexactSquare (arithmetic : Arithmetic α) : Expr α → Prop
  | power {base : Expr α} {exponent : α}
      (sum : (base.expand arithmetic).isSumOrDifference = true)
      (near : arithmetic.near exponent (arithmetic.ofInt 2) = true)
      (other : exponent ≠ arithmetic.ofInt 2) :
      InexactSquare arithmetic (.binary .power base (.const exponent))

theorem not_inexactSquare_two {arithmetic : Arithmetic α} (base : Expr α) :
    ¬ InexactSquare arithmetic (.binary .power base (.const (arithmetic.ofInt 2))) := by
  rintro ⟨_, _, other⟩
  exact other rfl

theorem not_inexactSquare_binary {arithmetic : Arithmetic α} {operator : BinaryOperator}
    (noPower : operator ≠ .power) (left right : Expr α) :
    ¬ InexactSquare arithmetic (.binary operator left right) := by
  rintro ⟨⟩
  exact noPower rfl

/-- Only a constant is expanded to a constant, and it stays the same. -/
theorem eq_const_of_expand {arithmetic : Arithmetic α} {expression : Expr α} {constant : α}
    (becomes : expression.expand arithmetic = .const constant) : expression = .const constant := by
  have kinds : (expression.expand arithmetic).kind = expression.kind := kind_expand expression
  rw [becomes] at kinds
  cases expression with
  | const other => exact becomes
  | _ => cases kinds

end Expr

namespace RingReading

variable {arithmetic : Arithmetic α} {R : Type*} [CommRing R]
  (reading : RingReading arithmetic R)

/-- Expanding the exponent keeps the reading of a power, and other operators do not look at
their second operand. -/
theorem binaryValue_expand (operator : BinaryOperator) (right : Expr α) (first second : R) :
    reading.binaryValue operator (right.expand arithmetic) first second =
      reading.binaryValue operator right first second := by
  cases operator with
  | power =>
      change reading.powerValue _ _ _ = reading.powerValue _ _ _
      unfold powerValue
      split
      next constant expanded => rw [Expr.eq_const_of_expand expanded]
      next noConstant =>
        cases right with
        | const constant => exact absurd rfl (noConstant constant)
        | _ => rfl
  | _ => rfl

section Expanding

variable {left right : Expr α}

/-- Expanding a power keeps its reading if it keeps those of the base and the exponent. -/
theorem value_expand_power (exact : ¬ Expr.InexactSquare arithmetic (.binary .power left right))
    {bindings : String → R}
    (leftIH : reading.value bindings (left.expand arithmetic) = reading.value bindings left)
    (rightIH : reading.value bindings (right.expand arithmetic) = reading.value bindings right) :
    reading.value bindings ((Expr.binary .power left right).expand arithmetic) =
      reading.value bindings (.binary .power left right) := by
  rw [Expr.expand_power]
  split
  next square =>
    obtain ⟨sum, two⟩ := Bool.and_eq_true_iff.mp square
    cases expanded : right.expand arithmetic with
    | const exponent =>
        have isExponent := Expr.eq_const_of_expand expanded
        subst isExponent
        have isTwo : exponent = arithmetic.ofInt 2 := by
          by_contra other
          exact exact (.power sum two other)
        subst isTwo
        rw [value_expandedSquare, leftIH]
        exact (reading.raise_two _).symm
    | _ =>
        rw [expanded] at two
        cases two
  next => rw [value, binaryValue_expand, leftIH, rightIH, value]

mutual

theorem value_expand {expression : Expr α}
    (exact : ¬ Expr.Somewhere (Expr.InexactSquare arithmetic) expression)
    (bindings : String → R) :
    reading.value bindings (expression.expand arithmetic) =
      reading.value bindings expression := by
  have below {child : Expr α} (member : child ∈ expression.children) :
      ¬ Expr.Somewhere (Expr.InexactSquare arithmetic) child :=
    fun found => exact (.inside member found)
  match expression with
  | .const constant => rfl
  | .var name => rfl
  | .unary operator operand =>
      rw [Expr.expand, value, value_expand (below List.mem_cons_self), value]
  | .binary operator left right =>
      have leftIH := value_expand (below List.mem_cons_self) bindings
      have rightIH := value_expand (below (List.mem_cons_of_mem _ List.mem_cons_self)) bindings
      by_cases isProduct : operator = .multiply
      · subst isProduct
        rw [Expr.expand_product, value_distribute, leftIH, rightIH]
        rfl
      by_cases isPower : operator = .power
      · subst isPower
        exact reading.value_expand_power (fun inexact => exact (.here inexact)) leftIH rightIH
      · rw [Expr.expand_binary isProduct isPower, value, binaryValue_expand, leftIH, rightIH, value]
  | .call name first others =>
      rw [Expr.expand, value, value_expand (below List.mem_cons_self),
        values_expandAll fun other member => below (List.mem_cons_of_mem _ member), value]
  | .integral integrand name =>
      have same (others : String → R) :=
        value_expand (below List.mem_cons_self) others
      rw [Expr.expand, value, value]
      simp only [same]

theorem values_expandAll {expressions : List (Expr α)}
    (exact : ∀ expression ∈ expressions,
      ¬ Expr.Somewhere (Expr.InexactSquare arithmetic) expression)
    (bindings : String → R) :
    reading.values bindings (Expr.expandAll arithmetic expressions) =
      reading.values bindings expressions := by
  match expressions with
  | [] => rfl
  | expression :: rest =>
      obtain ⟨firstExact, restExact⟩ := List.forall_mem_cons.mp exact
      rw [Expr.expandAll, values, value_expand firstExact, values_expandAll restExact, values]

end

end Expanding

end RingReading

/-- Pushing a product through sums keeps it in every commutative ring, and expanding keeps
every expression in which only the number two itself squares a sum or difference. -/
theorem expand_keeps_ring_element {arithmetic : Arithmetic α} {R : Type*} [CommRing R]
    (reading : RingReading arithmetic R) (bindings : String → R) :
    (∀ left right, reading.value bindings (Expr.distribute left right) =
        reading.value bindings left * reading.value bindings right) ∧
      ∀ expression, ¬ Expr.Somewhere (Expr.InexactSquare arithmetic) expression →
        reading.value bindings (expression.expand arithmetic) =
          reading.value bindings expression :=
  ⟨reading.value_distribute bindings, fun _ exact => reading.value_expand exact bindings⟩

section Example

def rationalReading : RingReading (Doubles.arithmetic .standard) ℚ where
  constant value := (Binary64.toRat? value).getD 0
  constant_two := by decide +kernel
  raise exponent base := base ^ (Binary64.nearestInt? exponent).getD 0
  raise_two base := by
    have isTwo : (Binary64.nearestInt? (Binary64.ofInt 2)).getD 0 = 2 := by decide +kernel
    change base ^ (Binary64.nearestInt? (Binary64.ofInt 2)).getD 0 = _
    rw [isTwo, zpow_two]
  unary operator operand := if operator = .abs then |operand| else 0
  binary operator first second := if operator = .divide then first / second else 0
  call _ arguments := arguments.sum
  integral integrand _ bindings := integrand bindings

/-- The square of the difference of a square and a number, times a sum. -/
def squaredDifference : Expr Float :=
  let two : Expr Float := .const (Binary64.ofInt 2)
  let difference := .binary .subtract (.var "x") (.var "y")
  .binary .multiply
    (.binary .power (.binary .subtract (.binary .power difference two) (.var "z")) two)
    (.binary .add (.var "x") (.const (Binary64.ofInt 1)))

theorem expand_keeps_squaredDifference :
    ¬ Expr.Somewhere (Expr.InexactSquare (Doubles.arithmetic .standard)) squaredDifference ∧
      rationalReading.value (fun name => if name = "z" then 5 else if name = "x" then 3 else 1)
        (squaredDifference.expand (Doubles.arithmetic .standard)) = 4 := by
  have exact :
      ¬ Expr.Somewhere (Expr.InexactSquare (Doubles.arithmetic .standard)) squaredDifference := by
    have square := @Expr.not_inexactSquare_two _ (Doubles.arithmetic .standard)
    have plain := @Expr.not_inexactSquare_binary _ (Doubles.arithmetic .standard)
    simp only [squaredDifference, Expr.somewhere_binary, Expr.somewhere_var, Expr.somewhere_const,
      not_or]
    refine ⟨plain (by decide) _ _, ⟨square _, ⟨plain (by decide) _ _,
      ⟨square _, ⟨plain (by decide) _ _, nofun, nofun⟩, nofun⟩, nofun⟩, nofun⟩,
      plain (by decide) _ _, nofun, nofun⟩
  refine ⟨exact, ?_⟩
  rw [(expand_keeps_ring_element rationalReading _).2 _ exact]
  decide +kernel

end Example

end ExprCalculus
