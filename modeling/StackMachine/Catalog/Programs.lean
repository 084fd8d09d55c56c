import StackMachine.Catalog.Entry

/-!
# The catalog

Ten programs: six that compute with integers directly or in a loop, two by recursion, one that
validation refuses, and one that never returns.  `Catalog.find?` looks a program up by name.
-/

namespace StackMachine.Catalog

/-! ### Arithmetic -/

def square : Entry where
  name := "square"
  intent := "Square an integer by calling a helper function"
  category := .arithmetic
  definitions :=
    [.ofOps [.call 1] [.integer] [.integer] 0,
      .ofOps [.store 0, .load 0, .load 0, .binary (.integer .multiply)] [.integer] [.integer] 1]
  cases :=
    [.ofIntegers [5] (.integer 25), .ofIntegers [10] (.integer 100),
      .ofIntegers [-4] (.integer 16)]

def subtract : Entry where
  name := "subtract"
  intent := "Subtract the second integer from the first"
  category := .arithmetic
  definitions := [.ofOps [.binary (.integer .subtract)] [.integer, .integer] [.integer] 0]
  cases := [.ofIntegers [5, 3] (.integer 2), .ofIntegers [10, 18] (.integer (-8))]

def parity : Entry where
  name := "parity"
  intent := "Return true when an integer is even"
  category := .arithmetic
  definitions :=
    [.ofOps
      [.push (.integer 2), .binary (.integer .modulus), .push (.integer 0),
        .binary (.compare .equal)]
      [.integer] [.boolean] 0]
  cases :=
    [.ofIntegers [4] (.boolean true), .ofIntegers [7] (.boolean false),
      .ofIntegers [-3] (.boolean false), .ofIntegers [0] (.boolean true)]

def divideByZero : Entry where
  name := "divide-by-zero"
  intent := "Divide an integer by zero, which yields zero"
  category := .arithmetic
  definitions :=
    [.ofOps [.push (.integer 0), .binary (.integer .divide)] [.integer] [.integer] 0]
  cases := [.ofIntegers [42] (.integer 0), .ofIntegers [0] (.integer 0)]

def minimum : Entry where
  name := "min"
  intent := "Return the smaller of two integers"
  category := .arithmetic
  definitions :=
    [.ofOps
      [.store 1, .store 0, .load 0, .load 1, .binary (.compare .lessThan), .branchIf false 8,
        .load 0, .exit,
        -- 8: the second is not larger
        .load 1]
      [.integer, .integer] [.integer] 2]
  cases :=
    [.ofIntegers [3, 9] (.integer 3), .ofIntegers [9, 3] (.integer 3),
      .ofIntegers [-1, -1] (.integer (-1))]

/-! ### Loops -/

def gcd : Entry where
  name := "gcd"
  intent := "Greatest common divisor by Euclid's algorithm in a loop"
  category := .loop
  definitions :=
    [.ofOps
      [.store 1, .store 0,
        -- 2: done if b is zero
        .load 1, .push (.integer 0), .binary (.compare .equal), .branchIf true 13,
        -- (a, b) becomes (b, a mod b)
        .load 0, .load 1, .binary (.integer .modulus), .load 1, .store 0, .store 1, .branch 2,
        -- 13: the result is a
        .load 0]
      [.integer, .integer] [.integer] 2]
  cases :=
    [.ofIntegers [48, 18] (.integer 6), .ofIntegers [17, 5] (.integer 1),
      .ofIntegers [9, 0] (.integer 9)]

/-! ### Recursion -/

def power : Entry where
  name := "power"
  intent := "Raise a base to a non-negative exponent by recursion"
  category := .recursive
  definitions :=
    [.ofOps [.call 1] [.integer, .integer] [.integer] 0,
      .ofOps
        [.store 1, .store 0, .load 1, .push (.integer 0), .binary (.compare .equal),
          .branchIf false 8, .push (.integer 1), .exit,
          -- 8: the power to one less, times the base
          .load 0, .load 1, .push (.integer 1), .binary (.integer .subtract), .call 1,
          .load 0, .binary (.integer .multiply)]
        [.integer, .integer] [.integer] 2]
  cases :=
    [.ofIntegers [5, 0] (.integer 1), .ofIntegers [5, 3] (.integer 125),
      .ofIntegers [2, 10] (.integer 1024)]

def factorial : Entry where
  name := "factorial"
  intent := "Compute n! by recursion, leaving early on the base case"
  category := .recursive
  definitions :=
    [.ofOps
      [.store 0, .load 0, .push (.integer 0), .binary (.compare .equal), .branchIf false 7,
        .push (.integer 1), .exit,
        -- 7: n times the factorial of one less
        .load 0, .load 0, .push (.integer 1), .binary (.integer .subtract), .call 0,
        .binary (.integer .multiply)]
      [.integer] [.integer] 1]
  cases :=
    [.ofIntegers [0] (.integer 1), .ofIntegers [5] (.integer 120),
      .ofIntegers [20] (.integer 2432902008176640000)]

/-! ### Programs that fail -/

def invalid : Entry where
  name := "invalid"
  intent := "Branch to itself, read a missing slot, declare no return value"
  category := .invalid
  definitions := [.ofOps [.branch 0, .load 3, .push (.integer 1)] [] [] 1]
  cases := []

def runaway : Entry where
  name := "runaway"
  intent := "Call itself forever until the call depth limit stops it"
  category := .runtime
  definitions := [.ofOps [.call 0] [] [.integer] 0]
  cases := []

/-! ### The whole catalog -/

def all : List Entry :=
  [square, subtract, parity, divideByZero, minimum, gcd, power, factorial, invalid, runaway]

def find? (name : String) : Option Entry :=
  all.find? (·.name = name)

end StackMachine.Catalog
