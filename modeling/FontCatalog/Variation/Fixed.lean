/-!
# Fixed-point numbers

Variations are computed in fixed point: a whole number of 65536ths, in 32
bits. Such a number is an `Int` here, and what a 32-bit machine word does
to a result is said where it can show: `wrap32` keeps the lower 32 bits.

Coordinates of named instances pass through single precision, which keeps
24 binary digits (`singlePrecision`).
-/

namespace FontCatalog.Fixed

/-- The number one. -/
def one : Int := 65536

/-- The largest number, which also stands for a quotient by zero. -/
def largest : Int := 0x7FFFFFFF

/-- The number whose lower 32 bits are those of `n`. -/
def wrap32 (n : Int) : Int := Int.bmod n 0x100000000

/-- The number whose lower 16 bits are those of `n`. -/
def wrap16 (n : Int) : Int := Int.bmod n 0x10000

/-- The difference, held at the ends of the range. -/
def subSaturating (a b : Int) : Int := max (-0x80000000) (min largest (a - b))

/-- **The product of `a` and `b` over `c`**, the absolute values divided
with halves rounded up and the sign put back. -/
def mulDiv (a b c : Int) : Int :=
  let quotient : Int :=
    if c = 0 then largest
    else wrap32 ((a.natAbs * b.natAbs + c.natAbs / 2) / c.natAbs : Nat)
  if (a < 0) != ((b < 0) != (c < 0)) then wrap32 (-quotient) else quotient

/-- The quotient of two numbers. -/
def div (a b : Int) : Int := mulDiv a one b

/-- A number held between two others; the lower one wins if they are out
of order. -/
def clamp (lo hi n : Int) : Int := if n < lo then lo else if hi < n then hi else n

/-- `n` rounded to 24 binary digits, a tie going to the even neighbour. -/
def roundDigits (n : Nat) : Nat :=
  let extra := n.log2 + 1 - 24
  let unit := Nat.pow 2 extra
  let q := n / unit
  let r := n % unit
  (if unit < 2 * r ∨ (2 * r = unit ∧ q % 2 = 1) then q + 1 else q) * unit

/-- **A number passed through single precision** and back. -/
def singlePrecision (n : Int) : Int :=
  if n < 0 then max (-0x80000000) (-(roundDigits n.natAbs : Int))
  else min largest (roundDigits n.natAbs)

end FontCatalog.Fixed
