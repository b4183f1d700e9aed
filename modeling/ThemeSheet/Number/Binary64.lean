/-!
# Binary64 numbers

The floating-point numbers a theme tree can hold, as exact data: a sign with a magnitude
`m * 2 ^ q`, an infinity, or not-a-number. Nothing here is machine arithmetic, so every
operation can be evaluated and reasoned about; each one computes the exact result as a ratio of
naturals and rounds **once**, to nearest with ties to even.

Not-a-number has a sign, which is not written and which no comparison of numbers looks at. It only
tells one not-a-number from another where the identity of values counts.

Every operation returns canonical data: either `2 ^ 52 ≤ m < 2 ^ 53`, or `q = -1074` with
`m < 2 ^ 52`. Equal numbers of one sign are therefore equal data, and zero keeps its sign.

## Main definitions

* `Binary64`, and `Binary64.ofRatio`, the rounding of a quotient of naturals;
* `Binary64.ofDecimal`, the reading of `digits * 10 ^ exponent`;
* `add`, `sub`, `mul`, `divNat`, `fraction`, and the order `lt`;
* `isInteger`, `truncate` and `isInt`, the traffic with the integers.
-/

namespace ThemeSheet

/-- A binary64 number. A finite one is `± mantissa * 2 ^ exponent`. -/
inductive Binary64 where
  | nan (negative : Bool)
  | infinite (negative : Bool)
  | finite (negative : Bool) (mantissa : Nat) (exponent : Int)
deriving DecidableEq, Repr, Inhabited

namespace Binary64

/-! ### Rounding -/

/-- The natural number nearest to `num / den`; a half goes to the even neighbour. -/
def roundQuotient (num den : Nat) : Nat :=
  let quotient := num / den
  let twice := 2 * (num % den)
  if twice < den then quotient
  else if den < twice then quotient + 1
  else if quotient % 2 = 0 then quotient else quotient + 1

/-- Whether `den * 2 ^ e ≤ num`. -/
def twoPowLe (e : Int) (num den : Nat) : Bool :=
  if 0 ≤ e then decide (den <<< e.toNat ≤ num) else decide (den ≤ num <<< (-e).toNat)

/-- The exponent `e` with `2 ^ e ≤ num / den < 2 ^ (e + 1)`, for positive `num` and `den`. -/
def log2Ratio (num den : Nat) : Int :=
  let e : Int := (num.log2 : Int) - (den.log2 : Int)
  if twoPowLe e num den then e else e - 1

/-- The zero of a sign. -/
def zero (negative : Bool) : Binary64 := .finite negative 0 (-1074)

/-- The number nearest to `± num / den`, for positive `den`; too large a quotient is infinite. -/
def ofRatio (negative : Bool) (num den : Nat) : Binary64 :=
  if num = 0 then zero negative
  else
    let q := max (log2Ratio num den - 52) (-1074)
    let m := if 0 ≤ q then roundQuotient num (den <<< q.toNat)
      else roundQuotient (num <<< (-q).toNat) den
    let (m, q) := if m = Nat.pow 2 53 then (Nat.pow 2 52, q + 1) else (m, q)
    if 971 < q then .infinite negative else .finite negative m q

/-- The number nearest to `± m * 2 ^ q`. -/
def ofScaled (negative : Bool) (m : Nat) (q : Int) : Binary64 :=
  if 0 ≤ q then ofRatio negative (m <<< q.toNat) 1 else ofRatio negative m (1 <<< (-q).toNat)

/-- The number nearest to a natural number. -/
def ofNat (n : Nat) : Binary64 := ofRatio false n 1

/-- The number of decimal digits of `n`; zero has none. -/
def decimalDigits (n : Nat) : Nat := if n = 0 then 0 else (Nat.toDigits 10 n).length

/-- The number nearest to `± digits * 10 ^ exponent`. A magnitude of `10 ^ 400` or more, or below
`10 ^ -400`, is decided by its exponent alone, so no power of ten beyond that is ever built. -/
def ofDecimal (negative : Bool) (digits : Nat) (exponent : Int) : Binary64 :=
  if digits = 0 then zero negative
  else
    let top := exponent + (decimalDigits digits : Int)
    if 400 < top then .infinite negative
    else if top < -400 then zero negative
    else if 0 ≤ exponent then ofRatio negative (digits * Nat.pow 10 exponent.toNat) 1
    else ofRatio negative digits (Nat.pow 10 (-exponent).toNat)

/-! ### Arithmetic -/

/-- `m` with a sign, as an integer. -/
def signed (negative : Bool) (m : Nat) : Int := if negative then -(m : Int) else (m : Int)

/-- The number with the other sign. -/
def neg : Binary64 → Binary64
  | .nan s => .nan !s
  | .infinite s => .infinite !s
  | .finite s m q => .finite (!s) m q

/-- The sum. Infinities of two signs have none. -/
def add : Binary64 → Binary64 → Binary64
  | .nan s, _ => .nan s
  | _, .nan s => .nan s
  | .infinite s, .infinite t => if s = t then .infinite s else .nan true
  | .infinite s, .finite .. => .infinite s
  | .finite .., .infinite t => .infinite t
  | .finite s m q, .finite t n r =>
    let low := min q r
    let sum := signed s (m <<< (q - low).toNat) + signed t (n <<< (r - low).toNat)
    if sum = 0 then zero (s && t) else ofScaled (decide (sum < 0)) sum.natAbs low

/-- The difference. -/
def sub (x y : Binary64) : Binary64 := add x (neg y)

/-- The product. Zero times an infinity is not a number. -/
def mul : Binary64 → Binary64 → Binary64
  | .nan s, _ => .nan s
  | _, .nan s => .nan s
  | .infinite s, .infinite t => .infinite (s ^^ t)
  | .infinite s, .finite t n _ => if n = 0 then .nan true else .infinite (s ^^ t)
  | .finite s m _, .infinite t => if m = 0 then .nan true else .infinite (s ^^ t)
  | .finite s m q, .finite t n r => ofScaled (s ^^ t) (m * n) (q + r)

/-- The quotient by a positive natural number. -/
def divNat (x : Binary64) (n : Nat) : Binary64 :=
  match x with
  | .nan s => .nan s
  | .infinite s => .infinite s
  | .finite s m q =>
    if 0 ≤ q then ofRatio s (m <<< q.toNat) n else ofRatio s m (n <<< (-q).toNat)

/-- The part of a number past its floor, which is what remains modulo one. A number without a
floor has none. -/
def fraction : Binary64 → Binary64
  | .nan s => .nan s
  | .infinite _ => .nan true
  | .finite s m q =>
    let part := if 0 ≤ q then 0 else m % 1 <<< (-q).toNat
    if part = 0 then zero false
    else if s then add (ofScaled true part q) (ofNat 1) else ofScaled false part q

/-! ### Order and integers -/

/-- Whether the first number is below the second; not-a-number is below nothing. -/
def lt : Binary64 → Binary64 → Bool
  | .nan _, _ => false
  | _, .nan _ => false
  | .infinite s, .infinite t => s && !t
  | .infinite s, .finite .. => s
  | .finite .., .infinite t => !t
  | .finite s m q, .finite t n r =>
    let low := min q r
    decide (signed s (m <<< (q - low).toNat) < signed t (n <<< (r - low).toNat))

/-- Equality of values: the two zeros are equal, and not-a-number equals nothing. -/
def same : Binary64 → Binary64 → Bool
  | .nan _, _ => false
  | _, .nan _ => false
  | .finite s m q, .finite t n r => (decide (m = 0) && decide (n = 0)) ||
      (decide (s = t) && decide (m = n) && decide (q = r))
  | .infinite s, .infinite t => decide (s = t)
  | _, _ => false

/-- Whether it is not-a-number, of either sign. -/
def isNan : Binary64 → Bool
  | .nan _ => true
  | _ => false

/-- Whether the number is zero, of either sign. -/
def isZero : Binary64 → Bool
  | .finite _ m _ => decide (m = 0)
  | _ => false

/-- Whether the number is finite and integral. -/
def isInteger : Binary64 → Bool
  | .finite _ m q => decide (0 ≤ q) || decide (m % 1 <<< (-q).toNat = 0)
  | _ => false

/-- A finite number without its fraction. -/
def truncate : Binary64 → Int
  | .finite s m q => signed s (if 0 ≤ q then m <<< q.toNat else m >>> (-q).toNat)
  | _ => 0

/-- Whether the number is the integer `n`. -/
def isInt (x : Binary64) (n : Int) : Bool := x.isInteger && decide (x.truncate = n)

end Binary64

end ThemeSheet
