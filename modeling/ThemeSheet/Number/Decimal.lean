import ThemeSheet.Number.Binary64

/-!
# Decimal texts of numbers

Two ways of choosing decimal digits for a binary64 number, and one layout for both.

* `shortest` chooses the fewest digits that read back as the number. For one digit, two, … it looks
  at the number's two neighbours on that decimal grid: the first grid with a neighbour inside the
  interval of reals that round to the number wins, and of two such neighbours the nearer.
* `rounded` chooses a fixed count of significant digits, rounded to nearest.

`Layout` says where positional notation ends and whether an integral value keeps a fraction.
Integers have a decimal text of at most `integerDigitLimit` digits; a longer one is refused, which
is why `intText?` is partial in its result.

## Main definitions

* `Digits`, `shortest`, `rounded`;
* `Layout.plain`, the text of a number standing alone, and `Layout.six`, six significant digits;
* `intText?`, `integerDigitLimit`, `tooLongText`.
-/

namespace ThemeSheet

/-- A positive decimal `coefficient * 10 ^ exponent`. -/
structure Digits where
  coefficient : Nat
  exponent : Int
deriving DecidableEq, Repr

namespace Decimal

/-- Whether `den * 10 ^ e ≤ num`. -/
def tenPowLe (e : Int) (num den : Nat) : Bool :=
  if 0 ≤ e then decide (den * Nat.pow 10 e.toNat ≤ num)
  else decide (den ≤ num * Nat.pow 10 (-e).toNat)

/-- The exponent `e` with `10 ^ e ≤ num / den < 10 ^ (e + 1)`, for positive `num` and `den`: the
binary exponent times `log₁₀ 2` is off by at most one. -/
def log10Ratio (num den : Nat) : Int :=
  let guess := Int.fdiv (Binary64.log2Ratio num den * 30103) 100000
  if tenPowLe (guess + 1) num den then guess + 1
  else if tenPowLe guess num den then guess
  else guess - 1

/-- The ratio `num / den` in units of `10 ^ e`. -/
def inUnits (e : Int) (num den : Nat) : Nat × Nat :=
  if 0 ≤ e then (num, den * Nat.pow 10 e.toNat) else (num * Nat.pow 10 (-e).toNat, den)

/-! ### Choosing digits -/

/-- The reals that round to `m * 2 ^ q`, as bounds over `den` together with the number itself. The
ends belong to the interval exactly when `m` is even. -/
structure Interval where
  low : Nat
  value : Nat
  high : Nat
  den : Nat
  closed : Bool

/-- The interval of `m * 2 ^ q`. Below a power of two the neighbour is half as far away. -/
def interval (m : Nat) (q : Int) : Interval :=
  let narrow := decide (m = Nat.pow 2 52) && decide (-1074 < q)
  let scale := fun (n : Nat) => if 0 ≤ q then n <<< q.toNat else n
  { low := scale (if narrow then 4 * m - 1 else 4 * m - 2)
    value := scale (4 * m)
    high := scale (4 * m + 2)
    den := if 0 ≤ q then 4 else 4 <<< (-q).toNat
    closed := decide (m % 2 = 0) }

/-- Whether `n * 10 ^ e` lies in the interval. -/
def Interval.holds (i : Interval) (e : Int) (n : Nat) : Bool :=
  let (x, den) := if 0 ≤ e then (n * Nat.pow 10 e.toNat * i.den, 1)
    else (n * i.den, Nat.pow 10 (-e).toNat)
  if i.closed then decide (i.low * den ≤ x) && decide (x ≤ i.high * den)
  else decide (i.low * den < x) && decide (x < i.high * den)

/-- The neighbour of the value on the grid `10 ^ e` that reads back, if one does. -/
def Interval.onGrid? (i : Interval) (e : Int) : Option Digits :=
  let (num, den) := inUnits e i.value i.den
  let below := num / den
  let nearest := Binary64.roundQuotient num den
  let other := if nearest = below then below + 1 else below
  if i.holds e nearest then some ⟨nearest, e⟩
  else if i.holds e other then some ⟨other, e⟩
  else none

/-- The first grid with an answer, from `10 ^ e` down. -/
def Interval.search (i : Interval) : Nat → Int → Digits
  | 0, e => ⟨(inUnits e i.value i.den).1 / (inUnits e i.value i.den).2, e⟩
  | n + 1, e =>
    match i.onGrid? e with
    | some d => d
    | none => i.search n (e - 1)

/-- The fewest digits that read back as `m * 2 ^ q`, for positive `m`. Seventeen always do. -/
def shortest (m : Nat) (q : Int) : Digits :=
  let i := interval m q
  i.search 17 (log10Ratio i.value i.den)

/-- `num / den` rounded to `count` significant digits, a tie going to the even neighbour. -/
def rounded (count : Nat) (num den : Nat) : Digits :=
  let e := log10Ratio num den - (count : Int) + 1
  let (n, d) := inUnits e num den
  ⟨Binary64.roundQuotient n d, e⟩

/-! ### Layout -/

/-- Where positional notation ends. A value whose leading digit stands at `10 ^ e` is written
positionally when `lowest ≤ e ≤ highest`. -/
structure Layout where
  lowest : Int
  highest : Int
  /-- Whether an integral value in positional notation ends in `.0`. -/
  pointZero : Bool

/-- A number standing alone: positional from `0.0001` to below `10 ^ 16`. -/
def Layout.plain : Layout := ⟨-4, 15, true⟩

/-- Six significant digits: positional from `0.0001` to below `10 ^ 6`. -/
def Layout.six : Layout := ⟨-4, 5, false⟩

/-- Two places at least for an exponent. -/
def exponentDigits (n : Nat) : List Char :=
  let ds := Nat.toDigits 10 n
  if ds.length < 2 then '0' :: ds else ds

/-- The digits without the zeros they end in. -/
def dropTrailingZeros (ds : List Char) : List Char :=
  (ds.reverse.dropWhile (· = '0')).reverse

/-- The text of a positive decimal. -/
def Layout.write (style : Layout) (d : Digits) : List Char :=
  let all := Nat.toDigits 10 d.coefficient
  let lead := d.exponent + (all.length : Int) - 1
  let ds := match dropTrailingZeros all with
    | [] => ['0']
    | kept => kept
  if style.lowest ≤ lead ∧ lead ≤ style.highest then
    if lead < 0 then '0' :: '.' :: (List.replicate (-lead - 1).toNat '0' ++ ds)
    else
      let whole := lead.toNat + 1
      if ds.length ≤ whole then
        ds ++ List.replicate (whole - ds.length) '0' ++ (if style.pointZero then ['.', '0'] else [])
      else ds.take whole ++ '.' :: ds.drop whole
  else
    let mantissa := match ds with
      | [] => []
      | [c] => [c]
      | c :: rest => c :: '.' :: rest
    mantissa ++ 'e' :: (if lead < 0 then '-' else '+') :: exponentDigits lead.natAbs

/-- The text of zero. -/
def Layout.zero (style : Layout) : List Char := if style.pointZero then ['0', '.', '0'] else ['0']

/-- A text with a minus sign in front of it if the number is negative. -/
def withSign (negative : Bool) (cs : List Char) : List Char := if negative then '-' :: cs else cs

/-- The text of a number by its shortest digits. -/
def text : Binary64 → String
  | .nan _ => "nan"
  | .infinite s => String.ofList (withSign s ['i', 'n', 'f'])
  | .finite s m q =>
    String.ofList (withSign s
      (if m = 0 then Layout.plain.zero else Layout.plain.write (shortest m q)))

/-- The text of a number by six significant digits. -/
def textSix : Binary64 → String
  | .nan _ => "nan"
  | .infinite s => String.ofList (withSign s ['i', 'n', 'f'])
  | .finite s m q =>
    let (num, den) := if 0 ≤ q then (m <<< q.toNat, 1) else (m, 1 <<< (-q).toNat)
    String.ofList (withSign s
      (if m = 0 then Layout.six.zero else Layout.six.write (rounded 6 num den)))

/-! ### Integers -/

/-- The most digits an integer may have to be written or read in decimal. -/
def integerDigitLimit : Nat := 4300

/-- What is said of a numeral that has too many digits to be read. -/
def tooLongText (digits : Nat) : String :=
  "Exceeds the limit (4300 digits) for integer string conversion: value has " ++
    toString digits ++ " digits; use sys.set_int_max_str_digits() to increase the limit"

/-- The decimal text of an integer, unless it has more digits than the limit. -/
def intText? (n : Int) : Option String :=
  if n.natAbs < Nat.pow 10 integerDigitLimit then some (toString n) else none

end Decimal

end ThemeSheet
