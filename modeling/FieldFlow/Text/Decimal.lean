/-!
# Text/Decimal — decimal digits for binary floating-point values

A finite value is decoded into `m * 2 ^ q` exactly. `Binary.shortest` gives the fewest digits that
identify it among its neighbours, `Binary.significant` a fixed number of digits; both work in exact
natural-number arithmetic. `Style` then decides how digits are laid out.
-/

namespace FieldFlow.Text

/-- A finite non-negative value `m * 2 ^ q`; `narrow` when the gap to the value below it is half the
gap to the value above — the mantissa is then a power of two. -/
structure Binary where
  m : Nat
  q : Int
  narrow : Bool
deriving Repr, DecidableEq

/-- The decimal number `digits * 10 ^ exponent`. -/
structure Decimal where
  digits : Nat
  exponent : Int
deriving Repr, DecidableEq

namespace Decimal

/-- Moves up to `fuel` trailing zeros of the digits into the exponent. -/
def strip : Nat → Decimal → Decimal
  | 0, d => d
  | fuel + 1, d =>
    if d.digits ≠ 0 && d.digits % 10 = 0 then strip fuel ⟨d.digits / 10, d.exponent + 1⟩ else d

end Decimal

namespace Binary

/-- A value and the ends of the interval that rounds to it, over one denominator: the fractions are
`value / denominator`, `(value - below) / denominator` and `(value + above) / denominator`. -/
structure Interval where
  value : Nat
  below : Nat
  above : Nat
  denominator : Nat

/-- The interval of `b`, its ends halfway to the two neighbours. -/
def interval (b : Binary) : Interval :=
  let up := 1 <<< b.q.toNat
  let down := 1 <<< (-b.q).toNat
  { value := 4 * b.m * up
    below := (if b.narrow then 1 else 2) * up
    above := 2 * up
    denominator := 4 * down }

/-- The interval measured in units of `10 ^ k`. -/
def Interval.scale (i : Interval) (k : Int) : Interval :=
  let shrink := Nat.pow 10 (-k).toNat
  { value := i.value * shrink
    below := i.below * shrink
    above := i.above * shrink
    denominator := i.denominator * Nat.pow 10 k.toNat }

/-- Whether the whole number `c` lies in the interval; the ends count when `closed`. -/
def Interval.holds (i : Interval) (closed : Bool) (c : Nat) : Bool :=
  let point := c * i.denominator
  if closed then i.value ≤ point + i.below && point ≤ i.value + i.above
  else i.value < point + i.below && point < i.value + i.above

/-- The number of decimal digits of `n`, with none for `0`. -/
def digitCount (n : Nat) : Nat := if n = 0 then 0 else (Nat.toDigits 10 n).length

/-- The least `k` with `m * 2 ^ q < 10 ^ k`, for a positive mantissa. A value of at least one shows
`k` in the digits of its whole part; below one the leading zeros of the fraction are counted, and
the scaling by `10 ^ 400` makes every double exceed one. -/
def magnitude (b : Binary) : Int :=
  let i := b.interval
  let whole := i.value / i.denominator
  if whole ≠ 0 then digitCount whole
  else (digitCount (i.value * Nat.pow 10 400 / i.denominator) : Int) - 400

/-- The point of the grid `10 ^ k` that identifies the value: of its two neighbours there the nearer
one inside the interval, the upper one when both are equally near. -/
def onGrid? (b : Binary) (k : Int) : Option Nat :=
  let i := b.interval.scale k
  let closed := b.m % 2 = 0
  let low := i.value / i.denominator
  let lowHit := i.holds closed low && low ≠ 0
  let highHit := i.holds closed (low + 1)
  let rest := i.value % i.denominator
  if lowHit && highHit then some (if 2 * rest < i.denominator then low else low + 1)
  else if lowHit then some low
  else if highHit then some (low + 1)
  else none

/-- The first grid that identifies the value, trying `n`, `n + 1`, … digits; seventeen always
suffice in double precision. -/
def search (b : Binary) (magnitude : Int) : Nat → Nat → Decimal
  | 0, n => ⟨b.interval.value / b.interval.denominator, n⟩
  | fuel + 1, n =>
    let k := magnitude - n
    match b.onGrid? k with
    | some c => Decimal.strip 20 ⟨c, k⟩
    | none => search b magnitude fuel (n + 1)

/-- **The fewest digits that read back to the value**, and of those the nearest to it. -/
def shortest (b : Binary) : Decimal :=
  if b.m = 0 then ⟨0, 0⟩ else b.search b.magnitude 17 1

/-- The value rounded to `n` significant digits, a half going to the even neighbour. -/
def significant (n : Nat) (b : Binary) : Decimal :=
  if b.m = 0 then ⟨0, 0⟩
  else
    let k := b.magnitude - n
    let i := b.interval.scale k
    let low := i.value / i.denominator
    let twice := 2 * (i.value % i.denominator)
    let up := i.denominator < twice || (twice = i.denominator && low % 2 = 1)
    Decimal.strip (n + 1) ⟨if up then low + 1 else low, k⟩

end Binary

/-- What the bits of a floating-point value say. -/
inductive Decoded where
  | nan
  | infinite (negative : Bool)
  | finite (negative : Bool) (magnitude : Binary)

/-- Decodes a sign, an exponent field and a fraction field, with `fractionBits` bits of fraction. -/
def Decoded.ofFields (fractionBits bias : Nat) (negative : Bool) (exponent fraction : Nat) :
    Decoded :=
  if exponent = 2 * bias + 1 then if fraction = 0 then .infinite negative else .nan
  else if exponent = 0 then .finite negative ⟨fraction, 1 - (bias + fractionBits : Nat), false⟩
  else
    .finite negative
      ⟨(1 <<< fractionBits) + fraction, exponent - (bias + fractionBits : Nat),
        fraction = 0 && 1 < exponent⟩

def Decoded.ofFloat (x : Float) : Decoded :=
  let bits := x.toBits.toNat
  .ofFields 52 1023 (bits >>> 63 = 1) ((bits >>> 52) % (1 <<< 11)) (bits % (1 <<< 52))

def Decoded.ofFloat32 (x : Float32) : Decoded :=
  let bits := x.toBits.toNat
  .ofFields 23 127 (bits >>> 31 = 1) ((bits >>> 23) % (1 <<< 8)) (bits % (1 <<< 23))

/-! ## Layout -/

/-- How a number is written. Outside the range of exponents the notation is scientific, `1e-7`. -/
structure Style where
  /-- Least power of ten of a leading digit written positionally. -/
  least : Int
  /-- Greatest power of ten of a leading digit written positionally. -/
  greatest : Int
  /-- Whether a positional whole number ends in `.0`. -/
  pointed : Bool

/-- **Values inside messages** are always positional and carry no needless point. -/
def Style.plain : Style := ⟨-400, 400, false⟩

/-- **Values in a solver's own report** keep a point and turn scientific below `1e-5` and from
`1e16` on. -/
def Style.pointedOrScientific : Style := ⟨-5, 15, true⟩

private def zeros (n : Nat) : String := String.ofList (List.replicate n '0')

/-- Digits with their point, positionally. -/
def Decimal.positional (pointed : Bool) (d : Decimal) : String :=
  let text := toString d.digits
  if 0 ≤ d.exponent then
    text ++ zeros d.exponent.toNat ++ (if pointed then ".0" else "")
  else
    let places := (-d.exponent).toNat
    let padded := zeros (places + 1 - text.length) ++ text
    let cut := padded.length - places
    String.ofList (padded.toList.take cut) ++ "." ++ String.ofList (padded.toList.drop cut)

/-- Digits with one digit before the point and the power of ten after an `e`. -/
def Decimal.scientific (d : Decimal) : String :=
  let text := toString d.digits
  let tail := text.toList.drop 1
  String.ofList (text.toList.take 1) ++ (if tail.isEmpty then "" else "." ++ String.ofList tail) ++
    "e" ++ toString (d.exponent + (text.length - 1 : Nat))

/-- A decimal number in a style. -/
def Decimal.layout (style : Style) (d : Decimal) : String :=
  let leading := d.exponent + (toString d.digits).length - 1
  if d.digits = 0 || (style.least ≤ leading && leading ≤ style.greatest) then
    d.positional style.pointed
  else d.scientific

/-- A decoded value in a style, by its fewest digits. -/
def Decoded.layout (style : Style) : Decoded → String
  | .nan => "NaN"
  | .infinite negative => if negative then "-inf" else "inf"
  | .finite negative b => (if negative then "-" else "") ++ b.shortest.layout style

end FieldFlow.Text
