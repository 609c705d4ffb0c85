/-!
# Shortest decimals

A double-precision number is shown by the fewest digits that tell it from its neighbours, and by the
nearest such digits. Numbers of a middle size are written positionally, all others with a power of
ten.
-/

namespace DomainEvolution.Text

/-- A positive double-precision number `mantissa * 2 ^ exponent`. -/
structure Binary where
  mantissa : Nat
  exponent : Int
  /-- Whether the neighbour below is only half as far away as the neighbour above. -/
  narrowBelow : Bool
  deriving DecidableEq, Repr, Inhabited

/-- The magnitude of a finite number. -/
def Binary.ofBits (bits : UInt64) : Binary :=
  let field : Nat := bits.toNat / Nat.pow 2 52 % Nat.pow 2 11
  let fraction : Nat := bits.toNat % Nat.pow 2 52
  if field = 0 then ⟨fraction, -1074, false⟩
  else ⟨Nat.pow 2 52 + fraction, (field : Int) - 1075, fraction = 0 && 1 < field⟩

/-- A decimal number `coefficient * 10 ^ exponent`. -/
structure Decimal where
  coefficient : Nat
  exponent : Int
  deriving DecidableEq, Repr, Inhabited

/-- Compares `a * 2 ^ p` with `b * 10 ^ q` by cross-multiplication. -/
def compareScaled (a : Nat) (p : Int) (b : Nat) (q : Int) : Ordering :=
  compare (a * Nat.pow 2 p.toNat * Nat.pow 10 (-q).toNat)
    (b * Nat.pow 10 q.toNat * Nat.pow 2 (-p).toNat)

/-- Whether a decimal lies among the reals that round to the number. Quarters of the last place are
counted, and the two ends belong to a number with an even mantissa. -/
def Binary.isReadFrom (x : Binary) (d : Decimal) : Bool :=
  let low := 4 * x.mantissa - (if x.narrowBelow then 1 else 2)
  let high := 4 * x.mantissa + 2
  let below := compareScaled low (x.exponent - 2) d.coefficient d.exponent
  let above := compareScaled high (x.exponent - 2) d.coefficient d.exponent
  if x.mantissa % 2 = 0 then below != .gt && above != .lt else below == .lt && above == .gt

/-- The largest multiple of a power of ten that is not above the number. -/
def Binary.floorAt (x : Binary) (grid : Int) : Decimal :=
  ⟨x.mantissa * Nat.pow 2 x.exponent.toNat * Nat.pow 10 (-grid).toNat /
    (Nat.pow 10 grid.toNat * Nat.pow 2 (-x.exponent).toNat), grid⟩

/-- The power of ten just above the number; the smallest number is above `10 ^ -324`. -/
def Binary.decimalSize (x : Binary) : Int :=
  match (List.range 640).find? fun (i : Nat) => (x.floorAt (310 - i)).coefficient != 0 with
  | some i => 311 - i
  | none => 0

/-- Of the two multiples of a power of ten around the number, the nearer one that is read as the
number; on a tie the one with the even coefficient. -/
def Binary.onGrid? (x : Binary) (grid : Int) : Option Decimal :=
  let lower := x.floorAt grid
  let upper : Decimal := { lower with coefficient := lower.coefficient + 1 }
  match x.isReadFrom lower, x.isReadFrom upper with
  | false, false => none
  | true, false => some lower
  | false, true => some upper
  | true, true =>
    match compareScaled (2 * x.mantissa) x.exponent (2 * lower.coefficient + 1) grid with
    | .lt => some lower
    | .gt => some upper
    | .eq => some (if lower.coefficient % 2 = 0 then lower else upper)

/-- The decimal with the fewest digits that is read as the number; seventeen digits always do. -/
def Binary.shortest (x : Binary) : Decimal :=
  let size := x.decimalSize
  ((List.range 17).findSome? fun (n : Nat) => x.onGrid? (size - (n + 1))).getD
    (x.floorAt (size - 17))

/-- The digits of a decimal without trailing zeros, and the power of ten of the first of them. -/
def Decimal.digits (d : Decimal) : List Char × Int :=
  let all := Nat.toDigits 10 d.coefficient
  ((all.reverse.dropWhile (· == '0')).reverse, d.exponent + all.length - 1)

/-- Digits whose first has the power of ten `size`, as text: positional from `10 ^ -5` to below
`10 ^ 16`, with at least one digit behind the point. -/
def Decimal.renderDigits (digits : List Char) (size : Int) : List Char :=
  if -5 ≤ size ∧ size < 0 then
    '0' :: '.' :: (List.replicate (-size - 1).toNat '0' ++ digits)
  else if 0 ≤ size ∧ size < 16 then
    let whole := size.toNat + 1
    let behind := digits.drop whole
    digits.take whole ++ List.replicate (whole - digits.length) '0' ++
      '.' :: (if behind.isEmpty then ['0'] else behind)
  else
    let behind := digits.drop 1
    digits.take 1 ++ (if behind.isEmpty then [] else '.' :: behind) ++
      'e' :: (if size < 0 then '-' else '+') :: Nat.toDigits 10 size.natAbs

/-- The shortest text of a finite double-precision number. -/
def renderFloat (value : Float) : String :=
  let bits := value.toBits
  let magnitude := Binary.ofBits bits
  let sign := if bits.toNat < Nat.pow 2 63 then [] else ['-']
  let body :=
    if magnitude.mantissa = 0 then ['0', '.', '0']
    else
      let (digits, size) := magnitude.shortest.digits
      Decimal.renderDigits digits size
  String.ofList (sign ++ body)

end DomainEvolution.Text
