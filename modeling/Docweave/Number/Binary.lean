namespace Docweave.Number

structure Binary where
  negative : Bool
  mantissa : Nat
  exponent : Int
  deriving DecidableEq, Repr

def Binary.of (x : Float) : Binary :=
  let bits := x.toBits.toNat
  let power : Nat := bits / Nat.pow 2 52 % 2048
  let fraction := bits % Nat.pow 2 52
  let negative := decide (Nat.pow 2 63 ≤ bits)
  if power = 0 then ⟨negative, fraction, -1074⟩ else ⟨negative, fraction + Nat.pow 2 52, (power : Int) - 1075⟩

def Binary.fraction (b : Binary) : Nat × Nat :=
  if 0 ≤ b.exponent then (b.mantissa * Nat.pow 2 b.exponent.toNat, 1)
  else (b.mantissa, Nat.pow 2 (-b.exponent).toNat)

def roundDiv (n d : Nat) : Nat :=
  let q := n / d
  let r := n % d
  if 2 * r < d then q else if d < 2 * r then q + 1 else q + q % 2

def pointed (places n : Nat) : String :=
  let digits := (toString n).toList
  let digits := List.replicate (places + 1 - digits.length) '0' ++ digits
  let whole := digits.take (digits.length - places)
  if places = 0 then String.ofList whole
  else String.ofList (whole ++ '.' :: digits.drop (digits.length - places))

def sign (negative : Bool) : String := if negative then "-" else ""

def fixed (places : Nat) (x : Float) : String :=
  if x.isNaN then "nan"
  else if x.isInf then sign (x < 0) ++ "inf"
  else
    let b := Binary.of x
    let (n, d) := b.fraction
    sign b.negative ++ pointed places (roundDiv (n * Nat.pow 10 places) d)

def powerAbove (n d : Nat) : Nat → Int → Int
  | 0, p => p
  | fuel + 1, p => if n < d * Nat.pow 10 p.toNat then p else powerAbove n d fuel (p + 1)

def zerosAfterPoint (n d : Nat) : Nat → Nat → Nat
  | 0, k => k
  | fuel + 1, k => if n * Nat.pow 10 (k + 1) < d then zerosAfterPoint n d fuel (k + 1) else k

def ofDigits (n : Nat) (power : Int) : Float :=
  if power < 0 then Float.ofScientific n true (-power).toNat else Float.ofScientific n false power.toNat

def nearest? (x : Float) (n d : Nat) (power : Int) : Option Nat :=
  let (n, d) := if power < 0 then (n * Nat.pow 10 (-power).toNat, d) else (n, d * Nat.pow 10 power.toNat)
  let near := roundDiv n d
  let other := if near * d ≤ n then near + 1 else near - 1
  if ofDigits near power == x then some near
  else if ofDigits other power == x then some other
  else none

def shortestFrom (x : Float) (n d : Nat) (top : Int) : Nat → Nat → Nat × Int
  | 0, _ => (roundDiv n d, 0)
  | fuel + 1, count =>
      match nearest? x n d (top - count) with
      | some digits => (digits, top - count)
      | none => shortestFrom x n d top fuel (count + 1)

def dropZeros : Nat → Nat → Int → Nat × Int
  | 0, n, p => (n, p)
  | fuel + 1, n, p => if n ≠ 0 ∧ n % 10 = 0 then dropZeros fuel (n / 10) (p + 1) else (n, p)

def written (digits : Nat) (power : Int) : String :=
  let ds := (toString digits).toList
  let top := power + ds.length
  if -4 < top ∧ top ≤ 16 then
    if 0 ≤ power then toString digits ++ String.ofList (List.replicate power.toNat '0') ++ ".0"
    else pointed (-power).toNat digits
  else
    let e := top - 1
    let size := toString e.natAbs
    let size := if size.length < 2 then "0" ++ size else size
    let body := match ds with
      | [c] => [c]
      | c :: rest => c :: '.' :: rest
      | [] => []
    String.ofList body ++ "e" ++ (if e < 0 then "-" else "+") ++ size

def shortest (x : Float) : String :=
  if x.isNaN then "NaN"
  else if x.isInf then sign (x < 0) ++ "Infinity"
  else
    let b := Binary.of x
    if b.mantissa = 0 then sign b.negative ++ "0.0"
    else
      let (n, d) := b.fraction
      let top := if n < d then -(zerosAfterPoint n d 400 0 : Int) else powerAbove n d 400 1
      let (digits, power) := shortestFrom x.abs n d top 17 1
      let (digits, power) := dropZeros 400 digits power
      sign b.negative ++ written digits power

def roundTo (places : Nat) (x : Float) : Float :=
  if x.isNaN || x.isInf then x
  else
    let b := Binary.of x
    let (n, d) := b.fraction
    let size := Float.ofScientific (roundDiv (n * Nat.pow 10 places) d) true places
    if b.negative then -size else size

end Docweave.Number
