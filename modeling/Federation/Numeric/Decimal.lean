/-
  Decimal text of numbers.

  * `Double.display`: the shortest decimal that reads back as the same number, never in scientific
    notation;
  * `Double.parse`: decimal text, exponents and the names of the special values included;
  * `parseUnsigned`, `parseSigned`: whole numbers in a fixed range.
-/
import Federation.Numeric.Binary

namespace Federation

/-! ## Digits -/

def digitOf (n : Nat) : Char := Char.ofNat (48 + n)

def isDigit (c : Char) : Bool := decide ('0' ≤ c) && decide (c ≤ '9')

def digitValue (c : Char) : Nat := c.toNat - 48

/-- The number a run of decimal digits stands for. -/
def natOfDigits (ds : List Char) : Nat := ds.foldl (fun n c => 10 * n + digitValue c) 0

/-! ## Shortest digits -/

namespace Double

/-- The interval of reals that round to a given number, as `significand ± (below, above)` units of
`2 ^ exponent`; `closed` when its end points round to the number too. -/
structure Neighbourhood where
  significand : Nat
  below : Nat
  above : Nat
  exponent : Int
  closed : Bool

/-- Half a unit each way, except just above a power of two, where the lower neighbour is nearer. -/
def neighbourhood (m : Nat) (e : Int) : Neighbourhood :=
  if m = twoTo 52 then ⟨4 * m, 1, 2, e - 2, m % 2 = 0⟩ else ⟨2 * m, 1, 1, e - 1, m % 2 = 0⟩

/-- Add one in the last place of a digit string; a carry out of the front leaves a leading one. -/
def bumpDigits (ds : List Nat) : List Nat × Bool :=
  match ds.reverse.span (· = 9) with
  | (nines, []) => (1 :: List.replicate (nines.length - 1) 0, true)
  | (nines, d :: rest) => (rest.reverse ++ (d + 1) :: List.replicate nines.length 0, false)

/-- Digits of `m / scale`, one at a time, stopping at the first that leaves the neighbourhood.  The
last digit is rounded up when only the upper end was passed, or when both were and the remainder is
at least a half. -/
def digitLoop (closed : Bool) (scale : Nat) : Nat → Nat → Nat → Nat → List Nat → List Nat × Bool
  | 0, _, _, _, ds => (ds.reverse, false)
  | fuel + 1, m, below, above, ds =>
    let ds := m / scale :: ds
    let rest := m % scale
    let down := if closed then decide (rest ≤ below) else decide (rest < below)
    let up := if closed then decide (scale ≤ rest + above) else decide (scale < rest + above)
    if down || up then
      if up && (!down || decide (scale ≤ 2 * rest)) then bumpDigits ds.reverse
      else (ds.reverse, false)
    else digitLoop closed scale fuel (10 * rest) (10 * below) (10 * above) ds

/-- The shortest digits `d₁d₂…` and the `k` with the number read as `0.d₁d₂… * 10 ^ k`. -/
def shortest (m : Nat) (e : Int) : List Nat × Int :=
  let h := neighbourhood m e
  let width : Int := ((h.significand + h.above - 1).log2 + 1 : Nat)
  let guess : Int := ((width + h.exponent) * 1292913986) / 4294967296
  let up := twoTo h.exponent.toNat * tenTo (-guess).toNat
  let scale := twoTo (-h.exponent).toNat * tenTo guess.toNat
  let m := h.significand * up
  let below := h.below * up
  let above := h.above * up
  let reaches := if h.closed then decide (scale ≤ m + above) else decide (scale < m + above)
  let (k, m, below, above) :=
    if reaches then (guess + 1, m, below, above) else (guess, 10 * m, 10 * below, 10 * above)
  let (ds, carried) := digitLoop h.closed scale 20 m below above []
  (ds, if carried then k + 1 else k)

/-- Lay digits out around the decimal point. -/
def layout (ds : List Nat) (k : Int) : String :=
  let text := ds.map digitOf
  if k ≤ 0 then String.ofList ("0.".toList ++ List.replicate (-k).toNat '0' ++ text)
  else if text.length ≤ k.toNat then
    String.ofList (text ++ List.replicate (k.toNat - text.length) '0')
  else String.ofList (text.take k.toNat ++ '.' :: text.drop k.toNat)

/-- The shortest decimal text that reads back as the same number. -/
def display (x : Double) : String :=
  match x.unpack with
  | .nan => "NaN"
  | .infinite s => if s then "-inf" else "inf"
  | .finite s m e =>
    let sign := if s then "-" else ""
    if m = 0 then sign ++ "0"
    else
      let (ds, k) := shortest m e
      sign ++ layout (dropZeros ds) k
where
  /-- Trailing zeros carry nothing. -/
  dropZeros (ds : List Nat) : List Nat := (ds.reverse.dropWhile (· = 0)).reverse

/-! ## Reading -/

/-- The number nearest to `n * 10 ^ e`.  Exponents far outside the format's range are answered at
once. -/
def ofDecimal (neg : Bool) (n : Nat) (e : Int) : Double :=
  if n = 0 then pack neg 0 0 false
  else if 400 < e then infinite neg
  else if 0 ≤ e then pack neg (n * tenTo e.toNat) 0 false
  else if e + (n.log2 + 1 : Nat) < -400 then pack neg 0 0 false
  else
    let den := tenTo (-e).toNat
    let shift := 58 + den.log2 - n.log2
    let scaled := n * twoTo shift
    pack neg (scaled / den) (-(shift : Int)) (decide (scaled % den ≠ 0))

/-- An exponent suffix `e±digits`, or nothing. -/
def parseExponent : List Char → Option Int
  | [] => some 0
  | c :: rest =>
    if c = 'e' || c = 'E' then
      let (neg, ds) :=
        match rest with
        | '-' :: ds => (true, ds)
        | '+' :: ds => (false, ds)
        | ds => (false, ds)
      if ds.isEmpty || !ds.all isDigit then none
      else
        let n : Int := (natOfDigits ds : Nat)
        some (if neg then -n else n)
    else none

/-- Unsigned decimal text: digits with an optional point and exponent, at least one digit. -/
def parseMagnitude (neg : Bool) (cs : List Char) : Option Double :=
  let (whole, rest) := cs.span isDigit
  let (fraction, rest) :=
    match rest with
    | '.' :: rest => rest.span isDigit
    | rest => ([], rest)
  if whole.isEmpty && fraction.isEmpty then none
  else
    (parseExponent rest).map fun e =>
      ofDecimal neg (natOfDigits (whole ++ fraction)) (e - fraction.length)

/-- Decimal text, or one of `inf`, `infinity` and `nan` in any case, with an optional sign. -/
def parse (s : String) : Option Double :=
  let (neg, cs) :=
    match s.toList with
    | '-' :: cs => (true, cs)
    | '+' :: cs => (false, cs)
    | cs => (false, cs)
  let lower := String.ofList (cs.map Char.toLower)
  if lower = "inf" || lower = "infinity" then some (infinite neg)
  else if lower = "nan" then some nan
  else parseMagnitude neg cs

end Double

/-! ## Whole numbers -/

/-- Digits with an optional leading plus, below `limit`. -/
def parseUnsigned (limit : Nat) (s : String) : Option Nat :=
  let ds :=
    match s.toList with
    | '+' :: ds => ds
    | ds => ds
  if ds.isEmpty || !ds.all isDigit then none
  else
    let n := natOfDigits ds
    if n < limit then some n else none

/-- The exclusive bounds of the unsigned words, and the range of the signed one. -/
def limit16 : Nat := 65536
def limit64 : Nat := 18446744073709551616
def minInt64 : Int := -9223372036854775808
def maxInt64 : Int := 9223372036854775807

/-- The value of a digit in a base up to sixteen. -/
def digitInBase (base : Nat) (c : Char) : Option Nat :=
  let v :=
    if isDigit c then some (digitValue c)
    else if 'a' ≤ c && c ≤ 'f' then some (c.toNat - 87)
    else if 'A' ≤ c && c ≤ 'F' then some (c.toNat - 55)
    else none
  v.bind fun n => if n < base then some n else none

/-- Digits of a base with an optional sign, in the signed 64-bit range. -/
def parseSigned (base : Nat) (s : String) : Option Int :=
  let (neg, ds) :=
    match s.toList with
    | '-' :: ds => (true, ds)
    | '+' :: ds => (false, ds)
    | ds => (false, ds)
  if ds.isEmpty then none
  else
    (ds.mapM (digitInBase base)).bind fun vs =>
      let n : Int := (vs.foldl (fun n v => base * n + v) 0 : Nat)
      let i := if neg then -n else n
      if minInt64 ≤ i && i ≤ maxInt64 then some i else none

end Federation
