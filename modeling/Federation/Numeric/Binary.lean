/-
  Binary floating point by bit pattern.

  Weights travel as 32-bit words and are combined in 64-bit arithmetic.  Every operation here is
  exact integer arithmetic followed by one rounding to nearest, ties to even, so a result can be
  computed by the kernel as well as by the compiled program.

  * `Double`, `Single`: the two formats, a word each;
  * `Unpacked`: a word as sign, integer significand and exponent;
  * `Format.pack`: the single rounding step;
  * `Double.add`, `mul`, `div`, `sqrt`, `powi` and the conversions.

  All not-a-number results are one word, `Double.nan`: payloads carry no information.
-/

namespace Federation

/-- A binary64 number, by its bit pattern. -/
structure Double where
  bits : UInt64
  deriving DecidableEq, Repr, Inhabited

/-- A binary32 number, by its bit pattern. -/
structure Single where
  bits : UInt32
  deriving DecidableEq, Repr, Inhabited

/-- A word taken apart: `finite neg m e` is `± m * 2 ^ e`. -/
inductive Unpacked where
  | nan
  | infinite (neg : Bool)
  | finite (neg : Bool) (significand : Nat) (exponent : Int)
  deriving DecidableEq, Repr

/-! ## Powers -/

/-- The powers of the two bases numbers are written in. -/
def twoTo (n : Nat) : Nat := Nat.pow 2 n
def tenTo (n : Nat) : Nat := Nat.pow 10 n

/-- The largest signed 32-bit number. -/
def maxInt32 : Nat := 2147483647

/-! ## Formats -/

/-- The numbers that fix a binary interchange format. -/
structure Format where
  /-- Bits of significand, the implicit one included. -/
  precision : Nat
  /-- Exponent of the smallest positive number. -/
  minExponent : Int
  /-- The word of positive infinity: all ones in the exponent field. -/
  infinity : Nat
  /-- The weight of the sign bit. -/
  signWeight : Nat

namespace Format

def double : Format := ⟨53, -1074, 2047 * twoTo 52, twoTo 63⟩
def single : Format := ⟨24, -149, 255 * twoTo 23, twoTo 31⟩

/-- Take a word apart. -/
def unpack (f : Format) (word : Nat) : Unpacked :=
  let neg := decide (f.signWeight ≤ word)
  let magnitude := word % f.signWeight
  let unit := twoTo (f.precision - 1)
  let field := magnitude / unit
  let fraction := magnitude % unit
  if magnitude = f.infinity then .infinite neg
  else if f.infinity < magnitude then .nan
  else if field = 0 then .finite neg fraction f.minExponent
  else .finite neg (unit + fraction) (f.minExponent + (field - 1 : Nat))

/-- Right shift by `n` bits, rounding to nearest with ties to even.  `sticky` says that the exact
value is a little above `m`. -/
def shiftRound (m n : Nat) (sticky : Bool) : Nat :=
  let kept := m / twoTo n
  let lost := m % twoTo n
  let half := twoTo (n - 1)
  if half < lost then kept + 1
  else if lost = half then (if sticky || kept % 2 = 1 then kept + 1 else kept)
  else kept

/-- The word nearest to `± m * 2 ^ e` (`sticky`: to something a little larger in magnitude).

The significand's leading bit sits one place above the fraction field, so adding the rounded
significand to the exponent field carries into it by itself: subnormal numbers, a carry out of the
rounding and overflow need no case of their own. -/
def pack (f : Format) (neg : Bool) (m : Nat) (e : Int) (sticky : Bool) : Nat :=
  let magnitude :=
    if m = 0 then 0
    else
      let top : Int := e + (m.log2 + 1 : Nat) - f.precision
      let target := max f.minExponent top
      let rounded :=
        if target ≤ e then m * twoTo (e - target).toNat
        else shiftRound m (target - e).toNat sticky
      min f.infinity ((target - f.minExponent).toNat * twoTo (f.precision - 1) + rounded)
  if neg then f.signWeight + magnitude else magnitude

end Format

/-! ## Words -/

/-- The integer square root, one bit of the result at a time. -/
def squareRoot (n : Nat) : Nat :=
  go (n.log2 / 2 + 1) 0
where
  go : Nat → Nat → Nat
    | 0, r => r
    | k + 1, r =>
      let r' := r + twoTo k
      if r' * r' ≤ n then go k r' else go k r

namespace Double

def nan : Double := ⟨0x7ff8000000000000⟩

def unpack (x : Double) : Unpacked := Format.double.unpack x.bits.toNat

def pack (neg : Bool) (m : Nat) (e : Int) (sticky : Bool) : Double :=
  ⟨UInt64.ofNat (Format.double.pack neg m e sticky)⟩

def infinite (neg : Bool) : Double := if neg then ⟨0xfff0000000000000⟩ else ⟨0x7ff0000000000000⟩

/-- A natural number, rounded when it has more than 53 bits. -/
def ofNat (n : Nat) : Double := pack false n 0 false

def ofInt (i : Int) : Double := pack (decide (i < 0)) i.natAbs 0 false

def zero : Double := ⟨0⟩
def one : Double := ⟨0x3ff0000000000000⟩

def isNaN (x : Double) : Bool :=
  match x.unpack with
  | .nan => true
  | _ => false

def isNegative (x : Double) : Bool := decide (twoTo 63 ≤ x.bits.toNat)

def neg (x : Double) : Double :=
  if x.isNegative then ⟨UInt64.ofNat (x.bits.toNat - twoTo 63)⟩
  else ⟨UInt64.ofNat (x.bits.toNat + twoTo 63)⟩

/-- Sum, rounded once.  A zero sum is negative only when both terms are. -/
def add (x y : Double) : Double :=
  match x.unpack, y.unpack with
  | .nan, _ | _, .nan => nan
  | .infinite s, .infinite t => if s = t then infinite s else nan
  | .infinite s, _ => infinite s
  | _, .infinite t => infinite t
  | .finite s m d, .finite t n e =>
    let base := min d e
    let a : Int := (m * twoTo (d - base).toNat : Nat)
    let b : Int := (n * twoTo (e - base).toNat : Nat)
    let sum := (if s then -a else a) + (if t then -b else b)
    if sum = 0 then pack (s && t) 0 0 false
    else pack (decide (sum < 0)) sum.natAbs base false

def sub (x y : Double) : Double := x.add y.neg

/-- Product, rounded once. -/
def mul (x y : Double) : Double :=
  match x.unpack, y.unpack with
  | .nan, _ | _, .nan => nan
  | .infinite s, .infinite t => infinite (s != t)
  | .infinite s, .finite t n _ => if n = 0 then nan else infinite (s != t)
  | .finite s m _, .infinite t => if m = 0 then nan else infinite (s != t)
  | .finite s m d, .finite t n e => pack (s != t) (m * n) (d + e) false

/-- Quotient, rounded once: the numerator is shifted until the integer quotient has more bits than
the format keeps, and the remainder only says whether something was left over. -/
def div (x y : Double) : Double :=
  match x.unpack, y.unpack with
  | .nan, _ | _, .nan => nan
  | .infinite _, .infinite _ => nan
  | .infinite s, .finite t _ _ => infinite (s != t)
  | .finite s _ _, .infinite t => pack (s != t) 0 0 false
  | .finite s m d, .finite t n e =>
    if n = 0 then (if m = 0 then nan else infinite (s != t))
    else
      let shift := 58 + n.log2 - m.log2
      let scaled := m * twoTo shift
      pack (s != t) (scaled / n) (d - e - shift) (decide (scaled % n ≠ 0))

/-- Square root, rounded once. -/
def sqrt (x : Double) : Double :=
  match x.unpack with
  | .nan => nan
  | .infinite s => if s then nan else infinite false
  | .finite s m e =>
    if m = 0 then x
    else if s then nan
    else
      let wide := 116 - m.log2
      let shift := if (e - wide) % 2 = 0 then wide else wide + 1
      let scaled := m * twoTo shift
      let root := squareRoot scaled
      pack false root ((e - shift) / 2) (decide (root * root ≠ scaled))

instance : Add Double := ⟨add⟩
instance : Sub Double := ⟨sub⟩
instance : Mul Double := ⟨mul⟩
instance : Div Double := ⟨div⟩
instance : Neg Double := ⟨neg⟩

/-- Position on the line of finite numbers and infinities; the two zeros share one place. -/
def rank (x : Double) : Int :=
  let magnitude : Int := (x.bits.toNat % twoTo 63 : Nat)
  if x.isNegative then -magnitude else magnitude

/-- `x < y`; false as soon as one of them is not a number. -/
def lt (x y : Double) : Bool := !x.isNaN && !y.isNaN && decide (x.rank < y.rank)

/-- `x ≤ y`; false as soon as one of them is not a number. -/
def le (x y : Double) : Bool := !x.isNaN && !y.isNaN && decide (x.rank ≤ y.rank)

/-- Numeric equality: the zeros are equal, a non-number equals nothing. -/
def equals (x y : Double) : Bool := !x.isNaN && !y.isNaN && decide (x.rank = y.rank)

/-- `x` to a whole power by repeated squaring, low bit first; a negative power is the reciprocal of
the positive one.  The order of the multiplications is part of the result. -/
def powi (x : Double) (n : Int) : Double :=
  let r := loop 64 x one n.natAbs
  if n < 0 then one / r else r
where
  loop : Nat → Double → Double → Nat → Double
    | 0, _, r, _ => r
    | fuel + 1, x, r, n =>
      let r := if n % 2 = 1 then r * x else r
      if n / 2 = 0 then r else loop fuel (x * x) r (n / 2)

/-- The nearest whole number, halves away from zero, of a finite number. -/
def roundHalfAway (m : Nat) (e : Int) : Nat :=
  if 0 ≤ e then m * twoTo e.toNat
  else
    let shift := (-e).toNat
    (2 * m + twoTo shift) / twoTo (shift + 1)

/-- Round, then clamp into `[low, high]`; a non-number becomes zero. -/
def toIntClamped (x : Double) (low high : Int) : Int :=
  match x.unpack with
  | .nan => 0
  | .infinite s => if s then low else high
  | .finite s m e =>
    let n : Int := (roundHalfAway m e : Nat)
    max low (min high (if s then -n else n))

end Double

namespace Single

def unpack (x : Single) : Unpacked := Format.single.unpack x.bits.toNat

def nan : Single := ⟨0x7fc00000⟩

def isNaN (x : Single) : Bool :=
  match x.unpack with
  | .nan => true
  | _ => false

/-- Widening is exact. -/
def toDouble (x : Single) : Double :=
  match x.unpack with
  | .nan => .nan
  | .infinite s => .infinite s
  | .finite s m e => .pack s m e false

/-- Narrowing rounds once. -/
def ofDouble (x : Double) : Single :=
  match x.unpack with
  | .nan => nan
  | .infinite s => if s then ⟨0xff800000⟩ else ⟨0x7f800000⟩
  | .finite s m e => ⟨UInt32.ofNat (Format.single.pack s m e false)⟩

/-- Sum of two weights.  The wide sum of two narrow numbers carries enough bits that rounding it a
second time changes nothing. -/
def add (x y : Single) : Single := ofDouble (x.toDouble + y.toDouble)

end Single

end Federation
