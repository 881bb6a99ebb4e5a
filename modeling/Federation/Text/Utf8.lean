/-
  Texts as bytes.

  * `utf8Encode`, `utf8Decode`: the strict encoding and its partial inverse;
  * `utf8Lossy`: decoding of any byte string, one replacement character for each maximal run of
    bytes that begins a character without completing it.
-/

namespace Federation

/-! ## Encoding -/

/-- One to four bytes. -/
def utf8EncodeChar (c : Char) : List UInt8 :=
  let n := c.toNat
  if n < 0x80 then [UInt8.ofNat n]
  else if n < 0x800 then [UInt8.ofNat (0xc0 + n / 0x40), UInt8.ofNat (0x80 + n % 0x40)]
  else if n < 0x10000 then
    [UInt8.ofNat (0xe0 + n / 0x1000), UInt8.ofNat (0x80 + n / 0x40 % 0x40),
      UInt8.ofNat (0x80 + n % 0x40)]
  else
    [UInt8.ofNat (0xf0 + n / 0x40000), UInt8.ofNat (0x80 + n / 0x1000 % 0x40),
      UInt8.ofNat (0x80 + n / 0x40 % 0x40), UInt8.ofNat (0x80 + n % 0x40)]

def utf8Encode (s : String) : List UInt8 := s.toList.flatMap utf8EncodeChar

/-- Length in bytes. -/
def utf8Length (s : String) : Nat := (utf8Encode s).length

/-! ## Decoding -/

/-- The range the second byte of a character must lie in, given the first; the narrow ranges keep
out over-long forms, surrogates and numbers past the last code point. -/
def secondByteRange (b : Nat) : Nat × Nat :=
  if b = 0xe0 then (0xa0, 0xbf)
  else if b = 0xed then (0x80, 0x9f)
  else if b = 0xf0 then (0x90, 0xbf)
  else if b = 0xf4 then (0x80, 0x8f)
  else (0x80, 0xbf)

/-- How many bytes a character with this first byte has; zero when none begins so. -/
def sequenceLength (b : Nat) : Nat :=
  if b < 0x80 then 1
  else if 0xc2 ≤ b && b ≤ 0xdf then 2
  else if 0xe0 ≤ b && b ≤ 0xef then 3
  else if 0xf0 ≤ b && b ≤ 0xf4 then 4
  else 0

/-- The outcome of reading one character: the character and how many bytes it took, or how many
bytes of a broken one to replace. -/
inductive Utf8Step where
  | char (c : Char) (size : Nat)
  | broken (size : Nat)
  deriving Repr

def continues (lo hi : Nat) (b : UInt8) : Bool := decide (lo ≤ b.toNat) && decide (b.toNat ≤ hi)

/-- Read the character at the front of `b :: rest`. -/
def utf8Step (b : UInt8) (rest : List UInt8) : Utf8Step :=
  let n := b.toNat
  let (lo, hi) := secondByteRange n
  match sequenceLength n, rest with
  | 1, _ => .char (Char.ofNat n) 1
  | 2, c :: _ =>
    if continues lo hi c then .char (Char.ofNat (n % 0x20 * 0x40 + c.toNat % 0x40)) 2 else .broken 1
  | 3, c :: tail =>
    if !continues lo hi c then .broken 1
    else
      match tail with
      | d :: _ =>
        if continues 0x80 0xbf d then
          .char (Char.ofNat (n % 0x10 * 0x1000 + c.toNat % 0x40 * 0x40 + d.toNat % 0x40)) 3
        else .broken 2
      | [] => .broken 2
  | 4, c :: tail =>
    if !continues lo hi c then .broken 1
    else
      match tail with
      | d :: tail =>
        if !continues 0x80 0xbf d then .broken 2
        else
          match tail with
          | e :: _ =>
            if continues 0x80 0xbf e then
              .char (Char.ofNat (n % 8 * 0x40000 + c.toNat % 0x40 * 0x1000 + d.toNat % 0x40 * 0x40 +
                e.toNat % 0x40)) 4
            else .broken 3
          | [] => .broken 3
      | [] => .broken 2
  | _, _ => .broken 1

def replacementChar : Char := Char.ofNat 0xfffd

/-- Characters read from the front, at most `fuel` of them; `none` stands for a replaced run. -/
def utf8Walk : Nat → List UInt8 → List (Option Char)
  | 0, _ => []
  | _, [] => []
  | fuel + 1, b :: rest =>
    match utf8Step b rest with
    | .char c size => some c :: utf8Walk fuel (rest.drop (size - 1))
    | .broken size => none :: utf8Walk fuel (rest.drop (size - 1))

/-- Decode, refusing anything ill-formed. -/
def utf8Decode (bytes : List UInt8) : Option String :=
  ((utf8Walk bytes.length bytes).mapM id).map String.ofList

/-- Decode, replacing what is ill-formed. -/
def utf8LossyChars (bytes : List UInt8) : List Char :=
  (utf8Walk bytes.length bytes).map fun c => c.getD replacementChar

def utf8Lossy (bytes : List UInt8) : String := String.ofList (utf8LossyChars bytes)

end Federation
