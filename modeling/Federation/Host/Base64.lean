/-
  Base64 text, with or without the padding at its end.
-/
namespace Federation.Host

/-- The six bits a character stands for. -/
def sextet (b : UInt8) : Option Nat :=
  let n := b.toNat
  if 65 ≤ n && n ≤ 90 then some (n - 65)
  else if 97 ≤ n && n ≤ 122 then some (n - 71)
  else if 48 ≤ n && n ≤ 57 then some (n + 4)
  else if n = 43 then some 62
  else if n = 47 then some 63
  else none

def padding : UInt8 := 61

/-- Three bytes for every four sextets.  What a shorter group at the end does not use has to be
zero. -/
def groupSextets : List Nat → Option (List UInt8)
  | [] => some []
  | [_] => none
  | [a, b] => if b % 16 = 0 then some [UInt8.ofNat (a * 4 + b / 16)] else none
  | [a, b, c] =>
    if c % 4 = 0 then some [UInt8.ofNat (a * 4 + b / 16), UInt8.ofNat (b % 16 * 16 + c / 4)]
    else none
  | a :: b :: c :: d :: rest =>
    (groupSextets rest).map fun bytes =>
      UInt8.ofNat (a * 4 + b / 16) :: UInt8.ofNat (b % 16 * 16 + c / 4) ::
        UInt8.ofNat (c % 4 * 64 + d) :: bytes

/-- Decode.  Padding may be left out, but there is never too much of it. -/
def base64Decode (text : List UInt8) : Option (List UInt8) :=
  let body := (text.reverse.dropWhile (· = padding)).reverse
  let pads := text.length - body.length
  let room := (4 - body.length % 4) % 4
  if room < pads then none else (body.mapM sextet).bind groupSextets

end Federation.Host
