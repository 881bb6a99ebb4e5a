/-
  Characters in quotes, the way they are shown inside messages.
-/
import Federation.Text.CharClass

namespace Federation

def hexDigit (n : Nat) : Char := if n < 10 then Char.ofNat (48 + n) else Char.ofNat (87 + n)

/-- Lower-case hexadecimal, without leading zeros. -/
def hexNumber (n : Nat) : String := String.ofList (Nat.toDigits 16 n)

/-- A code point written out. -/
def codePointEscape (c : Char) : String := "\\u\x7b" ++ hexNumber c.toNat ++ "\x7d"

/-- A character between single quotes, escaped when it would not show as itself. -/
def quoteChar (c : Char) : String :=
  let body :=
    if c = Char.ofNat 0 then "\\0"
    else if c = '\t' then "\\t"
    else if c = '\r' then "\\r"
    else if c = '\n' then "\\n"
    else if c = '\\' then "\\\\"
    else if c = Char.ofNat 39 then "\\'"
    else if isGraphemeExtend c then codePointEscape c
    else if isPrintable c then String.singleton c
    else codePointEscape c
  "'" ++ body ++ "'"

end Federation
