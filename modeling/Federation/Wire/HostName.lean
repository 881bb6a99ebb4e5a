/-
  The names and numbers of hosts.
-/
import Federation.Identity
import Federation.Numeric.Decimal
import Federation.Path

namespace Federation

/-- One label of a host name. -/
def isHostLabel (l : List Char) : Bool :=
  !l.isEmpty && l.length ≤ 63 && l.head? ≠ some '-' && l.getLast? ≠ some '-' &&
    l.all fun c => isAsciiAlphanumeric c || c = '-' || c = '_'

/-- A host name: labels between dots, one more dot allowed at the end, the last label not a
number. -/
def isHostName (s : String) : Bool :=
  let labels := splitAt '.' s.toList
  let labels := if labels.getLast? = some [] then labels.dropLast else labels
  utf8Length s ≤ 253 && !labels.isEmpty && labels.all isHostLabel &&
    !((labels.getLast?.getD []).all isDigit)

/-- Four decimal numbers below 256 without leading zeros. -/
def isIPv4 (s : String) : Bool :=
  let parts := splitAt '.' s.toList
  parts.length = 4 && parts.all fun p =>
    !p.isEmpty && p.length ≤ 3 && p.all isDigit && natOfDigits p < 256 &&
      (p.length = 1 || p.head? ≠ some '0')

/-- Groups of up to four hexadecimal digits, in at most one place left out with `::`. -/
def isIPv6 (s : String) : Bool :=
  let isGroup := fun (g : List Char) =>
    !g.isEmpty && g.length ≤ 4 && g.all fun c => (digitInBase 16 c).isSome
  let groups := fun (p : String) => if p.isEmpty then [] else splitAt ':' p.toList
  match s.splitOn "::" with
  | [whole] => (groups whole).length = 8 && (groups whole).all isGroup
  | [left, right] =>
    (groups left).length + (groups right).length ≤ 7 && (groups left).all isGroup &&
      (groups right).all isGroup
  | _ => false

end Federation
