/-
  The addresses that the link is dialled at.

  An address becomes a URI by `ClientTransport.endpointUri`, which always leaves a scheme in front.
  What is checked here is the rest: an authority that is not empty, and a path and query after it.
-/
import Federation.Identity
import Federation.Security.Transport

namespace Federation

/-! ## Characters -/

/-- Letters, digits and the punctuation that an authority may hold, its delimiters included. -/
def isAuthorityChar (c : Char) : Bool :=
  isAsciiAlphanumeric c || "!$&()*+,-.:;=@[]_~".toList.contains c || c = Char.ofNat 39

def endsAuthority (c : Char) : Bool := c = '/' || c = '?' || c = '#'

/-- Does `n` lie in one of the ranges? -/
def isOneOf (n : Nat) (ranges : List (Nat × Nat)) : Bool :=
  ranges.any fun r => r.1 ≤ n && n ≤ r.2

def isPathChar (c : Char) : Bool :=
  isOneOf c.toNat [(0x21, 0x22), (0x24, 0x3b), (0x3d, 0x3d), (0x40, 0x5f), (0x61, 0x7e)]

def isQueryChar (c : Char) : Bool :=
  isOneOf c.toNat [(0x21, 0x21), (0x24, 0x3b), (0x3d, 0x3d), (0x3f, 0x7e)]

/-! ## Authorities -/

/-- What has been seen of an authority. -/
structure AuthorityScan where
  colons : Nat
  opened : Bool
  closed : Bool
  /-- A percent sign outside the user part and the brackets. -/
  percent : Bool
  /-- The last character was an at sign. -/
  atEnd : Bool

/-- Colons of an address in brackets: at most this many. -/
def maxColons : Nat := 8

def AuthorityScan.step (s : AuthorityScan) (c : Char) : Option AuthorityScan :=
  if c = ':' then
    if maxColons ≤ s.colons then none else some { s with colons := s.colons + 1, atEnd := false }
  else if c = '[' then
    if s.percent || s.opened then none else some { s with opened := true, atEnd := false }
  else if c = ']' then
    if !s.opened || s.closed then none
    else some { s with closed := true, colons := 0, percent := false, atEnd := false }
  else if c = '@' then some { s with colons := 0, percent := false, atEnd := true }
  else if c = '%' then some { s with percent := true, atEnd := false }
  else if isAuthorityChar c then some { s with atEnd := false }
  else none

/-- A host with at most one colon behind it, brackets closed, and something after the user part. -/
def isAuthority (cs : List Char) : Bool :=
  match cs.foldlM AuthorityScan.step ⟨0, false, false, false, false⟩ with
  | none => false
  | some s => !cs.isEmpty && s.opened = s.closed && s.colons ≤ 1 && !s.atEnd && !s.percent

/-! ## URIs -/

/-- A path, a query after the first question mark, and a fragment that is dropped. -/
def isPathAndQuery (cs : List Char) : Bool :=
  let cs := cs.takeWhile (· ≠ '#')
  let (path, query) := cs.span (· ≠ '?')
  path.all isPathChar && (query.drop 1).all isQueryChar

def maxUriLength : Nat := 65534

/-- What comes after the scheme of a well-formed URI. -/
def isHierarchy (cs : List Char) : Bool :=
  let (authority, rest) := cs.span (!endsAuthority ·)
  isAuthority authority && isPathAndQuery rest

def afterScheme (uri : String) : Option (List Char) :=
  let cs := uri.toList
  if "http://".toList.isPrefixOf cs then some (cs.drop 7)
  else if "https://".toList.isPrefixOf cs then some (cs.drop 8)
  else none

def isUri (uri : String) : Bool :=
  utf8Length uri ≤ maxUriLength && ((afterScheme uri).map isHierarchy).getD false

/-- Check the address of an aggregator and the TLS material before anything is dialled. -/
def ClientTransport.checkEndpoint [TlsLibrary] (t : ClientTransport) (address : String) :
    Except FederationError Unit :=
  let uri := t.endpointUri address
  if isUri uri then t.accept
  else .error (.configuration ("invalid aggregator address " ++ uri))

end Federation
