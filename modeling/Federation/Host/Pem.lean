/-
  A reader of PEM files: base64 between `BEGIN` and `END` lines.

  * `pemLines`: the lines of a file, each with what comes after it;
  * `readSection`: the next known section of a list of lines;
  * `pemReader`: the reader, by `readSection_mem` and `pemLines_split`, which say where the section
    ends and what is left then.

  Text around the sections does not count, and neither do sections with other labels, except that
  they too must be well formed.

  This takes the place of the library that the federation is linked with.  What is proved of the
  federation holds of every reader; this one is there to run it, and for single examples.
-/
import Federation.Host.Base64
import Federation.Security.Pem

namespace Federation.Host

open PemSection (bytesOf)

/-! ## Lines -/

/-- The lines of a file, each with what comes after it; a line feed and a carriage return each end
a line. -/
def pemLines : List UInt8 → List (List UInt8 × List UInt8)
  | [] => [([], [])]
  | b :: bs =>
    if b = 10 || b = 13 then ([], bs) :: pemLines bs
    else
      match pemLines bs with
      | [] => [([b], [])]
      | (line, after) :: lines => (b :: line, after) :: lines

/-- A line stands before what comes after it. -/
theorem pemLines_split {file line after : List UInt8} (h : (line, after) ∈ pemLines file) :
    ∃ front, front ++ after = file ∧ line.length ≤ front.length := by
  induction file generalizing line after with
  | nil =>
    cases List.mem_singleton.1 h
    exact ⟨[], rfl, Nat.le_refl 0⟩
  | cons b bs ih =>
    have hlater : ∀ {line after}, (line, after) ∈ pemLines bs →
        ∃ front, front ++ after = b :: bs ∧ line.length < front.length := by
      intro line after hmem
      obtain ⟨front, rfl, hlen⟩ := ih hmem
      exact ⟨b :: front, rfl, Nat.lt_succ_of_le hlen⟩
    rw [pemLines] at h
    split at h
    · rcases List.mem_cons.1 h with hfirst | hmem
      · cases hfirst
        exact ⟨[b], rfl, Nat.zero_le 1⟩
      · obtain ⟨front, hfront, hlen⟩ := hlater hmem
        exact ⟨front, hfront, Nat.le_of_lt hlen⟩
    · split at h
      · cases List.mem_singleton.1 h
        exact ⟨b :: bs, List.append_nil _, Nat.succ_le_succ (Nat.zero_le _)⟩
      · next line' after' lines hlines =>
        rw [hlines] at hlater
        rcases List.mem_cons.1 h with hfirst | hmem
        · cases hfirst
          obtain ⟨front, hfront, hlen⟩ := hlater List.mem_cons_self
          exact ⟨front, hfront, hlen⟩
        · obtain ⟨front, hfront, hlen⟩ := hlater (List.mem_cons_of_mem _ hmem)
          exact ⟨front, hfront, Nat.le_of_lt hlen⟩

def trimSpaces (line : List UInt8) : List UInt8 := (line.reverse.dropWhile (· = 32)).reverse

def dashes : List UInt8 := List.replicate 5 45

def beginMark : List UInt8 := bytesOf "-----BEGIN "

/-- The line a section with this label ends with. -/
def endMark (label : List UInt8) : List UInt8 := bytesOf "-----END " ++ label ++ dashes

/-- What a line says about sections. -/
inductive PemLine where
  | opens (label : List UInt8)
  /-- Begins like an opening line but does not end like one. -/
  | illFormed
  | other
  deriving DecidableEq

/-- Dashes and spaces at the end of a reversed line: how many dashes there are, and what is left in
front of the first of them. -/
def trailer : List UInt8 → List UInt8 → Nat → List UInt8 × Nat
  | [], front, n => (front, n)
  | b :: bs, front, n =>
    if b = 45 then trailer bs bs (n + 1)
    else if b = 32 then trailer bs front n
    else (front, n)

def classify (line : List UInt8) : PemLine :=
  if beginMark.isPrefixOf line then
    let r := line.reverse
    let (front, n) := trailer r r 0
    if n = 5 then .opens (front.reverse.drop beginMark.length) else .illFormed
  else .other

/-! ## Sections -/

/-- Sections that are handed on, whether or not they are what is searched for. -/
def isKnown (s : PemSection) : Bool :=
  s.isCertificate || s.isPrivateKey ||
    [bytesOf "X509 CRL", bytesOf "CERTIFICATE REQUEST"].contains s.label

/-- The next known section with what comes after its last line. -/
def readSection :
    List (List UInt8 × List UInt8) → Option (List UInt8) → List UInt8 →
      Except String (Option (PemSection × List UInt8))
  | [], none, _ => .ok none
  | [], some _, _ => .error "a section has no end"
  | (line, after) :: rest, current, text =>
    match classify line with
    | .illFormed => .error "a section does not begin as it should"
    | .opens label => readSection rest (some label) text
    | .other =>
      match current with
      | none => readSection rest none text
      | some label =>
        if (endMark label).isPrefixOf line then
          match base64Decode text with
          | none => .error "a section is not base64"
          | some body =>
            let s : PemSection := ⟨label, body⟩
            if isKnown s then .ok (some (s, after)) else readSection rest none []
        else readSection rest (some label) (text ++ trimSpaces line)

/-- A section ends with a line that is not empty. -/
theorem readSection_mem {lines : List (List UInt8 × List UInt8)} {current : Option (List UInt8)}
    {text : List UInt8} {s : PemSection} {after : List UInt8}
    (h : readSection lines current text = .ok (some (s, after))) :
    ∃ line, (line, after) ∈ lines ∧ line ≠ [] := by
  induction lines generalizing current text with
  | nil => cases current <;> cases h
  | cons first lines ih =>
    have hlater : ∀ {current text}, readSection lines current text = .ok (some (s, after)) →
        ∃ line, (line, after) ∈ first :: lines ∧ line ≠ [] := by
      intro current text h
      obtain ⟨line, hmem, hne⟩ := ih h
      exact ⟨line, List.mem_cons_of_mem _ hmem, hne⟩
    unfold readSection at h
    split at h
    · cases h
    · exact hlater h
    · split at h
      · exact hlater h
      · split at h
        · next label hend =>
          split at h
          · cases h
          · simp only at h
            split at h
            · cases h
              refine ⟨first.1, List.mem_cons_self, fun hempty => ?_⟩
              -- no line that ends a section is empty
              rw [hempty] at hend
              cases hend
            · exact hlater h
        · exact hlater h

/-- The reader. -/
instance pemReader : PemReader where
  next file := readSection (pemLines file) none []
  remainder h := by
    obtain ⟨line, hmem, hne⟩ := readSection_mem h
    obtain ⟨front, hfront, hlen⟩ := pemLines_split hmem
    refine ⟨front, fun hempty => hne ?_, hfront⟩
    rw [hempty] at hlen
    exact List.length_eq_zero_iff.1 (Nat.le_zero.1 hlen)

end Federation.Host
