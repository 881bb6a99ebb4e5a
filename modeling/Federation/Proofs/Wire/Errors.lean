/-
  What becomes of an error on its way through the wire.

  A status keeps the kind of an error and its text, and the two round numbers of a stale update in
  decimal.

  * `parseUnsigned_toString`, `roundOf_toString`: numbers come back from their text;
  * `FederationError.Alike`: errors that differ in nothing but their texts;
  * `toError_staleUpdate_iff`: a stale update comes back with its round numbers iff they are 64-bit
    numbers;
  * `FederationError.Travels`, `alike_toError_iff`: the errors that come back as what they were;
  * `Wire.Carries`: connections that keep what has to be kept;
  * `ErrorKind`, `errors_come_back`: over them, what every error comes back as;
  * `SameAnswer`: equal answers, or errors that are alike;
  * `sameAnswer_of_status`: what a client makes of an answer that came as a status.
-/
import Mathlib
import Federation.Wire.Status

namespace Federation

/-! ## Numbers as text -/

theorem isDigit_of_mem_toDigits {n : Nat} {c : Char} (h : c ∈ Nat.toDigits 10 n) :
    isDigit c = true :=
  Nat.isDigit_of_mem_toDigits (b := 10) (by decide) le_rfl h

theorem natOfDigits_toDigits (n : Nat) : natOfDigits (Nat.toDigits 10 n) = n := by
  have h : natOfDigits (Nat.toDigits 10 n) = Nat.ofDigitChars 10 (Nat.toDigits 10 n) 0 :=
    Nat.ofDigitChars_eq_foldl.symm
  rw [h, Nat.ofDigitChars_toDigits (by decide) le_rfl]

/-- A number in decimal reads back as itself, when it is in range. -/
theorem parseUnsigned_toString (limit n : Nat) :
    parseUnsigned limit (toString n) = if n < limit then some n else none := by
  have hdigits : (Nat.toDigits 10 n).all isDigit = true :=
    List.all_eq_true.2 fun c hc => isDigit_of_mem_toDigits hc
  have hne : (Nat.toDigits 10 n).isEmpty = false := by simp
  rw [parseUnsigned, Nat.toString_eq_ofList_toDigits, String.toList_ofList]
  -- no sign stands before the digits
  have hplain : ∀ ds, Nat.toDigits 10 n ≠ '+' :: ds := by
    intro ds h
    have : isDigit '+' = true := isDigit_of_mem_toDigits (n := n) (h ▸ List.mem_cons_self)
    exact absurd this (by decide)
  split
  · next ds h => exact absurd h (hplain ds)
  · simp only [hne, hdigits, natOfDigits_toDigits]
    rfl

namespace Wire

@[simp] theorem Status.roundOf_toString (n : Nat) :
    Status.roundOf (some (toString n)) = if n < limit64 then n else 0 := by
  rw [Status.roundOf, Option.bind_some, parseUnsigned_toString]
  split <;> rfl

end Wire

/-! ## Errors -/

namespace FederationError

/-- The same error, perhaps with another text. -/
inductive Alike : FederationError → FederationError → Prop
  | configuration {a b} : Alike (.configuration a) (.configuration b)
  | unknownCollaborator {a b} : Alike (.unknownCollaborator a) (.unknownCollaborator b)
  | membershipDenied {a b} : Alike (.membershipDenied a) (.membershipDenied b)
  | trainingFailure {a b} : Alike (.trainingFailure a) (.trainingFailure b)
  | transport {a b} : Alike (.transport a) (.transport b)
  | invalidArgument {a b} : Alike (.invalidArgument a) (.invalidArgument b)
  | staleUpdate {base current} : Alike (.staleUpdate base current) (.staleUpdate base current)
  | aggregation {a b} : Alike (.aggregation a) (.aggregation b)
  | cancelled : Alike .cancelled .cancelled

theorem alike_staleUpdate_iff {base current base' current' : Nat} :
    Alike (.staleUpdate base current) (.staleUpdate base' current') ↔
      base' = base ∧ current' = current := by
  constructor
  · rintro ⟨⟩
    exact ⟨rfl, rfl⟩
  · rintro ⟨rfl, rfl⟩
    exact .staleUpdate

theorem Alike.isRecoverable {e e' : FederationError} (h : e.Alike e') :
    e'.isRecoverable = e.isRecoverable := by cases h <;> rfl

theorem Alike.isTransport {e e' : FederationError} (h : e.Alike e') :
    e'.isTransport = e.isTransport := by cases h <;> rfl

/-- The errors that come through the wire as what they are. -/
def Travels : FederationError → Prop
  | .unknownCollaborator _ | .membershipDenied _ | .invalidArgument _ | .transport _
  | .aggregation _ => True
  | .staleUpdate base current => base < limit64 ∧ current < limit64
  | .configuration _ | .trainingFailure _ | .cancelled => False

/-- A stale update comes back as it was iff its round numbers are 64-bit numbers. -/
theorem toError_staleUpdate_iff {base current : Nat} :
    (Wire.Status.ofError (.staleUpdate base current)).toError = .staleUpdate base current ↔
      base < limit64 ∧ current < limit64 := by
  -- a number that is too large is read as zero
  have hround : ∀ n : Nat, (if n < limit64 then n else 0) = n ↔ n < limit64 := by
    intro n
    unfold limit64
    split <;> omega
  simp only [Wire.Status.ofError, Wire.Status.toError, Wire.Status.roundOf_toString,
    staleUpdate.injEq, hround]

/-- Exactly these do. -/
theorem alike_toError_iff (e : FederationError) :
    e.Alike (Wire.Status.ofError e).toError ↔ e.Travels := by
  cases e with
  | unknownCollaborator | membershipDenied | invalidArgument | transport | aggregation =>
    exact ⟨fun _ => trivial, fun _ => by constructor⟩
  | configuration | trainingFailure | cancelled => exact ⟨nofun, nofun⟩
  | staleUpdate base current =>
    rw [Travels, ← toError_staleUpdate_iff]
    simp only [Wire.Status.ofError, Wire.Status.toError, alike_staleUpdate_iff,
      staleUpdate.injEq]

end FederationError

/-! ## Kinds of errors -/

/-- An error without what it carries. -/
inductive ErrorKind where
  | configuration
  | unknownCollaborator
  | membershipDenied
  | trainingFailure
  | transport
  | invalidArgument
  | staleUpdate
  | aggregation
  | cancelled
  deriving DecidableEq, Repr

/-- The kinds with a status code of their own, that is read back as nothing else. -/
def ErrorKind.hasCode : ErrorKind → Bool
  | unknownCollaborator | membershipDenied | invalidArgument | staleUpdate | aggregation => true
  | configuration | trainingFailure | transport | cancelled => false

def FederationError.kind : FederationError → ErrorKind
  | configuration _ => .configuration
  | unknownCollaborator _ => .unknownCollaborator
  | membershipDenied _ => .membershipDenied
  | trainingFailure _ => .trainingFailure
  | transport _ => .transport
  | invalidArgument _ => .invalidArgument
  | staleUpdate _ _ => .staleUpdate
  | aggregation _ => .aggregation
  | cancelled => .cancelled

/-- Text that metadata may hold: visible ASCII characters and blanks. -/
def IsPrintable (text : String) : Prop := ∀ c ∈ text.toList, ' ' ≤ c ∧ c ≤ '~'

instance (text : String) : Decidable (IsPrintable text) :=
  inferInstanceAs (Decidable (∀ c ∈ text.toList, ' ' ≤ c ∧ c ≤ '~'))

theorem isPrintable_toString (n : Nat) : IsPrintable (toString n) := by
  intro c hc
  rw [Nat.toString_eq_ofList_toDigits, String.toList_ofList] at hc
  have hdigit := isDigit_of_mem_toDigits hc
  simp only [isDigit, Bool.and_eq_true, decide_eq_true_eq] at hdigit
  exact ⟨le_trans (by decide) hdigit.1, le_trans hdigit.2 (by decide)⟩

/-- A connection that keeps the code and the text of a status, and metadata that may be sent. -/
structure Wire.Carries (wire : Status → Status) : Prop where
  code : ∀ s, (wire s).code = s.code
  message : ∀ s, (wire s).message = s.message
  baseRound : ∀ s text, s.baseRound = some text → IsPrintable text →
    (wire s).baseRound = some text
  currentRound : ∀ s text, s.currentRound = some text → IsPrintable text →
    (wire s).currentRound = some text

/-- What is read does not depend on the connection. -/
theorem Wire.Carries.toError_ofError {wire : Status → Status} (h : Carries wire)
    (e : FederationError) : (wire (Status.ofError e)).toError = (Status.ofError e).toError := by
  unfold Status.toError
  rw [h.code, h.message]
  cases e with
  | staleUpdate base current =>
    have hbase := h.baseRound (Status.ofError (.staleUpdate base current)) _ rfl
      (isPrintable_toString base)
    have hcurrent := h.currentRound (Status.ofError (.staleUpdate base current)) _ rfl
      (isPrintable_toString current)
    rw [hbase, hcurrent]
    rfl
  | _ => rfl

/-- **Errors come back.**  Every error that is sent as a status over a connection and read back can
be recovered from iff it could before.  Errors of the five kinds with a code of their own come back
as that kind, and all others as failures of the transport.  A stale update comes back with the same
two 64-bit round numbers, and a failed aggregation with the text that it had. -/
theorem errors_come_back (wire : Wire.Status → Wire.Status) (hwire : Wire.Carries wire) :
    let back := fun e => (wire (Wire.Status.ofError e)).toError
    (∀ e, (back e).isRecoverable = e.isRecoverable ∧
      (back e).kind = if e.kind.hasCode then e.kind else .transport) ∧
    (∀ base current, base < limit64 → current < limit64 →
      back (.staleUpdate base current) = .staleUpdate base current) ∧
    (∀ err, back (.aggregation err) =
      .aggregation (.remote (FederationError.aggregation err).message)) := by
  intro back
  have hback : ∀ e, back e = (Wire.Status.ofError e).toError := hwire.toError_ofError
  simp only [hback]
  refine ⟨fun e => ?_, fun base current hbase hcurrent => ?_, fun err => rfl⟩
  · cases e <;> exact ⟨rfl, rfl⟩
  · exact FederationError.toError_staleUpdate_iff.2 ⟨hbase, hcurrent⟩

/-- The largest round number and the smallest, over a connection that drops other metadata. -/
theorem stale_update_comes_back :
    let wire := fun s : Wire.Status =>
      { s with
        baseRound := s.baseRound.filter fun text => decide (IsPrintable text)
        currentRound := s.currentRound.filter fun text => decide (IsPrintable text) }
    Wire.Carries wire ∧ 18446744073709551615 < limit64 ∧ 0 < limit64 ∧
      (wire (Wire.Status.ofError (.staleUpdate 18446744073709551615 0))).toError =
        .staleUpdate 18446744073709551615 0 := by
  intro wire
  have hwire : Wire.Carries wire := {
    code := fun _ => rfl
    message := fun _ => rfl
    baseRound := fun s text hs htext => by simp [wire, hs, htext]
    currentRound := fun s text hs htext => by simp [wire, hs, htext] }
  have hlargest : 18446744073709551615 < limit64 := by decide
  have hsmallest : 0 < limit64 := by decide
  exact ⟨hwire, hlargest, hsmallest, (errors_come_back wire hwire).2.1 _ _ hlargest hsmallest⟩

/-! ## Answers -/

/-- The same answer: equal when there is one, and errors that are alike. -/
inductive SameAnswer {α : Type} : Except FederationError α → Except FederationError α → Prop
  | ok (a : α) : SameAnswer (.ok a) (.ok a)
  | error {e e'} : e.Alike e' → e'.isRecoverable = e.isRecoverable →
      SameAnswer (.error e) (.error e')

/-- What a client makes of an answer that came over the wire, when the answer says enough and all
its errors travel. -/
theorem sameAnswer_of_status {α β γ : Type} {r : Except FederationError α} {f : α → γ} {g : α → β}
    {h : β → γ} (htells : ∀ a, h (g a) = f a) (htravels : ∀ e, r = .error e → e.Travels) :
    SameAnswer (r.map f)
      ((((r.map g).mapError Wire.Status.ofError).map h).mapError Wire.Status.toError) := by
  cases r with
  | error e =>
    have halike := (FederationError.alike_toError_iff e).2 (htravels e rfl)
    exact .error halike halike.isRecoverable
  | ok a =>
    simp only [Except.map, Except.mapError, htells]
    exact .ok _

end Federation
