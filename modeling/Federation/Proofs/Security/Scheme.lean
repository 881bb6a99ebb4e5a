/-
  The scheme an aggregator is dialled with.

  * `uriScheme`: what stands before the first colon of a URI;
  * `uriScheme_endpointUri`: the scheme of the address if it has one of the two, else the one that
    goes with the transport;
  * `dialled_scheme`: when the scheme is `https`, for a transport that comes out of settings;
  * `plaintext_scheme_kept`: a client with TLS that dials in plaintext.
-/
import Federation.Endpoint
import Federation.Proofs.Security.Transport

namespace Federation

open Disk (Tree Faults)

/-- What stands before the first colon of a URI. -/
def uriScheme (uri : String) : String := String.ofList (uri.toList.takeWhile (· ≠ ':'))

def hasPlainScheme (address : String) : Bool := "http://".toList.isPrefixOf address.toList

def hasTlsScheme (address : String) : Bool := "https://".toList.isPrefixOf address.toList

theorem uriScheme_of_plain {uri : String} (h : hasPlainScheme uri = true) :
    uriScheme uri = "http" := by
  obtain ⟨rest, hrest⟩ := List.isPrefixOf_iff_prefix.1 h
  unfold uriScheme
  rw [← hrest]
  rfl

theorem uriScheme_of_tls {uri : String} (h : hasTlsScheme uri = true) :
    uriScheme uri = "https" := by
  obtain ⟨rest, hrest⟩ := List.isPrefixOf_iff_prefix.1 h
  unfold uriScheme
  rw [← hrest]
  rfl

/-- No address has both schemes. -/
theorem not_hasTlsScheme {address : String} (h : hasPlainScheme address = true) :
    hasTlsScheme address = false := by
  cases ht : hasTlsScheme address with
  | false => rfl
  | true =>
    have := (uriScheme_of_plain h).symm.trans (uriScheme_of_tls ht)
    exact absurd this (by decide)

namespace ClientTransport

variable (x : ClientTransport) (address : String)

theorem uriScheme_endpointUri :
    uriScheme (x.endpointUri address) =
      if hasPlainScheme address then "http"
      else if hasTlsScheme address || x.isTls then "https"
      else "http" := by
  unfold endpointUri
  cases hp : hasPlainScheme address with
  | true =>
    rw [if_pos (show hasScheme address = true from Bool.or_eq_true_iff.2 (Or.inl hp))]
    exact uriScheme_of_plain hp
  | false =>
    cases ht : hasTlsScheme address with
    | true =>
      rw [if_pos (show hasScheme address = true from Bool.or_eq_true_iff.2 (Or.inr ht))]
      exact uriScheme_of_tls ht
    | false =>
      have hnone : hasScheme address = false := Bool.or_eq_false_iff.2 ⟨hp, ht⟩
      rw [hnone]
      cases x with
      | plain => exact uriScheme_of_plain (by simp [hasPlainScheme, scheme])
      | tls => exact uriScheme_of_tls (by simp [hasTlsScheme, scheme])

theorem uriScheme_endpointUri_iff :
    uriScheme (x.endpointUri address) = "https" ↔
      hasTlsScheme address = true ∨ hasPlainScheme address = false ∧ x.isTls = true := by
  rw [uriScheme_endpointUri]
  cases hp : hasPlainScheme address with
  | true => simp [not_hasTlsScheme hp]
  | false => cases hasTlsScheme address <;> cases x.isTls <;> simp

end ClientTransport

/-- **The scheme is the one of the address, if there is one.**  Let a client's transport come out of
its settings, whatever the disk, the operations on it that fail and the reader of certificate files.
Then it is TLS when TLS is on, and whenever insecure transport is not allowed.  Without a scheme in
the address it is dialled with `https` just when the transport is TLS; but an address that begins
with `http://` is dialled in plaintext even if the transport is TLS and insecure transport is not
allowed. -/
theorem dialled_scheme [PemReader] (m : DevMaterial) (s : SecuritySettings) (t : Tree)
    (faults : Faults) (address : String) {x : ClientTransport}
    (h : ((ClientTransport.fromSettings m s).run.run t faults).1 = .ok x) :
    (x.isTls = true ↔ s.tls.enabled = true) ∧
    (s.tls.allowInsecure = false → x.isTls = true) ∧
    (uriScheme (x.endpointUri address) = "https" ↔
      hasTlsScheme address = true ∨ hasPlainScheme address = false ∧ x.isTls = true) ∧
    (s.tls.allowInsecure = false →
      (uriScheme (x.endpointUri address) = "https" ↔ hasPlainScheme address = false)) := by
  obtain ⟨hplain, htls, -, -⟩ := secures_client m s t faults
  have hon : x.isTls = true → s.tls.enabled = true := fun hx => (htls.1 ⟨x, h, hx⟩).1
  have hoff : x.isTls = false → s.tls.enabled = false ∧ s.tls.allowInsecure = true :=
    fun hx => hplain.1 ⟨x, h, hx⟩
  have hsecure : s.tls.allowInsecure = false → x.isTls = true := by
    intro ha
    by_contra hx
    have := (hoff (Bool.eq_false_iff.2 hx)).2
    rw [ha] at this
    cases this
  refine ⟨⟨hon, fun he => ?_⟩, hsecure, x.uriScheme_endpointUri_iff address, fun ha => ?_⟩
  · by_contra hx
    have := (hoff (Bool.eq_false_iff.2 hx)).1
    rw [he] at this
    cases this
  · rw [x.uriScheme_endpointUri_iff address]
    cases hp : hasPlainScheme address with
    | true => simp [not_hasTlsScheme hp]
    | false => simp [hsecure ha]

/-- An address without a scheme, with a CA file that can be read. -/
theorem dialled_scheme_of_bare_address :
    let s : SecuritySettings := ⟨{ TlsSettings.default with mutualAuth := false }⟩
    let t : Tree := ⟨[(["certs"], .directory 0o755),
      (["certs", "ca.crt"], .file (DevMaterial.emptySection "CERTIFICATE") 0o644)], []⟩
    let x : ClientTransport := .tls (DevMaterial.emptySection "CERTIFICATE") "localhost" none
    ((ClientTransport.fromSettings .blank s).run.run t []).1 = .ok x ∧
      uriScheme (x.endpointUri "127.0.0.1:50051") = "https" := by
  intro s t x
  have h : ((ClientTransport.fromSettings .blank s).run.run t []).1 = .ok x := by decide +kernel
  obtain ⟨-, -, -, hscheme⟩ := dialled_scheme .blank s t [] "127.0.0.1:50051" h
  exact ⟨h, (hscheme rfl).2 (by decide +kernel)⟩

/-- With an address that brings the scheme, the transport is TLS and the address is dialled in
plaintext, although insecure transport is not allowed. -/
theorem plaintext_scheme_kept :
    let s : SecuritySettings := ⟨{ TlsSettings.default with mutualAuth := false }⟩
    let t : Tree := ⟨[(["certs"], .directory 0o755),
      (["certs", "ca.crt"], .file (DevMaterial.emptySection "CERTIFICATE") 0o644)], []⟩
    let x : ClientTransport := .tls (DevMaterial.emptySection "CERTIFICATE") "localhost" none
    s.tls.allowInsecure = false ∧
      ((ClientTransport.fromSettings .blank s).run.run t []).1 = .ok x ∧
      x.endpointUri "http://127.0.0.1:50051" = "http://127.0.0.1:50051" ∧
      uriScheme (x.endpointUri "http://127.0.0.1:50051") = "http" := by
  decide +kernel

end Federation
