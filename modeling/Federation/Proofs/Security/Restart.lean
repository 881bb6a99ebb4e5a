/-
  Starting again.

  * `Start`, `Start.after`, `Start.outcome`: one start of one side, the disk that it leaves, and
    what comes of it;
  * `Start.Mints`: a start that makes the files for development; `Start.minted`, `Start.after_idle`:
    what it does to the disk, and that no other start does anything;
  * `certificates_kept`: over any number of starts, what becomes of the files that were there;
  * `Aftermath`, `aftermath_of_failed_making`: what a start that could not make the files leaves to
    the next one.
-/
import Federation.Proofs.Security.Minting

namespace Federation

open Disk (Program Tree Faults Request Location Holds)
open Disk.Tree (SameFile)

/-! ## One start -/

inductive Side where
  | server
  | client
  deriving DecidableEq, Repr

/-- A start of one side: what it is told, what a generator of certificates makes for it, and the
faults ahead. -/
structure Start where
  side : Side
  settings : SecuritySettings
  material : DevMaterial
  faults : Faults

namespace Start

variable [PemReader] (x : Start) (t : Tree)

/-- Whether the transport is TLS, and the disk that is left. -/
def run : Except FederationError Bool × Tree :=
  match x.side with
  | .server =>
    let (r, t, _) := (ServerTransport.fromSettings x.material x.settings).run.run t x.faults
    (r.map ServerTransport.isTls, t)
  | .client =>
    let (r, t, _) := (ClientTransport.fromSettings x.material x.settings).run.run t x.faults
    (r.map ClientTransport.isTls, t)

def outcome : Except FederationError Bool := (x.run t).1

def after : Tree := (x.run t).2

/-- What the side has to read. -/
def needs : List Need :=
  match x.side with
  | .server => ServerTransport.needs x.settings.tls
  | .client => ClientTransport.needs x.settings.tls

/-- The CA file is looked for, and found. -/
def FindsAuthority : Prop :=
  ((Request.present x.settings.tls.caFile).meet x.faults t).1 = .ok true

/-- The files for development are due. -/
structure Mints : Prop where
  enabled : x.settings.tls.enabled = true
  asked : x.settings.tls.autoGenerateCert = true
  missing : ¬ x.FindsAuthority t

/-- The making of the files, from the moment the CA file was not found. -/
def making : Except FederationError Unit × Tree × Faults :=
  (writeDevMaterial x.material x.settings.tls.certDir).run.run t x.faults.tail

end Start

/-- What comes of looking after the files. -/
theorem run_ensureMaterial (s : TlsSettings) (m : DevMaterial) (t : Tree) (faults : Faults) :
    (s.ensureMaterial m).run.run t faults =
      if s.autoGenerateCert = true then
        if ((Request.present s.caFile).meet faults t).1 = .ok true then (.ok (), t, faults.tail)
        else (writeDevMaterial m s.certDir).run.run t faults.tail
      else (.ok (), t, faults) := by
  unfold TlsSettings.ensureMaterial
  split
  · have htree : ((Request.present s.caFile).meet faults t).2 = t := Request.meet_of_looks _ rfl ..
    have hlift : (ExceptT.lift (Program.request (.present s.caFile)) :
        FileTask (Except Disk.OsError Bool)).run.run t faults =
        (.ok ((Request.present s.caFile).meet faults t).1, t, faults.tail) := by
      refine Eq.trans ?_ (congrArg (fun u => (_, u, _)) htree)
      rfl
    rw [Program.run_task_bind, hlift]
    rcases ((Request.present s.caFile).meet faults t).1 with e | ⟨_ | _⟩ <;> rfl
  · rfl

/-- Loading changes nothing, and is not come to when what goes before it fails. -/
theorem Loads.run_after {τ : Type} {load : FileTask τ} {needs : List Need}
    (hload : Loads load needs) (first : FileTask Unit) (t : Tree) (faults : Faults) :
    ((do first; load : FileTask τ).run.run t faults).2.1 = (first.run.run t faults).2.1 ∧
      ∀ e, (first.run.run t faults).1 = .error e →
        ((do first; load : FileTask τ).run.run t faults).1 = .error e := by
  rw [Program.run_task_bind]
  rcases first.run.run t faults with ⟨e | ⟨⟩, u, faults'⟩
  · exact ⟨rfl, fun e' h => by cases h; rfl⟩
  · exact ⟨hload.run_tree u faults', nofun⟩

namespace Start

variable {x : Start} {t : Tree}

/-- On a sound disk, the CA file is found when it is there. -/
theorem findsAuthority_iff (h : x.faults = []) :
    x.FindsAuthority t ↔ t.exists? x.settings.tls.caFile = true := by
  rw [FindsAuthority, h]
  show (Except.ok (t.exists? x.settings.tls.caFile) : Except Disk.OsError Bool) = .ok true ↔ _
  rw [Except.ok.injEq]

theorem looking_of_mints (h : x.Mints t) :
    (x.settings.tls.ensureMaterial x.material).run.run t x.faults = x.making t := by
  rw [run_ensureMaterial, if_pos h.asked]
  exact if_neg h.missing

theorem looking_of_found (hasked : x.settings.tls.autoGenerateCert = true)
    (h : x.FindsAuthority t) :
    (x.settings.tls.ensureMaterial x.material).run.run t x.faults =
      (.ok (), t, x.faults.tail) := by
  rw [run_ensureMaterial, if_pos hasked]
  exact if_pos h

section
variable [PemReader]

/-- What the two sides have in common. -/
structure IsTask (x : Start) {τ : Type} (isTls : τ → Bool) (task : FileTask τ) : Prop where
  run_eq : ∀ t, x.run t = ((task.run.run t x.faults).1.map isTls, (task.run.run t x.faults).2.1)
  secures : ∀ t, Secures isTls x.needs x.material x.settings task t x.faults
  loads : x.settings.tls.enabled = true → ∃ load : FileTask τ, Loads load x.needs ∧
    task = do
      x.settings.tls.ensureMaterial x.material
      load

theorem exists_isTask (x : Start) :
    ∃ (τ : Type) (isTls : τ → Bool) (task : FileTask τ), x.IsTask isTls task := by
  obtain ⟨side, s, m, faults⟩ := x
  cases side with
  | server =>
    exact ⟨_, _, _, fun _ => rfl, fun t => secures_server m s t faults,
      fun hon => ⟨_, loads_server s.tls, if_pos hon⟩⟩
  | client =>
    exact ⟨_, _, _, fun _ => rfl, fun t => secures_client m s t faults,
      fun hon => ⟨_, loads_client s.tls, if_pos hon⟩⟩

/-- TLS, as it is decided on either side. -/
theorem outcome_iff : x.outcome t = .ok true ↔ x.settings.tls.enabled = true ∧
    Prepared x.needs x.material x.settings t x.faults := by
  obtain ⟨τ, isTls, task, htask⟩ := x.exists_isTask
  rw [outcome, htask.run_eq]
  exact map_eq_ok_iff.trans (htask.secures t).tls

/-- A start that does not make the files leaves the disk as it is. -/
theorem after_idle (h : ¬ x.Mints t) : x.after t = t := by
  obtain ⟨τ, isTls, task, htask⟩ := x.exists_isTask
  by_contra hne
  rw [after, htask.run_eq] at hne
  obtain ⟨h1, h2, h3⟩ := (htask.secures t).untouched ⟨_, Program.run_mem_trees .., hne⟩
  exact h ⟨h1, h2, h3⟩

theorem run_of_mints (h : x.Mints t) : x.after t = (x.making t).2.1 ∧
    ∀ e, (x.making t).1 = .error e → x.outcome t = .error e := by
  obtain ⟨τ, isTls, task, htask⟩ := x.exists_isTask
  obtain ⟨load, hload, rfl⟩ := htask.loads h.enabled
  obtain ⟨htree, herror⟩ := hload.run_after (x.settings.tls.ensureMaterial x.material) t x.faults
  rw [after, outcome, htask.run_eq, ← looking_of_mints h]
  exact ⟨htree, fun e he => congrArg (Except.map isTls) (herror e he)⟩

/-- What a start that makes the files does to the disk. -/
theorem minted (h : x.Mints t) :
    Minted x.material x.settings.tls.certDir t (x.making t).1 (x.after t) := by
  rw [(run_of_mints h).1]
  exact .of_run ..

end

end Start

/-! ## Many starts -/

section
variable [PemReader]

/-- The disk after start upon start. -/
def afterAll (xs : List Start) (t : Tree) : Tree := xs.foldl (fun t x => x.after t) t

theorem afterAll_concat (xs : List Start) (x : Start) (t : Tree) :
    afterAll (xs ++ [x]) t = x.after (afterAll xs t) := List.foldl_concat ..

/-- A file that is not the one it was was in the way of a start that made its own. -/
theorem sameFile_or_minted (xs : List Start) (t : Tree) (l : Location) :
    SameFile l t (afterAll xs t) ∨
      ∃ before x rest, xs = before ++ x :: rest ∧ x.Mints (afterAll before t) ∧
        ∃ f ∈ x.material.files, f.At x.settings.tls.certDir (afterAll (before ++ [x]) t) l := by
  induction xs generalizing t with
  | nil => exact Or.inl (.refl l t)
  | cons x xs ih =>
    -- either the first start is the one, or it leaves this place alone and the rest decides
    by_cases hx : x.Mints t ∧ ∃ f ∈ x.material.files, f.At x.settings.tls.certDir (x.after t) l
    · exact Or.inr ⟨[], x, xs, rfl, hx⟩
    · have hfirst : SameFile l t (x.after t) := by
        by_cases hmints : x.Mints t
        · exact (Start.minted hmints).elsewhere l fun f hf hat => hx ⟨hmints, f, hf, hat⟩
        · rw [Start.after_idle hmints]
          exact .refl l t
      rcases ih (x.after t) with hrest | ⟨before, y, rest, rfl, hy⟩
      · exact Or.inl (hfirst.trans hrest)
      · exact Or.inr ⟨x :: before, y, rest, rfl, hy⟩

/-- **What is there is kept, unless the CA file is not found.**  However often either side is
started, with whatever settings, reader of certificate files and disk, and whatever fails: a file
stays as it is, and none comes to be, except in the places of the five files for development in the
certificate directory of a start that was asked to make them and did not find its CA file.  Such a
start writes them in turn up to the one at which it stops, if it does; it does not look at what is
there. -/
theorem certificates_kept (xs : List Start) (t : Tree) :
    (∀ l, SameFile l t (afterAll xs t) ∨
      ∃ before x rest, xs = before ++ x :: rest ∧ x.Mints (afterAll before t) ∧
        ∃ f ∈ x.material.files, f.At x.settings.tls.certDir (afterAll (before ++ [x]) t) l) ∧
      ∀ before x rest, xs = before ++ x :: rest → x.Mints (afterAll before t) →
        Headway x.settings.tls.certDir (afterAll before t) (afterAll (before ++ [x]) t)
          x.material.files (x.making (afterAll before t)).1 := by
  refine ⟨sameFile_or_minted xs t, fun before x rest _ hmints => ?_⟩
  rw [afterAll_concat]
  exact (Start.minted hmints).headway

end

/-- On an empty disk, a first start makes the files. -/
theorem certificates_kept_first :
    let x : Start :=
      ⟨.server, ⟨{ TlsSettings.default with autoGenerateCert := true }⟩, .blank, []⟩
    x.Mints .empty ∧ Headway "certs" .empty (x.after .empty) DevMaterial.blank.files
      (x.making .empty).1 := by
  intro x
  have hmints : x.Mints .empty := ⟨rfl, rfl, by unfold Start.FindsAuthority; decide +kernel⟩
  exact ⟨hmints, (certificates_kept [x] .empty).2 [] x [] rfl hmints⟩

/-- With its CA elsewhere, and not there, a server replaces the certificates and the key that it
has. -/
theorem existing_key_replaced :
    let text := PemSection.bytesOf "-----BEGIN CERTIFICATE-----\nAAEC\n-----END CERTIFICATE-----\n"
    let old := PemSection.bytesOf "no key yet\n"
    let s : SecuritySettings := ⟨{ TlsSettings.default with
      autoGenerateCert := true, caPath := some "shared/ca.crt", mutualAuth := false }⟩
    let t : Tree := ⟨[(["certs"], .directory 0o755), (["certs", "ca.crt"], .file text 0o644),
      (["certs", "server.crt"], .file text 0o644), (["certs", "server.key"], .file old 0o644)], []⟩
    let x : Start := ⟨.server, s, .blank, []⟩
    x.outcome t = .ok true ∧
      t.read "certs/ca.crt" = .ok text ∧ (x.after t).read "certs/ca.crt" ≠ .ok text ∧
      t.read "certs/server.crt" = .ok text ∧ (x.after t).read "certs/server.crt" ≠ .ok text ∧
      t.read "certs/server.key" = .ok old ∧ (x.after t).read "certs/server.key" ≠ .ok old := by
  decide +kernel

/-! ## After a failure -/

/-- All files are in the certificate directory. -/
structure TlsSettings.InDirectory (s : TlsSettings) : Prop where
  ca : s.caPath = none
  cert : s.certPath = none
  key : s.keyPath = none
  clientCert : s.clientCertPath = none
  clientKey : s.clientKeyPath = none

/-- What could be made can be loaded. -/
structure DevMaterial.Loadable [PemReader] (m : DevMaterial) : Prop where
  authority : ∀ c, m.caCert = .ok c → HoldsCertificate c
  server : ∀ i, m.server = .ok i → HoldsCertificate i.certificate ∧ HoldsPrivateKey i.key
  client : ∀ i, m.client = .ok i → HoldsCertificate i.certificate ∧ HoldsPrivateKey i.key

theorem DevMaterial.loadable_blank : blank.Loadable := by
  have hcert : HoldsCertificate (emptySection "CERTIFICATE") :=
    (checkCertificates_iff "" _).1 (by decide +kernel)
  have hkey : HoldsPrivateKey (emptySection "PRIVATE KEY") :=
    (checkPrivateKey_iff "" _).1 (by decide +kernel)
  refine ⟨?_, ?_, ?_⟩ <;> rintro _ ⟨⟩
  · exact hcert
  · exact ⟨hcert, hkey⟩
  · exact ⟨hcert, hkey⟩

section
variable [PemReader]

/-- What a start that failed to make the files leaves to the starts after it. -/
structure Aftermath (x : Start) (t : Tree) (e : FederationError) : Prop where
  configuration : IsConfiguration e
  reported : x.outcome t = .error e
  minted : Minted x.material x.settings.tls.certDir t (.error e) (x.after t)
  /-- Once a file was touched, the CA file is found. -/
  marked : x.settings.tls.caPath = none →
    (∀ l, SameFile l t (x.after t)) ∨
      ∀ y : Start, y.settings = x.settings → y.faults = [] → y.FindsAuthority (x.after t)
  /-- Where the CA file is there, nothing is made, and what is missing stays missing. -/
  stuck : ∀ (y : Start) (u : Tree), y.settings = x.settings → y.FindsAuthority u →
    y.after u = u ∧ (y.outcome u = .ok true ↔ Available u y.faults.tail y.needs)
  /-- Where it is not, everything is made, and loaded if all of it is in its usual place. -/
  again : ∀ (y : Start) (u : Tree), y.settings = x.settings → ¬ y.FindsAuthority u →
    (y.making u).1 = .ok () →
    (∀ f ∈ y.material.files, f.Written y.settings.tls.certDir u (y.after u)) ∧
      (y.faults = [] → y.settings.tls.InDirectory → y.material.Loadable → y.outcome u = .ok true)

namespace Start

variable {x : Start} {t : Tree}

/-- One of the files that are made is the one that is needed. -/
def Makes (x : Start) (n : Need) : Prop :=
  ∃ f ∈ x.material.files, n.path = joinPath x.settings.tls.certDir f.name ∧
    ∀ content, f.made = .ok content → n.holds content

omit [PemReader] in
theorem Makes.of_mem {f : DevFile} (hf : f ∈ x.material.files) {path : Option String}
    (hpath : path = none) {holds : List UInt8 → Prop} (h : ∀ c, f.made = .ok c → holds c) :
    x.Makes ⟨path.getD (joinPath x.settings.tls.certDir f.name), holds⟩ :=
  ⟨f, hf, by rw [hpath]; rfl, h⟩

theorem makes_of_mem_needs (hdir : x.settings.tls.InDirectory) (hm : x.material.Loadable) :
    ∀ n ∈ x.needs, x.Makes n := by
  have hauthority : x.Makes (.certificate x.settings.tls.caFile) :=
    .of_mem (.head _) hdir.ca hm.authority
  have hidentity : ∀ {made : Except String TlsIdentity},
      (∀ i, made = .ok i → HoldsCertificate i.certificate ∧ HoldsPrivateKey i.key) →
        (∀ c, made.map TlsIdentity.certificate = .ok c → HoldsCertificate c) ∧
          ∀ c, made.map TlsIdentity.key = .ok c → HoldsPrivateKey c := by
    intro made h
    refine ⟨fun c hc => ?_, fun c hc => ?_⟩ <;> obtain ⟨i, hi, rfl⟩ := map_eq_ok_iff.1 hc
    · exact (h i hi).1
    · exact (h i hi).2
  obtain ⟨hcert, hkey⟩ := hidentity hm.server
  obtain ⟨hclientCert, hclientKey⟩ := hidentity hm.client
  have hserver : x.Makes (.certificate x.settings.tls.serverCertFile) ∧
      x.Makes (.privateKey x.settings.tls.serverKeyFile) :=
    ⟨.of_mem (.tail _ (.head _)) hdir.cert hcert,
      .of_mem (.tail _ (.tail _ (.head _))) hdir.key hkey⟩
  have hclient : x.Makes (.certificate x.settings.tls.clientCertFile) ∧
      x.Makes (.privateKey x.settings.tls.clientKeyFile) :=
    ⟨.of_mem (.tail _ (.tail _ (.tail _ (.head _)))) hdir.clientCert hclientCert,
      .of_mem (.tail _ (.tail _ (.tail _ (.tail _ (.head _))))) hdir.clientKey hclientKey⟩
  unfold needs
  cases x.side with
  | server =>
    refine List.forall_mem_append.2 ⟨by simp [hserver], ?_⟩
    split <;> simp [hauthority]
  | client =>
    refine List.forall_mem_append.2 ⟨by simp [hauthority], ?_⟩
    split <;> simp [hclient]

/-- The CA file is there: what is needed has to be there too. -/
theorem outcome_of_found (hon : x.settings.tls.enabled = true)
    (hasked : x.settings.tls.autoGenerateCert = true) (h : x.FindsAuthority t) :
    x.outcome t = .ok true ↔ Available t x.faults.tail x.needs := by
  rw [outcome_iff, Prepared, looking_of_found hasked h]
  simp [hon]

/-- The CA file is not there: what is needed is made. -/
theorem outcome_of_made (h : x.Mints t) (hmade : (x.making t).1 = .ok ()) (hsound : x.faults = [])
    (hdir : x.settings.tls.InDirectory) (hm : x.material.Loadable) : x.outcome t = .ok true := by
  have hrest : (x.making t).2.2 = [] := by
    unfold making
    rw [hsound]
    exact Program.rest_nil ..
  have hmint := minted h
  rw [(run_of_mints h).1, hmade] at hmint
  rw [outcome_iff, Prepared, looking_of_mints h]
  refine ⟨h.enabled, hmade, ?_⟩
  rw [hrest, available_sound]
  intro n hn
  obtain ⟨f, hf, hpath, hholds⟩ := makes_of_mem_needs hdir hm n hn
  obtain ⟨content, l, hcontent, hat, hnode⟩ := hmint.written f hf
  exact ⟨content, hpath ▸ (Disk.read_ok_iff hat).2 ⟨_, hnode⟩, hholds content hcontent⟩

end Start

/-- **What fails after the first write is not made up for.**  Whatever fails while the files are
made, and whichever library is to read them, the start ends with an error of the configuration, and
has written the files before the failure and none after it.  If no file was touched, the next start
that does not find the CA file makes all of them, and has what it needs when it succeeds.  If one
was, the CA file is found from then on, whole or in part, no start makes anything, and one that
needs what is missing fails. -/
theorem aftermath_of_failed_making (x : Start) (t : Tree) (e : FederationError) (h : x.Mints t)
    (hfail : (x.making t).1 = .error e) : Aftermath x t e := by
  have hmint : Minted x.material x.settings.tls.certDir t (.error e) (x.after t) :=
    hfail ▸ Start.minted h
  refine ⟨(fails_writeDevMaterial _ _).run _ _ e hfail, (Start.run_of_mints h).2 e hfail, hmint,
    fun hca => ?_, fun y u hy hfound => ⟨Start.after_idle fun hm => hm.missing hfound, ?_⟩,
    fun y u hy hnot hmade => ?_⟩
  · refine hmint.untouched_or_authority.imp_right fun hthere y hy hsound => ?_
    rw [Start.findsAuthority_iff hsound, hy, TlsSettings.caFile, hca]
    exact hthere
  · exact Start.outcome_of_found (hy ▸ h.enabled) (hy ▸ h.asked) hfound
  · have hmints : y.Mints u := ⟨hy ▸ h.enabled, hy ▸ h.asked, hnot⟩
    exact ⟨(hmade ▸ Start.minted hmints : Minted _ _ _ (.ok ()) _).written,
      Start.outcome_of_made hmints hmade⟩

end

/-- The server's certificate cannot be written; in a directory without the CA file the same start
succeeds. -/
theorem aftermath_of_blocked_certificate :
    let t : Tree :=
      ⟨[(["certs"], .directory 0o755), (["certs", "server.crt"], .directory 0o755)], []⟩
    let u : Tree := ⟨[(["certs"], .directory 0o755)], []⟩
    let x : Start :=
      ⟨.server, ⟨{ TlsSettings.default with autoGenerateCert := true }⟩, .blank, []⟩
    let e := FederationError.configuration "certs/server.crt: Is a directory (os error 21)"
    x.Mints t ∧ (x.making t).1 = .error e ∧ Aftermath x t e ∧ x.outcome u = .ok true := by
  intro t u x e
  have hmints : x.Mints t := ⟨rfl, rfl, by unfold Start.FindsAuthority; decide +kernel⟩
  have hfail : (x.making t).1 = .error e := by decide +kernel
  have haftermath := aftermath_of_failed_making x t e hmints hfail
  have hnot : ¬ x.FindsAuthority u := by unfold Start.FindsAuthority; decide +kernel
  have hmade : (x.making u).1 = .ok () := by decide +kernel
  obtain ⟨-, htls⟩ := haftermath.again x u rfl hnot hmade
  exact ⟨hmints, hfail, haftermath, htls rfl ⟨rfl, rfl, rfl, rfl, rfl⟩ DevMaterial.loadable_blank⟩

/-- The certificate of the server cannot be written, as there is a directory in its place; when that
is taken away, the server does not start either. -/
theorem restart_without_repair :
    let t : Tree :=
      ⟨[(["certs"], .directory 0o755), (["certs", "server.crt"], .directory 0o755)], []⟩
    let x : Start :=
      ⟨.server, ⟨{ TlsSettings.default with autoGenerateCert := true }⟩, .blank, []⟩
    t.exists? "certs/ca.crt" = false ∧
      x.outcome t = .error (.configuration "certs/server.crt: Is a directory (os error 21)") ∧
      (x.after t).exists? "certs/ca.crt" = true ∧
      x.outcome ((x.after t).erase ["certs", "server.crt"]) = .error (.configuration
        "cannot read certificate certs/server.crt: No such file or directory (os error 2)") := by
  decide +kernel

end Federation
