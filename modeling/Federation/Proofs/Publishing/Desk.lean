/-
  The file of the models, and the lock on it.

  Whoever has the lock publishes one model, request by request, while the others wait.  Any request
  may fail.

  * `Ticket`, `Tenure`: a model on its way to the file, and the call that has the lock;
  * `Desk`: the file, the lock and what became of the writes so far;
  * `Rising`: models in the order of their versions, up to a version;
  * `Desk.Stage`: how far a publication has come, and what the file is like then;
  * `Desk.Sound`: the stage the desk is at; kept by every step.
-/
import Federation.Aggregator.Service
import Federation.Proofs.Disk.Program

namespace Federation

open Disk (Fault Program Request Tree OsError)

/-! ## Publishing one model -/

/-- The answer to this request says that a file was moved to the path. -/
def Disk.Request.lands (path : String) : (r : Request) → Except OsError r.Reply → Bool
  | .rename _ target, .ok _ => decide (target = path)
  | _, _ => false

namespace Publisher

/-- What is left once the draft was to be moved. -/
def afterRename (p : Publisher) (v : ModelView) : Except OsError Unit → Program Publisher
  | .ok () => .done { p with writtenVersion := v.version }
  | .error _ => .done p

/-- What is left once the draft was to be written. -/
def afterDraft (p : Publisher) (path : String) (v : ModelView) :
    Except OsError Unit → Program Publisher
  | .ok () => .ask (.rename (draftPath path) path) (p.afterRename v)
  | .error _ => .done p

theorem publish_of_le {p : Publisher} {v : ModelView} (h : v.version ≤ p.writtenVersion) :
    p.publish v = .done p := by
  unfold publish
  cases p.output with
  | none => rfl
  | some path => exact if_pos h

theorem publish_of_lt {p : Publisher} {path : String} {v : ModelView}
    (hp : p.output = some path) (h : p.writtenVersion < v.version) :
    p.publish v =
      .ask (.overwrite (draftPath path) draftMode v.model) (p.afterDraft path v) := by
  obtain ⟨output, writtenVersion⟩ := p
  cases hp
  refine (if_neg (Nat.not_le.2 h)).trans ?_
  refine congrArg (Program.ask _) (funext fun reply => ?_)
  cases reply with
  | error e => rfl
  | ok u =>
    refine congrArg (Program.ask _) (funext fun reply => ?_)
    cases reply <;> rfl

end Publisher

/-! ## The lock -/

/-- A model on its way to the file. -/
structure Ticket where
  view : ModelView
  /-- The handler that waits for it, by its number, and what that will answer; nobody waits for a
  model that the watchdog brings. -/
  reply : Option (Nat × Wire.SubmitAck)
  deriving DecidableEq, Repr

/-- How far a write has come. -/
inductive Writing where
  | untouched
  | begun
  /-- The draft has been moved to the output. -/
  | landed
  deriving DecidableEq, Repr

/-- The call that has the lock. -/
structure Tenure where
  ticket : Ticket
  /-- What is left to be done. -/
  rest : Program Publisher
  /-- The file when the lock was taken. -/
  before : Except OsError (List UInt8)
  writing : Writing

/-- A write that failed, with the file before and after it. -/
structure Mishap where
  ticket : Ticket
  before : Except OsError (List UInt8)
  after : Except OsError (List UInt8)
  deriving DecidableEq

structure Desk where
  /-- Where the models go. -/
  path : String
  publisher : Publisher
  disk : Tree
  tenure : Option Tenure
  /-- The models that were moved to the output, in order. -/
  written : List Ticket
  mishaps : List Mishap

namespace Desk

/-- Nothing has been published yet. -/
def idle (path : String) (t : Tree) : Desk := ⟨path, .create (some path), t, none, [], []⟩

/-- The file at the output. -/
def file (d : Desk) : Except OsError (List UInt8) := d.disk.read d.path

/-- The file at the output, while nothing but the models moved there has changed it. -/
def content (initial : Except OsError (List UInt8)) (written : List Ticket) :
    Except OsError (List UInt8) :=
  written.getLast?.elim initial fun k => .ok k.view.model

/-- No write that failed has changed the file. -/
def Harmless (d : Desk) : Prop := ∀ f ∈ d.mishaps, f.after = f.before

instance (d : Desk) : Decidable d.Harmless := inferInstanceAs (Decidable (∀ f ∈ d.mishaps, _))

def acquire (d : Desk) (k : Ticket) : Desk :=
  { d with tenure := some ⟨k, d.publisher.publish k.view, d.file, .untouched⟩ }

/-- A request of the call that has the lock was answered, and left a disk. -/
def answered (d : Desk) (h : Tenure) (r : Request)
    (next : Except OsError r.Reply → Program Publisher) (result : Except OsError r.Reply × Tree) :
    Desk :=
  let landed := r.lands d.path result.1
  { d with
    disk := result.2
    tenure := some
      { h with rest := next result.1, writing := if landed then .landed else .begun }
    written := if landed then d.written ++ [h.ticket] else d.written }

/-- The call that has the lock makes a request. -/
def ask (d : Desk) (h : Tenure) (fault : Option Fault) (r : Request)
    (next : Except OsError r.Reply → Program Publisher) : Desk :=
  d.answered h r next (r.meet [fault] d.disk)

/-- The call that has the lock is done. -/
def release (d : Desk) (h : Tenure) (p : Publisher) : Desk :=
  { d with
    publisher := p
    tenure := none
    mishaps := d.mishaps ++ if h.writing = .begun then [⟨h.ticket, h.before, d.file⟩] else [] }

/-- Do these two disks agree on the output and its draft? -/
def Spares (d : Desk) (t : Tree) : Prop :=
  t.read d.path = d.file ∧
    t.read (Publisher.draftPath d.path) = d.disk.read (Publisher.draftPath d.path)

instance (d : Desk) (t : Tree) : Decidable (d.Spares t) := inferInstanceAs (Decidable (_ ∧ _))

end Desk

/-! ## Versions that rise -/

/-- Models in the order of their versions, the last of which has version `n`; without any, `n` is
zero. -/
structure Rising (written : List Ticket) (n : Nat) : Prop where
  increasing : (written.map (·.view.version)).Pairwise (· < ·)
  below : ∀ k ∈ written, k.view.version ≤ n
  last : written.getLast?.elim 0 (·.view.version) = n

namespace Rising

theorem nil : Rising [] 0 := ⟨List.Pairwise.nil, nofun, rfl⟩

theorem concat {written : List Ticket} {n : Nat} (h : Rising written n) {k : Ticket}
    (hk : n < k.view.version) : Rising (written ++ [k]) k.view.version where
  increasing := by
    rw [List.map_append, List.pairwise_append]
    refine ⟨h.increasing, List.pairwise_singleton .., fun m hm m' hm' => ?_⟩
    obtain ⟨k', hk', rfl⟩ := List.mem_map.1 hm
    rw [List.mem_singleton.1 hm']
    exact (h.below k' hk').trans_lt hk
  below k' hk' := by
    rcases List.mem_append.1 hk' with hk' | hk'
    · exact ((h.below k' hk').trans_lt hk).le
    · rw [List.mem_singleton.1 hk']
  last := by simp

end Rising

/-! ## Stages of a publication -/

namespace Desk

variable {initial : Except OsError (List UInt8)} {d : Desk}

@[simp] theorem content_concat (initial : Except OsError (List UInt8)) (written : List Ticket)
    (k : Ticket) : content initial (written ++ [k]) = .ok k.view.model := by
  simp [content]

/-- How far the publication under way has come, if there is one. -/
inductive Stage (initial : Except OsError (List UInt8)) (d : Desk) : Option Tenure → Prop where
  | free : Rising d.written d.publisher.writtenVersion →
      (d.Harmless → d.file = content initial d.written) → Stage initial d none
  /-- A model that is not newer is left. -/
  | skipping {k before} : Rising d.written d.publisher.writtenVersion →
      (d.Harmless → d.file = content initial d.written) →
      k.view.version ≤ d.publisher.writtenVersion →
      Stage initial d (some ⟨k, .done d.publisher, before, .untouched⟩)
  | opening {k before} : Rising d.written d.publisher.writtenVersion →
      (d.Harmless → before = content initial d.written) →
      d.publisher.writtenVersion < k.view.version →
      Stage initial d (some ⟨k,
        .ask (.overwrite (Publisher.draftPath d.path) Publisher.draftMode k.view.model)
          (d.publisher.afterDraft d.path k.view), before, .untouched⟩)
  | drafted {k before} : Rising d.written d.publisher.writtenVersion →
      (d.Harmless → before = content initial d.written) →
      d.publisher.writtenVersion < k.view.version →
      d.disk.read (Publisher.draftPath d.path) = .ok k.view.model →
      Stage initial d (some ⟨k,
        .ask (.rename (Publisher.draftPath d.path) d.path) (d.publisher.afterRename k.view),
        before, .begun⟩)
  | failing {k before} : Rising d.written d.publisher.writtenVersion →
      (d.Harmless → before = content initial d.written) →
      Stage initial d (some ⟨k, .done d.publisher, before, .begun⟩)
  | landed {k before older} : d.written = older ++ [k] → Rising d.written k.view.version →
      d.publisher.writtenVersion < k.view.version → d.file = .ok k.view.model →
      Stage initial d (some ⟨k, .done { d.publisher with writtenVersion := k.view.version },
        before, .landed⟩)

/-- The desk is at some stage. -/
structure Sound (initial : Except OsError (List UInt8)) (d : Desk) : Prop where
  output : d.publisher.output = some d.path
  stage : d.Stage initial d.tenure

namespace Sound

theorem idle (path : String) (t : Tree) : (Desk.idle path t).Sound (t.read path) :=
  ⟨rfl, .free .nil fun _ => rfl⟩

/-- The versions of the models that were written rise at every stage. -/
theorem increasing (h : d.Sound initial) :
    (d.written.map (·.view.version)).Pairwise (· < ·) := by
  have hstage := h.stage
  generalize d.tenure = tenure at hstage
  cases hstage with
  | free hr | skipping hr | opening hr | drafted hr | failing hr | landed _ hr =>
    exact hr.increasing

theorem acquire (h : d.Sound initial) (hfree : d.tenure = none) (k : Ticket) :
    (d.acquire k).Sound initial := by
  obtain ⟨hout, hstage⟩ := h
  generalize htenure : d.tenure = tenure at hstage
  cases hstage with
  | free hr hshown =>
    refine ⟨hout, ?_⟩
    unfold Desk.acquire
    rcases Nat.lt_or_ge d.publisher.writtenVersion k.view.version with hlt | hle
    · simp only [Publisher.publish_of_lt hout hlt]
      exact .opening hr hshown hlt
    · simp only [Publisher.publish_of_le hle]
      exact .skipping hr hshown hle
  | skipping | opening | drafted | failing | landed => rw [htenure] at hfree; cases hfree

/-- Between two requests, others may change the disk elsewhere. -/
theorem elsewhere (h : d.Sound initial) {t : Tree} (ht : d.Spares t) :
    ({ d with disk := t } : Desk).Sound initial := by
  obtain ⟨hout, hstage⟩ := h
  obtain ⟨hfile, hdraft⟩ := ht
  refine ⟨hout, ?_⟩
  change Stage initial { d with disk := t } d.tenure
  have hfile' : ({ d with disk := t } : Desk).file = d.file := hfile
  generalize d.tenure = tenure at hstage
  cases hstage with
  | free hr hshown => exact .free hr fun hh => hfile'.trans (hshown hh)
  | skipping hr hshown hle => exact .skipping hr (fun hh => hfile'.trans (hshown hh)) hle
  | opening hr hbefore hlt => exact .opening hr hbefore hlt
  | drafted hr hbefore hlt hd => exact .drafted hr hbefore hlt (hdraft.trans hd)
  | failing hr hbefore => exact .failing hr hbefore
  | landed hw hr hlt hd => exact .landed hw hr hlt (hfile'.trans hd)

/-- A request of the call that has the lock. -/
theorem ask (h : d.Sound initial) {tenure : Tenure} (ht : d.tenure = some tenure) {r : Request}
    {next : Except OsError r.Reply → Program Publisher} (hrest : tenure.rest = .ask r next)
    (fault : Option Fault) : (d.ask tenure fault r next).Sound initial := by
  obtain ⟨hout, hstage⟩ := h
  rw [ht] at hstage
  obtain ⟨k, rest, before, writing⟩ := tenure
  cases hrest
  refine ⟨hout, ?_⟩
  unfold Desk.ask Desk.answered
  cases hstage with
  | opening hr hbefore hlt =>
    cases hm : ((Request.overwrite (Publisher.draftPath d.path) Publisher.draftMode
        k.view.model).meet [fault] d.disk).1 with
    | error e =>
      simp only [Request.lands]
      exact .failing hr hbefore
    | ok u =>
      have hread := Request.read_of_meet_overwrite hm
      simp only [Request.lands]
      exact .drafted hr hbefore hlt hread
  | drafted hr hbefore hlt hd =>
    cases hm : ((Request.rename (Publisher.draftPath d.path) d.path).meet [fault] d.disk).1 with
    | error e =>
      simp only [Request.lands]
      exact .failing hr hbefore
    | ok u =>
      have hread := Request.read_of_meet_rename hm hd
      simp only [Request.lands, decide_true, if_true]
      exact .landed rfl (hr.concat hlt) hlt hread

/-- The call that has the lock gives it back.  When it has neither written its model nor failed to,
the file has a newer one. -/
theorem release (h : d.Sound initial) {tenure : Tenure} (ht : d.tenure = some tenure)
    {p : Publisher} (hrest : tenure.rest = .done p) :
    (d.release tenure p).Sound initial ∧ d.publisher.writtenVersion ≤ p.writtenVersion ∧
      ((d.release tenure p).mishaps = [] →
        tenure.ticket.view.version ≤ p.writtenVersion) := by
  obtain ⟨hout, hstage⟩ := h
  rw [ht] at hstage
  obtain ⟨k, rest, before, writing⟩ := tenure
  cases hrest
  unfold Desk.release
  cases hstage with
  | skipping hr hshown hle =>
    simp only [reduceCtorEq, if_false, List.append_nil]
    exact ⟨⟨hout, .free hr hshown⟩, le_rfl, fun _ => hle⟩
  | failing hr hbefore =>
    simp only [if_true]
    refine ⟨⟨hout, .free hr fun hh => ?_⟩, le_rfl, fun hn => by simp at hn⟩
    have hsame : d.file = before := hh ⟨k, before, d.file⟩ (by simp)
    exact hsame.trans (hbefore fun f hf => hh f (List.mem_append_left _ hf))
  | landed hw hr hlt hd =>
    simp only [reduceCtorEq, if_false, List.append_nil]
    refine ⟨⟨hout, .free hr fun _ => ?_⟩, hlt.le, fun _ => le_rfl⟩
    exact hd.trans (by rw [hw, content_concat])

end Sound

end Desk

end Federation
