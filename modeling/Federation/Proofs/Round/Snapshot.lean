/-
  The open round and its snapshots.

  Rounds are closed by comparing two numbers, the slots and the members.  What makes the comparison
  mean something is that the slots belong to different members.

  * `sorted_snapshot`, `count_snapshot`: a snapshot lists every member once, in order;
  * `flagged_snapshot`: it flags as many of them as there are pending updates;
  * `open_round_represented`: all of it, whatever was called on a new engine.
-/
import Federation.Proofs.Round.Invariant

namespace Federation

namespace RoundEngine

variable {σ : Type} [AggregationStrategy σ]

section
variable (e : RoundEngine σ) (now : Nat)

@[simp] theorem snapshot_ids :
    (e.snapshot now).members.map (·.id) = e.state.members.names := by
  simp [snapshot, NameMap.names, Function.comp_def]

/-- The members of a snapshot come in strictly increasing order. -/
theorem sorted_snapshot : ((e.snapshot now).members.map (·.id)).Pairwise (· < ·) := by
  rw [snapshot_ids]
  exact List.pairwise_map.2 e.state.members.sorted

/-- Members are listed once, and nobody else is. -/
theorem count_snapshot (id : String) :
    ((e.snapshot now).members.map (·.id)).count id = if e.isMember id then 1 else 0 := by
  rw [snapshot_ids]
  split
  · next h => exact List.count_eq_one_of_mem e.state.members.nodup_names (NameMap.contains_iff.1 h)
  · next h => exact List.count_eq_zero_of_not_mem fun hid => h (NameMap.contains_iff.2 hid)

end

/-- As many members are flagged as updates are pending. -/
theorem Consistent.flagged_snapshot {e : RoundEngine σ} (h : e.Consistent) (now : Nat) :
    (e.snapshot now).members.countP (·.pending) = (e.snapshot now).pending := by
  have hreg : ∀ k ∈ e.state.pending.map (·.collaborator), e.state.members.contains k = true := by
    intro k hk
    obtain ⟨slot, hs, rfl⟩ := List.mem_map.1 hk
    exact h.registered slot hs
  have hcount : (e.snapshot now).members.countP (·.pending) =
      e.state.members.names.countP (· ∈ e.state.pending.map (·.collaborator)) := by
    simp only [snapshot, NameMap.names, List.countP_map]
    refine List.countP_congr fun m _ => ?_
    simp [hasPending]
  rw [hcount, NameMap.countP_mem_names h.distinct hreg, List.length_map]
  rfl

/-- **The open round is represented well.**  Whatever is called on a new engine: the slots belong to
different members; a synchronous round has fewer slots than members, or no slots at all; without
rounds to wait for there are none; and the time of the first one is known iff there is one.  So a
snapshot lists every member once, in order, and flags as many as are pending. -/
theorem open_round_represented (start : Nat) (rules : RoundRules) (model : Blob) (strategy : σ)
    (calls : List (Nat × RoundCall)) (now : Nat) :
    let e := (RoundEngine.create start rules model strategy).after calls
    let snapshot := e.snapshot now
    (e.state.pending.map (·.collaborator)).Nodup ∧
    (∀ slot ∈ e.state.pending, e.isMember slot.collaborator = true) ∧
    (rules.mode = .sync →
      e.state.pending = [] ∨ e.state.pending.length < e.state.members.size) ∧
    (rules.mode.isAsync = true → e.state.pending = []) ∧
    (e.state.firstPendingAt.isSome = true ↔ e.state.pending ≠ []) ∧
    (snapshot.members.map (·.id)).Pairwise (· < ·) ∧
    (∀ id, (snapshot.members.map (·.id)).count id = if e.isMember id then 1 else 0) ∧
    snapshot.members.countP (·.pending) = snapshot.pending := by
  intro e snapshot
  have h : e.Consistent := Reachable.consistent ⟨start, rules, model, strategy, calls, rfl⟩
  have hrules : e.rules = rules :=
    after_induction (P := fun e => e.rules = rules) rfl (fun he ht => ht.rules.trans he) calls
  refine ⟨h.distinct, h.registered, fun hm => h.awaits (hrules ▸ hm), fun hm => ?_, h.clocked, ?_,
    ?_, h.flagged_snapshot now⟩
  · exact h.async (hrules ▸ hm)
  · exact e.sorted_snapshot now
  · exact e.count_snapshot now

end RoundEngine

end Federation
