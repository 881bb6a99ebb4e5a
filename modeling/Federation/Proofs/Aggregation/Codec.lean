/-
  Weights and the bytes they are kept in.

  * `Packed`: the weights that the words of a blob spell, the lowest byte of a word first;
  * `packed_encodeWeights`, `packed_weightChunks`: what is written spells the weights, and what is
    read is what the words spell;
  * `Packed.eq_encodeWeights`: no two blobs spell the same weights;
  * `decodeWeights_eq_ok_iff`: what can be read is what the words spell;
  * `weight_codec`: blobs of whole words and lists of weights are the same thing, bit for bit.
-/
import Federation.Proofs.Aggregation.Decoding

namespace Federation

/-! ## Words -/

/-- The number that bytes spell, the lowest one first. -/
def spelled (bytes : List UInt8) : Nat := Nat.ofDigits 256 (bytes.map UInt8.toNat)

/-- The weights that the words of a blob spell, four bytes to a word. -/
inductive Packed : List Single → Blob → Prop
  | nil : Packed [] []
  | cons {w ws word rest} : word.length = 4 → spelled word = w.bits.toNat → Packed ws rest →
      Packed (w :: ws) (word ++ rest)

theorem spelled_bytesOfWeight (w : Single) : spelled (bytesOfWeight w) = w.bits.toNat := by
  have hlt : w.bits.toNat < 2 ^ 32 := w.bits.toNat_lt
  simp only [spelled, bytesOfWeight, List.map_cons, List.map_nil, Nat.ofDigits_cons,
    Nat.ofDigits_nil, UInt8.toNat_ofNat', Nat.reducePow]
  omega

theorem spelled_weightOfBytes (a b c d : UInt8) :
    spelled [a, b, c, d] = (weightOfBytes a b c d).bits.toNat := by
  have ha := a.toNat_lt
  have hb := b.toNat_lt
  have hc := c.toNat_lt
  have hd := d.toNat_lt
  simp only [spelled, weightOfBytes, List.map_cons, List.map_nil, Nat.ofDigits_cons,
    Nat.ofDigits_nil, UInt32.toNat_ofNat', Nat.reducePow]
  omega

/-- As many bytes that spell the same number are the same. -/
theorem spelled_injective {xs ys : List UInt8} (hlength : xs.length = ys.length)
    (h : spelled xs = spelled ys) : xs = ys := by
  have digit : ∀ zs : List UInt8, ∀ n ∈ zs.map UInt8.toNat, n < 256 := by
    intro zs n hn
    obtain ⟨z, -, rfl⟩ := List.mem_map.1 hn
    exact z.toNat_lt
  refine List.map_injective_iff.2 (fun x y hxy => UInt8.toNat_inj.1 hxy) ?_
  exact Nat.ofDigits_inj_of_len_eq (by omega) (by simpa using hlength) (digit xs) (digit ys) h

/-! ## Blobs -/

theorem packed_encodeWeights (ws : List Single) : Packed ws (encodeWeights ws) := by
  induction ws with
  | nil => exact .nil
  | cons w ws ih => exact .cons (length_bytesOfWeight w) (spelled_bytesOfWeight w) ih

theorem packed_weightChunks {blob : Blob} (h : blob.length % 4 = 0) :
    Packed (weightChunks blob) blob := by
  induction blob using weightChunks.induct with
  | case1 a b c d rest ih =>
    simp only [List.length_cons] at h
    show Packed (weightOfBytes a b c d :: weightChunks rest) ([a, b, c, d] ++ rest)
    exact .cons rfl (spelled_weightOfBytes a b c d) (ih (by omega))
  | case2 blob hshort =>
    rcases blob with _ | ⟨a, _ | ⟨b, _ | ⟨c, _ | ⟨d, rest⟩⟩⟩⟩
    · exact .nil
    · simp at h
    · simp at h
    · simp at h
    · exact absurd rfl (hshort a b c d rest)

/-- No two blobs spell the same weights. -/
theorem Packed.eq_encodeWeights {ws : List Single} {blob : Blob} (h : Packed ws blob) :
    blob = encodeWeights ws := by
  induction h with
  | nil => rfl
  | @cons w ws word rest hlength hword _ ih =>
    have hbytes : word = bytesOfWeight w :=
      spelled_injective hlength (hword.trans (spelled_bytesOfWeight w).symm)
    rw [hbytes, ih]
    rfl

/-! ## The codec -/

theorem encodeWeights_weightChunks {blob : Blob} (h : blob.length % 4 = 0) :
    encodeWeights (weightChunks blob) = blob :=
  (packed_weightChunks h).eq_encodeWeights.symm

theorem decodeWeights_encodeWeights (ws : List Single) :
    decodeWeights (encodeWeights ws) = .ok ws := by
  rw [decodeWeights_of_whole (by rw [length_encodeWeights]; omega), weightChunks_encodeWeights]

/-- What can be read is what the words spell. -/
theorem decodeWeights_eq_ok_iff {blob : Blob} {ws : List Single} :
    decodeWeights blob = .ok ws ↔ Packed ws blob := by
  constructor
  · intro h
    have hwhole := (decodeWeights_ok h).1
    rw [decodeWeights_of_whole hwhole] at h
    cases h
    exact packed_weightChunks hwhole
  · intro h
    rw [h.eq_encodeWeights, decodeWeights_encodeWeights]

theorem decodeWeights_eq_error_iff {blob : Blob} {err : AggregationError} :
    decodeWeights blob = .error err ↔
      blob.length % 4 ≠ 0 ∧ err = .malformedBlob blob.length := by
  unfold decodeWeights
  split_ifs with hwhole
  · simp [hwhole]
  · simp [hwhole, eq_comm]

/-- **The weight codec.**  A blob can be read iff it is a whole number of words, and any other one is
refused with its length.  What is read is what the words spell, one weight for every four bytes, and
it is written as the same blob again.  All weights, whatever their bits, are written in four bytes
each and read back as they were.  So no two lists of weights are written alike, and no two blobs
that can be read are read alike. -/
theorem weight_codec :
    (∀ blob : Blob, (∃ ws, decodeWeights blob = .ok ws) ↔ blob.length % 4 = 0) ∧
    (∀ blob err, decodeWeights blob = .error err ↔
      blob.length % 4 ≠ 0 ∧ err = .malformedBlob blob.length) ∧
    (∀ blob ws, decodeWeights blob = .ok ws →
      ws.length = blob.length / 4 ∧ Packed ws blob ∧ encodeWeights ws = blob) ∧
    (∀ ws, (encodeWeights ws).length = 4 * ws.length ∧ Packed ws (encodeWeights ws) ∧
      decodeWeights (encodeWeights ws) = .ok ws) ∧
    Function.Injective encodeWeights ∧
    Set.InjOn decodeWeights {blob | blob.length % 4 = 0} := by
  refine ⟨fun blob => ?_, fun _ _ => decodeWeights_eq_error_iff, fun blob ws h => ?_, fun ws => ?_,
    ?_, ?_⟩
  · constructor
    · rintro ⟨ws, h⟩
      exact (decodeWeights_ok h).1
    · exact fun h => ⟨_, decodeWeights_of_whole h⟩
  · have hpacked := decodeWeights_eq_ok_iff.1 h
    have hlength := (decodeWeights_ok h).2
    exact ⟨by omega, hpacked, hpacked.eq_encodeWeights.symm⟩
  · exact ⟨length_encodeWeights ws, packed_encodeWeights ws, decodeWeights_encodeWeights ws⟩
  · exact Function.LeftInverse.injective weightChunks_encodeWeights
  · intro blob hblob blob' hblob' h
    rw [decodeWeights_of_whole hblob, decodeWeights_of_whole hblob'] at h
    rw [← encodeWeights_weightChunks hblob, Except.ok.inj h, encodeWeights_weightChunks hblob']

/-- A signalling NaN with a payload, and the zero below zero. -/
theorem weight_codec_of_nan :
    let blob : Blob := [1, 0, 160, 127, 0, 0, 0, 128]
    let ws : List Single := [⟨0x7fa00001⟩, ⟨0x80000000⟩]
    decodeWeights blob = .ok ws ∧ Packed ws blob ∧ encodeWeights ws = blob := by
  intro blob ws
  have h : decodeWeights blob = .ok ws := by decide
  exact ⟨h, (weight_codec.2.2.1 blob ws h).2⟩

end Federation
