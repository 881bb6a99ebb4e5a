/-
  Weights inside a blob: a vector of binary32 numbers, four little-endian bytes each.
-/
import Federation.Error
import Federation.Model
import Federation.Numeric.Binary

namespace Federation

/-- The weight whose bytes, lowest first, are `a b c d`. -/
def weightOfBytes (a b c d : UInt8) : Single :=
  ⟨UInt32.ofNat (a.toNat + 256 * b.toNat + 65536 * c.toNat + 16777216 * d.toNat)⟩

/-- The four bytes of a weight, lowest first. -/
def bytesOfWeight (w : Single) : List UInt8 :=
  let n := w.bits.toNat
  [UInt8.ofNat n, UInt8.ofNat (n / 256), UInt8.ofNat (n / 65536), UInt8.ofNat (n / 16777216)]

/-- The weights of a blob, four bytes at a time; up to three bytes at the end are left out. -/
def weightChunks : Blob → List Single
  | a :: b :: c :: d :: rest => weightOfBytes a b c d :: weightChunks rest
  | _ => []

/-- The weights of a blob, which must be a whole number of them. -/
def decodeWeights (blob : Blob) : Except AggregationError (List Single) :=
  if blob.length % 4 = 0 then .ok (weightChunks blob) else .error (.malformedBlob blob.length)

def encodeWeights (ws : List Single) : Blob := ws.flatMap bytesOfWeight

end Federation
