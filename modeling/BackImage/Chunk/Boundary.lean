/- source: pkg/chunk/split.go, pkg/chunk/layerbound.go, pkg/backup/pipeline.go
  digest: Plaintext chunks as a splitter numbers them, and the predicates that end a layer. -/

import BackImage.Go.Sha256

namespace BackImage.Chunk.Boundary

open Go.Sha256 Go.Text

structure PlainChunk where
 index : Nat
 plainBytes : Int64
 plainSHA : Bytes
 data : Bytes
 deriving DecidableEq

def minChunkSize : Int64 := 1048576

def maxChunkSize : Int64 := 1073741824

structure CDCParams where
 min : Int64
 avg : Int64
 max : Int64
 polynomial : UInt64
 deriving DecidableEq, Inhabited

def number : Nat → List Bytes → List PlainChunk
 | _, [] => []
 | i, d :: rest => ⟨i, Int64.ofNat d.length, sum256 d, d⟩ :: number (i + 1) rest

theorem number_length (i : Nat) (data : List Bytes) : (number i data).length = data.length := by
 induction data generalizing i with
 | nil => rfl
 | cons d rest ih => rw [number, List.length_cons, ih, List.length_cons]

theorem number_index {i k : Nat} {data : List Bytes} {ck : PlainChunk}
  (found : (number i data)[k]? = some ck) : ck.index = i + k := by
 induction data generalizing i k with
 | nil => simp [number] at found
 | cons d rest ih =>
  cases k with
  | zero =>
   have same : (⟨i, Int64.ofNat d.length, sum256 d, d⟩ : PlainChunk) = ck := by
    simpa [number] using found
   rw [← same]
   rfl
  | succ k =>
   have later := ih (by simpa [number] using found)
   omega

abbrev LayerBoundary := Int64 → Bytes → Bool

/-- `NewFixedBoundary`. -/
def fixedBoundary (size : Int64) : LayerBoundary := fun layerBytes _ =>
 0 < size && size ≤ layerBytes

/-- `DefaultCDCParams().Avg`. -/
def defaultAvg : Int64 := 4194304

/-- `bits.Len64`. -/
def bitsLen (x : UInt64) : Nat := if x = 0 then 0 else x.toNat.log2 + 1

def bigEndian64 (b : Bytes) : UInt64 :=
 (b.take 8).foldl (fun (acc : UInt64) (x : UInt8) => (acc <<< 8) ||| x.toUInt64) 0

def contentBoundary (target min max : Int64) : LayerBoundary :=
 let target := if target ≤ 0 then 67108864 else target
 let min := if min ≤ 0 then target / 4 else min
 let max := if max ≤ 0 || max < min then target * 4 else max
 let max := if max < target then target else max
 let ratio := ((target + defaultAvg - 1) / defaultAvg).toUInt64
 let bitsN := bitsLen (ratio - 1)
 let mask : UInt64 := if 64 ≤ bitsN then 18446744073709551615 else (1 <<< UInt64.ofNat bitsN) - 1
 fun layerBytes digest =>
  if max ≤ layerBytes then true
  else if layerBytes < min then false
  else bigEndian64 digest &&& mask == 0

def safeLayerMaximum (target : Int64) : Int64 :=
 if target ≤ 0 || 2305843009213693951 < target then 9223372036854775807 else target * 4

def initialBoundary (dedup : Bool) (layerBytes : Int64) : LayerBoundary :=
 if dedup then contentBoundary layerBytes (layerBytes / 4) (safeLayerMaximum layerBytes)
 else fixedBoundary layerBytes

def fallbackSize (estimated plain : Int64) : Int64 :=
 let remaining := estimated - plain
 let size := if remaining % 8 ≠ 0 then remaining / 8 + 1 else remaining / 8
 if size < minChunkSize then minChunkSize else size

def fallbackBoundary (dedup : Bool) (estimated plain : Int64) (layers : Nat)
  (current : LayerBoundary × Bool) : LayerBoundary × Bool :=
 if dedup ∧ current.2 = false ∧ 110 ≤ layers then
  (fixedBoundary (fallbackSize estimated plain), true)
 else current

end BackImage.Chunk.Boundary
