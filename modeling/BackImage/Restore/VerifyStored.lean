/- source: pkg/restore/verify_stored.go
  digest: The streaming verification of the published layers, and what a passing one has checked. -/

import BackImage.Restore.LayerCache

namespace BackImage.Restore.VerifyStored

open Go.Sha256 Go.Text Index.Limits Index.Model Lib.Sequence LayerCache OciLayout

inductive StoredError
 | table (cause : TableError)
 | layers (cause : Str)
 | cancelled (cause : Str)
 | absent (dataLayer : Int) (held : Nat)
 | digest (cause : Str)
 | range (layer : LayerInfo) (held : Nat)
 | fetch (cause : Str)
 | layer (cause : LayerError)
 | tar (dataLayer : Int) (cause : Str)
 | blobSize (dataLayer : Int) (got want : Int64)
 | truncated (i dataLayer : Int) (cause : Str)
 | chunkDigest (i : Int) (got want : Str)
 | notFound (dataLayer : Int) (path : Str)
 | incomplete (dataLayer : Int) (cause : Str)
 | tail (dataLayer : Int) (cause : Str)
 | blobDigest (dataLayer : Int) (got want : Str)
 | layerDigest (dataLayer : Int) (got want label : Str)
 | mismatch
 deriving DecidableEq

structure StoredReport where
 layers : Nat
 chunks : Nat
 bytes : Int64
 ok : Bool
 errors : List StoredError
 deriving DecidableEq

def StoredReport.start : StoredReport := ⟨0, 0, 0, true, []⟩

def StoredReport.failed (report : StoredReport) (e : StoredError) : StoredReport :=
 { report with ok := false, errors := report.errors ++ [e] }

structure Watch where
 layer : Nat → Option Str
 chunk : Int → Option Str

structure Pass where
 report : StoredReport
 verified : Nat
 read : Int64
 hashed : Bytes
 deriving DecidableEq

def Pass.failed (p : Pass) (e : StoredError) : Pass := { p with report := p.report.failed e }

structure Returned where
 pass : Pass
 err : Option StoredError
 reported : err = none → pass.report.ok = false

/-- `return verified, read, err`. -/
def abort (e : StoredError) (p : Pass) : Except Returned Pass :=
 .error ⟨p, some e, fun impossible => by cases impossible⟩

/-- `return verified, read, fail(err)`. -/
def giveUp (keepGoing : Bool) (e : StoredError) (p : Pass) : Except Returned Pass :=
 .error ⟨p.failed e, if keepGoing then none else some e, fun _ => rfl⟩

/-- `if stop := fail(err); stop != nil { return verified, read, stop }`, where `bad` holds. -/
def require (keepGoing : Bool) (bad : Prop) [Decidable bad] (e : StoredError) (p : Pass) :
  Except Returned Pass :=
 if bad then
  if keepGoing then .ok (p.failed e) else .error ⟨p.failed e, some e, fun _ => rfl⟩
 else .ok p

def readChunks (keepGoing : Bool) (watch : Watch) (dataLayer : Int) (cause : Str) :
  Int → List Chunk → Bytes → Pass → Except Returned Pass
 | _, [], _, p => .ok p
 | i, c :: rest, file, p =>
  match watch.chunk i with
  | some cause => abort (.cancelled cause) p
  | none =>
   let n := c.sb.toNatClampNeg
   let b := file.take n
   if file.length < n then giveUp keepGoing (.truncated i dataLayer cause) p
   else do
    let p := { p with read := p.read + c.sb, hashed := p.hashed ++ b }
    let q ← require keepGoing (digestText b ≠ c.ss) (.chunkDigest i (digestText b) c.ss) p
    readChunks keepGoing watch dataLayer cause (i + 1) rest (file.drop n)
     { q with verified := if digestText b = c.ss then q.verified + 1 else q.verified }

section OneLayer

variable (r : Readers) (keepGoing : Bool) (watch : Watch) (t : ChunkTable) (layer : LayerInfo)

def verifyBlob (tar : Tar) (path : Str) (p : Pass) : Except Returned Pass :=
 match wantedEntry path tar.entries with
 | none =>
  match tar.ending with
  | some cause => giveUp keepGoing (.tar layer.index cause) p
  | none => giveUp keepGoing (.notFound layer.index (trimPrefix path (lit "/"))) p
 | some e => do
   let p ← require keepGoing (e.size ≠ layer.storedBytes)
    (.blobSize layer.index e.size layer.storedBytes) p
   readChunks keepGoing watch layer.index (e.fault.getD (lit "unexpected EOF")) layer.chunkFrom
    (rowsOf t.chunks layer) e.content p

def verifyDigests (id : LayerBytes) (raw decoded : ByteStream) (p : Pass) : Except Returned Pass :=
 match decoded.fault with
 | some cause => giveUp keepGoing (.incomplete layer.index cause) p
 | none =>
  match raw.fault with
  | some cause => giveUp keepGoing (.tail layer.index cause) p
  | none => do
    let p ← require keepGoing (digestText p.hashed ≠ layer.digest)
     (.blobDigest layer.index (digestText p.hashed) layer.digest) p
    require keepGoing (digestText raw.bytes ≠ hashString id.digest)
     (.layerDigest layer.index (digestText raw.bytes) (hashString id.digest) id.label) p

def verifyOneLayer (served : Except Str ByteStream) (codecName : Str) (id : LayerBytes)
  (report : StoredReport) : Except Returned Pass :=
 let p : Pass := ⟨report, 0, 0, []⟩
 if layer.chunkTo < layer.chunkFrom then
  giveUp keepGoing (.range layer t.chunks.length) p
 else if (t.chunks.length : Int) ≤ layer.chunkTo then
  giveUp keepGoing (.range layer t.chunks.length) p
 else
  match rowAt t layer.chunkFrom with
  | none => giveUp keepGoing (.range layer t.chunks.length) p
  | some first =>
   match served with
   | .error cause => abort (.fetch cause) p
   | .ok raw =>
    match openLayerTar r raw codecName with
    | .error cause => abort (.layer cause) p
    | .ok decoded => do
      let p ← verifyBlob keepGoing watch t layer (r.untar decoded) first.p p
      verifyDigests keepGoing layer id raw decoded p

end OneLayer
def Pass.merged (p : Pass) : StoredReport :=
 { p.report with
   chunks := p.report.chunks + p.verified
   bytes := p.report.bytes + p.read
   layers := p.report.layers + 1 }

section AllLayers

variable (r : Readers) (keepGoing : Bool) (watch : Watch) (serve : Int → Except Str ByteStream)
 (src : Source)

def verifyLayers (layers : List Layer) : Nat → List LayerInfo → StoredReport →
  StoredReport × Option StoredError
 | _, [], report => (report, none)
 | n, layer :: rest, report =>
  match watch.layer n with
  | some cause => (report, some (.cancelled cause))
  | none =>
   match imageLayer layers layer.index with
   | none =>
    let e := .absent layer.index layers.length
    if keepGoing then verifyLayers layers (n + 1) rest (report.failed e)
    else (report.failed e, some e)
   | some l =>
    match src.layerBytes l with
    | .error cause => (report, some (.digest cause))
    | .ok id =>
     match verifyOneLayer r keepGoing watch src.table layer (serve layer.index)
      src.manifest.archive.compression id report with
     | .error ⟨p, some e, _⟩ => (p.merged, some e)
     | .error ⟨p, none, _⟩ => verifyLayers layers (n + 1) rest p.merged
     | .ok p => verifyLayers layers (n + 1) rest p.merged

def verifyStored (byIndex : SliceSort LayerInfo fun a b => a.index < b.index) :
  StoredReport × Option StoredError :=
 match validateChunkTable src.manifest src.table with
 | .error e => (.start, some (.table e))
 | .ok () =>
  match src.layers with
  | .error cause => (.start, some (.layers cause))
  | .ok layers =>
   match verifyLayers r keepGoing watch serve src layers 0 (byIndex.sort src.manifest.layers)
    .start with
   | (report, some e) => (report, some e)
   | (report, none) =>
    if report.ok then (report, none) else (report, some .mismatch)

end AllLayers

/-- The chunks lie one after the other in the file, each with its stored digest. -/
def Matches : List Chunk → Bytes → Prop
 | [], _ => True
 | c :: rest, file =>
  c.sb.toNatClampNeg ≤ file.length ∧ digestText (file.take c.sb.toNatClampNeg) = c.ss ∧
   Matches rest (file.drop c.sb.toNatClampNeg)

def extent (rows : List Chunk) : Nat := (rows.map fun c => c.sb.toNatClampNeg).sum

structure Checked (r : Readers) (serve : Int → Except Str ByteStream) (src : Source)
  (layer : LayerInfo)
  (id : LayerBytes) (raw decoded : ByteStream) (first : Chunk) (e : Entry) : Prop where
 located : src.locate layer.index = .ok id
 served : serve layer.index = .ok raw
 opened : openLayerTar r raw src.manifest.archive.compression = .ok decoded
 drained : decoded.fault = none ∧ raw.fault = none
 ordered : layer.chunkFrom ≤ layer.chunkTo
 inside : layer.chunkTo < src.table.chunks.length
 start : rowAt src.table layer.chunkFrom = some first
 found : wantedEntry first.p (r.untar decoded).entries = some e
 size : e.size = layer.storedBytes
 chunks : Matches (rowsOf src.table.chunks layer) e.content
 blobDigest : digestText (e.content.take (extent (rowsOf src.table.chunks layer))) = layer.digest
 layerDigest : digestText raw.bytes = hashString id.digest

section Inversion

variable {r : Readers} {keepGoing : Bool} {watch : Watch} {serve : Int → Except Str ByteStream}
 {src : Source} {p q : Pass}

theorem require_ok {bad : Prop} [Decidable bad] {e : StoredError}
  (passed : require keepGoing bad e p = .ok q) (ok : q.report.ok = true) : ¬ bad ∧ q = p := by
 unfold require at passed
 split at passed
 · split at passed
   · cases passed
     cases ok
   · cases passed
 · cases passed
   exact ⟨‹¬ bad›, rfl⟩

theorem readChunks_ok {dataLayer i : Int} {cause : Str} {rows : List Chunk} {file : Bytes}
  (passed : readChunks keepGoing watch dataLayer cause i rows file p = .ok q)
  (ok : q.report.ok = true) :
  p.report.ok = true ∧ Matches rows file ∧ q.hashed = p.hashed ++ file.take (extent rows) := by
 induction rows generalizing i file p with
 | nil =>
  cases passed
  simpa [Matches, extent] using ok
 | cons c rest ih =>
  unfold readChunks at passed
  split at passed
  · cases passed
  · dsimp only at passed
    split at passed
    · cases passed
    · rename_i enough
      obtain ⟨q₁, required, later⟩ := bind_ok.mp passed
      obtain ⟨clean, matched, hashed⟩ := ih later
      obtain ⟨same, rfl⟩ := require_ok required clean
      refine ⟨clean, ⟨Nat.not_lt.mp enough, not_not.mp same, matched⟩, ?_⟩
      have longer : extent (c :: rest) = c.sb.toNatClampNeg + extent rest := by simp [extent]
      rw [hashed, longer, List.take_add, List.append_assoc]

theorem verifyBlob_ok {t : ChunkTable} {layer : LayerInfo} {tar : Tar} {path : Str}
  (passed : verifyBlob keepGoing watch t layer tar path p = .ok q) (ok : q.report.ok = true) :
  p.report.ok = true ∧ ∃ e, wantedEntry path tar.entries = some e ∧ e.size = layer.storedBytes ∧
   Matches (rowsOf t.chunks layer) e.content ∧
    q.hashed = p.hashed ++ e.content.take (extent (rowsOf t.chunks layer)) := by
 unfold verifyBlob at passed
 split at passed
 · split at passed <;> cases passed
 · rename_i e found
   obtain ⟨p₁, required, read⟩ := bind_ok.mp passed
   obtain ⟨clean, matched, hashed⟩ := readChunks_ok read ok
   obtain ⟨size, rfl⟩ := require_ok required clean
   exact ⟨clean, e, found, not_not.mp size, matched, hashed⟩

theorem verifyDigests_ok {layer : LayerInfo} {id : LayerBytes} {raw decoded : ByteStream}
  (passed : verifyDigests keepGoing layer id raw decoded p = .ok q) (ok : q.report.ok = true) :
  p.report.ok = true ∧ decoded.fault = none ∧ raw.fault = none ∧
   digestText p.hashed = layer.digest ∧ digestText raw.bytes = hashString id.digest := by
 unfold verifyDigests at passed
 split at passed
 · cases passed
 · rename_i drained
   split at passed
   · cases passed
   · rename_i rest
     obtain ⟨p₁, blob, whole⟩ := bind_ok.mp passed
     obtain ⟨layerDigest, rfl⟩ := require_ok whole ok
     obtain ⟨blobDigest, rfl⟩ := require_ok blob ok
     exact ⟨ok, drained, rest, not_not.mp blobDigest, not_not.mp layerDigest⟩

theorem verifyOneLayer_ok {layer : LayerInfo} {id : LayerBytes} {report : StoredReport}
  (passed : verifyOneLayer r keepGoing watch src.table layer (serve layer.index)
   src.manifest.archive.compression id report = .ok q) (ok : q.report.ok = true)
  (located : src.locate layer.index = .ok id) :
  report.ok = true ∧ ∃ raw decoded first e, Checked r serve src layer id raw decoded first e := by
 unfold verifyOneLayer at passed
 dsimp only at passed
 split at passed
 · cases passed
 · rename_i ordered
   split at passed
   · cases passed
   · rename_i inside
     split at passed
     · cases passed
     · rename_i first start
       split at passed
       · cases passed
       · rename_i raw served
         split at passed
         · cases passed
         · rename_i decoded opened
           obtain ⟨p₁, walked, compared⟩ := bind_ok.mp passed
           obtain ⟨clean, drained, tail, blobDigest, layerDigest⟩ := verifyDigests_ok compared ok
           obtain ⟨before, e, found, size, chunks, hashed⟩ := verifyBlob_ok walked clean
           rw [hashed] at blobDigest
           exact ⟨before, raw, decoded, first, e,
            { located, served, opened, start, found, size, chunks, blobDigest, layerDigest
              drained := ⟨drained, tail⟩
              ordered := Int.not_lt.mp ordered
              inside := Int.not_le.mp inside }⟩

theorem verifyLayers_ok {layers : List Layer} {n : Nat} {infos : List LayerInfo}
  {report final : StoredReport} (held : src.layers = .ok layers)
  (passed : verifyLayers r keepGoing watch serve src layers n infos report = (final, none))
  (ok : final.ok = true) :
  report.ok = true ∧ ∀ layer ∈ infos, ∃ id raw decoded first e,
   Checked r serve src layer id raw decoded first e := by
 induction infos generalizing n report with
 | nil =>
  cases passed
  exact ⟨ok, by simp⟩
 | cons layer rest ih =>
  unfold verifyLayers at passed
  split at passed
  · cases passed
  · split at passed
    · dsimp only at passed
      split at passed
      · cases (ih passed).1
      · cases passed
    · rename_i l found
      split at passed
      · cases passed
      · rename_i id known
        have located := Source.locate_ok.mpr ⟨layers, l, held, found, known⟩
        split at passed
        · cases passed
        · rename_i p reported result
          -- an early return that goes on has failed already
          have failed : p.report.ok = true := (ih passed).1
          rw [reported rfl] at failed
          cases failed
        · rename_i p result
          obtain ⟨clean, others⟩ := ih passed
          obtain ⟨before, raw, decoded, first, e, checked⟩ :=
           verifyOneLayer_ok result clean located
          refine ⟨before, List.forall_mem_cons.mpr ⟨?_, others⟩⟩
          exact ⟨id, raw, decoded, first, e, checked⟩

theorem verifyStored_ok {byIndex : SliceSort LayerInfo fun a b => a.index < b.index}
  {report : StoredReport}
  (passed : verifyStored r keepGoing watch serve src byIndex = (report, none)) :
  validateChunkTable src.manifest src.table = .ok () ∧
   ∀ layer ∈ src.manifest.layers, ∃ id raw decoded first e,
    Checked r serve src layer id raw decoded first e := by
 unfold verifyStored at passed
 split at passed
 · cases passed
 · rename_i accepted
   split at passed
   · cases passed
   · rename_i layers held
     split at passed
     · cases passed
     · rename_i final walked
       split at passed
       · rename_i ok
         have all := (verifyLayers_ok held walked ok).2
         exact ⟨accepted, fun layer member => all layer ((byIndex.perm _).mem_iff.mpr member)⟩
       · cases passed

end Inversion

end BackImage.Restore.VerifyStored
