/- source: pkg/ociimg/build.go, pkg/index/private.go
  digest: The labels of an image, and what an encrypted backup publishes with them. -/

import BackImage.Index.Confidential

namespace BackImage.Ociimg.Labels

open Go.Text Index.Confidential Index.Model Index.Private

inductive Label
 | created | title | description | schemaVersion | toolVersion | encrypted | compression
 | files | bytesRaw | chunks | sources
 deriving DecidableEq

abbrev LabelMap := Label → Option Str

/-- The assignment `l[label] = value`. -/
def LabelMap.set (l : LabelMap) (label : Label) (value : Str) : LabelMap :=
 Function.update l label (some value)

/-- `delete(l, label)`. -/
def LabelMap.delete (l : LabelMap) (label : Label) : LabelMap := Function.update l label none

def defaultTitle : Str := lit "backimage backup"
def defaultDescription : Str := lit "run this image to restore the backup"

def baseLabels (created codecName : Str) : LabelMap
 | .created => some created
 | .title => some defaultTitle
 | .description => some defaultDescription
 | .schemaVersion => some (decimalInt schemaVersion)
 | .toolVersion => some (lit "dev")
 | .encrypted => some (lit "false")
 | .compression => some codecName
 | .files => some (lit "0")
 | .bytesRaw => some (lit "0")
 | .chunks => some (lit "0")
 | .sources => none

def imageLabels (m : Option Manifest) (created codecName : Str) : LabelMap :=
 let l := baseLabels created codecName
 match m with
 | none => l
 | some m =>
  let l := if 0 < m.schemaVersion then l.set .schemaVersion (decimalInt m.schemaVersion) else l
  let l := if m.tool.version ≠ [] then l.set .toolVersion m.tool.version else l
  let l := if 0 < m.chunking.count then l.set .chunks (decimalInt m.chunking.count) else l
  if m.encryption.enabled then
   ((l.set .encrypted (lit "true")).delete .files).delete .bytesRaw
  else
   let l := l.set .files (decimalInt m.totals.files.toInt)
   let l := l.set .bytesRaw (decimalInt m.totals.bytesRaw.toInt)
   if m.sources ≠ [] then l.set .sources (joinWith (lit ";") m.sources) else l

def withStoredDigest (m : Manifest) (digest : Str) : Manifest :=
 { m with privateRef := m.privateRef.map fun ref => { ref with storedSha256 := digest } }

theorem imageLabels_stored (m : Manifest) (created codecName digest : Str) :
  imageLabels (some (withStoredDigest m digest)) created codecName =
   imageLabels (some m) created codecName := rfl

/-- Merging puts back what the backup had: every confidential field and every row. -/
def Restores (m : Manifest) (t : ChunkTable) : Prop :=
 MergeableRows t.chunks →
  ∃ p m' t', (splitPrivate m t).2.2 = some p ∧
   mergePrivate (splitPrivate m t).1 (splitPrivate m t).2.1 p = (m', t', .ok ()) ∧
   m'.sources = m.sources ∧ m'.host = m.host ∧ m'.totals = m.totals ∧
   m'.encryption.keyFingerprint = m.encryption.keyFingerprint ∧
   m'.encryption.recipients = m.encryption.recipients ∧ t'.chunks = t.chunks

theorem restores {m : Manifest} {t : ChunkTable} (enabled : m.encryption.enabled = true) :
  Restores m t := by
 intro mergeable
 obtain ⟨p, split, merged⟩ := mergePrivate_split enabled mergeable
 exact ⟨p, _, _, split, merged, rfl, rfl, rfl, rfl, rfl, rfl⟩

/-- Two encrypted backups that differ in confidential fields only publish the same manifest, table
and labels, whatever the digests of their private blobs; and each gets its own fields back. -/
theorem encrypted_publishes_nothing {m m' : Manifest} {t t' : ChunkTable}
  (enabled : m.encryption.enabled = true) (enabled' : m'.encryption.enabled = true)
  (manifests : SameManifest m m') (tables : SameTable t t') :
  (splitPrivate m t).1 = (splitPrivate m' t').1 ∧
  (splitPrivate m t).2.1 = (splitPrivate m' t').2.1 ∧ (∀ created codecName digest digest',
   imageLabels (some (withStoredDigest (splitPrivate m t).1 digest)) created codecName =
    imageLabels (some (withStoredDigest (splitPrivate m' t').1 digest')) created codecName) ∧
  Restores m t ∧ Restores m' t' := by
 obtain ⟨sameManifest, sameTable⟩ := splitPrivate_public enabled manifests tables
 refine ⟨sameManifest, sameTable, ?_, restores enabled, restores enabled'⟩
 intro created codecName digest digest'
 rw [imageLabels_stored, imageLabels_stored, sameManifest]

def pathManifest (path : Str) (files : Int64) : Manifest :=
 { (default : Manifest) with
   sources := [path]
   totals := { (default : Totals) with files := files }
   encryption := { (default : EncryptionInfo) with enabled := true } }

def rowTable (ps : Str) (pb : Int64) : ChunkTable := ⟨1, [⟨0, lit "b", ps, [], pb, 9⟩]⟩

/-- Backups of different paths and sizes show the same public manifest and get their own back. -/
theorem paths_not_published : let first := lit "sha256:" ++ List.replicate 64 48
  let second := lit "sha256:" ++ List.replicate 64 49
  (splitPrivate (pathManifest (lit "/home") 3) (rowTable first 4)).1 =
   (splitPrivate (pathManifest (lit "/etc") 5) (rowTable second 6)).1 ∧
  MergeableRows (rowTable first 4).chunks ∧
   Restores (pathManifest (lit "/home") 3) (rowTable first 4) := by
 intro first second
 have tables : SameTable (rowTable first 4) (rowTable second 6) := ⟨rfl, .cons rfl .nil⟩
 have manifests : SameManifest (pathManifest (lit "/home") 3) (pathManifest (lit "/etc") 5) := rfl
 obtain ⟨manifest, -, -, restored, -⟩ := encrypted_publishes_nothing rfl rfl manifests tables
 refine ⟨manifest, ?_, restored⟩
 intro c inside
 obtain rfl := List.mem_singleton.mp inside
 decide

end BackImage.Ociimg.Labels
