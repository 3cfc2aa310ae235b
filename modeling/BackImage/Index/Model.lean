/- source: pkg/index/model.go
  digest: The public metadata of a backup and the checks made when it is parsed. -/

import BackImage.Go.Text

namespace BackImage.Index.Model

open Go.Text

def schemaVersion : Int := 1

def schemaVersionPrivate : Int := 2

abbrev Time := Int

-- The `Inhabited` instances below are the zero values of the Go structures.

structure ToolInfo where
 name : Str
 version : Str
 deriving DecidableEq, Inhabited

structure HostInfo where
 hostname : Str
 os : Str
 arch : Str
 deriving DecidableEq, Inhabited

structure Totals where
 files : Int64
 dirs : Int64
 symlinks : Int64
 hardlinks : Int64
 devices : Int64
 bytesRaw : Int64
 bytesStored : Int64
 deriving DecidableEq, Inhabited

structure ArchiveInfo where
 format : Str
 compression : Str
 compressionLevel : Int
 deriving DecidableEq, Inhabited

structure EncryptionInfo where
 enabled : Bool
 kdf : Str
 aead : Str
 envelopeVersion : Int
 nonceMode : Str
 keyFingerprint : Str
 recipients : List Str
 deriving DecidableEq, Inhabited

structure ChunkingInfo where
 strategy : Str
 minChunkBytes : Int64
 targetChunkBytes : Int64
 maxChunkBytes : Int64
 polynomial : UInt64
 boundaryFallback : Bool
 count : Int
 deriving DecidableEq, Inhabited

structure LayerInfo where
 index : Int
 digest : Str
 chunkFrom : Int
 chunkTo : Int
 storedBytes : Int64
 deriving DecidableEq, Inhabited

structure Ref where
 path : Str
 storedSha256 : Str
 encrypted : Bool
 deriving DecidableEq, Inhabited

structure Manifest where
 schemaVersion : Int
 tool : ToolInfo
 createdAt : Time
 sources : List Str
 host : HostInfo
 totals : Totals
 archive : ArchiveInfo
 encryption : EncryptionInfo
 chunking : ChunkingInfo
 layers : List LayerInfo
 index : Ref
 privateRef : Option Ref
 deriving DecidableEq, Inhabited

structure Chunk where
 i : Int
 p : Str
 ps : Str
 ss : Str
 pb : Int64
 sb : Int64
 deriving DecidableEq, Inhabited

structure ChunkTable where
 schemaVersion : Int
 chunks : List Chunk
 deriving DecidableEq, Inhabited

inductive EntryType
 | reg | dir | sym | hard | chr | blk | fifo
 | other (code : Str)
 deriving DecidableEq, Inhabited

structure FileEntry where
 path : Str
 type : EntryType
 size : Int64
 mode : Str
 uid : Int
 gid : Int
 uname : Str
 gname : Str
 mtime : Time
 linkTarget : Str
 tarOffset : Int64
 sha256 : Str
 deriving DecidableEq, Inhabited

/-- `Index`: the per-file table. -/
structure FileIndex where
 schemaVersion : Int
 entries : List FileEntry
 deriving DecidableEq, Inhabited

inductive ReadError
 | parsingManifest
 | parsingTable
 | futureSchema (got : Int)
 | toolMissing
 | createdAtZero
 | archiveMissing
 | chunkingMissing
 | cdcParametersMissing
 | indexPathMissing
 | privatePathMissing
 | privateRefMissing
 | malformedLayer (i : Nat)
 | rowIndex (i : Nat) (got : Int)
 | rowPath (i : Nat)
 | rowNegative (i : Nat)
 | rowStoredDigest (i : Nat)
 | rowPlainDigest (i : Nat)
 deriving DecidableEq

def errBadSchema : Str := lit "invalid backup metadata"

def checkSchema (got : Int) : Except ReadError Unit :=
 if got ≠ schemaVersion ∧ got ≠ schemaVersionPrivate then .error (.futureSchema got) else .ok ()

def validHex64 (s : Str) : Bool :=
 s.length = 64 && s.all fun c => (48 ≤ c && c ≤ 57) || (97 ≤ c && c ≤ 102)

def validDigest (s : Str) : Bool :=
 hasPrefix s (lit "sha256:") && validHex64 (trimPrefix s (lit "sha256:"))

/-- The layer loop of `ReadManifest`. -/
def checkManifestLayers : Nat → List LayerInfo → Except ReadError Unit
 | _, [] => .ok ()
 | i, l :: rest =>
  if l.digest = [] ∨ l.chunkFrom < 0 ∨ l.chunkTo < l.chunkFrom then .error (.malformedLayer i)
  else checkManifestLayers (i + 1) rest

def checkManifest (m : Manifest) : Except ReadError Manifest := do
 checkSchema m.schemaVersion
 if m.tool.name = [] ∨ m.tool.version = [] then throw .toolMissing
 if m.createdAt = 0 then throw .createdAtZero
 if m.archive.format = [] ∨ m.archive.compression = [] then throw .archiveMissing
 if m.chunking.strategy = [] ∨ m.chunking.targetChunkBytes ≤ 0 then throw .chunkingMissing
 if m.chunking.strategy = lit "cdc" ∧ (m.chunking.minChunkBytes ≤ 0 ∨
   m.chunking.maxChunkBytes ≤ 0 ∨ m.chunking.polynomial = 0) then throw .cdcParametersMissing
 if m.index.path = [] then throw .indexPathMissing
 if m.privateRef.any (fun ref => ref.path = []) then throw .privatePathMissing
 if m.schemaVersion = schemaVersionPrivate ∧ m.privateRef = none then throw .privateRefMissing
 checkManifestLayers 0 m.layers
 return m

/-- The row loop of `ReadChunkTable`. -/
def checkTableRows : Nat → List Chunk → Except ReadError Unit
 | _, [] => .ok ()
 | i, c :: rest =>
  if c.i ≠ i then .error (.rowIndex i c.i)
  else if c.p = [] then .error (.rowPath i)
  else if c.pb < 0 ∨ c.sb < 0 then .error (.rowNegative i)
  else if validDigest c.ss = false then .error (.rowStoredDigest i)
  else if c.ps ≠ [] ∧ validDigest c.ps = false then .error (.rowPlainDigest i)
  else checkTableRows (i + 1) rest

def checkChunkTable (t : ChunkTable) : Except ReadError ChunkTable := do
 checkSchema t.schemaVersion
 checkTableRows 0 t.chunks
 return t

def readManifest (decode : Bytes → Option Manifest) (data : Bytes) : Except ReadError Manifest :=
 match decode data with
 | none => .error .parsingManifest
 | some m => checkManifest m

def readChunkTable (decode : Bytes → Option ChunkTable) (data : Bytes) :
  Except ReadError ChunkTable :=
 match decode data with
 | none => .error .parsingTable
 | some t => checkChunkTable t

end BackImage.Index.Model
