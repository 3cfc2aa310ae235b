/- source: pkg/restore/source.go, pkg/restore/layerblob.go
  digest: Data layers unpacked into a cache directory and temporary files, and chunks read from
    them. -/

import BackImage.Go.Tar
import BackImage.Recovery.StreamTar
import BackImage.Restore.OciLayout
import BackImage.Restore.TempLayers
import Mathlib.Data.List.Sort
import Mathlib.Logic.Relation

namespace BackImage.Restore.LayerCache

open Crypt.Envelope Go.Text Index.Limits Index.Model Lib.Sequence Lib.Recency Lib.Wrap
open Recovery.ChunkLayout
open Recovery.StreamTar TempLayers
open OciLayout (Hash)

structure ByteStream where
 bytes : Bytes
 fault : Option Str
 deriving DecidableEq

structure Entry extends Go.Tar.Header where
 content : Bytes
 fault : Option Str
 short : (content.length : Int) ≤ size.toInt
 whole : fault = none → (content.length : Int) = size.toInt

structure Tar where
 entries : List Entry
 ending : Option Str

structure Readers where
 newReader : Codec → ByteStream → Except Str ByteStream
 untar : ByteStream → Tar
 clean : ∀ s, s.fault = none → ∀ e ∈ (untar s).entries, (e.content.length : Int) = e.size.toInt →
  e.fault = none

def layerPeekBytes : Nat := 4096

def peekHead (s : ByteStream) : Bytes := s.bytes.take layerPeekBytes

def isTarHeader (b : Bytes) : Bool := (b.drop 257).take 5 = lit "ustar"

def isGzipHeader (b : Bytes) : Bool := b.take 2 = [31, 139]

inductive LayerError
 | unknownCodec (name : Str)
 | wrapper (cause : Str)
 | codec (cause : Str)
 deriving DecidableEq

def unwrap (r : Readers) (s : ByteStream) : Except LayerError ByteStream :=
 (r.newReader .gzip s).mapError .wrapper

def openLayerTar (r : Readers) (raw : ByteStream) (codecName : Str) :
  Except LayerError ByteStream :=
 match codecByName codecName with
 | none => .error (.unknownCodec codecName)
 | some codec =>
  if isTarHeader (peekHead raw) then .ok raw
  else do
   let inner ← if isGzipHeader (peekHead raw) ∧ codec ≠ .gzip then unwrap r raw else .ok raw
   let decoded ← (r.newReader codec inner).mapError .codec
   if codec = .gzip ∧ isGzipHeader (peekHead decoded) then unwrap r decoded else .ok decoded

structure Layer where
 digest : Except Str Hash
 diffID : Except Str Hash

structure Source where
 layers : Except Str (List Layer)
 daemon : Bool
 cacheSize : Int64
 manifest : Manifest
 table : ChunkTable

structure LayerBytes where
 digest : Hash
 label : Str

def Source.layerBytes (src : Source) (l : Layer) : Except Str LayerBytes :=
 if src.daemon then l.diffID.map (⟨·, lit "diffID dell'immagine caricata nel daemon"⟩)
 else l.digest.map (⟨·, lit "manifest OCI"⟩)

inductive BlobError
 | table (cause : TableError)
 | outOfRange (i : Int)
 | unassigned (i : Int)
 | layers (cause : Str)
 | missing (dataLayer : Int) (held : Nat)
 | digest (cause : Str)
 | file (cause : Str)
 | fetch (cause : Str)
 | layer (cause : LayerError)
 | tar (dataLayer : Int) (cause : Str)
 | size (wanted : Str) (got want : Int64)
 | copy (cause : Str)
 | extracted (wanted : Str) (got : Nat) (want : Int64)
 | notFound (wanted : Str) (dataLayer : Int)
 | overrun (i : Int) (sb offset held : Int64)
 | truncated (i : Int) (cause : Str)
 deriving DecidableEq

structure SliceSort (α : Type) (less : α → α → Bool) where
 sort : List α → List α
 perm : ∀ xs, (sort xs).Perm xs
 ordered : ∀ xs, (sort xs).Pairwise fun a b => less b a = false

def SliceSort.byKey {α β : Type} [LinearOrder β] (key : α → β) :
  SliceSort α fun a b => key a < key b where
 sort := List.insertionSort fun a b => key a ≤ key b
 perm := List.perm_insertionSort _
 ordered xs := by
  have : Std.Total fun a b : α => key a ≤ key b := ⟨fun a b => le_total _ _⟩
  have : IsTrans α fun a b : α => key a ≤ key b := ⟨fun a b c => le_trans⟩
  simpa using List.pairwise_insertionSort (fun a b : α => key a ≤ key b) xs

structure CacheFile where
 content : Bytes
 modTime : Nat
 deriving DecidableEq

abbrev Cache := List (Str × CacheFile)

def size (content : Bytes) : Int64 := Int64.ofNat content.length

theorem size_toInt {content : Bytes} (small : (content.length : Int) < bound) :
  (size content).toInt = content.length :=
 toInt_ofNat_of_lt small

theorem size_eq {content : Bytes} {n : Int64} (length : (content.length : Int) = n.toInt) :
  size content = n := by
 have small : (content.length : Int) < bound := length ▸ (toInt_fits n).2
 apply Int64.toInt_inj.mp
 rw [size_toInt small, length]

inductive DiskCall
 | statKept | mkdirAll | statCached | chtimes | remove | createTemp | sync | stat | close | rename
 | readDir | openFile | seek | fstat | read
 | info (name : Str)
 | removeOld (name : Str)
 deriving DecidableEq

structure Disk where
 now : Nat
 answer : DiskCall → Option Str
 byAge : SliceSort (Str × CacheFile) fun a b => a.2.modTime < b.2.modTime

def Disk.Fine (disk : Disk) : Prop := ∀ call, disk.answer call = none

def Disk.sound (now : Nat) : Disk :=
 ⟨now, fun _ => none, SliceSort.byKey fun f : Str × CacheFile => f.2.modTime⟩

structure State where
 temps : Temps
 cache : Cache

inductive Path
 | temp (file : Nat)
 | cached (name : Str)
 deriving DecidableEq

def State.content (s : State) : Path → Option Bytes
 | .temp file => look file s.temps.files
 | .cached name => (look name s.cache).map CacheFile.content

def checked (answer : Option Str) : Except BlobError Unit :=
 match answer with
 | none => .ok ()
 | some cause => .error (.file cause)

def imageLayer (layers : List Layer) (dataLayer : Int) : Option Layer :=
 if dataLayer + 2 < 2 then none else layers[(dataLayer + 2).toNat]?

def Source.locate (src : Source) (dataLayer : Int) : Except BlobError LayerBytes :=
 match src.layers with
 | .error e => .error (.layers e)
 | .ok layers =>
  match imageLayer layers dataLayer with
  | none => .error (.missing dataLayer layers.length)
  | some l => (src.layerBytes l).mapError .digest

theorem imageLayer_eq_some {layers : List Layer} {dataLayer : Int} {l : Layer} :
  imageLayer layers dataLayer = some l ↔
   0 ≤ dataLayer ∧ layers[(dataLayer + 2).toNat]? = some l := by
 unfold imageLayer
 by_cases low : dataLayer + 2 < 2
 · simp only [low, if_true, reduceCtorEq, false_iff, not_and]
   omega
 · simp only [low, if_false, iff_and_self]
   omega

theorem Source.locate_ok {src : Source} {dataLayer : Int} {id : LayerBytes} :
  src.locate dataLayer = .ok id ↔ ∃ layers l, src.layers = .ok layers ∧
   imageLayer layers dataLayer = some l ∧ src.layerBytes l = .ok id := by
 unfold Source.locate
 cases src.layers with
 | error cause => simp
 | ok layers =>
  cases found : imageLayer layers dataLayer with
  | none => simp [found]
  | some l => cases known : src.layerBytes l <;> simp [found, known, Except.mapError]

theorem Source.locate_nonneg {src : Source} {dataLayer : Int} {id : LayerBytes}
  (located : src.locate dataLayer = .ok id) : 0 ≤ dataLayer := by
 obtain ⟨layers, l, -, found, -⟩ := Source.locate_ok.mp located
 exact (imageLayer_eq_some.mp found).1

def copyLimited (e : Entry) (expected : Int64) : Bytes × Option Str :=
 if expected + 1 ≤ 0 then ([], none) else (e.content, e.fault)

def copyWanted (wanted : Str) (dataLayer : Int) (expected : Int64) (ending : Option Str) :
  List Entry → Except BlobError Bytes
 | [] =>
  match ending with
  | some cause => .error (.tar dataLayer cause)
  | none => .error (.notFound wanted dataLayer)
 | e :: rest =>
  if trimPrefix e.name (lit "/") ≠ trimPrefix wanted (lit "/") then
   copyWanted wanted dataLayer expected ending rest
  else if e.size ≠ expected then .error (.size wanted e.size expected)
  else
   match copyLimited e expected with
   | (_, some cause) => .error (.copy cause)
   | (content, none) =>
    if size content ≠ expected then .error (.extracted wanted content.length expected)
    else .ok content

def extract (r : Readers) (served : Except Str ByteStream) (dataLayer : Int)
  (wanted codecName : Str) (expected : Int64) : Except BlobError Bytes :=
 match served with
 | .error e => .error (.fetch e)
 | .ok raw =>
  match openLayerTar r raw codecName with
  | .error e => .error (.layer e)
  | .ok decoded =>
   copyWanted wanted dataLayer expected (r.untar decoded).ending (r.untar decoded).entries

def download (disk : Disk) (extracted : Except BlobError Bytes) : Except BlobError Bytes := do
 let content ← extracted
 checked (disk.answer .sync)
 checked (disk.answer .stat)
 checked (disk.answer .close)
 return content

def pruneFiles (disk : Disk) (cacheSize : Int64) (keep : Str) :
  List (Str × CacheFile) → Int64 → Cache → Cache × Except BlobError Unit
 | [], _, cache => (cache, .ok ())
 | f :: rest, total, cache =>
  if total ≤ cacheSize then (cache, .ok ())
  else if f.1 = keep then pruneFiles disk cacheSize keep rest total cache
  else
   match disk.answer (.removeOld f.1) with
   | some cause => (cache, .error (.file cause))
   | none =>
    pruneFiles disk cacheSize keep rest (total - size f.2.content) (drop f.1 cache)

def cacheEntries (cache : Cache) : List (Str × CacheFile) :=
 cache.filter fun f => !hasPrefix f.1 (lit ".layer-")

def prune (disk : Disk) (cacheSize : Int64) (keep : Str) (cache : Cache) :
  Cache × Except BlobError Unit :=
 match disk.answer .readDir with
 | some cause => (cache, .error (.file cause))
 | none =>
  match (cacheEntries cache).findSome? fun f => disk.answer (.info f.1) with
  | some cause => (cache, .error (.file cause))
  | none =>
   pruneFiles disk cacheSize keep (disk.byAge.sort (cacheEntries cache))
    (wrapSum 0 ((cacheEntries cache).map fun f => size f.2.content)) cache

section Materialize

variable (disk : Disk) (src : Source) (dataLayer : Int) (expected : Int64)
 (extracted : Except BlobError Bytes)

def settle (name : Str) (content : Bytes) (s : State) : State × Except BlobError Path :=
 if src.cacheSize < 0 ∨ src.cacheSize < size content then
  ({ s with temps := keepEphemeral dataLayer s.temps.unused (s.temps.create content) },
   .ok (.temp s.temps.unused))
 else
  let temps := (s.temps.create content).remove s.temps.unused
  match disk.answer .rename with
  | some cause => ({ s with temps }, .error (.file cause))
  | none =>
   match prune disk src.cacheSize name (put name ⟨content, disk.now⟩ s.cache) with
   | (cache, .error e) => (⟨temps, cache⟩, .error e)
   | (cache, .ok ()) => (⟨temps, cache⟩, .ok (.cached name))

def fill (name : Str) (s : State) : State × Except BlobError Path :=
 match disk.answer .createTemp with
 | some cause => (s, .error (.file cause))
 | none =>
  match download disk extracted with
  | .error e => ({ s with temps := (s.temps.create []).remove s.temps.unused }, .error e)
  | .ok content => settle disk src dataLayer name content s

def fromCache (name : Str) (s : State) : State × Except BlobError Path :=
 match if disk.answer .statCached = none then look name s.cache else none with
 | none => fill disk src dataLayer extracted name s
 | some file =>
  if size file.content = expected then
   match disk.answer .chtimes with
   | some cause => (s, .error (.file cause))
   | none =>
    ({ s with cache := put name { file with modTime := disk.now } s.cache },
     .ok (.cached name))
  else
   match disk.answer .remove with
   | some cause => (s, .error (.file cause))
   | none => fill disk src dataLayer extracted name { s with cache := drop name s.cache }

def fromImage (s : State) : State × Except BlobError Path :=
 match src.locate dataLayer with
 | .error e => (s, .error e)
 | .ok blob =>
  match disk.answer .mkdirAll with
  | some cause => (s, .error (.file cause))
  | none => fromCache disk src dataLayer expected extracted blob.digest.hex s

def materialize (s : State) : State × Except BlobError Path :=
 match look dataLayer s.temps.slots.held with
 | none => fromImage disk src dataLayer expected extracted s
 | some file =>
  if disk.answer .statKept = none ∧ (look file s.temps.files).map size = some expected then
   ({ s with temps := touchEphemeral dataLayer s.temps }, .ok (.temp file))
  else
   fromImage disk src dataLayer expected extracted
    { s with temps := dropEphemeral dataLayer s.temps }

end Materialize

def wantedEntry (wanted : Str) (entries : List Entry) : Option Entry :=
 entries.find? fun e => trimPrefix e.name (lit "/") = trimPrefix wanted (lit "/")

theorem Entry.size_content {e : Entry} (clean : e.fault = none) :
  LayerCache.size e.content = e.size :=
 size_eq (e.whole clean)

theorem copyLimited_ok {e : Entry} {expected : Int64} {content : Bytes} (same : e.size = expected) :
  copyLimited e expected = (content, none) ∧ size content = expected ↔
   0 < expected + 1 ∧ e.fault = none ∧ e.content = content := by
 have nonneg : 0 ≤ expected.toInt := by
  have short := e.short
  rw [same] at short
  omega
 unfold copyLimited
 by_cases wraps : expected + 1 ≤ 0
 · have refused : ¬ 0 < expected + 1 := Int64.not_lt.mpr wraps
   rw [if_pos wraps]
   simp only [refused, false_and, iff_false, not_and]
   rintro copied rfl
   -- nothing is copied, which is not what a limit past the largest size expects
   obtain ⟨rfl, -⟩ := Prod.mk.inj copied
   exact absurd wraps (by decide)
 · rw [if_neg wraps]
   simp only [Int64.not_le.mp wraps, true_and, Prod.mk.injEq]
   constructor
   · rintro ⟨⟨copied, clean⟩, -⟩
     exact ⟨clean, copied⟩
   · rintro ⟨clean, copied⟩
     exact ⟨⟨copied, clean⟩, by rw [← copied, e.size_content clean, same]⟩

theorem copyWanted_ok_iff {wanted : Str} {dataLayer : Int} {expected : Int64} {ending : Option Str}
  {entries : List Entry} {content : Bytes} :
  copyWanted wanted dataLayer expected ending entries = .ok content ↔
   ∃ e, wantedEntry wanted entries = some e ∧ e.size = expected ∧ 0 < expected + 1 ∧
    e.fault = none ∧ e.content = content := by
 induction entries with
 | nil => cases ending <;> simp [copyWanted, wantedEntry]
 | cons e rest ih =>
  unfold copyWanted wantedEntry
  by_cases named : trimPrefix e.name (lit "/") = trimPrefix wanted (lit "/")
  · rw [if_neg (not_not.mpr named), List.find?_cons_of_pos (by simpa using named)]
    simp only [Option.some.injEq, exists_eq_left']
    by_cases same : e.size = expected
    · rw [if_neg (not_not.mpr same)]
      simp only [same, true_and, ← copyLimited_ok same]
      rcases copyLimited e expected with ⟨copied, _ | cause⟩
      · simp only [guard_ok, not_not, ne_eq, Except.ok.injEq, Prod.mk.injEq, and_true]
        constructor
        · rintro ⟨right, rfl⟩
          exact ⟨rfl, right⟩
        · rintro ⟨rfl, right⟩
          exact ⟨right, rfl⟩
      · simp
    · simp [same]
  · rw [if_pos named, List.find?_cons_of_neg (by simpa using named)]
    exact ih

theorem extract_ok_iff {r : Readers} {served : Except Str ByteStream} {dataLayer : Int}
  {wanted codecName : Str} {expected : Int64} {content : Bytes} :
  extract r served dataLayer wanted codecName expected = .ok content ↔
   ∃ raw decoded e, served = .ok raw ∧ openLayerTar r raw codecName = .ok decoded ∧
    wantedEntry wanted (r.untar decoded).entries = some e ∧ e.size = expected ∧
     0 < expected + 1 ∧ e.fault = none ∧ e.content = content := by
 unfold extract
 cases served with
 | error cause => simp
 | ok raw =>
  cases opened : openLayerTar r raw codecName with
  | error cause => simp [opened]
  | ok decoded => simp [opened, copyWanted_ok_iff]

section Prune

variable {disk : Disk} {cacheSize : Int64} {keep : Str} {cache : Cache}

theorem pruneFiles_subset {files : List (Str × CacheFile)} {total : Int64} :
  ∀ f ∈ (pruneFiles disk cacheSize keep files total cache).1, f ∈ cache := by
 fun_induction pruneFiles disk cacheSize keep files total cache with
 | case5 f rest total cache full other removed ih =>
  intro g member
  exact (mem_drop.mp (ih g member)).1
 | case3 f rest total cache full same ih => exact ih
 | _ => simp

theorem prune_subset : ∀ f ∈ (prune disk cacheSize keep cache).1, f ∈ cache := by
 unfold prune
 split
 · simp
 · split
   · simp
   · exact pruneFiles_subset

theorem pruneFiles_keeps {files : List (Str × CacheFile)} {total : Int64} :
  look keep (pruneFiles disk cacheSize keep files total cache).1 = look keep cache := by
 fun_induction pruneFiles disk cacheSize keep files total cache with
 | case5 f rest total cache full other removed ih =>
  rw [ih]
  exact look_drop (Ne.symm other)
 | case3 f rest total cache full same ih => exact ih
 | _ => rfl

theorem prune_keeps : look keep (prune disk cacheSize keep cache).1 = look keep cache := by
 unfold prune
 split
 · rfl
 · split
   · rfl
   · exact pruneFiles_keeps

end Prune

section Changes

variable {disk : Disk} {src : Source} {dataLayer : Int} {expected : Int64}
 {extracted : Except BlobError Bytes} {blob : LayerBytes}

/-- One change that `materialize` makes to the files. -/
inductive Change (src : Source) (dataLayer : Int) (extracted : Except BlobError Bytes) : State →
  State → Prop
 | released (s : State) :
   Change src dataLayer extracted s { s with temps := dropEphemeral dataLayer s.temps }
 | touched (s : State) (file : Nat) (held : look dataLayer s.temps.slots.held = some file) :
   Change src dataLayer extracted s { s with temps := touchEphemeral dataLayer s.temps }
 | discarded (s : State) (content : Bytes) :
   Change src dataLayer extracted s
    { s with temps := (s.temps.create content).remove s.temps.unused }
 | refreshed (s : State) (name : Str) (file : CacheFile) (found : look name s.cache = some file)
   (now : Nat) :
   Change src dataLayer extracted s
    { s with cache := put name { file with modTime := now } s.cache }
 | removed (s : State) (name : Str) :
   Change src dataLayer extracted s { s with cache := drop name s.cache }
 | kept (s : State) (absent : look dataLayer s.temps.slots.held = none) (content : Bytes)
   (new : extracted = .ok content) :
   Change src dataLayer extracted s
    { s with temps := keepEphemeral dataLayer s.temps.unused (s.temps.create content) }
 | cached (s : State) (blob : LayerBytes) (located : src.locate dataLayer = .ok blob)
   (content : Bytes) (new : extracted = .ok content) (now : Nat) (cache : Cache)
   (subset : ∀ f ∈ cache, f ∈ put blob.digest.hex ⟨content, now⟩ s.cache) :
   Change src dataLayer extracted s { s with cache := cache }

theorem Change.mem_cache {s t : State} (change : Change src dataLayer extracted s t)
  {f : Str × CacheFile} (member : f ∈ t.cache) :
  (∃ old, (f.1, old) ∈ s.cache ∧ old.content = f.2.content) ∨
   ∃ id, src.locate dataLayer = .ok id ∧ id.digest.hex = f.1 ∧ extracted = .ok f.2.content := by
 cases change with
 | released | touched | discarded | kept => exact .inl ⟨f.2, member, rfl⟩
 | refreshed name file found now =>
  rcases mem_put.mp member with rfl | ⟨old, -⟩
  · exact .inl ⟨file, mem_of_look found, rfl⟩
  · exact .inl ⟨f.2, old, rfl⟩
 | removed name => exact .inl ⟨f.2, (mem_drop.mp member).1, rfl⟩
 | cached id located content new now cache subset =>
  rcases mem_put.mp (subset f member) with rfl | ⟨old, -⟩
  · exact .inr ⟨id, located, rfl, new⟩
  · exact .inl ⟨f.2, old, rfl⟩

theorem Change.held {s t : State} (change : Change src dataLayer extracted s t)
  (filed : Filed s.temps) {k : Int} {c : Bytes} (found : t.temps.held k = some c) :
  s.temps.held k = some c ∨ k = dataLayer ∧ extracted = .ok c := by
 cases change with
 | released => exact .inl (held_dropEphemeral found)
 | discarded content =>
  simp only [Temps.held, look_discarded filed] at found
  exact .inl found
 | kept absent content new =>
  rcases held_keepEphemeral filed found with old | ⟨own, rfl⟩
  · exact .inl old
  · exact .inr ⟨own, new⟩
 | _ => exact .inl found

theorem Change.tidy {s t : State} (change : Change src dataLayer extracted s t)
  (tidy : Tidy s.temps) :
  Tidy t.temps := by
 cases change with
 | released => exact tidy.drop dataLayer
 | touched file held => exact tidy.touch held
 | discarded content => exact ⟨tidy.toFiled.discard content, tidy.slots⟩
 | kept absent content new => exact tidy.keep absent content
 | _ => exact tidy

abbrev Changes (src : Source) (dataLayer : Int) (extracted : Except BlobError Bytes) : State →
  State → Prop :=
 Relation.ReflTransGen (Change src dataLayer extracted)

theorem download_ok {content : Bytes} (done : download disk extracted = .ok content) :
  extracted = .ok content := by
 unfold download at done
 simp only [bind_ok] at done
 obtain ⟨held, new, -, -, -, -, -, -, same⟩ := done
 rw [new, Except.ok.inj same]

section

variable {s : State} (located : src.locate dataLayer = .ok blob)
 (absent : look dataLayer s.temps.slots.held = none)

include located absent

theorem settle_changes {content : Bytes} (new : extracted = .ok content) :
  Changes src dataLayer extracted s (settle disk src dataLayer blob.digest.hex content s).1 := by
 unfold settle
 split
 · exact .single (.kept s absent content new)
 · have first : Changes src dataLayer extracted s
    { s with temps := (s.temps.create content).remove s.temps.unused } :=
     .single (.discarded s content)
   split
   · exact first
   · have subset := @prune_subset disk src.cacheSize blob.digest.hex
      (put blob.digest.hex ⟨content, disk.now⟩ s.cache)
     split <;> rename_i pruned <;> rw [pruned] at subset <;>
      exact first.tail (.cached _ blob located content new disk.now _ subset)

theorem fill_changes :
  Changes src dataLayer extracted s (fill disk src dataLayer extracted blob.digest.hex s).1 := by
 unfold fill
 split
 · exact .refl
 · split
   · exact .single (.discarded s [])
   · rename_i content done
     exact settle_changes located absent (download_ok done)

theorem fromCache_changes : Changes src dataLayer extracted s
   (fromCache disk src dataLayer expected extracted blob.digest.hex s).1 := by
 unfold fromCache
 split
 · exact fill_changes located absent
 · rename_i file found
   have held : look blob.digest.hex s.cache = some file := by
    split at found
    · exact found
    · cases found
   split
   · split
     · exact .refl
     · exact .single (.refreshed s blob.digest.hex file held disk.now)
   · split
     · exact .refl
     · exact .trans (.single (.removed s blob.digest.hex)) (fill_changes located absent)

end

theorem fromImage_changes {s : State} (absent : look dataLayer s.temps.slots.held = none) :
  Changes src dataLayer extracted s (fromImage disk src dataLayer expected extracted s).1 := by
 unfold fromImage
 split
 · exact .refl
 · rename_i blob located
   split
   · exact .refl
   · exact fromCache_changes located absent

theorem materialize_changes (s : State) :
  Changes src dataLayer extracted s (materialize disk src dataLayer expected extracted s).1 := by
 unfold materialize
 split
 · rename_i absent
   exact fromImage_changes absent
 · rename_i file held
   split
   · exact .single (.touched s file held)
   · refine .trans (.single (.released s)) (fromImage_changes ?_)
     rw [slots_dropEphemeral]
     exact look_drop_self

theorem materialize_keeps {P : State → Prop} {s : State} (start : P s)
  (keeps : ∀ t u, P t → Change src dataLayer extracted t u → P u) :
  P (materialize disk src dataLayer expected extracted s).1 := by
 have changes := @materialize_changes disk src dataLayer expected extracted s
 generalize (materialize disk src dataLayer expected extracted s).1 = final at changes
 induction changes with
 | refl => exact start
 | tail _ change ih => exact keeps _ _ ih change

/-- A path that is returned is that of a file that is there. -/
def There (result : State × Except BlobError Path) : Prop :=
 ∀ file, result.2 = .ok (.temp file) → look file result.1.temps.files ≠ none

theorem there_error (s : State) (e : BlobError) : There (s, .error e) := by
 rintro file ⟨⟩

theorem there_cached (s : State) (name : Str) : There (s, .ok (.cached name)) := by
 rintro file ⟨⟩

section There

variable {s : State} (tidy : Tidy s.temps)

include tidy

theorem fill_there (absent : look dataLayer s.temps.slots.held = none) (name : Str) :
  There (fill disk src dataLayer extracted name s) := by
 unfold fill settle
 split
 · exact there_error _ _
 · split
   · exact there_error _ _
   · split
     · rintro file ⟨⟩
       rw [look_keepEphemeral tidy absent]
       exact Option.some_ne_none _
     · dsimp only
       split
       · exact there_error _ _
       · split
         · exact there_error _ _
         · exact there_cached _ _

theorem fromImage_there (absent : look dataLayer s.temps.slots.held = none) :
  There (fromImage disk src dataLayer expected extracted s) := by
 unfold fromImage fromCache
 split
 · exact there_error _ _
 · split
   · exact there_error _ _
   · split
     · exact fill_there tidy absent _
     · split
       · split
         · exact there_error _ _
         · exact there_cached _ _
       · split
         · exact there_error _ _
         · exact fill_there (s := { s with cache := drop _ s.cache }) tidy absent _

theorem materialize_there : There (materialize disk src dataLayer expected extracted s) := by
 unfold materialize
 split
 · rename_i absent
   exact fromImage_there tidy absent
 · rename_i kept held
   split
   · rintro file ⟨⟩
     exact (tidy.files _).mpr ⟨dataLayer, held⟩
   · refine fromImage_there (s := { s with temps := _ }) (tidy.drop dataLayer) ?_
     rw [slots_dropEphemeral]
     exact look_drop_self

end There

end Changes

def rowAt (t : ChunkTable) (i : Int) : Option Chunk := if i < 0 then none else t.chunks[i.toNat]?

def layerOf (m : Manifest) (i : Int) : Option LayerInfo :=
 m.layers.find? fun layer => layer.chunkFrom ≤ i ∧ i ≤ layer.chunkTo

def readChunk (disk : Disk) (i : Int) (c : Chunk) (offset : Int64) (file : Option Bytes) :
  Except BlobError Bytes := do
 checked (disk.answer .openFile)
 match file with
 | none => .error (.file (lit "no such file or directory"))
 | some content =>
  checked (disk.answer .seek)
  if offset < 0 then .error (.file (lit "invalid argument"))
  else
   checked (disk.answer .fstat)
   if size content < offset + c.sb then .error (.overrun i c.sb offset (size content))
   else
    match disk.answer .read with
    | some cause => .error (.truncated i cause)
    | none =>
     let out := (content.drop offset.toNatClampNeg).take c.sb.toNatClampNeg
     if out.length < c.sb.toNatClampNeg then
      .error (.truncated i (lit "unexpected EOF"))
     else .ok out

def Source.extracted (src : Source) (r : Readers) (serve : Int → Except Str ByteStream)
  (layer : LayerInfo) (c : Chunk) : Except BlobError Bytes :=
 extract r (serve layer.index) layer.index c.p src.manifest.archive.compression layer.storedBytes

def blob (r : Readers) (disk : Disk) (serve : Int → Except Str ByteStream) (src : Source) (i : Int)
  (s : State) : State × Except BlobError Bytes :=
 match validateChunkTable src.manifest src.table with
 | .error e => (s, .error (.table e))
 | .ok () =>
  match rowAt src.table i with
  | none => (s, .error (.outOfRange i))
  | some c =>
   match layerOf src.manifest i with
   | none => (s, .error (.unassigned i))
   | some layer =>
    if layer.index < 0 then (s, .error (.unassigned i))
    else
     match materialize disk src layer.index layer.storedBytes
      (src.extracted r serve layer c) s with
     | (s, .error e) => (s, .error e)
     | (s, .ok path) =>
      (s, readChunk disk i c ((computeLayout src.table).offsets.getD i.toNat 0) (s.content path))

section Calls

variable {r : Readers} {disk : Disk} {serve : Int → Except Str ByteStream} {src : Source} {i : Int}
 {s : State}

theorem blob_keeps {P : State → Prop} (start : P s)
  (keeps : ∀ c layer t u, rowAt src.table i = some c → layerOf src.manifest i = some layer → P t →
   Change src layer.index (src.extracted r serve layer c) t u → P u) :
  P (blob r disk serve src i s).1 := by
 unfold blob
 split
 · exact start
 · split
   · exact start
   · rename_i c row
     split
     · exact start
     · rename_i layer assigned
       split
       · exact start
       · have kept := @materialize_keeps disk src layer.index layer.storedBytes _ P s start
          (fun t u holds change => keeps c layer t u row assigned holds change)
         split <;> rename_i result <;> rw [result] at kept <;> exact kept

end Calls

structure Call where
 disk : Disk
 serve : Int → Except Str ByteStream
 i : Int

def run (r : Readers) (src : Source) : List Call → State → State
 | [], s => s
 | c :: rest, s => run r src rest (blob r c.disk c.serve src c.i s).1

theorem run_tidy (r : Readers) (src : Source) (calls : List Call) {s : State}
  (tidy : Tidy s.temps) :
  Tidy (run r src calls s).temps := by
 induction calls generalizing s with
 | nil => exact tidy
 | cons c rest ih =>
  refine ih (blob_keeps (P := fun s => Tidy s.temps) tidy ?_)
  intro _ _ t u _ _ tidy change
  exact change.tidy tidy

/-- After any calls of `Blob` the layers in use are the keys of the map, each once and at most four,
and the temporary files on disk are its values; `Close` removes them all. No call returns a path
whose file it has given up. -/
theorem blob_calls_bound_files (r : Readers) (src : Source) (cache : Cache) (calls : List Call) :
  let s := run r src calls ⟨.empty, cache⟩
  s.temps.slots.recent.Nodup ∧
   (∀ k, k ∈ s.temps.slots.recent ↔ look k s.temps.slots.held ≠ none) ∧
   s.temps.slots.recent.length ≤ 4 ∧
   (∀ f, look f s.temps.files ≠ none ↔ ∃ k, look k s.temps.slots.held = some f) ∧
   (close s.temps).files = [] ∧
   ∀ disk dataLayer expected extracted file,
    (materialize disk src dataLayer expected extracted s).2 = .ok (.temp file) →
     look file (materialize disk src dataLayer expected extracted s).1.temps.files ≠ none := by
 have tidy : Tidy (run r src calls ⟨.empty, cache⟩).temps := run_tidy r src calls tidy_empty
 exact ⟨tidy.slots.nodup, tidy.slots.iff, tidy.slots.bounded, tidy.files, tidy.toFiled.close,
  fun _ _ _ _ file => materialize_there tidy file⟩

end BackImage.Restore.LayerCache
