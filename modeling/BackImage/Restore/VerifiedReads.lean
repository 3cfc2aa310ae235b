/- source: pkg/restore/verify_stored.go, pkg/restore/source.go
  digest: What a passing verification says about the chunks that are read afterwards. -/

import BackImage.Restore.CacheContents
import BackImage.Restore.VerifyStored

namespace BackImage.Restore.VerifiedReads

open Go.Text Index.Limits Index.Model Lib.Sequence Lib.Recency Lib.Wrap Recovery.ChunkLayout
open LayerCache
open TempLayers VerifyStored
open Go.Sha256 (digestText sum256)
open Lib.Cut (start)

variable {disk : Disk} {src : Source} {r : Readers} {serve : Int → Except Str ByteStream}

section Fine

variable {dataLayer : Int} {expected : Int64} {extracted : Except BlobError Bytes} {id : LayerBytes}
 {name : Str} {content : Bytes} {s : State}

theorem pruneFiles_fine (fine : disk.Fine) {cacheSize : Int64} {keep : Str} {cache : Cache}
  {files : List (Str × CacheFile)} {total : Int64} :
  (pruneFiles disk cacheSize keep files total cache).2 = .ok () := by
 fun_induction pruneFiles disk cacheSize keep files total cache with
 | case1 => rfl
 | case2 => rfl
 | case3 f rest total cache full same ih => exact ih
 | case4 f rest total cache full other cause failed =>
  rw [fine] at failed
  cases failed
 | case5 f rest total cache full other removed ih => exact ih

theorem prune_fine (fine : disk.Fine) {cacheSize : Int64} {keep : Str} {cache : Cache} :
  (prune disk cacheSize keep cache).2 = .ok () := by
 have known : ((cacheEntries cache).findSome? fun f => disk.answer (.info f.1)) = none := by
  simp [fine _]
 unfold prune
 rw [fine, known]
 exact pruneFiles_fine fine

theorem settle_fine (fine : disk.Fine) (tidy : Tidy s.temps)
  (absent : look dataLayer s.temps.slots.held = none) :
  ∃ path, (settle disk src dataLayer name content s).2 = .ok path ∧
   (settle disk src dataLayer name content s).1.content path = some content := by
 unfold settle
 split
 · exact ⟨.temp s.temps.unused, rfl, look_keepEphemeral tidy absent content⟩
 · rw [fine]
   have kept := @prune_keeps disk src.cacheSize name (put name ⟨content, disk.now⟩ s.cache)
   have done := @prune_fine disk fine src.cacheSize name (put name ⟨content, disk.now⟩ s.cache)
   rcases pruned : prune disk src.cacheSize name (put name ⟨content, disk.now⟩ s.cache) with
    ⟨cache, result⟩
   rw [pruned] at kept done
   subst done
   refine ⟨.cached name, rfl, ?_⟩
   simp [State.content, kept]

theorem fill_fine (fine : disk.Fine) (new : extracted = .ok content) :
  fill disk src dataLayer extracted name s = settle disk src dataLayer name content s := by
 have done : download disk extracted = .ok content := by
  simp [download, fine _, new, checked, bind, Except.bind, pure, Except.pure]
 unfold fill
 rw [fine, done]

theorem materialize_fine (fine : disk.Fine) (tidy : Tidy s.temps)
  (located : src.locate dataLayer = .ok id) (new : extracted = .ok content)
  (right : size content = expected) :
  ∃ path file, (materialize disk src dataLayer expected extracted s).2 = .ok path ∧
   (materialize disk src dataLayer expected extracted s).1.content path = some file ∧
   size file = expected ∧
   (file = content ∨ s.temps.held dataLayer = some file ∨
    ∃ f, look id.digest.hex s.cache = some f ∧ f.content = file) := by
 have image : ∀ t : State, Tidy t.temps →
   look dataLayer t.temps.slots.held = none → t.cache = s.cache →
   ∃ path file, (fromImage disk src dataLayer expected extracted t).2 = .ok path ∧
    (fromImage disk src dataLayer expected extracted t).1.content path = some file ∧
    size file = expected ∧
    (file = content ∨ ∃ f, look id.digest.hex s.cache = some f ∧ f.content = file) := by
  intro t tidy absent same
  unfold fromImage fromCache
  rw [located]
  simp only [fine _, if_true, same]
  cases found : look id.digest.hex s.cache with
  | none =>
   simp only [fill_fine fine new]
   obtain ⟨path, settled, there⟩ := settle_fine fine tidy absent
   exact ⟨path, content, settled, there, right, .inl rfl⟩
  | some f =>
   simp only
   split
   · rename_i hit
     exact ⟨.cached id.digest.hex, f.content, rfl, by simp [State.content], hit,
      .inr ⟨f, rfl, rfl⟩⟩
   · simp only [fill_fine fine new]
     obtain ⟨path, settled, there⟩ := @settle_fine disk src dataLayer id.digest.hex content
      ⟨t.temps, drop id.digest.hex s.cache⟩ fine tidy absent
     exact ⟨path, content, settled, there, right, .inl rfl⟩
 unfold materialize
 cases held : look dataLayer s.temps.slots.held with
 | none =>
  obtain ⟨path, file, answer, there, size, origin⟩ := image s tidy held rfl
  exact ⟨path, file, answer, there, size, origin.imp_right .inr⟩
 | some kept =>
  simp only [fine _, true_and]
  split
  · rename_i hit
    obtain ⟨file, there, size⟩ := Option.map_eq_some_iff.mp hit
    refine ⟨.temp kept, file, rfl, there, size, .inr (.inl ?_)⟩
    rw [Temps.held, held]
    exact there
  · obtain ⟨path, file, answer, there, size, origin⟩ :=
     image { s with temps := dropEphemeral dataLayer s.temps } (tidy.drop dataLayer)
      (by rw [slots_dropEphemeral]; exact look_drop_self) rfl
    exact ⟨path, file, answer, there, size, origin.imp_right .inr⟩

end Fine

def blobFile (r : Readers) (serve : Int → Except Str ByteStream) (src : Source)
  (layer : LayerInfo) :
  Option Bytes := do
 let first ← rowAt src.table layer.chunkFrom
 let raw ← (serve layer.index).toOption
 let decoded ← (openLayerTar r raw src.manifest.archive.compression).toOption
 (wantedEntry first.p (r.untar decoded).entries).map Entry.content

def slice (file : Bytes) (offset : Int64) (c : Chunk) : Bytes :=
 (file.drop offset.toNatClampNeg).take c.sb.toNatClampNeg

theorem rowAt_natCast (t : ChunkTable) (k : Nat) : rowAt t k = t.chunks[k]? := by
 unfold rowAt
 rw [if_neg (by omega), Int.toNat_natCast]

theorem exists_of_rowAt {t : ChunkTable} {i : Int} {c : Chunk} (row : rowAt t i = some c) :
  ∃ k : Nat, i = k ∧ t.chunks[k]? = some c := by
 unfold rowAt at row
 split at row
 · cases row
 · exact ⟨i.toNat, by omega, row⟩

theorem layerOf_some {m : Manifest} {k : Nat} {layer : LayerInfo}
  (assigned : layerOf m k = some layer) :
  layer ∈ m.layers ∧ Holds layer k := by
 refine ⟨List.mem_of_find?_eq_some assigned, ?_⟩
 unfold Holds
 simpa using List.find?_some assigned

section Extents

variable {rows : List Chunk} {file : Bytes}

theorem exactSum_eq_extent (positive : ∀ c ∈ rows, 0 < c.sb) :
  exactSum (rows.map Chunk.sb) = extent rows := by
 induction rows with
 | nil => rfl
 | cons c rest ih =>
  have head := Int64.lt_iff_toInt_lt.mp (positive c List.mem_cons_self)
  have zero := Int64.toInt_zero
  have tail := ih fun d member => positive d (List.mem_cons_of_mem c member)
  simp only [List.map_cons, exactSum_cons, tail, extent, List.sum_cons, Int64.toNatClampNeg]
  rw [zero] at head
  omega

theorem extent_take_le (rows : List Chunk) (n : Nat) : extent (rows.take n) ≤ extent rows := by
 have cut : extent rows = extent (rows.take n) + extent (rows.drop n) := by
  rw [extent, extent, extent, ← List.sum_append, ← List.map_append, List.take_append_drop]
 omega

theorem wrapSum_eq_extent (positive : ∀ c ∈ rows, 0 < c.sb) (fits : (extent rows : Int) < bound) :
  (wrapSum 0 (rows.map Chunk.sb)).toNatClampNeg = extent rows := by
 have zero := Int64.toInt_zero
 have sum := exactSum_eq_extent positive
 have nonneg : ∀ x ∈ rows.map Chunk.sb, 0 ≤ x.toInt := by
  intro x member
  obtain ⟨c, row, rfl⟩ := List.mem_map.mp member
  exact (Int64.lt_iff_toInt_lt.mp (positive c row)).le
 have exact := @wrapSum_toInt 0 _ (by rw [zero]) nonneg (by rw [zero]; omega)
 rw [Int64.toNatClampNeg, exact, zero, sum]
 omega

theorem extent_le_of_matches (matched : Matches rows file) : extent rows ≤ file.length := by
 induction rows generalizing file with
 | nil => simp [extent]
 | cons c rest ih =>
  obtain ⟨enough, -, later⟩ := matched
  have tail := ih later
  rw [List.length_drop] at tail
  simp only [extent, List.map_cons, List.sum_cons] at tail ⊢
  omega

theorem digest_of_matches (matched : Matches rows file) {n : Nat} {c : Chunk}
  (row : rows[n]? = some c) :
  digestText ((file.drop (extent (rows.take n))).take c.sb.toNatClampNeg) = c.ss := by
 induction rows generalizing file n with
 | nil => simp at row
 | cons d rest ih =>
  obtain ⟨-, digest, later⟩ := matched
  cases n with
  | zero =>
   cases row
   simpa [extent] using digest
  | succ n =>
   have tail := ih later row
   rw [List.drop_drop] at tail
   simpa [extent] using tail

end Extents

section Verified

structure Passed (r : Readers) (serve : Int → Except Str ByteStream) (src : Source) : Prop where
 accepted : validateChunkTable src.manifest src.table = .ok ()
 checked : ∀ layer ∈ src.manifest.layers, ∃ id raw decoded first e,
  Checked r serve src layer id raw decoded first e

/-- Row `k` of the chunk table is `c`, and the layer is one of those whose range holds it. -/
structure Carries (src : Source) (layer : LayerInfo) (k : Nat) (c : Chunk) : Prop where
 member : layer ∈ src.manifest.layers
 holds : Holds layer k
 row : src.table.chunks[k]? = some c

variable {k : Nat} {c : Chunk}

theorem Passed.tiled (passed : Passed r serve src)
  (row : src.table.chunks[k]? = some c) : ∃ groups, Tiled src.manifest src.table groups := by
 obtain ⟨-, rows, layers⟩ := validateChunkTable_ok_iff.mp passed.accepted
 have some_row : src.table.chunks ≠ [] := by
  intro empty
  simp [empty] at row
 rw [if_neg some_row] at layers
 obtain ⟨groups, split, tiling, nodup⟩ := layers
 exact ⟨groups, rows, split, tiling, nodup⟩

structure Covered (r : Readers) (serve : Int → Except Str ByteStream) (src : Source)
  (layer : LayerInfo)
  (k : Nat) (c : Chunk) (id : LayerBytes) (file : Bytes) (offset : Int64) : Prop where
 located : src.locate layer.index = .ok id
 fileIs : blobFile r serve src layer = some file
 offsetIs : (computeLayout src.table).offsets[k]? = some offset
 whole : (file.length : Int) = layer.storedBytes.toInt
 positive : 0 < c.sb
 low : 0 ≤ offset.toInt
 high : offset.toInt + c.sb.toInt ≤ layer.storedBytes.toInt
 digest : digestText (slice file offset c) = c.ss
 extracts : 0 < layer.storedBytes + 1 → src.extracted r serve layer c = .ok file

variable {layer : LayerInfo} {id : LayerBytes} {raw decoded : ByteStream} {first : Chunk}
variable {e : Entry}

section

variable (checked : Checked r serve src layer id raw decoded first e)

include checked

theorem content_length
  {maxStored : Int64} {next : Int}
  (placed : Placed maxStored next layer (rowsOf src.table.chunks layer))
  (positive : ∀ c ∈ rowsOf src.table.chunks layer, 0 < c.sb) :
  (e.content.length : Int) = layer.storedBytes.toInt := by
 have sum := exactSum_eq_extent positive
 have enough := extent_le_of_matches checked.chunks
 have short := e.short
 rw [checked.size] at short
 have fits := (toInt_fits layer.storedBytes).2
 have total := Placed.exact_total placed positive (by omega)
 omega

theorem blobFile_eq : blobFile r serve src layer = some e.content := by
 simp [blobFile, checked.start, checked.served, checked.opened, checked.found, Except.toOption]

theorem path_eq_first {groups : List (List Chunk)} (tiled : Tiled src.manifest src.table groups)
  (carries : Carries src layer k c) : c.p = first.p := by
 obtain ⟨j, found⟩ := List.mem_iff_getElem?.mp carries.member
 obtain ⟨from_, fromIs, firstRow⟩ := exists_of_rowAt checked.start
 have ordered := checked.ordered
 have startHolds : Holds layer from_ := ⟨fromIs.le, by omega⟩
 obtain ⟨n, g, at_j, placed, -, at_n, -⟩ := tiled.row_in_group found carries.holds carries.row
 obtain ⟨n₀, g₀, at_j₀, -, -, at_n₀, -⟩ := tiled.row_in_group found startHolds firstRow
 cases at_j.symm.trans at_j₀
 rw [placed.onePath c (List.mem_of_getElem? at_n),
  placed.onePath first (List.mem_of_getElem? at_n₀)]

theorem extracted_of_checked (whole : (e.content.length : Int) = layer.storedBytes.toInt)
  (path : c.p = first.p)
  (small : 0 < layer.storedBytes + 1) : src.extracted r serve layer c = .ok e.content := by
 have member := List.mem_of_find?_eq_some checked.found
 have clean := r.clean decoded checked.drained.1 e member (by rw [whole, checked.size])
 exact extract_ok_iff.mpr ⟨raw, decoded, e, checked.served, checked.opened,
  by rw [path]; exact checked.found, checked.size, small, clean, rfl⟩

end

section

variable (passed : Passed r serve src)

include passed

theorem Passed.covers (carries : Carries src layer k c) :
  ∃ id file offset, Covered r serve src layer k c id file offset := by
 obtain ⟨member, holds, row⟩ := carries
 obtain ⟨groups, tiled⟩ := passed.tiled row
 obtain ⟨id, raw, decoded, first, e, checked⟩ := passed.checked layer member
 obtain ⟨j, found⟩ := List.mem_iff_getElem?.mp member
 obtain ⟨n, g, at_j, placed, rowsIs, at_n, offsetIs⟩ := tiled.row_in_group found holds row
 subst rowsIs
 have positive := tiled.positive _ (List.mem_of_getElem? at_j)
 have whole := content_length checked placed positive
 have enough := extent_le_of_matches checked.chunks
 have bounded := (toInt_fits layer.storedBytes).2
 have fits : layerSum src.table layer < bound := by
  rw [layerSum, exactSum_eq_extent positive]
  omega
 obtain ⟨low, high⟩ := tiled.offset_bounds row offsetIs member holds fits
 -- the offset is the extent of the rows before the chunk, which did not wrap
 have earlier : ∀ d ∈ (rowsOf src.table.chunks layer).take n, 0 < d.sb :=
  fun d inside => positive d (List.mem_of_mem_take inside)
 have shorter := extent_take_le (rowsOf src.table.chunks layer) n
 have offsetExact := wrapSum_eq_extent earlier (by omega)
 refine ⟨id, e.content, _, checked.located, blobFile_eq checked, offsetIs, whole,
  positive c (List.mem_of_getElem? at_n), low, high, ?_, ?_⟩
 · rw [slice, offsetExact]
   exact digest_of_matches checked.chunks at_n
 · exact extracted_of_checked checked whole (path_eq_first checked tiled ⟨member, holds, row⟩)

theorem Passed.first_row (member : layer ∈ src.manifest.layers) :
  ∃ k c, Carries src layer k c := by
 obtain ⟨id, raw, decoded, first, e, checked⟩ := passed.checked layer member
 obtain ⟨k, fromIs, row⟩ := exists_of_rowAt checked.start
 have ordered := checked.ordered
 exact ⟨k, first, member, ⟨fromIs.le, by omega⟩, row⟩

theorem Passed.file_length (member : layer ∈ src.manifest.layers) {file : Bytes}
  (fileIs : blobFile r serve src layer = some file) :
  (file.length : Int) = layer.storedBytes.toInt := by
 obtain ⟨k, c, carries⟩ := passed.first_row member
 obtain ⟨id, held, offset, covered⟩ := passed.covers carries
 cases fileIs.symm.trans covered.fileIs
 exact covered.whole

theorem Passed.assigned (row : src.table.chunks[k]? = some c) :
  ∃ layer, layerOf src.manifest k = some layer ∧ Carries src layer k c := by
 obtain ⟨groups, tiled⟩ := passed.tiled row
 have inside := (List.getElem?_eq_some_iff.mp row).1
 obtain ⟨j, ⟨layer, found, holds⟩, -⟩ := tiled.oneLayer inside
 have some_layer : (layerOf src.manifest k).isSome := by
  rw [layerOf, List.find?_isSome]
  exact ⟨layer, List.mem_of_getElem? found, by simpa [Holds] using holds⟩
 obtain ⟨layer, assigned⟩ := Option.isSome_iff_exists.mp some_layer
 obtain ⟨member, holds⟩ := layerOf_some assigned
 exact ⟨layer, assigned, member, holds, row⟩

theorem Passed.layerOf_eq (carries : Carries src layer k c) :
  layerOf src.manifest k = some layer := by
 obtain ⟨groups, tiled⟩ := passed.tiled carries.row
 obtain ⟨first, assigned, chosen⟩ := passed.assigned carries.row
 obtain ⟨j, at_j⟩ := List.mem_iff_getElem?.mp carries.member
 obtain ⟨j₁, at_j₁⟩ := List.mem_iff_getElem?.mp chosen.member
 have one := tiled.oneLayer (List.getElem?_eq_some_iff.mp carries.row).1
 cases one.unique ⟨layer, at_j, carries.holds⟩ ⟨first, at_j₁, chosen.holds⟩
 rw [assigned, ← at_j₁, at_j]

end

end Verified

section Reading

variable {c : Chunk} {offset : Int64} {file : Bytes}

theorem readChunk_ok {i : Int} {out : Bytes}
  (read : readChunk disk i c offset (some file) = .ok out) : out = slice file offset c := by
 simp only [readChunk, bind_ok, guard_ok] at read
 obtain ⟨-, -, -, -, -, -, -, -, read⟩ := read
 split at read
 · cases read
 · exact (Except.ok.inj (guard_ok.mp read).2).symm

theorem readChunk_fine (fine : disk.Fine) {i : Int} {stored : Int64}
  (whole : (file.length : Int) = stored.toInt) (positive : 0 < c.sb) (low : 0 ≤ offset.toInt)
  (high : offset.toInt + c.sb.toInt ≤ stored.toInt) :
  readChunk disk i c offset (some file) = .ok (slice file offset c) := by
 have zero := Int64.toInt_zero
 have bounded := (toInt_fits stored).2
 have size : (size file).toInt = file.length := size_toInt (by omega)
 have sbPositive := Int64.lt_iff_toInt_lt.mp positive
 rw [zero] at sbPositive
 have sum : (offset + c.sb).toInt = offset.toInt + c.sb.toInt :=
  toInt_add_of_fits ⟨by unfold bound; omega, by omega⟩
 have notBefore : ¬ offset < 0 := by
  rw [Int64.lt_iff_toInt_lt, zero]
  omega
 have notPast : ¬ LayerCache.size file < offset + c.sb := by
  rw [Int64.lt_iff_toInt_lt, size, sum]
  omega
 have full : ¬ (slice file offset c).length < c.sb.toNatClampNeg := by
  simp only [slice, List.length_take, List.length_drop, Int64.toNatClampNeg]
  omega
 simp only [readChunk, fine _, checked, notBefore, notPast, if_false, bind, Except.bind]
 exact if_neg full

theorem blob_eq (passed : Passed r serve src) {layer : LayerInfo} {k : Nat}
  (carries : Carries src layer k c) {id : LayerBytes}
  (covered : Covered r serve src layer k c id file offset) (s : State) : blob r disk serve src k s =
   match materialize disk src layer.index layer.storedBytes (src.extracted r serve layer c) s with
   | (t, .error e) => (t, .error e)
   | (t, .ok path) => (t, readChunk disk k c offset (t.content path)) := by
 have nonneg := Source.locate_nonneg covered.located
 unfold blob
 rw [passed.accepted]
 simp only [rowAt_natCast, carries.row, passed.layerOf_eq carries, if_neg (Int.not_lt.mpr nonneg)]
 rw [Int.toNat_natCast, List.getD_eq_getElem?_getD, covered.offsetIs]
 rfl

end Reading

/-- No file is too large to copy, and a file found under the identity and with the size of a layer
holds that layer's chunks, whichever layer it was unpacked for. -/
structure Interchangeable (r : Readers) (serve : Int → Except Str ByteStream) (src : Source) :
  Prop where
 bounded : ∀ layer ∈ src.manifest.layers, 0 < layer.storedBytes + 1
 same : ∀ layer ∈ src.manifest.layers, ∀ other ∈ src.manifest.layers, ∀ id otherId file,
  src.locate layer.index = .ok id → src.locate other.index = .ok otherId →
  otherId.digest.hex = id.digest.hex → other.storedBytes = layer.storedBytes →
  blobFile r serve src other = some file →
  ∀ k c offset, Holds layer k → src.table.chunks[k]? = some c →
   (computeLayout src.table).offsets[k]? = some offset → digestText (slice file offset c) = c.ss

/-- Every file on disk was unpacked for a layer that goes by the name it has. -/
structure Stocked (r : Readers) (serve : Int → Except Str ByteStream) (src : Source) (s : State) :
  Prop where
 tidy : Tidy s.temps
 kept : ∀ k file, s.temps.held k = some file → ∃ other ∈ src.manifest.layers, other.index = k ∧
  blobFile r serve src other = some file
 cached : ∀ f ∈ s.cache, ∃ other ∈ src.manifest.layers, ∃ id, src.locate other.index = .ok id ∧
  id.digest.hex = f.1 ∧ blobFile r serve src other = some f.2.content

section Stock

theorem stocked_empty : Stocked r serve src ⟨.empty, []⟩ :=
 ⟨tidy_empty, by simp [Temps.held, Temps.empty, Slots.empty, look], by simp⟩

variable {layer : LayerInfo} {s : State}

theorem stocked_change {extracted : Except BlobError Bytes} {t : State}
  (change : Change src layer.index extracted s t) (member : layer ∈ src.manifest.layers)
  (origin : ∀ content, extracted = .ok content → blobFile r serve src layer = some content)
  (stocked : Stocked r serve src s) : Stocked r serve src t := by
 refine ⟨change.tidy stocked.tidy, ?_, ?_⟩
 · intro k file held
   rcases change.held stocked.tidy.toFiled held with old | ⟨index, new⟩
   · exact stocked.kept k file old
   · exact ⟨layer, member, index.symm, origin file new⟩
 · intro f held
   rcases change.mem_cache held with ⟨old, found, same⟩ | ⟨id, located, named, new⟩
   · rw [← same]
     exact stocked.cached (f.1, old) found
   · exact ⟨layer, member, id, located, named, origin f.2.content new⟩

variable {k : Nat} {c : Chunk}

theorem Passed.origin (passed : Passed r serve src) (carries : Carries src layer k c)
  {content : Bytes} (new : src.extracted r serve layer c = .ok content) :
  blobFile r serve src layer = some content := by
 obtain ⟨id, file, offset, covered⟩ := passed.covers carries
 obtain ⟨-, -, -, -, -, -, -, small, -, -⟩ := extract_ok_iff.mp new
 cases new.symm.trans (covered.extracts small)
 exact covered.fileIs

theorem stocked_blob (passed : Passed r serve src) {i : Int}
  (stocked : Stocked r serve src s) : Stocked r serve src (blob r disk serve src i s).1 := by
 apply blob_keeps stocked
 intro c layer t u row assigned stocked change
 obtain ⟨k, rfl, row⟩ := exists_of_rowAt row
 obtain ⟨member, holds⟩ := layerOf_some assigned
 exact stocked_change change member (fun content new => passed.origin ⟨member, holds, row⟩ new)
  stocked

theorem blob_verified (passed : Passed r serve src) (inter : Interchangeable r serve src)
  (fine : disk.Fine) (stocked : Stocked r serve src s) (row : src.table.chunks[k]? = some c) :
  ∃ bytes, (blob r disk serve src k s).2 = .ok bytes ∧ digestText bytes = c.ss := by
 obtain ⟨layer, -, carries⟩ := passed.assigned row
 have member := carries.member
 obtain ⟨id, own, offset, covered⟩ := passed.covers carries
 obtain ⟨path, file, answer, content, expected, origin⟩ := materialize_fine fine
  stocked.tidy covered.located (covered.extracts (inter.bounded layer member))
  (size_eq covered.whole)
 -- whichever way it was found, the file was unpacked for a layer of the same identity
 have source : ∃ other ∈ src.manifest.layers, ∃ otherId, src.locate other.index = .ok otherId ∧
   otherId.digest.hex = id.digest.hex ∧ blobFile r serve src other = some file := by
  rcases origin with rfl | held | ⟨f, held, rfl⟩
  · exact ⟨layer, member, id, covered.located, rfl, covered.fileIs⟩
  · obtain ⟨other, known, index, fileIs⟩ := stocked.kept _ _ held
    exact ⟨other, known, id, by rw [index]; exact covered.located, rfl, fileIs⟩
  · exact stocked.cached _ (mem_of_look held)
 obtain ⟨other, known, otherId, located, hex, fileIs⟩ := source
 have length := passed.file_length known fileIs
 have stored : other.storedBytes = layer.storedBytes := (size_eq length).symm.trans expected
 rw [stored] at length
 refine ⟨slice file offset c, ?_,
  inter.same layer member other known id otherId file covered.located
  located hex stored fileIs k c offset carries.holds row covered.offsetIs⟩
 rw [blob_eq passed carries covered s]
 rcases result : materialize disk src layer.index layer.storedBytes
  (src.extracted r serve layer c) s
  with ⟨t, e | found⟩
 · rw [result] at answer
   cases answer
 · rw [result] at answer content
   cases answer
   simp only [content]
   exact readChunk_fine fine length covered.positive covered.low covered.high

variable {id : LayerBytes}

theorem materialize_empty (fine : disk.Fine) {dataLayer : Int} {expected : Int64}
  {extracted : Except BlobError Bytes} (located : src.locate dataLayer = .ok id) :
  materialize disk src dataLayer expected extracted ⟨.empty, []⟩ =
   fill disk src dataLayer extracted id.digest.hex ⟨.empty, []⟩ := by
 simp [materialize, fromImage, fromCache, located, fine _, look, Temps.empty, Slots.empty]

theorem bounded_of_blob (passed : Passed r serve src) (fine : disk.Fine)
  (carries : Carries src layer k c) {bytes : Bytes}
  (answer : (blob r disk serve src k ⟨.empty, []⟩).2 = .ok bytes) : 0 < layer.storedBytes + 1 := by
 obtain ⟨id, file, offset, covered⟩ := passed.covers carries
 rw [blob_eq passed carries covered, materialize_empty fine covered.located] at answer
 cases new : src.extracted r serve layer c with
 | error e =>
  have failed : download disk (.error e) = .error e := by
   simp [download, bind, Except.bind]
  rw [new, fill, fine, failed] at answer
  cases answer
 | ok content =>
  obtain ⟨-, -, -, -, -, -, -, small, -, -⟩ := extract_ok_iff.mp new
  exact small

theorem blob_caches (passed : Passed r serve src) (fine : disk.Fine)
  (room : src.cacheSize = Int64.maxValue) (carries : Carries src layer k c)
  (small : 0 < layer.storedBytes + 1) (located : src.locate layer.index = .ok id) {file : Bytes}
  (fileIs : blobFile r serve src layer = some file) :
  ∃ temps cache, (blob r disk serve src k ⟨.empty, []⟩).1 = ⟨temps, cache⟩ ∧ temps.slots = .empty ∧
   look id.digest.hex cache = some ⟨file, disk.now⟩ := by
 obtain ⟨id₁, file₁, offset, covered⟩ := passed.covers carries
 cases located.symm.trans covered.located
 cases fileIs.symm.trans covered.fileIs
 have fits : ¬ (src.cacheSize < 0 ∨ src.cacheSize < size file) := by
  rw [room, not_or]
  exact ⟨by decide, Int64.not_lt.mpr (Int64.le_maxValue _)⟩
 have kept := @prune_keeps disk src.cacheSize id.digest.hex
  (put id.digest.hex ⟨file, disk.now⟩ [])
 have done := @prune_fine disk fine src.cacheSize id.digest.hex
  (put id.digest.hex ⟨file, disk.now⟩ [])
 rw [blob_eq passed carries covered,
  materialize_empty fine located, fill_fine fine (covered.extracts small), settle,
   if_neg fits, fine]
 rcases pruned : prune disk src.cacheSize id.digest.hex (put id.digest.hex ⟨file, disk.now⟩ [])
  with ⟨cache, result⟩
 rw [pruned] at kept done
 subst done
 exact ⟨_, cache, rfl, rfl, kept.trans look_put⟩

theorem blob_hits (passed : Passed r serve src) (fine : disk.Fine)
  (carries : Carries src layer k c) (located : src.locate layer.index = .ok id) {temps : Temps}
  (none_kept : temps.slots = .empty) {cache : Cache} {f : CacheFile}
  (found : look id.digest.hex cache = some f) (right : size f.content = layer.storedBytes)
  {offset : Int64} (offsetIs : (computeLayout src.table).offsets[k]? = some offset) {bytes : Bytes}
  (answer : (blob r disk serve src k ⟨temps, cache⟩).2 = .ok bytes) :
  bytes = slice f.content offset c := by
 obtain ⟨id₁, file, offset₁, covered⟩ := passed.covers carries
 cases offsetIs.symm.trans covered.offsetIs
 have hit : materialize disk src layer.index layer.storedBytes (src.extracted r serve layer c)
   ⟨temps, cache⟩ =
    (⟨temps, put id.digest.hex { f with modTime := disk.now } cache⟩,
     .ok (.cached id.digest.hex)) := by
  have absent : look layer.index temps.slots.held = none := by rw [none_kept]; rfl
  simp [materialize, absent, fromImage, fromCache, located, fine _, found, right]
 rw [blob_eq passed carries covered, hit] at answer
 simp only [State.content, look_put, Option.map_some] at answer
 exact readChunk_ok answer

end Stock

def reads (r : Readers) (serve : Int → Except Str ByteStream) (src : Source) :
  List (Disk × Int) → State → List (Int × Except BlobError Bytes)
 | [], _ => []
 | (disk, i) :: rest, s =>
  (i, (blob r disk serve src i s).2) :: reads r serve src rest (blob r disk serve src i s).1

/-- Whatever the cache may hold and whatever is read in which order, every chunk of the table comes
back with its stored digest. -/
def ReadsVerified (r : Readers) (serve : Int → Except Str ByteStream) (src : Source) : Prop :=
 ∀ cacheSize calls, (∀ call ∈ calls, call.1.Fine) →
  ∀ read ∈ reads r serve { src with cacheSize := cacheSize } calls ⟨.empty, []⟩,
   ∀ c, rowAt src.table read.1 = some c →
    ∃ bytes, read.2 = .ok bytes ∧ digestText bytes = c.ss

theorem Passed.resize (passed : Passed r serve src) (cacheSize : Int64) :
  Passed r serve { src with cacheSize := cacheSize } := by
 refine ⟨passed.accepted, ?_⟩
 intro layer member
 obtain ⟨id, raw, decoded, first, e, checked⟩ := passed.checked layer member
 exact ⟨id, raw, decoded, first, e, { checked with }⟩

theorem reads_verified (passed : Passed r serve src) (inter : Interchangeable r serve src)
  {calls : List (Disk × Int)} (fine : ∀ call ∈ calls, call.1.Fine) {s : State}
  (stocked : Stocked r serve src s) :
  ∀ read ∈ reads r serve src calls s, ∀ c, rowAt src.table read.1 = some c →
   ∃ bytes, read.2 = .ok bytes ∧ digestText bytes = c.ss := by
 induction calls generalizing s with
 | nil => simp [reads]
 | cons call rest ih =>
  intro read member c row
  rcases List.mem_cons.mp member with rfl | later
  · obtain ⟨k, index, row⟩ := exists_of_rowAt row
    have answer := blob_verified passed inter (fine call List.mem_cons_self) stocked row
    simp only at index ⊢
    rw [index]
    exact answer
  · exact ih (fun call member => fine call (List.mem_cons_of_mem _ member))
     (stocked_blob passed stocked)
     read later c row

theorem bounded_of_readsVerified (passed : Passed r serve src)
  (verified : ReadsVerified r serve src)
  {layer : LayerInfo} (member : layer ∈ src.manifest.layers) : 0 < layer.storedBytes + 1 := by
 obtain ⟨k, c, carries⟩ := passed.first_row member
 obtain ⟨bytes, answer, -⟩ := verified 0 [(Disk.sound 0, k)] (by simp [Disk.Fine, Disk.sound])
  _ List.mem_cons_self c (by rw [rowAt_natCast]; exact carries.row)
 have fine : (Disk.sound 0).Fine := fun _ => rfl
 exact bounded_of_blob (passed.resize 0) fine { carries with } answer

/-- A passing verification covers what is read exactly when files that share a name in the cache
are interchangeable. -/
theorem verified_reads_iff (r : Readers) (serve : Int → Except Str ByteStream) (src : Source)
  (keepGoing : Bool) (watch : Watch) (byIndex : SliceSort LayerInfo fun a b => a.index < b.index)
  (report : StoredReport)
  (passed : verifyStored r keepGoing watch serve src byIndex = (report, none)) :
  ReadsVerified r serve src ↔ Interchangeable r serve src := by
 obtain ⟨accepted, checked⟩ := verifyStored_ok passed
 have passed : Passed r serve src := ⟨accepted, checked⟩
 constructor
 · intro verified
   have bounded : ∀ layer ∈ src.manifest.layers, 0 < layer.storedBytes + 1 :=
    fun layer member => bounded_of_readsVerified passed verified member
   refine ⟨bounded, ?_⟩
   intro layer member other known id otherId file located otherLocated hex stored fileIs k c offset
    holds row offsetIs
   -- the other layer is read first, and its file answers the call for this one
   obtain ⟨k₁, c₁, carries₁⟩ := passed.first_row known
   have resized := passed.resize Int64.maxValue
   have fine : (Disk.sound 0).Fine := fun _ => rfl
   obtain ⟨temps, cache, left, none_kept, found⟩ := blob_caches resized fine rfl { carries₁ with }
    (bounded other known) otherLocated fileIs
   have second := verified Int64.maxValue [(Disk.sound 0, k₁), (Disk.sound 0, k)]
    (by simp [Disk.Fine, Disk.sound])
    _ (List.mem_cons_of_mem _ List.mem_cons_self) c (by rw [rowAt_natCast]; exact row)
   obtain ⟨bytes, answer, digest⟩ := second
   rw [left] at answer
   rw [hex] at found
   have right : size file = layer.storedBytes :=
    (size_eq (passed.file_length known fileIs)).trans stored
   rw [← blob_hits resized fine ⟨member, holds, row⟩ located none_kept found right offsetIs answer]
   exact digest
 · intro inter cacheSize calls fine
   have resized : Interchangeable r serve { src with cacheSize := cacheSize } := { inter with }
   exact reads_verified (passed.resize cacheSize) resized fine stocked_empty

def byteEntry (name : Str) (b : UInt8) : Entry where
 toHeader := { (default : Go.Tar.Header) with name := name, size := 1 }
 content := [b]
 fault := none
 short := le_of_eq rfl
 whole _ := rfl

def lettered : Readers where
 newReader _ s := .ok s
 untar s := ⟨([lit "a", lit "b"].zip s.bytes).map fun file => byteEntry file.1 file.2, s.fault⟩
 clean s _ e member _ := by
  obtain ⟨file, -, rfl⟩ := List.mem_map.mp member
  rfl

def filesOf (bytes : Bytes) : Source where
 layers := .ok ([[], [], bytes].map fun content =>
  ⟨.ok ⟨lit "sha256", hexEncode (sum256 content)⟩, .error []⟩)
 daemon := false
 cacheSize := 1024
 manifest :=
  { (default : Manifest) with
    archive := { (default : ArchiveInfo) with compression := lit "store" }
    chunking := { (default : ChunkingInfo) with count := bytes.length }
    layers := bytes.zipIdx.map fun b => ⟨0, digestText [b.1], b.2, b.2, 1⟩ }
 table := ⟨1, (([lit "a", lit "b"].zip bytes).zipIdx).map fun file =>
  ⟨file.2, file.1.1, [], digestText [file.1.2], 1, 1⟩⟩

def inOrder : SliceSort LayerInfo fun a b => a.index < b.index := SliceSort.byKey LayerInfo.index

def patient : Watch := ⟨fun _ => none, fun _ => none⟩

def published (bytes : Bytes) : Int → Except Str ByteStream := fun _ => .ok ⟨bytes, none⟩

/-- A layer is one file, called by its length. -/
def packedTar (s : ByteStream) : Tar :=
 CacheContents.soleTar (if s.bytes.length = 1 then lit "b" else lit "a") s

def packed : Readers where
 newReader _ s := .ok s
 untar := packedTar
 clean s _ e member _ := by
  unfold packedTar at member
  exact (CacheContents.mem_soleTar member).2

def longLayer : LayerInfo := ⟨0, digestText [1, 2], 0, 1, 2⟩

def shortLayer : LayerInfo := ⟨1, digestText [3], 2, 2, 1⟩

def twoLayers : Source where
 __ := filesOf []
 layers := .ok ([[], [], [1, 2], [3]].map fun content =>
  ⟨.ok ⟨lit "sha256", hexEncode (sum256 content)⟩, .error []⟩)
 manifest :=
  { (filesOf []).manifest with
    chunking := { (default : ChunkingInfo) with count := 3 }
    layers := [longLayer, shortLayer] }
 table := ⟨1, [⟨0, lit "a", [], digestText [1], 1, 1⟩, ⟨1, lit "a", [], digestText [2], 1, 1⟩,
  ⟨2, lit "b", [], digestText [3], 1, 1⟩]⟩

def served (dataLayer : Int) : Except Str ByteStream :=
 .ok ⟨if dataLayer = 0 then [1, 2] else [3], none⟩

theorem two_layers_read_as_verified : verifyStored packed false patient served twoLayers inOrder =
    (⟨2, 3, 3, true, []⟩, none) ∧ ReadsVerified packed served twoLayers := by
 have passed : verifyStored packed false patient served twoLayers inOrder =
   (⟨2, 3, 3, true, []⟩, none) := by
  decide +kernel
 have long : blobFile packed served twoLayers longLayer = some [1, 2] := by decide +kernel
 have short : blobFile packed served twoLayers shortLayer = some [3] := by decide +kernel
 refine ⟨passed, (verified_reads_iff packed served twoLayers false patient inOrder _ passed).mpr
  ⟨?_, ?_⟩⟩
 · intro layer member
   rcases List.mem_pair.mp member with rfl | rfl <;> decide
 · intro layer member other known id otherId file _ _ _ stored fileIs k c offset holds row offsetIs
   -- the layers differ in size, so the file is that of the layer itself
   rcases List.mem_pair.mp member with rfl | rfl <;> rcases List.mem_pair.mp known with rfl | rfl
   · cases fileIs.symm.trans long
     obtain rfl | rfl : k = 0 ∨ k = 1 := by
      have last : (k : Int) ≤ 1 := holds.2
      omega
     all_goals
      cases row
      cases offsetIs
      decide +kernel
   · cases stored
   · cases stored
   · cases fileIs.symm.trans short
     obtain rfl : k = 2 := by
      have first : (2 : Int) ≤ k := holds.1
      have last : (k : Int) ≤ 2 := holds.2
      omega
     cases row
     cases offsetIs
     decide +kernel

/-- One layer of the image holds two files of one byte. Both are verified; but the file unpacked for
the first chunk has the name and the size that are expected for the second. -/
theorem second_file_read_from_first :
  verifyStored lettered false patient (published [1, 2]) (filesOf [1, 2]) inOrder =
    (⟨2, 2, 2, true, []⟩, none) ∧
   reads lettered (published [1, 2]) (filesOf [1, 2]) [(Disk.sound 0, 0), (Disk.sound 1, 1)]
    ⟨.empty, []⟩ = [(0, .ok [1]), (1, .ok [1])] ∧
   ¬ ReadsVerified lettered (published [1, 2]) (filesOf [1, 2]) := by
 have answers : reads lettered (published [1, 2]) (filesOf [1, 2])
   [(Disk.sound 0, 0), (Disk.sound 1, 1)] ⟨.empty, []⟩ = [(0, .ok [1]), (1, .ok [1])] := by
  decide +kernel
 refine ⟨by decide +kernel, answers, ?_⟩
 intro verified
 have there : (1, .ok [1]) ∈ reads lettered (published [1, 2]) (filesOf [1, 2])
   [(Disk.sound 0, 0), (Disk.sound 1, 1)] ⟨.empty, []⟩ := by
  rw [answers]
  exact List.mem_cons_of_mem _ List.mem_cons_self
 obtain ⟨bytes, same, digest⟩ := verified 1024 _ (by simp [Disk.Fine, Disk.sound]) _ there
  ⟨1, lit "b", [], digestText [2], 1, 1⟩ rfl
 cases same
 exact absurd digest (by decide +kernel)

end BackImage.Restore.VerifiedReads
