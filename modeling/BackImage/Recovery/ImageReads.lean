/- source: pkg/recovery/recovery.go, pkg/recovery/partial.go
  digest: Every chunk of an image is read as it was stored, and every way of reading a backup
    follows from that. -/

import BackImage.Index.CutTables
import BackImage.Recovery.SelectedRestore
import BackImage.Recovery.Verify

namespace BackImage.Recovery.ImageReads

open Chunk.Boundary Crypt.Envelope Go.Sha256 Go.Text Index.CutTables Index.Limits
open Index.Model Lib.Wrap
open ChunkLayout RangeWalk SelectedRanges SelectedRestore SelectedTar
open StreamTar Unlock Verify
open Go.Tar (trailer)
open Lib.Cut (start flatten_get_iff)
open Lib.Reading (Script)

variable {pk : Packages} {b : Backup} {groups : List (List StoredChunk)}

section Intact

variable {data : List Bytes}

theorem loads_of_intact {i : Nat} {c : Chunk} {p : Bytes} (at_i : b.table.chunks[i]? = some c)
  (intact : Intact pk b i c p) (verify : Bool) : plainChunkBytes pk b i verify = .ok p := by
 obtain ⟨payload, codec, d, fetched, made, content, last, closed⟩ := intact.opened
 have copied :=
  ((limited_copy_iff at_i d.body (fun _ => Nat.one_pos) p).mpr ⟨content, last, intact.size⟩).1
 rw [Lib.Reading.Reader.copy_eq _ (fun _ => Nat.one_pos), Prod.mk.injEq] at copied
 have read : (plainReader b i).readAll ⟨d.body, 0⟩ = .ok p := by
  rw [Lib.Reading.Reader.readAll_eq, copied.2, copied.1]
 unfold plainChunkBytes
 simp only [fetched, made, read, closed, at_i]
 rw [if_neg (not_not.mpr intact.size), if_neg (by simp [intact.digest])]

/-- Whichever way the backup is read, these chunks come back: as one stream, by ranges of it, with
damage tolerated, or only compared with the digests. -/
structure Restores (pk : Packages) (b : Backup) (data : List Bytes) : Prop where
 whole : ∀ (run : Schedule) (verify : Bool), (∀ i, run.cancelled i = none) →
  streamTar pk run b verify = (data.flatten, .ok ())
 selected : ∀ (idx : FileIndex) (entries : List FileEntry) (verify : Bool),
  Ranged (contentLength data.flatten) idx.entries →
  streamSelectedTar pk b (some idx) entries verify =
   (selectedBytes data.flatten (selectionSet idx entries) idx.entries ++ trailer, .ok ())
 salvaged : ∀ (run : Schedule) (idx : FileIndex) (entries : List FileEntry) (verify : Bool),
  (∀ i, run.cancelled i = none) → Ranged (contentLength data.flatten) idx.entries →
  ∃ report, streamSelectedTarPartial pk run b (some idx) entries verify =
   (selectedBytes data.flatten (selectionSet idx entries) idx.entries ++ trailer, report, .ok ())
 verified : ∀ (run : Schedule) (full keepGoing : Bool),
  (full = true → ∃ idx, b.index pk = .ok idx) →
  (verify pk run b full keepGoing).2 = .ok ()

theorem restores_of_intact (laid : Laid b data)
  (intact : ∀ (i : Nat) c p, b.table.chunks[i]? = some c → data[i]? = some p → Intact pk b i c p) :
  Restores pk b data := by
 have row : ∀ (i : Nat) (p : Bytes), data[i]? = some p → ∃ c, b.table.chunks[i]? = some c := by
  intro i p at_i
  have inside := (List.getElem?_eq_some_iff.mp at_i).1
  rw [← laid.length_eq] at inside
  exact ⟨_, List.getElem?_eq_getElem inside⟩
 have plain : ∀ (i : Nat) (c : Chunk), b.table.chunks[i]? = some c → ∃ p, data[i]? = some p := by
  intro i c at_i
  have inside := (List.getElem?_eq_some_iff.mp at_i).1
  rw [laid.length_eq] at inside
  exact ⟨_, List.getElem?_eq_getElem inside⟩
 have loads : ∀ (verify : Bool) (i : Nat) (p : Bytes), data[i]? = some p →
   plainChunkBytes pk b i verify = .ok p := by
  intro verify i p at_p
  obtain ⟨c, at_i⟩ := row i p at_p
  exact loads_of_intact at_i (intact i c p at_i at_p) verify
 refine ⟨?_, ?_, ?_, ?_⟩
 · intro run verify calm
   exact streamTar_ok calm laid (loads _)
 · intro idx entries verify ranged
   exact streamSelectedTar_ok laid ranged fun i p _ at_p => loads _ i p at_p
 · intro run idx entries verify calm ranged
   exact streamSelectedTarPartial_ok calm laid ranged fun i p _ at_p => loads _ i p at_p
 · intro run full keepGoing index
   refine verify_ok_iff.mpr ⟨?_, index⟩
   intro i c at_i
   obtain ⟨p, at_p⟩ := plain i c at_i
   rw [Nat.zero_add]
   have none_found : chunkFault pk run b true i c = none :=
    (chunkFault_none_iff at_i).mpr ⟨p, intact i c p at_i at_p⟩
   unfold chunkFault at none_found ⊢
   rw [storedFault_none_iff.mpr (intact i c p at_i at_p).stored] at none_found ⊢
   cases full with
   | true => exact none_found
   | false => rfl

end Intact

/-- A file that holds the content: it says no other size, and a seek leads into it. -/
structure Holding (f : OpenFile) (content : Bytes) : Prop where
 body : f.body.content = content
 size : ∀ held, f.size = some held → held = Int64.ofNat content.length
 seek : ∀ offset body, f.seek offset = some body → body.content = content.drop offset.toNatClampNeg

/-- A backend with the layers of a cut, as files or chunk by chunk. -/
def Serves (groups : List (List StoredChunk)) : Backend → Prop
 | .source s => ∀ g ∈ groups, ∃ f, s.openFile (layerPath g) = .ok f ∧ Holding f (layerContent g)
 | .blobs s => ∀ i c, groups.flatten[i]? = some c → s.blob i = .ok c.stored

/-- The backup reads an image of the cut: its rows are complete, its offsets those of the rows, and
no two layers share a path. -/
structure Image (b : Backup) (groups : List (List StoredChunk)) : Prop where
 rows : b.table.chunks = groups.flatMap layerRows
 layout : b.layout = computeLayout b.table
 solid : ∀ g ∈ groups, g ≠ []
 paths : (groups.map layerPath).Nodup
 fits : ((layerContent groups.flatten).length : Int) < bound
 serves : Serves groups b.backend

theorem skipTo_held {f : OpenFile} {content : Bytes} (holding : Holding f content) {offset : Int64}
  (nonneg : 0 ≤ offset) (within : offset.toNatClampNeg ≤ content.length) :
  ∃ body, skipTo f offset = .ok body ∧ body.content = content.drop offset.toNatClampNeg := by
 unfold skipTo
 by_cases zero : offset = 0
 · refine ⟨f.body, if_pos zero, ?_⟩
   rw [holding.body, zero]
   rfl
 · rw [if_neg zero]
   cases sought : f.seek offset with
   | some body => exact ⟨body, rfl, holding.seek offset body sought⟩
   | none =>
    rw [← holding.body] at within ⊢
    simp only [if_neg (Int64.not_lt.mpr nonneg)]
    exact Script.discard_content within

section Stored

variable {g : List StoredChunk} {c : StoredChunk} {i j r : Nat}

theorem layerContent_split (at_r : g[r]? = some c) :
  layerContent g = layerContent (g.take r) ++ (c.stored ++ layerContent (g.drop (r + 1))) := by
 obtain ⟨inside, value⟩ := List.getElem?_eq_some_iff.mp at_r
 have split : g = g.take r ++ c :: g.drop (r + 1) := by
  rw [← value, ← List.drop_eq_getElem_cons inside, List.take_append_drop]
 conv_lhs => rw [split, layerContent_append]
 rfl

theorem onePath_layerRows (solid : ∀ g ∈ groups, g ≠ []) :
  ∀ rows ∈ groups.map layerRows, ∀ row ∈ rows, row.p = pathOf rows := by
 intro rows member row inside
 obtain ⟨g, listed, rfl⟩ := List.mem_map.mp member
 obtain ⟨s, -, rfl⟩ := List.mem_map.mp inside
 obtain ⟨first, rest, rfl⟩ := List.exists_cons_of_ne_nil (solid g listed)
 rfl

theorem pathOf_layerRows (solid : ∀ g ∈ groups, g ≠ []) :
  (groups.map layerRows).map pathOf = groups.map layerPath := by
 rw [List.map_map]
 apply List.map_congr_left
 intro g listed
 obtain ⟨first, rest, rfl⟩ := List.exists_cons_of_ne_nil (solid g listed)
 rfl

variable (image : Image b groups)

include image

theorem Image.content_fits (at_j : groups[j]? = some g) :
  ((layerContent g).length : Int) < bound := by
 obtain ⟨before, after, split, -⟩ := Lib.Cut.flatten_eq_append at_j
 have fits := image.fits
 rw [split, layerContent_append, layerContent_append, List.length_append,
  List.length_append] at fits
 omega

/-- A chunk of the cut has its row in the table, and the bytes before it in its layer as its
offset. -/
theorem Image.row (at_i : groups.flatten[i]? = some c) : ∃ (j r : Nat) (g : List StoredChunk),
   groups[j]? = some g ∧ g[r]? = some c ∧
   b.table.chunks[i]? = some (rowOf (layerPath g) c) ∧
   b.layout.offsets.getD i 0 = layerSize (g.take r) := by
 obtain ⟨j, r, g, at_j, at_r, rfl⟩ := flatten_get_iff.mp at_i
 have at_j' : (groups.map layerRows)[j]? = some (layerRows g) := by
  rw [List.getElem?_map, at_j]
  rfl
 have at_r' : (layerRows g)[r]? = some (rowOf (layerPath g) c) := by
  rw [layerRows, List.getElem?_map, at_r]
  rfl
 have starts : start (groups.map layerRows) j = start groups j := by
  simp only [start, ← List.map_take, List.map_map]
  congr 1
  exact List.map_congr_left fun g _ => List.length_map _
 have table : b.table.chunks = (groups.map layerRows).flatten := by
  rw [image.rows, List.flatMap_def]
 have offset := offset_in_group (onePath_layerRows image.solid)
  (by rw [pathOf_layerRows image.solid]; exact image.paths) at_j' at_r'
 rw [← table, starts] at offset
 refine ⟨j, r, g, at_j, at_r, ?_, ?_⟩
 · rw [table]
   exact flatten_get_iff.mpr ⟨j, r, layerRows g, at_j', at_r', by rw [starts]⟩
 · rw [image.layout, computeLayout, List.getD_eq_getElem?_getD, offset, Option.getD_some, layerRows,
    ← List.map_take,
    List.map_map]
   rfl

theorem Image.storedChunk (at_i : groups.flatten[i]? = some c) :
  storedChunk b i = .ok c.stored := by
 obtain ⟨j, r, g, at_j, at_r, row, offsetIs⟩ := image.row at_i
 have fits := image.content_fits at_j
 have split := layerContent_split at_r
 have total : (layerContent g).length = (layerContent (g.take r)).length + (c.stored.length +
   (layerContent (g.drop (r + 1))).length) := by
  rw [split, List.length_append, List.length_append]
 have size : c.size.toInt = c.stored.length := size_toInt fits (List.mem_of_getElem? at_r)
 have before := layerSize_toInt (g := g.take r) (by omega)
 have serves := image.serves
 unfold StreamTar.storedChunk
 rw [row]
 dsimp only
 unfold storedChunkAt
 cases backend : b.backend with
 | blobs s =>
  -- a blob source hands out the chunk itself, and only its size is compared
  rw [backend] at serves
  simp only [serves i c at_i]
  exact if_neg (not_not.mpr size.symm)
 | source s =>
  -- a layer file is passed over up to the chunk, then read for its size
  rw [backend] at serves
  obtain ⟨f, opened, holding⟩ := serves g (List.mem_of_getElem? at_j)
  have clamp : (layerSize (g.take r)).toNatClampNeg = (layerContent (g.take r)).length := by
   change (layerSize (g.take r)).toInt.toNat = _
   omega
  have length : c.size.toNatClampNeg = c.stored.length := by
   change c.size.toInt.toNat = _
   omega
  have nonneg : 0 ≤ layerSize (g.take r) := by
   rw [Int64.le_iff_toInt_le, before]
   exact Int.natCast_nonneg _
  obtain ⟨body, skipped, rest⟩ := skipTo_held holding nonneg (by omega)
  have filled : Script.reader.fill c.size.toNatClampNeg body = (c.stored, none) := by
   rw [Lib.Reading.Reader.fill_eq]
   change (body.content.take _, if _ ≤ body.content.length then none else _) = _
   rw [rest, clamp, length, split, List.drop_left, List.take_left, if_pos (by simp)]
  have opened' : s.openFile (rowOf (layerPath g) c).p = .ok f := opened
  have filled' : Script.reader.fill (rowOf (layerPath g) c).sb.toNatClampNeg body =
   (c.stored, none) := filled
  simp only [opened', offsetIs, skipped, filled']
  cases said : f.size with
  | none => rfl
  | some held =>
   refine if_neg ?_
   rw [holding.size held said]
   have sum : (layerSize (g.take r) + c.size).toInt = (layerSize (g.take r)).toInt +
     c.size.toInt := by
    apply toInt_add_of_fits
    constructor <;> unfold bound at * <;> omega
   change ¬ Int64.ofNat (layerContent g).length < layerSize (g.take r) + c.size
   rw [Int64.lt_iff_toInt_lt, toInt_ofNat_of_lt fits, sum]
   omega

end Stored

/-- The chunk carries the digest and the size of its data. -/
structure Genuine (ck : PlainChunk) : Prop where
 digest : ck.plainSHA = sum256 ck.data
 size : ck.plainBytes = Int64.ofNat ck.data.length

theorem genuine_number (i : Nat) (data : List Bytes) : ∀ ck ∈ number i data, Genuine ck := by
 induction data generalizing i with
 | nil => simp [number]
 | cons d rest ih =>
  intro ck member
  rcases List.mem_cons.mp member with rfl | later
  · exact ⟨rfl, rfl⟩
  · exact ih (i + 1) ck later

/-- The compressed data of every chunk decompresses to the chunk. -/
def Undoes (pk : Packages) (codec : Codec) (compress : Nat → Bytes → Except Str Bytes) : Prop :=
 ∀ i data compressed, compress i data = .ok compressed →
  ∃ d, pk.newReader codec compressed = .ok d ∧ d.body.content = data ∧ d.body.last = .eof ∧
   d.closeErr = none

theorem digestMatches_sum256 (msg : Bytes) :
  digestMatches (lit "sha256:" ++ hexEncode (sum256 msg)) (sum256 msg) = true := by
 unfold digestMatches
 rw [trimPrefix_append]
 exact decide_eq_true rfl

section Restored

variable {store : Store} {codec : Codec} (genuine : ∀ c ∈ groups.flatten, Genuine c.plain)
 (small : (((groups.flatten.map fun c => c.plain.data).flatten).length : Int) < bound)

include genuine small

theorem plainBytes_toInt {c : StoredChunk} (member : c ∈ groups.flatten) :
  c.plain.plainBytes.toInt = c.plain.data.length := by
 have listed : c.plain.data ∈ groups.flatten.map fun c => c.plain.data :=
  List.mem_map.mpr ⟨c, member, rfl⟩
 have part := (List.sublist_flatten_of_mem listed).length_le
 rw [(genuine c member).size, toInt_ofNat_of_lt (by omega)]

theorem Image.laid (image : Image b groups) :
  Laid b (groups.flatten.map fun c => c.plain.data) where
 layout := image.layout
 sizes := by
  rw [image.rows, List.map_flatMap, List.map_map, List.map_flatten, List.flatMap_def]
  congr 1
  refine List.map_congr_left fun g listed => ?_
  rw [layerRows, List.map_map]
  refine List.map_congr_left fun c inside => ?_
  exact plainBytes_toInt genuine small (List.mem_flatten.mpr ⟨g, listed, inside⟩)
 small := small

/-- Where every chunk of the image opens to what was compressed, the chunks that were stored come
back. -/
theorem Image.restores (image : Image b groups)
  (stored : ∀ c ∈ groups.flatten, storedOf store c.plain = .ok c.stored)
  (undoes : Undoes pk codec store.compress) (opens : ∀ i c compressed, groups.flatten[i]? = some c →
   store.compress c.plain.index c.plain.data = .ok compressed →
   plainChunkPayload pk b i = .ok (compressed, codec)) : Restores pk b
    (groups.flatten.map fun c => c.plain.data) := by
 refine restores_of_intact (image.laid genuine small) ?_
 intro i row p at_row at_p
 rw [List.getElem?_map] at at_p
 obtain ⟨c, at_i, rfl⟩ := Option.map_eq_some_iff.mp at_p
 obtain ⟨j, r, g, -, -, rowIs, -⟩ := image.row at_i
 rw [rowIs] at at_row
 cases at_row
 have member := List.mem_of_getElem? at_i
 have storedIs := stored c member
 refine ⟨⟨c.stored, image.storedChunk at_i, digestMatches_sum256 c.stored⟩, ?_, ?_, ?_⟩
 · unfold storedOf at storedIs
   cases squeezed : store.compress c.plain.index c.plain.data with
   | error e => simp [squeezed] at storedIs
   | ok compressed =>
    obtain ⟨d, made, content, last, closed⟩ := undoes _ _ _ squeezed
    exact ⟨compressed, codec, d, opens i c compressed at_i squeezed, made, content, last, closed⟩
 · exact (plainBytes_toInt genuine small member).symm
 · change digestMatches (lit "sha256:" ++ hexEncode c.plain.plainSHA) _ = true
   rw [(genuine c member).digest]
   exact digestMatches_sum256 c.plain.data

end Restored

end BackImage.Recovery.ImageReads
