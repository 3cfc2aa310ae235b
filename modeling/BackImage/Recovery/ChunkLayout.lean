/- source: pkg/recovery/recovery.go, pkg/restore/source.go
  digest: Offsets of chunks inside their layer blobs, and when an accepted table is sound. -/

import BackImage.Index.Limits

namespace BackImage.Recovery.ChunkLayout

open Index.Limits Index.Model Lib.Wrap
open Go.Text (Str lit)
open Lib.Cut (start start_succ existsUnique_group flatten_eq_append)

structure Layout where
 offsets : List Int64
 prefixSum : List Int64
 deriving DecidableEq

def layoutOffsets : (Str → Int64) → List Chunk → List Int64
 | _, [] => []
 | byPath, c :: rest =>
  byPath c.p :: layoutOffsets (Function.update byPath c.p (byPath c.p + c.sb)) rest

def layoutPrefix : Int64 → List Chunk → List Int64
 | sum, [] => [sum]
 | sum, c :: rest => sum :: layoutPrefix (sum + c.pb) rest

def computeLayout (t : ChunkTable) : Layout :=
 ⟨layoutOffsets (fun _ => 0) t.chunks, layoutPrefix 0 t.chunks⟩

theorem layoutOffsets_get {byPath : Str → Int64} {rows : List Chunk} {k : Nat} {c : Chunk}
  (row : rows[k]? = some c) :
  (layoutOffsets byPath rows)[k]? =
   some (wrapSum (byPath c.p) (((rows.take k).filter (·.p = c.p)).map Chunk.sb)) := by
 induction rows generalizing byPath k with
 | nil => simp at row
 | cons d rest ih =>
  cases k with
  | zero =>
   have same : d = c := by simpa using row
   simp [layoutOffsets, same]
  | succ k =>
   have later : rest[k]? = some c := by simpa using row
   rw [layoutOffsets, List.getElem?_cons_succ, ih later]
   by_cases same : d.p = c.p
   · simp [same]
   · simp [same, Function.update_of_ne (Ne.symm same)]

def layerSum (t : ChunkTable) (layer : LayerInfo) : Int :=
 exactSum ((rowsOf t.chunks layer).map Chunk.sb)

/-- Position `k` lies in the chunk range of the layer. -/
def Holds (layer : LayerInfo) (k : Nat) : Prop := layer.chunkFrom ≤ k ∧ k ≤ layer.chunkTo

/-- What a reader that seeks and allocates from the table relies on, with every sum and
every bound taken over the integers. -/
structure Sound (m : Manifest) (t : ChunkTable) : Prop where
 oneLayer : ∀ k < t.chunks.length, ∃! j : Nat, ∃ layer, m.layers[j]? = some layer ∧ Holds layer k
 storedSum : ∀ layer ∈ m.layers, layerSum t layer = layer.storedBytes.toInt
 offsets : ∀ k c offset, t.chunks[k]? = some c → (computeLayout t).offsets[k]? = some offset →
  ∀ layer ∈ m.layers, Holds layer k →
   0 ≤ offset.toInt ∧ offset.toInt + c.sb.toInt ≤ layer.storedBytes.toInt
 allowance : 0 < maxPlainChunkBytes m → ∀ c ∈ t.chunks,
  c.sb.toInt ≤ (maxPlainChunkBytes m).toInt + (maxPlainChunkBytes m).toInt / 64 + 4096

/-- No layer's sizes add up past the largest `int64`, and an empty table comes with layers
that declare no bytes. -/
def SumsFit (m : Manifest) (t : ChunkTable) : Prop :=
 (∀ layer ∈ m.layers, layerSum t layer < bound) ∧
  (t.chunks = [] → ∀ layer ∈ m.layers, layer.storedBytes = 0)

private theorem toInt_pos {a : Int64} (positive : 0 < a) : 0 < a.toInt := by
 simpa [Int64.lt_iff_toInt_lt] using positive

variable {m : Manifest}

theorem le_allowance {sb : Int64} (declared : 0 < maxPlainChunkBytes m)
  (under : 0 < maxStoredChunkBytes m → sb ≤ maxStoredChunkBytes m) :
  sb.toInt ≤ (maxPlainChunkBytes m).toInt + (maxPlainChunkBytes m).toInt / 64 + 4096 := by
 generalize plainIs : maxPlainChunkBytes m = plain at declared ⊢
 have stored : maxStoredChunkBytes m = plain + plain / expansionDenominator + expansionFloor := by
  unfold maxPlainChunkBytes at plainIs
  unfold maxStoredChunkBytes
  by_cases larger : 0 < m.chunking.maxChunkBytes
  · rw [if_pos larger] at plainIs
    rw [if_neg (Int64.not_le.mpr larger), plainIs]
    exact if_neg (Int64.not_le.mpr declared)
  · rw [if_neg larger] at plainIs
    rw [if_pos (Int64.not_lt.mp larger), plainIs]
    exact if_neg (Int64.not_le.mpr declared)
 have positive := toInt_pos declared
 have quotient : (plain / expansionDenominator).toInt = plain.toInt / 64 := by
  rw [Int64.toInt_div_of_ne_right _ _ (by decide)]
  exact Int.tdiv_eq_ediv_of_nonneg positive.le
 have floor : expansionFloor.toInt = 4096 := by decide
 have sbBound := (toInt_fits sb).2
 have plainBound := (toInt_fits plain).2
 by_cases small : plain.toInt + plain.toInt / 64 + 4096 < bound
 · have first : (plain + plain / expansionDenominator).toInt = plain.toInt + plain.toInt / 64 := by
    rw [← quotient]
    apply toInt_add_of_fits
    rw [quotient]
    constructor <;> unfold bound at * <;> omega
   have exact : (maxStoredChunkBytes m).toInt = plain.toInt + plain.toInt / 64 + 4096 := by
    rw [stored, ← first, ← floor]
    apply toInt_add_of_fits
    rw [first, floor]
    constructor <;> unfold bound at * <;> omega
   have under := under (by
    rw [Int64.lt_iff_toInt_lt, exact]
    change (0 : Int) < _
    omega)
   rw [Int64.le_iff_toInt_le, exact] at under
   exact under
 · omega

section Tiled

variable {maxStored : Int64} {layers : List LayerInfo} {groups : List (List Chunk)}
 {next : Int}

theorem onePath_of_tiling (tiling : Tiling maxStored next layers groups) :
  ∀ g ∈ groups, ∀ c ∈ g, c.p = pathOf g := by
 intro g member
 obtain ⟨j, inside, rfl⟩ := List.getElem_of_mem member
 have inside' : j < layers.length := tiling.length_eq ▸ inside
 obtain ⟨h, at_j, placed⟩ := tiling.placed (List.getElem?_eq_getElem inside')
 rw [List.getElem?_eq_getElem inside] at at_j
 cases at_j
 exact placed.onePath

variable {g : List Chunk}

theorem filter_earlier_rows (onePath : ∀ g ∈ groups, ∀ c ∈ g, c.p = pathOf g)
  (nodup : (groups.map pathOf).Nodup) {j : Nat} (at_j : groups[j]? = some g) :
  (groups.take j).flatten.filter (·.p = pathOf g) = [] := by
 obtain ⟨inside, rfl⟩ := List.getElem?_eq_some_iff.mp at_j
 rw [← List.take_append_drop j groups, List.drop_eq_getElem_cons inside, List.map_append,
  List.map_cons] at nodup
 have fresh := (List.nodup_append.mp nodup).2.2
 apply List.filter_eq_nil_iff.mpr
 intro c member same
 obtain ⟨h, earlier, row⟩ := List.mem_flatten.mp member
 have path := onePath h (List.mem_of_mem_take earlier) c row
 refine fresh _ (List.mem_map.mpr ⟨h, earlier, rfl⟩) _ List.mem_cons_self ?_
 rw [← path, of_decide_eq_true same]

theorem Placed.exact_total {layer : LayerInfo} (placed : Placed maxStored next layer g)
  (positive : ∀ c ∈ g, 0 < c.sb) (fits : exactSum (g.map Chunk.sb) < bound) :
  exactSum (g.map Chunk.sb) = layer.storedBytes.toInt := by
 have nonneg : ∀ x ∈ g.map Chunk.sb, 0 ≤ x.toInt := by
  intro x member
  obtain ⟨c, row, rfl⟩ := List.mem_map.mp member
  exact (toInt_pos (positive c row)).le
 have start := Int64.toInt_zero
 rw [← placed.total, wrapSum_toInt (by rw [start]) nonneg (by rwa [start, Int.zero_add]), start,
  Int.zero_add]

theorem offset_in_group (onePath : ∀ g ∈ groups, ∀ c ∈ g, c.p = pathOf g)
  (nodup : (groups.map pathOf).Nodup) {j r : Nat} {c : Chunk} (at_j : groups[j]? = some g)
  (at_r : g[r]? = some c) :
  (layoutOffsets (fun _ => 0) groups.flatten)[start groups j + r]? =
   some (wrapSum 0 ((g.take r).map Chunk.sb)) := by
 obtain ⟨before, after, split, size, rfl, -⟩ := flatten_eq_append at_j
 have inside : r < g.length := (List.getElem?_eq_some_iff.mp at_r).1
 have member : g ∈ groups := List.mem_of_getElem? at_j
 have row : groups.flatten[start groups j + r]? = some c := by
  rw [split, ← size, List.append_assoc, List.getElem?_append_right (by omega)]
  rw [Nat.add_sub_cancel_left, List.getElem?_append_left inside]
  exact at_r
 have path : c.p = pathOf g := onePath g member c (List.mem_of_getElem? at_r)
 have own : (g.take r).filter (·.p = pathOf g) = g.take r := by
  apply List.filter_eq_self.mpr
  intro d earlier
  exact decide_eq_true (onePath g member d (List.mem_of_mem_take earlier))
 rw [layoutOffsets_get row, path, split, ← size, List.append_assoc, List.take_length_add_append,
  List.take_append_of_le_length inside.le, List.filter_append,
  filter_earlier_rows onePath nodup at_j, own, List.nil_append]

end Tiled

structure Tiled (m : Manifest) (t : ChunkTable) (groups : List (List Chunk)) : Prop where
 rows : ∀ k c, t.chunks[k]? = some c → RowAt k c
 split : t.chunks = groups.flatten
 tiling : Tiling (maxStoredChunkBytes m) 0 m.layers groups
 nodup : (groups.map pathOf).Nodup

namespace Tiled

variable {m : Manifest} {t : ChunkTable} {groups : List (List Chunk)}

theorem positive (tiled : Tiled m t groups) : ∀ g ∈ groups, ∀ c ∈ g, 0 < c.sb := by
 intro g member c row
 have inTable : c ∈ t.chunks := tiled.split ▸ List.mem_flatten.mpr ⟨g, member, row⟩
 obtain ⟨k, found⟩ := List.mem_iff_getElem?.mp inTable
 exact (tiled.rows k c found).positive

variable {j : Nat} {layer : LayerInfo}

theorem layer_rows (tiled : Tiled m t groups) (found : m.layers[j]? = some layer) :
  ∃ g, groups[j]? = some g ∧ Placed (maxStoredChunkBytes m) (start groups j) layer g ∧
   rowsOf t.chunks layer = g := by
 obtain ⟨g, at_j, placed⟩ := tiled.tiling.placed found
 rw [Int.zero_add] at placed
 obtain ⟨before, after, cut, size, -, -⟩ := flatten_eq_append at_j
 refine ⟨g, at_j, placed, ?_⟩
 rw [tiled.split, cut, List.append_assoc]
 exact rowsOf_append (by rw [size]; exact placed.starts) (by rw [size]; exact placed.ends)

theorem layerSum_eq (tiled : Tiled m t groups) (member : layer ∈ m.layers)
  (fits : layerSum t layer < bound) : layerSum t layer = layer.storedBytes.toInt := by
 obtain ⟨j, found⟩ := List.mem_iff_getElem?.mp member
 obtain ⟨g, at_j, placed, rowsIs⟩ := tiled.layer_rows found
 rw [layerSum, rowsIs] at fits ⊢
 exact Placed.exact_total placed (tiled.positive g (List.mem_of_getElem? at_j)) fits

variable {k : Nat}

section

variable (tiled : Tiled m t groups)

include tiled

theorem holds_iff (found : m.layers[j]? = some layer) :
  Holds layer k ↔ start groups j ≤ k ∧ k < start groups (j + 1) := by
 obtain ⟨g, at_j, placed, -⟩ := tiled.layer_rows found
 have starts := placed.starts
 have ends := placed.ends
 rw [start_succ at_j]
 unfold Holds
 omega

theorem oneLayer (inside : k < t.chunks.length) : ∃! j : Nat, ∃ layer, m.layers[j]? = some layer ∧
  Holds layer k := by
 rw [tiled.split] at inside
 obtain ⟨j, ⟨bound, low, high⟩, unique⟩ := existsUnique_group inside
 have short : j < m.layers.length := tiled.tiling.length_eq ▸ bound
 have found : m.layers[j]? = some m.layers[j] := List.getElem?_eq_getElem short
 refine ⟨j, ⟨_, found, (tiled.holds_iff found).mpr ⟨low, high⟩⟩, ?_⟩
 rintro i ⟨layer, found', holds⟩
 have inside' : i < m.layers.length := (List.getElem?_eq_some_iff.mp found').1
 exact unique i ⟨tiled.tiling.length_eq ▸ inside', (tiled.holds_iff found').mp holds⟩

theorem row_in_group {c : Chunk}
  (found : m.layers[j]? = some layer) (holds : Holds layer k) (row : t.chunks[k]? = some c) :
  ∃ (r : Nat) (g : List Chunk), groups[j]? = some g ∧
   Placed (maxStoredChunkBytes m) (start groups j) layer g ∧ rowsOf t.chunks layer = g ∧
   g[r]? = some c ∧ (computeLayout t).offsets[k]? = some (wrapSum 0 ((g.take r).map Chunk.sb)) := by
 obtain ⟨g, at_j, placed, rowsIs⟩ := tiled.layer_rows found
 obtain ⟨low, high⟩ := (tiled.holds_iff found).mp holds
 rw [start_succ at_j] at high
 obtain ⟨r, rfl⟩ := Nat.exists_eq_add_of_le low
 have inside : r < g.length := by omega
 have at_r : g[r]? = some c := by
  obtain ⟨before, after, cut, size, -, -⟩ := flatten_eq_append at_j
  rw [tiled.split, cut, ← size, List.append_assoc, List.getElem?_append_right (by omega),
   Nat.add_sub_cancel_left, List.getElem?_append_left inside] at row
  exact row
 refine ⟨r, g, at_j, placed, rowsIs, at_r, ?_⟩
 rw [computeLayout, tiled.split]
 exact offset_in_group (onePath_of_tiling tiled.tiling) tiled.nodup at_j at_r

theorem offset_bounds {c : Chunk} {offset : Int64}
  (row : t.chunks[k]? = some c) (offsetIs : (computeLayout t).offsets[k]? = some offset)
  (member : layer ∈ m.layers) (holds : Holds layer k) (fits : layerSum t layer < bound) :
  0 ≤ offset.toInt ∧ offset.toInt + c.sb.toInt ≤ layer.storedBytes.toInt := by
 obtain ⟨j, found⟩ := List.mem_iff_getElem?.mp member
 obtain ⟨r, g, at_j, placed, rowsIs, at_r, offsetAt⟩ := tiled.row_in_group found holds row
 have inside : r < g.length := (List.getElem?_eq_some_iff.mp at_r).1
 rw [offsetAt] at offsetIs
 cases offsetIs
 have inGroup := tiled.positive g (List.mem_of_getElem? at_j)
 have nonneg : ∀ h : List Chunk, (∀ d ∈ h, d ∈ g) → ∀ x ∈ h.map Chunk.sb, 0 ≤ x.toInt := by
  intro h part x mem
  obtain ⟨d, row, rfl⟩ := List.mem_map.mp mem
  exact (toInt_pos (inGroup d (part d row))).le
 -- the group is what precedes the row, the row, and what follows it
 have cut : g = g.take r ++ c :: g.drop (r + 1) := by
  obtain ⟨_, value⟩ := List.getElem?_eq_some_iff.mp at_r
  rw [← value, ← List.drop_eq_getElem_cons inside, List.take_append_drop]
 have sums := tiled.layerSum_eq member fits
 rw [layerSum, rowsIs, cut, List.map_append, List.map_cons, exactSum_append, exactSum_cons] at sums
 have earlier := nonneg (g.take r) fun d mem => List.mem_of_mem_take mem
 have lowEarlier := exactSum_nonneg earlier
 have lowLater := exactSum_nonneg (nonneg (g.drop (r + 1)) fun d mem => List.mem_of_mem_drop mem)
 have size := toInt_pos (inGroup c (List.mem_of_getElem? at_r))
 have small := (toInt_fits layer.storedBytes).2
 have zero := Int64.toInt_zero
 have offsetExact := @wrapSum_toInt 0 _ (by rw [zero]) earlier (by rw [zero]; omega)
 rw [offsetExact, zero]
 omega

theorem under_max (capped : 0 < maxStoredChunkBytes m) :
  ∀ c ∈ t.chunks, c.sb ≤ maxStoredChunkBytes m := by
 intro c member
 rw [tiled.split] at member
 obtain ⟨g, inGroups, row⟩ := List.mem_flatten.mp member
 obtain ⟨j, inside, rfl⟩ := List.getElem_of_mem inGroups
 have inside' : j < m.layers.length := tiled.tiling.length_eq ▸ inside
 obtain ⟨h, at_j, placed, -⟩ := tiled.layer_rows (List.getElem?_eq_getElem inside')
 rw [List.getElem?_eq_getElem inside] at at_j
 cases at_j
 exact placed.underMax capped c row

theorem sound (fits : SumsFit m t) : Sound m t where
 oneLayer _ inside := tiled.oneLayer inside
 storedSum layer member := tiled.layerSum_eq member (fits.1 layer member)
 offsets _ _ _ row offsetIs layer member holds :=
  tiled.offset_bounds row offsetIs member holds (fits.1 layer member)
 allowance declared c member :=
  le_allowance declared fun capped => tiled.under_max capped c member

end

end Tiled

private theorem sound_of_empty {t : ChunkTable} (empty : t.chunks = []) (fits : SumsFit m t) :
  Sound m t where
 oneLayer k inside := by simp [empty] at inside
 storedSum layer member := by simp [layerSum, rowsOf, empty, fits.2 empty layer member]
 offsets k c offset row := by simp [empty] at row
 allowance _ c member := by simp [empty] at member

/-- What an accepted table guarantees over the integers hinges on one thing: that no wrapping
sum of the validator went past the largest `int64`. -/
theorem validateChunkTable_sound_iff {t : ChunkTable}
  (accepted : validateChunkTable m t = .ok ()) : Sound m t ↔ SumsFit m t := by
 obtain ⟨-, rows, layers⟩ := validateChunkTable_ok_iff.mp accepted
 constructor
 · intro sound
   refine ⟨?_, ?_⟩
   · intro layer member
     rw [sound.storedSum layer member]
     exact (toInt_fits layer.storedBytes).2
   · intro empty layer member
     have sum := sound.storedSum layer member
     rw [layerSum, rowsOf, empty] at sum
     exact Int64.toInt_inj.mp (by simpa using sum.symm)
 · intro fits
   by_cases empty : t.chunks = []
   · exact sound_of_empty empty fits
   · rw [if_neg empty] at layers
     obtain ⟨groups, split, tiling, nodup⟩ := layers
     exact (Tiled.mk rows split tiling nodup).sound fits

def hugeRows (n : Nat) : ChunkTable :=
 ⟨1, (List.range n).map fun i =>
  ⟨i, lit "backup/data/a.blob", [], [], 0, 4611686018427387904⟩⟩

def hugeManifest (n : Nat) : Manifest :=
 { (default : Manifest) with
   chunking := { (default : ChunkingInfo) with maxChunkBytes := 4611686018427387904, count := n }
   layers := [⟨0, lit "sha256:a", 0, n - 1, 4611686018427387904⟩] }

/-- Five chunks of 2^62 bytes wrap back to 2^62, so a layer of 2^62 bytes is accepted. -/
theorem validateChunkTable_wraps : validateChunkTable (hugeManifest 5) (hugeRows 5) = .ok () ∧
   ¬ Sound (hugeManifest 5) (hugeRows 5) := by
 refine ⟨by decide +kernel, ?_⟩
 intro sound
 have sum := sound.storedSum ⟨0, lit "sha256:a", 0, 4, 4611686018427387904⟩ (by decide +kernel)
 revert sum
 decide +kernel

def fullRows : ChunkTable :=
 ⟨1, [⟨0, lit "a.blob", [], [], 0, 4611686018427387904⟩,
  ⟨1, lit "a.blob", [], [], 0, 4611686018427387903⟩,
  ⟨2, lit "b.blob", [], [], 0, 1⟩]⟩

/-- The first layer is as large as an `int64` can say. -/
def fullManifest : Manifest :=
 { hugeManifest 3 with
   layers := [⟨0, lit "sha256:a", 0, 1, 9223372036854775807⟩, ⟨1, lit "sha256:b", 2, 2, 1⟩] }

theorem validateChunkTable_sound_full : validateChunkTable fullManifest fullRows = .ok () ∧
   Sound fullManifest fullRows := by
 have accepted : validateChunkTable fullManifest fullRows = .ok () := by decide +kernel
 refine ⟨accepted, (validateChunkTable_sound_iff accepted).mpr ⟨by decide +kernel, ?_⟩⟩
 intro empty
 exact absurd empty (by decide)

end BackImage.Recovery.ChunkLayout
