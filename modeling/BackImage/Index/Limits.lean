/- source: pkg/index/limits.go
  digest: The public chunk table is accepted exactly when its layers tile its rows. -/

import BackImage.Index.Model
import BackImage.Lib.Cut
import BackImage.Lib.Sequence
import BackImage.Lib.Wrap

namespace BackImage.Index.Limits

open Model Lib.Sequence Lib.Wrap
open Go.Text (Str lit decimal decimalInt)
open Lib.Cut (start)

def expansionDenominator : Int64 := 64

def expansionFloor : Int64 := 4096

def maxStoredChunkBytes (m : Manifest) : Int64 :=
 let plain :=
  if m.chunking.maxChunkBytes ≤ 0 then m.chunking.targetChunkBytes else m.chunking.maxChunkBytes
 if plain ≤ 0 then 0 else plain + plain / expansionDenominator + expansionFloor

def maxPlainChunkBytes (m : Manifest) : Int64 :=
 if 0 < m.chunking.maxChunkBytes then m.chunking.maxChunkBytes else m.chunking.targetChunkBytes

inductive TableError
 | count (declared : Int) (held : Nat)
 | position (i : Nat) (said : Int)
 | chunkStored (i : Nat) (sb : Int64)
 | chunkBlob (i : Nat)
 | emptyTable (layer : LayerInfo)
 | layerStart (layer : LayerInfo) (next : Int)
 | layerRange (layer : LayerInfo) (held : Nat)
 | layerStored (layer : LayerInfo)
 | samePath (other : Int) (layer : LayerInfo) (path : Str)
 | chunkPath (i : Int) (layer : LayerInfo) (named path : Str)
 | overLayer (i : Int) (sb : Int64) (layer : LayerInfo)
 | overMax (i : Int) (sb maxStored : Int64)
 | sumPast (layer : LayerInfo)
 | sumMismatch (layer : LayerInfo) (sum : Int64)
 | noLayer (next : Int) (held : Nat)
 deriving DecidableEq

def checkRows : Nat → List Chunk → Except TableError Unit
 | _, [] => .ok ()
 | i, c :: rest =>
  if c.i ≠ i then .error (.position i c.i)
  else if c.sb ≤ 0 then .error (.chunkStored i c.sb)
  else if c.p = [] then .error (.chunkBlob i)
  else checkRows (i + 1) rest

def checkEmptyTable : List LayerInfo → Except TableError Unit
 | [] => .ok ()
 | layer :: rest =>
  if layer.chunkFrom ≤ layer.chunkTo then .error (.emptyTable layer) else checkEmptyTable rest

def rowsOf (chunks : List Chunk) (layer : LayerInfo) : List Chunk :=
 (chunks.drop layer.chunkFrom.toNat).take (layer.chunkTo + 1 - layer.chunkFrom).toNat

def pathOf : List Chunk → Str
 | [] => []
 | c :: _ => c.p

def sumRows (maxStored : Int64) (layer : LayerInfo) (path : Str) : Int → Int64 → List Chunk →
  Except TableError Int64
 | _, sum, [] => .ok sum
 | i, sum, c :: rest =>
  if c.p ≠ path then .error (.chunkPath i layer c.p path)
  else if layer.storedBytes < c.sb then .error (.overLayer i c.sb layer)
  else if 0 < maxStored ∧ maxStored < c.sb then .error (.overMax i c.sb maxStored)
  else if layer.storedBytes < sum + c.sb then .error (.sumPast layer)
  else sumRows maxStored layer path (i + 1) (sum + c.sb) rest

def checkLayer (maxStored : Int64) (chunks : List Chunk) (next : Int) (byPath : List (Str × Int))
  (layer : LayerInfo) : Except TableError (Int × List (Str × Int)) :=
 if layer.chunkFrom ≠ next then .error (.layerStart layer next)
 else if layer.chunkTo < layer.chunkFrom ∨ chunks.length ≤ layer.chunkTo then
  .error (.layerRange layer chunks.length)
 else if layer.storedBytes ≤ 0 then .error (.layerStored layer)
 else
  -- the range check above keeps the index inside the table
  let path := pathOf (chunks.drop layer.chunkFrom.toNat)
  match byPath.lookup path with
  | some other => .error (.samePath other layer path)
  | none => do
    let sum ← sumRows maxStored layer path layer.chunkFrom 0 (rowsOf chunks layer)
    if sum ≠ layer.storedBytes then .error (.sumMismatch layer sum)
    else .ok (layer.chunkTo + 1, (path, layer.index) :: byPath)

def checkLayers (maxStored : Int64) (chunks : List Chunk) :
  Int → List (Str × Int) → List LayerInfo → Except TableError Int
 | next, _, [] => .ok next
 | next, byPath, layer :: rest => do
   let (next', byPath') ← checkLayer maxStored chunks next byPath layer
   checkLayers maxStored chunks next' byPath' rest

def validateLayers (m : Manifest) (t : ChunkTable) : Except TableError Unit := do
 let next ← checkLayers (maxStoredChunkBytes m) t.chunks 0 [] m.layers
 if next ≠ t.chunks.length then .error (.noLayer next t.chunks.length) else .ok ()

def validateChunkTable (m : Manifest) (t : ChunkTable) : Except TableError Unit :=
 if m.chunking.count ≠ t.chunks.length then .error (.count m.chunking.count t.chunks.length)
 else do
  checkRows 0 t.chunks
  if t.chunks = [] then checkEmptyTable m.layers else validateLayers m t

/-- A row of the table that stands at position `i`. -/
structure RowAt (i : Nat) (c : Chunk) : Prop where
 number : c.i = i
 positive : 0 < c.sb
 named : c.p ≠ []

/-- The rows `g` are exactly what `layer` declares when the chunk numbers go on at `next`.
Sums are the wrapping ones the validator computes. -/
structure Placed (maxStored : Int64) (next : Int) (layer : LayerInfo) (g : List Chunk) : Prop where
 nonempty : g ≠ []
 starts : layer.chunkFrom = next
 ends : layer.chunkTo + 1 = next + g.length
 positive : 0 < layer.storedBytes
 onePath : ∀ c ∈ g, c.p = pathOf g
 underLayer : ∀ c ∈ g, c.sb ≤ layer.storedBytes
 underMax : 0 < maxStored → ∀ c ∈ g, c.sb ≤ maxStored
 partialSums : ∀ k ≤ g.length, wrapSum 0 ((g.take k).map Chunk.sb) ≤ layer.storedBytes
 total : wrapSum 0 (g.map Chunk.sb) = layer.storedBytes

def Tiling (maxStored : Int64) : Int → List LayerInfo → List (List Chunk) → Prop
 | _, [], [] => True
 | next, layer :: layers, g :: groups =>
  Placed maxStored next layer g ∧ Tiling maxStored (next + g.length) layers groups
 | _, _, _ => False

theorem checkRows_ok_iff {i : Nat} {rows : List Chunk} :
  checkRows i rows = .ok () ↔ ∀ k c, rows[k]? = some c → RowAt (i + k) c := by
 induction rows generalizing i with
 | nil => simp [checkRows]
 | cons c rest ih =>
  simp only [checkRows, guard_ok, ih]
  constructor
  · rintro ⟨number, stored, path, rows⟩ k d found
    cases k with
    | zero =>
     have same : c = d := by simpa using found
     subst same
     exact ⟨by simpa using number, Int64.not_le.mp stored, path⟩
    | succ k =>
     have row := rows k d (by simpa using found)
     rwa [show i + 1 + k = i + (k + 1) by omega] at row
  · intro rows
    have head := rows 0 c (by simp)
    refine ⟨by simpa using head.number, Int64.not_le.mpr head.positive, head.named, ?_⟩
    intro k d found
    have row := rows (k + 1) d (by simpa using found)
    rwa [show i + (k + 1) = i + 1 + k by omega] at row

variable {layers : List LayerInfo}

theorem checkEmptyTable_ok_iff :
  checkEmptyTable layers = .ok () ↔ ∀ layer ∈ layers, layer.chunkTo < layer.chunkFrom := by
 induction layers with
 | nil => simp [checkEmptyTable]
 | cons layer rest ih => simp [checkEmptyTable, guard_ok, ih]

variable {maxStored : Int64} {layer : LayerInfo} {g : List Chunk}

theorem sumRows_ok_iff {path : Str} {i : Int} {sum r : Int64} :
  sumRows maxStored layer path i sum g = .ok r ↔
   (∀ c ∈ g, c.p = path) ∧ (∀ c ∈ g, c.sb ≤ layer.storedBytes) ∧
   (0 < maxStored → ∀ c ∈ g, c.sb ≤ maxStored) ∧
   (∀ k < g.length, wrapSum sum ((g.take (k + 1)).map Chunk.sb) ≤ layer.storedBytes) ∧
   wrapSum sum (g.map Chunk.sb) = r := by
 induction g generalizing i sum with
 | nil => simp [sumRows]
 | cons c rest ih =>
  simp only [sumRows, guard_ok, ih, List.forall_mem_cons, Int64.not_lt, not_not, not_and]
  constructor
  · rintro ⟨path, layerBound, maxBound, past, paths, layerBounds, maxBounds, sums, total⟩
    refine ⟨⟨path, paths⟩, ⟨layerBound, layerBounds⟩,
     fun positive => ⟨maxBound positive, maxBounds positive⟩, ?_, by simpa using total⟩
    intro k short
    cases k with
    | zero => simpa using past
    | succ k => simpa using sums k (by simpa using short)
  · rintro ⟨⟨path, paths⟩, ⟨layerBound, layerBounds⟩, maxBounds, sums, total⟩
    refine ⟨path, layerBound, fun positive => (maxBounds positive).1, ?_, paths, layerBounds,
     fun positive => (maxBounds positive).2, ?_, by simpa using total⟩
    · simpa using sums 0 (by simp)
    · intro k short
      simpa using sums (k + 1) (by simpa using short)

private theorem lookup_eq_none {byPath : List (Str × Int)} {path : Str} :
  byPath.lookup path = none ↔ path ∉ byPath.map Prod.fst := by
 rw [List.lookup_eq_none_iff]
 simp only [List.mem_map, not_exists, not_and, bne_iff_ne, ne_eq]
 constructor
 · intro absent entry member same
   exact absent entry member same.symm
 · intro absent entry member same
   exact absent entry member same.symm

variable {rest : List Chunk}

theorem pathOf_append (nonempty : g ≠ []) : pathOf (g ++ rest) = pathOf g := by
 cases g with
 | nil => exact absurd rfl nonempty
 | cons c g => rfl

theorem rowsOf_append {done : List Chunk}
  (starts : layer.chunkFrom = done.length) (ends : layer.chunkTo + 1 = done.length + g.length) :
  rowsOf (done ++ (g ++ rest)) layer = g := by
 have skip : layer.chunkFrom.toNat = done.length := by omega
 have size : (layer.chunkTo + 1 - layer.chunkFrom).toNat = g.length := by omega
 rw [rowsOf, skip, size, List.drop_left, List.take_left]

variable {next : Int}

theorem checkLayer_ok_iff {done : List Chunk}
  {byPath : List (Str × Int)} {r : Int × List (Str × Int)} (here : next = done.length) :
  checkLayer maxStored (done ++ rest) next byPath layer = .ok r ↔
   ∃ g rest', rest = g ++ rest' ∧ Placed maxStored next layer g ∧
    pathOf g ∉ byPath.map Prod.fst ∧ r = (next + g.length, (pathOf g, layer.index) :: byPath) := by
 constructor
 · intro accepted
   simp only [checkLayer, guard_ok, not_or, not_not, Int64.not_le] at accepted
   obtain ⟨starts, ⟨low, high⟩, positive, accepted⟩ := accepted
   rw [List.length_append] at high
   obtain ⟨g, rest', split, size⟩ : ∃ g rest', rest = g ++ rest' ∧
     layer.chunkTo + 1 = next + g.length := by
    refine ⟨_, _, (List.take_append_drop (layer.chunkTo + 1 - next).toNat rest).symm, ?_⟩
    rw [List.length_take]
    omega
   subst split
   have nonempty : g ≠ [] := by
    rintro rfl
    simp only [List.length_nil, Int.natCast_zero] at size
    omega
   have skip : layer.chunkFrom.toNat = done.length := by omega
   rw [rowsOf_append (starts.trans here) (by omega), skip, List.drop_left,
    pathOf_append nonempty] at accepted
   cases found : byPath.lookup (pathOf g) with
   | some other =>
    rw [found] at accepted
    cases accepted
   | none =>
    rw [found] at accepted
    simp only [bind_ok, guard_ok, not_not, Except.ok.injEq, sumRows_ok_iff] at accepted
    obtain ⟨sum, ⟨paths, layerBounds, maxBounds, sums, total⟩, same, result⟩ := accepted
    refine ⟨g, rest', rfl, ⟨nonempty, starts, size, positive, paths, layerBounds, maxBounds,
     ?_, total.trans same⟩, lookup_eq_none.mp found, ?_⟩
    · intro k short
      cases k with
      | zero => exact Int64.le_of_lt positive
      | succ k => exact sums k short
    · rw [← result, size]
 · rintro ⟨g, rest', rfl, placed, fresh, rfl⟩
   have starts := placed.starts
   have ends := placed.ends
   have positiveLength : 0 < g.length := List.length_pos_of_ne_nil placed.nonempty
   have skip : layer.chunkFrom.toNat = done.length := by omega
   simp only [checkLayer, guard_ok, not_or, not_not, Int64.not_le]
   refine ⟨starts, ⟨by omega, by simp only [List.length_append]; omega⟩, placed.positive, ?_⟩
   rw [rowsOf_append (starts.trans here) (by omega), skip, List.drop_left,
    pathOf_append placed.nonempty, lookup_eq_none.mpr fresh]
   simp only [bind_ok, guard_ok, not_not, Except.ok.injEq, sumRows_ok_iff]
   exact ⟨layer.storedBytes, ⟨placed.onePath, placed.underLayer, placed.underMax,
    fun k short => placed.partialSums (k + 1) short, placed.total⟩, rfl, by rw [ends]⟩

theorem checkLayers_ok_iff {maxStored : Int64} {layers : List LayerInfo}
  {done rest : List Chunk} {next : Int} {byPath : List (Str × Int)} {n : Int}
  (here : next = done.length) :
  checkLayers maxStored (done ++ rest) next byPath layers = .ok n ↔
   ∃ groups rest', rest = groups.flatten ++ rest' ∧ Tiling maxStored next layers groups ∧
    (groups.map pathOf).Nodup ∧ (∀ g ∈ groups, pathOf g ∉ byPath.map Prod.fst) ∧
    n = next + groups.flatten.length := by
 induction layers generalizing done rest next byPath with
 | nil =>
  constructor
  · intro accepted
    cases accepted
    exact ⟨[], rest, by simp, trivial, by simp, by simp, by simp⟩
  · rintro ⟨groups, rest', -, tiling, -, -, rfl⟩
    cases groups with
    | nil => simp [checkLayers]
    | cons g groups => exact absurd tiling id
 | cons layer layers ih =>
  simp only [checkLayers, bind_ok, checkLayer_ok_iff here]
  constructor
  · rintro ⟨-, ⟨g, rest', rfl, placed, fresh, rfl⟩, accepted⟩
    rw [← List.append_assoc, ih (by simp [here])] at accepted
    obtain ⟨groups, rest'', rfl, tiling, nodup, freshAll, rfl⟩ := accepted
    refine ⟨g :: groups, rest'', by simp, ⟨placed, tiling⟩, ?_, ?_, ?_⟩
    · rw [List.map_cons, List.nodup_cons]
      refine ⟨?_, nodup⟩
      rintro repeated
      obtain ⟨h, member, same⟩ := List.mem_map.mp repeated
      exact freshAll h member (by simp [same])
    · intro h member
      rcases List.mem_cons.mp member with rfl | member
      · exact fresh
      · intro seen
        exact freshAll h member (List.mem_cons_of_mem _ seen)
    · simp only [List.flatten_cons, List.length_append]
      omega
  · rintro ⟨groups, rest'', rfl, tiling, nodup, freshAll, rfl⟩
    cases groups with
    | nil => exact absurd tiling id
    | cons g groups =>
     obtain ⟨placed, tiling⟩ := tiling
     rw [List.map_cons, List.nodup_cons] at nodup
     refine ⟨_, ⟨g, groups.flatten ++ rest'', by simp, placed,
      freshAll g List.mem_cons_self, rfl⟩, ?_⟩
     rw [List.flatten_cons, List.append_assoc, ← List.append_assoc done]
     refine (ih (by simp [here])).mpr ⟨groups, rest'', rfl, tiling, nodup.2, ?_, ?_⟩
     · intro h member seen
       rcases List.mem_cons.mp seen with same | seen
       · exact nodup.1 (List.mem_map.mpr ⟨h, member, same⟩)
       · exact freshAll h (List.mem_cons_of_mem _ member) seen
     · simp only [List.flatten_cons, List.length_append]
       omega

variable {m : Manifest} {t : ChunkTable}

theorem validateLayers_ok_iff : validateLayers m t = .ok () ↔
   ∃ groups, t.chunks = groups.flatten ∧ Tiling (maxStoredChunkBytes m) 0 m.layers groups ∧
    (groups.map pathOf).Nodup := by
 have walk := @checkLayers_ok_iff (maxStoredChunkBytes m) m.layers [] t.chunks 0 []
 simp only [validateLayers, bind_ok, guard_ok, not_not, List.nil_append] at walk ⊢
 constructor
 · rintro ⟨n, accepted, ends, -⟩
   obtain ⟨groups, rest', split, tiling, nodup, -, rfl⟩ := (walk rfl).mp accepted
   have empty : rest' = [] := by
    apply List.eq_nil_of_length_eq_zero
    rw [split, List.length_append] at ends
    omega
   exact ⟨groups, by rw [split, empty, List.append_nil], tiling, nodup⟩
 · rintro ⟨groups, split, tiling, nodup⟩
   refine ⟨_, (walk rfl).mpr ⟨groups, [], by simpa using split, tiling, nodup, by simp, rfl⟩, ?_,
    trivial⟩
   rw [split]
   omega

theorem validateChunkTable_ok_iff : validateChunkTable m t = .ok () ↔
   m.chunking.count = t.chunks.length ∧ (∀ k c, t.chunks[k]? = some c → RowAt k c) ∧
   if t.chunks = [] then ∀ layer ∈ m.layers, layer.chunkTo < layer.chunkFrom
   else ∃ groups, t.chunks = groups.flatten ∧
    Tiling (maxStoredChunkBytes m) 0 m.layers groups ∧ (groups.map pathOf).Nodup := by
 simp only [validateChunkTable, guard_ok, not_not, then_ok, checkRows_ok_iff, Nat.zero_add]
 by_cases empty : t.chunks = []
 · simp [empty, checkEmptyTable_ok_iff]
 · simp [empty, validateLayers_ok_iff]

theorem Tiling.placed {maxStored : Int64} {next : Int} {layers : List LayerInfo}
  {groups : List (List Chunk)} (tiling : Tiling maxStored next layers groups) {j : Nat}
  {layer : LayerInfo} (found : layers[j]? = some layer) :
  ∃ g, groups[j]? = some g ∧ Placed maxStored (next + start groups j) layer g := by
 induction layers generalizing next groups j with
 | nil => simp at found
 | cons l layers ih =>
  cases groups with
  | nil => exact absurd tiling id
  | cons g groups =>
   cases j with
   | zero =>
    have same : l = layer := by simpa using found
    subst same
    exact ⟨g, by simp, by simpa using tiling.1⟩
   | succ j =>
    obtain ⟨h, at_j, placed⟩ := ih tiling.2 (by simpa using found)
    refine ⟨h, by simpa using at_j, ?_⟩
    rw [BackImage.Lib.Cut.start_cons_succ, Nat.cast_add, ← Int.add_assoc]
    exact placed

variable {groups : List (List Chunk)}

theorem Tiling.unique {groups' : List (List Chunk)} (tiling : Tiling maxStored next layers groups)
  (tiling' : Tiling maxStored next layers groups') (same : groups.flatten = groups'.flatten) :
  groups = groups' := by
 induction layers generalizing next groups groups' with
 | nil =>
  cases groups with
  | cons g groups => exact absurd tiling id
  | nil =>
   cases groups' with
   | cons g groups' => exact absurd tiling' id
   | nil => rfl
 | cons layer layers ih =>
  cases groups with
  | nil => exact absurd tiling id
  | cons g groups =>
   cases groups' with
   | nil => exact absurd tiling' id
   | cons g' groups' =>
    have ends := tiling.1.ends
    have ends' := tiling'.1.ends
    have size : g.length = g'.length := by omega
    obtain ⟨head, tail⟩ := List.append_inj same size
    rw [head, ih tiling.2 (by rw [size]; exact tiling'.2) tail]

theorem validateLayers_ok_iff_of_tiling (split : t.chunks = groups.flatten)
  (tiling : Tiling (maxStoredChunkBytes m) 0 m.layers groups) :
  validateLayers m t = .ok () ↔ (groups.map pathOf).Nodup := by
 rw [validateLayers_ok_iff]
 constructor
 · rintro ⟨groups', split', tiling', nodup⟩
   rwa [tiling.unique tiling' (split ▸ split')]
 · intro nodup
   exact ⟨groups, split, tiling, nodup⟩

theorem Tiling.length_eq (tiling : Tiling maxStored next layers groups) :
  layers.length = groups.length := by
 induction layers generalizing next groups with
 | nil =>
  cases groups with
  | nil => rfl
  | cons g groups => exact absurd tiling id
 | cons l layers ih =>
  cases groups with
  | nil => exact absurd tiling id
  | cons g groups => simp [ih tiling.2]

end BackImage.Index.Limits
