/- source: pkg/backup/pipeline.go, pkg/chunk/layerbound.go
  digest: Two runs that close a layer at the same place cut what follows alike. -/

import BackImage.Backup.BuilderLayers

namespace BackImage.Backup.Resynchronise

open BuilderLayers CutRefinement Pipeline Chunk.Boundary Go.Sha256 Go.Text Index.CutTables
open Index.LayerSizes Index.Model Lib.CutRule Lib.Wrap
open Lib.Cut (cutting cut)

def closesOn (boundary : LayerBoundary) (g : List Bytes) : Bool :=
 boundary (wrapSum 0 (g.map fun stored => Int64.ofNat stored.length))
  ((g.getLast?.map sum256).getD [])

section Rule

variable {policy : LayerPolicy} {boundary : LayerBoundary} {chunks : List StoredChunk}

theorem rolls_stored {closed : List (List StoredChunk)} (budget : 110 < policy.maxLayers)
  (early : closed.length < 110) (g : List StoredChunk) :
  rolls policy boundary closed g = closesOn boundary (g.map StoredChunk.stored) := by
 have digest : lastDigest g = (((g.map StoredChunk.stored).getLast?.map sum256).getD []) := by
  unfold lastDigest
  rw [List.getLast?_map]
  cases g.getLast? <;> rfl
 rw [rolls_early budget early, closesOn, digest, List.map_map]
 rfl

theorem cut_append_stored (budget : 110 < policy.maxLayers) (more : List StoredChunk)
  (ends : (cutting (rolls policy boundary) chunks).filling = []) {i : Nat}
  (early : (cutting (rolls policy boundary) chunks).closed.length + i < 110) :
  ((cut (rolls policy boundary)
   (chunks ++ more))[(cutting (rolls policy boundary) chunks).closed.length + i]?).map
    (List.map StoredChunk.stored) =
   (cut (fun _ => closesOn boundary) (more.map StoredChunk.stored))[i]? := by
 generalize counted : (cutting (rolls policy boundary) chunks).closed.length = before at early
 obtain ⟨later, whole, first⟩ := cut_append_take (n := 110 - before) more ends
  fun closed g few => rolls_stored budget (by omega) g
 have here : i < 110 - before := by omega
 rw [whole, List.getElem?_append_right (by omega), counted, Nat.add_sub_cancel_left,
  ← List.getElem?_take_of_lt here, first, List.getElem?_take_of_lt here, ← cut_map,
   List.getElem?_map]

end Rule

theorem number_append (i : Nat) (front back : List Bytes) :
  number i (front ++ back) = number i front ++ number (i + front.length) back := by
 induction front generalizing i with
 | nil => simp [number]
 | cons d front ih =>
  rw [List.cons_append, number, ih, number, List.length_cons, List.cons_append]
  congr 3
  omega

/-- A finished run whose first chunks end with a layer: `front` plaintexts, then `back`. -/
structure Resting (env : Env) (cfg : Config) (boundary : LayerBoundary) (feed : Feed)
  (front back : List Bytes) (layers : Nat) (b : Builder) : Prop where
 data : feed.data = front ++ back
 budget : cfg.maxDataLayers = 118
 rests : ∃ b₁, feedAll env cfg (number 0 front) (Builder.start boundary) = (b₁, .ok ()) ∧
 b₁.spool = none ∧
  b₁.layers.length = layers
 built : buildWith env cfg feed boundary = (b, .ok ())

def storedBack (env : Env) (front back : List Bytes) : List Bytes :=
 (storedChunks env.store (number front.length back)).map StoredChunk.stored

def identity (info : LayerInfo) : Str × Str × Int64 :=
 (info.digest, dataBlobPath info.digest, info.storedBytes)

def identityOf (contents : List Bytes) : Str × Str × Int64 :=
 (digestText contents.flatten, dataBlobPath (digestText contents.flatten),
  wrapSum 0 (contents.map fun stored => Int64.ofNat stored.length))

theorem identity_of_records {info : LayerInfo} {g : List StoredChunk} (records : Records info g) :
  identity info = identityOf (g.map StoredChunk.stored) := by
 have content : layerContent g = (g.map StoredChunk.stored).flatten := List.flatMap_def ..
 unfold identity identityOf
 rw [records.1, records.2, content, List.map_map]
 rfl

theorem map_of_forall₂ {α β γ : Type} {r : α → β → Prop} {f : α → γ} {g : β → γ} {xs : List α}
  {ys : List β} (same : ∀ x y, r x y → f x = g y) (related : List.Forall₂ r xs ys) (k : Nat) :
  (xs[k]?).map f = (ys[k]?).map g := by
 induction related generalizing k with
 | nil => rfl
 | cons head _ ih =>
  cases k with
  | zero => simpa using same _ _ head
  | succ k => simpa using ih k

section Runs

variable {env : Env} {cfg : Config} {boundary : LayerBoundary} {feed : Feed}
 {front back : List Bytes} {n : Nat}
 {b : Builder}

def chunksAt (env : Env) (cfg : Config) (boundary : LayerBoundary) (feed : Feed) (k : Nat) :
  Option (List Bytes) :=
 ((cut (rolls (policyOf cfg) boundary) (storedChunks env.store (number 0 feed.data)))[k]?).map
  (List.map StoredChunk.stored)

theorem identity_at (built : buildWith env cfg feed boundary = (b, .ok ())) (k : Nat) :
  (b.layers[k]?).map identity = (chunksAt env cfg boundary feed k).map identityOf := by
 obtain ⟨b₁, fed, -, closed⟩ := buildWith_ok built
 have whole := holds_roll (holds_feedAll fed) closed
 rw [chunksAt, Option.map_map]
 exact map_of_forall₂ (r := Records) (fun _ _ => identity_of_records) whole.records k

theorem chunks_after (run : Resting env cfg boundary feed front back n b) {i : Nat}
  (early : n + i < 110) :
  chunksAt env cfg boundary feed (n + i) =
  (cut (fun _ => closesOn boundary) (storedBack env front back))[i]? := by
 obtain ⟨b₁, fed, rests, rfl⟩ := run.rests
 have holds := holds_feedAll fed
 have positive : 0 < cfg.maxDataLayers := by
  rw [run.budget]
  decide
 have budget : 110 < (policyOf cfg).maxLayers := by
  rw [maxLayers_of_positive positive, run.budget]
  decide
 have ends :
   (cutting (rolls (policyOf cfg) boundary) (storedChunks env.store (number 0 front))).filling =
    [] := by
  have spool := holds.follows.spool
  rw [rests] at spool
  by_contra filled
  rw [spoolOf, if_neg (by simpa using filled)] at spool
  cases spool
 have chunks : storedChunks env.store (number 0 feed.data) =
   storedChunks env.store (number 0 front) ++
    storedChunks env.store (number front.length back) := by
  rw [run.data, number_append, Nat.zero_add]
  exact List.filterMap_append
 rw [holds.follows.layerCount] at early ⊢
 rw [chunksAt, storedBack, ← cut_append_stored budget _ ends early, ← chunks]

end Runs

/-- Two runs with the same boundary, each of which closes a layer at the end of its own first
chunks, make the same layers of the chunks that follow when these are stored as the same bytes: up
to the 110th layer of either run, the same chunks in each layer and the same end, so the same
digests, blobs and sizes. -/
theorem common_chunks_same_layers (boundary : LayerBoundary) (envA envB : Env) (cfgA cfgB : Config)
  (feedA feedB : Feed) (frontA frontB backA backB : List Bytes) (layersA layersB : Nat)
  (bA bB : Builder) (runA : Resting envA cfgA boundary feedA frontA backA layersA bA)
  (runB : Resting envB cfgB boundary feedB frontB backB layersB bB)
  (common : storedBack envA frontA backA = storedBack envB frontB backB) (i : Nat)
  (earlyA : layersA + i < 110) (earlyB : layersB + i < 110) :
  chunksAt envA cfgA boundary feedA (layersA + i) =
  chunksAt envB cfgB boundary feedB (layersB + i) ∧
   (bA.layers[layersA + i]?).map identity =
   (chunksAt envA cfgA boundary feedA (layersA + i)).map identityOf ∧
   (bB.layers[layersB + i]?).map identity = (bA.layers[layersA + i]?).map identity := by
 have same : chunksAt envA cfgA boundary feedA (layersA + i) =
   chunksAt envB cfgB boundary feedB (layersB + i) := by
  rw [chunks_after runA earlyA, chunks_after runB earlyB, common]
 refine ⟨same, identity_at runA.built _, ?_⟩
 rw [identity_at runA.built, identity_at runB.built, same]

def commonChunks : List Bytes := [[1], [2, 3], [4]]

theorem eq_of_isOk {result : Builder × Except BuildError Unit} (fine : result.2.isOk = true) :
  result = (result.1, .ok ()) := by
 rcases result with ⟨b, e | _⟩
 · cases fine
 · rfl

theorem resting_of_run {env : Env} {cfg : Config} {boundary : LayerBoundary}
  {front back : List Bytes} {n : Nat} (budget : cfg.maxDataLayers = 118)
  (fed : (feedAll env cfg (number 0 front) (Builder.start boundary)).2.isOk = true)
  (rests : (feedAll env cfg (number 0 front) (Builder.start boundary)).1.spool = none)
  (layers : (feedAll env cfg (number 0 front) (Builder.start boundary)).1.layers.length = n)
  (built : (buildWith env cfg (feedOf (front ++ back)) boundary).2.isOk = true) :
  Resting env cfg boundary (feedOf (front ++ back)) front back n
   (buildWith env cfg (feedOf (front ++ back)) boundary).1 where
 data := rfl
 budget := budget
 rests := ⟨_, eq_of_isOk fed, rests, layers⟩
 built := eq_of_isOk built

theorem second_and_third_layer_shared :
  ∃ bA bB, Resting plainEnv dedupConfig (fixedBoundary 3) (feedOf ([[9, 9, 9]] ++ commonChunks))
  [[9, 9, 9]]
    commonChunks 1 bA ∧
   Resting plainEnv dedupConfig (fixedBoundary 3)
   (feedOf ([[7], [8, 8], [5, 5, 5]] ++ commonChunks))
    [[7], [8, 8], [5, 5, 5]] commonChunks 2 bB ∧
   (bB.layers[2]?).map identity = (bA.layers[1]?).map identity ∧
   (bB.layers[3]?).map identity = (bA.layers[2]?).map identity ∧ bA.layers.length = 3 := by
 have runA : Resting plainEnv dedupConfig (fixedBoundary 3) (feedOf ([[9, 9, 9]] ++ commonChunks))
  [[9, 9, 9]]
   commonChunks 1 _ :=
  resting_of_run rfl (by decide +kernel) (by decide +kernel) (by decide +kernel) (by decide +kernel)
 have runB : Resting plainEnv dedupConfig (fixedBoundary 3)
  (feedOf ([[7], [8, 8], [5, 5, 5]] ++ commonChunks))
   [[7], [8, 8], [5, 5, 5]] commonChunks 2 _ :=
  resting_of_run rfl (by decide +kernel) (by decide +kernel) (by decide +kernel) (by decide +kernel)
 have meet (i : Nat) (early : i < 100) :=
  common_chunks_same_layers _ _ _ _ _ _ _ _ _ _ _ _ _ _ _ runA runB (by decide +kernel) i (by omega)
   (by omega)
 exact ⟨_, _, runA, runB, (meet 0 (by decide)).2.2, (meet 1 (by decide)).2.2, by decide +kernel⟩

end BackImage.Backup.Resynchronise
