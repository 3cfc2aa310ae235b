/- source: pkg/backup/pipeline.go
  digest: The layers of every local run, failed ones included, and where two runs cut alike. -/

import BackImage.Backup.CutRefinement
import BackImage.Index.LayerSizes

namespace BackImage.Backup.BuilderLayers

open CutRefinement Pipeline Chunk.Boundary Go.Text Index.CutTables Index.LayerSizes
open Lib.CutRule
open Lib.Cut (Cutting cutting cut cutting_append)

section Steps

variable {env : Env} {cfg : Config} {boundary : LayerBoundary} {b b' : Builder}
 {c : Cutting StoredChunk}

/-- The builder is at a point of its cut, and its layers are those of the closed groups. -/
structure Holds (cfg : Config) (boundary : LayerBoundary) (b : Builder) (c : Cutting StoredChunk) :
  Prop where
 follows : Follows cfg boundary b c
 records : List.Forall₂ Records b.layers c.closed

def Spared (outcome : Except BuildError Unit) : Prop :=
 ∀ limit, outcome ≠ .error (.layerLimit limit)

theorem spared_ok : Spared (.ok ()) := by
 intro limit fails
 cases fails

theorem spared_error {e : BuildError} (other : ∀ limit, e ≠ .layerLimit limit) :
  Spared (.error e) := by
 intro limit fails
 exact other limit (Except.error.inj fails)

theorem storeChunk_frame (env : Env) (ck : PlainChunk) (b : Builder) :
  (storeChunk env ck b).1.layers = b.layers ∧
   ∀ e, (storeChunk env ck b).2 = .error e → ∀ limit, e ≠ .layerLimit limit := by
 unfold storeChunk
 split
 · refine ⟨rfl, ?_⟩
   rintro e ⟨⟩ limit ⟨⟩
 · cases opened : openSpool env b with
   | error e =>
    refine ⟨rfl, ?_⟩
    rintro e' ⟨⟩ limit rfl
    obtain ⟨cause, other⟩ := openSpool_error opened
    cases other
   | ok pair =>
    obtain ⟨b₁, s⟩ := pair
    have same := openSpool_layers opened
    dsimp only
    split
    · refine ⟨same, ?_⟩
      rintro e ⟨⟩ limit ⟨⟩
    · refine ⟨same, ?_⟩
      rintro e ⟨⟩

theorem rollLayer_error {e : BuildError} (result : rollLayer env cfg b = (b', .error e)) :
  b'.layers = b.layers ∧ ∀ limit, e = .layerLimit limit → 0 < cfg.maxDataLayers ∧
   cfg.maxDataLayers ≤ b.layers.length := by
 have rolled := rollLayer_rolled env cfg b
 rw [result] at rolled
 cases rolled with
 | limit s found reached => exact ⟨rfl, fun _ _ => reached⟩
 | digest s found cause => exact ⟨rfl, fun _ other => by cases other⟩
 | close s found cause => exact ⟨rfl, fun _ other => by cases other⟩
 | file s found cause => exact ⟨rfl, fun _ other => by cases other⟩

theorem applyFallback_layers (cfg : Config) (b : Builder) :
  (applyFallback cfg b).layers = b.layers := rfl

theorem holds_roll (holds : Holds cfg boundary b c) (result : rollLayer env cfg b = (b', .ok ())) :
  Holds cfg boundary b' c.close := by
 refine ⟨follows_roll holds.follows result, ?_⟩
 have spool := holds.follows.spool
 rcases rollLayer_ok result with ⟨missing, rfl⟩ | ⟨s, rows, info, disk, found, -, infoIs, rfl⟩
 · have nothing : c.filling.isEmpty := by
    by_contra filled
    rw [missing, spoolOf, if_neg filled] at spool
    cases spool
   rw [Cutting.close, if_pos nothing]
   exact holds.records
 · have filled : ¬ c.filling.isEmpty := by
    intro nothing
    rw [found, spoolOf, if_pos nothing] at spool
    cases spool
   rw [found, spoolOf, if_neg filled] at spool
   cases spool
   rw [Cutting.close, if_neg filled, applyFallback_layers]
   apply List.rel_append holds.records
   rw [infoIs]
   exact .cons ⟨rfl, rfl⟩ .nil

theorem maxLayers_of_positive (positive : 0 < cfg.maxDataLayers) :
  (policyOf cfg).maxLayers = cfg.maxDataLayers :=
 if_neg (by omega)

theorem one_le_maxLayers (cfg : Config) : 1 ≤ (policyOf cfg).maxLayers := by
 unfold policyOf
 dsimp only
 split <;> omega

theorem rollLayer_spared {outcome : Except BuildError Unit}
  (few : (b.layers.length : Int) < (policyOf cfg).maxLayers)
  (result : rollLayer env cfg b = (b', outcome)) : Spared outcome := by
 cases outcome with
 | ok _ => exact spared_ok
 | error e =>
  apply spared_error
  intro limit is
  obtain ⟨positive, reached⟩ := (rollLayer_error result).2 limit is
  rw [maxLayers_of_positive positive] at few
  omega

end Steps

section Runs

variable {env : Env} {cfg : Config} {boundary : LayerBoundary} {b : Builder}

/-- How a loop ends: with layers for the closed groups of the chunks it stored, and not at the
limit. -/
structure Ended (env : Env) (cfg : Config) (boundary : LayerBoundary) (cks : List PlainChunk)
  (done : List StoredChunk) (result : Builder × Except BuildError Unit) (more : List StoredChunk) :
  Prop where
 chunks : more.map StoredChunk.plain <+: cks
 all : result.2 = .ok () → more.map StoredChunk.plain = cks
 stored : ∀ s ∈ more, storedOf env.store s.plain = .ok s.stored
 records : List.Forall₂ Records result.1.layers
  (cutting (rolls (policyOf cfg) boundary) (done ++ more)).closed
 spared : Spared result.2
 goes_on : result.2 = .ok () →
  Holds cfg boundary result.1 (cutting (rolls (policyOf cfg) boundary) (done ++ more))

variable {cks : List PlainChunk} {done : List StoredChunk} {b' : Builder}

theorem ended_error {e : BuildError}
  (holds : Holds cfg boundary b (cutting (rolls (policyOf cfg) boundary) done))
  (layers : b'.layers = b.layers)
  (other : ∀ limit, e ≠ .layerLimit limit) : Ended env cfg boundary cks done (b', .error e) [] where
 chunks := List.nil_prefix
 all := by
  intro fine
  cases fine
 stored := by
  intro s member
  cases member
 records := by
  rw [List.append_nil, layers]
  exact holds.records
 spared := spared_error other
 goes_on := by
  intro fine
  cases fine

theorem ended_ok {ck : PlainChunk} {stored : Bytes} (storedIs : storedOf env.store ck = .ok stored)
  (holds : Holds cfg boundary b'
   (cutting (rolls (policyOf cfg) boundary) (done ++ [⟨ck, stored⟩]))) :
  Ended env cfg boundary [ck] done (b', .ok ()) [⟨ck, stored⟩] where
 chunks := List.prefix_refl _
 all _ := rfl
 stored := by
  intro s member
  rw [List.mem_singleton.mp member]
  exact storedIs
 records := holds.records
 spared := spared_ok
 goes_on _ := holds

theorem feedChunk_ended {ck : PlainChunk}
  (holds : Holds cfg boundary b (cutting (rolls (policyOf cfg) boundary) done)) :
  ∃ more, Ended env cfg boundary [ck] done (feedChunk env cfg ck b) more := by
 unfold feedChunk
 cases alive : env.cancelled ck.index with
 | some cause => exact ⟨[], ended_error holds rfl (fun limit is => by cases is)⟩
 | none =>
  obtain ⟨layers, other⟩ := storeChunk_frame env ck b
  rcases stores : storeChunk env ck b with ⟨b₁, e | stored⟩ <;> rw [stores] at layers other
  · exact ⟨[], ended_error holds layers (other e rfl)⟩
  · have pushed := follows_push holds.follows stores
    have storedIs := (storeChunk_ok stores).1
    have held : Holds cfg boundary (appendRow b₁ ⟨ck, stored⟩)
      ((cutting (rolls (policyOf cfg) boundary) done).push ⟨ck, stored⟩) := by
     refine ⟨pushed, ?_⟩
     change List.Forall₂ Records b₁.layers _
     rw [layers]
     exact holds.records
    dsimp only
    rw [shouldRollLayer_eq pushed]
    by_cases closes : rolls (policyOf cfg) boundary
     (cutting (rolls (policyOf cfg) boundary) done).closed
      ((cutting (rolls (policyOf cfg) boundary) done).filling ++ [⟨ck, stored⟩]) = true
    · rw [if_pos closes]
      rcases rolled : rollLayer env cfg (appendRow b₁ ⟨ck, stored⟩) with ⟨b₂, e | _⟩
      · have few := length_cutting_lt boundary (one_le_maxLayers cfg) done
        rw [← holds.follows.layerCount, ← layers] at few
        have spared : Spared (.error e) :=
         rollLayer_spared (b := appendRow b₁ ⟨ck, stored⟩) few rolled
        refine ⟨[], ended_error holds ((rollLayer_error rolled).1.trans layers) fun limit is => ?_⟩
        exact spared limit (congrArg _ is)
      · refine ⟨_, ended_ok storedIs ?_⟩
        rw [cutting_append, Cutting.step, if_pos closes]
        exact holds_roll held rolled
    · rw [if_neg closes]
      refine ⟨_, ended_ok storedIs ?_⟩
      rw [cutting_append, Cutting.step, if_neg closes]
      exact held

theorem feedAll_ended
  (holds : Holds cfg boundary b (cutting (rolls (policyOf cfg) boundary) done)) :
  ∃ more, Ended env cfg boundary cks done (feedAll env cfg cks b) more := by
 induction cks generalizing b done with
 | nil =>
  have here : Holds cfg boundary b (cutting (rolls (policyOf cfg) boundary) (done ++ [])) := by
   rw [List.append_nil]
   exact holds
  refine ⟨[], List.nil_prefix, fun _ => rfl, ?_, here.records, spared_ok, fun _ => here⟩
  intro s member
  cases member
 | cons ck rest ih =>
  obtain ⟨first, ended⟩ : ∃ first,
   Ended env cfg boundary [ck] done (feedChunk env cfg ck b) first :=
   feedChunk_ended holds
  unfold feedAll
  rcases turn : feedChunk env cfg ck b with ⟨b₁, e | _⟩ <;> rw [turn] at ended
  · refine ⟨first, ended.chunks.trans ⟨rest, rfl⟩, ?_, ended.stored, ended.records, ended.spared,
     ended.goes_on⟩
    intro fine
    cases fine
  · obtain ⟨more, later⟩ := ih (ended.goes_on rfl)
    have head := ended.all rfl
    refine ⟨first ++ more, ?_, ?_, ?_, ?_, later.spared, ?_⟩
    · rw [List.map_append, head]
      exact (List.prefix_append_right_inj [ck]).mpr later.chunks
    · intro fine
      rw [List.map_append, head, later.all fine]
      rfl
    · intro s member
      exact (List.mem_append.mp member).elim (ended.stored s) (later.stored s)
    · rw [← List.append_assoc]
      exact later.records
    · rw [← List.append_assoc]
      exact later.goes_on

theorem holds_start (cfg : Config) (boundary : LayerBoundary) :
  Holds cfg boundary (Builder.start boundary) (cutting (rolls (policyOf cfg) boundary) []) :=
 ⟨follows_start cfg boundary, .nil⟩

theorem holds_feedAll (fed : feedAll env cfg cks (Builder.start boundary) = (b', .ok ())) :
  Holds cfg boundary b' (cutting (rolls (policyOf cfg) boundary) (storedChunks env.store cks)) := by
 obtain ⟨more, ended⟩ : ∃ more,
  Ended env cfg boundary cks [] (feedAll env cfg cks (Builder.start boundary)) more :=
  feedAll_ended (holds_start cfg boundary)
 rw [fed] at ended
 rw [← ended.all rfl, storedChunks_of_stored ended.stored]
 exact ended.goes_on rfl

theorem closed_prefix_cut (chunks : List StoredChunk) :
  (cutting (rolls (policyOf cfg) boundary) chunks).closed <+: cut (rolls (policyOf cfg) boundary)
  chunks := by
 unfold cut
 rcases closed_close (cutting (rolls (policyOf cfg) boundary) chunks) with same | ⟨g, more⟩
 · rw [same]
 · rw [more]
   exact List.prefix_append _ _

theorem buildWith_layered (env : Env) (cfg : Config) (feed : Feed) (boundary : LayerBoundary) :
  ∃ chunks, chunks.map StoredChunk.plain <+: number 0 feed.data ∧
   (∀ s ∈ chunks, storedOf env.store s.plain = .ok s.stored) ∧
   Layered (policyOf cfg) boundary chunks (buildWith env cfg feed boundary).1.layers ∧
   Spared (buildWith env cfg feed boundary).2 := by
 have empty : Layered (policyOf cfg) boundary [] (Builder.start boundary).layers :=
  ⟨[], List.nil_prefix, .nil⟩
 unfold buildWith
 dsimp only
 split
 · exact ⟨[], List.nil_prefix, by simp, empty, spared_error (by simp)⟩
 · split
   · exact ⟨[], List.nil_prefix, by simp, empty, spared_error (by simp)⟩
   · obtain ⟨more, ended⟩ : ∃ more, Ended env cfg boundary (number 0 feed.data) []
       (feedAll env cfg (number 0 feed.data) (Builder.start boundary)) more :=
      feedAll_ended (holds_start cfg boundary)
     obtain ⟨chunks, -, stored, records, spared, goes_on⟩ := ended
     rw [List.nil_append] at records goes_on
     have so_far (b' : Builder) (layers : b'.layers =
        (feedAll env cfg (number 0 feed.data) (Builder.start boundary)).1.layers) :
       Layered (policyOf cfg) boundary more b'.layers :=
      ⟨_, closed_prefix_cut more, layers ▸ records⟩
     rcases fed : feedAll env cfg (number 0 feed.data) (Builder.start boundary) with ⟨b₁, e | _⟩ <;>
      rw [fed] at records spared goes_on so_far
     · exact ⟨more, chunks, stored, so_far b₁ rfl, spared⟩
     · dsimp only [finish]
       split
       · exact ⟨more, chunks, stored, so_far b₁ rfl, spared_error (by simp)⟩
       · split
         · exact ⟨more, chunks, stored, so_far b₁ rfl, spared_error (by simp)⟩
         · split
           · exact ⟨more, chunks, stored, so_far b₁ rfl, spared_error (by simp)⟩
           · have holds := goes_on rfl
             have few := length_cutting_lt boundary (one_le_maxLayers cfg) more
             rw [← holds.follows.layerCount] at few
             refine ⟨more, chunks, stored, ?_, rollLayer_spared few rfl⟩
             rcases rolled : rollLayer env cfg b₁ with ⟨b₂, e | _⟩
             · exact so_far b₂ (rollLayer_error rolled).1
             · exact ⟨_, List.prefix_refl _, (holds_roll holds rolled).records⟩

end Runs

def plainEnv : Env where
 newSealer := none
 cancelled _ := none
 store := ⟨fun _ data => .ok data, none⟩
 createSpool _ := none
 writeSpool _ := none
 digestSpool _ := none
 closeSpool _ := none
 fileLayer _ := none
 writer := Index.Private.plainWriter
 host := default

def dedupConfig : Config := { (default : Config) with dedup := true, maxDataLayers := 118 }

def feedOf (data : List Bytes) : Feed := ⟨data, none, none, default, []⟩

end BackImage.Backup.BuilderLayers
