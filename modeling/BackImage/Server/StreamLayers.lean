/- source: pkg/server/stream.go, pkg/backup/pipeline.go
  digest: Both builders stay within their layer budget, under every schedule and every failure. -/

import BackImage.Backup.BuilderLayers
import BackImage.Server.StreamRefinement

namespace BackImage.Server.StreamLayers

open Backup.BuilderLayers Chunk.Boundary Go.Text Index.CutTables Index.LayerSizes Lib.Cut
open Server.Stream StreamRefinement
open Backup.Pipeline (Env Config Feed buildWith)

def isLimit : Phase → Bool
 | .aborting (.layerLimit _) => true
 | .finished (.error (.layerLimit _)) => true
 | _ => false

section Budget

variable (env : StreamEnv) (cfg : StreamConfig) (boundary : LayerBoundary) (data : List Bytes)

/-- The results are those of the first layers of the cut of some received chunks, and the layer in
flight is the next one. -/
def Landed (st : StreamState) : Prop :=
 ∃ done groups, done.map StoredChunk.plain <+: number 0 data ∧
  (∀ s ∈ done, storedOf env.store s.plain = .ok s.stored) ∧
  groups <+: cut (rolls (policyOf cfg) boundary) done ∧ st.results = resultsOf groups ∧
  (st.uploadErr = none → ∀ p, st.uploader = some p →
   ∃ g, groups ++ [g] <+: cut (rolls (policyOf cfg) boundary) done ∧ p = pendingOf groups g)

structure Budget (st : StreamState) : Prop where
 few : st.layerCount ≤ maxDataLayers
 spared : isLimit st.phase = false
 filled : ∀ p, st.uploader = some p → p.first ≤ p.last
 landed : Landed env cfg boundary data st

theorem budget_start : Budget env cfg boundary data (StreamState.start boundary data) := by
 refine ⟨Nat.zero_le _, rfl, ?_, [], [], List.nil_prefix, ?_, List.nil_prefix, rfl, ?_⟩
 · intro p flying
   cases flying
 · intro s member
   cases member
 · intro _ p flying
   cases flying

end Budget

section Steps

variable {env : StreamEnv} {cfg : StreamConfig} {boundary : LayerBoundary} {data : List Bytes}
 {st st' : StreamState}

theorem Landed.frame (landed : Landed env cfg boundary data st) (results : st'.results = st.results)
  (uploader : st'.uploader = st.uploader) (fine : st'.uploadErr = none → st.uploadErr = none) :
  Landed env cfg boundary data st' := by
 obtain ⟨done, groups, chunks, stored, front, landedAs, flying⟩ := landed
 refine ⟨done, groups, chunks, stored, front, results.trans landedAs, ?_⟩
 intro calm p here
 exact flying (fine calm) p (uploader ▸ here)

theorem Budget.frame (budget : Budget env cfg boundary data st)
  (count : st'.layerCount = st.layerCount)
  (results : st'.results = st.results) (uploader : st'.uploader = st.uploader)
  (uploadErr : st'.uploadErr = st.uploadErr) (spared : isLimit st'.phase = false) :
  Budget env cfg boundary data st' := by
 refine ⟨count ▸ budget.few, spared, ?_, budget.landed.frame results uploader fun calm => ?_⟩
 · rw [uploader]
   exact budget.filled
 · rw [← uploadErr]
   exact calm

theorem Landed.roll (landed : Landed env cfg boundary data st) (final : Bool) :
  Landed env cfg boundary data (roll st final) := by
 unfold Stream.roll
 split
 · exact landed.frame rfl rfl id
 · split
   · exact landed.frame rfl rfl id
   · exact landed.frame rfl rfl id

theorem uploader_roll (st : StreamState) (final : Bool) :
  (roll st final).uploader = st.uploader := by
 unfold roll
 split
 · rfl
 · split <;> rfl

theorem roll_budget (room : st.layerCount < maxDataLayers) (final : Bool) :
  (roll st final).layerCount ≤ maxDataLayers ∧ isLimit (roll st final).phase = false := by
 unfold roll
 split
 · refine ⟨Nat.le_of_lt room, ?_⟩
   cases final <;> rfl
 · rw [if_neg (Nat.not_le.mpr room)]
   exact ⟨room, rfl⟩

theorem finishUpload_landed {p : Pending} {fault : Option Str}
  (landed : Landed env cfg boundary data st)
  (flying : st.uploader = some p) : Landed env cfg boundary data (finishUpload st p fault) := by
 obtain ⟨done, groups, chunks, stored, front, landedAs, next⟩ := landed
 unfold finishUpload
 split
 · refine ⟨done, groups, chunks, stored, front, landedAs, ?_⟩
   intro _ q idle
   cases idle
 · refine ⟨done, groups, chunks, stored, front, landedAs, ?_⟩
   intro _ q idle
   cases idle
 · rename_i calm
   obtain ⟨g, longer, rfl⟩ := next calm p flying
   refine ⟨done, groups ++ [g], chunks, stored, longer, ?_, ?_⟩
   · rw [resultsOf_append, ← landedAs]
   · intro _ q idle
     cases idle

theorem isLimit_aborting {cause : StreamError} (other : ∀ limit, cause ≠ .layerLimit limit) :
  isLimit (.aborting cause) = false := by
 cases cause with
 | layerLimit limit => exact absurd rfl (other limit)
 | _ => rfl

theorem receiving_room (inv : Inv env cfg boundary data st) (here : st.phase = .receiving) :
  st.layerCount < maxDataLayers := by
 obtain ⟨⟨done, -, inPhase⟩, -⟩ := inv
 rw [here] at inPhase
 obtain ⟨-, -, owned, -⟩ := inPhase
 have budget : (policyOf cfg).maxLayers = (maxDataLayers : Int) := rfl
 have limit : maxDataLayers = 118 := rfl
 have few := length_cutting_lt boundary (show 1 ≤ (policyOf cfg).maxLayers by omega) done
 rw [owned.count]
 omega

theorem budget_receive (inv : Inv env cfg boundary data st)
  (budget : Budget env cfg boundary data st)
  (here : st.phase = .receiving) : Budget env cfg boundary data (receive env cfg st) := by
 have room := receiving_room inv here
 rcases receive_cases env cfg st with ⟨cause, other, is⟩ | ⟨-, is⟩ | ⟨ck, rest, stored, -, -, turn⟩
 · rw [is]
   exact budget.frame rfl rfl rfl rfl (isLimit_aborting other)
 · rw [is]
   obtain ⟨few, spared⟩ := roll_budget room true
   exact ⟨few, spared, by rw [uploader_roll]; exact budget.filled, budget.landed.roll true⟩
 · have kept : Landed env cfg boundary data (storeChunk { st with todo := rest } ⟨ck, stored⟩) :=
    budget.landed.frame rfl rfl id
   rcases turn with ⟨cause, other, is⟩ | is
   · rw [is]
     exact budget.frame rfl rfl rfl rfl (isLimit_aborting other)
   · rw [is]
     split
     · have room' : (storeChunk { st with todo := rest } ⟨ck, stored⟩).layerCount < maxDataLayers :=
        room
       obtain ⟨few, spared⟩ := roll_budget room' false
       exact ⟨few, spared, by rw [uploader_roll]; exact budget.filled, kept.roll false⟩
     · exact ⟨budget.few, budget.spared, budget.filled, kept⟩

theorem handing_cut {done : List StoredChunk} {before : List (List StoredChunk)}
  {g : List StoredChunk} {final : Bool}
  (groups : cutAt cfg boundary done final = ⟨before ++ [g], []⟩) :
  cut (rolls (policyOf cfg) boundary) done = before ++ [g] ∧
   (pendingOf before g).first ≤ (pendingOf before g).last := by
 have whole : cut (rolls (policyOf cfg) boundary) done = before ++ [g] := by
  cases final with
  | true => exact congrArg Cutting.closed groups
  | false =>
   have now : cutting (rolls (policyOf cfg) boundary) done = ⟨before ++ [g], []⟩ := groups
   rw [cut, now]
   rfl
 have filled : g ≠ [] := by
  have member : g ∈ cut (rolls (policyOf cfg) boundary) done := by simp [whole]
  exact ne_nil_of_mem_cut member
 have some_chunk := List.length_pos_iff.mpr filled
 refine ⟨whole, ?_⟩
 unfold pendingOf
 dsimp only
 omega

theorem handing_filled (inv : Inv env cfg boundary data st) {p : Pending} {final : Bool}
  (here : st.phase = .handing p final) : p.first ≤ p.last := by
 obtain ⟨⟨done, -, inPhase⟩, -⟩ := inv
 rw [here] at inPhase
 obtain ⟨before, g, groups, -, -, -, rfl, -, -⟩ := inPhase
 exact (handing_cut groups).2

theorem budget_handoff (inv : Inv env cfg boundary data st)
  (budget : Budget env cfg boundary data st)
  {p : Pending} {final : Bool} (here : st.phase = .handing p final) (idle : st.uploader = none) :
  Budget env cfg boundary data
   (applyBoundaryFallback cfg { st with phase := .handed final, uploader := some p }) := by
 have chosen : ∀ q, some p = some q → q.first ≤ q.last := by
  rintro q ⟨⟩
  exact handing_filled inv here
 refine ⟨budget.few, rfl, chosen, ?_⟩
 cases failed : st.uploadErr with
 | some e =>
  obtain ⟨done, groups, chunks, stored, front, landedAs, -⟩ := budget.landed
  refine ⟨done, groups, chunks, stored, front, landedAs, ?_⟩
  intro calm
  have never : some e = none := calm
  cases never
 | none =>
  obtain ⟨⟨done, received, inPhase⟩, -⟩ := inv
  rw [here] at inPhase
  obtain ⟨before, g, groups, -, -, -, rfl, -, shipped⟩ := inPhase
  have results := shipped failed
  rw [idle] at results
  obtain ⟨whole, -⟩ := handing_cut groups
  refine ⟨done, before, ⟨_, received.plains⟩, received.storedAs, ?_, results, ?_⟩
  · rw [whole]
    exact List.prefix_append _ _
  · rintro - q ⟨⟩
    exact ⟨g, by rw [whole], rfl⟩

theorem budget_drain (budget : Budget env cfg boundary data st) :
  Budget env cfg boundary data (drain env st) := by
 unfold drain
 split
 · exact budget.frame rfl rfl rfl rfl rfl
 · dsimp only
   split
   · exact budget.frame rfl rfl rfl rfl rfl
   · split
     · exact budget.frame rfl rfl rfl rfl rfl
     · exact budget.frame rfl rfl rfl rfl rfl

theorem budget_publish (budget : Budget env cfg boundary data st) :
  Budget env cfg boundary data (publish env cfg st) := by
 unfold publish
 split
 · exact budget.frame rfl rfl rfl rfl rfl
 · split
   · exact budget.frame rfl rfl rfl rfl rfl
   · refine budget.frame rfl rfl rfl rfl ?_
     dsimp only
     split <;> rfl

theorem budget_transition (inv : Inv env cfg boundary data st)
  (budget : Budget env cfg boundary data st)
  (happens : Transition env cfg st st') : Budget env cfg boundary data st' := by
 cases happens with
 | receives here => exact budget_receive inv budget here
 | stops cause other here => exact budget.frame rfl rfl rfl rfl (isLimit_aborting other)
 | handsOver p final here idle => exact budget_handoff inv budget here idle
 | notices cause final here => exact budget.frame rfl rfl rfl rfl rfl
 | resumes final here =>
  refine budget.frame rfl rfl rfl rfl ?_
  cases final <;> rfl
 | uploads p fault flying =>
  have landed : Landed env cfg boundary data (finishUpload st p fault) :=
   finishUpload_landed budget.landed flying
  obtain ⟨results, uploadErr, is⟩ := finishUpload_frame st p fault
  rw [is] at landed ⊢
  refine ⟨budget.few, budget.spared, ?_, landed⟩
  intro q idle
  cases idle
 | drains here idle => exact budget_drain budget
 | publishes here => exact budget_publish budget
 | aborts cause here =>
  refine budget.frame rfl rfl rfl rfl ?_
  have spared := budget.spared
  rw [here] at spared
  cases cause <;> first | rfl | cases spared

theorem budget_run {events : List Event} (inv : Inv env cfg boundary data st)
  (budget : Budget env cfg boundary data st) (ends : run env cfg st events = some st') :
  Budget env cfg boundary data st' := by
 have keeps : ∀ t u, Inv env cfg boundary data t ∧ Budget env cfg boundary data t →
   Transition env cfg t u → Inv env cfg boundary data u ∧ Budget env cfg boundary data u :=
  fun t u held happens =>
   ⟨inv_transition held.1 happens, budget_transition held.1 held.2 happens⟩
 exact (run_keeps ⟨inv, budget⟩ keeps ends).2

end Steps

theorem records_layersFrom (n next : Nat) (groups : List (List StoredChunk)) :
  List.Forall₂ Records (layersFrom n next groups) groups := by
 induction groups generalizing n next with
 | nil => exact .nil
 | cons g groups ih => exact .cons ⟨rfl, rfl⟩ (ih _ _)

def StoredFrom (store : Store) (data : List Bytes) (chunks : List StoredChunk) : Prop :=
 chunks.map StoredChunk.plain <+: number 0 data ∧ ∀ s ∈ chunks,
  storedOf store s.plain = .ok s.stored

/-- What a state of the server keeps to: at most 118 layers handed over, each with a chunk, the
uploaded and the published ones within the budget, and no error of the limit. -/
structure ServerWithin (env : StreamEnv) (cfg : StreamConfig) (boundary : LayerBoundary)
  (data : List Bytes) (st : StreamState) : Prop where
 few : st.layerCount ≤ 118
 spared : isLimit st.phase = false
 handing : ∀ p final, st.phase = .handing p final → p.first ≤ p.last
 flying : ∀ p, st.uploader = some p → p.first ≤ p.last
 uploaded : ∃ chunks, StoredFrom env.store data chunks ∧
  WithinBudget (policyOf cfg) boundary chunks (st.results.map LayerResult.info)
 published : ∀ md ∈ st.commits,
  WithinBudget (policyOf cfg) boundary (storedChunks env.store (number 0 data)) md.manifest.layers

theorem serverWithin_of_run {env : StreamEnv} {cfg : StreamConfig} {boundary : LayerBoundary}
  {data : List Bytes} {events : List Event} {st : StreamState}
  (ends : run env cfg (StreamState.start boundary data) events = some st) :
  ServerWithin env cfg boundary data st := by
 have inv := inv_run (inv_start env cfg boundary data) ends
 have budget := budget_run (inv_start env cfg boundary data) (budget_start env cfg boundary data)
  ends
 refine ⟨budget.few, budget.spared, fun p final here => handing_filled inv here,
  budget.filled, ?_, ?_⟩
 · obtain ⟨done, groups, chunks, stored, front, landedAs, -⟩ := budget.landed
   refine ⟨done, ⟨chunks, stored⟩, Layered.withinBudget rfl ⟨groups, front, ?_⟩⟩
   rw [landedAs, resultsOf_info]
   exact records_layersFrom 0 0 groups
 · intro md committed
   obtain ⟨-, describes⟩ := inv.published md committed
   refine Layered.withinBudget rfl ⟨_, List.prefix_refl _, ?_⟩
   rw [describes.layers]
   exact records_layersFrom 0 0 _

/-- Whatever the chunks, the boundary predicate, the failures and the schedule, neither builder
makes more than 118 layers or fails for their number, and no layer is empty; the layers that a
content boundary closes before the fallback keep to its sizes. -/
theorem layer_budget_holds (boundary : LayerBoundary) :
  (∀ (env : Env) (cfg : Config) (feed : Feed), cfg.maxDataLayers = 118 →
   (∃ chunks, StoredFrom env.store feed.data chunks ∧
    WithinBudget (Backup.Pipeline.policyOf cfg) boundary chunks
    (buildWith env cfg feed boundary).1.layers) ∧ Spared (buildWith env cfg feed boundary).2) ∧
  ∀ (env : StreamEnv) (cfg : StreamConfig) (data : List Bytes) (events : List Event)
   (st : StreamState),
   run env cfg (StreamState.start boundary data) events = some st →
   ServerWithin env cfg boundary data st := by
 constructor
 · intro env cfg feed budget
   obtain ⟨chunks, plains, stored, layered, spared⟩ := buildWith_layered env cfg feed boundary
   have limit : (Backup.Pipeline.policyOf cfg).maxLayers = 118 := by
    rw [maxLayers_of_positive (by rw [budget]; decide), budget]
   exact ⟨⟨chunks, ⟨plains, stored⟩, layered.withinBudget limit⟩, spared⟩
 · intro env cfg data events st ends
   exact serverWithin_of_run ends

theorem two_layers_within_budget :
  (buildWith plainEnv dedupConfig (feedOf [[1], [2, 3], [4]]) (fixedBoundary 3)).1.layers.length =
  2 ∧
   ∃ chunks, StoredFrom plainEnv.store [[1], [2, 3], [4]] chunks ∧
    WithinBudget (Backup.Pipeline.policyOf dedupConfig) (fixedBoundary 3) chunks
     (buildWith plainEnv dedupConfig (feedOf [[1], [2, 3], [4]]) (fixedBoundary 3)).1.layers :=
 ⟨by decide +kernel,
  ((layer_budget_holds (fixedBoundary 3)).1 plainEnv dedupConfig (feedOf [[1], [2, 3], [4]]) rfl).1⟩

end BackImage.Server.StreamLayers
