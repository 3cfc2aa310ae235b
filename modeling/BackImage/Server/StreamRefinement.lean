/- source: pkg/server/stream.go
  digest: Under every schedule the streaming server publishes the tables of the same cut. -/

import BackImage.Server.Stream

namespace BackImage.Server.StreamRefinement

open Chunk.Boundary Go.Sha256 Go.Text Index.CutTables Index.Limits Index.Model
open Server.Stream
open Index.Private hiding policyOf
open Lib.Cut (Cutting cutting cut cutting_append items_cutting flatten_cut ne_nil_of_mem_cut)

def pendingOf (before : List (List StoredChunk)) (g : List StoredChunk) : Pending :=
 ⟨⟨before.length, layerContent g, layerSize g⟩, before.length, before.flatten.length,
  (before.flatten.length : Int) + g.length - 1⟩

def resultsOf (groups : List (List StoredChunk)) : List LayerResult :=
 List.zipWith (fun info g => ⟨info, layerPath g⟩) (layersFrom 0 0 groups) groups

theorem resultsOf_append (groups : List (List StoredChunk)) (g : List StoredChunk) :
  resultsOf (groups ++ [g]) = resultsOf groups ++ [resultOf (pendingOf groups g)] := by
 rw [resultsOf, layersFrom_append, List.zipWith_append (layersFrom_length 0 0 groups)]
 simp [resultsOf, resultOf, pendingOf, layerPath]

theorem resultsOf_info (groups : List (List StoredChunk)) :
  (resultsOf groups).map LayerResult.info = layersFrom 0 0 groups := by
 induction groups using List.reverseRecOn with
 | nil => rfl
 | append_singleton groups g ih =>
  rw [resultsOf_append, List.map_append, ih, layersFrom_append]
  simp [resultOf, pendingOf]

theorem foldl_resultsOf (groups : List (List StoredChunk)) (tail : List Chunk) :
  (resultsOf groups).foldl
    (fun rows r => renameRows r.info.chunkFrom r.info.chunkTo r.dataPath rows)
    (groups.flatten.map (rowOf []) ++ tail) =
   groups.flatMap layerRows ++ tail := by
 induction groups using List.reverseRecOn generalizing tail with
 | nil => rfl
 | append_singleton groups g ih =>
  have size : (groups.flatMap layerRows).length = groups.flatten.length := by
   rw [List.length_flatMap, List.length_flatten]
   simp only [layerRows, List.length_map]
  have renamed : renameRows (groups.flatten.length : Int)
    ((groups.flatten.length : Int) + g.length - 1) (layerPath g)
    (groups.flatMap layerRows ++ (g.map (rowOf []) ++ tail)) = _ :=
   renameRows_append _ _ tail _ (by rw [size]) (by rw [size, List.length_map])
  rw [resultsOf_append, List.foldl_append]
  simp only [List.flatten_append, List.flatten_singleton, List.map_append, List.append_assoc]
  rw [ih]
  refine renamed.trans ?_
  simp [layerRows, rowOf]

section Invariant

variable (env : StreamEnv) (cfg : StreamConfig) (boundary : LayerBoundary) (data : List Bytes)

/-- Every layer handed over so far is a result or in flight, unless an upload failed. -/
def Shipped (st : StreamState) (handed : List (List StoredChunk)) : Prop :=
 st.uploadErr = none →
  match st.uploader with
  | none => st.results = resultsOf handed
  | some p => ∃ before g, handed = before ++ [g] ∧ p = pendingOf before g ∧
    st.results = resultsOf before

/-- What the receiver owns: its counters stand after `counted`, its boundary is the one after
`bounded`, and its spool holds `filling`. -/
structure Owned (st : StreamState) (counted bounded : List (List StoredChunk))
  (filling : List StoredChunk) : Prop where
 next : st.nextFrom = counted.flatten.length
 count : st.layerCount = counted.length
 inForce : st.boundary = boundaryAfter (policyOf cfg) boundary bounded
 fallback : st.boundaryFallback = fallenBack (policyOf cfg) bounded
 spool : st.spool = spoolOf counted.length filling

structure Received (st : StreamState) (done : List StoredChunk) : Prop where
 plains : done.map StoredChunk.plain ++ st.todo = number 0 data
 storedAs : ∀ s ∈ done, storedOf env.store s.plain = .ok s.stored
 counter : st.chunkIdx = done.length
 plain : st.plain = plainOf done

def cutAt (done : List StoredChunk) (final : Bool) : Cutting StoredChunk :=
 let c := cutting (rolls (policyOf cfg) boundary) done
 if final then c.close else c

def InPhase (st : StreamState) (done : List StoredChunk) : Phase → Prop
 | .receiving =>
  let c := cutting (rolls (policyOf cfg) boundary) done
  st.rows = done.map (rowOf []) ∧ st.layerInfo = [] ∧
   Owned cfg boundary st c.closed c.closed c.filling ∧ Shipped st c.closed
 | .handing p final => ∃ before g, cutAt cfg boundary done final = ⟨before ++ [g], []⟩ ∧
   (final = true → st.todo = []) ∧ st.rows = done.map (rowOf []) ∧ st.layerInfo = [] ∧
   p = pendingOf before g ∧ Owned cfg boundary st (before ++ [g]) before [] ∧ Shipped st before
 | .handed final => ∃ handed, cutAt cfg boundary done final = ⟨handed, []⟩ ∧
   (final = true → st.todo = []) ∧ st.rows = done.map (rowOf []) ∧ st.layerInfo = [] ∧
   Owned cfg boundary st handed handed [] ∧ Shipped st handed
 | .draining => st.todo = [] ∧ st.rows = done.map (rowOf []) ∧ st.layerInfo = [] ∧
   Shipped st (cut (rolls (policyOf cfg) boundary) done)
 | .publishing => st.todo = [] ∧
   st.rows = (cut (rolls (policyOf cfg) boundary) done).flatMap layerRows ∧
   st.layerInfo = layersFrom 0 0 (cut (rolls (policyOf cfg) boundary) done)
 | .aborting _ => True
 | .finished _ => True

def DescribesStream (md : Metadata) : Prop :=
 (storedChunks env.store (number 0 data)).map StoredChunk.plain = number 0 data ∧
  Describes md.manifest md.table
   (cut (rolls (policyOf cfg) boundary) (storedChunks env.store (number 0 data)))

structure Inv (st : StreamState) : Prop where
 progress : ∃ done, Received env data st done ∧ InPhase cfg boundary st done st.phase
 published : ∀ md ∈ st.commits, DescribesStream env cfg boundary data md

theorem inv_start : Inv env cfg boundary data (StreamState.start boundary data) := by
 refine ⟨⟨[], ⟨rfl, ?_, rfl, rfl⟩, rfl, rfl, ⟨rfl, rfl, ?_, ?_, rfl⟩, fun _ => rfl⟩, ?_⟩
 · intro s member
   cases member
 · simp [StreamState.start, cutting, Cutting.empty, boundaryAfter]
 · simp [StreamState.start, cutting, Cutting.empty, fallenBack]
 · intro md member
   cases member

end Invariant

section Steps

variable {env : StreamEnv} {cfg : StreamConfig} {boundary : LayerBoundary} {data : List Bytes}
 {st st' : StreamState} {done : List StoredChunk}

variable {c : Cutting StoredChunk} {final : Bool}

theorem inPhase_roll (closes : cutAt cfg boundary done final = c.close) (items : c.items = done)
  (exceeds : final = true → st.todo = []) (rows : st.rows = done.map (rowOf []))
  (fresh : st.layerInfo = []) (counter : st.chunkIdx = done.length)
  (owned : Owned cfg boundary st c.closed c.closed c.filling) (shipped : Shipped st c.closed) :
  InPhase cfg boundary (roll st final) done (roll st final).phase := by
 have spool := owned.spool
 by_cases filled : c.filling = []
 · have none_open : st.spool = none := by rw [spool, filled]; rfl
   have same : c.close = c := if_pos (by simp [filled])
   rw [same] at closes
   simp only [roll, none_open]
   cases final with
   | true =>
    refine ⟨exceeds rfl, rows, fresh, ?_⟩
    have groups : cut (rolls (policyOf cfg) boundary) done = c.closed :=
     congrArg Cutting.closed closes
    rw [groups]
    exact shipped
   | false =>
    have now : cutting (rolls (policyOf cfg) boundary) done = c := closes
    refine ⟨rows, fresh, ?_, ?_⟩
    · rw [now]
      exact { owned with spool := none_open.symm.trans spool }
    · rw [now]
      exact shipped
 · have some_open : st.spool = some ⟨c.closed.length, layerContent c.filling,
     layerSize c.filling⟩ := by
    rw [spool, spoolOf, if_neg (by simpa using filled)]
   have total : (c.closed ++ [c.filling]).flatten.length = done.length := by
    rw [← items]
    simp [Cutting.items]
   simp only [roll, some_open]
   split
   · trivial
   · refine ⟨c.closed,
      c.filling, by rw [closes, Cutting.close_of_ne_nil filled], exceeds, rows, fresh,
      ?_, ⟨?_, ?_, owned.inForce, owned.fallback, rfl⟩, shipped⟩
     · rw [owned.next, owned.count, counter, ← total]
       simp [pendingOf]
     · rw [total]
       exact counter
     · rw [List.length_append, ← owned.count]
       rfl

theorem owned_storeChunk {s : StoredChunk}
  (owned : Owned cfg boundary st c.closed c.closed c.filling) :
  Owned cfg boundary (storeChunk st s) c.closed c.closed (c.filling ++ [s]) := by
 refine ⟨owned.next, owned.count, owned.inForce, owned.fallback, ?_⟩
 change some _ = spoolOf c.closed.length (c.filling ++ [s])
 rw [spoolOf_append, ← owned.spool, owned.count]

theorem shouldRoll_eq {s : StoredChunk}
  (owned : Owned cfg boundary st c.closed c.closed (c.filling ++ [s])) :
  shouldRoll st (sum256 s.stored) =
   rolls (policyOf cfg) boundary c.closed (c.filling ++ [s]) := by
 have spool : st.spool = some ⟨c.closed.length, layerContent (c.filling ++ [s]),
   layerSize (c.filling ++ [s])⟩ := by
  rw [owned.spool]
  exact if_neg (by simp)
 rw [rolls_append]
 simp [shouldRoll, spool, owned.count, owned.inForce, policyOf]

theorem received_storeChunk {ck : PlainChunk} {rest : List PlainChunk} {stored : Bytes}
  (received : Received env data st done) (todo : st.todo = ck :: rest)
  (storedIs : storedOf env.store ck = .ok stored) :
  Received env data (storeChunk { st with todo := rest } ⟨ck, stored⟩)
   (done ++ [⟨ck, stored⟩]) := by
 refine ⟨?_, ?_, ?_, ?_⟩
 · rw [← received.plains, todo]
   simp [storeChunk]
 · intro s member
   rcases List.mem_append.mp member with old | new
   · exact received.storedAs s old
   · rw [List.mem_singleton.mp new]
     exact storedIs
 · rw [List.length_append, ← received.counter]
   rfl
 · rw [plainOf_append, ← received.plain]
   rfl

theorem inv_abort (received : Received env data st done)
  (published : ∀ md ∈ st.commits, DescribesStream env cfg boundary data md) (cause : StreamError) :
  Inv env cfg boundary data { st with phase := .aborting cause } :=
 ⟨⟨done, { received with }, trivial⟩, published⟩

theorem received_roll (received : Received env data st done) :
  Received env data (roll st final) done := by
 have same : (roll st final).todo = st.todo ∧ (roll st final).chunkIdx = st.chunkIdx ∧
   (roll st final).plain = st.plain := by
  unfold roll
  split
  · exact ⟨rfl, rfl, rfl⟩
  · split <;> exact ⟨rfl, rfl, rfl⟩
 obtain ⟨todo, counter, plain⟩ := same
 exact ⟨todo ▸ received.plains, received.storedAs, counter ▸ received.counter,
  plain ▸ received.plain⟩

theorem commits_roll (st : StreamState) (final : Bool) : (roll st final).commits = st.commits := by
 unfold roll
 split
 · rfl
 · split <;> rfl

theorem receive_cases (env : StreamEnv) (cfg : StreamConfig) (st : StreamState) :
  (∃ cause, (∀ limit, cause ≠ .layerLimit limit) ∧ receive env cfg st =
   { st with phase := .aborting cause }) ∨
   (st.todo = [] ∧ receive env cfg st = roll st true) ∨
   ∃ ck rest stored, st.todo = ck :: rest ∧ storedOf env.store ck = .ok stored ∧
    let stored_st := storeChunk { st with todo := rest } ⟨ck, stored⟩
    (∃ cause, (∀ limit, cause ≠ .layerLimit limit) ∧
     receive env cfg st = { stored_st with phase := .aborting cause }) ∨
     receive env cfg st =
      if shouldRoll stored_st (sum256 stored) then roll stored_st false else stored_st := by
 unfold receive
 grind

theorem inv_receive (inv : Inv env cfg boundary data st) (here : st.phase = .receiving) :
  Inv env cfg boundary data (receive env cfg st) := by
 obtain ⟨⟨done, received, inPhase⟩, published⟩ := inv
 rw [here] at inPhase
 obtain ⟨rows, fresh, owned, shipped⟩ := inPhase
 rcases receive_cases env cfg st with ⟨cause, -, is⟩ | ⟨todo, is⟩ |
  ⟨ck, rest, stored, todo, storedIs, turn⟩
 · rw [is]
   exact inv_abort received published cause
 · rw [is]
   refine ⟨⟨done, received_roll received, ?_⟩, by rwa [commits_roll]⟩
   exact inPhase_roll rfl (items_cutting _ done) (fun _ => todo) rows fresh
    received.counter owned shipped
 · have received' := received_storeChunk received todo storedIs
   have before : Owned cfg boundary { st with todo := rest }
     (cutting (rolls (policyOf cfg) boundary) done).closed _ _ :=
    { owned with }
   have owned' := owned_storeChunk (s := ⟨ck, stored⟩) before
   have rows' : st.rows ++ [rowOf [] ⟨ck, stored⟩] =
     (done ++ [(⟨ck, stored⟩ : StoredChunk)]).map (rowOf []) := by
    rw [List.map_append, rows]
    rfl
   rcases turn with ⟨cause, -, is⟩ | is
   · rw [is]
     exact inv_abort received' published cause
   · rw [is, shouldRoll_eq owned']
     split
     · rename_i closes
       refine ⟨⟨_, received_roll received', ?_⟩, by rwa [commits_roll]⟩
       refine inPhase_roll (c := (cutting (rolls (policyOf cfg) boundary) done).push
        ⟨ck, stored⟩) ?_ (by simp) nofun rows' fresh received'.counter owned' shipped
       rw [cutAt, if_neg (by simp), cutting_append, Cutting.step, if_pos closes]
     · rename_i stays
       have here' : (storeChunk { st with todo := rest } ⟨ck, stored⟩).phase = .receiving := here
       have now : cutting (rolls (policyOf cfg) boundary) (done ++ [⟨ck, stored⟩]) =
         (cutting (rolls (policyOf cfg) boundary) done).push ⟨ck, stored⟩ := by
        rw [cutting_append, Cutting.step, if_neg stays]
       refine ⟨⟨_, received', ?_⟩, published⟩
       rw [here']
       refine ⟨rows', fresh, ?_, ?_⟩
       · rw [now]
         exact owned'
       · rw [now]
         exact shipped

variable {p : Pending}

theorem shipped_finishUpload {handed : List (List StoredChunk)}
  (shipped : Shipped st handed) (flying : st.uploader = some p) (fault : Option Str) :
  Shipped (finishUpload st p fault) handed := by
 cases failed : st.uploadErr with
 | some e =>
  intro fine
  simp [finishUpload, failed] at fine
 | none =>
  cases fault with
  | some e =>
   intro fine
   simp [finishUpload, failed] at fine
  | none =>
   intro _
   have sofar := shipped failed
   rw [flying] at sofar
   obtain ⟨before, g, rfl, rfl, results⟩ := sofar
   simp only [finishUpload, failed]
   rw [results, resultsOf_append]

theorem finishUpload_frame (st : StreamState) (p : Pending) (fault : Option Str) :
  ∃ results uploadErr, finishUpload st p fault =
   { st with uploader := none, results := results, uploadErr := uploadErr } := by
 unfold finishUpload
 split <;> exact ⟨_, _, rfl⟩

section

variable (inv : Inv env cfg boundary data st)

include inv

theorem inv_upload
  (flying : st.uploader = some p) (fault : Option Str) :
  Inv env cfg boundary data (finishUpload st p fault) := by
 obtain ⟨⟨done, received, inPhase⟩, published⟩ := inv
 have ship : ∀ handed, Shipped st handed → Shipped (finishUpload st p fault) handed :=
  fun handed shipped => shipped_finishUpload shipped flying fault
 obtain ⟨results, uploadErr, is⟩ := finishUpload_frame st p fault
 rw [is] at ship ⊢
 have own : ∀ counted bounded filling, Owned cfg boundary st counted bounded filling →
   Owned cfg boundary { st with uploader := none, results := results, uploadErr := uploadErr }
    counted bounded filling :=
  fun _ _ _ owned => { owned with }
 refine ⟨⟨done, { received with }, ?_⟩, published⟩
 suffices keep : ∀ phase, InPhase cfg boundary st done phase → InPhase cfg boundary
   { st with uploader := none, results := results, uploadErr := uploadErr } done phase from
  keep st.phase inPhase
 intro phase inPhase
 cases phase with
 | receiving =>
  obtain ⟨rows, fresh, owned, shipped⟩ := inPhase
  exact ⟨rows, fresh, own _ _ _ owned, ship _ shipped⟩
 | handing q final =>
  obtain ⟨before, g, groups, exceeds, rows, fresh, q_is, owned, shipped⟩ := inPhase
  exact ⟨before, g, groups, exceeds, rows, fresh, q_is, own _ _ _ owned, ship _ shipped⟩
 | handed final =>
  obtain ⟨handed, groups, exceeds, rows, fresh, owned, shipped⟩ := inPhase
  exact ⟨handed, groups, exceeds, rows, fresh, own _ _ _ owned, ship _ shipped⟩
 | draining =>
  obtain ⟨exceeds, rows, fresh, shipped⟩ := inPhase
  exact ⟨exceeds, rows, fresh, ship _ shipped⟩
 | publishing => exact inPhase
 | aborting cause => trivial
 | finished outcome => trivial

theorem inv_handoff (here : st.phase = .handing p final) (idle : st.uploader = none) :
  Inv env cfg boundary data
   (applyBoundaryFallback cfg { st with phase := .handed final, uploader := some p }) := by
 obtain ⟨⟨done, received, inPhase⟩, published⟩ := inv
 rw [here] at inPhase
 obtain ⟨before, g, groups, exceeds, rows, fresh, p_is, owned, shipped⟩ := inPhase
 have plain : st.plain = plainOf (before ++ [g]).flatten := by
  have items : (cutAt cfg boundary done final).items = done := by
   unfold cutAt
   split <;> simp
  rw [groups, Cutting.items, List.append_nil] at items
  rw [received.plain, items]
 have count : st.layerCount = before.length + 1 := by
  rw [owned.count, List.length_append]
  rfl
 have moved := fallbackBoundary_eq (policyOf cfg) boundary before g
 rw [← owned.fallback, ← owned.inForce, ← plain, ← count] at moved
 refine ⟨⟨done, { received with }, ?_⟩, published⟩
 refine ⟨before ++ [g], groups, exceeds, rows, fresh,
  ⟨owned.next, owned.count, ?_, ?_, owned.spool⟩, ?_⟩
 · exact congrArg Prod.fst moved
 · exact congrArg Prod.snd moved
 · intro fine
   have sofar := shipped fine
   rw [idle] at sofar
   exact ⟨before, g, rfl, p_is, sofar⟩

theorem inv_resume (here : st.phase = .handed final) :
  Inv env cfg boundary data { st with phase := if final then .draining else .receiving } := by
 obtain ⟨⟨done, received, inPhase⟩, published⟩ := inv
 rw [here] at inPhase
 obtain ⟨handed, groups, exceeds, rows, fresh, owned, shipped⟩ := inPhase
 refine ⟨⟨done, { received with }, ?_⟩, published⟩
 cases final with
 | true =>
  have all : cut (rolls (policyOf cfg) boundary) done = handed := congrArg Cutting.closed groups
  refine ⟨exceeds rfl, rows, fresh, ?_⟩
  rw [all]
  exact shipped
 | false =>
  have now : cutting (rolls (policyOf cfg) boundary) done = ⟨handed, []⟩ := groups
  refine ⟨rows, fresh, ?_, ?_⟩
  · rw [now]
    exact { owned with }
  · rw [now]
    exact shipped

theorem inv_drain (here : st.phase = .draining)
  (idle : st.uploader = none) : Inv env cfg boundary data (drain env st) := by
 obtain ⟨⟨done, received, inPhase⟩, published⟩ := inv
 rw [here] at inPhase
 obtain ⟨exceeds, rows, fresh, shipped⟩ := inPhase
 have received' : ∀ phase, Received env data { foldResults st with phase := phase } done :=
  fun _ => { received with }
 unfold drain
 split
 · exact inv_abort received published _
 · rename_i fine
   have results := shipped fine
   rw [idle] at results
   dsimp only
   split
   · exact ⟨⟨done, received' _, trivial⟩, published⟩
   · split
     · exact ⟨⟨done, received' _, trivial⟩, published⟩
     · refine ⟨⟨done, received' _, exceeds, ?_, ?_⟩, published⟩
       · have folded := foldl_resultsOf (cut (rolls (policyOf cfg) boundary) done) []
         rw [flatten_cut, List.append_nil, List.append_nil] at folded
         simp only [foldResults, results, rows]
         exact folded
       · simp only [foldResults, results, fresh, List.nil_append]
         exact resultsOf_info _

end

theorem storedChunks_of_received (received : Received env data st done) (exceeds : st.todo = []) :
  storedChunks env.store (number 0 data) = done := by
 rw [← received.plains, exceeds, List.append_nil]
 exact storedChunks_of_stored received.storedAs

theorem inv_publish (inv : Inv env cfg boundary data st) (here : st.phase = .publishing) :
  Inv env cfg boundary data (publish env cfg st) := by
 obtain ⟨⟨done, received, inPhase⟩, published⟩ := inv
 rw [here] at inPhase
 obtain ⟨exceeds, rows, layers⟩ := inPhase
 have received' : ∀ phase commits, Received env data
   { st with phase := phase, commits := commits } done :=
  fun _ _ => { received with }
 have all := storedChunks_of_received received exceeds
 unfold publish
 split
 · exact ⟨⟨done, received' _ _, trivial⟩, published⟩
 · split
   · exact ⟨⟨done, received' _ _, trivial⟩, published⟩
   · rename_i scan _ md assembled
     refine ⟨⟨done, received' _ _, trivial⟩, ?_⟩
     intro md' member
     rcases List.mem_append.mp member with old | new
     · exact published md' old
     · rw [List.mem_singleton.mp new]
       unfold DescribesStream
       rw [all]
       refine ⟨?_, describes_of_assemble assembled ?_ layers rows⟩
       · rw [← received.plains, exceeds, List.append_nil]
       · rw [flatten_cut, ← received.counter]
         exact chunkingOf_count _ _ _ _ _

theorem inv_transition (inv : Inv env cfg boundary data st) (happens : Transition env cfg st st') :
  Inv env cfg boundary data st' := by
 obtain ⟨done, received, -⟩ := inv.progress
 have published := inv.published
 cases happens with
 | receives here => exact inv_receive inv here
 | stops cause _ _ => exact inv_abort received published cause
 | handsOver p final here idle => exact inv_handoff inv here idle
 | notices cause _ _ => exact inv_abort received published (.upload cause)
 | resumes final here => exact inv_resume inv here
 | uploads p fault flying => exact inv_upload inv flying fault
 | drains here idle => exact inv_drain inv here idle
 | publishes here => exact inv_publish inv here
 | aborts cause here =>
  exact ⟨⟨done, { received with }, trivial⟩, published⟩

theorem inv_run {events : List Event} (inv : Inv env cfg boundary data st)
  (ends : run env cfg st events = some st') : Inv env cfg boundary data st' :=
 run_keeps inv (fun _ _ inv happens => inv_transition inv happens) ends

theorem commit_accepted_iff {events : List Event} {md : Metadata}
  (ends : run env cfg (StreamState.start boundary data) events = some st)
  (committed : md ∈ st.commits)
  (storable : Storable (maxStoredChunkBytes md.manifest) (storedChunks env.store (number 0 data)))
  (free : CollisionFree {content | content ∈
   (cut (rolls (policyOf cfg) boundary) (storedChunks env.store (number 0 data))).map
    layerContent}) :
  validateChunkTable md.manifest md.table = .ok () ↔
   ((cut (rolls (policyOf cfg) boundary) (storedChunks env.store (number 0 data))).map
    layerContent).Nodup := by
 have inv := inv_run (inv_start env cfg boundary data) ends
 obtain ⟨plains, describes⟩ := inv.published md committed
 exact describes_accepted_iff describes (fun g member => ne_nil_of_mem_cut member)
  (by rw [flatten_cut]; exact numbered_storedChunks plains)
  (by rw [flatten_cut]; exact storable) free

end Steps

end BackImage.Server.StreamRefinement
