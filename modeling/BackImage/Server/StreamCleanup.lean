/- source: pkg/server/stream.go
  digest: Under every schedule a stream publishes once, only what is complete, and leaves no file
    behind. -/

import BackImage.Server.StreamSimulation

namespace BackImage.Server.StreamCleanup

open Chunk.Boundary Go.Text Index.CutTables Index.Model Index.Private Lib.Cut Lib.Transitions
open Goroutines StreamRefinement StreamSimulation
open Backup.Pipeline (TempFile)
open Server.Stream (StreamConfig StreamEnv StreamState Pending Phase LayerResult resultOf)

def uploaderFiles : Uploader → List TempFile
 | .took p => [.spool p.spool.idx]
 | .finishing p next => (if next.built then [.layer p.index] else []) ++ [.spool p.spool.idx]
 | _ => []

def sent : Phase → List Pending
 | .handing p _ => [p]
 | _ => []

def sentFile (phase : Phase) : List TempFile := (sent phase).map fun p => .spool p.spool.idx

def held (s : Session) : List TempFile :=
 uploaderFiles s.uploader ++ (sentFile s.core.phase ++ s.spoolFile.toList.map .spool)

/-- The files on disk are those owned, each as often as it is owned; until it is cleaned up, a
session that may still send has the file of its spool. -/
structure Tidy (s : Session) : Prop where
 files : s.disk.Perm (held s)
 spool : s.stage ≠ .cleaned → sending s.core.phase = true → s.spoolFile = s.core.spool.map Spool.idx

variable {env : StreamEnv} {cfg : StreamConfig} {s s' : Session} {boundary : LayerBoundary}
 {data : List Bytes}

theorem perm_erase {α : Type} [DecidableEq α] {files rest : List α} {file : α}
  (perm : files.Perm (file :: rest)) :
  (files.erase file).Perm rest := by
 have erased := perm.erase file
 rwa [List.erase_cons_head] at erased

theorem perm_release {p : Pending} {next : Call} {disk rest : List TempFile}
  (perm : disk.Perm (uploaderFiles (.finishing p next) ++ rest)) :
  (release p next disk).Perm rest := by
 unfold release
 unfold uploaderFiles at perm
 cases built : next.built <;>
  simp only [built, if_true, if_false, Bool.false_eq_true, List.nil_append,
  List.cons_append] at perm ⊢
 · exact perm_erase perm
 · exact perm_erase (perm_erase perm)

theorem sent_of_not_sending {phase : Phase} (silent : sending phase = false) : sent phase = [] := by
 cases phase with
 | handing p final => cases silent
 | _ => rfl

theorem Tidy.files_of_uploader {uploader : Uploader} (tidy : Tidy s) (is : s.uploader = uploader) :
  s.disk.Perm
  (uploaderFiles uploader ++ (sentFile s.core.phase ++ s.spoolFile.toList.map .spool)) := by
 rw [← is]
 exact tidy.files

theorem tidy_start (boundary : LayerBoundary) (data : List Bytes) : Tidy (.start boundary data) :=
 ⟨.refl _, fun _ _ => rfl⟩

theorem Tidy.receiving (tidy : Tidy s) (turn : Turn env cfg s s') :
  s.spoolFile = s.core.spool.map Spool.idx ∧ sentFile s.core.phase = [] := by
 obtain ⟨stage, phase, -⟩ := turn
 have spool := tidy.spool
 rw [stage, phase] at spool
 refine ⟨spool (by simp) rfl, ?_⟩
 rw [phase]
 rfl

theorem tidy_silent {core : StreamState} (files : s.disk.Perm (held s))
  (before : sentFile s.core.phase = [])
  (silent : sending core.phase = false) : Tidy { s with core := core } := by
 refine ⟨?_, ?_⟩
 · unfold held at files ⊢
   rw [before] at files
   dsimp only
   rw [sentFile, sent_of_not_sending silent]
   exact files
 · intro _ may
   rw [silent] at may
   cases may

theorem files_openSpool (files : s.disk.Perm (held s)) (before : sentFile s.core.phase = []) :
  (openSpool s).disk.Perm (held (openSpool s)) := by
 unfold openSpool
 split
 · exact files
 · rename_i missing
   simp only [held, before, missing, Option.toList_none, List.map_nil, List.append_nil] at files
   simp only [held, before, Option.toList_some, List.map_cons, List.map_nil, List.nil_append]
   exact (files.cons _).trans (List.perm_append_singleton _ _).symm

theorem spoolFile_openSpool (same : s.spoolFile = s.core.spool.map Spool.idx) :
  (openSpool s).spoolFile = some (s.core.spool.getD ⟨s.core.layerCount, [], 0⟩).idx := by
 unfold openSpool
 cases current : s.core.spool with
 | none =>
  rw [current] at same
  rw [same]
  rfl
 | some spool =>
  rw [current] at same
  rw [same]
  exact same

theorem tidy_storeChunk (tidy : Tidy s) (turn : Turn env cfg s s') (rest : List PlainChunk)
  (stored : StoredChunk) :
  Tidy (storeChunk s rest stored) := by
 obtain ⟨same, before⟩ := tidy.receiving turn
 refine ⟨?_, fun _ _ => spoolFile_openSpool same⟩
 have files := files_openSpool tidy.files before
 unfold held at files
 rw [openSpool_core] at files
 exact files

theorem tidy_roll (files : s.disk.Perm (held s)) (same : s.spoolFile = s.core.spool.map Spool.idx)
  (before : sentFile s.core.phase = []) (final : Bool) : Tidy (roll s final) := by
 rcases roll_cases s final with ⟨-, is⟩ | ⟨cause, is⟩ | ⟨p, count, current, is⟩
 · rw [is]
   cases final with
   | true => exact tidy_silent files before rfl
   | false =>
    refine ⟨?_, fun _ _ => same⟩
    unfold held at files
    rw [before] at files
    exact files
 · rw [is]
   exact tidy_silent files before rfl
 · rw [is]
   have file : s.spoolFile = some p.spool.idx := by rw [same, current]; rfl
   refine ⟨?_, fun _ _ => rfl⟩
   unfold held at files
   rw [before, file] at files
   exact files

theorem tidy_move (tidy : Tidy s) (ordered : Ordered s) (move : Move env cfg s s') : Tidy s' := by
 have ⟨files, spool⟩ := tidy
 cases move with
 | refused stage => exact ⟨files, fun _ may => spool (by rw [stage]; simp) may⟩
 | begun stage =>
  refine ⟨?_, fun _ may => spool (by rw [stage]; simp) may⟩
  unfold held at files
  rw [(ordered.early (.inl stage)).1] at files
  exact files
 | givesUp cause turn => exact tidy_silent files (tidy.receiving turn).2 rfl
 | spoolFails cause turn =>
  have before := (tidy.receiving turn).2
  refine tidy_silent (files_openSpool files before) ?_ rfl
  rw [openSpool_core]
  exact before
 | ends turn todo clean =>
  obtain ⟨same, before⟩ := tidy.receiving turn
  exact tidy_roll files same before true
 | exceeds cause ck rest stored turn todo =>
  exact tidy_silent (tidy_storeChunk tidy turn rest ⟨ck, stored⟩).files (tidy.receiving turn).2 rfl
 | stores ck rest stored turn todo => exact tidy_storeChunk tidy turn rest ⟨ck, stored⟩
 | rolls ck rest stored turn todo =>
  obtain ⟨same, before⟩ := tidy.receiving turn
  have stored_files := (tidy_storeChunk tidy turn rest ⟨ck, stored⟩).files
  exact tidy_roll stored_files (spoolFile_openSpool same) before false
 | hands p final phase uploader closed =>
  refine ⟨?_, fun stage _ => spool stage (by rw [phase]; rfl)⟩
  unfold held at files
  rw [phase, uploader] at files
  exact files
 | failed cause final phase failure => exact tidy_silent files (by rw [phase]; rfl) rfl
 | resumes final phase calm =>
  have before : sentFile s.core.phase = [] := by rw [phase]; rfl
  cases final with
  | true => exact tidy_silent files before rfl
  | false =>
   refine ⟨?_, fun stage _ => spool stage (by rw [phase]; rfl)⟩
   unfold held at files
   rw [before] at files
   exact files
 | skips p cause uploader failure => exact ⟨perm_erase (tidy.files_of_uploader uploader), spool⟩
 | looks p uploader calm =>
  have files := tidy.files_of_uploader uploader
  exact ⟨files, spool⟩
 | advances p next uploader other =>
  have files := tidy.files_of_uploader uploader
  cases next with
  | upload => exact absurd rfl other
  | newFileLayer => exact ⟨files.cons _, spool⟩
  | _ => exact ⟨files, spool⟩
 | breaks p next cause uploader => exact ⟨perm_release (tidy.files_of_uploader uploader), spool⟩
 | lands p landing uploader => exact ⟨perm_release (tidy.files_of_uploader uploader), spool⟩
 | reports p cause uploader =>
  have files := tidy.files_of_uploader uploader
  exact ⟨files, spool⟩
 | closes stage phase closed => exact ⟨files, spool⟩
 | stops uploader closed =>
  have files := tidy.files_of_uploader uploader
  exact ⟨files, spool⟩
 | drains phase uploader => exact tidy_silent files (by rw [phase]; rfl) (sending_drain env s.core)
 | publishes phase => exact tidy_silent files (by rw [phase]; rfl) (sending_publish env cfg s.core)
 | aborts cause phase uploader => exact tidy_silent files (by rw [phase]; rfl) rfl
 | cleans returned =>
  have nothing_else : uploaderFiles s.uploader = [] ∧ sentFile s.core.phase = [] := by
   rcases returned with ⟨stage, uploader⟩ | ⟨-, ⟨outcome, finished⟩, uploader⟩
   · rw [uploader, (ordered.early (.inr stage)).2]
     exact ⟨rfl, rfl⟩
   · rw [uploader, finished]
     exact ⟨rfl, rfl⟩
  obtain ⟨idle, before⟩ := nothing_else
  unfold held at files
  rw [idle, before] at files
  unfold cleanup
  split
  · rename_i file current
    rw [current] at files
    refine ⟨?_, by simp⟩
    unfold held
    rw [idle, before]
    exact perm_erase files
  · refine ⟨?_, by simp⟩
    unfold held
    rw [idle, before]
    exact files

theorem disk_of_cleaned (tidy : Tidy s) (ordered : Ordered s) (cleaned : s.stage = .cleaned) :
  s.disk = [] := by
 obtain ⟨no_spool, ended⟩ := ordered.done cleaned
 have files := tidy.files
 unfold held at files
 rw [no_spool] at files
 rcases ended with ⟨uploader, phase⟩ | ⟨uploader, outcome, phase⟩
 · rw [uploader, phase] at files
   exact files.eq_nil
 · rw [uploader, phase] at files
   exact files.eq_nil

/-- The uploader has taken every layer sent but the one on its way, and without a failure every
layer taken is in the registry but the one in flight. -/
structure Logged (s : Session) : Prop where
 handed : s.handed = s.taken ++ sent s.core.phase
 landed : s.core.uploadErr = none → s.taken = s.landed.map Prod.fst ++ s.uploader.layer.toList
 results : s.core.results = s.landed.map fun l => resultOf l.1

theorem logged_start (boundary : LayerBoundary) (data : List Bytes) :
  Logged (.start boundary data) :=
 ⟨rfl, fun _ => rfl, rfl⟩

theorem Logged.silent {core : StreamState} (logged : Logged s) (before : sent s.core.phase = [])
  (after : sent core.phase = []) (failure : core.uploadErr = s.core.uploadErr)
  (results : core.results = s.core.results) : Logged { s with core := core } := by
 refine ⟨?_, ?_, ?_⟩
 · have handed := logged.handed
   rw [before] at handed
   dsimp only
   rw [after]
   exact handed
 · dsimp only
   rw [failure]
   exact logged.landed
 · exact results.trans logged.results

theorem logged_openSpool (logged : Logged s) : Logged (openSpool s) := by
 unfold openSpool
 split
 · exact logged
 · exact { logged with }

theorem logged_storeChunk (logged : Logged s) (rest : List PlainChunk) (stored : StoredChunk) :
  Logged (storeChunk s rest stored) := by
 obtain ⟨handed, landed, results⟩ := logged_openSpool logged
 rw [openSpool_core] at handed landed results
 exact ⟨handed, landed, results⟩

theorem logged_roll (logged : Logged s) (before : sent s.core.phase = []) (final : Bool) :
  Logged (roll s final) := by
 rcases roll_cases s final with ⟨-, is⟩ | ⟨cause, is⟩ | ⟨p, count, -, is⟩
 · rw [is]
   cases final <;> exact logged.silent before rfl rfl rfl
 · rw [is]
   exact logged.silent before rfl rfl rfl
 · rw [is]
   have handed := logged.handed
   rw [before, List.append_nil] at handed
   exact ⟨congrArg (· ++ [p]) handed, logged.landed, logged.results⟩

theorem drain_results (env : StreamEnv) (st : StreamState) :
  (Stream.drain env st).results = st.results := by
 unfold Stream.drain Stream.foldResults
 dsimp only
 repeat' split
 all_goals rfl

theorem publish_results (env : StreamEnv) (cfg : StreamConfig) (st : StreamState) :
  (Stream.publish env cfg st).results = st.results := by
 unfold Stream.publish
 repeat' split
 all_goals rfl

theorem logged_move (logged : Logged s) (ordered : Ordered s) (move : Move env cfg s s') :
  Logged s' := by
 have ⟨handed, landed, results⟩ := logged
 cases move with
 | refused stage => exact ⟨handed, landed, results⟩
 | begun stage =>
  rw [(ordered.early (.inl stage)).1] at landed
  exact ⟨handed, landed, results⟩
 | givesUp cause turn => exact logged.silent (by rw [turn.2.1]; rfl) rfl rfl rfl
 | spoolFails cause turn =>
  refine (logged_openSpool logged).silent ?_ rfl rfl rfl
  rw [openSpool_core, turn.2.1]
  rfl
 | ends turn todo clean => exact logged_roll logged (by rw [turn.2.1]; rfl) true
 | exceeds cause ck rest stored turn todo =>
  refine (logged_storeChunk logged rest ⟨ck, stored⟩).silent ?_ rfl rfl rfl
  change sent s.core.phase = []
  rw [turn.2.1]
  rfl
 | stores ck rest stored turn todo => exact logged_storeChunk logged rest ⟨ck, stored⟩
 | rolls ck rest stored turn todo =>
  refine logged_roll (logged_storeChunk logged rest ⟨ck, stored⟩) ?_ false
  change sent s.core.phase = []
  rw [turn.2.1]
  rfl
 | hands p final phase uploader closed =>
  rw [phase] at handed
  rw [uploader] at landed
  refine ⟨?_, ?_, results⟩
  · rw [handed]
    exact (List.append_nil _).symm
  · intro calm
    have before : s.taken = s.landed.map Prod.fst ++ [] := landed calm
    dsimp only
    rw [before, List.append_nil]
    rfl
 | failed cause final phase failure => exact logged.silent (by rw [phase]; rfl) rfl rfl rfl
 | resumes final phase calm =>
  refine logged.silent (by rw [phase]; rfl) ?_ rfl rfl
  cases final <;> rfl
 | skips p cause uploader failure =>
  refine ⟨handed, ?_, results⟩
  intro calm
  have never : s.core.uploadErr = none := calm
  rw [failure] at never
  cases never
 | looks p uploader calm =>
  rw [uploader] at landed
  exact ⟨handed, landed, results⟩
 | advances p next uploader other =>
  rw [uploader] at landed
  cases next with
  | upload => exact absurd rfl other
  | _ => exact ⟨handed, landed, results⟩
 | breaks p next cause uploader =>
  rw [uploader] at landed
  exact ⟨handed, landed, results⟩
 | lands p landing uploader =>
  rw [uploader] at landed
  refine ⟨handed, ?_, ?_⟩
  · intro calm
    have before : s.taken = s.landed.map Prod.fst ++ [p] := landed calm
    simp [land, before, Uploader.layer]
  · simp [land, results]
 | reports p cause uploader =>
  refine ⟨handed, ?_, results⟩
  intro calm
  have never : s.core.uploadErr.or (some cause) = none := calm
  simp at never
 | closes stage phase closed => exact ⟨handed, landed, results⟩
 | stops uploader closed =>
  rw [uploader] at landed
  exact ⟨handed, landed, results⟩
 | drains phase uploader =>
  exact logged.silent (by rw [phase]; rfl) (sent_of_not_sending (sending_drain env s.core))
   (drain_uploader env s.core).2 (drain_results env s.core)
 | publishes phase =>
  exact logged.silent (by rw [phase]; rfl) (sent_of_not_sending (sending_publish env cfg s.core))
   (publish_uploader env cfg s.core).2 (publish_results env cfg s.core)
 | aborts cause phase uploader => exact logged.silent (by rw [phase]; rfl) rfl rfl rfl
 | cleans returned =>
  unfold cleanup
  split <;> exact ⟨handed, landed, results⟩

/-- From layer `n` and chunk `next` on, the layers are numbered in order and their chunk ranges,
none of them empty, follow each other up to `total`. -/
def Tiles : Nat → Int → List LayerInfo → Int → Prop
 | _, next, [], total => next = total
 | n, next, l :: layers, total =>
  l.index = n ∧ l.chunkFrom = next ∧ l.chunkFrom ≤ l.chunkTo ∧
   Tiles (n + 1) (l.chunkTo + 1) layers total

theorem tiles_layersFrom {groups : List (List StoredChunk)} (filled : ∀ g ∈ groups, g ≠ [])
  (n next : Nat) :
  Tiles n next (layersFrom n next groups) (next + groups.flatten.length : Nat) := by
 induction groups generalizing n next with
 | nil => simp [layersFrom, Tiles]
 | cons g groups ih =>
  have some_chunk := List.length_pos_iff.mpr (filled g List.mem_cons_self)
  have later := ih (fun h member => filled h (List.mem_cons_of_mem g member)) (n + 1)
   (next + g.length)
  refine ⟨rfl, rfl, ?_, ?_⟩
  · dsimp only
    omega
  · have starts : ((next : Int) + g.length - 1) + 1 = ((next + g.length : Nat) : Int) := by
     push_cast
     omega
    have ends : next + (g :: groups).flatten.length = next + g.length + groups.flatten.length := by
     rw [List.flatten_cons, List.length_append, Nat.add_assoc]
    dsimp only
    rw [starts, ends]
    exact later

/-- A backup as it may be published: the stream and the scan ended well, and the manifest has every
layer handed over, in order, with chunk ranges that cover the table. -/
structure Complete (env : StreamEnv) (s : Session) (md : Metadata) : Prop where
 ended : s.core.todo = [] ∧ env.splitErr = none
 scanned : ∃ scan, env.scan = .ok scan
 landed : s.landed.map Prod.fst = s.handed
 layers : md.manifest.layers = s.handed.map fun p => (resultOf p).info
 tiles : Tiles 0 0 md.manifest.layers md.table.chunks.length

def late : Phase → Bool
 | .handing _ final => final
 | .handed final => final
 | .draining => true
 | .publishing => true
 | _ => false

structure Published (env : StreamEnv) (s : Session) : Prop where
 clean : late s.core.phase = true → env.splitErr = none
 fresh : (∀ outcome, s.core.phase ≠ .finished outcome) → s.core.commits = []
 once : s.core.commits.length ≤ 1
 ready : s.core.phase = .publishing → (∃ scan, env.scan = .ok scan) ∧ s.core.uploadErr = none ∧
  s.core.layerInfo = s.core.results.map LayerResult.info
 complete : ∀ md ∈ s.core.commits, Complete env s md

theorem published_start (boundary : LayerBoundary) (data : List Bytes) :
  Published env (.start boundary data) := by
 refine ⟨?_, fun _ => rfl, Nat.zero_le _, ?_, ?_⟩
 · intro never
   cases never
 · intro never
   cases never
 · intro md member
   cases member

theorem published_of_nil (none_yet : s.core.commits = [])
  (clean : late s.core.phase = true → env.splitErr = none)
  (unready : s.core.phase ≠ .publishing) : Published env s := by
 refine ⟨clean, fun _ => none_yet, ?_, fun here => absurd here unready, ?_⟩
 · rw [none_yet]
   exact Nat.zero_le _
 · rw [none_yet]
   intro md member
   cases member

theorem Published.unsettled (published : Published env s) (ordered : Ordered s)
  (works : active s.uploader = true) :
  s.core.commits = [] ∧ s.core.phase ≠ .publishing := by
 have unsettled : settled s.core.phase ≠ true := by
  intro ended
  rw [ordered.waited ended] at works
  cases works
 refine ⟨published.fresh ?_, ?_⟩
 · intro outcome finished
   rw [finished] at unsettled
   exact unsettled rfl
 · intro publishing
   rw [publishing] at unsettled
   exact unsettled rfl

theorem Published.same (published : Published env s) (core : s'.core = s.core)
  (handed : s'.handed = s.handed) (landed : s'.landed = s.landed) : Published env s' := by
 obtain ⟨clean, fresh, once, ready, complete⟩ := published
 rw [← core] at clean fresh once ready complete
 refine ⟨clean, fresh, once, ready, ?_⟩
 intro md member
 obtain ⟨ended, scanned, all, layers, tiles⟩ := complete md member
 rw [← core] at ended
 rw [← handed] at all layers
 rw [← landed] at all
 exact ⟨ended, scanned, all, layers, tiles⟩

theorem late_roll {final : Bool} (is_late : late (roll s final).core.phase = true) :
  final = true := by
 rcases roll_cases s final with ⟨-, is⟩ | ⟨cause, is⟩ | ⟨p, count, -, is⟩ <;> rw [is] at is_late
 · cases final
   · cases is_late
   · rfl
 · cases is_late
 · exact is_late

theorem Published.turn (published : Published env s) (turn : Turn env cfg s s')
  (clean : late s'.core.phase = true → env.splitErr = none) : Published env s' := by
 have frame := Turn.frame turn
 have none_yet : s.core.commits = [] := published.fresh (by rw [turn.2.1]; simp)
 refine published_of_nil (frame.commits.trans none_yet) clean ?_
 intro publishing
 have unsettled := frame.unsettled
 rw [publishing] at unsettled
 cases unsettled

theorem Published.uploads (published : Published env s) (ordered : Ordered s)
  (works : active s.uploader = true)
  (commits : s'.core.commits = s.core.commits) (lateness : late s'.core.phase = late s.core.phase)
  (unready : s'.core.phase = .publishing → s.core.phase = .publishing) : Published env s' := by
 obtain ⟨none_yet, not_here⟩ := published.unsettled ordered works
 refine published_of_nil (commits.trans none_yet) ?_ fun here => not_here (unready here)
 rw [lateness]
 exact published.clean

theorem published_drain (published : Published env s) (coupled : Coupled env cfg boundary data s)
  (phase : s.core.phase = .draining) :
  Published env { s with core := Stream.drain env s.core } := by
 have none_yet : s.core.commits = [] := published.fresh (by rw [phase]; simp)
 have clean : env.splitErr = none := published.clean (by rw [phase]; rfl)
 obtain ⟨⟨done, -, inPhase⟩, -⟩ := coupled.reached.inv
 rw [phase] at inPhase
 obtain ⟨-, -, fresh, -⟩ := inPhase
 unfold Stream.drain
 split
 · exact published_of_nil none_yet (fun _ => clean) (by simp)
 · rename_i calm
   dsimp only
   split
   · exact published_of_nil none_yet (fun _ => clean) (by simp)
   · rename_i scan scanned
     split
     · exact published_of_nil none_yet (fun _ => clean) (by simp)
     · refine ⟨fun _ => clean, fun _ => none_yet, ?_, ?_, ?_⟩
       · change s.core.commits.length ≤ 1
         rw [none_yet]
         exact Nat.zero_le _
       · intro _
         refine ⟨⟨scan, scanned⟩, calm, ?_⟩
         change s.core.layerInfo ++ s.core.results.map LayerResult.info = _
         rw [fresh]
         rfl
       · change ∀ md ∈ s.core.commits, _
         rw [none_yet]
         intro md member
         cases member

theorem publish_cases (env : StreamEnv) (cfg : StreamConfig) (st : StreamState) :
  (∃ cause, Stream.publish env cfg st = { st with phase := .finished (.error cause) }) ∨
   ∃ md outcome, md.manifest.layers = st.layerInfo ∧
    Stream.publish env cfg st =
     { st with phase := .finished outcome, commits := st.commits ++ [md] } := by
 unfold Stream.publish
 split
 · exact .inl ⟨_, rfl⟩
 · split
   · exact .inl ⟨_, rfl⟩
   · rename_i md assembled
     exact .inr ⟨md, _, (assemble_ok assembled).2.1, rfl⟩

theorem tiles_of_described {md : Metadata} (described : DescribesStream env cfg boundary data md) :
  Tiles 0 0 md.manifest.layers md.table.chunks.length := by
 obtain ⟨-, -, layers, strip, -, rows⟩ := described
 have filled :
  ∀ g ∈ cut (rolls (Stream.policyOf cfg) boundary) (storedChunks env.store (number 0 data)),
   g ≠ [] :=
  fun g member => ne_nil_of_mem_cut member
 have tiles := tiles_layersFrom filled 0 0
 have size : md.table.chunks.length = (cut (rolls (Stream.policyOf cfg) boundary)
   (storedChunks env.store (number 0 data))).flatten.length := by
  rw [rows, List.length_map, List.length_flatMap, List.length_flatten]
  simp only [layerRows, List.length_map]
 rw [Nat.zero_add, ← size, ← layers] at tiles
 exact tiles

theorem published_publish (published : Published env s) (coupled : Coupled env cfg boundary data s)
  (ordered : Ordered s) (logged : Logged s) (phase : s.core.phase = .publishing) :
  Published env { s with core := Stream.publish env cfg s.core } := by
 have none_yet : s.core.commits = [] := published.fresh (by rw [phase]; simp)
 have clean : env.splitErr = none := published.clean (by rw [phase]; rfl)
 obtain ⟨scanned, calm, layerInfo⟩ := published.ready phase
 have next := (coupled.reached.step (step_publish phase)).inv
 rcases publish_cases env cfg s.core with ⟨cause, is⟩ | ⟨md, outcome, layers, is⟩
 · rw [is]
   exact published_of_nil none_yet (fun _ => clean) (by simp)
 · rw [is] at next ⊢
   obtain ⟨⟨done, -, inPhase⟩, -⟩ := coupled.reached.inv
   rw [phase] at inPhase
   have handed := logged.handed
   have landed := logged.landed calm
   rw [phase] at handed
   rw [ordered.waited (by rw [phase]; rfl)] at landed
   have all : s.landed.map Prod.fst = s.handed := by
    rw [handed, landed]
    simp [sent, Uploader.layer]
   refine ⟨fun _ => clean, fun never => absurd rfl (never outcome), ?_, by simp, ?_⟩
   · simp [none_yet]
   · intro md' member
     have only : md' = md := by simpa [none_yet] using member
     subst only
     refine ⟨⟨inPhase.1, clean⟩, scanned, all, ?_, tiles_of_described (next.published md' member)⟩
     rw [layers, layerInfo, logged.results, ← all]
     simp

theorem published_move (published : Published env s) (coupled : Coupled env cfg boundary data s)
  (ordered : Ordered s) (logged : Logged s) (move : Move env cfg s s') : Published env s' := by
 have clean := published.clean
 have fresh := published.fresh
 cases move with
 | refused stage => exact published.same rfl rfl rfl
 | begun stage => exact published.same rfl rfl rfl
 | givesUp cause turn => exact published.turn turn (by simp [Goroutines.Session.abort, late])
 | spoolFails cause turn => exact published.turn turn (by simp [Goroutines.Session.abort, late])
 | ends turn todo splits => exact published.turn turn (fun _ => splits)
 | exceeds cause ck rest stored turn todo =>
  exact published.turn turn (by simp [Goroutines.Session.abort, late])
 | stores ck rest stored turn todo =>
  refine published.turn turn ?_
  change late s.core.phase = true → _
  exact clean
 | rolls ck rest stored turn todo =>
  refine published.turn turn ?_
  intro is_late
  cases late_roll is_late
 | hands p final phase uploader closed =>
  refine published.uploads ordered (by rw [uploader]; rfl) rfl ?_ ?_
  · rw [phase]
    rfl
  · intro never
    cases never
 | failed cause final phase failure =>
  exact published_of_nil (fresh (by rw [phase]; simp)) (by simp [Goroutines.Session.abort, late])
   (by simp [Goroutines.Session.abort])
 | resumes final phase calm =>
  rw [phase] at clean fresh
  cases final with
  | true => exact published_of_nil (fresh (by simp)) clean (by simp)
  | false => exact published_of_nil (fresh (by simp)) (by simp [late]) (by simp)
 | skips p cause uploader failure =>
  exact published.uploads ordered (by rw [uploader]; rfl) rfl rfl id
 | looks p uploader calm => exact published.uploads ordered (by rw [uploader]; rfl) rfl rfl id
 | advances p next uploader other =>
  have works : active s.uploader = true := by rw [uploader]; rfl
  cases next with
  | upload => exact absurd rfl other
  | _ => exact published.uploads ordered works rfl rfl id
 | breaks p next cause uploader =>
  exact published.uploads ordered (by rw [uploader]; rfl) rfl rfl id
 | lands p landing uploader => exact published.uploads ordered (by rw [uploader]; rfl) rfl rfl id
 | reports p cause uploader => exact published.uploads ordered (by rw [uploader]; rfl) rfl rfl id
 | closes stage phase closed => exact published.same rfl rfl rfl
 | stops uploader closed => exact published.uploads ordered (by rw [uploader]; rfl) rfl rfl id
 | drains phase uploader => exact published_drain published coupled phase
 | publishes phase => exact published_publish published coupled ordered logged phase
 | aborts cause phase uploader =>
  exact published_of_nil (fresh (by rw [phase]; simp)) (by simp [late]) (by simp)
 | cleans returned =>
  unfold cleanup
  split <;> exact published.same rfl rfl rfl

structure Sound (env : StreamEnv) (cfg : StreamConfig) (boundary : LayerBoundary)
  (data : List Bytes) (s : Session) : Prop where
 coupled : Coupled env cfg boundary data s
 ordered : Ordered s
 tidy : Tidy s
 logged : Logged s
 published : Published env s

theorem sound_start : Sound env cfg boundary data (.start boundary data) :=
 ⟨coupled_start, ordered_start boundary data, tidy_start boundary data, logged_start boundary data,
  published_start boundary data⟩

theorem sound_move (sound : Sound env cfg boundary data s) (move : Move env cfg s s') :
  Sound env cfg boundary data s' :=
 have ⟨coupled, ordered, tidy, logged, published⟩ := sound
 ⟨coupled_move coupled ordered move, ordered_move ordered move, tidy_move tidy ordered move,
  logged_move logged ordered move, published_move published coupled ordered logged move⟩

theorem sound_run {events : List Event} (ran : run env cfg events (.start boundary data) = some s) :
  Sound env cfg boundary data s :=
 exec_keeps sound_start (fun _ _ _ sound happens => sound_move sound (step_moves happens)) ran

/-- Whatever the stream, the schedule and the failures: `CommitStream` is called at most once and
only with a complete backup, and once `run` and `cleanup` have returned no file is left and the
uploader has taken all that was handed over. -/
theorem publishes_complete_and_cleans_up (env : StreamEnv) (cfg : StreamConfig)
  (boundary : LayerBoundary) (data : List Bytes) (events : List Event) (s : Session)
  (ran : run env cfg events (.start boundary data) = some s) :
  s.core.commits.length ≤ 1 ∧ (∀ md ∈ s.core.commits, Complete env s md) ∧
   (s.stage = .cleaned → s.disk = [] ∧ s.taken = s.handed) := by
 obtain ⟨-, ordered, tidy, logged, published⟩ := sound_run ran
 refine ⟨published.once, published.complete, ?_⟩
 intro cleaned
 refine ⟨disk_of_cleaned tidy ordered cleaned, ?_⟩
 have handed := logged.handed
 obtain ⟨-, ⟨-, phase⟩ | ⟨-, outcome, phase⟩⟩ := ordered.done cleaned
 · rw [phase] at handed
   rw [handed]
   exact (List.append_nil _).symm
 · rw [phase] at handed
   rw [handed]
   exact (List.append_nil _).symm

def plainStream : StreamEnv where
 store := ⟨fun _ data => .ok data, none⟩
 splitErr := none
 scan := .ok default
 writer := Index.Private.plainWriter
 commit _ := .ok []

def overlapping : List Event :=
 [.begin, .receive .fine, .handoff, .resume, .look, .receive .fine, .call none, .call none,
  .call none, .call none,
  .upload (.ok .uploaded), .handoff, .look, .resume, .receive .fine, .close, .call none, .call none,
   .call none,
  .call none, .upload (.ok .existing), .stop, .drain, .publish, .cleanup]

theorem two_layers_published :
  ∃ s, run plainStream { (default : StreamConfig) with dedup := true } overlapping
    (.start (fixedBoundary 1) [[1], [2]]) = some s ∧
   s.core.commits.length = 1 ∧ (∀ md ∈ s.core.commits, Complete plainStream s md) ∧
    s.handed.length = 2 ∧
   s.stage = .cleaned ∧ s.disk = [] := by
 have ends : (run plainStream { (default : StreamConfig) with dedup := true } overlapping
   (.start (fixedBoundary 1) [[1], [2]])).any (fun s =>
    decide (s.core.commits.length = 1 ∧ s.handed.length = 2 ∧ s.stage = .cleaned)) = true := by
  decide +kernel
 obtain ⟨s, ran, facts⟩ := (Option.any_eq_true _ _).mp ends
 obtain ⟨commits, handed, cleaned⟩ := of_decide_eq_true facts
 obtain ⟨-, complete, clean⟩ := publishes_complete_and_cleans_up _ _ _ _ _ s ran
 exact ⟨s, ran, commits, complete, handed, cleaned, (clean cleaned).1⟩

end BackImage.Server.StreamCleanup
