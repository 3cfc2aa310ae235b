/- source: pkg/server/stream.go
  digest: Every schedule of the two goroutines is one of the pipeline model, and no send meets a
    closed channel. -/

import BackImage.Server.Goroutines
import BackImage.Server.StreamRefinement

namespace BackImage.Server.StreamSimulation

open Chunk.Boundary Go.Text Index.CutTables Goroutines StreamRefinement
open Server.Stream (StreamConfig StreamEnv StreamError StreamState Pending Phase
 applyBoundaryFallback resultOf)

variable {env : StreamEnv} {cfg : StreamConfig} {boundary : LayerBoundary} {data : List Bytes}
 {s s' : Session}

section Reached

variable {st st' : StreamState}

/-- The pipeline model comes to the state under some schedule of its own. -/
def Reached (env : StreamEnv) (cfg : StreamConfig) (boundary : LayerBoundary) (data : List Bytes)
  (st : StreamState) : Prop :=
 ∃ events, Stream.run env cfg (.start boundary data) events = some st

theorem run_concat {events : List Stream.Event} {event : Stream.Event} {start : StreamState}
  (ran : Stream.run env cfg start events = some st)
  (happens : Stream.step env cfg st event = some st') :
  Stream.run env cfg start (events ++ [event]) = some st' := by
 induction events generalizing start with
 | nil =>
  cases ran
  simp [Stream.run, happens]
 | cons first rest ih =>
  unfold Stream.run at ran
  cases taken : Stream.step env cfg start first with
  | none => simp [taken] at ran
  | some next =>
   simp only [taken] at ran
   simpa [Stream.run, taken] using ih ran

theorem Reached.step {event : Stream.Event} (reached : Reached env cfg boundary data st)
  (happens : Stream.step env cfg st event = some st') : Reached env cfg boundary data st' := by
 obtain ⟨events, ran⟩ := reached
 exact ⟨events ++ [event], run_concat ran happens⟩

theorem Reached.inv (reached : Reached env cfg boundary data st) :
  Inv env cfg boundary data st := by
 obtain ⟨events, ran⟩ := reached
 exact inv_run (inv_start env cfg boundary data) ran

/-! The steps of the uploader and of the ends of `run`, by what enables them. -/

variable {p : Pending} {final : Bool}

theorem step_handoff (phase : st.phase = .handing p final) (idle : st.uploader = none) :
  Stream.step env cfg st .handoff =
   some (applyBoundaryFallback cfg { st with phase := .handed final, uploader := some p }) := by
 cases st
 cases phase
 cases idle
 rfl

theorem step_resume (phase : st.phase = .handed final) (calm : st.uploadErr = none) :
  Stream.step env cfg st .resume =
  some { st with phase := if final then .draining else .receiving } := by
 cases st
 cases phase
 cases calm
 rfl

theorem step_resume_failed {cause : Str} (phase : st.phase = .handed final)
  (failure : st.uploadErr = some cause) :
  Stream.step env cfg st .resume = some { st with phase := .aborting (.upload cause) } := by
 cases st
 cases phase
 cases failure
 rfl

theorem step_upload_skipped {cause : Str} (flying : st.uploader = some p)
  (failure : st.uploadErr = some cause) :
  Stream.step env cfg st (.upload none) = some { st with uploader := none } := by
 cases st
 cases flying
 cases failure
 rfl

theorem step_upload_landed (flying : st.uploader = some p) (calm : st.uploadErr = none) :
  Stream.step env cfg st (.upload none) =
   some { st with uploader := none, results := st.results ++ [resultOf p] } := by
 cases st
 cases flying
 cases calm
 rfl

theorem step_upload_failed (flying : st.uploader = some p) (calm : st.uploadErr = none)
  (cause : Str) :
  Stream.step env cfg st (.upload (some cause)) =
   some { st with uploader := none, uploadErr := st.uploadErr.or (some cause) } := by
 cases st
 cases flying
 cases calm
 rfl

theorem step_drain (phase : st.phase = .draining) (idle : st.uploader = none) :
  Stream.step env cfg st .drain = some (Stream.drain env st) := by
 cases st
 cases phase
 cases idle
 rfl

theorem step_publish (phase : st.phase = .publishing) :
  Stream.step env cfg st .publish = some (Stream.publish env cfg st) := by
 cases st
 cases phase
 rfl

theorem step_abort {cause : StreamError} (phase : st.phase = .aborting cause)
  (idle : st.uploader = none) :
  Stream.step env cfg st .abort = some { st with phase := .finished (.error cause) } := by
 cases st
 cases phase
 cases idle
 rfl

end Reached

def sending : Phase → Bool
 | .receiving => true
 | .handing _ _ => true
 | .handed _ => true
 | _ => false

def settled : Phase → Bool
 | .publishing => true
 | .finished _ => true
 | _ => false

theorem sending_of_stopping {phase : Phase} (stops : stopping phase = true) :
  sending phase = false := by
 cases phase with
 | draining => rfl
 | aborting cause => rfl
 | finished outcome => rfl
 | _ => cases stops

theorem openSpool_core (s : Session) : (openSpool s).core = s.core := by
 unfold openSpool
 split <;> rfl

theorem roll_core (s : Session) (final : Bool) :
  (roll s final).core = Stream.roll s.core final := by
 unfold roll
 dsimp only
 split <;> rfl

theorem receive_core (env : StreamEnv) (cfg : StreamConfig) (answer : SpoolAnswer) (s : Session) :
  (receive env cfg answer s).core = Stream.receive env cfg s.core ∨
   ∃ cause, (receive env cfg answer s).core =
   { s.core with phase := .aborting (.spool cause) } := by
 -- the fields the two functions look at become constructors, so that both reduce alike
 obtain ⟨⟨phase, todo, spool, rows, layerInfo, chunkIdx, plain, storedBytes, inForce, fallback,
  nextFrom, layerCount,
  uploader, results, uploadErr, commits⟩, stage, working, closed, spoolFile, disk, handed, taken,
   landed⟩ := s
 cases uploadErr with
 | some cause => exact .inl rfl
 | none =>
  cases todo with
  | nil =>
   unfold receive Stream.receive
   cases env.splitErr with
   | some cause => exact .inl rfl
   | none => exact .inl (roll_core _ true)
  | cons ck rest =>
   unfold receive Stream.receive
   dsimp only
   cases storedOf env.store ck with
   | error cause => exact .inl rfl
   | ok stored =>
    dsimp only
    split
    · exact .inr ⟨_, rfl⟩
    · right
      unfold Goroutines.Session.abort
      rw [openSpool_core]
      exact ⟨_, rfl⟩
    · left
      unfold storeChunk
      dsimp only
      split
      · rfl
      · split
        · exact roll_core _ false
        · rfl

theorem turn_core (turn : Turn env cfg s s') :
  ∃ event, Stream.step env cfg s.core event = some s'.core := by
 obtain ⟨-, phase, ⟨answer, rfl⟩ | ⟨cause, rfl⟩⟩ := turn
 · rcases receive_core env cfg answer s with same | ⟨cause, same⟩
   · refine ⟨.receive, ?_⟩
     simp only [Stream.step, phase, same]
   · refine ⟨.spoolFault cause, ?_⟩
     simp only [Stream.step, phase, same]
 · refine ⟨.cancel cause, ?_⟩
   simp only [Stream.step, phase]
   rfl

/-- What a turn of the receiver leaves alone, and the phases it can come to. -/
structure TurnFrame (s s' : Session) : Prop where
 stage : s'.stage = s.stage
 uploader : s'.uploader = s.uploader
 closed : s'.closed = s.closed
 flying : s'.core.uploader = s.core.uploader
 failure : s'.core.uploadErr = s.core.uploadErr
 commits : s'.core.commits = s.core.commits
 unsettled : settled s'.core.phase = false

theorem turnFrame_abort (cause : StreamError) : TurnFrame s (s.abort cause) :=
 ⟨rfl, rfl, rfl, rfl, rfl, rfl, rfl⟩

theorem turnFrame_roll (final : Bool) : TurnFrame s (roll s final) := by
 rcases roll_cases s final with ⟨-, is⟩ | ⟨cause, is⟩ | ⟨p, count, -, is⟩
 · rw [is]
   cases final <;> exact ⟨rfl, rfl, rfl, rfl, rfl, rfl, rfl⟩
 · rw [is]
   exact turnFrame_abort cause
 · rw [is]
   exact ⟨rfl, rfl, rfl, rfl, rfl, rfl, rfl⟩

theorem turnFrame_openSpool (phase : s.core.phase = .receiving) : TurnFrame s (openSpool s) := by
 have unsettled : settled s.core.phase = false := by rw [phase]; rfl
 unfold openSpool
 split <;> exact ⟨rfl, rfl, rfl, rfl, rfl, rfl, unsettled⟩

theorem turnFrame_storeChunk (phase : s.core.phase = .receiving) (rest : List PlainChunk)
  (stored : StoredChunk) :
  TurnFrame s (storeChunk s rest stored) := by
 obtain ⟨stage, uploader, closed, -, -, -, unsettled⟩ := turnFrame_openSpool phase
 rw [openSpool_core] at unsettled
 exact ⟨stage, uploader, closed, rfl, rfl, rfl, unsettled⟩

theorem TurnFrame.trans {s'' : Session} (first : TurnFrame s s') (second : TurnFrame s' s'') :
  TurnFrame s s'' where
 stage := second.stage.trans first.stage
 uploader := second.uploader.trans first.uploader
 closed := second.closed.trans first.closed
 flying := second.flying.trans first.flying
 failure := second.failure.trans first.failure
 commits := second.commits.trans first.commits
 unsettled := second.unsettled

theorem turnFrame_receive (phase : s.core.phase = .receiving) (answer : SpoolAnswer) :
  TurnFrame s (receive env cfg answer s) := by
 unfold receive
 split
 · exact turnFrame_abort _
 · split
   · split
     · exact turnFrame_abort _
     · exact turnFrame_roll true
   · rename_i ck rest _
     split
     · exact turnFrame_abort _
     · rename_i stored _
       have stores := turnFrame_storeChunk phase rest ⟨ck, stored⟩
       split
       · exact turnFrame_abort _
       · exact (turnFrame_openSpool phase).trans (turnFrame_abort _)
       · dsimp only
         split
         · exact stores.trans (turnFrame_abort _)
         · split
           · exact stores.trans (turnFrame_roll false)
           · exact stores

theorem Turn.frame (turn : Turn env cfg s s') : TurnFrame s s' := by
 obtain ⟨-, phase, ⟨answer, is⟩ | ⟨cause, is⟩⟩ := turn
 · rw [is]
   exact turnFrame_receive phase answer
 · rw [is]
   exact turnFrame_abort _

/-- The goroutines keep in step: the uploader runs while `run` does, the channel is open while
something may be sent, and `run` publishes or returns only after the uploader. -/
structure Ordered (s : Session) : Prop where
 early : s.stage = .opening ∨ s.stage = .refused → s.uploader = .absent ∧ s.core.phase = .receiving
 started : s.stage = .running → s.uploader ≠ .absent
 channel : sending s.core.phase = true → s.closed = false
 stopped : s.uploader = .stopped → s.closed = true
 waited : settled s.core.phase = true → s.uploader = .stopped
 done : s.stage = .cleaned → s.spoolFile = none ∧
  (s.uploader = .absent ∧ s.core.phase = .receiving ∨ s.uploader = .stopped ∧ ∃ outcome,
   s.core.phase = .finished outcome)

theorem ordered_start (boundary : LayerBoundary) (data : List Bytes) :
  Ordered (.start boundary data) where
 early _ := ⟨rfl, rfl⟩
 started := by
  intro running
  cases running
 channel _ := rfl
 stopped := by
  intro stopped
  cases stopped
 waited := by
  intro settled
  cases settled
 done := by
  intro cleaned
  cases cleaned

theorem Ordered.turn (ordered : Ordered s) (turn : Turn env cfg s s') : Ordered s' := by
 have frame := Turn.frame turn
 obtain ⟨stage, phase, -⟩ := turn
 have channel : s.closed = false := ordered.channel (by rw [phase]; rfl)
 refine ⟨?_, ?_, ?_, ?_, ?_, ?_⟩
 · rw [frame.stage, stage]
   rintro (early | early) <;> cases early
 · rw [frame.stage, frame.uploader]
   exact ordered.started
 · rw [frame.closed]
   exact fun _ => channel
 · rw [frame.uploader, frame.closed]
   exact ordered.stopped
 · rw [frame.unsettled]
   intro impossible
   cases impossible
 · rw [frame.stage, stage]
   intro cleaned
   cases cleaned

def active : Uploader → Bool
 | .absent => false
 | .stopped => false
 | _ => true

theorem Ordered.uploads (ordered : Ordered s) (before : active s.uploader = true)
  (after : active s'.uploader = true) (stage : s'.stage = s.stage) (closed : s'.closed = s.closed)
  (sends : sending s'.core.phase = true → sending s.core.phase = true)
  (settles : settled s'.core.phase = true → settled s.core.phase = true) : Ordered s' := by
 refine ⟨?_, ?_, ?_, ?_, ?_, ?_⟩
 · rw [stage]
   intro early
   rw [(ordered.early early).1] at before
   cases before
 · intro _ absent
   rw [absent] at after
   cases after
 · rw [closed]
   exact fun may => ordered.channel (sends may)
 · intro stopped
   rw [stopped] at after
   cases after
 · intro ended
   rw [ordered.waited (settles ended)] at before
   cases before
 · rw [stage]
   intro cleaned
   obtain ⟨-, ⟨absent, -⟩ | ⟨stopped, -⟩⟩ := ordered.done cleaned
   · rw [absent] at before
     cases before
   · rw [stopped] at before
     cases before

theorem Ordered.goes (ordered : Ordered s) (past : s.core.phase ≠ .receiving)
  (unfinished : ∀ outcome, s.core.phase ≠ .finished outcome) (stage : s'.stage = s.stage)
  (uploader : s'.uploader = s.uploader) (closed : s'.closed = s.closed)
  (sends : sending s'.core.phase = true → sending s.core.phase = true)
  (settles : settled s'.core.phase = true → s.uploader = .stopped) : Ordered s' := by
 refine ⟨?_, ?_, ?_, ?_, ?_, ?_⟩
 · rw [stage]
   intro early
   exact absurd (ordered.early early).2 past
 · rw [stage, uploader]
   exact ordered.started
 · rw [closed]
   exact fun may => ordered.channel (sends may)
 · rw [uploader, closed]
   exact ordered.stopped
 · rw [uploader]
   exact settles
 · rw [stage]
   intro cleaned
   obtain ⟨-, ⟨-, receiving⟩ | ⟨-, outcome, finished⟩⟩ := ordered.done cleaned
   · exact absurd receiving past
   · exact absurd finished (unfinished outcome)

theorem sending_drain (env : StreamEnv) (st : StreamState) :
  sending (Stream.drain env st).phase = false := by
 unfold Stream.drain
 dsimp only
 repeat' split
 all_goals rfl

theorem sending_publish (env : StreamEnv) (cfg : StreamConfig) (st : StreamState) :
  sending (Stream.publish env cfg st).phase = false := by
 unfold Stream.publish
 repeat' split
 all_goals rfl

theorem ordered_move (ordered : Ordered s) (move : Move env cfg s s') : Ordered s' := by
 have ⟨early, started, channel, stopped, waited, done⟩ := ordered
 cases move with
 | refused stage => exact ⟨fun _ => early (.inl stage), by simp, channel, stopped, waited, by simp⟩
 | begun stage =>
  obtain ⟨-, phase⟩ := early (.inl stage)
  refine ⟨by simp, by simp, channel, by simp, ?_, by simp⟩
  rw [phase]
  intro settled
  cases settled
 | givesUp cause turn => exact ordered.turn turn
 | spoolFails cause turn => exact ordered.turn turn
 | ends turn todo clean => exact ordered.turn turn
 | exceeds cause ck rest stored turn todo => exact ordered.turn turn
 | stores ck rest stored turn todo => exact ordered.turn turn
 | rolls ck rest stored turn todo => exact ordered.turn turn
 | hands p final phase uploader closed =>
  refine ordered.uploads (by rw [uploader]; rfl) rfl rfl rfl ?_ ?_
  · rw [phase]
    exact fun _ => rfl
  · intro settled
    cases settled
 | failed cause final phase failure =>
  refine ordered.goes (by rw [phase]; simp) (by rw [phase]; simp) rfl rfl rfl ?_ ?_
  · intro may
    cases may
  · intro settled
    cases settled
 | resumes final phase calm =>
  refine ordered.goes (by rw [phase]; simp) (by rw [phase]; simp) rfl rfl rfl ?_ ?_
  · rw [phase]
    exact fun _ => rfl
  · intro settled
    cases final <;> cases settled
 | skips p cause uploader failure => exact ordered.uploads (by rw [uploader]; rfl) rfl rfl rfl id id
 | looks p uploader calm => exact ordered.uploads (by rw [uploader]; rfl) rfl rfl rfl id id
 | advances p next uploader other =>
  have before : active s.uploader = true := by rw [uploader]; rfl
  cases next with
  | upload => exact absurd rfl other
  | _ => exact ordered.uploads before rfl rfl rfl id id
 | breaks p next cause uploader => exact ordered.uploads (by rw [uploader]; rfl) rfl rfl rfl id id
 | lands p landing uploader => exact ordered.uploads (by rw [uploader]; rfl) rfl rfl rfl id id
 | reports p cause uploader => exact ordered.uploads (by rw [uploader]; rfl) rfl rfl rfl id id
 | closes stage phase closed =>
  refine ⟨early, started, ?_, fun _ => rfl, waited, done⟩
  rw [sending_of_stopping phase]
  intro may
  cases may
 | stops uploader closed =>
  refine ⟨?_, by simp, channel, fun _ => closed, fun _ => rfl, ?_⟩
  · intro not_started
    have absent := (early not_started).1
    rw [uploader] at absent
    cases absent
  · intro cleaned
    obtain ⟨-, ⟨absent, -⟩ | ⟨stopped, -⟩⟩ := done cleaned
    · rw [uploader] at absent
      cases absent
    · rw [uploader] at stopped
      cases stopped
 | drains phase uploader =>
  refine ordered.goes (by rw [phase]; simp) (by rw [phase]; simp) rfl rfl rfl ?_ ?_
  · rw [sending_drain]
    intro may
    cases may
  · exact fun _ => uploader
 | publishes phase =>
  refine ordered.goes (by rw [phase]; simp) (by rw [phase]; simp) rfl rfl rfl ?_ ?_
  · rw [sending_publish]
    intro may
    cases may
  · exact fun _ => waited (by rw [phase]; rfl)
 | aborts cause phase uploader =>
  refine ordered.goes (by rw [phase]; simp) (by rw [phase]; simp) rfl rfl rfl ?_ ?_
  · intro may
    cases may
  · exact fun _ => uploader
 | cleans returned =>
  have ended : s.uploader = .absent ∧ s.core.phase = .receiving ∨
    s.uploader = .stopped ∧ ∃ outcome, s.core.phase = .finished outcome := by
   rcases returned with ⟨stage, -⟩ | ⟨-, finished, uploader⟩
   · exact .inl (early (.inr stage))
   · exact .inr ⟨uploader, finished⟩
  unfold cleanup
  split
  · exact ⟨by simp, by simp, channel, stopped, waited, fun _ => ⟨rfl, ended⟩⟩
  · rename_i none_open
    exact ⟨by simp, by simp, channel, stopped, waited, fun _ => ⟨none_open, ended⟩⟩

def working : Uploader → Bool
 | .finishing _ _ => true
 | .failing _ _ => true
 | _ => false

/-- The pipeline model is at the same point, with the same layer in flight; only the uploader writes
its failure, so that there is none while it works. -/
structure Coupled (env : StreamEnv) (cfg : StreamConfig) (boundary : LayerBoundary)
  (data : List Bytes) (s : Session) : Prop where
 reached : Reached env cfg boundary data s.core
 layer : s.core.uploader = s.uploader.layer
 calm : working s.uploader = true → s.core.uploadErr = none

theorem coupled_start : Coupled env cfg boundary data (.start boundary data) := by
 refine ⟨⟨[], rfl⟩, rfl, ?_⟩
 intro works
 cases works

theorem Coupled.turn (coupled : Coupled env cfg boundary data s) (turn : Turn env cfg s s') :
  Coupled env cfg boundary data s' := by
 have frame := Turn.frame turn
 obtain ⟨event, happens⟩ := turn_core turn
 refine ⟨coupled.reached.step happens, ?_, ?_⟩
 · rw [frame.flying, frame.uploader]
   exact coupled.layer
 · rw [frame.uploader, frame.failure]
   exact coupled.calm

theorem drain_uploader (env : StreamEnv) (st : StreamState) :
  (Stream.drain env st).uploader = st.uploader ∧
  (Stream.drain env st).uploadErr = st.uploadErr := by
 unfold Stream.drain Stream.foldResults
 dsimp only
 repeat' split
 all_goals exact ⟨rfl, rfl⟩

theorem publish_uploader (env : StreamEnv) (cfg : StreamConfig) (st : StreamState) :
  (Stream.publish env cfg st).uploader = st.uploader ∧
  (Stream.publish env cfg st).uploadErr = st.uploadErr := by
 unfold Stream.publish
 repeat' split
 all_goals exact ⟨rfl, rfl⟩

theorem coupled_move (coupled : Coupled env cfg boundary data s) (ordered : Ordered s)
  (move : Move env cfg s s') :
  Coupled env cfg boundary data s' := by
 have ⟨reached, layer, calm⟩ := coupled
 cases move with
 | refused stage => exact ⟨reached, layer, calm⟩
 | begun stage =>
  rw [(ordered.early (.inl stage)).1] at layer
  refine ⟨reached, layer, ?_⟩
  intro works
  cases works
 | givesUp cause turn => exact coupled.turn turn
 | spoolFails cause turn => exact coupled.turn turn
 | ends turn todo clean => exact coupled.turn turn
 | exceeds cause ck rest stored turn todo => exact coupled.turn turn
 | stores ck rest stored turn todo => exact coupled.turn turn
 | rolls ck rest stored turn todo => exact coupled.turn turn
 | hands p final phase uploader closed =>
  rw [uploader] at layer
  refine ⟨reached.step (step_handoff phase layer), rfl, ?_⟩
  intro works
  cases works
 | failed cause final phase failure =>
  exact ⟨reached.step (step_resume_failed phase failure), layer, calm⟩
 | resumes final phase fine => exact ⟨reached.step (step_resume phase fine), layer, calm⟩
 | skips p cause uploader failure =>
  rw [uploader] at layer
  refine ⟨reached.step (step_upload_skipped layer failure), rfl, ?_⟩
  intro works
  cases works
 | looks p uploader fine =>
  rw [uploader] at layer
  exact ⟨reached, layer, fun _ => fine⟩
 | advances p next uploader other =>
  rw [uploader] at layer calm
  cases next with
  | upload => exact absurd rfl other
  | _ => exact ⟨reached, layer, calm⟩
 | breaks p next cause uploader =>
  rw [uploader] at layer calm
  exact ⟨reached, layer, calm⟩
 | lands p landing uploader =>
  rw [uploader] at layer calm
  refine ⟨reached.step (step_upload_landed layer (calm rfl)), rfl, ?_⟩
  intro works
  cases works
 | reports p cause uploader =>
  rw [uploader] at layer calm
  refine ⟨reached.step (step_upload_failed layer (calm rfl) cause), rfl, ?_⟩
  intro works
  cases works
 | closes stage phase closed => exact ⟨reached, layer, calm⟩
 | stops uploader closed =>
  rw [uploader] at layer
  refine ⟨reached, layer, ?_⟩
  intro works
  cases works
 | drains phase uploader =>
  obtain ⟨flying, failure⟩ := drain_uploader env s.core
  have idle : s.core.uploader = none := by rw [layer, uploader]; rfl
  exact ⟨reached.step (step_drain phase idle), flying.trans layer, fun works =>
   failure.trans (calm works)⟩
 | publishes phase =>
  obtain ⟨flying, failure⟩ := publish_uploader env cfg s.core
  exact ⟨reached.step (step_publish phase), flying.trans layer, fun works =>
   failure.trans (calm works)⟩
 | aborts cause phase uploader =>
  have idle : s.core.uploader = none := by rw [layer, uploader]; rfl
  exact ⟨reached.step (step_abort phase idle), layer, calm⟩
 | cleans returned =>
  unfold cleanup
  split <;> exact ⟨reached, layer, calm⟩

end BackImage.Server.StreamSimulation
