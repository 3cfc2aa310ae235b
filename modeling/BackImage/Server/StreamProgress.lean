/- source: pkg/server/stream.go
  digest: The two goroutines never wait for each other, and every schedule ends after boundedly many
    steps. -/

import BackImage.Server.StreamCleanup

namespace BackImage.Server.StreamProgress

open Chunk.Boundary Go.Text Lib.Transitions Goroutines StreamCleanup
open StreamSimulation
open Server.Stream (StreamConfig StreamEnv StreamState Pending Phase applyBoundaryFallback)

section Progress

variable {env : StreamEnv} {cfg : StreamConfig} {s : Session}

def CanStep (env : StreamEnv) (cfg : StreamConfig) (s : Session) : Prop :=
 ∃ event s', step env cfg event s = some s'

theorem canStep_of_layer {p : Pending} (layer : s.uploader.layer = some p) : CanStep env cfg s := by
 cases uploader : s.uploader with
 | took q =>
  cases failure : s.core.uploadErr with
  | none => exact ⟨.look, _, by simp only [step, uploader, failure]; rfl⟩
  | some cause => exact ⟨.look, _, by simp only [step, uploader, failure]; rfl⟩
 | finishing q next =>
  cases next with
  | upload => exact ⟨.upload (.ok .uploaded), _, by simp only [step, uploader]; rfl⟩
  | _ => exact ⟨.call none, _, by simp [step, uploader]; rfl⟩
 | failing q cause => exact ⟨.setFailure, _, by simp only [step, uploader]; rfl⟩
 | _ =>
  rw [uploader] at layer
  cases layer

theorem canStep_of_waiting (ordered : Ordered s) (stage : s.stage = .running)
  (waiting : s.uploader = .waiting) :
  CanStep env cfg s := by
 cases phase : s.core.phase with
 | receiving => exact ⟨.receive .fine, _, by simp only [step, stage, phase]; rfl⟩
 | handing p final =>
  have open_channel := ordered.channel (by rw [phase]; rfl)
  exact ⟨.handoff, _, by simp only [step, phase, waiting, open_channel]; rfl⟩
 | handed final =>
  cases failure : s.core.uploadErr with
  | none => exact ⟨.resume, _, by simp only [step, phase, failure]; rfl⟩
  | some cause => exact ⟨.resume, _, by simp only [step, phase, failure]; rfl⟩
 | publishing => exact ⟨.publish, _, by simp only [step, phase]; rfl⟩
 | _ =>
  cases closed : s.closed with
  | false => exact ⟨.close, _, by simp [step, stage, phase, closed, stopping]; rfl⟩
  | true => exact ⟨.stop, _, by simp only [step, waiting, closed]; rfl⟩

theorem canStep_of_stopped (ordered : Ordered s) (stage : s.stage = .running)
  (stopped : s.uploader = .stopped) :
  CanStep env cfg s := by
 have closed := ordered.stopped stopped
 have silent : sending s.core.phase = false := by
  by_contra may
  rw [ordered.channel (by simpa using may)] at closed
  cases closed
 cases phase : s.core.phase with
 | draining => exact ⟨.drain, _, by simp only [step, phase, stopped]; rfl⟩
 | publishing => exact ⟨.publish, _, by simp only [step, phase]; rfl⟩
 | aborting cause => exact ⟨.abort, _, by simp only [step, phase, stopped]; rfl⟩
 | finished outcome => exact ⟨.cleanup, _, by simp only [step, stage, phase, stopped]; rfl⟩
 | _ =>
  rw [phase] at silent
  cases silent

theorem canStep (ordered : Ordered s) (unfinished : s.stage ≠ .cleaned) : CanStep env cfg s := by
 cases stage : s.stage with
 | opening => exact ⟨.begin, _, by simp only [step, stage]; rfl⟩
 | refused =>
  have absent := (ordered.early (.inr stage)).1
  exact ⟨.cleanup, _, by simp only [step, stage, absent]; rfl⟩
 | cleaned => exact absurd stage unfinished
 | running =>
  cases uploader : s.uploader with
  | absent => exact absurd uploader (ordered.started stage)
  | waiting => exact canStep_of_waiting ordered stage uploader
  | stopped => exact canStep_of_stopped ordered stage uploader
  | _ => exact canStep_of_layer (by rw [uploader]; rfl)

end Progress

def uploaderWeight : Uploader → Nat
 | .took _ => 8
 | .finishing _ .digest => 7
 | .finishing _ .close => 6
 | .finishing _ .newFileLayer => 5
 | .finishing _ .layerDescriptor => 4
 | .finishing _ .upload => 3
 | .failing _ _ => 2
 | .waiting => 1
 | _ => 0

def phaseWeight : Phase → Nat
 | .handing _ final => if final then 11 else 21
 | .handed final => if final then 3 else 13
 | .receiving => 12
 | .draining => 2
 | .publishing => 1
 | .aborting _ => 1
 | .finished _ => 0

def stageWeight : Stage → Nat
 | .opening => 3
 | .cleaned => 0
 | _ => 1

def remaining (s : Session) : Nat :=
 stageWeight s.stage + phaseWeight s.core.phase + 10 * s.core.todo.length +
  uploaderWeight s.uploader +
  (if s.closed then 0 else 1)

section Bound

variable {env : StreamEnv} {cfg : StreamConfig} {boundary : LayerBoundary} {data : List Bytes}
 {s s' : Session}

theorem phaseWeight_roll (s : Session) (final : Bool) :
  phaseWeight (roll s final).core.phase ≤ (if final then 11 else 21) ∧
  (roll s final).core.todo = s.core.todo := by
 rcases roll_cases s final with ⟨-, is⟩ | ⟨cause, is⟩ | ⟨p, count, -, is⟩ <;> rw [is]
 · cases final <;> exact ⟨by simp [phaseWeight], rfl⟩
 · cases final <;> exact ⟨by simp [Goroutines.Session.abort, phaseWeight], rfl⟩
 · exact ⟨le_refl _, rfl⟩

theorem remaining_turn (turn : Turn env cfg s s')
  (lower : phaseWeight s'.core.phase + 10 * s'.core.todo.length < 12 + 10 * s.core.todo.length) :
  remaining s' < remaining s := by
 have frame := Turn.frame turn
 have phase : phaseWeight s.core.phase = 12 := by rw [turn.2.1]; rfl
 unfold remaining
 rw [frame.stage, frame.uploader, frame.closed, phase]
 omega

theorem remaining_uploads (stage : s'.stage = s.stage) (closed : s'.closed = s.closed)
  (phase : s'.core.phase = s.core.phase) (todo : s'.core.todo = s.core.todo)
  (lower : uploaderWeight s'.uploader < uploaderWeight s.uploader) :
  remaining s' < remaining s := by
 unfold remaining
 rw [stage, closed, phase, todo]
 omega

theorem remaining_goes {core : StreamState} (todo : core.todo = s.core.todo)
  (lower : phaseWeight core.phase < phaseWeight s.core.phase) :
  remaining { s with core := core } < remaining s := by
 unfold remaining
 dsimp only
 rw [todo]
 omega

theorem drain_lower (env : StreamEnv) (st : StreamState) :
  (Stream.drain env st).todo = st.todo ∧ phaseWeight (Stream.drain env st).phase < 2 := by
 unfold Stream.drain Stream.foldResults
 dsimp only
 repeat' split
 all_goals exact ⟨rfl, by simp [phaseWeight]⟩

theorem publish_lower (env : StreamEnv) (cfg : StreamConfig) (st : StreamState) :
  (Stream.publish env cfg st).todo = st.todo ∧
  phaseWeight (Stream.publish env cfg st).phase < 1 := by
 unfold Stream.publish
 repeat' split
 all_goals exact ⟨rfl, by simp [phaseWeight]⟩

theorem remaining_move (ordered : Ordered s) (move : Move env cfg s s') :
  remaining s' < remaining s := by
 cases move with
 | refused stage => simp [remaining, stageWeight, stage]
 | begun stage =>
  have absent := (ordered.early (.inl stage)).1
  simp only [remaining, stageWeight, stage, absent, uploaderWeight]
  omega
 | givesUp cause turn =>
  refine remaining_turn turn ?_
  simp [Goroutines.Session.abort, phaseWeight]
 | spoolFails cause turn =>
  refine remaining_turn turn ?_
  simp [Goroutines.Session.abort, phaseWeight, openSpool_core]
 | ends turn todo clean =>
  obtain ⟨weight, same⟩ := phaseWeight_roll s true
  refine remaining_turn turn ?_
  rw [same]
  rw [if_pos rfl] at weight
  omega
 | exceeds cause ck rest stored turn todo =>
  refine remaining_turn turn ?_
  change 1 + 10 * rest.length < _
  rw [todo, List.length_cons]
  omega
 | stores ck rest stored turn todo =>
  have weight : phaseWeight s.core.phase = 12 := by rw [turn.2.1]; rfl
  refine remaining_turn turn ?_
  change phaseWeight s.core.phase + 10 * rest.length < _
  rw [weight, todo, List.length_cons]
  omega
 | rolls ck rest stored turn todo =>
  obtain ⟨weight, same⟩ := phaseWeight_roll (storeChunk s rest ⟨ck, stored⟩) false
  refine remaining_turn turn ?_
  rw [same, todo, List.length_cons]
  change _ + 10 * rest.length < _
  rw [if_neg (by simp)] at weight
  omega
 | hands p final phase uploader closed =>
  unfold remaining
  rw [phase, uploader]
  simp only [uploaderWeight, applyBoundaryFallback]
  cases final <;> simp only [phaseWeight] <;> simp <;> omega
 | failed cause final phase failure =>
  refine remaining_goes rfl ?_
  rw [phase]
  cases final <;> simp [phaseWeight]
 | resumes final phase calm =>
  refine remaining_goes rfl ?_
  rw [phase]
  cases final <;> simp [phaseWeight]
 | skips p cause uploader failure =>
  refine remaining_uploads rfl rfl rfl rfl ?_
  rw [uploader]
  simp [uploaderWeight, skip]
 | looks p uploader calm =>
  refine remaining_uploads rfl rfl rfl rfl ?_
  rw [uploader]
  simp [uploaderWeight]
 | advances p next uploader other =>
  cases next with
  | upload => exact absurd rfl other
  | _ =>
   refine remaining_uploads rfl rfl rfl rfl ?_
   rw [uploader]
   simp [uploaderWeight, advance]
 | breaks p next cause uploader =>
  refine remaining_uploads rfl rfl rfl rfl ?_
  rw [uploader]
  cases next <;> simp [uploaderWeight, breakOff]
 | lands p landing uploader =>
  refine remaining_uploads rfl rfl rfl rfl ?_
  rw [uploader]
  simp [uploaderWeight, land]
 | reports p cause uploader =>
  refine remaining_uploads rfl rfl rfl rfl ?_
  rw [uploader]
  simp [uploaderWeight, setFailure]
 | closes stage phase closed => simp [remaining, closed]
 | stops uploader closed =>
  refine remaining_uploads rfl rfl rfl rfl ?_
  rw [uploader]
  simp [uploaderWeight]
 | drains phase uploader =>
  obtain ⟨todo, lower⟩ := drain_lower env s.core
  refine remaining_goes todo ?_
  rw [phase]
  exact lower
 | publishes phase =>
  obtain ⟨todo, lower⟩ := publish_lower env cfg s.core
  refine remaining_goes todo ?_
  rw [phase]
  exact lower
 | aborts cause phase uploader =>
  refine remaining_goes rfl ?_
  rw [phase]
  simp [phaseWeight]
 | cleans returned =>
  have before : stageWeight s.stage = 1 := by
   rcases returned with ⟨stage, -⟩ | ⟨stage, -⟩ <;> rw [stage] <;> rfl
  unfold remaining cleanup
  rw [before]
  split <;> simp [stageWeight]

theorem run_bounded {events : List Event}
  (ran : run env cfg events (.start boundary data) = some s) :
  events.length ≤ 10 * data.length + 16 := by
 have start : remaining (.start boundary data) = 10 * data.length + 16 := by
  simp only [remaining, Session.start, StreamState.start, stageWeight, phaseWeight, uploaderWeight,
   number_length]
  simp
  omega
 have lowers : ∀ event u v, Ordered u → step env cfg event u = some v → remaining v < remaining u :=
  fun _ _ _ ordered happens => remaining_move ordered (step_moves happens)
 have bound := length_le_of_exec (ordered_start boundary data)
  (fun _ _ _ ordered happens => ordered_move ordered (step_moves happens)) lowers ran
 omega

/-- Neither goroutine waits forever for the other: a session that has not been cleaned up can always
go on, and it cannot go on for long. -/
theorem stream_always_ends {events : List Event}
  (ran : run env cfg events (.start boundary data) = some s) :
  events.length ≤ 10 * data.length + 16 ∧
  (s.stage ≠ .cleaned → ∃ event s', step env cfg event s = some s') := by
 refine ⟨run_bounded ran, ?_⟩
 intro unfinished
 exact canStep (sound_run ran).ordered unfinished

end Bound

theorem overlapping_goes_on : ∃ s, run plainStream { (default : StreamConfig) with dedup := true }
  (overlapping.take 8)
    (.start (fixedBoundary 1) [[1], [2]]) = some s ∧ s.stage ≠ .cleaned ∧
   ∃ event s', step plainStream { (default : StreamConfig) with dedup := true } event s =
    some s' := by
 have ends : (run plainStream { (default : StreamConfig) with dedup := true } (overlapping.take 8)
   (.start (fixedBoundary 1) [[1], [2]])).any (fun s => decide (s.stage ≠ .cleaned)) = true := by
  decide +kernel
 obtain ⟨s, ran, unfinished⟩ := (Option.any_eq_true _ _).mp ends
 have going := of_decide_eq_true unfinished
 exact ⟨s, ran, going, (stream_always_ends ran).2 going⟩

end BackImage.Server.StreamProgress
