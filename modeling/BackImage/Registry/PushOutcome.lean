/- source: pkg/registry/push.go
  digest: Every push comes to a return, and what stands in the registry then rests on confirmed
    blobs. -/

import BackImage.Registry.PushSafety

namespace BackImage.Registry.PushOutcome

open Go.Text Lib.Transitions Push PushSafety PushSteps UploadRetries
open Go.Sha256 (digestText)

def feederLeft : Feeder → Nat
 | .next rest => 12 * rest.length + 1
 | .offering _ rest => 12 * rest.length + 12
 | .closed => 0

def workerLeft : Worker → Nat
 | .idle => 1
 | .starting _ => 10
 | .checking _ => 9
 | .uploading _ => 8
 | .confirming _ => 7
 | .marking _ => 6
 | .saving _ _ => 5
 | .failing _ => 3
 | .reporting _ => 2
 | .exited => 0

def mainLeft (plan : Plan) : Main → Nat
 | .waiting => 8 + (sortedStaged plan).length + plan.tasks.length + (puts plan).length
 | .collecting => 7 + (sortedStaged plan).length + plan.tasks.length + (puts plan).length
 | .checkingContext => 6 + (sortedStaged plan).length + plan.tasks.length + (puts plan).length
 | .publishing rest => 5 + (sortedStaged plan).length + plan.tasks.length + rest.length
 | .verifyingBlobs rest => 4 + (sortedStaged plan).length + rest.length
 | .verifyingManifests rest => 3 + rest.length
 | .verifyingTag => 2
 | .cleaning => 1
 | .returned _ => 0

def left (plan : Plan) (s : State) : Nat :=
 feederLeft s.feeder + 10 * s.taskCh.length + (s.workers.map workerLeft).sum +
  mainLeft plan s.main +
  (if s.cancelled then 0 else 1)

section Bounds

variable {plan : Plan} {s s' : State} {w : Nat} {old new : Worker}

theorem left_fed (fed : Fed plan s s') : left plan s' < left plan s := by
 cases fed with
 | close ended => simp only [left, ended, feederLeft, List.length_nil]; omega
 | skip first => simp only [left, first, feederLeft, List.length_cons]; omega
 | offer first => simp only [left, first, feederLeft, List.length_cons]; omega
 | send offered =>
  simp only [left, offered, feederLeft, List.length_append, List.length_singleton]
  omega
 | stop offered => simp only [left, offered, feederLeft]; omega

theorem work_paid (worked : Worked plan w s old new s') :
  workerLeft new + 10 * s'.taskCh.length < workerLeft old + 10 * s.taskCh.length := by
 cases worked with
 | receive waiting => simp only [waiting, workerLeft, List.length_cons]; omega
 | fail unlocked busy =>
  cases old with
  | idle | failing | reporting | exited => exact absurd rfl busy
  | starting | checking | uploading | confirming | marking | saving =>
   simp only [workerLeft, State.note]
   omega
 | cancel =>
  rw [cancel_eq]
  simp only [workerLeft]
  omega
 | _ => simp only [workerLeft, State.note]; omega

theorem left_worked (worked : Worked plan w s old new s') (place : s.workers[w]? = some old) :
  left plan { s' with workers := s.workers.set w new } < left plan s := by
 have paid := work_paid worked
 obtain ⟨-, main, feeder, -⟩ := worked_frame worked
 have moved := @sum_set _ s.workers w old workerLeft new place
 have ended : (if s'.cancelled then 0 else 1) ≤ if s.cancelled then 0 else 1 := by
  cases before : s.cancelled with
  | true => simp [cancelled_worked worked before]
  | false => split <;> simp
 simp only [left, main, feeder]
 omega

theorem mainLeft_ran (ran : Ran plan s s') : mainLeft plan s'.main < mainLeft plan s.main := by
 cases ran with
 | gather waiting => simp only [waiting, mainLeft]; omega
 | fail later running =>
  cases main : s.main with
  | returned err => exact absurd main (running err)
  | _ => simp only [mainLeft]; omega
 | pass collecting => simp only [collecting, mainLeft]; omega
 | publish checking => simp only [checking, mainLeft]; omega
 | put publishing => simp only [publishing, mainLeft, List.length_cons]; omega
 | putFail publishing => simp only [publishing, mainLeft]; omega
 | published publishing =>
  simp only [publishing]
  split
  · simp only [mainLeft]; omega
  · simp only [mainLeft]; omega
 | blob verifying => simp only [verifying, mainLeft, List.length_cons]; omega
 | blobs verifying => simp only [verifying, mainLeft]; omega
 | manifest verifying => simp only [verifying, mainLeft, List.length_cons]; omega
 | manifests verifying => simp only [verifying, mainLeft]; omega
 | tag verifying => simp only [verifying, mainLeft]; omega
 | clean cleaning => simp only [cleaning, mainLeft]; omega

theorem left_ran (ran : Ran plan s s') : left plan s' < left plan s := by
 have lower := mainLeft_ran ran
 have frame : s'.feeder = s.feeder ∧ s'.taskCh = s.taskCh ∧ s'.workers = s.workers ∧
   s'.cancelled = s.cancelled := by
  cases ran <;> exact ⟨rfl, rfl, rfl, rfl⟩
 simp only [left, frame]
 omega

theorem left_cancel (running : s.cancelled = false) : left plan s.cancel < left plan s := by
 rw [cancel_eq]
 simp only [left, running]
 simp

theorem left_step {action : Action} (stepped : step plan action s = some s') :
  left plan s' < left plan s := by
 cases step_cases stepped with
 | fed fed => exact left_fed fed
 | worked place worked => exact left_worked worked place
 | ran ran => exact left_ran ran
 | cancelled running => exact left_cancel running

end Bounds

def Enabled (plan : Plan) (s : State) : Prop :=
 ∃ action, action ≠ .cancel ∧ step plan action s ≠ none

section Progress

variable {plan : Plan} {s : State} {w : Nat} {worker : Worker}

theorem enabled_work {answer : Answer} (place : s.workers[w]? = some worker)
  (goes : work plan w answer s worker ≠ none) : Enabled plan s := by
 refine ⟨.work w answer, by simp, ?_⟩
 simp only [step, place]
 simpa using goes

theorem enabled_main {answer : Answer} (goes : mainStep plan answer s ≠ none) : Enabled plan s :=
 ⟨.main answer, by simp, goes⟩

theorem enabled_holder (place : s.workers[w]? = some worker) (holds : Holds worker) :
  Enabled plan s := by
 cases worker with
 | marking t =>
  refine @enabled_work plan s w (.marking t) .nothing place ?_
  simp only [work]
  split <;> simp
 | saving t digests =>
  refine @enabled_work plan s w (.saving t digests) (.save none) place ?_
  simp [work]
 | idle | starting | checking | uploading | confirming | failing | reporting | exited => cases holds

theorem enabled_idle (place : s.workers[w]? = some .idle) : Enabled plan s := by
 cases waiting : s.taskCh with
 | cons t rest =>
  refine @enabled_work plan s w .idle .nothing place ?_
  simp [work, waiting]
 | nil =>
  cases feeder : s.feeder with
  | closed =>
   refine @enabled_work plan s w .idle .nothing place ?_
   simp [work, waiting, feeder]
  | next rest =>
   refine ⟨.feed, by simp, ?_⟩
   simp only [step, feed, feeder]
   cases rest with
   | nil => simp
   | cons t rest =>
    dsimp only
    split <;> simp
  | offering t rest =>
   refine ⟨.feed, by simp, ?_⟩
   simp [step, feed, feeder, waiting, plan.positive]

theorem enabled_worker (sound : Sound plan s) (place : s.workers[w]? = some worker)
  (running : worker ≠ .exited) : Enabled plan s := by
 cases worker with
 | idle => exact enabled_idle place
 | starting t =>
  refine @enabled_work plan s w (.starting t) .nothing place ?_
  simp only [work]
  split <;> simp
 | checking t =>
  refine @enabled_work plan s w (.checking t) (.head (.error [])) place ?_
  simp [work, blobExists, fails]
 | uploading t =>
  refine @enabled_work plan s w (.uploading t) (.upload (fun _ => .success) (steady fun _ => 0))
   place ?_
  simp [work, uploadWithRetries, uploadLoop, judge, steady]
 | confirming t =>
  cases held : s.ckptMu with
  | none =>
   refine @enabled_work plan s w (.confirming t) .nothing place ?_
   simp [work, held]
  | some i =>
   obtain ⟨other, there, holds⟩ := sound.holder i held
   exact enabled_holder there holds
 | marking t => exact enabled_holder place trivial
 | saving t digests => exact enabled_holder place trivial
 | failing err =>
  refine @enabled_work plan s w (.failing err) .nothing place ?_
  simp [work]
 | reporting err =>
  refine @enabled_work plan s w (.reporting err) .nothing place ?_
  simp [work]
 | exited => exact absurd rfl running

theorem enabled_of_running (sound : Sound plan s) (running : ∀ err, s.main ≠ .returned err) :
  Enabled plan s := by
 cases main : s.main with
 | waiting =>
  by_cases exited : ∀ worker ∈ s.workers, worker = .exited
  · refine @enabled_main plan s .nothing ?_
    simp only [mainStep, main]
    rw [if_pos exited]
    simp
  · simp only [not_forall] at exited
    obtain ⟨worker, member, busy⟩ := exited
    obtain ⟨w, place⟩ := List.mem_iff_getElem?.mp member
    exact enabled_worker sound place busy
 | collecting =>
  refine @enabled_main plan s .nothing ?_
  simp only [mainStep, main]
  split <;> simp [returns]
 | checkingContext =>
  refine @enabled_main plan s .nothing ?_
  simp only [mainStep, main]
  split <;> simp [returns]
 | publishing rest =>
  cases rest with
  | nil => exact @enabled_main plan s .nothing (by simp [mainStep, main])
  | cons ident rest =>
   refine @enabled_main plan s (.put (.error [])) ?_
   simp only [mainStep, main, putManifest]
   split <;> simp [returns]
 | verifyingBlobs rest =>
  cases rest with
  | nil => exact @enabled_main plan s .nothing (by simp [mainStep, main])
  | cons t rest =>
   refine @enabled_main plan s (.head (.error [])) ?_
   simp only [mainStep, main, verifyBlob, blobExists]
   split <;> simp [returns]
 | verifyingManifests rest =>
  cases rest with
  | nil => exact @enabled_main plan s .nothing (by simp [mainStep, main])
  | cons m rest =>
   exact @enabled_main plan s (.manifest (.error []))
    (by simp [mainStep, main, verifyManifest, returns])
 | verifyingTag =>
  exact @enabled_main plan s (.tag (.error [])) (by simp [mainStep, main, verifyTag, returns])
 | cleaning => exact @enabled_main plan s .nothing (by simp [mainStep, main])
 | returned err => exact absurd main (running err)

end Progress

section Outcome

variable {plan : Plan} {actions : List Action} {s : State}

theorem sound_exec (ran : exec (step plan) actions (start plan) = some s) : Sound plan s :=
 exec_keeps (sound_start plan) (fun _ _ _ sound stepped => sound_step sound stepped) ran

theorem length_exec (ran : exec (step plan) actions (start plan) = some s) :
  actions.length ≤ left plan (start plan) := by
 have total : actions.length + left plan s ≤ left plan (start plan) :=
  length_le_of_exec (P := fun _ => True) trivial (fun _ _ _ _ _ => trivial)
   (fun _ _ _ _ stepped => left_step stepped) ran
 omega

theorem digest_mem_puts {m : Str × Bytes} (staged : m ∈ plan.staged) : .digest m.1 ∈ puts plan := by
 unfold puts
 by_cases index : m.1 = plan.taggedDigest
 · rw [index]
   simp
 · apply List.mem_append_left
   apply List.mem_map.mpr
   refine ⟨m, List.mem_filter.mpr ⟨?_, by simpa using index⟩, rfl⟩
   exact (List.mem_insertionSort _).mpr staged

theorem lawful_of_mem (sound : Sound plan s) {event : Event} (inside : event ∈ s.log) :
  ∃ before after, s.log = before ++ event :: after ∧ Lawful plan before event := by
 obtain ⟨before, after, split⟩ := List.append_of_mem inside
 exact ⟨before, after, split, sound.history before event after split⟩

theorem noPut_of_failed (sound : Sound plan s) {err : PushError} (failed : .failed err ∈ s.log) :
  NoPut s.log := by
 intro ident accepted put
 obtain ⟨before, after, split, -, -, quiet, -⟩ := lawful_of_mem sound put
 rw [split] at failed
 rcases List.mem_append.mp failed with early | late
 · exact quiet err early
 · rcases List.mem_cons.mp late with same | later
   · cases same
   · obtain ⟨front, rest, between⟩ := List.append_of_mem later
     have none_yet : NoPut (before ++ .put ident accepted :: front) := by
      refine sound.history _ (.failed err) rest ?_
      rw [split, between, List.append_assoc, List.cons_append]
     exact none_yet ident accepted (List.mem_append_right _ List.mem_cons_self)

theorem noPut_after_cancelled (sound : Sound plan s) {before after : List Event}
  (split : s.log = before ++ .cancelled :: after) : NoPut after := by
 intro ident accepted put
 obtain ⟨front, rest, between⟩ := List.append_of_mem put
 have lawful : Lawful plan (before ++ .cancelled :: front) (.put ident accepted) := by
  refine sound.history _ _ rest ?_
  rw [split, between, List.append_assoc, List.cons_append]
 exact lawful.2.1 (List.mem_append_right _ List.mem_cons_self)

theorem tagged_of_returned (sound : Sound plan s) (returned : s.main = .returned none) :
  Tagged plan s ∧ (plan.verify = true → ∀ t ∈ plan.tasks, Reconfirmed s.log t) := by
 have stage := sound.stage
 rw [returned] at stage
 exact stage

end Outcome

/-- In every interleaving of the feeder, the workers and `run`, whatever the registry and the
checkpoint store answer: a PUT comes after every blob is confirmed, and the PUT of the tag after the
manifests are accepted; a failure or an ended context keeps all manifests out and makes `run` fail;
what is saved is confirmed and never shrinks; and a verified push saw every blob again. Every run is
finite and ends with a return. -/
theorem tag_on_confirmed_blobs (plan : Plan) (actions : List Action) (s : State)
  (ran : exec (step plan) actions (start plan) = some s) :
  (∀ before ident accepted after, s.log = before ++ .put ident accepted :: after →
   (∀ t ∈ plan.tasks, Confirmed plan before t.digest) ∧
   (ident = .reference → .put (.digest plan.taggedDigest) true ∈ before ∧
    ∀ m ∈ plan.staged, .put (.digest m.1) true ∈ before)) ∧
  (∀ err, .failed err ∈ s.log → NoPut s.log ∧ s.main ≠ .returned none) ∧
  (∀ before after, s.log = before ++ .cancelled :: after →
   NoPut after ∧ (NoPut before → NoPut s.log ∧ s.main ≠ .returned none)) ∧
  (∀ before digests after, s.log = before ++ .saved digests :: after →
   (∀ d ∈ digests, Confirmed plan before d) ∧ plan.loaded ⊆ digests ∧
   ∀ earlier, .saved earlier ∈ before → earlier ⊆ digests) ∧
  (s.main = .returned none → plan.verify = true → ∀ t ∈ plan.tasks, Reconfirmed s.log t) ∧
  actions.length ≤ left plan (start plan) ∧
  ((∀ action, action ≠ .cancel → step plan action s = none) → ∃ err, s.main = .returned err) := by
 have sound := sound_exec ran
 refine ⟨?_, ?_, ?_, ?_, ?_, length_exec ran, ?_⟩
 · intro before ident accepted after split
   obtain ⟨confirmed, -, -, tag⟩ := sound.history before _ after split
   refine ⟨confirmed, fun reference => ⟨?_, fun m staged => ?_⟩⟩
   · exact tag reference _ (by simp [puts]) (by simp)
   · exact tag reference _ (digest_mem_puts staged) (by simp)
 · intro err failed
   refine ⟨noPut_of_failed sound failed, fun returned => ?_⟩
   have tagged := (tagged_of_returned sound returned).1
   exact tagged.noFailure err failed
 · intro before after split
   have none_after := noPut_after_cancelled sound split
   refine ⟨none_after, fun none_before => ⟨?_, fun returned => ?_⟩⟩
   · intro ident accepted put
     rw [split] at put
     rcases List.mem_append.mp put with early | late
     · exact none_before ident accepted early
     · rcases List.mem_cons.mp late with same | later
       · cases same
       · exact none_after ident accepted later
   · have tagged := (tagged_of_returned sound returned).1
     exact none_before _ _ (tagged.late before after split)
 · exact fun before digests after split => sound.history before _ after split
 · exact fun returned => (tagged_of_returned sound returned).2
 · intro stuck
   by_contra running
   have busy : ∀ err, s.main ≠ .returned err := fun err returned => running ⟨err, returned⟩
   obtain ⟨action, own, goes⟩ := enabled_of_running sound busy
   exact goes (stuck action own)

def onePlan : Plan where
 tasks := [⟨lit "sha256:aa", 3⟩]
 jobs := 1
 positive := Nat.one_pos
 maxRetries := 5
 loaded := []
 staged := [(digestText (lit "index"), lit "index")]
 taggedDigest := digestText (lit "index")
 checkpointed := true
 verify := true

def oneRun : List Action :=
 [.feed, .feed, .feed, .work 0 .nothing, .work 0 .nothing, .work 0 (.head (.ok ⟨404, -1, []⟩)),
  .work 0 (.upload (fun _ => .success) (steady fun _ => 0)), .work 0 .nothing, .work 0 .nothing,
  .work 0 (.save none), .work 0 .nothing, .main .nothing, .main .nothing, .main .nothing,
  .main (.put (.ok 201)), .main (.put (.ok 201)), .main .nothing, .main (.head (.ok ⟨200, 3, []⟩)),
  .main .nothing, .main (.manifest (.ok (200, .ok (lit "index")))), .main .nothing,
  .main (.tag (.ok (200, []))), .main .nothing]

def oneEnd : State := (exec (step onePlan) oneRun (start onePlan)).getD (start onePlan)

theorem verified_push_reconfirmed :
  exec (step onePlan) oneRun (start onePlan) = some oneEnd ∧ oneEnd.main = .returned none ∧
   Reconfirmed oneEnd.log ⟨lit "sha256:aa", 3⟩ := by
 have ran : exec (step onePlan) oneRun (start onePlan) = some oneEnd := by decide +kernel
 have returned : oneEnd.main = .returned none := by decide +kernel
 have outcome := tag_on_confirmed_blobs onePlan oneRun oneEnd ran
 exact ⟨ran, returned, outcome.2.2.2.2.1 returned rfl _ List.mem_cons_self⟩

end BackImage.Registry.PushOutcome
