/- source: pkg/registry/push.go
  digest: Under every interleaving a tag is published only on top of confirmed blobs, and every push
    returns. -/

import BackImage.Registry.PushSteps

namespace BackImage.Registry.PushSafety

open Go.Text Lib.Transitions Push PushSteps

/-- The digest was in the loaded checkpoint, was answered as existing with no other size than
expected, or was uploaded. -/
def Confirmed (plan : Plan) (log : List Event) (d : Str) : Prop :=
 d ∈ plan.loaded ∨
  (∃ t ∈ plan.tasks, t.digest = d ∧ ∃ size, .found t size ∈ log ∧ sizeMismatch size t = false) ∨
  ∃ t ∈ plan.tasks, t.digest = d ∧ .uploaded t ∈ log

def NoPut (log : List Event) : Prop := ∀ ident accepted, .put ident accepted ∉ log

def NoFailure (log : List Event) : Prop := ∀ err, .failed err ∉ log

def Lawful (plan : Plan) (before : List Event) : Event → Prop
 | .put ident _ => (∀ t ∈ plan.tasks, Confirmed plan before t.digest) ∧ .cancelled ∉ before ∧
   NoFailure before ∧ (ident = .reference → ∀ i ∈ puts plan, i ≠ .reference → .put i true ∈ before)
 | .saved digests => (∀ d ∈ digests, Confirmed plan before d) ∧ plan.loaded ⊆ digests ∧
   ∀ earlier, .saved earlier ∈ before → earlier ⊆ digests
 | .failed _ => NoPut before
 | _ => True

/-- The blob was answered as existing once more after the tag was PUT. -/
def Reconfirmed (log : List Event) (t : Task) : Prop :=
 ∃ before after size, log = before ++ .put .reference true :: after ∧ .verified t size ∈ after ∧
  sizeMismatch size t = false

def EndedLate (log : List Event) : Prop :=
 ∀ before after, log = before ++ .cancelled :: after → .put .reference true ∈ before

section Logs

variable {plan : Plan} {log log' : List Event} {d : Str} {t : Task} {event : Event}

theorem Confirmed.mono (confirmed : Confirmed plan log d) (longer : log <+: log') :
  Confirmed plan log' d := by
 rcases confirmed with loaded | ⟨t, task, same, size, found, fits⟩ | ⟨t, task, same, uploaded⟩
 · exact .inl loaded
 · exact .inr (.inl ⟨t, task, same, size, longer.subset found, fits⟩)
 · exact .inr (.inr ⟨t, task, same, longer.subset uploaded⟩)

theorem Reconfirmed.mono (again : Reconfirmed log t) (longer : log <+: log') :
  Reconfirmed log' t := by
 obtain ⟨before, after, size, split, verified, fits⟩ := again
 obtain ⟨rest, rfl⟩ := longer
 refine ⟨before, after ++ rest, size, ?_, List.mem_append_left _ verified, fits⟩
 rw [split, List.append_assoc, List.cons_append]

theorem noPut_concat (none_yet : NoPut log)
  (other : ∀ ident accepted, event ≠ .put ident accepted) :
  NoPut (log ++ [event]) := by
 intro ident accepted inside
 rcases List.mem_append.mp inside with old | new
 · exact none_yet ident accepted old
 · exact other ident accepted (List.mem_singleton.mp new).symm

theorem noFailure_concat (none_yet : NoFailure log) (other : ∀ err, event ≠ .failed err) :
  NoFailure (log ++ [event]) := by
 intro err inside
 rcases List.mem_append.mp inside with old | new
 · exact none_yet err old
 · exact other err (List.mem_singleton.mp new).symm

theorem endedLate_concat (late : EndedLate log) (tagged : .put .reference true ∈ log) :
  EndedLate (log ++ [event]) := by
 intro before after split
 rcases List.eq_nil_or_concat after with rfl | ⟨front, x, rfl⟩
 · obtain ⟨rfl, -⟩ := List.append_inj' split rfl
   exact tagged
 · rw [List.concat_eq_append, ← List.cons_append, ← List.append_assoc] at split
   exact late before front (List.append_inj' split rfl).1

end Logs

def pending : Feeder → List Task
 | .next rest => rest
 | .offering t rest => t :: rest
 | .closed => []

def Tracked (s : State) (t : Task) : Prop :=
 t.digest ∈ s.done ∨ t ∈ pending s.feeder ∨ t ∈ s.taskCh ∨
  ∃ (i : Nat) (worker : Worker), s.workers[i]? = some worker ∧ taskOf worker = some t

def WorkerOk (plan : Plan) (s : State) (i : Nat) : Worker → Prop
 | .idle | .failing _ => True
 | .starting t | .checking t | .uploading t => t ∈ plan.tasks
 | .confirming t => t ∈ plan.tasks ∧ Confirmed plan s.log t.digest
 | .marking t => t ∈ plan.tasks ∧ Confirmed plan s.log t.digest ∧ s.ckptMu = some i
 | .saving t digests => t ∈ plan.tasks ∧ t.digest ∈ s.done ∧ digests = s.done ∧ s.ckptMu = some i
 | .reporting _ => s.cancelled = true
 | .exited => s.cancelled = true ∨ (s.feeder = .closed ∧ s.taskCh = [])

structure Ready (plan : Plan) (s : State) : Prop where
 exited : AllExited s
 confirmed : ∀ t ∈ plan.tasks, Confirmed plan s.log t.digest
 noFailure : NoFailure s.log

structure Tagged (plan : Plan) (s : State) : Prop extends Ready plan s where
 puts : ∀ i ∈ puts plan, .put i true ∈ s.log
 late : EndedLate s.log

/-- What holds where `run` is. -/
def Stage (plan : Plan) (s : State) : Main → Prop
 | .waiting => NoPut s.log
 | .collecting | .checkingContext => NoPut s.log ∧ AllExited s
 | .publishing rest =>
  Ready plan s ∧ (∃ front, puts plan = front ++ rest ∧ ∀ i ∈ front, .put i true ∈ s.log) ∧
   (rest = [] → EndedLate s.log)
 | .verifyingBlobs rest => Tagged plan s ∧
   ∃ front, plan.tasks = front ++ rest ∧ ∀ t ∈ front, Reconfirmed s.log t
 | .verifyingManifests _ | .verifyingTag => Tagged plan s ∧ ∀ t ∈ plan.tasks, Reconfirmed s.log t
 | .cleaning | .returned none =>
  Tagged plan s ∧ (plan.verify = true → ∀ t ∈ plan.tasks, Reconfirmed s.log t)
 | .returned (some _) => AllExited s

structure Sound (plan : Plan) (s : State) : Prop where
 size : s.workers.length = plan.jobs
 workers : ∀ (i : Nat) (worker : Worker), s.workers[i]? = some worker → WorkerOk plan s i worker
 holder : ∀ i, s.ckptMu = some i → ∃ worker, s.workers[i]? = some worker ∧ Holds worker
 known : ∀ t, t ∈ pending s.feeder ∨ t ∈ s.taskCh → t ∈ plan.tasks
 confirmed : ∀ d ∈ s.done, Confirmed plan s.log d
 loaded : plan.loaded ⊆ s.done
 saves : ∀ digests, .saved digests ∈ s.log → digests ⊆ s.done
 ended : s.cancelled = true ↔ .cancelled ∈ s.log
 failures : NoFailure s.log ∨ s.cancelled = true ∨ ∃ (i : Nat) (err : PushError),
  s.workers[i]? = some (.failing err)
 tracked : s.cancelled = true ∨ ¬ NoFailure s.log ∨ ∀ t ∈ plan.tasks, Tracked s t
 stage : Stage plan s s.main
 history : Guarded (Lawful plan) s.log

theorem sound_start (plan : Plan) : Sound plan (start plan) where
 size := List.length_replicate
 workers := by
  intro i worker at_place
  have idle : worker = .idle := by
   have inside := List.mem_of_getElem? at_place
   exact List.eq_of_mem_replicate inside
  rw [idle]
  trivial
 holder := by
  intro i held
  cases held
 known := by
  rintro t (feeding | sent)
  · exact feeding
  · cases sent
 confirmed := fun d loaded => .inl loaded
 loaded := List.Subset.refl _
 saves := fun digests nothing => absurd nothing List.not_mem_nil
 ended := by
  constructor
  · intro impossible
    cases impossible
  · exact fun nothing => absurd nothing List.not_mem_nil
 failures := .inl fun err => List.not_mem_nil
 tracked := .inr (.inr fun t task => .inr (.inl task))
 stage := fun ident accepted => List.not_mem_nil
 history := guarded_nil

structure Harmless (i : Nat) (s s' : State) : Prop where
 log : s.log <+: s'.log
 done : s.ckptMu = some i → s'.done = s.done
 lock : s.ckptMu = some i → s'.ckptMu = some i
 cancelled : s.cancelled = true → s'.cancelled = true
 closed : s.feeder = .closed → s.taskCh = [] → s'.feeder = .closed ∧ s'.taskCh = []

section Steps

variable {plan : Plan} {s s' : State} {w i : Nat} {old new worker : Worker}

theorem Harmless.refl (same : s'.feeder = s.feeder ∧ s'.taskCh = s.taskCh ∧ s'.ckptMu = s.ckptMu ∧
  s'.done = s.done ∧ s'.cancelled = s.cancelled) (log : s.log <+: s'.log) : Harmless i s s' := by
 obtain ⟨feeder, taskCh, ckptMu, done, cancelled⟩ := same
 refine ⟨log, fun _ => done, fun held => ckptMu.trans held, fun ended => cancelled.trans ended, ?_⟩
 intro closed empty
 exact ⟨feeder.trans closed, taskCh.trans empty⟩

theorem workerOk_harmless (harmless : Harmless i s s') (ok : WorkerOk plan s i worker) :
  WorkerOk plan s' i worker := by
 cases worker with
 | idle => trivial
 | failing err => trivial
 | starting t => exact ok
 | checking t => exact ok
 | uploading t => exact ok
 | confirming t => exact ⟨ok.1, ok.2.mono harmless.log⟩
 | marking t => exact ⟨ok.1, ok.2.1.mono harmless.log, harmless.lock ok.2.2⟩
 | saving t digests =>
  obtain ⟨task, finished, copied, held⟩ := ok
  have same := harmless.done held
  refine ⟨task, ?_, ?_, harmless.lock held⟩
  · rw [same]
    exact finished
  · rw [same]
    exact copied
 | reporting err => exact harmless.cancelled ok
 | exited => exact ok.imp harmless.cancelled fun ended => harmless.closed ended.1 ended.2

theorem Sound.workers_harmless (sound : Sound plan s) (harmless : ∀ i, Harmless i s s') (i : Nat)
  (worker : Worker) (there : s.workers[i]? = some worker) : WorkerOk plan s' i worker :=
 workerOk_harmless (harmless i) (sound.workers i worker there)

theorem harmless_cancel : Harmless i s s.cancel := by
 have longer : s.log <+: s.cancel.log := by
  rcases cancel_cases with ⟨same, -⟩ | ⟨ended, -⟩
  · rw [same]
  · rw [ended]
    exact List.prefix_append _ _
 rw [cancel_eq]
 exact ⟨longer, fun _ => rfl, id, fun _ => rfl, And.intro⟩

variable {t : Task} {log : List Event} {event : Event} {main : Main}

theorem noFailure_of_longer {log' : List Event} (longer : log <+: log')
  (none_yet : NoFailure log') : NoFailure log :=
 fun err inside => none_yet err (longer.subset inside)

theorem mem_concat_of_ne {other : Event} (differs : event ≠ other) : event ∈ log ++ [other] ↔
  event ∈ log := by
 rw [List.mem_append, List.mem_singleton]
 exact or_iff_left differs

theorem Stage.exited (stage : Stage plan s main) (later : main ≠ .waiting) : AllExited s := by
 cases main with
 | waiting => exact absurd rfl later
 | collecting => exact stage.2
 | checkingContext => exact stage.2
 | publishing rest => exact stage.1.exited
 | verifyingBlobs rest => exact stage.1.exited
 | verifyingManifests rest => exact stage.1.exited
 | verifyingTag => exact stage.1.exited
 | cleaning => exact stage.1.exited
 | returned err =>
  cases err with
  | none => exact stage.1.exited
  | some err => exact stage

section

variable (worked : Worked plan w s old new s')

include worked

theorem harmless_worked (ok : WorkerOk plan s w old) (other : i ≠ w) : Harmless i s s' := by
 -- a worker that holds the lock is the only one to change what the lock guards
 have notMine : s.ckptMu = some w → s.ckptMu ≠ some i := by
  intro mine his
  rw [mine] at his
  exact other (Option.some.inj his).symm
 have plain : ∀ log, s.log <+: log → Harmless i s { s with log := log } :=
  fun log longer => .refl ⟨rfl, rfl, rfl, rfl, rfl⟩ longer
 cases worked with
 | receive waiting =>
  refine ⟨List.prefix_refl _, fun _ => rfl, id, id, fun _ empty => ?_⟩
  rw [empty] at waiting
  cases waiting
 | leave | skip | look | missing => exact plain s.log (List.prefix_refl _)
 | mismatch | found | upload | fail => exact plain _ (List.prefix_append _ _)
 | lock free =>
  refine ⟨List.prefix_refl _, fun _ => rfl, fun his => ?_, id, And.intro⟩
  rw [free] at his
  cases his
 | mark =>
  exact ⟨List.prefix_refl _, fun his => absurd his (notMine ok.2.2), id, id, And.intro⟩
 | markOnly =>
  exact ⟨List.prefix_refl _, fun his => absurd his (notMine ok.2.2),
   fun his => absurd his (notMine ok.2.2), id, And.intro⟩
 | save =>
  exact ⟨List.prefix_append _ _, fun _ => rfl, fun his => absurd his (notMine ok.2.2.2), id,
   And.intro⟩
 | saveFail =>
  refine ⟨?_, fun _ => rfl, fun his => absurd his (notMine ok.2.2.2), id, And.intro⟩
  exact (List.prefix_append _ _).trans (List.prefix_append _ _)
 | cancel => exact harmless_cancel
 | report => exact .refl ⟨rfl, rfl, rfl, rfl, rfl⟩ (List.prefix_refl _)

theorem workerOk_worked (ok : WorkerOk plan s w old)
  (known : ∀ t ∈ s.taskCh, t ∈ plan.tasks) : WorkerOk plan s' w new := by
 have noted : ∀ event, event ∈ (s.note event).log := fun event =>
  List.mem_append_right _ List.mem_cons_self
 cases worked with
 | receive waiting =>
  refine known _ ?_
  rw [waiting]
  exact List.mem_cons_self
 | leave closed empty => exact .inr ⟨closed, empty⟩
 | skip | markOnly | save | fail | saveFail => trivial
 | look => exact ok
 | missing => exact ok
 | mismatch => exact ok
 | found fits => exact ⟨ok, .inr (.inl ⟨_, ok, rfl, _, noted _, fits⟩)⟩
 | upload => exact ⟨ok, .inr (.inr ⟨_, ok, rfl, noted _⟩)⟩
 | lock => exact ⟨ok.1, ok.2, rfl⟩
 | mark => exact ⟨ok.1, mem_addDone.mpr (.inl rfl), rfl, ok.2.2⟩
 | cancel => exact cancel_cancelled
 | report => exact .inl ok

theorem worked_frame : s.log <+: s'.log ∧ s'.main = s.main ∧ s'.feeder = s.feeder ∧
  (NoPut s.log → NoPut s'.log) := by
 cases worked with
 | receive | leave | skip | look | missing | lock | mark | markOnly | report =>
  exact ⟨List.prefix_refl _, rfl, rfl, id⟩
 | mismatch | found | upload | fail =>
  exact ⟨List.prefix_append _ _, rfl, rfl, fun none_yet => noPut_concat none_yet (by simp)⟩
 | save =>
  exact ⟨List.prefix_append _ _, rfl, rfl, fun none_yet => noPut_concat none_yet (by simp)⟩
 | saveFail =>
  refine ⟨(List.prefix_append _ _).trans (List.prefix_append _ _), rfl, rfl, fun none_yet => ?_⟩
  exact noPut_concat (noPut_concat none_yet (by simp)) (by simp)
 | cancel =>
  rcases cancel_cases with ⟨same, -⟩ | ⟨ended, -⟩
  · rw [same]
    exact ⟨List.prefix_refl _, rfl, rfl, id⟩
  · rw [ended]
    exact ⟨List.prefix_append _ _, rfl, rfl, fun none_yet => noPut_concat none_yet (by simp)⟩

theorem lock_worked (ok : WorkerOk plan s w old)
  (held : s'.ckptMu = some i) : i = w ∧ Holds new ∨ s.ckptMu = some i ∧ ¬ Holds old := by
 cases worked with
 | receive | leave | skip | look | missing | mismatch | found | upload | report =>
  exact .inr ⟨held, id⟩
 | fail unlocked => exact .inr ⟨held, unlocked⟩
 | lock => exact .inl ⟨(Option.some.inj held).symm, trivial⟩
 | mark =>
  have mine := ok.2.2.symm.trans held
  exact .inl ⟨(Option.some.inj mine).symm, trivial⟩
 | markOnly | save | saveFail => cases held
 | cancel =>
  rw [cancel_eq] at held
  exact .inr ⟨held, id⟩

theorem holder_worked (sound : Sound plan s) (place : s.workers[w]? = some old)
  (held : s'.ckptMu = some i) :
  ∃ worker, (s.workers.set w new)[i]? = some worker ∧ Holds worker := by
 rcases lock_worked worked (sound.workers w old place) held with ⟨rfl, holds⟩ | ⟨before, free⟩
 · exact ⟨new, at_set_self place, holds⟩
 · obtain ⟨worker, there, holds⟩ := sound.holder i before
   have other : w ≠ i := by
    rintro rfl
    rw [place] at there
    rw [Option.some.inj there] at free
    exact free holds
   exact ⟨worker, by rw [List.getElem?_set_ne other, there], holds⟩

theorem done_worked : s.done ⊆ s'.done := by
 cases worked with
 | mark | markOnly => exact fun d inside => mem_addDone.mpr (.inr inside)
 | cancel =>
  rw [cancel_eq]
  exact fun d inside => inside
 | _ => exact fun d inside => inside

theorem confirmed_worked (sound : Sound plan s)
  (ok : WorkerOk plan s w old) : ∀ d ∈ s'.done, Confirmed plan s'.log d := by
 have longer := (worked_frame worked).1
 -- only a worker whose blob is confirmed adds a digest
 have added : ∀ t : Task, Confirmed plan s.log t.digest →
   ∀ d ∈ addDone t s.done, Confirmed plan s.log d := by
  intro t blob d inside
  rcases mem_addDone.mp inside with rfl | old
  · exact blob
  · exact sound.confirmed d old
 cases worked with
 | mark | markOnly => exact fun d inside => added _ ok.2.1 d inside
 | cancel =>
  rw [cancel_eq] at longer ⊢
  exact fun d inside => (sound.confirmed d inside).mono longer
 | _ => exact fun d inside => (sound.confirmed d inside).mono longer

theorem received_worked (sent : t ∈ s.taskCh) :
  t ∈ s'.taskCh ∨ taskOf new = some t := by
 cases worked with
 | receive waiting =>
  rw [waiting] at sent
  rcases List.mem_cons.mp sent with rfl | later
  · exact .inr rfl
  · exact .inl later
 | cancel =>
  rw [cancel_eq]
  exact .inl sent
 | _ => exact .inl sent

theorem task_worked (ok : WorkerOk plan s w old)
  (busy : taskOf old = some t) : t.digest ∈ s'.done ∨ taskOf new = some t ∨ ¬ NoFailure s'.log := by
 have failed : ∀ (log : List Event) (err : PushError), ¬ NoFailure (log ++ [.failed err]) :=
  fun log err none_yet => none_yet err (List.mem_append_right _ List.mem_cons_self)
 cases worked with
 | receive | leave | cancel | report => cases busy
 | skip finished =>
  cases busy
  exact .inl finished
 | look | missing | mismatch | found | upload | lock | mark => exact .inr (.inl busy)
 | markOnly =>
  cases busy
  exact .inl (mem_addDone.mpr (.inl rfl))
 | save =>
  cases busy
  exact .inl ok.2.1
 | fail => exact .inr (.inr (failed _ _))
 | saveFail => exact .inr (.inr (failed _ _))

theorem cancelled_worked (ended : s.cancelled = true) :
  s'.cancelled = true := by
 cases worked with
 | cancel => exact cancel_cancelled
 | _ => exact ended

theorem tracked_worked (sound : Sound plan s)
  (place : s.workers[w]? = some old) : s'.cancelled = true ∨ ¬ NoFailure s'.log ∨
   ∀ t ∈ plan.tasks, Tracked { s' with workers := s.workers.set w new } t := by
 obtain ⟨longer, -, feeder, -⟩ := worked_frame worked
 rcases sound.tracked with ended | failed | tracked
 · exact .inl (cancelled_worked worked ended)
 · exact .inr (.inl fun none_yet => failed (noFailure_of_longer longer none_yet))
 · by_cases failed : NoFailure s'.log
   · refine .inr (.inr fun t task => ?_)
     rcases tracked t task with finished | waits | sent | ⟨i, worker, there, busy⟩
     · exact .inl (done_worked worked finished)
     · exact .inr (.inl (by rwa [feeder]))
     · rcases received_worked worked sent with still | taken
       · exact .inr (.inr (.inl still))
       · exact .inr (.inr (.inr ⟨w, new, at_set_self place, taken⟩))
     · by_cases mine : w = i
       · subst mine
         rw [place] at there
         cases there
         rcases task_worked worked (sound.workers w old place) busy with finished | still | failure
         · exact .inl finished
         · exact .inr (.inr (.inr ⟨w, new, at_set_self place, still⟩))
         · exact absurd failed failure
       · exact .inr (.inr (.inr ⟨i, worker, by rw [List.getElem?_set_ne mine, there], busy⟩))
   · exact .inr (.inl failed)

theorem failures_worked (sound : Sound plan s)
  (place : s.workers[w]? = some old) : NoFailure s'.log ∨ s'.cancelled = true ∨
   ∃ (i : Nat) (err : PushError), (s.workers.set w new)[i]? = some (.failing err) := by
 have stays : (∀ err, old ≠ .failing err) → (NoFailure s.log → NoFailure s'.log) →
   NoFailure s'.log ∨ s'.cancelled = true ∨
    ∃ (i : Nat) (err : PushError), (s.workers.set w new)[i]? = some (.failing err) := by
  intro other quiet
  rcases sound.failures with none_yet | ended | ⟨i, err, there⟩
  · exact .inl (quiet none_yet)
  · exact .inr (.inl (cancelled_worked worked ended))
  · have apart : w ≠ i := by
     rintro rfl
     rw [place] at there
     exact other err (Option.some.inj there)
    exact .inr (.inr ⟨i, err, by rw [List.getElem?_set_ne apart, there]⟩)
 cases worked with
 | cancel => exact .inr (.inl cancel_cancelled)
 | fail => exact .inr (.inr ⟨w, _, at_set_self place⟩)
 | saveFail => exact .inr (.inr ⟨w, _, at_set_self place⟩)
 | receive | leave | skip | look | missing | lock | mark | markOnly | report =>
  exact stays (by simp) id
 | mismatch | found | upload | save =>
  exact stays (by simp) fun none_yet => noFailure_concat none_yet (by simp)

theorem saves_worked (sound : Sound plan s)
  (ok : WorkerOk plan s w old) : ∀ digests, .saved digests ∈ s'.log → digests ⊆ s'.done := by
 intro digests inside
 have more := done_worked worked
 have earlier : .saved digests ∈ s.log → digests ⊆ s'.done :=
  fun before d listed => more (sound.saves digests before listed)
 -- what is saved is the whole map, and nobody else changes it in between
 have copied : ∀ {t : Task} {written : List Str}, WorkerOk plan s w (.saving t written) →
   .saved digests ∈ s.log ++ [.saved written] → digests ⊆ s.done := by
  intro t written mine inside
  rcases List.mem_append.mp inside with before | now
  · exact sound.saves digests before
  · cases List.mem_singleton.mp now
    rw [mine.2.2.1]
    exact List.Subset.refl _
 cases worked with
 | receive | leave | skip | look | missing | lock | mark | markOnly | report => exact earlier inside
 | mismatch | found | upload | fail => exact earlier ((mem_concat_of_ne (by simp)).mp inside)
 | save => exact copied ok inside
 | saveFail => exact copied ok ((mem_concat_of_ne (by simp)).mp inside)
 | cancel =>
  rcases cancel_cases with ⟨same, -⟩ | ⟨ended, -⟩
  · rw [same] at inside
    exact earlier inside
  · rw [ended] at inside
    exact earlier ((mem_concat_of_ne (by simp)).mp inside)

theorem ended_worked (ended : s.cancelled = true ↔ .cancelled ∈ s.log) :
  s'.cancelled = true ↔ .cancelled ∈ s'.log := by
 cases worked with
 | receive | leave | skip | look | missing | lock | mark | markOnly | report => exact ended
 | mismatch | found | upload | fail | save =>
  exact ended.trans (mem_concat_of_ne (by simp)).symm
 | saveFail =>
  apply ended.trans
  apply Iff.trans ?_ (mem_concat_of_ne (by simp)).symm
  exact (mem_concat_of_ne (by simp)).symm
 | cancel =>
  rcases cancel_cases with ⟨same, -⟩ | ⟨now, -⟩
  · rw [same]
    exact ended
  · rw [now]
    exact ⟨fun _ => List.mem_append_right _ List.mem_cons_self, fun _ => rfl⟩

theorem history_worked (sound : Sound plan s)
  (ok : WorkerOk plan s w old) (none_yet : NoPut s.log) : Guarded (Lawful plan) s'.log := by
 have history := sound.history
 have saved : ∀ {t : Task} {written : List Str}, WorkerOk plan s w (.saving t written) →
   Lawful plan s.log (.saved written) := by
  intro t written mine
  rw [mine.2.2.1]
  exact ⟨sound.confirmed, sound.loaded, sound.saves⟩
 cases worked with
 | receive | leave | skip | look | missing | lock | mark | markOnly | report => exact history
 | mismatch => exact guarded_concat history trivial
 | found => exact guarded_concat history trivial
 | upload => exact guarded_concat history trivial
 | fail => exact guarded_concat history none_yet
 | save => exact guarded_concat history (saved ok)
 | saveFail =>
  have before := guarded_concat history (saved ok)
  exact guarded_concat before (noPut_concat none_yet (by simp))
 | cancel =>
  rcases cancel_cases with ⟨same, -⟩ | ⟨ended, -⟩
  · rw [same]
    exact history
  · rw [ended]
    exact guarded_concat history trivial

theorem waiting_of_worked (sound : Sound plan s)
  (place : s.workers[w]? = some old) : s.main = .waiting := by
 by_contra later
 cases sound.stage.exited later old (List.mem_of_getElem? place)
 cases worked with
 | fail unlocked busy => exact busy rfl

theorem known_worked : s'.taskCh ⊆ s.taskCh := by
 cases worked with
 | receive waiting =>
  rw [waiting]
  exact List.subset_cons_self _ _
 | cancel =>
  rw [cancel_eq]
  exact List.Subset.refl _
 | _ => exact List.Subset.refl _

theorem sound_worked (sound : Sound plan s)
  (place : s.workers[w]? = some old) : Sound plan { s' with workers := s.workers.set w new } := by
 have ok := sound.workers w old place
 obtain ⟨longer, main, feeder, quiet⟩ := worked_frame worked
 have waiting := waiting_of_worked worked sound place
 have none_yet : NoPut s.log := by
  have stage := sound.stage
  rw [waiting] at stage
  exact stage
 constructor
 case size =>
  rw [← sound.size]
  exact List.length_set
 case workers =>
  intro i worker there
  have moved : Harmless i s' { s' with workers := s.workers.set w new } :=
   .refl ⟨rfl, rfl, rfl, rfl, rfl⟩ (List.prefix_refl _)
  apply workerOk_harmless moved
  rcases at_set_cases there with ⟨rfl, rfl⟩ | ⟨other, before⟩
  · exact workerOk_worked worked ok fun t sent => sound.known t (.inr sent)
  · exact workerOk_harmless (harmless_worked worked ok other) (sound.workers i worker before)
 case holder => exact fun i held => (holder_worked worked sound place held :)
 case known =>
  rintro t (waits | sent)
  · refine sound.known t (.inl ?_)
    rw [← feeder]
    exact waits
  · exact sound.known t (.inr (known_worked worked sent))
 case confirmed => exact (confirmed_worked worked sound ok :)
 case loaded => exact fun d listed => (done_worked worked (sound.loaded listed) :)
 case saves => exact (saves_worked worked sound ok :)
 case ended => exact (ended_worked worked sound.ended :)
 case failures => exact (failures_worked worked sound place :)
 case tracked => exact (tracked_worked worked sound place :)
 case stage =>
  show Stage plan _ s'.main
  rw [main, waiting]
  exact quiet none_yet
 case history => exact (history_worked worked sound ok none_yet :)

end

structure Quiet (log log' : List Event) : Prop where
 longer : log <+: log'
 noPut : NoPut log → NoPut log'
 noFailure : NoFailure log → NoFailure log'
 late : .put .reference true ∈ log → EndedLate log → EndedLate log'

theorem Quiet.refl (log : List Event) : Quiet log log := ⟨List.prefix_refl _, id, id, fun _ => id⟩

theorem Quiet.concat (noPut : ∀ ident accepted, event ≠ .put ident accepted)
  (noFailure : ∀ err, event ≠ .failed err) : Quiet log (log ++ [event]) where
 longer := List.prefix_append _ _
 noPut := fun none_yet => noPut_concat none_yet noPut
 noFailure := fun none_yet => noFailure_concat none_yet noFailure
 late := fun tagged late => endedLate_concat late tagged

theorem quiet_cancel : Quiet s.log s.cancel.log := by
 rcases cancel_cases with ⟨same, -⟩ | ⟨ended, -⟩
 · rw [same]
   exact .refl _
 · rw [ended]
   exact .concat (by simp) (by simp)

theorem reference_mem_puts : .reference ∈ puts plan := by
 unfold puts
 simp

theorem Ready.grows (ready : Ready plan s) (workers : s'.workers = s.workers)
  (quiet : Quiet s.log s'.log) : Ready plan s' where
 exited := by
  unfold AllExited
  rw [workers]
  exact ready.exited
 confirmed := fun t task => (ready.confirmed t task).mono quiet.longer
 noFailure := quiet.noFailure ready.noFailure

theorem Tagged.tag (tagged : Tagged plan s) : .put .reference true ∈ s.log :=
 tagged.puts .reference reference_mem_puts

theorem Tagged.grows (tagged : Tagged plan s) (workers : s'.workers = s.workers)
  (quiet : Quiet s.log s'.log) : Tagged plan s' where
 toReady := tagged.toReady.grows workers quiet
 puts := fun i member => quiet.longer.subset (tagged.puts i member)
 late := quiet.late tagged.tag tagged.late

theorem Stage.grows (stage : Stage plan s main) (workers : s'.workers = s.workers)
  (quiet : Quiet s.log s'.log) : Stage plan s' main := by
 have exited : AllExited s → AllExited s' := by
  unfold AllExited
  rw [workers]
  exact id
 have again : (∀ t ∈ plan.tasks, Reconfirmed s.log t) → ∀ t ∈ plan.tasks, Reconfirmed s'.log t :=
  fun before t task => (before t task).mono quiet.longer
 cases main with
 | waiting => exact quiet.noPut stage
 | collecting => exact ⟨quiet.noPut stage.1, exited stage.2⟩
 | checkingContext => exact ⟨quiet.noPut stage.1, exited stage.2⟩
 | publishing rest =>
  obtain ⟨ready, ⟨front, order, accepted⟩, late⟩ := stage
  refine ⟨ready.grows workers quiet,
   ⟨front, order, fun i member => quiet.longer.subset (accepted i member)⟩, ?_⟩
  rintro rfl
  rw [List.append_nil] at order
  exact quiet.late (accepted _ (order ▸ reference_mem_puts)) (late rfl)
 | verifyingBlobs rest =>
  obtain ⟨tagged, front, order, before⟩ := stage
  exact ⟨tagged.grows workers quiet, front, order, fun t member =>
   (before t member).mono quiet.longer⟩
 | verifyingManifests rest => exact ⟨stage.1.grows workers quiet, again stage.2⟩
 | verifyingTag => exact ⟨stage.1.grows workers quiet, again stage.2⟩
 | cleaning => exact ⟨stage.1.grows workers quiet, fun verify => again (stage.2 verify)⟩
 | returned err =>
  cases err with
  | none => exact ⟨stage.1.grows workers quiet, fun verify => again (stage.2 verify)⟩
  | some err => exact exited stage

theorem tracked_fed (fed : Fed plan s s') (tracked : ∀ t ∈ plan.tasks, Tracked s t) :
  s'.cancelled = true ∨ ∀ t ∈ plan.tasks, Tracked s' t := by
 -- only what the feeder still has can move
 have kept : s'.done = s.done → s.taskCh ⊆ s'.taskCh → s'.workers = s.workers →
   (∀ t ∈ pending s.feeder, Tracked s' t) → ∀ t ∈ plan.tasks, Tracked s' t := by
  intro done taskCh workers feeding t task
  rcases tracked t task with finished | waits | sent | busy
  · exact .inl (done ▸ finished)
  · exact feeding t waits
  · exact .inr (.inr (.inl (taskCh sent)))
  · exact .inr (.inr (.inr (workers ▸ busy)))
 cases fed with
 | close ended =>
  refine .inr (kept rfl (List.Subset.refl _) rfl fun t waits => ?_)
  rw [ended] at waits
  exact absurd waits List.not_mem_nil
 | skip first finished =>
  refine .inr (kept rfl (List.Subset.refl _) rfl fun t waits => ?_)
  rw [first] at waits
  rcases List.mem_cons.mp waits with rfl | later
  · exact .inl finished
  · exact .inr (.inl later)
 | offer first =>
  refine .inr (kept rfl (List.Subset.refl _) rfl fun t waits => ?_)
  rw [first] at waits
  exact .inr (.inl waits)
 | send offered =>
  refine .inr (kept rfl (List.subset_append_left _ _) rfl fun t waits => ?_)
  rw [offered] at waits
  rcases List.mem_cons.mp waits with rfl | later
  · exact .inr (.inr (.inl (List.mem_append_right _ List.mem_cons_self)))
  · exact .inr (.inl later)
 | stop offered ended => exact .inl ended

theorem known_fed {t : Task} (fed : Fed plan s s')
  (somewhere : t ∈ pending s'.feeder ∨ t ∈ s'.taskCh) :
  t ∈ pending s.feeder ∨ t ∈ s.taskCh := by
 cases fed with
 | close ended => exact somewhere.imp_left fun none_left => absurd none_left List.not_mem_nil
 | skip first finished =>
  refine somewhere.imp_left fun later => ?_
  rw [first]
  exact List.mem_cons_of_mem _ later
 | offer first =>
  refine somewhere.imp_left fun waits => ?_
  rw [first]
  exact waits
 | send offered =>
  rw [offered]
  rcases somewhere with later | sent
  · exact .inl (List.mem_cons_of_mem _ later)
  · rcases List.mem_append.mp sent with before | now
    · exact .inr before
    · rw [List.mem_singleton.mp now]
      exact .inl List.mem_cons_self
 | stop offered ended => exact somewhere.imp_left fun none_left => absurd none_left List.not_mem_nil

theorem fed_frame (fed : Fed plan s s') : s' = { s with feeder := s'.feeder, taskCh := s'.taskCh } ∧
  s.feeder ≠ .closed := by
 cases fed with
 | close ended => exact ⟨rfl, by simp [ended]⟩
 | skip first => exact ⟨rfl, by simp [first]⟩
 | offer first => exact ⟨rfl, by simp [first]⟩
 | send offered => exact ⟨rfl, by simp [offered]⟩
 | stop offered => exact ⟨rfl, by simp [offered]⟩

theorem sound_fed (fed : Fed plan s s') (sound : Sound plan s) : Sound plan s' := by
 obtain ⟨frame, unclosed⟩ := fed_frame fed
 have known := fun t => @known_fed plan s s' t fed
 have tracked := tracked_fed fed
 have harmless : ∀ i, Harmless i s s' := by
  intro i
  rw [frame]
  exact ⟨List.prefix_refl _, fun _ => rfl, id, id, fun closed => absurd closed unclosed⟩
 rw [frame] at known tracked harmless ⊢
 exact
  { sound with
    workers := sound.workers_harmless harmless
    known := fun t somewhere => sound.known t (known t somewhere)
    tracked := by
     rcases sound.tracked with ended | failed | all
     · exact .inl ended
     · exact .inr (.inl failed)
     · exact (tracked all).imp_right .inr
    stage := sound.stage.grows rfl (.refl _) }

theorem sound_cancel (sound : Sound plan s) (running : s.cancelled = false) :
  Sound plan s.cancel := by
 have stage : Stage plan s.cancel s.main := by
  refine sound.stage.grows ?_ quiet_cancel
  rw [cancel_eq]
 have workers := sound.workers_harmless fun i => @harmless_cancel s i
 have now : s.cancel = { s.note .cancelled with cancelled := true } := by
  unfold State.cancel
  rw [running]
  rfl
 rw [now] at stage workers ⊢
 exact
  { sound with
    workers := workers
    confirmed := fun d inside => (sound.confirmed d inside).mono (List.prefix_append _ _)
    saves := fun digests inside => sound.saves digests ((mem_concat_of_ne (by simp)).mp inside)
    ended := ⟨fun _ => List.mem_append_right _ List.mem_cons_self, fun _ => rfl⟩
    failures := .inr (.inl rfl)
    tracked := .inl rfl
    stage := stage
    history := guarded_concat sound.history trivial }

theorem ready_of_exited (sound : Sound plan s) (exited : AllExited s)
  (running : s.cancelled = false) :
  Ready plan s := by
 have alive : s.cancelled ≠ true := by simp [running]
 have left : ∀ (i : Nat) (worker : Worker), s.workers[i]? = some worker → worker = .exited :=
  fun i worker there => exited worker (List.mem_of_getElem? there)
 have noFailure : NoFailure s.log := by
  rcases sound.failures with none_yet | ended | ⟨i, err, there⟩
  · exact none_yet
  · exact absurd ended alive
  · cases left i _ there
 -- one of the workers left because the channel was closed and empty
 have drained : s.feeder = .closed ∧ s.taskCh = [] := by
  have some_worker : 0 < s.workers.length := by
   rw [sound.size]
   exact plan.positive
  have there := List.getElem?_eq_getElem some_worker
  have ok := sound.workers 0 _ there
  rw [left 0 _ there] at ok
  exact ok.resolve_left alive
 refine ⟨exited, fun t task => ?_, noFailure⟩
 rcases sound.tracked with ended | failed | tracked
 · exact absurd ended alive
 · exact absurd noFailure failed
 · rcases tracked t task with finished | waits | sent | ⟨i, worker, there, busy⟩
   · exact sound.confirmed _ finished
   · rw [drained.1] at waits
     exact absurd waits List.not_mem_nil
   · rw [drained.2] at sent
     exact absurd sent List.not_mem_nil
   · rw [left i worker there] at busy
     cases busy

variable {rest : List Ident}

theorem rest_of_reference {front : List Ident} (order : puts plan = front ++ .reference :: rest) :
  rest = [] := by
 rcases List.eq_nil_or_concat rest with rfl | ⟨others, last, rfl⟩
 · rfl
 · unfold puts at order
   rw [List.append_cons _ (Ident.digest plan.taggedDigest), List.concat_eq_append,
    ← List.cons_append,
    ← List.append_assoc] at order
   have same := (List.append_inj' order rfl).1
   have inside : Ident.reference ∈ front ++ .reference :: others :=
    List.mem_append_right _ List.mem_cons_self
   rw [← same] at inside
   simp at inside

theorem lawful_put {ident : Ident} {accepted : Bool} (sound : Sound plan s)
  (publishing : s.main = .publishing (ident :: rest)) (running : s.cancelled = false) :
  Lawful plan s.log (.put ident accepted) := by
 have stage := sound.stage
 rw [publishing] at stage
 obtain ⟨ready, ⟨front, order, before⟩, -⟩ := stage
 refine ⟨ready.confirmed, fun ended => ?_, ready.noFailure, ?_⟩
 · have dead := sound.ended.mpr ended
   rw [running] at dead
   cases dead
 · rintro rfl i member other
   rw [order, rest_of_reference order] at member
   rcases List.mem_append.mp member with early | late
   · exact before i early
   · exact absurd (List.mem_singleton.mp late) other

theorem sound_noted (sound : Sound plan s)
  (own : (∃ ident accepted, event = .put ident accepted) ∨ ∃ t size, event = .verified t size)
  (lawful : Lawful plan s.log event) (stage : Stage plan { s.note event with main := main } main) :
  Sound plan { s.note event with main := main } := by
 have notSaved : ∀ digests, Event.saved digests ≠ event := by
  rcases own with ⟨_, _, rfl⟩ | ⟨_, _, rfl⟩ <;> simp
 have notCancelled : Event.cancelled ≠ event := by
  rcases own with ⟨_, _, rfl⟩ | ⟨_, _, rfl⟩ <;> simp
 have notFailed : ∀ err, event ≠ .failed err := by
  rcases own with ⟨_, _, rfl⟩ | ⟨_, _, rfl⟩ <;> simp
 have longer : s.log <+: (s.note event).log := List.prefix_append _ _
 exact
  { sound with
    workers := sound.workers_harmless fun _ => .refl ⟨rfl, rfl, rfl, rfl, rfl⟩ longer
    confirmed := fun d inside => (sound.confirmed d inside).mono longer
    saves := fun digests inside =>
     sound.saves digests ((mem_concat_of_ne (notSaved digests)).mp inside)
    ended := sound.ended.trans (mem_concat_of_ne notCancelled).symm
    failures := sound.failures.imp_left fun none_yet => noFailure_concat none_yet notFailed
    tracked := sound.tracked.imp_right fun rest =>
     rest.imp_left fun failed none_yet => failed (noFailure_of_longer longer none_yet)
    stage := stage
    history := guarded_concat sound.history lawful }

theorem sound_moved (sound : Sound plan s) (stage : Stage plan s main) :
  Sound plan { s with main := main } :=
 { sound with
   workers := sound.workers_harmless fun _ => .refl ⟨rfl, rfl, rfl, rfl, rfl⟩ (List.prefix_refl _)
   stage := stage.grows rfl (.refl _) }

theorem stage_put {ident : Ident} (sound : Sound plan s)
  (publishing : s.main = .publishing (ident :: rest)) (running : s.cancelled = false) :
  Stage plan { s.note (.put ident true) with main := .publishing rest } (.publishing rest) := by
 have stage := sound.stage
 rw [publishing] at stage
 obtain ⟨ready, ⟨front, order, before⟩, -⟩ := stage
 have living : Event.cancelled ∉ s.log := fun ended => by
  have dead := sound.ended.mpr ended
  rw [running] at dead
  cases dead
 refine ⟨⟨ready.exited, ?_, ?_⟩, ⟨front ++ [ident], ?_, ?_⟩, fun _ => ?_⟩
 · exact fun t task => (ready.confirmed t task).mono (List.prefix_append _ _)
 · exact noFailure_concat ready.noFailure (by simp)
 · rw [order, List.append_cons]
 · intro i member
   rcases List.mem_append.mp member with early | now
   · exact List.mem_append_left _ (before i early)
   · rw [List.mem_singleton.mp now]
     exact List.mem_append_right _ List.mem_cons_self
 · intro early late split
   have inside : Event.cancelled ∈ s.log ++ [.put ident true] := by
    change s.log ++ [.put ident true] = _ at split
    rw [split]
    exact List.mem_append_right _ List.mem_cons_self
   exact absurd ((mem_concat_of_ne (by simp)).mp inside) living

theorem stage_blob {rest : List Task} {size : Int64} (sound : Sound plan s)
  (verifying : s.main = .verifyingBlobs (t :: rest)) (fits : sizeMismatch size t = false) :
  Stage plan { s.note (.verified t size) with main := .verifyingBlobs rest }
  (.verifyingBlobs rest) := by
 have stage := sound.stage
 rw [verifying] at stage
 obtain ⟨tagged, front, order, before⟩ := stage
 have quiet : Quiet s.log (s.log ++ [.verified t size]) := .concat (by simp) (by simp)
 have now : Reconfirmed (s.log ++ [.verified t size]) t := by
  obtain ⟨early, late, split⟩ := List.append_of_mem tagged.tag
  refine ⟨early, late ++ [.verified t size], size, ?_, List.mem_append_right _ List.mem_cons_self,
   fits⟩
  rw [split, List.append_assoc, List.cons_append]
 refine ⟨tagged.grows rfl quiet, front ++ [t], ?_, ?_⟩
 · rw [order, List.append_cons]
 · intro x member
   rcases List.mem_append.mp member with early | last
   · exact (before x early).mono quiet.longer
   · rw [List.mem_singleton.mp last]
     exact now

theorem sound_ran (ran : Ran plan s s') (sound : Sound plan s) : Sound plan s' := by
 have stage := sound.stage
 cases ran with
 | gather waiting exited =>
  rw [waiting] at stage
  exact sound_moved sound ⟨stage, exited⟩
 | fail later => exact sound_moved sound (stage.exited later)
 | pass collecting =>
  rw [collecting] at stage
  exact sound_moved sound stage
 | publish checking running =>
  rw [checking] at stage
  refine sound_moved sound ⟨ready_of_exited sound stage.2 running, ⟨[], rfl, ?_⟩, ?_⟩
  · exact fun i nothing => absurd nothing List.not_mem_nil
  · intro impossible
    have inside := @reference_mem_puts plan
    rw [impossible] at inside
    cases inside
 | put publishing running =>
  exact sound_noted sound (.inl ⟨_, _, rfl⟩) (lawful_put sound publishing running)
   (stage_put sound publishing running)
 | putFail publishing running =>
  rw [publishing] at stage
  exact sound_noted sound (.inl ⟨_, _, rfl⟩) (lawful_put sound publishing running) stage.1.exited
 | published publishing =>
  rw [publishing] at stage
  obtain ⟨ready, ⟨front, order, accepted⟩, late⟩ := stage
  rw [List.append_nil] at order
  have tagged : Tagged plan s := ⟨ready, order ▸ accepted, late rfl⟩
  apply sound_moved sound
  cases verify : plan.verify with
  | true => exact ⟨tagged, [], rfl, fun t nothing => absurd nothing List.not_mem_nil⟩
  | false => exact ⟨tagged, fun asked => by rw [verify] at asked; cases asked⟩
 | blob verifying fits =>
  exact sound_noted sound (.inr ⟨_, _, rfl⟩) trivial (stage_blob sound verifying fits)
 | blobs verifying =>
  rw [verifying] at stage
  obtain ⟨tagged, front, order, before⟩ := stage
  rw [List.append_nil] at order
  exact sound_moved sound ⟨tagged, order ▸ before⟩
 | manifest verifying =>
  rw [verifying] at stage
  exact sound_moved sound stage
 | manifests verifying =>
  rw [verifying] at stage
  exact sound_moved sound stage
 | tag verifying =>
  rw [verifying] at stage
  exact sound_moved sound ⟨stage.1, fun _ => stage.2⟩
 | clean cleaning =>
  rw [cleaning] at stage
  exact sound_moved sound stage

theorem sound_step {action : Action} (sound : Sound plan s)
  (stepped : step plan action s = some s') :
  Sound plan s' := by
 cases step_cases stepped with
 | fed fed => exact sound_fed fed sound
 | worked place worked => exact sound_worked worked sound place
 | ran ran => exact sound_ran ran sound
 | cancelled running => exact sound_cancel sound running

end Steps

end BackImage.Registry.PushSafety
