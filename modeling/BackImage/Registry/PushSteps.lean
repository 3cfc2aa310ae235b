/- source: pkg/registry/push.go
  digest: What the feeder, a worker and the main goroutine of a push can do in one step. -/

import BackImage.Registry.Push

namespace BackImage.Registry.PushSteps

open Go.Text Push

def taskOf : Worker → Option Task
 | .starting t | .checking t | .uploading t | .confirming t | .marking t | .saving t _ => some t
 | .idle | .failing _ | .reporting _ | .exited => none

def Holds : Worker → Prop
 | .marking _ | .saving _ _ => True
 | _ => False

def AllExited (s : State) : Prop := ∀ worker ∈ s.workers, worker = .exited

section Shared

variable {s : State}

theorem cancel_cancelled : s.cancel.cancelled = true := by
 unfold State.cancel
 split
 · assumption
 · rfl

theorem cancel_cases : s.cancel = s ∧ s.cancelled = true ∨
  s.cancel = { s.note .cancelled with cancelled := true } ∧ s.cancelled = false := by
 unfold State.cancel
 cases ended : s.cancelled with
 | true => exact .inl ⟨rfl, rfl⟩
 | false => exact .inr ⟨rfl, rfl⟩

theorem cancel_eq : s.cancel = { s with cancelled := true, log := s.cancel.log } := by
 rcases cancel_cases with ⟨same, ended⟩ | ⟨now, -⟩
 · rw [same, ← ended]
 · rw [now]
   rfl

theorem mem_addDone {t : Task} {done : List Str} {d : Str} : d ∈ addDone t done ↔ d = t.digest ∨
  d ∈ done := by
 unfold addDone
 split
 · rename_i inside
   constructor
   · exact .inr
   · rintro (rfl | old)
     · exact inside
     · exact old
 · exact List.mem_cons

end Shared

/-- What a worker can do: its place before and after, and the state but for its place. -/
inductive Worked (plan : Plan) (w : Nat) (s : State) : Worker → Worker → State → Prop
 | receive {t : Task} {rest : List Task} (waiting : s.taskCh = t :: rest) :
   Worked plan w s .idle (.starting t) { s with taskCh := rest }
 | leave (closed : s.feeder = .closed) (empty : s.taskCh = []) : Worked plan w s .idle .exited s
 | skip {t : Task} (finished : t.digest ∈ s.done) : Worked plan w s (.starting t) .idle s
 | look {t : Task} : Worked plan w s (.starting t) (.checking t) s
 | missing {t : Task} : Worked plan w s (.checking t) (.uploading t) s
 | mismatch {t : Task} {size : Int64} :
   Worked plan w s (.checking t) (.uploading t) (s.note (.found t size))
 | found {t : Task} {size : Int64} (fits : sizeMismatch size t = false) :
   Worked plan w s (.checking t) (.confirming t) (s.note (.found t size))
 | upload {t : Task} : Worked plan w s (.uploading t) (.confirming t) (s.note (.uploaded t))
 | fail {worker : Worker} {err : PushError} (unlocked : ¬ Holds worker)
   (busy : taskOf worker ≠ none) :
   Worked plan w s worker (.failing err) (s.note (.failed err))
 | lock {t : Task} (free : s.ckptMu = none) :
   Worked plan w s (.confirming t) (.marking t) { s with ckptMu := some w }
 | mark {t : Task} :
   Worked plan w s (.marking t) (.saving t (addDone t s.done)) { s with done := addDone t s.done }
 | markOnly {t : Task} :
   Worked plan w s (.marking t) .idle { s with done := addDone t s.done, ckptMu := none }
 | save {t : Task} {digests : List Str} :
   Worked plan w s (.saving t digests) .idle { s.note (.saved digests) with ckptMu := none }
 | saveFail {t : Task} {digests : List Str} {err : PushError} :
   Worked plan w s (.saving t digests) (.failing err)
    ({ s.note (.saved digests) with ckptMu := none }.note (.failed err))
 | cancel {err : PushError} : Worked plan w s (.failing err) (.reporting err) s.cancel
 | report {err : PushError} {errCh : List PushError} :
   Worked plan w s (.reporting err) .exited { s with errCh := errCh }

theorem worked {plan : Plan} {w : Nat} {answer : Answer} {s s' : State} {old new : Worker}
  (stepped : work plan w answer s old = some (new, s')) : Worked plan w s old new s' := by
 cases old with
 | saving t digests =>
  rcases answer with _ | _ | _ | (_ | err) | _ | _ | _ <;> cases stepped
  · exact .save
  · exact .saveFail
 | reporting err =>
  cases stepped
  by_cases room : s.errCh.length < plan.jobs <;> simp only [room, if_true, if_false] <;>
   exact .report
 | _ => cases answer <;> grind [work, fails, Worked, Holds, taskOf]

inductive Fed (plan : Plan) (s : State) : State → Prop
 | close (ended : s.feeder = .next []) : Fed plan s { s with feeder := .closed }
 | skip {t : Task} {rest : List Task} (first : s.feeder = .next (t :: rest))
   (finished : t.digest ∈ s.done) : Fed plan s { s with feeder := .next rest }
 | offer {t : Task} {rest : List Task} (first : s.feeder = .next (t :: rest)) :
   Fed plan s { s with feeder := .offering t rest }
 | send {t : Task} {rest : List Task} (offered : s.feeder = .offering t rest) :
   Fed plan s { s with taskCh := s.taskCh ++ [t], feeder := .next rest }
 | stop {t : Task} {rest : List Task} (offered : s.feeder = .offering t rest)
   (ended : s.cancelled = true) : Fed plan s { s with feeder := .closed }

theorem fed {plan : Plan} {s s' : State} (stepped : feed plan s = some s') : Fed plan s s' := by
 unfold feed at stepped
 grind [Fed]

theorem fed_stop {plan : Plan} {s s' : State} (stepped : feedStop s = some s') : Fed plan s s' := by
 unfold feedStop at stepped
 grind [Fed]

inductive Ran (plan : Plan) (s : State) : State → Prop
 | gather (waiting : s.main = .waiting) (exited : AllExited s) :
   Ran plan s { s with main := .collecting }
 | fail {err : PushError} (later : s.main ≠ .waiting) (running : ∀ err, s.main ≠ .returned err) :
   Ran plan s { s with main := .returned (some err) }
 | pass (collecting : s.main = .collecting) : Ran plan s { s with main := .checkingContext }
 | publish (checking : s.main = .checkingContext) (running : s.cancelled = false) :
   Ran plan s { s with main := .publishing (puts plan) }
 | put {ident : Ident} {rest : List Ident} (publishing : s.main = .publishing (ident :: rest))
   (running : s.cancelled = false) :
   Ran plan s { s.note (.put ident true) with main := .publishing rest }
 | putFail {ident : Ident} {rest : List Ident} {err : PushError}
   (publishing : s.main = .publishing (ident :: rest)) (running : s.cancelled = false) :
   Ran plan s { s.note (.put ident false) with main := .returned (some err) }
 | published (publishing : s.main = .publishing []) :
   Ran plan s { s with main := if plan.verify then .verifyingBlobs plan.tasks else .cleaning }
 | blob {t : Task} {rest : List Task} {size : Int64}
   (verifying : s.main = .verifyingBlobs (t :: rest))
   (fits : sizeMismatch size t = false) :
   Ran plan s { s.note (.verified t size) with main := .verifyingBlobs rest }
 | blobs (verifying : s.main = .verifyingBlobs []) :
   Ran plan s { s with main := .verifyingManifests (sortedStaged plan) }
 | manifest {m : Str × Bytes} {rest : List (Str × Bytes)}
   (verifying : s.main = .verifyingManifests (m :: rest)) :
   Ran plan s { s with main := .verifyingManifests rest }
 | manifests (verifying : s.main = .verifyingManifests []) :
   Ran plan s { s with main := .verifyingTag }
 | tag (verifying : s.main = .verifyingTag) : Ran plan s { s with main := .cleaning }
 | clean (cleaning : s.main = .cleaning) : Ran plan s { s with main := .returned none }

section Main

variable {plan : Plan} {s s' : State}

theorem ran_put {ident : Ident} {rest : List Ident} {reply : Except Str Nat}
  (publishing : s.main = .publishing (ident :: rest))
  (stepped : putManifest ident rest reply s = some s') : Ran plan s s' := by
 unfold putManifest returns at stepped
 grind [Ran]

theorem ran_blob {t : Task} {rest : List Task} {reply : Except Str HeadReply}
  (verifying : s.main = .verifyingBlobs (t :: rest))
  (stepped : verifyBlob t rest reply s = some s') : Ran plan s s' := by
 unfold verifyBlob returns at stepped
 grind [Ran]

theorem ran {answer : Answer} (stepped : mainStep plan answer s = some s') : Ran plan s s' := by
 unfold mainStep returns at stepped
 grind [Ran, ran_put, ran_blob, AllExited]

inductive Stepped (plan : Plan) (s : State) : State → Prop
 | fed {s' : State} (fed : Fed plan s s') : Stepped plan s s'
 | worked {w : Nat} {old new : Worker} {s' : State} (place : s.workers[w]? = some old)
   (worked : Worked plan w s old new s') :
   Stepped plan s { s' with workers := s.workers.set w new }
 | ran {s' : State} (ran : Ran plan s s') : Stepped plan s s'
 | cancelled (running : s.cancelled = false) : Stepped plan s s.cancel

theorem step_cases {action : Action} (stepped : step plan action s = some s') :
  Stepped plan s s' := by
 cases action with
 | work w answer =>
  unfold step at stepped
  cases place : s.workers[w]? with
  | none => simp [place] at stepped
  | some old =>
   simp only [place] at stepped
   obtain ⟨⟨new, after⟩, taken, rfl⟩ := Option.map_eq_some_iff.mp stepped
   exact .worked place (worked taken)
 | _ => grind [step, Stepped, fed, fed_stop, ran]

end Main

end BackImage.Registry.PushSteps
