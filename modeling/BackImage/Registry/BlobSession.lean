/- source: pkg/registry/blob.go
  digest: Whatever the timing of its requests, an upload session sends the blob in order and commits
    all of it. -/

import BackImage.Go.Text
import BackImage.Lib.Handoff

namespace BackImage.Registry.BlobSession

open Go.Text Lib.Handoff Lib.Transitions
open Relation (ReflTransGen)

/-- Where a caller is: in the loop of `Write` or its `startFlush`; in the wait, the PATCH or the PUT
of `Commit`; in the wait or the DELETE of `Abort`. -/
inductive Control
 | idle
 | writing (rest : Bytes) (written : Nat)
 | sending (rest : Bytes) (written : Nat)
 | flushing
 | patching
 | putting
 | awaitingPut
 | aborting
 | awaitingDelete

def Control.stage : Control → Option (Stage UInt8)
 | .writing rest _ => some (.taking rest)
 | .sending _ _ => some .sending
 | _ => none

inductive Request
 | patch (loc : Str) (body : Bytes)
 | put (loc : Str)
 | delete (loc : Str)

def Request.loc : Request → Str
 | .patch loc _ => loc
 | .put loc => loc
 | .delete loc => loc

inductive Event
 | sent (request : Request)
 | answered (loc : Option Str)

/-- `BlobUpload`. The pipe holds the arrays and the PATCH in flight, which was given `target` and
`body`; `made` counts the arrays. A part that `flush` sends itself counts as handed over. -/
structure BlobUpload where
 pipe : Pipe UInt8 (Except Str Str)
 target : Str
 body : Nat
 spare : Option Nat
 made : Nat
 loc : Str
 err : Option Str
 committed : Bool
 aborted : Bool
 control : Control
 log : List Event

inductive Return
 | wrote (n : Nat) (err : Option Str)
 | committed (err : Option Str)
 | aborted (err : Option Str)

/-- The session that `Open` returns. -/
def openAt (loc : Str) : BlobUpload := ⟨.start, [], 0, none, 1, loc, none, false, false, .idle, []⟩

def lowerHex (c : UInt8) : Bool := (48 ≤ c && c ≤ 57) || (97 ≤ c && c ≤ 102)

def validSHA256Digest (d : Str) : Bool :=
 d.length = 71 && d.take 7 = lit "sha256:" && (d.drop 7).all lowerHex

/-- `Open`, with the answer to the request that starts the upload. -/
def openUpload (startUpload : Except Str Str) (digest : Str) : Except Str BlobUpload :=
 if validSHA256Digest digest = false then .error (lit "invalid blob digest")
 else
  match startUpload with
  | .error e => .error e
  | .ok loc =>
   if loc = [] then .error (lit "registry returned an empty upload location")
   else .ok (openAt loc)

theorem openUpload_ok_iff {startUpload : Except Str Str} {digest : Str} :
  (∃ u, openUpload startUpload digest = .ok u) ↔
   validSHA256Digest digest = true ∧ ∃ loc, startUpload = .ok loc ∧ loc ≠ [] := by
 unfold openUpload
 cases validSHA256Digest digest with
 | false => simp
 | true =>
  cases startUpload with
  | error e => simp
  | ok loc => by_cases empty : loc = [] <;> simp [empty]

def failsPatch : Except Str Str → Bool
 | .ok _ => false
 | .error _ => true

def located : Except Str Str → Option Str
 | .ok loc => some loc
 | .error _ => none

/-- The end of `waitFlush`: nothing is in flight, or the result has arrived. -/
inductive Wait (u : BlobUpload) : BlobUpload → Option Str → Prop
 | nothing (landed : u.pipe.flight = .idle ∨ u.pipe.flight = .broken) : Wait u u none
 | located {loc : Str} (settled : u.pipe.flight = .settled (.ok loc)) :
   Wait u { u with pipe := u.pipe.collect false, spare := some u.body, loc := loc } none
 | failed {e : Str} (settled : u.pipe.flight = .settled (.error e)) :
   Wait u { u with pipe := u.pipe.collect true, spare := some u.body, err := some e } (some e)

def handOver (u : BlobUpload) : BlobUpload :=
 { u with
   pipe := u.pipe.hand (u.spare.getD u.made)
   made := if u.spare = none then u.made + 1 else u.made
   spare := none
   target := u.loc
   body := u.pipe.current }

/-- What the caller and the background PATCH do next, with what a call returns. -/
inductive Step (size : Nat) (u : BlobUpload) : Option Return → BlobUpload → Prop
 | write (p : Bytes) (here : u.control = .idle) (fine : u.err = none)
   (opened : u.committed = false ∧ u.aborted = false) :
    Step size u none { u with control := .writing p 0 }
 | writeRefused {e : Str} (here : u.control = .idle) (refused : u.err = some e ∨ u.err = none ∧
   (u.committed = true ∨ u.aborted = true) ∧ e = lit "registry blob upload is closed") :
   Step size u (some (.wrote 0 (some e))) u
 | append {rest : Bytes} {n : Nat} (here : u.control = .writing rest n) (more : rest ≠ [])
   (space : u.pipe.filled < size) :
   Step size u none { u with
    pipe := u.pipe.accept (rest.take (size - u.pipe.filled))
    control := .writing (rest.drop (size - u.pipe.filled))
     (n + min rest.length (size - u.pipe.filled)) }
 | full {rest : Bytes} {n : Nat} (here : u.control = .writing rest n) (more : rest ≠ [])
   (space : ¬ u.pipe.filled < size) : Step size u none { u with control := .sending rest n }
 | wrote {n : Nat} (here : u.control = .writing [] n) :
   Step size u (some (.wrote n none)) { u with control := .idle }
 | sent {rest : Bytes} {n : Nat} {v : BlobUpload} (here : u.control = .sending rest n)
   (waited : Wait u v none) : Step size u none { handOver v with control := .writing rest n }
 | sendFailed {rest : Bytes} {n : Nat} {v : BlobUpload} {e : Str}
   (here : u.control = .sending rest n)
   (waited : Wait u v (some e)) :
    Step size u (some (.wrote n (some e))) { v with err := some e, control := .idle }
 | commit (here : u.control = .idle) (fine : u.err = none)
   (opened : u.committed = false ∧ u.aborted = false) :
   Step size u none { u with control := .flushing }
 | commitRefused {e : Str} (here : u.control = .idle) (refused : u.err = some e ∨ u.err = none ∧
   u.aborted = true ∧ e = lit "registry blob upload was aborted") :
    Step size u (some (.committed (some e))) u
 | commitAgain (here : u.control = .idle) (fine : u.err = none)
   (done : u.aborted = false ∧ u.committed = true) : Step size u (some (.committed none)) u
 | flushFailed {v : BlobUpload} {e : Str} (here : u.control = .flushing)
   (waited : Wait u v (some e)) :
   Step size u (some (.committed (some e))) { v with err := some e, control := .idle }
 | flushed {v : BlobUpload} (here : u.control = .flushing) (waited : Wait u v none)
   (empty : v.pipe.filled = 0) : Step size u none { v with control := .putting }
 | flushRest {v : BlobUpload} (here : u.control = .flushing) (waited : Wait u v none)
   (rest : v.pipe.filled ≠ 0) : Step size u none { v with
    pipe := v.pipe.hand v.made, made := v.made + 1, target := v.loc, body :=
     v.pipe.current, control := .patching }
 | patched {loc : Str} (here : u.control = .patching)
   (settled : u.pipe.flight = .settled (.ok loc)) :
   Step size u none { u with pipe := u.pipe.collect false, loc := loc, control := .putting }
 | patchFailed {e : Str} (here : u.control = .patching)
   (settled : u.pipe.flight = .settled (.error e)) :
   Step size u (some (.committed (some e))) { u with
    pipe := u.pipe.collect true, err := some e, control := .idle }
 | put (here : u.control = .putting) :
   Step size u none { u with control := .awaitingPut, log := u.log ++ [.sent (.put u.loc)] }
 | putUnmade (e : Str) (here : u.control = .putting) :
   Step size u (some (.committed (some e))) { u with err := some e, control := .idle }
 | committed (here : u.control = .awaitingPut) :
   Step size u (some (.committed none)) { u with
    committed := true, control := .idle, log := u.log ++ [.answered none] }
 | putFailed (e : Str) (here : u.control = .awaitingPut) :
   Step size u (some (.committed (some e))) { u with
    err := some e, control := .idle, log := u.log ++ [.answered none] }
 | abort (here : u.control = .idle) (opened : u.committed = false ∧ u.aborted = false) :
   Step size u none { u with aborted := true, control := .aborting }
 | abortAgain (here : u.control = .idle) (done : u.committed = true ∨ u.aborted = true) :
   Step size u (some (.aborted none)) u
 | delete {v : BlobUpload} {e : Option Str} (here : u.control = .aborting) (waited : Wait u v e) :
   Step size u none { v with control := .awaitingDelete, log := v.log ++ [.sent (.delete v.loc)] }
 | deleteUnmade {v : BlobUpload} {e : Option Str} (cause : Str) (here : u.control = .aborting)
   (waited : Wait u v e) : Step size u (some (.aborted (some cause))) { v with control := .idle }
 | deleted (err : Option Str) (here : u.control = .awaitingDelete) :
   Step size u (some (.aborted err)) { u with control := .idle, log := u.log ++ [.answered none] }
 | issue {buffer length : Nat} (handed : u.pipe.flight = .handed buffer length) :
   Step size u none { u with
    pipe := u.pipe.issue buffer length
    log := u.log ++ [.sent (.patch u.target (u.pipe.slice buffer length))] }
 | finish {buffer length : Nat} (outcome : Except Str Str)
   (sending : u.pipe.flight = .sending buffer length) : Step size u none { u with
    pipe := u.pipe.finish outcome
    log := u.log ++ [.answered (located outcome)] }

def latest (start : Str) (log : List Event) : Str :=
 log.foldl (fun loc event => match event with
  | .answered (some next) => next
  | _ => loc) start

def underway (log : List Event) : Bool :=
 log.foldl (fun _ event => match event with
  | .sent _ => true
  | .answered _ => false) false

def bodies (log : List Event) : Bytes :=
 log.flatMap fun
  | .sent (.patch _ body) => body
  | _ => []

def Whole (size : Nat) (log : List Event) : Prop :=
 ∀ loc body, .sent (.patch loc body) ∈ log → body.length = size

/-- Requests are sent one at a time, each to the location that the last PATCH returned; a PATCH
carries at most a chunk, and follows whole ones only. -/
def Lawful (start : Str) (size : Nat) (before : List Event) : Event → Prop
 | .sent request => underway before = false ∧ request.loc = latest start before ∧
   ∀ loc body, request = .patch loc body → body.length ≤ size ∧ Whole size before
 | .answered _ => True

def Open (u : BlobUpload) : Prop := u.err = none ∧ u.committed = false

def Drained (u : BlobUpload) : Prop := u.pipe.flight = .idle ∧ u.pipe.filled = 0

def Place (start : Str) (size : Nat) (u : BlobUpload) : Control → Prop
 | .idle => True
 | .writing _ _ | .flushing => Open u
 | .sending _ _ => Open u ∧ u.pipe.filled = size
 | .patching => Open u ∧ u.pipe.filled = 0
 | .putting => Open u ∧ Drained u
 | .awaitingPut =>
  Open u ∧ Drained u ∧ ∃ before, u.log = before ++ [.sent (.put (latest start before))]
 | .aborting => u.committed = false
 | .awaitingDelete => u.committed = false ∧ u.pipe.flight.landed = true

/-- A request of the caller itself is under way. -/
def Control.asks : Control → Bool
 | .awaitingPut | .awaitingDelete => true
 | _ => false

/-- The rest of the blob has been sent. -/
def Control.late : Control → Bool
 | .patching | .putting | .awaitingPut => true
 | _ => false

def Control.waits : Control → Bool
 | .sending _ _ | .flushing | .aborting => true
 | _ => false

def Closing (u : BlobUpload) : Prop := u.err ≠ none ∨ u.committed = true ∨ u.control.late = true

structure Inv (start : Str) (size : Nat) (u : BlobUpload) : Prop where
 pipe : Sound size failsPatch u.pipe
 current : u.pipe.current < u.made
 spare : ∀ buffer, u.spare = some buffer → buffer < u.made ∧ buffer ≠ u.pipe.current
 body : u.pipe.flight.landed = false → u.body < u.made ∧ u.body ≠ u.pipe.current ∧ u.target = u.loc
 found : ∀ loc, u.pipe.flight = .settled (.ok loc) → latest start u.log = loc
 kept : (∀ loc, u.pipe.flight ≠ .settled (.ok loc)) → latest start u.log = u.loc
 underway : underway u.log = (u.pipe.flight.isSending || u.control.asks)
 bodies : bodies u.log = issued u.pipe.notes
 broken : u.pipe.flight = .broken → u.err ≠ none
 place : Place start size u u.control
 done : u.committed = true → Drained u ∧ u.control = .idle ∧
  ∃ before, u.log = before ++ [.sent (.put (latest start before)), .answered none]
 sized : ∀ buffer length, u.pipe.flight = .handed buffer length → u.control = .patching ∨
  length = size
 whole : Whole size u.log ∨ Closing u ∧ ∀ buffer length, u.pipe.flight ≠ .handed buffer length
 lawful : Guarded (Lawful start size) u.log

section Runs

variable {start : Str} {size : Nat} {u v : BlobUpload} {out : Option Return}

theorem whole_concat {log : List Event} {event : Event} (whole : Whole size log)
  (fits : ∀ loc body, event = .sent (.patch loc body) → body.length = size) :
  Whole size (log ++ [event]) := by
 intro loc body inside
 rcases List.mem_append.mp inside with before | last
 · exact whole loc body before
 · exact fits loc body (List.mem_singleton.mp last).symm

theorem Closing.moved (closing : Closing u) (early : u.control.late = false) (c : Control) :
  Closing { u with control := c } := by
 rcases closing with failed | done | late
 · exact .inl failed
 · exact .inr (.inl done)
 · rw [early] at late
   cases late

theorem Control.waits_spec {c : Control} (waits : c.waits = true) : c.asks = false ∧
  c.late = false ∧ c ≠ .idle := by
 cases c with
 | sending | flushing | aborting => exact ⟨rfl, rfl, by simp⟩
 | _ => cases waits

theorem Wait.inv {e : Option Str} (inv : Inv start size u) (waited : Wait u v e)
  (waits : u.control.waits = true) :
  Inv start size { v with control := .idle } ∧ v.pipe.flight.landed = true ∧
   v.committed = u.committed ∧ v.pipe.filled = u.pipe.filled ∧ (e = none → v.err = u.err) ∧
   (e = none → u.err = none → v.pipe.flight = .idle) := by
 obtain ⟨quiet, early, busy⟩ := Control.waits_spec waits
 have unfinished : u.committed ≠ true := fun done => busy (inv.done done).2.1
 cases waited with
 | nothing landed =>
  have ended : u.pipe.flight.landed = true := by rcases landed with is | is <;> rw [is] <;> rfl
  refine ⟨{ inv with
   underway := by rw [inv.underway, quiet]; rfl
   place := trivial
   done := fun done => absurd done unfinished
   sized := fun buffer length handed => by rw [handed] at ended; cases ended
   whole := inv.whole.imp id (And.imp_left fun closing => closing.moved early _) }, ended, rfl, rfl,
    fun _ => rfl, ?_⟩
  intro _ fine
  exact landed.resolve_right fun broken => inv.broken broken fine
 | located settled =>
  obtain ⟨known, other, -⟩ := inv.body (by rw [settled]; rfl)
  refine ⟨⟨inv.pipe.collect settled, inv.current,
   ?_, by rintro ⟨⟩, by rintro loc ⟨⟩, fun _ => inv.found _ settled, ?_,
   inv.bodies, by rintro ⟨⟩, trivial, fun done => absurd done unfinished,
    by rintro buffer length ⟨⟩, ?_, inv.lawful⟩,
   rfl, rfl, rfl, fun _ => rfl, fun _ _ => rfl⟩
  · rintro buffer ⟨⟩
    exact ⟨known, other⟩
  · rw [inv.underway, settled, quiet]
    rfl
  · exact inv.whole.imp id fun closing => ⟨closing.1.moved early _, by rintro buffer length ⟨⟩⟩
 | failed settled =>
  obtain ⟨known, other, -⟩ := inv.body (by rw [settled]; rfl)
  refine ⟨⟨inv.pipe.collect settled, inv.current, ?_, by rintro ⟨⟩, by rintro loc ⟨⟩,
   fun _ => inv.kept (by rw [settled]; rintro loc ⟨⟩), ?_, inv.bodies, fun _ =>
    Option.some_ne_none _, trivial,
   fun done => absurd done unfinished, by rintro buffer length ⟨⟩, ?_, inv.lawful⟩,
   rfl, rfl, rfl, by rintro ⟨⟩, by rintro ⟨⟩⟩
  · rintro buffer ⟨⟩
    exact ⟨known, other⟩
  · rw [inv.underway, settled, quiet]
    rfl
  · exact .inr ⟨.inl (Option.some_ne_none _), by rintro buffer length ⟨⟩⟩

/-! What follows a `waitFlush`. -/

section

variable (inv : Inv start size u) (here : u.control = .idle)

include inv here

end

section

variable (inv : Inv start size u)

include inv

end

section

variable (inv : Inv start size u) (done : u.committed = true)

include inv done

end

end Runs

end BackImage.Registry.BlobSession
