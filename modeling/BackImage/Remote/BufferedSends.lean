/- source: pkg/remote/framebuffer.go
  digest: Whatever the timing of the background sends, the stream leaves a frame buffer
    unchanged. -/

import BackImage.Go.Text
import BackImage.Lib.Handoff

namespace BackImage.Remote.BufferedSends

open Go.Text Lib.Handoff Lib.Transitions
open Relation (ReflTransGen)

/-- Where a caller is: in the loop of `Write`, in the `wait` of `startSend` called there or in
`Flush`, or in the last `wait` of `Flush`. -/
inductive Control
 | idle
 | writing (rest : Bytes) (written : Nat)
 | sending (rest : Bytes) (written : Nat)
 | flushing
 | draining

def Control.stage : Control → Option (Stage UInt8)
 | .writing rest _ => some (.taking rest)
 | .sending _ _ => some .sending
 | _ => none

/-- `FrameBuffer`. The pipe holds both arrays, `buf` as its current one, and `inflight` as its
flight. Calls hold the lock, so that there is one caller at a time. -/
structure FrameBuffer where
 pipe : Pipe UInt8 (Option Str)
 spare : Nat
 err : Option Str
 control : Control

inductive Return
 | wrote (n : Nat) (err : Option Str)
 | flushed (err : Option Str)

/-- The end of `wait`: nothing is in flight, or the outcome has arrived. -/
inductive Wait (f : FrameBuffer) : FrameBuffer → Prop
 | nothing (landed : f.pipe.flight = .idle ∨ f.pipe.flight = .broken) : Wait f f
 | collected {outcome : Option Str} (settled : f.pipe.flight = .settled outcome) :
   Wait f { f with pipe := f.pipe.collect outcome.isSome, err := f.err <|> outcome }

def swap (f : FrameBuffer) : FrameBuffer :=
 { f with pipe := f.pipe.hand f.spare, spare := f.pipe.current }

/-- What the caller and the background write do next, with what a call returns. -/
inductive Step (size : Nat) (f : FrameBuffer) : Option Return → FrameBuffer → Prop
 | write (p : Bytes) (here : f.control = .idle) (fine : f.err = none) :
   Step size f none { f with control := .writing p 0 }
 | writeRefused {e : Str} (here : f.control = .idle) (failed : f.err = some e) :
   Step size f (some (.wrote 0 (some e))) f
 | append {rest : Bytes} {n : Nat} (here : f.control = .writing rest n) (more : rest ≠ [])
   (space : f.pipe.filled < size) :
   Step size f none { f with
    pipe := f.pipe.accept (rest.take (size - f.pipe.filled))
    control := .writing (rest.drop (size - f.pipe.filled))
     (n + min rest.length (size - f.pipe.filled)) }
 | full {rest : Bytes} {n : Nat} (here : f.control = .writing rest n) (more : rest ≠ [])
   (space : ¬ f.pipe.filled < size) : Step size f none { f with control := .sending rest n }
 | wrote {n : Nat} (here : f.control = .writing [] n) :
   Step size f (some (.wrote n none)) { f with control := .idle }
 | sent {rest : Bytes} {n : Nat} {g : FrameBuffer} (here : f.control = .sending rest n)
   (waited : Wait f g)
   (fine : g.err = none) : Step size f none { swap g with control := .writing rest n }
 | sendFailed {rest : Bytes} {n : Nat} {g : FrameBuffer} {e : Str}
   (here : f.control = .sending rest n)
   (waited : Wait f g) (failed : g.err = some e) :
   Step size f (some (.wrote n (some e))) { g with control := .idle }
 | flush (here : f.control = .idle) (filled : f.pipe.filled ≠ 0) :
   Step size f none { f with control := .flushing }
 | flushEmpty (here : f.control = .idle) (empty : f.pipe.filled = 0) (fine : f.err = none) :
   Step size f none { f with control := .draining }
 | flushRefused {e : Str} (here : f.control = .idle) (empty : f.pipe.filled = 0)
   (failed : f.err = some e) : Step size f (some (.flushed (some e))) f
 | flushSent {g : FrameBuffer} (here : f.control = .flushing) (waited : Wait f g)
   (fine : g.err = none) : Step size f none { swap g with control := .draining }
 | flushFailed {g : FrameBuffer} {e : Str} (here : f.control = .flushing) (waited : Wait f g)
   (failed : g.err = some e) : Step size f (some (.flushed (some e))) { g with control := .idle }
 | flushed {g : FrameBuffer} (here : f.control = .draining) (waited : Wait f g) :
   Step size f (some (.flushed g.err)) { g with control := .idle }
 | issue {buffer length : Nat} (handed : f.pipe.flight = .handed buffer length) :
   Step size f none { f with pipe := f.pipe.issue buffer length }
 | finish {buffer length : Nat} (outcome : Option Str)
   (sending : f.pipe.flight = .sending buffer length) :
   Step size f none { f with pipe := f.pipe.finish outcome }

structure Inv (size : Nat) (f : FrameBuffer) : Prop where
 pipe : Sound size Option.isSome f.pipe
 spare : f.spare ≠ f.pipe.current
 broken : f.pipe.flight = .broken ↔ f.err ≠ none
 drained : f.control = .draining → f.pipe.filled = 0

section Runs

variable {size : Nat} {f g : FrameBuffer} {out : Option Return}

theorem Wait.spec (inv : Inv size f) (waited : Wait f g) :
  Sound size Option.isSome g.pipe ∧ g.spare ≠ g.pipe.current ∧ g.pipe.filled = f.pipe.filled ∧
   g.pipe.heap = f.pipe.heap ∧ g.pipe.notes = f.pipe.notes ∧
   (g.err = none → g.pipe.flight = .idle) ∧ (g.err ≠ none → g.pipe.flight = .broken) := by
 obtain ⟨pipe, spare, broken, drained⟩ := inv
 cases waited with
 | nothing landed => grind
 | @collected outcome settled =>
  refine ⟨pipe.collect settled, spare, rfl, rfl, rfl, ?_, ?_⟩ <;> cases outcome <;>
   grind [Pipe.collect]

theorem Wait.fails (inv : Inv size f) (failed : f.pipe.Failed Option.isSome) (waited : Wait f g) :
  g.err ≠ none := by
 obtain ⟨sound, -, -, -, notes, idle, -⟩ := waited.spec inv
 intro fine
 exact sound.not_idle (failed.mono (notes ▸ List.prefix_rfl)) (idle fine)

end Runs

end BackImage.Remote.BufferedSends
