/- source: none
  digest: A producer that fills one buffer while a sender owns another delivers what it was given,
    in order. -/

import BackImage.Lib.Transitions
import Mathlib.Logic.Relation

namespace BackImage.Lib.Handoff

open Transitions
open Relation (ReflTransGen)

universe u v

/-- What has happened: data was taken into a buffer, a payload was given to the sender, a send
ended. -/
inductive Note (α : Type u) (ω : Type v)
 | accepted (data : List α)
 | issued (payload : List α)
 | finished (outcome : ω)

/-- The send that was handed over last. `handed` and `sending` own a buffer up to a length;
`settled` has an outcome that the producer has not seen, and `broken` is what a failure leaves once
it has. -/
inductive Flight (ω : Type v)
 | idle
 | handed (buffer length : Nat)
 | sending (buffer length : Nat)
 | settled (outcome : ω)
 | broken

/-- The buffers by number, the one being filled, and the send. -/
structure Pipe (α : Type u) (ω : Type v) where
 heap : Nat → List α
 current : Nat
 filled : Nat
 flight : Flight ω
 notes : List (Note α ω)

section Pipes

variable {α : Type u} {ω : Type v}

def accepted (notes : List (Note α ω)) : List α :=
 notes.flatMap fun
  | .accepted data => data
  | _ => []

def issued (notes : List (Note α ω)) : List α :=
 notes.flatMap fun
  | .issued payload => payload
  | _ => []

/-- A send was issued and has not ended. -/
def running (notes : List (Note α ω)) : Bool :=
 notes.foldl (fun busy note => match note with
  | .accepted _ => busy
  | .issued _ => true
  | .finished _ => false) false

def Pipe.slice (p : Pipe α ω) (buffer length : Nat) : List α := (p.heap buffer).take length

/-- What stands in a buffer after `data` was written from `place` on. -/
def overwrite (cells : List α) (place : Nat) (data : List α) : List α :=
 cells.take place ++ data ++ cells.drop (place + data.length)

def Pipe.start : Pipe α ω := ⟨fun _ => [], 0, 0, .idle, []⟩

section

variable (p : Pipe α ω)

def Pipe.accept (data : List α) : Pipe α ω :=
 { p with
   heap := Function.update p.heap p.current (overwrite (p.heap p.current) p.filled data)
   filled := p.filled + data.length
   notes := p.notes ++ [.accepted data] }

/-- The filled part goes to the sender, and another buffer takes its place. -/
def Pipe.hand (other : Nat) : Pipe α ω :=
 { p with current := other, filled := 0, flight := .handed p.current p.filled }

def Pipe.issue (buffer length : Nat) : Pipe α ω :=
 { p with flight := .sending buffer length, notes := p.notes ++ [.issued (p.slice buffer length)] }

def Pipe.finish (outcome : ω) : Pipe α ω :=
 { p with flight := .settled outcome, notes := p.notes ++ [.finished outcome] }

/-- The producer sees the outcome. -/
def Pipe.collect (failed : Bool) : Pipe α ω :=
 { p with flight := if failed then .broken else .idle }

/-- The sender owns this part of a buffer. -/
def Flight.Owns (flight : Flight ω) (buffer length : Nat) : Prop :=
 flight = .handed buffer length ∨ flight = .sending buffer length

/-- What was handed over and not yet issued. -/
def Pipe.pending : List α :=
 match p.flight with
 | .handed buffer length => p.slice buffer length
 | _ => []

end

def Flight.isSending : Flight ω → Bool
 | .sending _ _ => true
 | _ => false

/-- The producer has seen the end of the last send. -/
def Flight.landed : Flight ω → Bool
 | .idle | .broken => true
 | _ => false

/-- Payloads are issued one at a time, in the order of the data, none larger than a buffer and none
after a failure. -/
def Law (size : Nat) (fails : ω → Bool) (before : List (Note α ω)) : Note α ω → Prop
 | .issued payload => running before = false ∧ payload.length ≤ size ∧
   issued before ++ payload <+: accepted before ∧ ∀ w, .finished w ∈ before → fails w = false
 | _ => True

structure Sound (size : Nat) (fails : ω → Bool) (p : Pipe α ω) : Prop where
 room : p.filled ≤ size
 stored : p.filled ≤ (p.heap p.current).length
 apart : ∀ buffer length, p.flight.Owns buffer length → buffer ≠ p.current ∧ length ≤ size ∧
  length ≤ (p.heap buffer).length
 content : accepted p.notes = issued p.notes ++ p.pending ++ p.slice p.current p.filled
 busy : running p.notes = p.flight.isSending
 failed : ∀ w, .finished w ∈ p.notes → fails w = true → p.flight = .broken ∨ p.flight = .settled w
 lawful : Guarded (Law size fails) p.notes

variable {size : Nat} {fails : ω → Bool} {p : Pipe α ω} {data : List α} {other buffer length : Nat}
 {w : ω}

theorem sound_start : Sound size fails (Pipe.start : Pipe α ω) where
 room := Nat.zero_le _
 stored := Nat.le_refl _
 apart := by rintro buffer length (impossible | impossible) <;> cases impossible
 content := rfl
 busy := rfl
 failed := fun _ impossible => absurd impossible List.not_mem_nil
 lawful := guarded_nil

theorem accept_heap (sound : Sound size fails p) (owns : p.flight.Owns buffer length) :
  (p.accept data).heap buffer = p.heap buffer :=
 Function.update_of_ne (sound.apart buffer length owns).1 _ _

section

variable (sound : Sound size fails p)

include sound

theorem Sound.accept (fits : p.filled + data.length ≤ size) : Sound size fails (p.accept data) where
 room := fits
 stored := by
  have stored := sound.stored
  simp only [Pipe.accept, Function.update_self, overwrite, List.length_append, List.length_take]
  omega
 apart := by
  intro buffer length owns
  rw [accept_heap sound owns]
  exact sound.apart buffer length owns
 content := by
  have pending : (p.accept data).pending = p.pending := by
   unfold Pipe.pending
   change (match p.flight with | .handed buffer length => _ | _ => []) = _
   split
   · rename_i buffer length flight
     exact congrArg (List.take length) (accept_heap sound (.inl flight))
   · rfl
  have cell : (p.accept data).slice p.current (p.filled + data.length) =
    p.slice p.current p.filled ++ data := by
   have stored := sound.stored
   simp only [Pipe.accept, Pipe.slice, Function.update_self, overwrite]
   rw [List.take_append_of_le_length, List.take_of_length_le]
   · simp only [List.length_append, List.length_take]
     omega
   · simp only [List.length_append, List.length_take]
     omega
  rw [pending]
  change accepted (p.notes ++ [.accepted data]) = issued (p.notes ++ [.accepted data]) ++
   p.pending ++
   (p.accept data).slice p.current (p.filled + data.length)
  have content := sound.content
  simp only [accepted, issued] at content
  simp only [accepted, issued, List.flatMap_append, List.flatMap_singleton, List.append_nil,
   content, cell,
   List.append_assoc]
 busy := by simpa [running, Pipe.accept] using sound.busy
 failed := fun w inside => sound.failed w (by simpa [Pipe.accept] using inside)
 lawful := guarded_concat sound.lawful trivial

theorem Sound.hand (idle : p.flight = .idle) (different : other ≠ p.current) :
  Sound size fails (p.hand other) where
 room := Nat.zero_le _
 stored := Nat.zero_le _
 apart := by
  rintro buffer length (is | is) <;> cases is
  exact ⟨Ne.symm different, sound.room, sound.stored⟩
 content := by
  have content := sound.content
  simp only [Pipe.pending, idle, List.append_nil] at content
  simpa [Pipe.hand, Pipe.pending, Pipe.slice] using content
 busy := sound.busy.trans (by rw [idle]; rfl)
 failed := by
  intro w inside fails
  rcases sound.failed w inside fails with is | is <;> rw [idle] at is <;> cases is
 lawful := sound.lawful

theorem Sound.issue (handed : p.flight = .handed buffer length) :
  Sound size fails (p.issue buffer length) where
 room := sound.room
 stored := sound.stored
 apart := by
  rintro other amount (is | is) <;> cases is
  exact sound.apart _ _ (.inl handed)
 content := by
  have content := sound.content
  simp only [Pipe.pending, handed, accepted, issued] at content
  simpa [Pipe.issue, Pipe.pending, accepted, issued, Pipe.slice] using content
 busy := by simp [running, Pipe.issue, Flight.isSending]
 failed := by
  intro w inside failing
  have before : .finished w ∈ p.notes := by simpa [Pipe.issue] using inside
  rcases sound.failed w before failing with is | is <;> rw [handed] at is <;> cases is
 lawful := by
  refine guarded_concat sound.lawful ⟨?_, ?_, ?_, fun w inside => ?_⟩
  · rw [sound.busy, handed]
    rfl
  · exact (List.length_take_le _ _).trans (sound.apart _ _ (.inl handed)).2.1
  · rw [sound.content, Pipe.pending, handed]
    exact List.prefix_append _ _
  · by_contra failing
    rcases sound.failed w inside (by simpa using failing) with
     is | is <;> rw [handed] at is <;> cases is

theorem Sound.finish (sending : p.flight = .sending buffer length) :
  Sound size fails (p.finish w) where
 room := sound.room
 stored := sound.stored
 apart := by rintro other amount (is | is) <;> cases is
 content := by
  have content := sound.content
  simp only [Pipe.pending, sending, accepted, issued] at content
  simpa [Pipe.finish, Pipe.pending, accepted, issued, Pipe.slice] using content
 busy := by simp [running, Pipe.finish, Flight.isSending]
 failed := by
  intro w' inside failing
  rcases List.mem_append.mp inside with before | last
  · rcases sound.failed w' before failing with is | is <;> rw [sending] at is <;> cases is
  · cases List.mem_singleton.mp last
    exact .inr rfl
 lawful := guarded_concat sound.lawful trivial

theorem Sound.collect (settled : p.flight = .settled w) :
  Sound size fails (p.collect (fails w)) where
 room := sound.room
 stored := sound.stored
 apart := by
  cases failing : fails w <;> rintro other amount (is | is) <;> cases is
 content := by
  have content := sound.content
  simp only [Pipe.pending, settled] at content
  cases failing : fails w <;> exact content
 busy := by
  have busy := sound.busy
  rw [settled] at busy
  cases failing : fails w <;> exact busy
 failed := by
  intro w' inside failing
  rcases sound.failed w' inside failing with is | is <;> rw [settled] at is <;> cases is
  exact .inl (if_pos failing)
 lawful := sound.lawful

end

/-- A send has failed. -/
def Pipe.Failed (fails : ω → Bool) (p : Pipe α ω) : Prop :=
 ∃ w, .finished w ∈ p.notes ∧ fails w = true

theorem Pipe.Failed.mono {q : Pipe α ω} (failed : p.Failed fails) (grown : p.notes <+: q.notes) :
  q.Failed fails := by
 obtain ⟨w, inside, failing⟩ := failed
 exact ⟨w, grown.mem inside, failing⟩

theorem Sound.not_idle (sound : Sound size fails p) (failed : p.Failed fails) :
  p.flight ≠ .idle := by
 obtain ⟨w, inside, failing⟩ := failed
 intro idle
 rcases sound.failed w inside failing with is | is <;> rw [idle] at is <;> cases is

/-- Where a write is: it takes data, or waits to hand a full buffer over. -/
inductive Stage (α : Type u)
 | taking (rest : List α)
 | sending

/-- A write that has more to take than the buffer has room for. -/
def MustSend (size filled : Nat) : Option (Stage α) → Prop
 | some (.taking rest) => size - filled < rest.length
 | some .sending => True
 | none => False

theorem MustSend.accept {rest : List α} (must : MustSend size p.filled (some (.taking rest))) :
  MustSend size (p.accept (rest.take (size - p.filled))).filled
   (some (.taking (rest.drop (size - p.filled)))) := by
 simp only [MustSend, Pipe.accept, List.length_take, List.length_drop] at must ⊢
 omega

end Pipes

end BackImage.Lib.Handoff
