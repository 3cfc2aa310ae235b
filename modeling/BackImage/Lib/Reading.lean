/- source: none
  digest: Readers that hand out a fixed content in pieces, and loops that drain them. -/

import Mathlib.Tactic.Common

namespace BackImage.Lib.Reading

/-- How a stream ends: regularly, or with an error. -/
inductive End (ε : Type) where
 | eof
 | failed (e : ε)
 deriving DecidableEq

/-- The error of an end that is not regular. -/
def End.fault {ε : Type} : End ε → Option ε
 | .eof => none
 | .failed e => some e

def End.map {ε δ : Type} (f : ε → δ) : End ε → End δ
 | .eof => .eof
 | .failed e => .failed (f e)

/-- The answer to one read: the next state, the data, and the end when it is reached. -/
structure Answer (σ α ε : Type) where
 next : σ
 data : List α
 stop : Option (End ε)

/-- A reader whose content does not depend on how it is read: every call hands out a piece of what
is left, at most as long as the buffer, possibly empty and possibly together with the end. Between
two ends only finitely many reads happen, which `weight` bounds. -/
structure Reader (σ α ε : Type) where
 read : σ → Nat → Answer σ α ε
 weight : σ → Nat
 content : σ → List α
 final : σ → End ε
 short : ∀ s k, (read s k).data.length ≤ k
 goesOn : ∀ s k, 0 < k → (read s k).stop = none →
  weight (read s k).next < weight s ∧
   content s = (read s k).data ++ content (read s k).next ∧ final (read s k).next = final s
 stops : ∀ s k e, 0 < k → (read s k).stop = some e → content s = (read s k).data ∧ final s = e

variable {σ α ε : Type}

/-- Read until the end, with the given buffer sizes. -/
def drain (read : σ → Nat → Answer σ α ε) (bufs : Nat → Nat) : Nat → Nat → σ →
  List α × Option (End ε)
 | 0, _, _ => ([], none)
 | fuel + 1, i, s =>
  let a := read s (bufs i)
  match a.stop with
  | some e => (a.data, some e)
  | none =>
   let (rest, e) := drain read bufs fuel (i + 1) a.next
   (a.data ++ rest, e)

namespace Reader

theorem drain_eq (r : Reader σ α ε) {bufs : Nat → Nat} (room : ∀ i, 0 < bufs i) {fuel i : Nat}
  {s : σ} (enough : r.weight s < fuel) :
  drain r.read bufs fuel i s = (r.content s, some (r.final s)) := by
 induction fuel generalizing i s with
 | zero => omega
 | succ fuel ih =>
  unfold drain
  cases stop : (r.read s (bufs i)).stop with
  | some e =>
   obtain ⟨all, ends⟩ := r.stops s (bufs i) e (room i) stop
   simp only [stop, all, ends]
  | none =>
   obtain ⟨lighter, split, same⟩ := r.goesOn s (bufs i) (room i) stop
   have rest := @ih (i + 1) (r.read s (bufs i)).next (by omega)
   simp only [stop, rest, ← split, same]

theorem drain_within (r : Reader σ α ε) {bufs : Nat → Nat} (room : ∀ i, 0 < bufs i) (fuel i : Nat)
  (s : σ) : (drain r.read bufs fuel i s).1 <+: r.content s := by
 induction fuel generalizing i s with
 | zero => exact List.nil_prefix
 | succ fuel ih =>
  unfold drain
  cases stop : (r.read s (bufs i)).stop with
  | some e =>
   obtain ⟨all, -⟩ := r.stops s (bufs i) e (room i) stop
   simp only [stop, all, List.prefix_rfl]
  | none =>
   obtain ⟨-, split, -⟩ := r.goesOn s (bufs i) (room i) stop
   simp only [stop, split]
   exact (List.prefix_append_right_inj _).mpr (ih _ _)

/-- Copy everything to a writer that takes it all: what arrives there, and the error. -/
def copy (r : Reader σ α ε) (bufs : Nat → Nat) (s : σ) : List α × Option ε :=
 let (data, stop) := drain r.read bufs (r.weight s + 1) 0 s
 (data, stop.bind End.fault)

theorem copy_eq (r : Reader σ α ε) {bufs : Nat → Nat} (room : ∀ i, 0 < bufs i) (s : σ) :
  r.copy bufs s = (r.content s, (r.final s).fault) := by
 unfold copy
 rw [r.drain_eq room (Nat.lt_succ_self _)]
 rfl

/-- Read everything into memory. -/
def readAll (r : Reader σ α ε) (s : σ) : Except ε (List α) :=
 match r.copy (fun _ => 512) s with
 | (data, none) => .ok data
 | (_, some e) => .error e

theorem readAll_eq (r : Reader σ α ε) (s : σ) : r.readAll s = match (r.final s).fault with
   | none => .ok (r.content s)
   | some e => .error e := by
 unfold readAll
 rw [r.copy_eq (fun _ => by omega)]
 cases (r.final s).fault <;> rfl

/-- Fill a buffer of `k` items, reading again as long as the reader goes on. -/
def fillFuel (r : Reader σ α ε) : Nat → Nat → σ → List α × Option (End ε)
 | 0, _, _ => ([], none)
 | fuel + 1, k, s =>
  if k = 0 then ([], none)
  else
   let a := r.read s k
   match a.stop with
   | some e => (a.data, if a.data.length = k then none else some e)
   | none =>
    let (rest, e) := fillFuel r fuel (k - a.data.length) a.next
    (a.data ++ rest, e)

/-- Fill a buffer: its data, and the end when the content is too short for it. -/
def fill (r : Reader σ α ε) (k : Nat) (s : σ) : List α × Option (End ε) :=
 r.fillFuel (r.weight s + 1) k s

theorem fillFuel_eq (r : Reader σ α ε) {fuel k : Nat} {s : σ} (enough : r.weight s < fuel) :
  r.fillFuel fuel k s =
   ((r.content s).take k, if k ≤ (r.content s).length then none else some (r.final s)) := by
 induction fuel generalizing k s with
 | zero => omega
 | succ fuel ih =>
  unfold fillFuel
  by_cases nothing : k = 0
  · simp [nothing]
  · rw [if_neg nothing]
    have short := r.short s k
    cases stop : (r.read s k).stop with
    | some e =>
     obtain ⟨all, ends⟩ := r.stops s k e (by omega) stop
     simp only [stop, all, ends, List.take_of_length_le short]
     by_cases full : (r.read s k).data.length = k
     · rw [if_pos full, if_pos (by omega)]
     · rw [if_neg full, if_neg (by omega)]
    | none =>
     obtain ⟨lighter, split, same⟩ := r.goesOn s k (by omega) stop
     have rest := @ih (k - (r.read s k).data.length) (r.read s k).next (by omega)
     simp only [stop, rest, split, same, List.take_append, List.length_append,
      List.take_of_length_le short]
     congr 2
     simp only [eq_iff_iff]
     omega

theorem fill_eq (r : Reader σ α ε) (k : Nat) (s : σ) : r.fill k s =
   ((r.content s).take k, if k ≤ (r.content s).length then none else some (r.final s)) :=
 r.fillFuel_eq (Nat.lt_succ_self _)

/-- Once a reader has ended it stays at that end. -/
def Sticky (r : Reader σ α ε) : Prop :=
 ∀ s k e, 0 < k → (r.read s k).stop = some e → r.content (r.read s k).next = [] ∧
  r.final (r.read s k).next = e

/-- `fillFuel` with the state it leaves. -/
def advanceFuel (r : Reader σ α ε) : Nat → Nat → σ → σ × List α × Option (End ε)
 | 0, _, s => (s, [], none)
 | fuel + 1, k, s =>
  if k = 0 then (s, [], none)
  else
   let a := r.read s k
   match a.stop with
   | some e => (a.next, a.data, if a.data.length = k then none else some e)
   | none =>
    let (t, rest, e) := advanceFuel r fuel (k - a.data.length) a.next
    (t, a.data ++ rest, e)

/-- Fill a buffer and go on from there. -/
def advance (r : Reader σ α ε) (k : Nat) (s : σ) : σ × List α × Option (End ε) :=
 r.advanceFuel (r.weight s + 1) k s

theorem advanceFuel_spec (r : Reader σ α ε) (sticky : r.Sticky) {fuel k : Nat} {s : σ}
  (enough : r.weight s < fuel) :
  ∃ t, r.advanceFuel fuel k s =
    (t, (r.content s).take k, if k ≤ (r.content s).length then none else some (r.final s)) ∧
   r.content t = (r.content s).drop k ∧ r.final t = r.final s := by
 induction fuel generalizing k s with
 | zero => omega
 | succ fuel ih =>
  unfold advanceFuel
  by_cases nothing : k = 0
  · exact ⟨s, by simp [nothing]⟩
  · rw [if_neg nothing]
    have short := r.short s k
    cases stop : (r.read s k).stop with
    | some e =>
     obtain ⟨all, ends⟩ := r.stops s k e (by omega) stop
     obtain ⟨empty, stays⟩ := sticky s k e (by omega) stop
     refine ⟨(r.read s k).next, ?_, ?_, stays.trans ends.symm⟩
     · simp only [stop, all, ends, List.take_of_length_le short]
       by_cases full : (r.read s k).data.length = k
       · rw [if_pos full, if_pos (by omega)]
       · rw [if_neg full, if_neg (by omega)]
     · rw [empty, all, List.drop_eq_nil_of_le short]
    | none =>
     obtain ⟨lighter, split, same⟩ := r.goesOn s k (by omega) stop
     obtain ⟨t, ran, left, stays⟩ := @ih (k - (r.read s k).data.length) (r.read s k).next (by omega)
     refine ⟨t, ?_, ?_, stays.trans same⟩
     · simp only [stop, ran, split, same, List.take_append, List.length_append,
        List.take_of_length_le short]
       congr 3
       simp only [eq_iff_iff]
       omega
     · rw [left, split, List.drop_append, List.drop_eq_nil_of_le short, List.nil_append]

theorem advance_spec (r : Reader σ α ε) (sticky : r.Sticky) (k : Nat) (s : σ) :
  ∃ t, r.advance k s =
  (t, (r.content s).take k, if k ≤ (r.content s).length then none else some (r.final s)) ∧
   r.content t = (r.content s).drop k ∧ r.final t = r.final s :=
 r.advanceFuel_spec sticky (Nat.lt_succ_self _)

end Reader

/-- Pieces in the order they become available, the end, and whether the end arrives together with
the last piece. -/
structure Script (α ε : Type) where
 pieces : List (List α)
 last : End ε
 together : Bool
 deriving DecidableEq

namespace Script

def read (s : Script α ε) (k : Nat) : Answer (Script α ε) α ε :=
 match s.pieces with
 | [] => ⟨s, [], some s.last⟩
 | p :: rest =>
  if k < p.length then ⟨{ s with pieces := p.drop k :: rest }, p.take k, none⟩
  else
   ⟨{ s with pieces := rest }, p, if s.together && rest.isEmpty then some s.last else none⟩

def content (s : Script α ε) : List α := s.pieces.flatten

/-- One read per piece and one per item are enough. -/
def weight (s : Script α ε) : Nat := s.pieces.length + s.content.length

theorem read_short (s : Script α ε) (k : Nat) : (s.read k).data.length ≤ k := by
 unfold read
 split
 · exact Nat.zero_le k
 · split
   · exact List.length_take_le k _
   · simp only
     omega

theorem read_goesOn (s : Script α ε) (k : Nat) (room : 0 < k) (on : (s.read k).stop = none) :
  (s.read k).next.weight < s.weight ∧
   s.content = (s.read k).data ++ (s.read k).next.content ∧ (s.read k).next.last = s.last := by
 unfold read at on ⊢
 cases pieces : s.pieces with
 | nil => simp [pieces] at on
 | cons p rest =>
  by_cases long : k < p.length
  · simp only [long, if_true, weight, content, pieces, List.flatten_cons, List.length_append,
     List.length_cons, List.length_drop]
    refine ⟨by omega, ?_, trivial⟩
    rw [← List.append_assoc, List.take_append_drop]
  · simp only [long, if_false, weight, content, pieces, List.flatten_cons, List.length_append,
     List.length_cons]
    exact ⟨by omega, trivial, trivial⟩

theorem read_stops (s : Script α ε) (k : Nat) (e : End ε) (ends : (s.read k).stop = some e) :
  s.content = (s.read k).data ∧ s.last = e := by
 unfold read at ends ⊢
 cases pieces : s.pieces with
 | nil =>
  simp only [pieces, Option.some.injEq] at ends
  exact ⟨by simp [content, pieces], ends⟩
 | cons p rest =>
  by_cases long : k < p.length
  · simp [pieces, long] at ends
  · by_cases whole : (s.together && rest.isEmpty) = true
    · simp only [pieces, long, whole, if_false, if_true, Option.some.injEq] at ends
      have alone : rest = [] := by
       simp only [Bool.and_eq_true, List.isEmpty_iff] at whole
       exact whole.2
      exact ⟨by simp [content, pieces, long, alone], ends⟩
    · simp [pieces, long, whole] at ends

/-- A script as a reader. -/
def reader : Reader (Script α ε) α ε where
 read := read
 weight := weight
 content := content
 final := last
 short := read_short
 goesOn := read_goesOn
 stops s k e _ := read_stops s k e

theorem reader_sticky : (reader : Reader (Script α ε) α ε).Sticky := by
 intro s k e _ ends
 change (s.read k).stop = some e at ends
 change (s.read k).next.content = [] ∧ (s.read k).next.last = e
 unfold read at ends ⊢
 cases pieces : s.pieces with
 | nil =>
  simp only [pieces, Option.some.injEq] at ends
  exact ⟨by simp [content, pieces], ends⟩
 | cons p rest =>
  by_cases long : k < p.length
  · simp [pieces, long] at ends
  · simp only [pieces, long, if_false] at ends ⊢
    split at ends
    · rename_i whole
      rw [Bool.and_eq_true, List.isEmpty_iff] at whole
      exact ⟨by simp [content, whole.2], Option.some.inj ends⟩
    · cases ends

/-- The script of data that lies in memory. -/
def ofList (data : List α) : Script α ε := ⟨[data], .eof, false⟩

@[simp] theorem content_ofList (data : List α) : (ofList data : Script α ε).content = data := by
 simp [ofList, content]

/-- Pass over the next `n` items; the end when there are fewer. -/
def skip (last : End ε) (together : Bool) : Nat → List (List α) → Except (End ε) (Script α ε)
 | 0, [] => .ok ⟨[], last, together⟩
 | _ + 1, [] => .error last
 | n, p :: rest =>
  if n < p.length then .ok ⟨p.drop n :: rest, last, together⟩
  else skip last together (n - p.length) rest

def discard (n : Nat) (s : Script α ε) : Except (End ε) (Script α ε) :=
 skip s.last s.together n s.pieces

theorem skip_content (last : End ε) (together : Bool) {n : Nat} {pieces : List (List α)}
  (within : n ≤ pieces.flatten.length) :
  ∃ t, skip last together n pieces = .ok t ∧ t.content = pieces.flatten.drop n := by
 induction pieces generalizing n with
 | nil =>
  obtain rfl : n = 0 := by simpa using within
  exact ⟨_, rfl, rfl⟩
 | cons p rest ih =>
  rw [List.flatten_cons, List.length_append] at within
  by_cases inside : n < p.length
  · refine ⟨⟨p.drop n :: rest, last, together⟩, by rw [skip, if_pos inside], ?_⟩
    rw [content, List.flatten_cons, List.flatten_cons,
     List.drop_append_of_le_length (Nat.le_of_lt inside)]
  · obtain ⟨t, skipped, held⟩ := @ih (n - p.length) (by omega)
    have past : p.drop n = [] := List.drop_eq_nil_of_le (by omega)
    refine ⟨t, by rw [skip, if_neg inside, skipped], ?_⟩
    rw [held, List.flatten_cons, List.drop_append, past, List.nil_append]

theorem discard_content {n : Nat} {s : Script α ε} (within : n ≤ s.content.length) :
  ∃ t, s.discard n = .ok t ∧ t.content = s.content.drop n :=
 skip_content s.last s.together within

end Script

end BackImage.Lib.Reading
