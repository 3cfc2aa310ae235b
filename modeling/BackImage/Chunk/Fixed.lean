/- source: pkg/chunk/split.go
  digest: Fixed splitting loses nothing, however the reader fragments the stream. -/

import BackImage.Chunk.Boundary
import BackImage.Lib.Reading

namespace BackImage.Chunk.Fixed

open Boundary Go.Sha256 Lib.Reading
open Go.Text (Bytes)

variable {σ ε : Type}

structure FixedSplitter (σ : Type) where
 source : σ
 size : Int64
 index : Nat
 done : Bool

def newFixed (source : σ) (size : Int64) : Option (FixedSplitter σ) :=
 if size < minChunkSize ∨ maxChunkSize < size then none else some ⟨source, size, 0, false⟩

/-- `Next`. The reader's `.eof` is any error for which `errors.Is(err, io.EOF)` holds, wrapped ones
included. -/
def next (r : Reader σ UInt8 ε) (s : FixedSplitter σ) :
  FixedSplitter σ × Except (End ε) PlainChunk :=
 if s.done then (s, .error .eof)
 else
  match r.advance s.size.toNatClampNeg s.source with
  | (source, _, some (.failed e)) => ({ s with source }, .error (.failed e))
  | (source, data, _) =>
   if data = [] then ({ s with source, done := true }, .error .eof)
   else
    ({ s with source, index := s.index + 1, done := (data.length : Int) < s.size.toInt },
     .ok ⟨s.index, Int64.ofNat data.length, sum256 data, data⟩)

/-- The answer to call `n` from here on. -/
def answer (r : Reader σ UInt8 ε) : Nat → FixedSplitter σ → Except (End ε) PlainChunk
 | 0, s => (next r s).2
 | n + 1, s => answer r n (next r s).1

/-- The pieces of a stream: full ones and, at a regular end, what is left. -/
structure Pieces (k : Nat) (content : Bytes) (ending : End ε) (ps : List Bytes) : Prop where
 bounded : ∀ p ∈ ps, p ≠ [] ∧ p.length ≤ k
 full : ∀ p ∈ ps.dropLast, p.length = k
 whole : ending = .eof → ps.flatten = content
 failed : ending ≠ .eof → ps.length = content.length / k ∧ (∀ p ∈ ps, p.length = k) ∧
  ps.flatten <+: content

theorem Pieces.cons {k : Nat} {content : Bytes} {ending : End ε} {ps : List Bytes}
  (positive : 0 < k) (full : k ≤ content.length) (pieces : Pieces k (content.drop k) ending ps) :
  Pieces k content ending (content.take k :: ps) := by
 have length : (content.take k).length = k := by
  rw [List.length_take]
  omega
 refine ⟨?_, ?_, ?_, ?_⟩
 · rw [List.forall_mem_cons]
   exact ⟨⟨List.ne_nil_of_length_pos (by omega), by omega⟩, pieces.bounded⟩
 · cases ps with
   | nil => simp
   | cons p rest =>
    rw [List.dropLast_cons_cons, List.forall_mem_cons]
    exact ⟨length, pieces.full⟩
 · intro regular
   rw [List.flatten_cons, pieces.whole regular, List.take_append_drop]
 · intro irregular
   obtain ⟨count, each, part⟩ := pieces.failed irregular
   refine ⟨?_, List.forall_mem_cons.mpr ⟨length, each⟩, ?_⟩
   · rw [List.length_cons, count, List.length_drop, Nat.div_eq_sub_div positive full]
   · rw [List.flatten_cons]
     nth_rewrite 2 [← List.take_append_drop k content]
     exact (List.prefix_append_right_inj _).mpr part

section Answers

variable {r : Reader σ UInt8 ε} {s : FixedSplitter σ} {e : ε}

theorem answer_done (done : s.done = true) (n : Nat) : answer r n s = .error .eof := by
 have stays : next r s = (s, .error .eof) := by rw [next, if_pos done]
 induction n with
 | zero => rw [answer, stays]
 | succ n ih => rw [answer, stays, ih]

variable {k : Nat} (sticky : r.Sticky) (live : s.done = false) (size : s.size.toInt = k)

include sticky live size

theorem next_full (full : k ≤ (r.content s.source).length) (positive : 0 < k) :
  ∃ source, r.content source = (r.content s.source).drop k ∧ r.final source = r.final s.source ∧
   next r s = (⟨source, s.size, s.index + 1, false⟩,
    .ok ⟨s.index, Int64.ofNat ((r.content s.source).take k).length,
    sum256 ((r.content s.source).take k), (r.content s.source).take k⟩) := by
 obtain ⟨source, ran, left, stays⟩ := r.advance_spec sticky k s.source
 refine ⟨source, left, stays, ?_⟩
 have some_data : (r.content s.source).take k ≠ [] := by
  rw [ne_eq, List.take_eq_nil_iff, not_or]
  exact ⟨by omega, List.ne_nil_of_length_pos (by omega)⟩
 have whole : ¬ (((r.content s.source).take k).length : Int) < s.size.toInt := by
  rw [List.length_take]
  omega
 rw [next, live, show s.size.toNatClampNeg = k from congrArg Int.toNat size, ran, if_pos full]
 simp only [Bool.false_eq_true, if_false, some_data, whole, decide_false]

theorem next_last (short : (r.content s.source).length < k) (regular : r.final s.source = .eof) :
  (next r s).1.done = true ∧ (next r s).2 = if r.content s.source = [] then .error .eof
   else .ok ⟨s.index, Int64.ofNat (r.content s.source).length, sum256 (r.content s.source),
    r.content s.source⟩ := by
 obtain ⟨source, ran, -, -⟩ := r.advance_spec sticky k s.source
 have less : ((r.content s.source).length : Int) < s.size.toInt := by omega
 rw [if_neg (Nat.not_le.mpr short), regular, List.take_of_length_le (Nat.le_of_lt short)] at ran
 rw [next, live, show s.size.toNatClampNeg = k from congrArg Int.toNat size, ran]
 by_cases empty : r.content s.source = []
 · simp [empty]
 · simp [empty, less]

theorem next_failed (short : (r.content s.source).length < k)
  (failed : r.final s.source = .failed e) :
  ∃ source, r.content source = [] ∧ r.final source = .failed e ∧
   next r s = ({ s with source }, .error (.failed e)) := by
 obtain ⟨source, ran, left, stays⟩ := r.advance_spec sticky k s.source
 refine ⟨source, ?_, stays.trans failed, ?_⟩
 · rw [left, List.drop_eq_nil_of_le (Nat.le_of_lt short)]
 · rw [if_neg (Nat.not_le.mpr short), failed] at ran
   rw [next, live, show s.size.toNatClampNeg = k from congrArg Int.toNat size, ran]
   rfl

theorem answer_failed (short : (r.content s.source).length < k)
  (failed : r.final s.source = .failed e) (n : Nat) :
  answer r n s = .error (.failed e) := by
 induction n generalizing s with
 | zero =>
  obtain ⟨source, -, -, ran⟩ := next_failed sticky live size short failed
  rw [answer, ran]
 | succ n ih =>
  obtain ⟨source, empty, stays, ran⟩ := next_failed sticky live size short failed
  rw [answer, ran]
  exact ih live size (by rw [empty]; exact Nat.lt_of_le_of_lt (Nat.zero_le _) short) stays

theorem answers_pieces (positive : 0 < k) : ∃ ps, Pieces k (r.content s.source)
  (r.final s.source) ps ∧
   ∀ n, answer r n s = match (number s.index ps)[n]? with
    | some c => .ok c
    | none => .error (r.final s.source) := by
 -- by induction on what is left to read
 induction left : (r.content s.source).length using Nat.strong_induction_on generalizing s with
 | h length ih =>
  by_cases full : k ≤ (r.content s.source).length
  · obtain ⟨source, rest, stays, ran⟩ := next_full sticky live size full positive
    have shorter : (r.content source).length < length := by
     rw [rest, List.length_drop]
     omega
    obtain ⟨ps, pieces, calls⟩ := @ih _ shorter ⟨source, s.size, s.index + 1, false⟩ rfl size rfl
    simp only [rest, stays] at pieces calls
    refine ⟨(r.content s.source).take k :: ps, pieces.cons positive full, ?_⟩
    intro n
    cases n with
    | zero =>
     rw [answer, ran]
     rfl
    | succ n =>
     rw [answer, ran, calls n]
     rfl
  · have short : (r.content s.source).length < k := Nat.not_le.mp full
    cases ending : r.final s.source with
    | failed e =>
     have none_full : (r.content s.source).length / k = 0 := Nat.div_eq_of_lt short
     refine ⟨[], ⟨by simp, by simp, by rintro ⟨⟩, fun _ => by simp [none_full]⟩, ?_⟩
     exact answer_failed sticky live size short ending
    | eof =>
     obtain ⟨done, result⟩ := next_last sticky live size short ending
     by_cases empty : r.content s.source = []
     · refine ⟨[], ⟨by simp, by simp, fun _ => empty.symm, fun irregular => absurd rfl irregular⟩,
        ?_⟩
       intro n
       cases n with
       | zero =>
        rw [answer, result, if_pos empty]
        rfl
       | succ n => exact answer_done done n
     · refine ⟨[r.content s.source], ⟨?_, by simp, by simp, fun irregular => absurd rfl irregular⟩,
        ?_⟩
       · simpa using ⟨empty, Nat.le_of_lt short⟩
       · intro n
         cases n with
         | zero =>
          rw [answer, result, if_neg empty]
          rfl
         | succ n => exact answer_done done n

end Answers

/-- Fixed splitting is lossless: the calls of `Next` return the pieces of the stream, numbered and
with their digests, and from then on the end of the stream. -/
theorem fixedSplitter_lossless (r : Reader σ UInt8 ε) (sticky : r.Sticky) {source : σ}
  {size : Int64} {s : FixedSplitter σ} (made : newFixed source size = some s) :
  ∃ ps, Pieces size.toNatClampNeg (r.content source) (r.final source) ps ∧
   ∀ n, answer r n s = match (number 0 ps)[n]? with
    | some c => .ok c
    | none => .error (r.final source) := by
 unfold newFixed at made
 split at made
 · cases made
 · rename_i within
   cases made
   have low : (1048576 : Int) ≤ size.toInt :=
    Int64.le_iff_toInt_le.mp (Int64.not_lt.mp (not_or.mp within).1)
   have is : size.toInt = size.toNatClampNeg := (Int.toNat_of_nonneg (by omega)).symm
   have positive : 0 < size.toNatClampNeg := by omega
   exact @answers_pieces σ ε r ⟨source, size, 0, false⟩ _ sticky rfl is positive

theorem one_byte_stream_split : ∃ ps : List Bytes, ps.flatten = [7] ∧
   ∀ n, answer Script.reader n ⟨⟨[[], [7]], .eof, true⟩, minChunkSize, 0, false⟩ =
    match (number 0 ps)[n]? with
    | some c => .ok c
    | none => .error (.eof : End Bytes) := by
 obtain ⟨ps, pieces, calls⟩ := fixedSplitter_lossless Script.reader Script.reader_sticky
  (show newFixed ⟨[[], [7]], .eof, true⟩ minChunkSize =
   some ⟨⟨[[], [7]], (.eof : End Bytes), true⟩, minChunkSize, 0, false⟩
   from rfl)
 exact ⟨ps, pieces.whole rfl, calls⟩

end BackImage.Chunk.Fixed
