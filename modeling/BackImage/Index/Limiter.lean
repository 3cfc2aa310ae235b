/- source: pkg/index/limits.go
  digest: The size limiter is itself a reader, of a prefix of what it limits. -/

import BackImage.Go.Text
import BackImage.Lib.Reading

namespace BackImage.Index.Limiter

open Lib.Reading
open Go.Text (Str)

inductive LimitError (ε : Type) where
 | source (cause : ε)
 | exceeded (what : Str) (max : Int64)
 deriving DecidableEq

structure Limited (σ : Type) where
 inner : σ
 n : Nat

variable {σ ε : Type}

/-- `metadataLimiter.Read`. The probe past the bound answers plain `io.EOF` to an error that wraps
it (`isEOF`). -/
def limitedRead (isEOF : ε → Bool) (r : Reader σ UInt8 ε) (max : Int64) (what : Str) (l : Limited σ)
  (k : Nat) :
  Answer (Limited σ) UInt8 (LimitError ε) :=
 if max.toNatClampNeg ≤ l.n then
  match r.fill 1 l.inner with
  | (_, none) => ⟨l, [], some (.failed (.exceeded what max))⟩
  | (_, some .eof) => ⟨l, [], some .eof⟩
  | (_, some (.failed e)) => ⟨l, [], some (if isEOF e then .eof else .failed (.source e))⟩
 else
  let a := r.read l.inner (min k (max.toNatClampNeg - l.n))
  ⟨⟨a.next, l.n + a.data.length⟩, a.data, a.stop.map (End.map .source)⟩

def limitedEnd (r : Reader σ UInt8 ε) (max : Int64) (what : Str) (l : Limited σ) :
  End (LimitError ε) :=
 if (r.content l.inner).length ≤ max.toNatClampNeg - l.n then (r.final l.inner).map .source
 else .failed (.exceeded what max)

section Laws

variable (r : Reader σ UInt8 ε) (max : Int64) (what : Str)

theorem limitedRead_past {l : Limited σ} (past : max.toNatClampNeg ≤ l.n) (k : Nat) :
  limitedRead (fun _ => false) r max what l k = ⟨l, [], some (limitedEnd r max what l)⟩ := by
 have none_left : max.toNatClampNeg - l.n = 0 := by omega
 rw [limitedRead, if_pos past, limitedEnd, none_left, r.fill_eq]
 by_cases empty : (r.content l.inner).length ≤ 0
 · rw [if_neg (show ¬ 1 ≤ (r.content l.inner).length by omega), if_pos empty]
   cases r.final l.inner <;> rfl
 · rw [if_pos (show 1 ≤ (r.content l.inner).length by omega), if_neg empty]

theorem limitedRead_within (isEOF : ε → Bool) {l : Limited σ} (within : ¬ max.toNatClampNeg ≤ l.n)
  (k : Nat) :
  limitedRead isEOF r max what l k =
   ⟨⟨(r.read l.inner (min k (max.toNatClampNeg - l.n))).next,
    l.n + (r.read l.inner (min k (max.toNatClampNeg - l.n))).data.length⟩,
    (r.read l.inner (min k (max.toNatClampNeg - l.n))).data,
    (r.read l.inner (min k (max.toNatClampNeg - l.n))).stop.map (End.map .source)⟩ := by
 rw [limitedRead, if_neg within]

/-- The limiter as a reader of the first bytes, where errors that wrap `io.EOF` count as ends. -/
def metadataLimiter : Reader (Limited σ) UInt8 (LimitError ε) where
 read := limitedRead (fun _ => false) r max what
 weight l := r.weight l.inner
 content l := (r.content l.inner).take (max.toNatClampNeg - l.n)
 final := limitedEnd r max what
 short l k := by
  by_cases past : max.toNatClampNeg ≤ l.n
  · rw [limitedRead_past r max what past]
    exact Nat.zero_le k
  · rw [limitedRead_within r max what _ past]
    have short := r.short l.inner (min k (max.toNatClampNeg - l.n))
    simp only
    omega
 goesOn l k room on := by
  by_cases past : max.toNatClampNeg ≤ l.n
  · rw [limitedRead_past r max what past] at on
    cases on
  · rw [limitedRead_within r max what _ past] at on ⊢
    have short := r.short l.inner (min k (max.toNatClampNeg - l.n))
    obtain ⟨lighter, split, same⟩ := r.goesOn l.inner (min k (max.toNatClampNeg - l.n))
     (by omega) (Option.map_eq_none_iff.mp on)
    refine ⟨lighter, ?_, ?_⟩
    · rw [split, List.take_append, List.take_of_length_le (by omega), Nat.sub_sub]
    · rw [limitedEnd, limitedEnd, split, same, List.length_append]
      congr 1
      simp only [eq_iff_iff]
      omega
 stops l k e room ends := by
  by_cases past : max.toNatClampNeg ≤ l.n
  · have none_left : max.toNatClampNeg - l.n = 0 := by omega
    rw [limitedRead_past r max what past] at ends ⊢
    rw [none_left]
    exact ⟨rfl, Option.some.inj ends⟩
  · rw [limitedRead_within r max what _ past] at ends ⊢
    have short := r.short l.inner (min k (max.toNatClampNeg - l.n))
    obtain ⟨e', stop, rfl⟩ := Option.map_eq_some_iff.mp ends
    obtain ⟨all, final⟩ := r.stops l.inner (min k (max.toNatClampNeg - l.n)) e' (by omega) stop
    refine ⟨?_, ?_⟩
    · rw [all, List.take_of_length_le (by omega)]
    · rw [limitedEnd, if_pos (by rw [all]; omega), final]

def unlimited : Reader (Limited σ) UInt8 (LimitError ε) where
 read l k :=
  let a := r.read l.inner k
  ⟨⟨a.next, l.n⟩, a.data, a.stop.map (End.map .source)⟩
 weight l := r.weight l.inner
 content l := r.content l.inner
 final l := (r.final l.inner).map .source
 short l k := r.short l.inner k
 goesOn l k room on := by
  obtain ⟨lighter, split, same⟩ := r.goesOn l.inner k room (Option.map_eq_none_iff.mp on)
  exact ⟨lighter, split, by rw [same]⟩
 stops l k e room ends := by
  obtain ⟨e', stop, rfl⟩ := Option.map_eq_some_iff.mp ends
  obtain ⟨all, final⟩ := r.stops l.inner k e' room stop
  exact ⟨all, by rw [final]⟩

def limitBytes : Reader (Limited σ) UInt8 (LimitError ε) :=
 if max ≤ 0 then unlimited r else metadataLimiter r max what

def defaultMaxMetadataBytes : Int64 := 536870912

def limitMetadata : Reader (Limited σ) UInt8 (LimitError ε) :=
 limitBytes r (if max ≤ 0 ∨ defaultMaxMetadataBytes < max then defaultMaxMetadataBytes else max)
  what

theorem limitBytes_content (s : σ) : (limitBytes r max what).content ⟨s, 0⟩ =
   if max ≤ 0 then r.content s else (r.content s).take max.toNatClampNeg := by
 unfold limitBytes
 by_cases unbounded : max ≤ 0
 · rw [if_pos unbounded, if_pos unbounded]
   rfl
 · rw [if_neg unbounded, if_neg unbounded]
   rfl

theorem limitBytes_whole {s : σ} (fine : ((limitBytes r max what).final ⟨s, 0⟩).fault = none) :
  (limitBytes r max what).content ⟨s, 0⟩ = r.content s ∧ (r.final s).fault = none := by
 have source : ∀ e : End ε, (e.map (@LimitError.source ε)).fault = none → e.fault = none := by
  intro e quiet
  cases e with
  | eof => rfl
  | failed cause => cases quiet
 unfold limitBytes at fine ⊢
 by_cases unbounded : max ≤ 0
 · rw [if_pos unbounded] at fine ⊢
   exact ⟨rfl, source _ fine⟩
 · rw [if_neg unbounded] at fine ⊢
   by_cases whole : (r.content s).length ≤ max.toNatClampNeg - 0
   · refine ⟨List.take_of_length_le whole, source _ ?_⟩
     have ends : (metadataLimiter r max what).final ⟨s, 0⟩ = (r.final s).map .source :=
      if_pos whole
     rwa [ends] at fine
   · have ends : (metadataLimiter r max what).final ⟨s, 0⟩ = .failed (.exceeded what max) :=
      if_neg whole
     rw [ends] at fine
     cases fine

theorem limitBytes_final {s : σ} (within : (r.content s).length ≤ max.toNatClampNeg) :
  (limitBytes r max what).final ⟨s, 0⟩ = (r.final s).map .source := by
 unfold limitBytes
 by_cases unbounded : max ≤ 0
 · rw [if_pos unbounded]
   rfl
 · rw [if_neg unbounded]
   exact if_pos within

/-- `LimitBytes` on any reader. -/
def limitBytesRead (isEOF : ε → Bool) : Limited σ → Nat → Answer (Limited σ) UInt8 (LimitError ε) :=
 if max ≤ 0 then (unlimited r).read else limitedRead isEOF r max what

variable {isEOF : ε → Bool} {bufs : Nat → Nat}

/-- Whether the probe recognises wrapped ends changes at most the end, and that only at the
bound. -/
theorem drain_limitedRead (fuel i : Nat) (l : Limited σ) :
  let out := drain (limitedRead isEOF r max what) bufs fuel i l
  let strict := drain (metadataLimiter r max what).read bufs fuel i l
  out.1 = strict.1 ∧ (out.2 = strict.2 ∨ ∃ cause, isEOF cause = true ∧ out.2 = some .eof ∧
   strict.2 = some (.failed (.source cause)) ∧ max.toNatClampNeg ≤ l.n + strict.1.length) := by
 induction fuel generalizing i l with
 | zero => exact ⟨rfl, .inl rfl⟩
 | succ fuel ih =>
  dsimp only [metadataLimiter] at ih ⊢
  rw [drain, drain]
  by_cases past : max.toNatClampNeg ≤ l.n
  · simp only [limitedRead, if_pos past]
    rcases r.fill 1 l.inner with ⟨-, - | - | cause⟩
    · exact ⟨rfl, .inl rfl⟩
    · exact ⟨rfl, .inl rfl⟩
    · cases wraps : isEOF cause with
      | false => simp [wraps]
      | true => simpa [wraps] using past
  · rw [limitedRead_within r max what _ past, limitedRead_within r max what _ past]
    dsimp only
    cases stop : (r.read l.inner (min (bufs i) (max.toNatClampNeg - l.n))).stop with
    | some e => exact ⟨rfl, .inl rfl⟩
    | none =>
     obtain ⟨data, ends⟩ :=
      ih (i + 1) ⟨(r.read l.inner (min (bufs i) (max.toNatClampNeg - l.n))).next,
      l.n + (r.read l.inner (min (bufs i) (max.toNatClampNeg - l.n))).data.length⟩
     refine ⟨by simp [data], ends.imp id ?_⟩
     rintro ⟨cause, wraps, eof, strict, reached⟩
     refine ⟨cause, wraps, eof, strict, ?_⟩
     simpa [Nat.add_assoc] using reached

/-- Read with any buffers, a limiter hands out no byte past its bound at any time, and enough reads
reach the first `max` bytes and then the end of the content or, where there is more, the refusal.
At the bound itself an error that wraps `io.EOF` may come out as `io.EOF`. -/
theorem limitBytes_exact (r : Reader σ UInt8 ε) (positive : 0 < max) (room : ∀ i, 0 < bufs i)
  (s : σ) (fuel : Nat) :
  let out := drain (limitBytesRead r max what isEOF) bufs fuel 0 ⟨s, 0⟩
  out.1 <+: (r.content s).take max.toNatClampNeg ∧
   (r.weight s < fuel → out.1 = (r.content s).take max.toNatClampNeg ∧
    if (r.content s).length ≤ max.toNatClampNeg then
     out.2 = some ((r.final s).map .source) ∨
      (r.content s).length = max.toNatClampNeg ∧ out.2 = some .eof ∧
       ∃ cause, r.final s = .failed cause ∧ isEOF cause = true
    else out.2 = some (.failed (.exceeded what max))) := by
 rw [limitBytesRead, if_neg (Int64.not_le.mpr positive)]
 have both := @drain_limitedRead _ _ r max what isEOF bufs fuel 0 ⟨s, 0⟩
 obtain ⟨data, ends⟩ := both
 dsimp only at data ends ⊢
 rw [data]
 refine ⟨(metadataLimiter r max what).drain_within room fuel 0 ⟨s, 0⟩, fun enough => ?_⟩
 rw [(metadataLimiter r max what).drain_eq room enough] at ends ⊢
 refine ⟨rfl, ?_⟩
 have final : (metadataLimiter r max what).final ⟨s, 0⟩ = if (r.content s).length ≤
  max.toNatClampNeg then
   (r.final s).map .source else .failed (.exceeded what max) := rfl
 dsimp only at ends
 rw [final] at ends
 split
 · rename_i whole
   rw [if_pos whole] at ends
   refine ends.imp id ?_
   rintro ⟨cause, wraps, eof, strict, reached⟩
   rw [Nat.zero_add] at reached
   have reached : max.toNatClampNeg ≤ ((r.content s).take max.toNatClampNeg).length := reached
   rw [List.length_take] at reached
   refine ⟨by omega, eof, cause, ?_, wraps⟩
   cases last : r.final s with
   | eof => simp [last, End.map] at strict
   | failed other => simpa [last, End.map] using strict
 · rename_i more
   rw [if_neg more] at ends
   rcases ends with same | ⟨cause, -, -, strict, -⟩
   · exact same
   · cases strict

end Laws

/-- A decoder that ends a file too early wraps the end it met. -/
def wrapsEOF (cause : Str) : Bool := cause = Go.Text.lit "unexpected end: EOF"

theorem limitBytes_refuses_third :
  drain (limitBytesRead Script.reader 2 (Go.Text.lit "x") wrapsEOF)
  (fun _ => 1) 6 0 ⟨⟨[[1, 2], [3]], .eof, true⟩, 0⟩ =
   ([1, 2], some (.failed (.exceeded (Go.Text.lit "x") 2))) := by
 obtain ⟨-, enough⟩ := @limitBytes_exact _ _ 2 (Go.Text.lit "x") wrapsEOF _ Script.reader
  (by decide) (fun _ => Nat.one_pos) ⟨[[1, 2], [3]], .eof, true⟩ 6
 exact Prod.ext (enough (by decide)).1 (enough (by decide)).2

/-- Two bytes and an error that wraps `io.EOF`, read under a bound of two bytes: the error is
lost. -/
theorem wrapped_end_lost :
  drain (limitBytesRead Script.reader 2 (Go.Text.lit "x") wrapsEOF) (fun _ => 1) 6 0
    ⟨⟨[[1, 2]], .failed (Go.Text.lit "unexpected end: EOF"), false⟩, 0⟩ = ([1, 2], some .eof) ∧
   (Script.reader.final ⟨[[1, 2]], .failed (Go.Text.lit "unexpected end: EOF"), false⟩ : End Str) ≠
   .eof := by
 exact ⟨by decide +kernel, by simp [Script.reader]⟩

end BackImage.Index.Limiter
