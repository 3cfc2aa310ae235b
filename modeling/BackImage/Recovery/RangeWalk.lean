/- source: pkg/recovery/partial.go, pkg/recovery/recovery.go
  digest: What a walk over a range hands on, for any chunking and any set of damaged chunks. -/

import BackImage.Recovery.SelectedTar

namespace BackImage.Recovery.RangeWalk

open Go.Text Index.Model Lib.Search Lib.Wrap SelectedTar StreamTar Unlock
open Lib.Cut (start start_succ start_mono slice slice_append slice_self slice_flatten)
open ChunkLayout (computeLayout layoutPrefix)

/-- The table records the sizes of these plaintexts, and their total fits an `int64`. -/
structure Laid (b : Backup) (plains : List Bytes) : Prop where
 layout : b.layout = computeLayout b.table
 sizes : (b.table.chunks.map fun c => c.pb.toInt) = plains.map fun p => (p.length : Int)
 small : (plains.flatten.length : Int) < bound

variable {j : Nat} {b : Backup} {plains : List Bytes} {ok : Nat → Bool} {load : Load}
 {good : Loader → Prop} {marked : Nat → Loader → Prop} {s : Loader}

theorem layoutPrefix_getD {sum : Int64} {rows : List Chunk} (inside : j ≤ rows.length) :
  (layoutPrefix sum rows).getD j 0 = wrapSum sum ((rows.take j).map Chunk.pb) := by
 induction rows generalizing sum j with
 | nil =>
  have first : j = 0 := by simpa using inside
  subst first
  rfl
 | cons c rows ih =>
  cases j with
  | zero => rfl
  | succ j => exact ih (by simpa using inside)

namespace Laid

theorem length_eq (laid : Laid b plains) : b.table.chunks.length = plains.length := by
 have lengths := congrArg List.length laid.sizes
 simpa using lengths

theorem exactSum_take (laid : Laid b plains) (j : Nat) :
  exactSum ((b.table.chunks.take j).map Chunk.pb) = start plains j := by
 have sizes : ((b.table.chunks.take j).map Chunk.pb).map Int64.toInt =
   (plains.take j).map fun p => (p.length : Int) := by
  rw [List.map_map, List.map_take, List.map_take]
  exact congrArg (List.take j) laid.sizes
 have cast : ∀ l : List Bytes,
   (l.map fun p => (p.length : Int)).sum = ((l.map List.length).sum : Nat) := by
  intro l
  induction l with
  | nil => rfl
  | cons p l ih => simp [ih]
 rw [exactSum, sizes, start, cast]

theorem start_le (laid : Laid b plains) (inside : j ≤ plains.length) :
  (start plains j : Int) < bound := by
 have mono := start_mono plains inside
 have all : start plains plains.length = plains.flatten.length := by
  rw [start, List.take_length, List.length_flatten]
 have small := laid.small
 omega

theorem prefix_toInt (laid : Laid b plains) (inside : j ≤ plains.length) :
  (b.layout.prefixSum.getD j 0).toInt = start plains j := by
 have room := laid.length_eq
 have nonneg : ∀ x ∈ (b.table.chunks.take j).map Chunk.pb, 0 ≤ x.toInt := by
  intro x member
  obtain ⟨c, inTake, rfl⟩ := List.mem_map.mp member
  have listed : c.pb.toInt ∈ b.table.chunks.map fun c => c.pb.toInt :=
   List.mem_map.mpr ⟨c, List.mem_of_mem_take inTake, rfl⟩
  rw [laid.sizes] at listed
  obtain ⟨p, -, size⟩ := List.mem_map.mp listed
  omega
 have sums := laid.exactSum_take j
 have small := laid.start_le inside
 have zero := Int64.toInt_zero
 rw [laid.layout, computeLayout, layoutPrefix_getD (by omega),
  wrapSum_toInt (by rw [zero]) nonneg (by rw [zero, sums]; omega), zero, sums]
 omega

end Laid

/-- Chunk `i` holds a byte of the range. -/
def Touches (plains : List Bytes) (o e i : Nat) : Prop :=
 ∃ p, o ≤ p ∧ p < e ∧ start plains i ≤ p ∧ p < start plains (i + 1)

theorem chunk_unique {p i : Nat} (low : start plains i ≤ p)
  (high : p < start plains (i + 1)) (low' : start plains j ≤ p) (high' : p < start plains (j + 1)) :
  i = j := by
 rcases Nat.lt_trichotomy i j with less | same | more
 · have mono := start_mono plains (show i + 1 ≤ j by omega)
   omega
 · exact same
 · have mono := start_mono plains (show j + 1 ≤ i by omega)
   omega

/-- How a loader answers for the chunks in question: with the plaintext of those that are `ok`, and
with an error for the others. -/
def Answers (plains : List Bytes) (load : Load) (good : Loader → Prop) (ok : Nat → Bool)
  (needed : Nat → Prop) : Prop :=
 ∀ i p s, needed i → plains[i]? = some p → good s →
  ∃ s' r, load s i = (s', r) ∧ good s' ∧
   (ok i = true ∧ r = .ok p ∨ ok i = false ∧ ∃ e, r = .error e)

variable {needed fewer : Nat → Prop}

theorem Answers.mono (answers : Answers plains load good ok needed)
  (sub : ∀ i, fewer i → needed i) : Answers plains load good ok fewer :=
 fun i p s needs => answers i p s (sub i needs)

/-- The same of a loader that marks the chunks it fails for, and forgets no mark. -/
def Marks (plains : List Bytes) (load : Load) (good : Loader → Prop) (ok : Nat → Bool)
  (marked : Nat → Loader → Prop) (needed : Nat → Prop) : Prop :=
 ∀ i p s, needed i → plains[i]? = some p → good s →
  ∃ s' r, load s i = (s', r) ∧ good s' ∧ (∀ j, marked j s → marked j s') ∧
   (ok i = true ∧ r = .ok p ∨ ok i = false ∧ marked i s' ∧ ∃ e, r = .error e)

theorem Marks.mono (marks : Marks plains load good ok marked needed)
  (sub : ∀ i, fewer i → needed i) :
  Marks plains load good ok marked fewer :=
 fun i p s needs => marks i p s (sub i needs)

theorem Answers.marks {plains : List Bytes} {load : Load} {good : Loader → Prop} {ok : Nat → Bool}
  {needed : Nat → Prop} (answers : Answers plains load good ok needed) :
  Marks plains load good ok (fun _ _ => True) needed := by
 intro i p s needs at_i fine
 obtain ⟨s', r, loaded, fine', verdict⟩ := answers i p s needs at_i fine
 refine ⟨s', r, loaded, fine', fun _ => id, verdict.imp_right ?_⟩
 rintro ⟨bad, failed⟩
 exact ⟨bad, trivial, failed⟩

section

variable (plains ok)

/-- A walk ends well exactly when every chunk of the range does; until then it hands on the front of
the range. -/
def Walked (o e : Nat) (out : Bytes) (outcome : Except WalkError Unit) : Prop :=
 (∀ i, Touches plains o e i → ok i = true) ∧ outcome = .ok () ∧ out = slice plains.flatten o e ∨
  (∃ i, Touches plains o e i ∧ ok i = false) ∧ (∃ err, outcome = .error err) ∧
   out <+: slice plains.flatten o e

def FirstBad (o e i : Nat) : Prop :=
 Touches plains o e i ∧ ok i = false ∧ ∀ j, Touches plains o e j → j < i → ok j = true

/-- A walk that fails has marked the first chunk of the range that does not load. -/
def Halted (marked : Nat → Loader → Prop) (o e : Nat)
  (out : Bytes) (s : Loader) (outcome : Except WalkError Unit) : Prop :=
 (∀ i, Touches plains o e i → ok i = true) ∧ outcome = .ok () ∧ out = slice plains.flatten o e ∨
  (∃ i, FirstBad plains ok o e i ∧ marked i s) ∧ (∃ err, outcome = .error err) ∧
   out <+: slice plains.flatten o e

end

theorem Halted.walked {o e : Nat} {out : Bytes} {s : Loader} {outcome : Except WalkError Unit}
  (halted : Halted plains ok marked o e out s outcome) : Walked plains ok o e out outcome := by
 refine halted.imp_right ?_
 rintro ⟨⟨i, first, -⟩, failed⟩
 exact ⟨⟨i, first.1, first.2.1⟩, failed⟩

section Walk

variable {off : Int64} {o i : Nat}

theorem chunkAt_spec (laid : Laid b plains) (offIs : off.toInt = o)
  (inside : o < plains.flatten.length)
  (found : chunkAt b.layout.prefixSum b.table.chunks.length off = i) :
  ∃ g, plains[i]? = some g ∧ start plains i ≤ o ∧ o < start plains (i + 1) := by
 have room := laid.length_eq
 have all : start plains plains.length = plains.flatten.length := by
  rw [start, List.take_length, List.length_flatten]
 have some_chunk : 0 < plains.length := by
  by_contra none_left
  have empty : plains = [] := List.length_eq_zero_iff.mp (by omega)
  rw [empty] at inside
  simp at inside
 have less : ∀ j, j ≤ plains.length →
   (off < b.layout.prefixSum.getD j 0 ↔ o < start plains j) := by
  intro j bounded
  rw [Int64.lt_iff_toInt_lt, laid.prefix_toInt bounded, offIs]
  omega
 have last : decide (off < b.layout.prefixSum.getD (b.table.chunks.length - 1 + 1) 0) = true := by
  rw [decide_eq_true_eq, less _ (by omega),
   show b.table.chunks.length - 1 + 1 = plains.length by omega]
  omega
 have before := search_lt (f := fun i => off < b.layout.prefixSum.getD (i + 1) 0)
  (show 0 < b.table.chunks.length by omega) last
 obtain ⟨-, holds, below⟩ := search_spec b.table.chunks.length
  fun i => off < b.layout.prefixSum.getD (i + 1) 0
 unfold chunkAt at found
 rw [found] at before holds below
 have bounded : i < plains.length := by omega
 refine ⟨plains[i], List.getElem?_eq_getElem bounded, ?_, ?_⟩
 · rcases below with first | fails
   · rw [first]
     simp
   · by_cases first : i = 0
     · rw [first]
       simp
     · have fails' := of_decide_eq_false fails
       rw [show i - 1 + 1 = i by omega, less _ (by omega)] at fails'
       omega
 · rcases holds with ends | holds
   · omega
   · exact (less _ (by omega)).mp (of_decide_eq_true holds)

variable {m : Nat}

theorem sliceOf_eq {data : Bytes} {within n : Int64} {w : Nat} (withinIs : within.toInt = w)
  (nIs : n.toInt = m) (fits : w + m ≤ data.length) (small : (data.length : Int) < bound) :
  sliceOf data within n = some ((data.drop w).take m) := by
 have low : (0 : Int64) ≤ within := by
  rw [Int64.le_iff_toInt_le, withinIs]
  exact Int.natCast_nonneg w
 have sum : (within + n).toInt = w + m := by
  rw [toInt_add_of_fits, withinIs, nIs]
  rw [withinIs, nIs]
  constructor <;> unfold bound at * <;> omega
 have high : within + n ≤ Int64.ofNat data.length := by
  rw [Int64.le_iff_toInt_le, sum, toInt_ofNat_of_lt small]
  omega
 have start : within.toNatClampNeg = w := by
  rw [← Int64.toNat_toInt, withinIs]
  rfl
 have count : n.toNatClampNeg = m := by
  rw [← Int64.toNat_toInt, nIs]
  rfl
 rw [sliceOf, if_pos ⟨low, high⟩, start, count]

theorem clip_toInt (n remaining : Int64) :
  (clip n remaining).toInt = min n.toInt remaining.toInt := by
 rw [min_comm]
 exact toInt_min remaining n

theorem halted_empty (ok : Nat → Bool) (marked : Nat → Loader → Prop) (o : Nat) (s : Loader) :
  Halted plains ok marked o o [] s (.ok ()) := by
 refine .inl ⟨?_, rfl, by rw [slice_self]⟩
 rintro i ⟨p, low, high, -⟩
 omega

variable {e : Nat}

theorem halted_step {more : Bytes} {outcome : Except WalkError Unit} (low : start plains i ≤ o)
  (positive : 0 < m)
  (inChunk : o + m ≤ start plains (i + 1)) (inRange : o + m ≤ e) (loaded : ok i = true)
  (later : Halted plains ok marked (o + m) e more s outcome) :
  Halted plains ok marked o e (slice plains.flatten o (o + m) ++ more) s outcome := by
 have split : slice plains.flatten o e =
   slice plains.flatten o (o + m) ++ slice plains.flatten (o + m) e :=
  (slice_append _ (by omega) inRange).symm
 have cases_of : ∀ j, Touches plains o e j → j = i ∨ Touches plains (o + m) e j := by
  rintro j ⟨p, after, before, lowJ, highJ⟩
  by_cases first : p < o + m
  · exact .inl (chunk_unique lowJ highJ (by omega) (by omega))
  · exact .inr ⟨p, by omega, before, lowJ, highJ⟩
 rcases later with ⟨all, rfl, rfl⟩ | ⟨⟨j, ⟨touches, bad, earlier⟩, mark⟩, failed, front⟩
 · refine .inl ⟨?_, rfl, split.symm⟩
   intro j touches
   rcases cases_of j touches with rfl | later
   · exact loaded
   · exact all j later
 · refine .inr ⟨⟨j, ⟨?_, bad, ?_⟩, mark⟩, failed, ?_⟩
   · obtain ⟨p, after, rest⟩ := touches
     exact ⟨p, by omega, rest⟩
   · intro k touchesK less
     rcases cases_of k touchesK with rfl | later
     · exact loaded
     · exact earlier k later less
   · rw [split]
     exact (List.prefix_append_right_inj _).mpr front

variable {stop : Int64}

theorem clip_spec (laid : Laid b plains) {g : Bytes} (offIs : off.toInt = o)
  (stopIs : stop.toInt = e) (room : o < e)
  (at_i : plains[i]? = some g) (low : start plains i ≤ o) (high : o < start plains (i + 1)) :
  (off - b.layout.prefixSum.getD i 0).toInt = (o - start plains i : Nat) ∧
   ∃ m : Nat,
    (clip (Int64.ofNat g.length - (off - b.layout.prefixSum.getD i 0)) (stop - off)).toInt = m ∧
    (off + clip (Int64.ofNat g.length - (off - b.layout.prefixSum.getD i 0)) (stop - off)).toInt =
     (o + m : Nat) ∧
    0 < m ∧ o + m ≤ e ∧ o - start plains i + m ≤ g.length := by
 have bounded : i < plains.length := (List.getElem?_eq_some_iff.mp at_i).1
 have total := laid.start_le (show i + 1 ≤ plains.length from bounded)
 have next := start_succ at_i
 have top := (toInt_fits stop).2
 rw [stopIs] at top
 have size : ((Int64.ofNat g.length).toInt) = g.length := toInt_ofNat_of_lt (by omega)
 have within : (off - b.layout.prefixSum.getD i 0).toInt = (o - start plains i : Nat) := by
  have here := laid.prefix_toInt (show i ≤ plains.length by omega)
  rw [toInt_sub_of_fits, offIs, here]
  · omega
  · rw [offIs, here]
    constructor <;> unfold bound at * <;> omega
 have remaining : (stop - off).toInt = (e - o : Nat) := by
  rw [toInt_sub_of_fits, offIs, stopIs]
  · omega
  · rw [offIs, stopIs]
    constructor <;> unfold bound at * <;> omega
 have rest : (Int64.ofNat g.length - (off - b.layout.prefixSum.getD i 0)).toInt =
   (g.length - (o - start plains i) : Nat) := by
  rw [toInt_sub_of_fits, size, within]
  · omega
  · rw [size, within]
    constructor <;> unfold bound at * <;> omega
 have clipped :
  (clip (Int64.ofNat g.length - (off - b.layout.prefixSum.getD i 0)) (stop - off)).toInt =
   (min (g.length - (o - start plains i)) (e - o) : Nat) := by
  rw [clip_toInt, rest, remaining]
  omega
 refine ⟨within, min (g.length - (o - start plains i)) (e - o), clipped,
  ?_, by omega, by omega, by omega⟩
 rw [toInt_add_of_fits, offIs, clipped]
 · push_cast
   rfl
 · rw [offIs, clipped]
   constructor <;> unfold bound at * <;> omega

section

variable (laid : Laid b plains) (marks : Marks plains load good ok marked (Touches plains o e))
 (fine : good s) (offIs : off.toInt = o) (stopIs : stop.toInt = e) (ordered : o ≤ e)
 (inside : e ≤ plains.flatten.length)

include laid marks fine offIs stopIs ordered inside

theorem walk_spec {fuel : Nat} (enough : e - o ≤ fuel) :
  ∃ out s' outcome, walk b.layout.prefixSum b.table.chunks.length load stop fuel off s =
   (out, s', outcome) ∧ good s' ∧ (∀ j, marked j s → marked j s') ∧
    Halted plains ok marked o e out s' outcome := by
 induction fuel generalizing off o s with
 | zero =>
  have same : o = e := by omega
  subst same
  exact ⟨[], s, .ok (), rfl, fine, fun _ => id, halted_empty ok marked o s⟩
 | succ fuel ih =>
  rw [walk]
  by_cases more : off < stop
  · have room : o < e := by
     rw [Int64.lt_iff_toInt_lt, offIs, stopIs] at more
     omega
    rw [if_pos more]
    have found := chunkAt_spec laid offIs (show o < plains.flatten.length by omega)
     (rfl : chunkAt b.layout.prefixSum b.table.chunks.length off = _)
    generalize chunkAt b.layout.prefixSum b.table.chunks.length off = i at found ⊢
    obtain ⟨g, at_i, low, high⟩ := found
    have bounded : i < plains.length := (List.getElem?_eq_some_iff.mp at_i).1
    have count := laid.length_eq
    have total := laid.start_le (show i + 1 ≤ plains.length from bounded)
    have next := start_succ at_i
    have here : Touches plains o e i := ⟨o, Nat.le_refl o, room, low, high⟩
    obtain ⟨s', r, loaded, fine', kept, verdict⟩ := marks i g s here at_i fine
    rw [if_neg (show ¬ b.table.chunks.length ≤ i by omega), loaded]
    rcases verdict with ⟨healthy, rfl⟩ | ⟨damaged, mark, err, rfl⟩
    case inr =>
     have first : FirstBad plains ok o e i := by
      refine ⟨here, damaged, ?_⟩
      rintro j ⟨p, after, -, -, highJ⟩ less
      have mono := start_mono plains (show j + 1 ≤ i from less)
      omega
     exact ⟨[], s', .error (.load err), rfl, fine', kept,
      .inr ⟨⟨i, first, mark⟩, ⟨_, rfl⟩, List.nil_prefix⟩⟩
    obtain ⟨within, m, sizeOf, moved, positive, inRange, inChunk⟩ :=
     clip_spec laid offIs stopIs room at_i low high
    dsimp only
    generalize clip (Int64.ofNat g.length - (off - b.layout.prefixSum.getD i 0)) (stop - off) = n
     at sizeOf moved ⊢
    have advances : ¬ n ≤ 0 := by
     rw [Int64.not_le, Int64.lt_iff_toInt_lt, sizeOf]
     change (0 : Int) < m
     omega
    have piece := sliceOf_eq within sizeOf inChunk (by omega)
    have stretch : (g.drop (o - start plains i)).take m = slice plains.flatten o (o + m) := by
     rw [slice_flatten at_i low (by omega), Nat.add_sub_cancel_left]
    have fewer : Marks plains load good ok marked (Touches plains (o + m) e) :=
     marks.mono fun j touches => touches.imp fun p range => ⟨by omega, range.2⟩
    obtain ⟨more', s'', outcome, later, fine'', kept', halted⟩ :=
     ih fewer fine' moved (by omega) (by omega)
    refine ⟨_, s'', outcome, ?_, fine'', fun j mark => kept' j (kept j mark),
     halted_step low positive (by omega) inRange healthy halted⟩
    simp only [advances, if_false, piece, later]
    rw [stretch]
  · have same : o = e := by
     rw [Int64.lt_iff_toInt_lt, offIs, stopIs] at more
     omega
    subst same
    rw [if_neg more]
    exact ⟨[], s, .ok (), rfl, fine, fun _ => id, halted_empty ok marked o s⟩

theorem walkRange_marks : ∃ out s' outcome, walkRange b load off stop s = (out, s', outcome) ∧
  good s' ∧
   (∀ j, marked j s → marked j s') ∧ Halted plains ok marked o e out s' outcome := by
 have top := (toInt_fits stop).2
 have turns : (stop - off).toInt = (e - o : Nat) := by
  rw [toInt_sub_of_fits, offIs, stopIs]
  · omega
  · rw [offIs, stopIs]
    rw [stopIs] at top
    constructor <;> unfold bound at * <;> omega
 refine walk_spec laid marks fine offIs stopIs ordered inside ?_
 rw [← Int64.toNat_toInt, turns]
 exact Nat.le_refl _

end

theorem walkRange_spec (laid : Laid b plains)
  (answers : Answers plains load good ok (Touches plains o e)) (fine : good s)
  (offIs : off.toInt = o) (stopIs : stop.toInt = e) (ordered : o ≤ e)
  (inside : e ≤ plains.flatten.length) :
  ∃ out s' outcome, walkRange b load off stop s = (out, s', outcome) ∧ good s' ∧
   Walked plains ok o e out outcome := by
 obtain ⟨out, s', outcome, went, fine', -, halted⟩ :=
  walkRange_marks laid answers.marks fine offIs stopIs ordered inside
 exact ⟨out, s', outcome, went, fine', halted.walked⟩

end Walk

section Loaders

variable {pk : Packages} {verify : Bool} {needed : Nat → Prop}

/-- The chunks in question load as their plaintexts when they are `ok`, and fail otherwise. -/
def LoadsAs (pk : Packages) (b : Backup) (verify : Bool) (plains : List Bytes) (ok : Nat → Bool)
  (needed : Nat → Prop) : Prop :=
 ∀ i p, needed i → plains[i]? = some p →
  ok i = true ∧ plainChunkBytes pk b i verify = .ok p ∨
   ok i = false ∧ ∃ e, plainChunkBytes pk b i verify = .error e

def Cached (pk : Packages) (b : Backup) (verify : Bool) (s : Loader) : Prop :=
 ∀ i data, s.cached = some (i, data) → plainChunkBytes pk b i verify = .ok data

/-- What is remembered as damaged are chunks of the table that do not load, each noted once with its
cause and read once; no other such chunk was read. -/
structure Recorded (pk : Packages) (b : Backup) (verify : Bool) (count : Nat) (s : Loader) :
  Prop where
 cached : Cached pk b verify s
 nodup : s.bad.Nodup
 caused : List.Forall₂ (fun i e => plainChunkBytes pk b i verify = .error e) s.bad s.causes
 inside : ∀ i ∈ s.bad, i < count
 once : ∀ i ∈ s.bad, s.reads.count i = 1
 unread : ∀ i e, plainChunkBytes pk b i verify = .error e → i ∉ s.bad → i ∉ s.reads

theorem cached_of_none (empty : s.cached = none) : Cached pk b verify s := by
 intro i data held
 rw [empty] at held
 cases held

variable {i : Nat}

variable {p : Bytes}

theorem cached_set (loads : plainChunkBytes pk b i verify = .ok p) :
  Cached pk b verify { s with cached := some (i, p) } := by
 intro j data held
 cases held
 exact loads

variable {count : Nat}

theorem recorded_start : Recorded pk b verify count Loader.start where
 cached := cached_of_none rfl
 nodup := .nil
 caused := .nil
 inside _ bad := nomatch bad
 once _ bad := nomatch bad
 unread _ _ _ _ read := nomatch read

theorem Recorded.error (recorded : Recorded pk b verify count s)
  (bad : i ∈ s.bad) : ∃ e, plainChunkBytes pk b i verify = .error e := by
 have caused := recorded.caused
 generalize s.bad = chunks, s.causes = causes at caused bad
 induction caused with
 | nil => cases bad
 | cons failed _ ih =>
  rcases List.mem_cons.mp bad with rfl | later
  · exact ⟨_, failed⟩
  · exact ih later

theorem Recorded.loaded (recorded : Recorded pk b verify count s)
  (loads : plainChunkBytes pk b i verify = .ok p) :
  Recorded pk b verify count { s.reading i with cached := some (i, p) } where
 cached := cached_set loads
 nodup := recorded.nodup
 caused := recorded.caused
 inside := recorded.inside
 once j bad := by
  obtain ⟨e, failed⟩ := recorded.error bad
  have other : i ≠ j := by
   rintro rfl
   rw [loads] at failed
   cases failed
  have earlier := recorded.once j bad
  simpa [Loader.reading, other] using earlier
 unread j e failed fresh := by
  have other : j ≠ i := by
   rintro rfl
   rw [loads] at failed
   cases failed
  have earlier := recorded.unread j e failed fresh
  simpa [Loader.reading, other] using earlier

theorem Recorded.failed {e : ChunkError}
  (recorded : Recorded pk b verify count s) (fails : plainChunkBytes pk b i verify = .error e)
  (fresh : i ∉ s.bad) (inside : i < count) :
  Recorded pk b verify count { s.reading i with bad := s.bad ++ [i], causes :=
 s.causes ++ [e] } where
 cached := cached_of_none rfl
 nodup := List.nodup_append.mpr ⟨recorded.nodup, List.nodup_singleton i, by
  intro j old k new
  rw [List.mem_singleton.mp new]
  rintro rfl
  exact fresh old⟩
 caused := List.rel_append recorded.caused (.cons fails .nil)
 inside j bad := by
  rcases List.mem_append.mp bad with old | new
  · exact recorded.inside j old
  · rw [List.mem_singleton.mp new]
    exact inside
 once j bad := by
  have unread := recorded.unread i e fails fresh
  rcases List.mem_append.mp bad with old | new
  · have other : i ≠ j := by
     rintro rfl
     exact fresh old
    have earlier := recorded.once j old
    simpa [Loader.reading, other] using earlier
  · rw [List.mem_singleton.mp new]
    simpa [Loader.reading, List.count_eq_zero] using unread
 unread j e' fails' still := by
  have other : j ≠ i ∧ j ∉ s.bad := by simpa [and_comm] using still
  have earlier := recorded.unread j e' fails' other.2
  simpa [Loader.reading, other.1] using earlier

theorem cached_of_hit (hit : s.cached.any (·.1 = i) = true) :
  s.cached = some (i, s.cached.elim [] Prod.snd) := by
 cases held : s.cached with
 | none => simp [held] at hit
 | some pair =>
  obtain ⟨j, data⟩ := pair
  have same : j = i := by simpa [held] using hit
  subst same
  rfl

theorem loads_of_hit (cached : Cached pk b verify s) (hit : s.cached.any (·.1 = i) = true) :
  plainChunkBytes pk b i verify = .ok (s.cached.elim [] Prod.snd) :=
 cached i _ (cached_of_hit hit)

theorem loadStrict_answers (loads : LoadsAs pk b verify plains ok needed) :
  Answers plains (loadStrict pk b verify) (Cached pk b verify) ok needed := by
 intro i p s needs at_i cached
 have verdict := loads i p needs at_i
 unfold loadStrict
 by_cases hit : s.cached.any (·.1 = i) = true
 · have held := loads_of_hit cached hit
   rw [if_pos hit]
   refine ⟨s, _, rfl, cached, ?_⟩
   rw [held] at verdict
   rcases verdict with ⟨healthy, same⟩ | ⟨-, e, failed⟩
   · exact .inl ⟨healthy, by rw [Except.ok.inj same]⟩
   · cases failed
 · rw [if_neg hit]
   rcases verdict with ⟨healthy, loaded⟩ | ⟨bad, e, failed⟩
   · rw [loaded]
     exact ⟨_, _, rfl, cached_set loaded, .inl ⟨healthy, rfl⟩⟩
   · rw [failed]
     exact ⟨_, _, rfl, cached_of_none rfl, .inr ⟨bad, _, rfl⟩⟩

theorem loadTolerant_marks (loads : LoadsAs pk b verify plains ok needed) :
  Marks plains (loadTolerant pk b verify) (Recorded pk b verify plains.length) ok
   (fun i s => i ∈ s.bad) needed := by
 intro i p s needs at_i recorded
 have verdict := loads i p needs at_i
 unfold loadTolerant
 by_cases hit : s.cached.any (·.1 = i) = true
 · have held := loads_of_hit recorded.cached hit
   rw [if_pos hit]
   refine ⟨s, _, rfl, recorded, fun _ => id, ?_⟩
   rw [held] at verdict
   rcases verdict with ⟨healthy, same⟩ | ⟨-, e, failed⟩
   · exact .inl ⟨healthy, by rw [Except.ok.inj same]⟩
   · cases failed
 · rw [if_neg hit]
   by_cases known : i ∈ s.bad
   · rw [if_pos known]
     refine ⟨s, _, rfl, recorded, fun _ => id, ?_⟩
     obtain ⟨e, failed⟩ := recorded.error known
     rw [failed] at verdict
     rcases verdict with ⟨-, loaded⟩ | ⟨bad, -⟩
     · cases loaded
     · exact .inr ⟨bad, known, _, rfl⟩
   · rw [if_neg known]
     rcases verdict with ⟨healthy, loaded⟩ | ⟨bad, e, failed⟩
     · rw [loaded]
       exact ⟨_, _, rfl, recorded.loaded loaded, fun _ => id, .inl ⟨healthy, rfl⟩⟩
     · rw [failed]
       have inside : i < plains.length := (List.getElem?_eq_some_iff.mp at_i).1
       exact ⟨_, _, rfl, recorded.failed failed known inside,
        fun j old => List.mem_append_left _ old,
        .inr ⟨bad, List.mem_append_right _ (List.mem_singleton.mpr rfl), _, rfl⟩⟩

end Loaders

end BackImage.Recovery.RangeWalk
