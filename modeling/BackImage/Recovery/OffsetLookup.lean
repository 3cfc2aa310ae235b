/- source: pkg/recovery/partial.go, pkg/recovery/recovery.go
  digest: The lookup of an offset is exact also when the prefix sums wrap, and every walk
    returns. -/

import BackImage.Recovery.SelectedRanges

namespace BackImage.Recovery.OffsetLookup

open Go.Text Index.Model Lib.Sequence Lib.Search Lib.Wrap RangeWalk SelectedRanges
open SelectedTar StreamTar Unlock
open ChunkLayout (computeLayout)

variable {b : Backup} {load : Load} {good : Loader → Prop} {s : Loader}

/-- The table records no negative size, and its layout is the one computed from it. -/
structure Nonnegative (b : Backup) : Prop where
 layout : b.layout = computeLayout b.table
 sizes : ∀ c ∈ b.table.chunks, 0 ≤ c.pb.toInt

theorem prefix_zero (table : Nonnegative b) : b.layout.prefixSum.getD 0 0 = 0 := by
 rw [table.layout, computeLayout, layoutPrefix_getD (Nat.zero_le _)]
 rfl

theorem prefix_succ (table : Nonnegative b) {i : Nat} {c : Chunk}
  (row : b.table.chunks[i]? = some c) :
  b.layout.prefixSum.getD (i + 1) 0 = b.layout.prefixSum.getD i 0 + c.pb := by
 obtain ⟨inside, rfl⟩ := List.getElem?_eq_some_iff.mp row
 rw [table.layout, computeLayout, layoutPrefix_getD (by omega), layoutPrefix_getD (by omega),
  List.take_succ_eq_append_getElem inside, List.map_append, wrapSum_append]
 rfl

theorem between_exact {low off size : Int64} (nonneg : 0 ≤ size.toInt) (after : low ≤ off)
  (before : off < low + size) : off.toInt < low.toInt + size.toInt := by
 have lowFits := toInt_fits low
 have sizeFits := toInt_fits size
 rw [Int64.le_iff_toInt_le] at after
 rw [Int64.lt_iff_toInt_lt, Int64.toInt_add, Int.bmod_def] at before
 unfold Fits bound at *
 split at before <;> omega

/-- Chunk `i` holds the offset, `w` bytes after its start. -/
structure Found (b : Backup) (off : Int64) (i : Nat) (c : Chunk) (w : Nat) : Prop where
 at_i : chunkAt b.layout.prefixSum b.table.chunks.length off = i
 row : b.table.chunks[i]? = some c
 within : (off - b.layout.prefixSum.getD i 0).toInt = w
 inside : (w : Int) < c.pb.toInt
 exact_start : (b.layout.prefixSum.getD i 0).toInt + w = off.toInt

theorem chunkAt_found (table : Nonnegative b) {off : Int64} (low : 0 ≤ off.toInt)
  (found : chunkAt b.layout.prefixSum b.table.chunks.length off < b.table.chunks.length) :
  ∃ i c w, Found b off i c w := by
 obtain ⟨-, holds, below⟩ := search_spec b.table.chunks.length
  fun i => off < b.layout.prefixSum.getD (i + 1) 0
 generalize at_i : chunkAt b.layout.prefixSum b.table.chunks.length off = i at found
 unfold chunkAt at at_i
 rw [at_i] at holds below
 have row := List.getElem?_eq_getElem found
 have after : b.layout.prefixSum.getD i 0 ≤ off := by
  cases i with
  | zero =>
   rw [prefix_zero table, Int64.le_iff_toInt_le]
   exact low
  | succ j =>
   have fails := below.resolve_left (Nat.succ_ne_zero j)
   exact Int64.not_lt.mp (of_decide_eq_false fails)
 have before := of_decide_eq_true (holds.resolve_left (Nat.ne_of_lt found))
 rw [prefix_succ table row] at before
 have less := between_exact (table.sizes _ (List.getElem_mem found)) after before
 rw [Int64.le_iff_toInt_le] at after
 have size := toInt_fits b.table.chunks[i].pb
 have exact_sub : (off - b.layout.prefixSum.getD i 0).toInt =
   off.toInt - (b.layout.prefixSum.getD i 0).toInt := by
  apply toInt_sub_of_fits
  unfold Fits bound at *
  omega
 refine ⟨i, _, (off.toInt - (b.layout.prefixSum.getD i 0).toInt).toNat, at_i, row, ?_, ?_, ?_⟩ <;>
  omega

inductive Turn
 | ended
 | failed (cause : WalkError) (s : Loader)
 | moved (piece : Bytes) (off : Int64) (s : Loader)

def turn (b : Backup) (load : Load) (stop off : Int64) (s : Loader) : Turn :=
 if off < stop then
  let i := chunkAt b.layout.prefixSum b.table.chunks.length off
  if b.table.chunks.length ≤ i then .failed (.outside off) s
  else
   match load s i with
   | (s, .error e) => .failed (.load e) s
   | (s, .ok data) =>
    let within := off - b.layout.prefixSum.getD i 0
    let n := clip (Int64.ofNat data.length - within) (stop - off)
    if n ≤ 0 then .failed (.uncovered i off) s
    else
     match sliceOf data within n with
     | none => .failed .sliceBounds s
     | some piece => .moved piece (off + n) s
 else .ended

/-- The loop, as long as it takes: a derivation is a walk that returns. -/
inductive Walks (b : Backup) (load : Load) (stop : Int64) :
  Int64 → Loader → Bytes → Loader → Except WalkError Unit → Prop
 | ended {off : Int64} {s : Loader} (done : turn b load stop off s = .ended) :
   Walks b load stop off s [] s (.ok ())
 | failed {off : Int64} {s s' : Loader} {cause : WalkError}
   (fails : turn b load stop off s = .failed cause s') :
   Walks b load stop off s [] s' (.error cause)
 | moved {off off' : Int64} {s s' s'' : Loader} {piece more : Bytes}
   {outcome : Except WalkError Unit}
   (moves : turn b load stop off s = .moved piece off' s')
   (later : Walks b load stop off' s' more s'' outcome) :
   Walks b load stop off s (piece ++ more) s'' outcome

theorem walk_succ (b : Backup) (load : Load) (stop off : Int64) (fuel : Nat) (s : Loader) :
  walk b.layout.prefixSum b.table.chunks.length load stop (fuel + 1) off s =
   match turn b load stop off s with
   | .ended => ([], s, .ok ())
   | .failed cause s => ([], s, .error cause)
   | .moved piece off s =>
    let (more, s, outcome) := walk b.layout.prefixSum b.table.chunks.length load stop fuel off s
    (piece ++ more, s, outcome) := by
 rw [walk, turn]
 by_cases more : off < stop
 · rw [if_pos more, if_pos more]
   dsimp only
   split
   · rfl
   · rcases load s (chunkAt b.layout.prefixSum b.table.chunks.length off) with ⟨s', e | data⟩
     · rfl
     · dsimp only
       split
       · rfl
       · rcases sliceOf data _ _ with none | piece <;> rfl
 · rw [if_neg more, if_neg more]

/-- Loads return as many bytes as the table records; `good` is what a loader keeps for that. -/
def LoadsExactly (b : Backup) (load : Load) (good : Loader → Prop) : Prop :=
 ∀ s i, good s → good (load s i).1 ∧
  ∀ data, (load s i).2 = .ok data → ∃ c, b.table.chunks[i]? = some c ∧
   (data.length : Int) = c.pb.toInt

structure Advance (b : Backup) (load : Load) (stop off : Int64) (s : Loader) (piece : Bytes)
  (off' : Int64) (s' : Loader) (i w n : Nat) (c : Chunk) (data : Bytes) : Prop where
 found : Found b off i c w
 loads : load s i = (s', .ok data)
 length : (data.length : Int) = c.pb.toInt
 bounds : w + n ≤ data.length
 piece_eq : piece = (data.drop w).take n
 positive : 0 < n
 next : off'.toInt = off.toInt + n
 inside : off'.toInt ≤ stop.toInt

def Turned (b : Backup) (load : Load) (good : Loader → Prop) (stop off : Int64) (s : Loader) :
  Prop :=
 turn b load stop off s = .failed (.outside off) s ∨
  (∃ cause s', turn b load stop off s = .failed (.load cause) s' ∧ good s') ∨
  ∃ piece off' s', turn b load stop off s = .moved piece off' s' ∧ good s' ∧
   ∃ i w n c data, Advance b load stop off s piece off' s' i w n c data

section Turns

variable {off stop : Int64}

theorem clip_found {i w : Nat} {c : Chunk} {data : Bytes} (found : Found b off i c w)
  (low : 0 ≤ off.toInt) (more : off.toInt < stop.toInt)
  (length : (data.length : Int) = c.pb.toInt) :
  (clip (Int64.ofNat data.length - (off - b.layout.prefixSum.getD i 0)) (stop - off)).toInt =
   (min (data.length - w) (stop.toInt - off.toInt).toNat : Nat) := by
 have stopFits := toInt_fits stop
 have sizeFits := toInt_fits c.pb
 have inside := found.inside
 have size : (Int64.ofNat data.length).toInt = data.length := by
  apply toInt_ofNat_of_lt
  rw [length]
  exact sizeFits.2
 have rest : (Int64.ofNat data.length - (off - b.layout.prefixSum.getD i 0)).toInt =
   (data.length : Int) - w := by
  rw [toInt_sub_of_fits, size, found.within]
  rw [size, found.within]
  unfold Fits bound at *
  omega
 have remaining : (stop - off).toInt = stop.toInt - off.toInt := by
  apply toInt_sub_of_fits
  unfold Fits bound at *
  omega
 rw [clip_toInt, rest, remaining]
 omega

theorem turn_spec (table : Nonnegative b) (loads : LoadsExactly b load good)
  (low : 0 ≤ off.toInt) (more : off.toInt < stop.toInt) (fine : good s) :
  Turned b load good stop off s := by
 unfold Turned turn
 rw [if_pos (Int64.lt_iff_toInt_lt.mpr more)]
 dsimp only
 by_cases past : b.table.chunks.length ≤ chunkAt b.layout.prefixSum b.table.chunks.length off
 · rw [if_pos past]
   exact .inl rfl
 · right
   rw [if_neg past]
   obtain ⟨i, c, w, found⟩ := chunkAt_found table low (Nat.not_le.mp past)
   rw [found.at_i]
   obtain ⟨fine', sized⟩ := loads s i fine
   rcases loading : load s i with ⟨s', e | data⟩ <;> rw [loading] at fine' sized
   · exact .inl ⟨e, s', rfl, fine'⟩
   · right
     obtain ⟨c', row', length⟩ := sized data rfl
     cases found.row.symm.trans row'
     have inside := found.inside
     have size := clip_found found low more length
     generalize clipped : clip (Int64.ofNat data.length - (off - b.layout.prefixSum.getD i 0))
      (stop - off) = n
      at size
     have advances : ¬ n ≤ 0 := by
      rw [Int64.not_le, Int64.lt_iff_toInt_lt, size]
      change (0 : Int) < _
      omega
     have stopFits := toInt_fits stop
     have next : (off + n).toInt = off.toInt + n.toInt := by
      apply toInt_add_of_fits
      unfold Fits bound at *
      omega
     have cut := sliceOf_eq found.within size (by omega) (length ▸ (toInt_fits c.pb).2)
     dsimp only
     rw [clipped, if_neg advances, cut]
     refine ⟨_, _, s', rfl, fine', i, w, _, c, data, found, loading, length, ?_, rfl, ?_, ?_, ?_⟩
      <;> omega

theorem turn_ended (done : stop.toInt ≤ off.toInt) : turn b load stop off s = .ended := by
 unfold turn
 rw [if_neg]
 rw [Int64.lt_iff_toInt_lt]
 omega

def Expected (cause : WalkError) : Prop :=
 (∃ off, cause = .outside off) ∨ ∃ e, cause = .load e

theorem walk_returns (table : Nonnegative b) (loads : LoadsExactly b load good) {fuel : Nat}
  (low : 0 ≤ off.toInt) (ordered : off.toInt ≤ stop.toInt)
  (enough : stop.toInt - off.toInt ≤ fuel) (fine : good s) :
  ∃ out s' outcome, walk b.layout.prefixSum b.table.chunks.length load stop fuel off s =
  (out, s', outcome) ∧
   Walks b load stop off s out s' outcome ∧ good s' ∧ ∀ cause, outcome = .error cause →
   Expected cause := by
 induction fuel generalizing off s with
 | zero =>
  exact ⟨[], s, .ok (), rfl, .ended (turn_ended (by omega)), fine, fun _ fails => by cases fails⟩
 | succ fuel ih =>
  rw [walk_succ]
  by_cases done : stop.toInt ≤ off.toInt
  · have ended : turn b load stop off s = .ended := turn_ended done
    rw [ended]
    exact ⟨[], s, .ok (), rfl, .ended ended, fine, fun _ fails => by cases fails⟩
  · rcases turn_spec table loads low (Int.not_le.mp done) fine with
     fails | ⟨e, s', fails, fine'⟩ | ⟨piece, off', s', moves, fine', i, w, n, c, data, advance⟩
    · rw [fails]
      refine ⟨[], s, _, rfl, .failed fails, fine, ?_⟩
      rintro cause ⟨⟩
      exact .inl ⟨off, rfl⟩
    · rw [fails]
      refine ⟨[], s', _, rfl, .failed fails, fine', ?_⟩
      rintro cause ⟨⟩
      exact .inr ⟨e, rfl⟩
    · rw [moves]
      have next := advance.next
      have positive := advance.positive
      have inside := advance.inside
      have later : 0 ≤ off'.toInt := by omega
      obtain ⟨more, s'', outcome, went, walks, fine'', expected⟩ := ih later inside (by omega) fine'
      dsimp only
      rw [went]
      exact ⟨_, s'', outcome, rfl, .moved moves walks, fine'', expected⟩

theorem walkRange_returns (table : Nonnegative b) (loads : LoadsExactly b load good) {start : Int64}
  (low : 0 ≤ start.toInt) (ordered : start.toInt ≤ stop.toInt) (fine : good s) :
  ∃ out s' outcome, walkRange b load start stop s = (out, s', outcome) ∧
   Walks b load stop start s out s' outcome ∧ good s' ∧ ∀ cause, outcome = .error cause →
   Expected cause := by
 have stopFits := toInt_fits stop
 apply walk_returns table loads low ordered _ fine
 rw [← Int64.toNat_toInt, toInt_sub_of_fits]
 · omega
 · unfold Fits bound at *
   omega

end Turns

section Restores

variable {pk : Packages} {verify : Bool}

def Kept (b : Backup) (s : Loader) : Prop :=
 ∀ i data, s.cached = some (i, data) → ∃ c, b.table.chunks[i]? = some c ∧
  (data.length : Int) = c.pb.toInt

variable {i : Nat}

theorem plainChunkBytes_length {data : Bytes} (loads : plainChunkBytes pk b i verify = .ok data) :
  ∃ c, b.table.chunks[i]? = some c ∧ (data.length : Int) = c.pb.toInt := by
 unfold plainChunkBytes at loads
 split at loads
 · cases loads
 split at loads
 · cases loads
 split at loads
 · cases loads
 split at loads
 · cases loads
 split at loads
 · cases loads
 rename_i c row
 obtain ⟨same, loads⟩ := guard_ok.mp loads
 obtain ⟨-, loads⟩ := guard_ok.mp loads
 cases loads
 exact ⟨c, row, not_not.mp same⟩

theorem kept_hit (kept : Kept b s) (hit : s.cached.any (·.1 = i) = true) :
  ∃ c, b.table.chunks[i]? = some c ∧ ((s.cached.elim [] Prod.snd).length : Int) = c.pb.toInt :=
 kept i _ (cached_of_hit hit)

theorem kept_none (empty : s.cached = none) : Kept b s := by
 intro i data held
 rw [empty] at held
 cases held

theorem kept_start : Kept b Loader.start := kept_none rfl

theorem kept_some {data : Bytes} (held : s.cached = some (i, data))
  (sized : ∃ c, b.table.chunks[i]? = some c ∧ (data.length : Int) = c.pb.toInt) : Kept b s := by
 intro j other here
 rw [held] at here
 cases here
 exact sized

theorem loadStrict_exactly : LoadsExactly b (loadStrict pk b verify) (Kept b) := by
 intro s i kept
 unfold loadStrict
 by_cases hit : s.cached.any (·.1 = i) = true
 · rw [if_pos hit]
   refine ⟨kept, ?_⟩
   rintro data ⟨⟩
   exact kept_hit kept hit
 · rw [if_neg hit]
   cases loads : plainChunkBytes pk b i verify with
   | error e => exact ⟨kept_none rfl, fun _ fails => by cases fails⟩
   | ok data =>
    have sized := plainChunkBytes_length loads
    refine ⟨kept_some rfl sized, ?_⟩
    rintro _ ⟨⟩
    exact sized

theorem loadTolerant_exactly : LoadsExactly b (loadTolerant pk b verify) (Kept b) := by
 intro s i kept
 unfold loadTolerant
 by_cases hit : s.cached.any (·.1 = i) = true
 · rw [if_pos hit]
   refine ⟨kept, ?_⟩
   rintro data ⟨⟩
   exact kept_hit kept hit
 · rw [if_neg hit]
   by_cases known : i ∈ s.bad
   · rw [if_pos known]
     exact ⟨kept, fun _ fails => by cases fails⟩
   · rw [if_neg known]
     cases loads : plainChunkBytes pk b i verify with
     | error e => exact ⟨kept_none rfl, fun _ fails => by cases fails⟩
     | ok data =>
      have sized := plainChunkBytes_length loads
      refine ⟨kept_some rfl sized, ?_⟩
      rintro _ ⟨⟩
      exact sized

theorem sound_of_check {start stop : Int64} (passed : ¬ badRange (contentEnd b) start stop) :
  SoundRange (contentEnd b).toInt.toNat ⟨start, stop⟩ := by
 have zero := Int64.toInt_zero
 unfold badRange at passed
 rw [Int64.lt_iff_toInt_lt, Int64.le_iff_toInt_le, Int64.lt_iff_toInt_lt, zero] at passed
 unfold SoundRange
 dsimp only
 omega

variable {entries : List FileEntry} {ranges : List ByteRange}

theorem collectRanges_sound {wanted : List Str} {all : List ByteRange}
  (collected : collectRanges wanted (contentEnd b) ranges entries = .ok all)
  (sound : ∀ r ∈ ranges, SoundRange (contentEnd b).toInt.toNat r) :
  ∀ r ∈ all, SoundRange (contentEnd b).toInt.toNat r := by
 induction entries generalizing ranges with
 | nil =>
  cases collected
  exact sound
 | cons e rest ih =>
  unfold collectRanges at collected
  by_cases other : e.path ∉ wanted
  · rw [if_pos other] at collected
    exact ih collected sound
  · rw [if_neg other] at collected
    obtain ⟨passed, collected⟩ := guard_ok.mp collected
    exact ih collected (sound_pushRange sound (sound_of_check passed))

theorem collectRanges_walk {wanted : List Str} {content : Int64} {cause : WalkError} :
  collectRanges wanted content ranges entries ≠ .error (.walk cause) := by
 induction entries generalizing ranges with
 | nil => simp [collectRanges]
 | cons e rest ih =>
  unfold collectRanges
  split
  · exact ih
  · split
    · simp
    · exact ih

section

variable (table : Nonnegative b) (loads : LoadsExactly b load good) (fine : good s)

include table loads fine

theorem writeRanges_expected (sound : ∀ r ∈ ranges, SoundRange (contentEnd b).toInt.toNat r)
  (e : SelectError)
  (fails : (writeRanges b load ranges s).2.2 = .error e) : ∃ cause, e = .walk cause ∧
  Expected cause := by
 induction ranges generalizing s with
 | nil => cases fails
 | cons r rest ih =>
  obtain ⟨low, filled, -⟩ := sound r (List.mem_cons_self ..)
  obtain ⟨out, s', outcome, went, -, fine', expected⟩ :=
   walkRange_returns table loads low (Int.le_of_lt filled) fine
  rw [writeRanges, went] at fails
  cases outcome with
  | error cause =>
   cases fails
   exact ⟨cause, rfl, expected cause rfl⟩
  | ok _ => exact ih fine' (fun x member => sound x (List.mem_cons_of_mem r member)) fails

theorem partialFrom_expected {run : Schedule} {wanted : Option (List Str)} {report : PartialReport}
  (cause : WalkError)
  (fails : (partialFrom b load run wanted (contentEnd b) i entries s report).2.2.2 =
   .error (.walk cause)) :
  Expected cause := by
 induction entries generalizing i s report with
 | nil => cases fails
 | cons e rest ih =>
  unfold partialFrom at fails
  cases stopped : run.cancelled i with
  | some reason =>
   rw [stopped] at fails
   cases fails
  | none =>
   rw [stopped] at fails
   dsimp only at fails
   by_cases bad : badRange (contentEnd b) e.tarOffset (entryEnd (contentEnd b) rest)
   · rw [if_pos bad] at fails
     cases fails
   rw [if_neg bad] at fails
   obtain ⟨low, filled, -⟩ := sound_of_check bad
   dsimp only at low filled
   split at fails
   · exact ih fine fails
   · obtain ⟨out, s', outcome, went, -, fine', -⟩ :=
      walkRange_returns table loads low (Int.le_of_lt filled) fine
     rw [went] at fails
     cases outcome with
     | error _ => exact ih fine' fails
     | ok _ =>
      obtain ⟨out, s'', outcome, again, -, fine'', expected⟩ :=
       walkRange_returns table loads low (Int.le_of_lt filled) fine'
      dsimp only at fails
      rw [again] at fails
      cases outcome with
      | error _ =>
       cases fails
       exact expected cause rfl
      | ok _ => exact ih fine'' fails

end

end Restores

/-- For every table of sizes that are not negative, however their sums wrap: a turn of the loop
returns an error or finds the chunk that holds the offset and advances inside it; so the walks
return, and no restore reports a chunk that does not cover its offset. -/
theorem offset_lookup_exact (b : Backup) (table : Nonnegative b) :
  (∀ load good, LoadsExactly b load good → ∀ (start stop : Int64) (s : Loader),
   0 ≤ start.toInt → start.toInt ≤ stop.toInt → good s →
    (∀ off s, start.toInt ≤ off.toInt → off.toInt < stop.toInt → good s →
     Turned b load good stop off s) ∧
    ∃ out s' outcome, walkRange b load start stop s = (out, s', outcome) ∧
     Walks b load stop start s out s' outcome ∧ ∀ cause, outcome = .error cause → Expected cause) ∧
  (∀ pk idx selected verify cause,
   (streamSelectedTar pk b idx selected verify).2 = .error (.walk cause) → Expected cause) ∧
  ∀ pk run idx wanted verify cause,
   (streamTarPartial pk run b idx wanted verify).2.2 = .error (.walk cause) → Expected cause := by
 refine ⟨?_, ?_, ?_⟩
 · intro load good loads start stop s low ordered fine
   refine ⟨fun off s' after more fine' => turn_spec table loads (low.trans after) more fine', ?_⟩
   obtain ⟨out, s', outcome, went, walks, -, expected⟩ :=
    walkRange_returns table loads low ordered fine
   exact ⟨out, s', outcome, went, walks, expected⟩
 · intro pk idx selected verify cause fails
   unfold streamSelectedTar at fails
   cases idx with
   | none => cases fails
   | some idx =>
    dsimp only at fails
    cases collected : collectRanges (selectionSet idx selected) (contentEnd b) [] idx.entries with
    | error e =>
     rw [collected] at fails
     cases fails
     exact absurd collected collectRanges_walk
    | ok ranges =>
     rw [collected] at fails
     have sound := collectRanges_sound collected (fun r member => absurd member List.not_mem_nil)
     have exactly : LoadsExactly b (loadStrict pk b (mustVerify b verify)) (Kept b) :=
      loadStrict_exactly
     have expected := writeRanges_expected table exactly kept_start sound
     rcases wrote : writeRanges b (loadStrict pk b (mustVerify b verify)) ranges Loader.start with
      ⟨out, s, e | _⟩
     · dsimp only at fails
       rw [wrote] at fails expected
       cases fails
       obtain ⟨same, is, expects⟩ := expected _ rfl
       cases is
       exact expects
     · dsimp only at fails
       rw [wrote] at fails
       cases fails
 · intro pk run idx wanted verify cause fails
   unfold streamTarPartial at fails
   cases idx with
   | none => cases fails
   | some idx =>
    dsimp only at fails
    have exactly : LoadsExactly b (loadTolerant pk b (mustVerify b verify)) (Kept b) :=
     loadTolerant_exactly
    rcases went : partialFrom b (loadTolerant pk b (mustVerify b verify)) run wanted
     (contentEnd b) 0
     idx.entries Loader.start PartialReport.empty with ⟨out, s, report, e | _⟩
    · rw [went] at fails
      cases fails
      exact partialFrom_expected table exactly kept_start cause (congrArg (·.2.2.2) went)
    · rw [went] at fails
      cases fails

def wrappedBackup : Backup :=
 storedBackup (fun _ => .error [])
  [⟨0, lit "blob", [], [], 9223372036854775807, 0⟩, ⟨1, lit "blob", [], [], 9223372036854775807, 0⟩,
   ⟨2, lit "blob", [], [], 10, 10⟩]

def loadLast : Load :=
 fun s i => (s, if i = 2 then .ok (List.replicate 10 7) else .error (.knownBad i))

theorem last_chunk_walked : (wrappedBackup.layout.prefixSum = [0, 9223372036854775807, -2, 8]) ∧
   Walks wrappedBackup loadLast 8 3 Loader.start (List.replicate 5 7) Loader.start (.ok ()) := by
 have table : Nonnegative wrappedBackup := ⟨rfl, by decide⟩
 have exactly : LoadsExactly wrappedBackup loadLast fun _ => True := by
  intro s i _
  refine ⟨trivial, fun data loaded => ?_⟩
  unfold loadLast at loaded
  split at loaded
  · rename_i last
    cases loaded
    rw [last]
    exact ⟨_, rfl, by decide⟩
  · cases loaded
 obtain ⟨-, out, s', outcome, went, walks, -⟩ :=
  (offset_lookup_exact wrappedBackup table).1 loadLast _ exactly 3 8 Loader.start (by decide)
   (by decide) trivial
 have value : walkRange wrappedBackup loadLast 3 8 Loader.start =
   (List.replicate 5 7, Loader.start, .ok ()) := by
  rfl
 rw [value] at went
 cases went
 exact ⟨by decide, walks⟩

end BackImage.Recovery.OffsetLookup
