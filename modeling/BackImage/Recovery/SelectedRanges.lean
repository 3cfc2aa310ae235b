/- source: pkg/recovery/recovery.go, pkg/recovery/partial.go
  digest: Which bytes the merged ranges and the entry loop write, whatever the chunking. -/

import BackImage.Recovery.RangeWalk

namespace BackImage.Recovery.SelectedRanges

open Go.Text Index.Model Lib.Cut Lib.Wrap RangeWalk SelectedTar StreamTar Unlock
open ChunkLayout (computeLayout layoutPrefix)

def contentLength (stream : Bytes) : Nat :=
 if 1024 ≤ stream.length then stream.length - 1024 else stream.length

def rangeEnd (content : Nat) : List FileEntry → Int
 | [] => content
 | next :: _ => next.tarOffset.toInt

def Ranged (content : Nat) : List FileEntry → Prop
 | [] => True
 | e :: rest =>
  0 ≤ e.tarOffset.toInt ∧ e.tarOffset.toInt < rangeEnd content rest ∧
   rangeEnd content rest ≤ content ∧ Ranged content rest

structure Span where
 entry : FileEntry
 first : Nat
 stop : Nat
 deriving DecidableEq

def Span.bytes (stream : Bytes) (x : Span) : Bytes := slice stream x.first x.stop

def spans (content : Nat) : List FileEntry → List Span
 | [] => []
 | e :: rest => ⟨e, e.tarOffset.toInt.toNat, (rangeEnd content rest).toNat⟩ :: spans content rest

def selectedBytes (stream : Bytes) (wanted : List Str) (entries : List FileEntry) : Bytes :=
 ((spans (contentLength stream) entries).filter (·.entry.path ∈ wanted)).flatMap (Span.bytes stream)

def Needed (plains : List Bytes) (wanted : List Str) (entries : List FileEntry) (i : Nat) : Prop :=
 ∃ x ∈ spans (contentLength plains.flatten) entries, x.entry.path ∈ wanted ∧
  Touches plains x.first x.stop i

theorem contentLength_le (stream : Bytes) : contentLength stream ≤ stream.length := by
 unfold contentLength
 split <;> omega

theorem length_spans (content : Nat) (entries : List FileEntry) :
  (spans content entries).length = entries.length := by
 induction entries with
 | nil => rfl
 | cons e rest ih => rw [spans, List.length_cons, List.length_cons, ih]

variable {b : Backup} {plains : List Bytes}

theorem getLastD_layoutPrefix (sum : Int64) (rows : List Chunk) :
  (layoutPrefix sum rows).getLastD 0 = wrapSum sum (rows.map Chunk.pb) := by
 induction rows generalizing sum with
 | nil => rfl
 | cons c rows ih =>
  have later := ih (sum + c.pb)
  cases tail : layoutPrefix (sum + c.pb) rows with
  | nil => cases rows <;> simp [layoutPrefix] at tail
  | cons x xs =>
   rw [tail] at later
   rw [layoutPrefix, tail]
   simpa using later

theorem contentEnd_toInt (laid : Laid b plains) :
  (contentEnd b).toInt = contentLength plains.flatten := by
 have total : (b.layout.prefixSum.getLastD 0).toInt = plains.flatten.length := by
  have last := laid.prefix_toInt (Nat.le_refl plains.length)
  have all : start plains plains.length = plains.flatten.length := by
   rw [start, List.take_length, List.length_flatten]
  rw [laid.layout, computeLayout] at last ⊢
  rw [layoutPrefix_getD laid.length_eq.ge, ← laid.length_eq, List.take_length] at last
  rw [getLastD_layoutPrefix, last, laid.length_eq, all]
 have block : (1024 : Int64).toInt = 1024 := rfl
 unfold contentEnd contentLength
 dsimp only
 by_cases long : (1024 : Int64) ≤ b.layout.prefixSum.getLastD 0
 · rw [if_pos long]
   rw [Int64.le_iff_toInt_le, block, total] at long
   rw [if_pos (by omega), toInt_sub_of_fits, block, total]
   · omega
   · have small := laid.small
     rw [block, total]
     constructor <;> unfold bound at * <;> omega
 · rw [if_neg long]
   rw [Int64.le_iff_toInt_le, block, total] at long
   rw [if_neg (by omega), total]

theorem entryEnd_toInt (laid : Laid b plains) (rest : List FileEntry) :
  (entryEnd (contentEnd b) rest).toInt = rangeEnd (contentLength plains.flatten) rest := by
 cases rest with
 | nil => exact contentEnd_toInt laid
 | cons next rest => rfl

theorem not_badRange (laid : Laid b plains) {e : FileEntry} {rest : List FileEntry}
  (ranged : Ranged (contentLength plains.flatten) (e :: rest)) :
  ¬ badRange (contentEnd b) e.tarOffset (entryEnd (contentEnd b) rest) := by
 obtain ⟨low, filled, high, -⟩ := ranged
 have zero := Int64.toInt_zero
 unfold badRange
 rw [Int64.lt_iff_toInt_lt, Int64.le_iff_toInt_le, Int64.lt_iff_toInt_lt, entryEnd_toInt laid,
  contentEnd_toInt laid, zero]
 omega

def SoundRange (content : Nat) (r : ByteRange) : Prop :=
 0 ≤ r.start.toInt ∧ r.start.toInt < r.stop.toInt ∧ r.stop.toInt ≤ content

def rangeBytes (stream : Bytes) (r : ByteRange) : Bytes :=
 slice stream r.start.toInt.toNat r.stop.toInt.toNat

def Covers (r : ByteRange) (p : Nat) : Prop := r.start.toInt ≤ p ∧ (p : Int) < r.stop.toInt

section Merging

variable {content : Nat} {ranges : List ByteRange} {r : ByteRange}

theorem pushRange_cases (ranges : List ByteRange) (r : ByteRange) :
  pushRange ranges r = ranges ++ [r] ∨
   ∃ earlier last, ranges = earlier ++ [last] ∧ last.stop = r.start ∧
    pushRange ranges r = earlier ++ [⟨last.start, r.stop⟩] := by
 unfold pushRange
 cases ending : ranges.getLast? with
 | none => exact .inl rfl
 | some last =>
  dsimp only
  by_cases meets : last.stop = r.start
  · obtain ⟨earlier, rfl⟩ := List.getLast?_eq_some_iff.mp ending
    rw [if_pos meets, List.dropLast_concat]
    exact .inr ⟨earlier, last, rfl, meets, rfl⟩
  · rw [if_neg meets]
    exact .inl rfl

theorem sound_pushRange (sound : ∀ x ∈ ranges, SoundRange content x)
  (added : SoundRange content r) :
  ∀ x ∈ pushRange ranges r, SoundRange content x := by
 intro x member
 rcases pushRange_cases ranges r with same | ⟨earlier, last, rfl, meets, same⟩
 · rw [same, List.mem_append, List.mem_singleton] at member
   rcases member with old | rfl
   · exact sound x old
   · exact added
 · rw [same, List.mem_append, List.mem_singleton] at member
   rcases member with old | rfl
   · exact sound x (by simp [old])
   · obtain ⟨low, filled, -⟩ := sound last (by simp)
     obtain ⟨-, more, high⟩ := added
     rw [← meets] at more
     exact ⟨low, filled.trans more, high⟩

theorem bytes_pushRange (stream : Bytes) (sound : ∀ x ∈ ranges, SoundRange content x)
  (added : SoundRange content r) :
  (pushRange ranges r).flatMap (rangeBytes stream) =
   ranges.flatMap (rangeBytes stream) ++ rangeBytes stream r := by
 rcases pushRange_cases ranges r with same | ⟨earlier, last, rfl, meets, same⟩
 · rw [same, List.flatMap_append, List.flatMap_singleton]
 · obtain ⟨-, filled, -⟩ := sound last (by simp)
   obtain ⟨-, more, -⟩ := added
   have joined : rangeBytes stream ⟨last.start, r.stop⟩ =
     rangeBytes stream last ++ rangeBytes stream r := by
    unfold rangeBytes
    dsimp only
    rw [← meets] at more ⊢
    exact (slice_append stream (by omega) (by omega)).symm
   rw [same, List.flatMap_append, List.flatMap_append, List.flatMap_singleton,
    List.flatMap_singleton, joined, List.append_assoc]

theorem covers_pushRange {x : ByteRange} {p : Nat} (member : x ∈ pushRange ranges r)
  (covers : Covers x p) : (∃ y ∈ ranges, Covers y p) ∨ Covers r p := by
 rcases pushRange_cases ranges r with same | ⟨earlier, last, rfl, meets, same⟩
 · rw [same, List.mem_append, List.mem_singleton] at member
   rcases member with old | rfl
   · exact .inl ⟨x, old, covers⟩
   · exact .inr covers
 · rw [same, List.mem_append, List.mem_singleton] at member
   rcases member with old | rfl
   · exact .inl ⟨x, by simp [old], covers⟩
   · obtain ⟨low, high⟩ := covers
     by_cases before : (p : Int) < last.stop.toInt
     · exact .inl ⟨last, by simp, low, before⟩
     · rw [meets] at before
       exact .inr ⟨by omega, high⟩

end Merging

section Collect

variable {wanted : List Str}

theorem entryRange_sound (laid : Laid b plains) {e : FileEntry} {rest : List FileEntry}
  (ranged : Ranged (contentLength plains.flatten) (e :: rest)) :
  SoundRange (contentLength plains.flatten) ⟨e.tarOffset, entryEnd (contentEnd b) rest⟩ := by
 obtain ⟨low, filled, high, -⟩ := ranged
 unfold SoundRange
 rw [entryEnd_toInt laid]
 exact ⟨low, filled, high⟩

theorem collectRanges_ok (laid : Laid b plains) {entries : List FileEntry}
  (ranged : Ranged (contentLength plains.flatten) entries) {ranges : List ByteRange}
  (sound : ∀ x ∈ ranges, SoundRange (contentLength plains.flatten) x) :
  ∃ all, collectRanges wanted (contentEnd b) ranges entries = .ok all ∧
   (∀ x ∈ all, SoundRange (contentLength plains.flatten) x) ∧
   all.flatMap (rangeBytes plains.flatten) =
    ranges.flatMap (rangeBytes plains.flatten) ++
     selectedBytes plains.flatten wanted entries ∧
   ∀ x ∈ all, ∀ p, Covers x p → (∃ y ∈ ranges, Covers y p) ∨
    ∃ y ∈ spans (contentLength plains.flatten) entries, y.entry.path ∈ wanted ∧
     y.first ≤ p ∧ p < y.stop := by
 induction entries generalizing ranges with
 | nil =>
  refine ⟨ranges, rfl, sound, by simp [selectedBytes, spans], ?_⟩
  intro x member p covers
  exact .inl ⟨x, member, covers⟩
 | cons e rest ih =>
  obtain ⟨low, filled, high, later⟩ := id ranged
  unfold collectRanges
  by_cases asked : e.path ∈ wanted
  · rw [if_neg (by simpa using asked), if_neg (not_badRange laid ranged)]
    have added := entryRange_sound laid ranged
    obtain ⟨all, result, allSound, bytes, covered⟩ := ih later (sound_pushRange sound added)
    refine ⟨all, result, allSound, ?_, ?_⟩
    · rw [bytes, bytes_pushRange plains.flatten sound added, List.append_assoc, rangeBytes,
       entryEnd_toInt laid]
      simp [selectedBytes, spans, asked, Span.bytes]
    · intro x member p covers
      rcases covered x member p covers with ⟨y, pushed, old⟩ | ⟨y, further, is⟩
      · rcases covers_pushRange pushed old with before | here
        · exact .inl before
        · unfold Covers at here
          rw [entryEnd_toInt laid] at here
          dsimp only at here
          exact .inr ⟨_, List.mem_cons_self, asked, by dsimp only; omega, by dsimp only; omega⟩
      · exact .inr ⟨y, List.mem_cons_of_mem _ further, is⟩
  · rw [if_pos asked]
    obtain ⟨all, result, allSound, bytes, covered⟩ := ih later sound
    refine ⟨all, result, allSound, ?_, ?_⟩
    · rw [bytes]
      simp [selectedBytes, spans, asked]
    · intro x member p covers
      exact (covered x member p covers).imp_right fun ⟨y, further, is⟩ =>
       ⟨y, List.mem_cons_of_mem _ further, is⟩

theorem writeRanges_spec {load : Load} {good : Loader → Prop} {ok : Nat → Bool}
  {needed : Nat → Prop} (laid : Laid b plains) {ranges : List ByteRange} {s : Loader}
  (sound : ∀ x ∈ ranges, SoundRange (contentLength plains.flatten) x)
  (answers : Answers plains load good ok needed)
  (inside : ∀ i, (∃ x ∈ ranges, ∃ p, Covers x p ∧ start plains i ≤ p ∧ p < start plains (i + 1)) →
   needed i) (fine : good s) : ∃ out s' outcome, writeRanges b load ranges s = (out, s', outcome) ∧
   ((∀ i, needed i → ok i = true) → outcome = .ok ()) ∧
   (outcome = .ok () → out = ranges.flatMap (rangeBytes plains.flatten)) ∧
   out <+: ranges.flatMap (rangeBytes plains.flatten) := by
 induction ranges generalizing s with
 | nil => exact ⟨[], s, .ok (), rfl, fun _ => rfl, fun _ => rfl, List.nil_prefix⟩
 | cons r rest ih =>
  obtain ⟨low, filled, high⟩ := sound r (by simp)
  have room := contentLength_le plains.flatten
  have touched : ∀ i, Touches plains r.start.toInt.toNat r.stop.toInt.toNat i → needed i := by
   rintro i ⟨p, after, before, inChunk⟩
   exact inside i ⟨r, by simp, p, ⟨by omega, by omega⟩, inChunk⟩
  obtain ⟨out, s', outcome, walked, fine', verdict⟩ : ∃ out s' outcome,
    walkRange b load r.start r.stop s = (out, s', outcome) ∧ good s' ∧
     Walked plains ok r.start.toInt.toNat r.stop.toInt.toNat out outcome :=
   walkRange_spec laid (answers.mono touched) fine (by omega) (by omega) (by omega) (by omega)
  rw [writeRanges, walked, List.flatMap_cons]
  rcases verdict with ⟨-, rfl, rfl⟩ | ⟨⟨i, touches, bad⟩, ⟨err, rfl⟩, front⟩
  · obtain ⟨more, s'', outcome, written, complete, whole, front⟩ :=
     ih (fun x member => sound x (by simp [member]))
      (fun i ⟨x, member, is⟩ => inside i ⟨x, by simp [member], is⟩) fine'
    dsimp only
    rw [written]
    refine ⟨_, s'', outcome, rfl, complete, ?_, ?_⟩
    · intro done
      rw [whole done]
      rfl
    · exact (List.prefix_append_right_inj _).mpr front
  · refine ⟨out, s', _, rfl, ?_, fun done => (nomatch done), ?_⟩
    · intro all
      rw [all i (touched i touches)] at bad
      cases bad
    · exact front.trans (List.prefix_append _ _)

end Collect

def readable (plains : List Bytes) (ok : Nat → Bool) (x : Span) : Bool :=
 (List.range plains.length).all fun i =>
  !decide (max x.first (start plains i) < min x.stop (start plains (i + 1))) || ok i

def asked (wanted : Option (List Str)) (path : Str) : Bool := !wanted.any (path ∉ ·)

section EntryByEntry

variable {ok : Nat → Bool} {wanted : Option (List Str)}

theorem readable_iff {x : Span} :
  readable plains ok x = true ↔ ∀ i, Touches plains x.first x.stop i → ok i = true := by
 unfold readable
 rw [List.all_eq_true]
 constructor
 · rintro all i ⟨p, after, before, low, high⟩
   have inside : i < plains.length := by
    by_contra past
    have same : start plains i = start plains (i + 1) := by
     unfold start
     rw [List.take_of_length_le (by omega), List.take_of_length_le (by omega)]
    omega
   have here := all i (List.mem_range.mpr inside)
   have overlap : max x.first (start plains i) < min x.stop (start plains (i + 1)) := by omega
   simpa [overlap] using here
 · intro all i _
   by_cases overlap : max x.first (start plains i) < min x.stop (start plains (i + 1))
   · have healthy := all i ⟨max x.first (start plains i), by omega, by omega, by omega, by omega⟩
     simp [healthy]
   · simp [overlap]

/-- What the entry loop has done once it stops after the spans `seen`. -/
structure Salvaged (plains : List Bytes) (ok : Nat → Bool) (wanted : Option (List Str))
  (marked : Nat → Loader → Prop) (seen : List Span) (before : PartialReport) (out : Bytes)
  (s : Loader) (after : PartialReport) : Prop where
 bytes : out = (seen.filter fun x => asked wanted x.entry.path && readable plains ok x).flatMap
  (Span.bytes plains.flatten)
 entries : after.entries = before.entries +
  (seen.filter fun x => asked wanted x.entry.path && readable plains ok x).length
 skipped : after.skipped = before.skipped +
  (seen.filter fun x => asked wanted x.entry.path && !readable plains ok x).length
 blamed : ∀ x ∈ seen, asked wanted x.entry.path = true → readable plains ok x = false →
  ∃ i, FirstBad plains ok x.first x.stop i ∧ marked i s

section Salvaging

variable {marked : Nat → Loader → Prop} {seen : List Span} {before after : PartialReport}
 {out : Bytes} {s : Loader} {x : Span}

theorem salvaged_nil (report : PartialReport) (s : Loader) :
  Salvaged plains ok wanted marked [] report [] s report :=
 ⟨rfl, rfl, rfl, fun _ nothing => nomatch nothing⟩

theorem salvaged_unasked (unasked : asked wanted x.entry.path = false)
  (later : Salvaged plains ok wanted marked seen before out s after) :
  Salvaged plains ok wanted marked (x :: seen) before out s after where
 bytes := by
  rw [List.filter_cons_of_neg (by simp [unasked])]
  exact later.bytes
 entries := by
  rw [List.filter_cons_of_neg (by simp [unasked])]
  exact later.entries
 skipped := by
  rw [List.filter_cons_of_neg (by simp [unasked])]
  exact later.skipped
 blamed y member asks := by
  rcases List.mem_cons.mp member with rfl | rest
  · rw [unasked] at asks
    cases asks
  · exact later.blamed y rest asks

theorem salvaged_written (asks : asked wanted x.entry.path = true)
  (whole : readable plains ok x = true)
  (later : Salvaged plains ok wanted marked seen { before with entries := before.entries + 1 } out
   s after) :
  Salvaged plains ok wanted marked (x :: seen) before (x.bytes plains.flatten ++ out) s after where
 bytes := by
  rw [List.filter_cons_of_pos (by simp [asks, whole]), later.bytes]
  rfl
 entries := by
  rw [List.filter_cons_of_pos (by simp [asks, whole]), List.length_cons, later.entries]
  dsimp only
  omega
 skipped := by
  rw [List.filter_cons_of_neg (by simp [whole]), later.skipped]
 blamed y member asks' lost := by
  rcases List.mem_cons.mp member with rfl | rest
  · rw [whole] at lost
    cases lost
  · exact later.blamed y rest asks' lost

theorem salvaged_lost (asks : asked wanted x.entry.path = true)
  (lost : readable plains ok x = false) {i : Nat} (first : FirstBad plains ok x.first x.stop i)
  (mark : marked i s)
  (later : Salvaged plains ok wanted marked seen (before.skip x.entry.path) out s after) :
  Salvaged plains ok wanted marked (x :: seen) before out s after where
 bytes := by
  rw [List.filter_cons_of_neg (by simp [lost])]
  exact later.bytes
 entries := by
  rw [List.filter_cons_of_neg (by simp [lost]), later.entries]
  rfl
 skipped := by
  rw [List.filter_cons_of_pos (by simp [asks, lost]), List.length_cons, later.skipped]
  dsimp only [PartialReport.skip]
  omega
 blamed y member asks' lost' := by
  rcases List.mem_cons.mp member with rfl | rest
  · exact ⟨i, first, mark⟩
  · exact later.blamed y rest asks' lost'

end Salvaging

/-- The entry loop writes the records that are asked for and readable, each of them whole, until it
is done or cancelled. -/
theorem partialFrom_spec {load : Load} {good : Loader → Prop} {marked : Nat → Loader → Prop}
  {needed : Nat → Prop} {run : Schedule} (laid : Laid b plains) {entries : List FileEntry} {i : Nat}
  {s : Loader} {report : PartialReport} (ranged : Ranged (contentLength plains.flatten) entries)
  (marks : Marks plains load good ok marked needed)
  (inside : ∀ x ∈ spans (contentLength plains.flatten) entries, asked wanted x.entry.path = true →
   ∀ i, Touches plains x.first x.stop i → needed i)
  (fine : good s) : ∃ out s' report' outcome k,
   partialFrom b load run wanted (contentEnd b) i entries s report =
    (out, s', report', outcome) ∧ good s' ∧ (∀ j, marked j s → marked j s') ∧
   Salvaged plains ok wanted marked ((spans (contentLength plains.flatten) entries).take k) report
    out s' report' ∧
   ((∀ j, run.cancelled j = none) → outcome = .ok ()) ∧
   (outcome = .ok () → k = entries.length) := by
 induction entries generalizing i s report with
 | nil =>
  exact ⟨[], s, report, .ok (), 0, rfl, fine, fun _ => id, salvaged_nil report s, fun _ => rfl,
   fun _ => rfl⟩
 | cons e rest ih =>
  obtain ⟨low, filled, high, later⟩ := id ranged
  have inLater : ∀ x ∈ spans (contentLength plains.flatten) rest,
    asked wanted x.entry.path = true → ∀ i, Touches plains x.first x.stop i → needed i :=
   fun x member => inside x (List.mem_cons_of_mem _ member)
  rw [partialFrom, spans]
  cases alive : run.cancelled i with
  | some cause =>
   refine ⟨[], s, report, _, 0, rfl, fine, fun _ => id, salvaged_nil report s, ?_,
    fun done => (nomatch done)⟩
   intro calm
   rw [calm i] at alive
   cases alive
  | none =>
   dsimp only
   rw [if_neg (not_badRange laid ranged)]
   by_cases skipped : wanted.any (e.path ∉ ·) = true
   · obtain ⟨out, s', report', outcome, k, ran, fine', kept, salvaged, calm, done⟩ :=
      @ih (i + 1) s report later inLater fine
     have unasked : asked wanted e.path = false := by rw [asked, skipped]; rfl
     rw [if_pos skipped]
     exact ⟨out, s', report', outcome, k + 1, ran, fine', kept,
      salvaged_unasked unasked salvaged, calm, fun fin => by rw [done fin]; rfl⟩
   · rw [if_neg skipped]
     have room := contentLength_le plains.flatten
     have stops := entryEnd_toInt laid rest
     have asks : asked wanted e.path = true := by simpa [asked] using skipped
     have touched := inside _ List.mem_cons_self asks
     -- both walks give the same verdict, so the second never fails
     have walks : ∀ s, good s → ∃ out s' outcome, walkRange b load e.tarOffset
       (entryEnd (contentEnd b) rest) s = (out, s', outcome) ∧ good s' ∧
       (∀ j, marked j s → marked j s') ∧
       Halted plains ok marked e.tarOffset.toInt.toNat
        (rangeEnd (contentLength plains.flatten) rest).toNat out s' outcome := by
      intro s fine
      exact walkRange_marks laid (marks.mono touched) fine (by omega) (by omega) (by omega)
       (by omega)
     obtain ⟨out₁, s₁, outcome₁, first, fine₁, kept₁, verdict₁⟩ := walks s fine
     rw [first]
     rcases verdict₁ with ⟨all, rfl, -⟩ | ⟨⟨j, firstBad, mark⟩, ⟨err, rfl⟩, -⟩
     · obtain ⟨out₂, s₂, outcome₂, second, fine₂, kept₂, verdict₂⟩ := walks s₁ fine₁
       dsimp only
       rw [second]
       rcases verdict₂ with ⟨-, rfl, rfl⟩ | ⟨⟨j, firstBad, -⟩, -, -⟩
       · obtain ⟨out, s', report', outcome, k, ran, fine', kept, salvaged, calm, done⟩ :=
          @ih (i + 1) s₂ { report with entries := report.entries + 1 } later inLater fine₂
         dsimp only
         rw [ran]
         exact ⟨_, s', report', outcome, k + 1, rfl, fine',
          fun j mark => kept j (kept₂ j (kept₁ j mark)),
          salvaged_written asks (readable_iff.mpr all) salvaged, calm,
          fun fin => by rw [done fin]; rfl⟩
       · have healthy := all j firstBad.1
         rw [firstBad.2.1] at healthy
         cases healthy
     · obtain ⟨out, s', report', outcome, k, ran, fine', kept, salvaged, calm, done⟩ :=
        @ih (i + 1) s₁ (report.skip e.path) later inLater fine₁
       dsimp only
       have lost : readable plains ok ⟨e, e.tarOffset.toInt.toNat,
         (rangeEnd (contentLength plains.flatten) rest).toNat⟩ = false := by
        rw [← Bool.not_eq_true, readable_iff]
        intro all
        have healthy := all j firstBad.1
        rw [firstBad.2.1] at healthy
        cases healthy
       exact ⟨out, s', report', outcome, k + 1, ran, fine',
        fun j mark => kept j (kept₁ j mark),
        salvaged_lost asks lost firstBad (kept j mark) salvaged, calm,
        fun fin => by rw [done fin]; rfl⟩

end EntryByEntry

end BackImage.Recovery.SelectedRanges
