/- source: pkg/archive/writer.go
  digest: The bytes of an archive that was completed, record by record, and the offsets recorded for
    them. -/

import BackImage.Archive.Schedule
import BackImage.Lib.Wrap

namespace BackImage.Archive.Layout

open EntryStep Go Go.Text Lib.Sequence Lib.Wrap Schedule Writer
open Go.Sha256 (sum256)

abbrev Record := Entry × Bytes

def tally (records : List Record) : Counters :=
 records.foldl (fun c r => c.add r.1.type (Int64.ofNat r.2.length)) .zero

/-- The records stand in the output one behind the other, each where the one before and its padding
end; only the last may miss content or padding. -/
inductive Laid (ar : Archiver) : List Record → Tar.Output → Prop
 | nil : Laid ar [] ⟨[], 0, 0⟩
 | snoc {records : List Record} {t : Tar.Output} {e : Entry} {content blocks : Bytes}
   (before : Laid ar records t) (complete : t.left = 0)
   (offset : e.tarOffset = nextHeader (Int64.ofNat t.out.length))
   (fits : content.length ≤ (headerOf ar.opts e).payload)
   (encoded : ar.format.encode (headerOf ar.opts e) = .ok blocks)
   (digest : e.type = .regular → e.sha256 = hexEncode (sum256 content))
   (bare : e.type ≠ .regular → content = []) :
   Laid ar (records ++ [(e, content)])
    ⟨t.out ++ Tar.zeros t.pad ++ blocks ++ content, (headerOf ar.opts e).payload - content.length,
     Tar.padding (headerOf ar.opts e).payload⟩

variable {ar : Archiver} {records : List Record} {t : Tar.Output}

theorem digest_laid (laid : Laid ar records t) :
  ∀ r ∈ records, r.1.type = .regular → r.1.sha256 = hexEncode (sum256 r.2) := by
 induction laid with
 | nil => exact fun r inside => absurd inside List.not_mem_nil
 | snoc before complete offset fits encoded digest bare ih =>
  intro r inside
  rcases List.mem_append.mp inside with earlier | last
  · exact ih r earlier
  · rw [List.mem_singleton.mp last]
    exact digest

theorem length_laid (faithful : ar.format.Faithful) (laid : Laid ar records t) :
  records.length ≤ t.out.length := by
 induction laid with
 | nil => exact Nat.le_refl _
 | snoc before whole offset fits encoded digest bare ih =>
  have filled := faithful.filled encoded
  simp only [List.length_append, List.length_singleton]
  omega

def draftOf (opts : Options) : Step → Option Entry
 | .emit arcPath fsPath a st dirFile =>
  match draft opts arcPath fsPath a st dirFile with
  | .entry d _ _ => some d
  | _ => none
 | _ => none

def drafts (opts : Options) (steps : List Step) : List Entry := steps.filterMap (draftOf opts)

/-- What a recorded entry has from its draft. Only a regular file may have become a hard link. -/
structure Recorded (d e : Entry) : Prop where
 path : e.path = d.path
 mode : e.mode = d.mode
 modTime : e.modTime = d.modTime
 size : 0 ≤ e.size
 bare : e.type ≠ .regular → e.size = 0
 digest : e.type ≠ .regular → e.sha256 = []
 kind : (e.type = d.type ∧ e.linkTarget = d.linkTarget) ∨ (d.type = .regular ∧ e.type = .hardlink)

/-- A draft of the walk: what the switch sets is never a hard link, and only symbolic links have a
target. -/
structure Plain (d : Entry) : Prop where
 digest : d.sha256 = []
 notLink : d.type ≠ .hardlink
 target : d.type = .symlink → d.linkTarget ≠ []
 noTarget : d.type ≠ .symlink → d.linkTarget = []

section Recorded

variable {st : FileInfo} {d e : Entry} {p : Str} {links : List (HardlinkKey × Str)}

theorem recorded_finished (drafted : Drafted p st d)
  (finished : Finished (groupLinks st d links).1 e) : Recorded d e := by
 have zero : (0 : Int64) ≤ 0 := by decide
 have plain : Finished d e → Recorded d e := by
  intro same
  refine ⟨same.path, same.mode, same.modTime, ?_, ?_, ?_, .inl ⟨same.type, same.linkTarget⟩⟩
  · rcases same.size with found | none_left
    · rw [found]
      exact drafted.size
    · rw [none_left]
      exact zero
  · intro other
    rw [same.type] at other
    rcases same.size with found | none_left
    · rw [found, drafted.bare other]
    · exact none_left
  · intro other
    rw [same.digest other, drafted.digest]
 rcases groupLinks_cases st d links with alone | ⟨key, -, first⟩ | ⟨key, target, regular, -, link⟩
 · rw [alone] at finished
   exact plain finished
 · rw [first] at finished
   exact plain finished
 · rw [link] at finished
   have none_left : e.size = 0 := finished.size.elim id id
   refine ⟨finished.path, finished.mode, finished.modTime, ?_, fun _ => none_left, ?_,
    .inr ⟨regular, finished.type⟩⟩
   · rw [none_left]
     exact zero
   · intro other
     rw [finished.digest other]
     exact drafted.digest

theorem plain_drafted (drafted : Drafted p st d) : Plain d :=
 ⟨drafted.digest, drafted.notLink, drafted.target, drafted.noTarget⟩

end Recorded

structure Still (w w' : TarWriter) : Prop where
 tw : w'.tw = w.tw
 counters : w'.stats.counters = w.stats.counters
 entries : w'.entries = w.entries
 links : w'.links = w.links

theorem still_of_quiet {w w' : TarWriter} (quiet : Quiet w w') : Still w w' :=
 ⟨quiet.tw, quiet.counters, quiet.entries, quiet.links⟩

section Steps

variable {w w' : TarWriter}

variable {step : Step}

theorem perform_eq_done (well : perform ar step w = done w') :
  (draftOf ar.opts step = none ∧ Still w w') ∨
   ∃ p st d e content, draftOf ar.opts step = some d ∧ step.arcPath = some p ∧ Drafted p st d ∧
    Finished (groupLinks st d w.links).1 e ∧ Stored ar w e content w' ∧
    w'.links = (groupLinks st d w.links).2 := by
 cases step with
 | enter root =>
  rw [perform] at well
  split at well
  · exact absurd well stop_ne_done
  · rw [← done_inj.mp well]
    exact .inl ⟨rfl, rfl, rfl, rfl, rfl⟩
 | abort err => exact absurd well stop_ne_done
 | settle st =>
  rw [← done_inj.mp well]
  exact .inl ⟨rfl, rfl, rfl, rfl, rfl⟩
 | poll root cancelled =>
  cases cancelled with
  | none =>
   rw [← done_inj.mp well]
   exact .inl ⟨rfl, rfl, rfl, rfl, rfl⟩
  | some cause => exact absurd well stop_ne_done
 | skip =>
  rw [← done_inj.mp well]
  exact .inl ⟨rfl, still_of_quiet (quiet_skip w)⟩
 | fault err =>
  have quiet := quiet_handleWalkError w ar.opts err
  rw [show handleWalkError ar.opts err w = done w' from well] at quiet
  exact .inl ⟨rfl, still_of_quiet quiet⟩
 | emit arcPath fsPath a st dirFile =>
  rw [perform] at well
  rcases emitOne_eq_done well with ⟨none_drafted, quiet⟩ |
   ⟨d, lost, file, e, content, made, finished, stored, links⟩
  · refine .inl ⟨?_, still_of_quiet quiet⟩
    unfold draftOf
    dsimp only
    split
    · rename_i d lost file made
      exact absurd made (none_drafted d lost file)
    · rfl
  · refine .inr ⟨arcPath, st, d, e, content, ?_, rfl, drafted_of_draft made, finished,
     stored, links⟩
    simp only [draftOf, made]

structure Archived (ar : Archiver) (steps : List Step) (records : List Record) (w : TarWriter) :
  Prop where
 entries : w.entries = records.map Prod.fst
 laid : Laid ar records w.tw
 counters : w.stats.counters = tally records
 recorded : List.Forall₂ (fun d (r : Record) => Recorded d r.1) (drafts ar.opts steps) records
 plain : ∀ d ∈ drafts ar.opts steps, Plain d
 links : ∀ x ∈ w.links, x.2 ∈ w.entries.map Entry.path
 targets : ∀ e ∈ w.entries, e.type = .hardlink → e.linkTarget ∈ w.entries.map Entry.path

theorem archived_newWriter : Archived ar [] [] newWriter where
 entries := rfl
 laid := .nil
 counters := rfl
 recorded := .nil
 plain := fun _ inside => nomatch inside
 links := fun _ inside => nomatch inside
 targets := fun _ inside => nomatch inside

theorem drafts_snoc (opts : Options) (steps : List Step) (step : Step) :
  drafts opts (steps ++ [step]) = drafts opts steps ++ (draftOf opts step).toList := by
 rw [drafts, drafts, List.filterMap_append]
 cases made : draftOf opts step with
 | none => simp [made]
 | some d => simp [made]

variable {steps : List Step}

theorem archived_step {records : List Record}
  (archived : Archived ar steps records w) (well : perform ar step w = done w') :
  ∃ more, Archived ar (steps ++ [step]) more w' := by
 rcases perform_eq_done well with ⟨none_drafted, still⟩ |
  ⟨p, st, d, e, content, made, -, drafted, finished, stored, links⟩
 · have same : drafts ar.opts (steps ++ [step]) = drafts ar.opts steps := by
    rw [drafts_snoc, none_drafted]
    simp
   refine ⟨records, still.entries.trans archived.entries, ?_,
    still.counters.trans archived.counters, ?_, ?_, ?_, ?_⟩
   · rw [still.tw]
     exact archived.laid
   · rw [same]
     exact archived.recorded
   · rw [same]
     exact archived.plain
   · rw [still.links, still.entries]
     exact archived.links
   · rw [still.entries]
     exact archived.targets
 · have added : drafts ar.opts (steps ++ [step]) = drafts ar.opts steps ++ [d] := by
    rw [drafts_snoc, made]
    rfl
   have recorded := recorded_finished drafted finished
   have paths : w'.entries.map Entry.path = w.entries.map Entry.path ++ [d.path] := by
    rw [stored.entries, List.map_append, List.map_singleton, recorded.path]
   obtain ⟨blocks, encoded, tw⟩ := stored.tar
   refine ⟨records ++ [(e, content)], ?_, ?_, ?_, ?_, ?_, ?_, ?_⟩
   · rw [stored.entries, archived.entries]
     simp
   · rw [tw]
     exact .snoc archived.laid stored.complete stored.offset stored.fits encoded stored.digest
      stored.bare
   · rw [stored.counters, archived.counters, tally, tally, List.foldl_append]
     rfl
   · rw [added]
     exact List.rel_append archived.recorded (.cons recorded .nil)
   · rw [added]
     intro x inside
     rcases List.mem_append.mp inside with earlier | last
     · exact archived.plain x earlier
     · rw [List.mem_singleton.mp last]
       exact plain_drafted drafted
   · -- a new link leads to the path that was just recorded
     rw [paths, links]
     intro x inside
     rcases groupLinks_cases st d w.links with alone | ⟨key, -, first⟩ | ⟨key, target, -, -, link⟩
     · rw [alone] at inside
       exact List.mem_append_left _ (archived.links x inside)
     · rw [first] at inside
       rcases List.mem_cons.mp inside with rfl | earlier
       · exact List.mem_append_right _ List.mem_cons_self
       · exact List.mem_append_left _ (archived.links x earlier)
     · rw [link] at inside
       exact List.mem_append_left _ (archived.links x inside)
   · rw [paths]
     intro x inside isLink
     rw [stored.entries] at inside
     rcases List.mem_append.mp inside with earlier | last
     · exact List.mem_append_left _ (archived.targets x earlier isLink)
     · rw [List.mem_singleton.mp last] at isLink ⊢
       rcases groupLinks_cases st d w.links with
        alone | ⟨key, -, first⟩ | ⟨key, target, -, seen, link⟩
       · rw [alone] at finished
         exact absurd (finished.type.symm.trans isLink) drafted.notLink
       · rw [first] at finished
         exact absurd (finished.type.symm.trans isLink) drafted.notLink
       · rw [link] at finished
         rw [finished.linkTarget]
         exact List.mem_append_left _ (archived.links (key, target) seen)

theorem archived_addRoots {roots : List (Str × Tree)}
  (well : addRoots ar roots newWriter = done w) :
  ∃ records, Archived ar (schedule ar.opts none roots) records w := by
 rw [addRoots_eq] at well
 refine runAll_eq_done (P := fun steps v => ∃ records, Archived ar steps records v)
  ⟨[], archived_newWriter⟩ ?_ well
 rintro before step u v - ⟨records, archived⟩ called
 exact archived_step archived called

variable {opts : Options} {d : Entry}

theorem arcPath_of_draftOf (made : draftOf opts step = some d) : step.arcPath = some d.path := by
 cases step with
 | emit arcPath fsPath a st dirFile =>
  unfold draftOf at made
  dsimp only at made
  split at made
  · rename_i drafted
    cases made
    rw [(drafted_of_draft drafted).path]
    rfl
  · cases made
 | enter _ | abort _ | settle _ | poll _ _ | skip | fault _ => cases made

theorem arcPath_of_mem_drafts (inside : d ∈ drafts opts steps) :
  ∃ step ∈ steps, step.arcPath = some d.path := by
 obtain ⟨step, listed, made⟩ := List.mem_filterMap.mp inside
 exact ⟨step, listed, arcPath_of_draftOf made⟩

end Steps

def recordLength (ar : Archiver) (e : Entry) : Nat :=
 let h := headerOf ar.opts e
 let blocks := match ar.format.encode h with
  | .ok blocks => blocks.length
  | .error _ => 0
 blocks + h.payload + Tar.padding h.payload

def headerStart (ar : Archiver) (before : List Entry) : Nat := (before.map (recordLength ar)).sum

theorem headerStart_append (ar : Archiver) (before : List Entry) (e : Entry) :
  headerStart ar (before ++ [e]) = headerStart ar before + recordLength ar e := by
 simp [headerStart]

theorem headerStart_nil_lt {ar : Archiver} : (headerStart ar [] : Int) < bound := by
 change (0 : Int) < bound
 decide

theorem nextHeader_ofNat {n pad : Nat} (small : pad < 512) (whole : (n + pad) % 512 = 0) :
  nextHeader (Int64.ofNat n) = Int64.ofNat (n + pad) := by
 apply Int64.toBitVec_inj.mp
 have masked : (nextHeader (Int64.ofNat n)).toBitVec =
   (BitVec.ofNat 64 n + 511#64) &&& ~~~(BitVec.ofNat 64 (2 ^ 9 - 1)) := rfl
 have start : (Int64.ofNat (n + pad)).toBitVec = BitVec.ofNat 64 (n + pad) := rfl
 rw [masked, start, and_not_ones]
 apply BitVec.eq_of_toNat_eq
 simp only [BitVec.toNat_shiftLeft, BitVec.toNat_ushiftRight, BitVec.toNat_add, BitVec.toNat_ofNat,
  Nat.shiftRight_eq_div_pow, Nat.shiftLeft_eq]
 omega

theorem recordLength_encoded {e : Entry} {blocks : Bytes}
  (encoded : ar.format.encode (headerOf ar.opts e) = .ok blocks) :
  recordLength ar e = blocks.length + (headerOf ar.opts e).payload +
   Tar.padding (headerOf ar.opts e).payload := by
 simp only [recordLength, encoded]

theorem padding_lt (n : Nat) : Tar.padding n < 512 := Nat.mod_lt _ (by decide)

theorem payload_lt (h : Tar.Header) : (h.payload : Int) < bound := by
 have high := h.size.toInt_lt
 have clamp : h.size.toNatClampNeg = h.size.toInt.toNat := rfl
 unfold Tar.Header.payload bound
 split <;> omega

theorem recordLength_bounds (faithful : ar.format.Faithful) {e : Entry} {blocks : Bytes}
  (encoded : ar.format.encode (headerOf ar.opts e) = .ok blocks) :
  0 < recordLength ar e ∧ (recordLength ar e : Int) < 2 * bound := by
 have filled := faithful.filled encoded
 have bounded := faithful.bounded encoded
 have payload := payload_lt (headerOf ar.opts e)
 have pad := padding_lt (headerOf ar.opts e).payload
 rw [recordLength_encoded encoded]
 unfold bound at *
 omega

structure Between (ar : Archiver) (records : List Record) (t : Tar.Output) : Prop where
 position : t.out.length + t.pad = headerStart ar (records.map Prod.fst)
 small : t.pad < 512
 whole : (t.out.length + t.pad) % 512 = 0

section

variable (faithful : ar.format.Faithful) (laid : Laid ar records t)

include faithful laid

theorem between_laid (complete : t.left = 0) : Between ar records t := by
 induction laid with
 | nil => exact ⟨rfl, by decide, rfl⟩
 | @snoc records t e content blocks before whole offset fits encoded digest bare ih =>
  have sofar := ih whole
  have position := sofar.position
  have aligned := sofar.whole
  have blocksWhole := faithful.whole encoded
  have full : content.length = (headerOf ar.opts e).payload := by
   dsimp only at complete
   omega
  have zeros : (Tar.zeros t.pad).length = t.pad := List.length_replicate
  refine ⟨?_, padding_lt _, ?_⟩
  · rw [List.map_append, List.map_singleton, headerStart_append, recordLength_encoded encoded]
    simp only [List.length_append, zeros]
    omega
  · have padded : ((headerOf ar.opts e).payload + Tar.padding (headerOf ar.opts e).payload) % 512 =
      0 := by
     unfold Tar.padding
     omega
    simp only [List.length_append, zeros]
    omega

theorem offset_laid (complete : t.left = 0) :
  nextHeader (Int64.ofNat t.out.length) = Int64.ofNat (headerStart ar (records.map Prod.fst)) := by
 have between := between_laid faithful laid complete
 rw [nextHeader_ofNat between.small between.whole, between.position]

theorem offsets_before : ∀ e ∈ records.map Prod.fst,
  ∃ start < headerStart ar (records.map Prod.fst),
   e.tarOffset = Int64.ofNat start := by
 induction laid with
 | nil => exact fun _ inside => nomatch inside
 | @snoc records t e content blocks before whole offset fits encoded digest bare ih =>
  have filled := (recordLength_bounds faithful encoded).1
  intro e' inside
  rw [List.map_append, List.map_singleton] at inside ⊢
  rw [headerStart_append]
  rcases List.mem_append.mp inside with earlier | last
  · obtain ⟨start, less, is⟩ := ih e' earlier
    exact ⟨start, by omega, is⟩
  · rw [List.mem_singleton.mp last, offset, offset_laid faithful before whole]
    exact ⟨_, Nat.lt_add_of_pos_right filled, rfl⟩

end

structure Growing (entries : List Entry) : Prop where
 nonneg : ∀ e ∈ entries, 0 ≤ e.tarOffset
 growing : entries.Pairwise fun a b => a.tarOffset < b.tarOffset

theorem growing_snoc {entries : List Entry} {e : Entry} : Growing (entries ++ [e]) ↔
   Growing entries ∧ 0 ≤ e.tarOffset ∧ ∀ x ∈ entries, x.tarOffset < e.tarOffset := by
 constructor
 · intro all
   have parts := List.pairwise_append.mp all.growing
   refine ⟨⟨fun x inside => all.nonneg x (List.mem_append_left _ inside), parts.1⟩,
    all.nonneg e (List.mem_append_right _ (List.mem_singleton.mpr rfl)), ?_⟩
   exact fun x inside => parts.2.2 x inside e (List.mem_singleton.mpr rfl)
 · rintro ⟨sofar, nonneg, less⟩
   constructor
   · intro x inside
     rcases List.mem_append.mp inside with earlier | last
     · exact sofar.nonneg x earlier
     · rw [List.mem_singleton.mp last]
       exact nonneg
   · refine List.pairwise_append.mpr ⟨sofar.growing, List.pairwise_singleton _ _, ?_⟩
     intro x inside y last
     rw [List.mem_singleton.mp last]
     exact less x inside

theorem headerStart_dropLast_le (ar : Archiver) (entries : List Entry) :
  headerStart ar entries.dropLast ≤ headerStart ar entries := by
 rcases List.eq_nil_or_concat' entries with rfl | ⟨before, e, rfl⟩
 · exact Nat.le_refl _
 · rw [List.dropLast_concat, headerStart_append]
   exact Nat.le_add_right _ _

/-- The recorded offsets grow exactly when the last header starts below the signed bound: no record
is as long as a whole turn, so that a wrap shows. -/
theorem growing_iff (faithful : ar.format.Faithful) (laid : Laid ar records t) :
  Growing (records.map Prod.fst) ↔
   (headerStart ar (records.map Prod.fst).dropLast : Int) < bound := by
 induction laid with
 | nil =>
  have empty : Growing [] := ⟨fun e inside => absurd inside List.not_mem_nil, List.Pairwise.nil⟩
  exact iff_of_true empty headerStart_nil_lt
 | @snoc records t e content blocks before whole offset fits encoded digest bare ih =>
  have here : e.tarOffset = Int64.ofNat (headerStart ar (records.map Prod.fst)) :=
   offset.trans (offset_laid faithful before whole)
  rw [List.map_append, List.map_singleton, List.dropLast_concat, growing_snoc, ih]
  constructor
  · rintro ⟨small, nonneg, less⟩
    cases before with
    | nil => exact headerStart_nil_lt
    | @snoc records t x _ _ earlier done_ offset' _ encoded' _ _ =>
     rw [List.map_append, List.map_singleton] at here less small ⊢
     rw [List.dropLast_concat] at small
     rw [headerStart_append] at here ⊢
     have grows := less x (List.mem_append_right _ (List.mem_singleton.mpr rfl))
     rw [here] at nonneg grows
     rw [offset', offset_laid faithful earlier done_] at grows
     exact add_lt_bound_of_grows small (recordLength_bounds faithful encoded').2 nonneg grows
  · intro small
    have shorter := headerStart_dropLast_le ar (records.map Prod.fst)
    refine ⟨by omega, ?_, ?_⟩
    · rw [here, Int64.le_iff_toInt_le, toInt_ofNat_of_lt small]
      exact Int.natCast_nonneg _
    · intro x inside
      obtain ⟨start, less, is⟩ := offsets_before faithful before x inside
      rw [is, here]
      exact ofNat_lt_ofNat small less

end BackImage.Archive.Layout
