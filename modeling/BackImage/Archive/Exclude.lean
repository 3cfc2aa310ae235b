/- source: pkg/archive/writer.go, pkg/index/lookup.go
  digest: What an exclude pattern leaves out of an archive, and what it drops from an index. -/

import BackImage.Archive.PathGlob

namespace BackImage.Archive.Exclude

open PathGlob Go.Path Go.Text Index.Model
open Go.Glob (plain)

def spelled (arcPath pat : Str) : Bool :=
 arcPath = trimmed pat || hasPrefix arcPath (trimmed pat ++ [slash])

def excludedBy (patterns : List Str) (arcPath : Str) : Bool :=
 patterns.any fun pat => globMatch pat arcPath || spelled arcPath pat

def archived (excludes : List Str) (tree : FileIndex) : List FileEntry :=
 tree.entries.filter fun e => !excludedBy excludes e.path

section Meaning

variable {pats : List Str} {p : Str}

theorem excludedBy_iff : excludedBy pats p = true ↔
   (∃ pat ∈ pats, globMatch pat p = true) ∨ ∃ pat ∈ pats, spelled p pat = true := by
 simp only [excludedBy, List.any_eq_true, Bool.or_eq_true]
 constructor
 · rintro ⟨pat, listed, here | literal⟩
   · exact .inl ⟨pat, listed, here⟩
   · exact .inr ⟨pat, listed, literal⟩
 · rintro (⟨pat, listed, here⟩ | ⟨pat, listed, literal⟩)
   · exact ⟨pat, listed, .inl here⟩
   · exact ⟨pat, listed, .inr literal⟩

theorem spelled_plain {pat : Str} (tidy : CleanRelative p) (literal : plain pat = true) :
  spelled p pat = true ↔ globMatch pat p = true ∨ ∃ a ∈ dirs p, globMatch pat a = true := by
 have below : hasPrefix p (trimmed pat ++ [slash]) = true ↔ trimmed pat ∈ dirs p := by
  rw [mem_dirs_iff tidy, hasPrefix, List.isPrefixOf_iff_prefix]
 unfold spelled
 rw [Bool.or_eq_true, below, globMatch_plain literal, decide_eq_true_eq]
 constructor
 · rintro (same | above)
   · exact .inl same
   · exact .inr ⟨trimmed pat, above, by rw [globMatch_plain literal]; simp⟩
 · rintro (same | ⟨a, above, matches_⟩)
   · exact .inl same
   · rw [globMatch_plain literal, decide_eq_true_eq] at matches_
     exact .inr (matches_ ▸ above)

/-- A pattern matches the path itself, or a plain one spells the path or a directory above it. -/
def Decided (pats : List Str) (p : Str) : Prop :=
 (∃ pat ∈ pats, globMatch pat p = true) ∨ ∃ pat ∈ pats, plain pat = true ∧ spelled p pat = true

/-- The path is decided, or no pattern with wildcards matches a directory above it and the path
neither is nor lies below the spelling of one. -/
def Settled (pats : List Str) (p : Str) : Prop :=
 Decided pats p ∨
  ∀ pat ∈ pats, plain pat = false → spelled p pat = false ∧ ∀ a ∈ dirs p, globMatch pat a = false

instance : Decidable (Settled pats p) := by
 unfold Settled Decided
 infer_instance

theorem agree_of_decided (tidy : CleanRelative p) (decided : Decided pats p) :
  excludedBy pats p = true ∧ matchAnyEntry p pats = true := by
 rw [excludedBy_iff, matchAnyEntry_iff]
 rcases decided with here | ⟨pat, listed, literal, spells⟩
 · exact ⟨.inl here, .inl here⟩
 · refine ⟨.inr ⟨pat, listed, spells⟩, ?_⟩
   rcases (spelled_plain tidy literal).mp spells with same | ancestor
   · exact .inl ⟨pat, listed, same⟩
   · exact .inr ⟨pat, listed, ancestor⟩

-- an undecided path is judged by the patterns with wildcards alone, on either side
theorem excludedBy_undecided (undecided : ¬ Decided pats p) : excludedBy pats p = true ↔
   ∃ pat ∈ pats, plain pat = false ∧ spelled p pat = true := by
 rw [excludedBy_iff]
 constructor
 · rintro (here | ⟨pat, listed, spells⟩)
   · exact absurd (.inl here) undecided
   · cases literal : plain pat with
     | true => exact absurd (.inr ⟨pat, listed, literal, spells⟩) undecided
     | false => exact ⟨pat, listed, literal, spells⟩
 · rintro ⟨pat, listed, -, spells⟩
   exact .inr ⟨pat, listed, spells⟩

theorem matchAnyEntry_undecided (tidy : CleanRelative p) (undecided : ¬ Decided pats p) :
  matchAnyEntry p pats = true ↔
   ∃ pat ∈ pats, plain pat = false ∧ ∃ a ∈ dirs p, globMatch pat a = true := by
 rw [matchAnyEntry_iff]
 constructor
 · rintro (here | ⟨pat, listed, ancestor⟩)
   · exact absurd (.inl here) undecided
   · cases literal : plain pat with
     | true =>
      have spells := (spelled_plain tidy literal).mpr (.inr ancestor)
      exact absurd (.inr ⟨pat, listed, literal, spells⟩) undecided
     | false => exact ⟨pat, listed, literal, ancestor⟩
 · rintro ⟨pat, listed, -, ancestor⟩
   exact .inr ⟨pat, listed, ancestor⟩

theorem agree_of_settled (tidy : CleanRelative p) (settled : Settled pats p) :
  excludedBy pats p = matchAnyEntry p pats := by
 by_cases decided : Decided pats p
 · obtain ⟨excluded, dropped⟩ := agree_of_decided tidy decided
   rw [excluded, dropped]
 · have quiet := settled.resolve_left decided
   rw [Bool.eq_iff_iff, excludedBy_undecided decided, matchAnyEntry_undecided tidy decided]
   refine iff_of_false ?_ ?_
   · rintro ⟨pat, listed, wild, spells⟩
     exact Bool.false_ne_true ((quiet pat listed wild).1.symm.trans spells)
   · rintro ⟨pat, listed, wild, a, above, matched⟩
     exact Bool.false_ne_true (((quiet pat listed wild).2 a above).symm.trans matched)

theorem settled_of_agree (tidy : CleanRelative p)
  (unspelled : ∀ pat ∈ pats, plain pat = false → spelled p pat = false)
  (agree : excludedBy pats p = matchAnyEntry p pats) : Settled pats p := by
 by_cases decided : Decided pats p
 · exact .inl decided
 · refine .inr fun pat listed wild => ⟨unspelled pat listed wild, fun a above => ?_⟩
   rw [Bool.eq_iff_iff, excludedBy_undecided decided, matchAnyEntry_undecided tidy decided] at agree
   by_contra matched
   obtain ⟨other, listed', wild', spells⟩ :=
    agree.mpr ⟨pat, listed, wild, a, above, by simpa using matched⟩
   exact Bool.false_ne_true ((unspelled other listed' wild').symm.trans spells)

/-- An archive built with the patterns holds what the patterns leave of the full index when every
path of the tree is settled, and only then where no path spells a pattern with wildcards. -/
theorem one_meaning {tree : FileIndex} (accepted : validate [[], pats] = .ok ())
  (tidy : ∀ e ∈ tree.entries, CleanRelative e.path) :
  ((∀ e ∈ tree.entries, Settled pats e.path) →
    entriesMatching (some tree) [] pats = .ok (archived pats tree)) ∧
   ((∀ e ∈ tree.entries, ∀ pat ∈ pats, plain pat = false → spelled e.path pat = false) →
    entriesMatching (some tree) [] pats = .ok (archived pats tree) →
     ∀ e ∈ tree.entries, Settled pats e.path) := by
 have kept : entriesMatching (some tree) [] pats =
   .ok (tree.entries.filter fun e => !matchAnyEntry e.path pats) := by
  unfold entriesMatching
  rw [accepted]
  simp [selects]
 rw [kept, Except.ok.injEq, archived]
 constructor
 · intro settled
   refine List.filter_congr ?_
   intro e listed
   rw [agree_of_settled (tidy e listed) (settled e listed)]
 · intro unspelled same e listed
   refine settled_of_agree (tidy e listed) (unspelled e listed) ?_
   have both : e ∈ tree.entries.filter (fun e => !matchAnyEntry e.path pats) ↔
     e ∈ tree.entries.filter (fun e => !excludedBy pats e.path) := by
    rw [same]
   simp only [List.mem_filter, listed, true_and] at both
   cases excluded : excludedBy pats e.path <;> cases dropped : matchAnyEntry e.path pats <;>
    simp [excluded, dropped] at both ⊢

end Meaning

def fileAt (path : String) : FileEntry := { (default : FileEntry) with path := lit path }

def cacheTree : FileIndex := ⟨1, [fileAt "app.cache", fileAt "app.cache/token"]⟩

/-- The file below the excluded directory goes into the archive, but is dropped from the index. -/
theorem wildcard_directory_diverges :
  validate [[], [lit "*.cache"]] = .ok () ∧ (∀ e ∈ cacheTree.entries, CleanRelative e.path) ∧
   archived [lit "*.cache"] cacheTree = [fileAt "app.cache/token"] ∧
   entriesMatching (some cacheTree) [] [lit "*.cache"] = .ok [] := by
 exact ⟨by decide +kernel, by decide +kernel, by decide +kernel, by decide +kernel⟩

def mixedTree : FileIndex :=
 ⟨1, [fileAt "app.cache", fileAt "app.cache/token", fileAt "run.log", fileAt "notes/today"]⟩

/-- A plain pattern leaves out the directory and what is below it, a wildcard the file it
matches. -/
theorem plain_directory_agrees :
  entriesMatching (some mixedTree) [] [lit "app.cache", lit "*.log"] =
    .ok (archived [lit "app.cache", lit "*.log"] mixedTree) ∧
   archived [lit "app.cache", lit "*.log"] mixedTree = [fileAt "notes/today"] := by
 refine ⟨(one_meaning (by decide +kernel) (by decide +kernel)).1 ?_, by decide +kernel⟩
 decide +kernel

end BackImage.Archive.Exclude
