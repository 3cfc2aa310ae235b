/- source: pkg/archive/selection.go, pkg/archive/extract_unix.go
  digest: The names that an extraction creates are made of ordinary segments. -/

import BackImage.Archive.Extract

namespace BackImage.Archive.EntryNames

open Extract Go.Path Go.Text
open Go.Tar (Header)

/-- A segment that a clean path may have; `..` is one. -/
structure Solid (x : Str) : Prop where
 filled : x ≠ []
 notDot : x ≠ dot
 single : slash ∉ x

section Clean

variable {rooted : Bool} {kept segments : List Str} {seg x : Str}

theorem mem_cleanStep_solid (member : x ∈ cleanStep rooted kept seg) :
  x ∈ kept ∨ (x = seg ∧ seg ≠ [] ∧ seg ≠ dot) := by
 unfold cleanStep at member
 grind

theorem mem_foldl_cleanStep (member : x ∈ segments.foldl (cleanStep rooted) kept) :
  x ∈ kept ∨ (x ∈ segments ∧ x ≠ [] ∧ x ≠ dot) := by
 induction segments generalizing kept with
 | nil => exact .inl member
 | cons s rest ih =>
  rcases ih member with early | ⟨later, solid⟩
  · rcases mem_cleanStep_solid early with before | ⟨rfl, solid⟩
    · exact .inl before
    · exact .inr ⟨List.mem_cons_self, solid⟩
  · exact .inr ⟨List.mem_cons_of_mem s later, solid⟩

theorem clean_cases (p : Str) : clean p = dot ∨ ∃ segments : List Str, (∀ x ∈ segments, Solid x) ∧
   ((segments ≠ [] ∧ clean p = join slash segments) ∨ clean p = slash :: join slash segments) := by
 unfold clean
 split
 · exact .inl rfl
 · dsimp only
   have solid :
    ∀ x ∈ ((split slash p).foldl (cleanStep (decide (p.head? = some slash))) []).reverse,
     Solid x := by
    intro x member
    rcases mem_foldl_cleanStep (List.mem_reverse.mp member) with nothing | ⟨listed, filled, notDot⟩
    · cases nothing
    · exact ⟨filled, notDot, not_mem_of_mem_split listed⟩
   split
   · exact .inr ⟨_, solid, .inr rfl⟩
   · split
     · exact .inl rfl
     · rename_i some_kept
       exact .inr ⟨_, solid, .inl ⟨some_kept, rfl⟩⟩

end Clean

section Strip

variable {segments : List Str} {name : Str}

theorem split_solid (filled : segments ≠ []) (solid : ∀ x ∈ segments, Solid x) :
  split slash (join slash segments) = segments :=
 split_join filled fun x inside => (solid x inside).single

theorem dropWhile_slash {s : Str} (other : s.head? ≠ some slash) :
  s.dropWhile (fun c => decide (c = slash)) = s := by
 cases s with
 | nil => rfl
 | cons c rest =>
  apply List.dropWhile_cons_of_neg
  intro same
  exact other (congrArg some (of_decide_eq_true same))

theorem trimSlashes_join (filled : segments ≠ []) (solid : ∀ x ∈ segments, Solid x) :
  trimSlashes (join slash segments) = join slash segments := by
 have parts := split_solid filled solid
 have noEmpty : [] ∉ split slash (join slash segments) := by
  rw [parts]
  exact fun inside => (solid [] inside).filled rfl
 have front : (join slash segments).head? ≠ some slash := by
  intro starts
  obtain ⟨rest, is⟩ := List.head?_eq_some_iff.mp starts
  rw [is, split_sep_cons] at noEmpty
  exact noEmpty List.mem_cons_self
 have back : (join slash segments).reverse.head? ≠ some slash := by
  intro ends
  rw [List.head?_reverse, List.getLast?_eq_some_iff] at ends
  obtain ⟨rest, is⟩ := ends
  rw [is, split_concat_slash] at noEmpty
  exact noEmpty (List.mem_append_right _ List.mem_cons_self)
 rw [trimSlashes, dropWhile_slash front, dropWhile_slash back, List.reverse_reverse]

theorem trimSlashes_cons (s : Str) : trimSlashes (slash :: s) = trimSlashes s := by
 rw [trimSlashes, trimSlashes]
 rfl

theorem join_append {before after : List Str} (first : before ≠ []) (second : after ≠ []) :
  join slash (before ++ after) = join slash before ++ slash :: join slash after := by
 induction before with
 | nil => exact absurd rfl first
 | cons s rest ih =>
  by_cases single : rest = []
  · rw [single, List.singleton_append, join_cons s second]
    rfl
  · rw [List.cons_append, join_cons s (by simp [single]), join_cons s single, ih single,
     List.append_assoc, List.cons_append]

theorem noUp_of_safe (safe : safePath name = true) : dotDot ∉ split slash name := by
 intro inside
 obtain ⟨before, after, parts⟩ := List.append_of_mem inside
 have text : name = join slash (before ++ dotDot :: after) := by rw [← parts, join_split]
 have rest_join : after ≠ [] → join slash (dotDot :: after) = dotDot ++ slash :: join slash after :=
  fun more => join_cons dotDot more
 simp only [safePath, Bool.not_eq_true', Bool.or_eq_false_iff] at safe
 obtain ⟨⟨⟨⟨⟨⟨-, -⟩, notUp⟩, -⟩, front⟩, middle⟩, back⟩ := safe
 by_cases first : before = []
 · rw [first, List.nil_append] at text
   by_cases last : after = []
   · rw [last] at text
     rw [text] at notUp
     exact absurd notUp (by decide)
   · rw [rest_join last] at text
     have starts : hasPrefix name (lit "../") = true := by
      rw [text]
      exact List.isPrefixOf_iff_prefix.mpr ⟨join slash after, rfl⟩
     rw [starts] at front
     cases front
 · rw [join_append first (List.cons_ne_nil _ _)] at text
   by_cases last : after = []
   · rw [last] at text
     have ends : hasSuffix name (lit "/..") = true := by
      rw [text]
      exact List.isSuffixOf_iff_suffix.mpr ⟨join slash before, rfl⟩
     rw [ends] at back
     cases back
   · rw [rest_join last] at text
     have within : contains name (lit "/../") = true := by
      refine List.any_eq_true.mpr ⟨slash :: (dotDot ++ slash :: join slash after), ?_, ?_⟩
      · rw [List.mem_tails, text]
        exact List.suffix_append _ _
      · exact List.isPrefixOf_iff_prefix.mpr ⟨join slash after, rfl⟩
     rw [within] at middle
     cases middle

section

variable {count : Int} {p : Str} (stripped : stripComponents (clean p) count = some name)
 (safe : safePath name = true)

include stripped safe

theorem solid_of_strip : ∀ x ∈ split slash name, Solid x := by
 simp only [safePath, Bool.not_eq_true', Bool.or_eq_false_iff] at safe
 obtain ⟨⟨⟨⟨⟨⟨-, notDot⟩, -⟩, relative⟩, -⟩, -⟩, -⟩ := safe
 unfold stripComponents at stripped
 split at stripped
 · split at stripped
   · cases stripped
   · rw [← Option.some.inj stripped] at notDot relative ⊢
     rcases clean_cases p with isDot | ⟨segments, solid, ⟨filled, is⟩ | is⟩
     · rw [isDot] at notDot
       exact absurd notDot (by decide)
     · rw [is, split_solid filled solid]
       exact solid
     · rw [is] at relative
       cases relative
 · rename_i positive
   dsimp only at stripped
   split at stripped
   · cases stripped
   · rename_i long
     have short : ∀ s : Str, slash ∉ s → split slash (trimSlashes (clean p)) = [s] → False := by
      intro s _ single
      rw [single, List.length_singleton] at long
      omega
     have name_eq := Option.some.inj stripped
     obtain ⟨segments, filled, solid, parts⟩ : ∃ segments : List Str, segments ≠ [] ∧
       (∀ x ∈ segments, Solid x) ∧ split slash (trimSlashes (clean p)) = segments := by
      rcases clean_cases p with isDot | ⟨segments, solid, ⟨filled, is⟩ | is⟩
      · rw [isDot] at short
        exact absurd (by decide) (short dot (by decide))
      · refine ⟨segments, filled, solid, ?_⟩
        rw [is, trimSlashes_join filled solid, split_solid filled solid]
      · by_cases filled : segments = []
        · rw [is, filled] at short
          exact absurd (by decide) (short [] (by decide))
        · refine ⟨segments, filled, solid, ?_⟩
          rw [is, trimSlashes_cons, trimSlashes_join filled solid, split_solid filled solid]
     rw [parts] at name_eq long
     have rest_solid : ∀ x ∈ segments.drop count.toNat, Solid x :=
      fun x inside => solid x (List.mem_of_mem_drop inside)
     have rest_filled : segments.drop count.toNat ≠ [] := by
      intro empty
      rw [List.drop_eq_nil_iff] at empty
      omega
     rw [← name_eq, split_solid rest_filled rest_solid]
     exact rest_solid

theorem ordinary_of_strip : ∀ x ∈ split slash name, Ordinary x := by
 intro x inside
 have solid := solid_of_strip stripped safe x inside
 refine ⟨solid.filled, solid.single, solid.notDot, ?_⟩
 rintro rfl
 exact noUp_of_safe safe inside

end

end Strip

theorem ordinary_of_create {opts : ExtractOptions} {h made : Header}
  (creates : treat opts h = .create made) : ∀ x ∈ split slash made.name, Ordinary x := by
 unfold treat at creates
 grind [treat, checked, ordinary_of_strip]

end BackImage.Archive.EntryNames
