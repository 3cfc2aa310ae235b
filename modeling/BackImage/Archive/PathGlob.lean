/- source: internal/pathglob/pathglob.go, pkg/index/lookup.go
  digest: Globs over slash-separated archive paths, and the entries of an index that they select. -/

import BackImage.Go.Glob
import BackImage.Go.Path
import BackImage.Index.Model

namespace BackImage.Archive.PathGlob

open Go.Glob Go.Path Go.Text Index.Model

def anyDepth : Str := [star, star]

def matchParts : List Str → List Str → Bool
 | [], n => n = []
 | p :: ps, n =>
  if p = anyDepth then n.tails.any fun rest => matchParts ps rest
  else
   match n with
   | [] => false
   | s :: rest => matchPath p s = some true && matchParts ps rest

/-- `strings.TrimSuffix(pat, "/")`. -/
def trimmed (pat : Str) : Str := trimSuffix pat [slash]

/-- `Match`. -/
def globMatch (pat name : Str) : Bool :=
 if trimmed pat = [] then name = []
 else matchParts (split slash (trimmed pat)) (split slash name)

/-- A segment `Validate` lets pass. -/
def validSegment (seg : Str) : Bool := seg = anyDepth || (matchPath seg (lit "x")).isSome

def validate (groups : List (List Str)) : Except Str Unit :=
 match groups.flatten.find? fun pat => !(split slash (trimmed pat)).all validSegment with
 | some pat => .error pat
 | none => .ok ()

section Plain

variable {pat : Str}

theorem plain_of_subset {s t : Str} (p : plain t = true) (sub : ∀ c ∈ s, c ∈ t) :
  plain s = true := by
 unfold plain at p ⊢
 rw [List.all_eq_true] at p ⊢
 intro c member
 exact p c (sub c member)

theorem plain_trimmed (p : plain pat = true) : plain (trimmed pat) = true := by
 refine plain_of_subset p ?_
 intro c member
 unfold trimmed trimSuffix at member
 split at member
 · exact List.mem_of_mem_take member
 · exact member

theorem plain_ne_anyDepth {seg : Str} (p : plain seg = true) : seg ≠ anyDepth := by
 rintro rfl
 exact absurd p (by decide)

theorem matchParts_plain {segments : List Str} (p : ∀ s ∈ segments, plain s = true)
  (names : List Str) : matchParts segments names = decide (segments = names) := by
 induction segments generalizing names with
 | nil => simp [matchParts, eq_comm]
 | cons s segments ih =>
  have here := p s List.mem_cons_self
  rw [matchParts.eq_def]
  dsimp only
  rw [if_neg (plain_ne_anyDepth here)]
  cases names with
  | nil => simp
  | cons t names =>
   dsimp only
   rw [ih (fun x member => p x (List.mem_cons_of_mem s member)), matchPath_plain here]
   simp

theorem globMatch_plain (p : plain pat = true) (name : Str) :
  globMatch pat name = decide (name = trimmed pat) := by
 have inner := plain_trimmed p
 unfold globMatch
 by_cases empty : trimmed pat = []
 · rw [if_pos empty, empty]
 · rw [if_neg empty, matchParts_plain fun s member =>
    plain_of_subset inner fun c inside => mem_of_mem_split member inside]
   rw [decide_eq_decide]
   exact ⟨fun same => (split_injective same).symm, fun same => by rw [same]⟩

end Plain

def Takes (p : Str) (block : List Str) : Prop :=
 p = anyDepth ∨ ∃ s, block = [s] ∧ matchPath p s = some true

/-- The name segments split into consecutive blocks, one for each pattern segment. -/
def Splits (p n : List Str) : Prop := ∃ blocks : List (List Str), List.Forall₂ Takes p blocks ∧
  blocks.flatten = n

theorem splits_anyDepth {p n : List Str} : Splits (anyDepth :: p) n ↔ ∃ rest, rest <:+ n ∧
  Splits p rest := by
 constructor
 · rintro ⟨blocks, taken, rfl⟩
   cases taken with
   | cons _ later => exact ⟨_, List.suffix_append _ _, _, later, rfl⟩
 · rintro ⟨rest, ⟨front, rfl⟩, blocks, taken, rfl⟩
   exact ⟨front :: blocks, .cons (.inl rfl) taken, rfl⟩

theorem splits_cons {seg : Str} {p n : List Str} (one : seg ≠ anyDepth) : Splits (seg :: p) n ↔
   ∃ s rest, n = s :: rest ∧ matchPath seg s = some true ∧ Splits p rest := by
 constructor
 · rintro ⟨blocks, taken, rfl⟩
   cases taken with
   | cons first later =>
    rcases first with any | ⟨s, rfl, accepted⟩
    · exact absurd any one
    · exact ⟨s, _, rfl, accepted, _, later, rfl⟩
 · rintro ⟨s, rest, rfl, accepted, blocks, taken, rfl⟩
   exact ⟨[s] :: blocks, .cons (.inr ⟨s, rfl, accepted⟩) taken, rfl⟩

theorem matchParts_iff (p n : List Str) : matchParts p n = true ↔ Splits p n := by
 induction p generalizing n with
 | nil =>
  rw [matchParts, decide_eq_true_iff]
  constructor
  · rintro rfl
    exact ⟨[], .nil, rfl⟩
  · rintro ⟨blocks, taken, rfl⟩
    cases taken
    rfl
 | cons seg p ih =>
  rw [matchParts.eq_def]
  dsimp only
  by_cases any : seg = anyDepth
  · subst any
    rw [if_pos rfl, splits_anyDepth, List.any_eq_true]
    simp only [List.mem_tails, ih]
  · rw [if_neg any, splits_cons any]
    cases n with
    | nil => simp
    | cons s rest => simp [ih]

/-- A pattern matches a name exactly when its segments, one trailing slash apart, can share the
name's segments out among them. -/
theorem globMatch_iff_splits (pat name : Str) :
  (globMatch pat name = true ↔ Splits (split slash (trimmed pat)) (split slash name)) ∧
   (globMatch [] name = true ↔ name = []) := by
 refine ⟨?_, by simp [globMatch, trimmed, trimSuffix]⟩
 rw [← matchParts_iff]
 unfold globMatch
 by_cases empty : trimmed pat = []
 · -- the early return agrees with the single empty segment of an empty pattern
   rw [if_pos empty, empty, matchParts_plain (by decide)]
   rw [decide_eq_true_iff, decide_eq_true_iff]
   exact ⟨fun same => by rw [same], fun same => (split_injective same).symm⟩
 · rw [if_neg empty]

inductive LookupError
 | nilIndex
 | badGlob (pat : Str)
 deriving DecidableEq

def entryMatches (path pat : Str) : Bool := globMatch pat path || (dirs path).any (globMatch pat)

def matchAnyEntry (path : Str) (pats : List Str) : Bool := pats.any (entryMatches path)

/-- What `EntriesMatching` keeps. -/
def selects (includes excludes : List Str) (path : Str) : Bool :=
 (includes.isEmpty || matchAnyEntry path includes) && !matchAnyEntry path excludes

def entriesMatching (idx : Option FileIndex) (includes excludes : List Str) :
  Except LookupError (List FileEntry) :=
 match idx with
 | none => .error .nilIndex
 | some idx =>
  match validate [includes, excludes] with
  | .error pat => .error (.badGlob pat)
  | .ok () => .ok (idx.entries.filter fun e => selects includes excludes e.path)

theorem matchAnyEntry_iff {path : Str} {pats : List Str} : matchAnyEntry path pats = true ↔
   (∃ pat ∈ pats, globMatch pat path = true) ∨
    ∃ pat ∈ pats, ∃ a ∈ dirs path, globMatch pat a = true := by
 simp only [matchAnyEntry, entryMatches, List.any_eq_true, Bool.or_eq_true]
 constructor
 · rintro ⟨pat, listed, here | above⟩
   · exact .inl ⟨pat, listed, here⟩
   · exact .inr ⟨pat, listed, above⟩
 · rintro (⟨pat, listed, here⟩ | ⟨pat, listed, above⟩)
   · exact ⟨pat, listed, .inl here⟩
   · exact ⟨pat, listed, .inr above⟩

end BackImage.Archive.PathGlob
