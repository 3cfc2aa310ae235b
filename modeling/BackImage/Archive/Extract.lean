/- source: pkg/archive/selection.go, pkg/archive/extract_unix.go
  digest: Which records of a tar stream an extraction sets out to create. -/

import BackImage.Archive.PathGlob
import BackImage.Go.Tar

namespace BackImage.Archive.Extract

open PathGlob Go.Path Go.Text
open Go.Tar (Header trailer)

structure ExtractOptions where
 overwrite : Bool
 strict : Bool
 includes : List Str
 excludes : List Str
 stripComponents : Int
 deriving DecidableEq

def patternSelects (pat name : Str) : Bool :=
 globMatch pat name ||
  (hasSuffix pat [slash] && hasPrefix name (trimSuffix pat [slash] ++ [slash]))

def selects (opts : ExtractOptions) (name : Str) : Bool :=
 (opts.includes.isEmpty || opts.includes.any (patternSelects · name)) &&
  !opts.excludes.any (patternSelects · name)

/-- `strings.Trim(name, "/")`. -/
def trimSlashes (name : Str) : Str :=
 ((name.dropWhile (· = slash)).reverse.dropWhile (· = slash)).reverse

def stripComponents (name : Str) (count : Int) : Option Str :=
 if count ≤ 0 then if name = [] then none else some name
 else
  let parts := split slash (trimSlashes name)
  if (parts.length : Int) ≤ count then none else some (join slash (parts.drop count.toNat))

/-- `checkArchivePath` accepts the name. -/
def safePath (name : Str) : Bool :=
 !(name = [] || name = lit "." || name = lit ".." || hasPrefix name (lit "/") ||
  hasPrefix name (lit "../") || contains name (lit "/../") || hasSuffix name (lit "/.."))

/-- `archive/tar`: the headers `Next` returns over a stream and the error it ends with. Complete
records, and the front of a stream of them, are read in order. -/
structure TarReader where
 read : Bytes → List Header × Option Str
 Record : Header → Bytes → Prop
 front : ∀ {hs : List Header} {rs : List Bytes} {w : Bytes}, List.Forall₂ Record hs rs →
  w <+: rs.flatten ++ trailer → (read w).1 <+: hs
 whole : ∀ {hs : List Header} {rs : List Bytes}, List.Forall₂ Record hs rs →
  (read (rs.flatten ++ trailer)).1 = hs

structure Fault where
 fatal : Bool
 message : Str
 deriving DecidableEq

/-- What the destination decides: whether it opens, when the context is cancelled, and how
`createOne` ends for a header after the names tried before it. -/
structure Destination where
 opening : Option Str
 cancelled : Nat → Option Str
 create : List Str → Header → Option Fault

inductive ExtractError
 | opening (cause : Str)
 | cancelled (cause : Str)
 | tarRead (cause : Str)
 | linkTargetNotRestored (name : Str)
 | unsafePath (name : Str)
 | creating (fault : Fault)
 deriving DecidableEq

inductive Treatment
 | pass
 | refuse (cause : ExtractError)
 | create (hdr : Header)
 deriving DecidableEq

def checked (hdr : Header) : Treatment :=
 if safePath hdr.name then .create hdr else .refuse (.unsafePath hdr.name)

def treat (opts : ExtractOptions) (hdr : Header) : Treatment :=
 if selects opts (clean hdr.name) = false then .pass
 else
  match stripComponents (clean hdr.name) opts.stripComponents with
  | none => .pass
  | some name =>
   if hdr.typeflag = .link then
    match stripComponents (clean hdr.linkname) opts.stripComponents with
    | none => .refuse (.linkTargetNotRestored name)
    | some link => checked { hdr with name := name, linkname := link }
   else checked { hdr with name := name }

theorem typeflag_of_create {opts : ExtractOptions} {hdr made : Header}
  (creates : treat opts hdr = .create made) : made.typeflag = hdr.typeflag := by
 unfold treat checked at creates
 grind

def extractFrom (opts : ExtractOptions) (dest : Destination) :
  Nat → List Str → List Header → List Str × Option ExtractError
 | n, tried, [] => (tried, (dest.cancelled n).map .cancelled)
 | n, tried, hdr :: rest =>
  match dest.cancelled n with
  | some e => (tried, some (.cancelled e))
  | none =>
   match treat opts hdr with
   | .pass => extractFrom opts dest (n + 1) tried rest
   | .refuse e =>
    if opts.strict then (tried, some e) else extractFrom opts dest (n + 1) tried rest
   | .create stripped =>
    match dest.create tried stripped with
    | none => extractFrom opts dest (n + 1) (tried ++ [clean hdr.name]) rest
    | some fault =>
     if opts.strict ∨ fault.fatal then
      (tried ++ [clean hdr.name], some (.creating fault))
     else extractFrom opts dest (n + 1) (tried ++ [clean hdr.name]) rest

def extract (opts : ExtractOptions) (tar : TarReader) (dest : Destination) (stream : Bytes) :
  List Str × Except ExtractError Unit :=
 match dest.opening with
 | some e => ([], .error (.opening e))
 | none =>
  match extractFrom opts dest 0 [] (tar.read stream).1 with
  | (tried, some e) => (tried, .error e)
  | (tried, none) =>
   match (tar.read stream).2 with
   | some e => (tried, .error (.tarRead e))
   | none => (tried, .ok ())

/-- The header passes every rule, and no header before it stops a strict run. -/
def Writes (opts : ExtractOptions) (hs : List Header) (h : Header) : Prop :=
 ∃ before after, hs = before ++ h :: after ∧
  (opts.strict = true → ∀ x ∈ before, ∀ e, treat opts x ≠ .refuse e) ∧
  ∃ stripped, treat opts h = .create stripped

def willing : Destination := ⟨none, fun _ => none, fun _ _ => none⟩

section Tried

variable {opts : ExtractOptions} {dest : Destination} {hs rest : List Header} {hdr : Header}
 {p : Str}

theorem writes_cons (passes : opts.strict = true → ∀ e, treat opts hdr ≠ .refuse e) {h : Header}
  (later : Writes opts rest h) : Writes opts (hdr :: rest) h := by
 obtain ⟨before, after, split, fine, creates⟩ := later
 refine ⟨hdr :: before, after, by rw [split]; rfl, ?_, creates⟩
 intro strict x member
 rcases List.mem_cons.mp member with rfl | earlier
 · exact passes strict
 · exact fine strict x earlier

theorem writes_of_tried {n : Nat} {tried : List Str}
  (member : p ∈ (extractFrom opts dest n tried hs).1) :
  p ∈ tried ∨ ∃ h, Writes opts hs h ∧ p = clean h.name := by
 induction hs generalizing n tried with
 | nil => exact .inl member
 | cons hdr rest ih =>
  rw [extractFrom] at member
  cases alive : dest.cancelled n with
  | some e =>
   rw [alive] at member
   exact .inl member
  | none =>
   rw [alive] at member
   dsimp only at member
   cases treated : treat opts hdr with
   | pass =>
    rw [treated] at member
    refine (ih member).imp_right ?_
    rintro ⟨h, later, is⟩
    exact ⟨h, writes_cons (fun _ e => by rw [treated]; simp) later, is⟩
   | refuse e =>
    rw [treated] at member
    dsimp only at member
    by_cases strict : opts.strict = true
    · rw [if_pos strict] at member
      exact .inl member
    · rw [if_neg strict] at member
      refine (ih member).imp_right ?_
      rintro ⟨h, later, is⟩
      exact ⟨h, writes_cons (fun strict' => absurd strict' strict) later, is⟩
   | create stripped =>
    have here : Writes opts (hdr :: rest) hdr :=
     ⟨[], rest, rfl, fun _ x nothing => (nomatch nothing), stripped, treated⟩
    have added : p ∈ tried ++ [clean hdr.name] →
      p ∈ tried ∨ ∃ h, Writes opts (hdr :: rest) h ∧ p = clean h.name := by
     intro inside
     rcases List.mem_append.mp inside with old | new
     · exact .inl old
     · exact .inr ⟨hdr, here, List.mem_singleton.mp new⟩
    have further : p ∈ (extractFrom opts dest (n + 1) (tried ++ [clean hdr.name]) rest).1 →
      p ∈ tried ∨ ∃ h, Writes opts (hdr :: rest) h ∧ p = clean h.name := by
     intro inside
     rcases ih inside with old | ⟨h, later, is⟩
     · exact added old
     · exact .inr ⟨h, writes_cons (fun _ e => by rw [treated]; simp) later, is⟩
    rw [treated] at member
    dsimp only at member
    split at member
    · exact further member
    · split at member
      · exact added member
      · exact further member

theorem tried_mono {n : Nat} {tried : List Str} (member : p ∈ tried) :
  p ∈ (extractFrom opts willing n tried hs).1 := by
 induction hs generalizing n tried with
 | nil => exact member
 | cons hdr rest ih =>
  rw [extractFrom]
  dsimp only [willing]
  split
  · exact ih member
  · split
    · exact member
    · exact ih member
  · exact ih (List.mem_append_left _ member)

theorem tried_of_writes {n : Nat} {tried : List Str} {h : Header} (writes : Writes opts hs h) :
  clean h.name ∈ (extractFrom opts willing n tried hs).1 := by
 obtain ⟨before, after, rfl, fine, stripped, creates⟩ := writes
 induction before generalizing n tried with
 | nil =>
  rw [List.nil_append, extractFrom]
  dsimp only [willing]
  rw [creates]
  exact tried_mono (List.mem_append_right _ (List.mem_singleton.mpr rfl))
 | cons x before ih =>
  have later : opts.strict = true → ∀ y ∈ before, ∀ e, treat opts y ≠ .refuse e :=
   fun strict y member => fine strict y (List.mem_cons_of_mem x member)
  rw [List.cons_append, extractFrom]
  dsimp only [willing]
  cases treated : treat opts x with
  | pass => exact ih later
  | refuse e =>
   have lax : opts.strict ≠ true := fun strict => fine strict x List.mem_cons_self e treated
   dsimp only
   rw [if_neg lax]
   exact ih later
  | create y => exact ih later

end Tried

theorem tried_iff {opts : ExtractOptions} {tar : TarReader} {stream : Bytes} {p : Str} :
  (∃ dest, p ∈ (extract opts tar dest stream).1) ↔
   ∃ h, Writes opts (tar.read stream).1 h ∧ p = clean h.name := by
 constructor
 · rintro ⟨dest, member⟩
   have tried : p ∈ (extractFrom opts dest 0 [] (tar.read stream).1).1 := by
    unfold extract at member
    split at member
    · cases member
    · split at member
      · rename_i ran
        rw [ran]
        exact member
      · rename_i ran
        rw [ran]
        split at member <;> exact member
   rcases writes_of_tried tried with nothing | writes
   · cases nothing
   · exact writes
 · rintro ⟨h, writes, rfl⟩
   refine ⟨willing, ?_⟩
   have tried : clean h.name ∈ (extractFrom opts willing 0 [] (tar.read stream).1).1 :=
    tried_of_writes writes
   unfold extract
   dsimp only [willing] at tried ⊢
   split
   · rename_i ran
     rw [ran] at tried
     exact tried
   · rename_i ran
     rw [ran] at tried
     split <;> exact tried

end BackImage.Archive.Extract
