/- source: pkg/restore/source.go,
     pkg/restore/expect.go
  digest: Opening a layout under an expected digest: what is matched and what is picked. -/

import BackImage.Go.Path
import Mathlib.Data.List.Basic

namespace BackImage.Restore.OciLayout

open Go.Text
open Go.Path (clean)

structure Hash where
 algorithm : Str
 hex : Str
 deriving DecidableEq

/-- `v1.Hash.String`. -/
def hashString (h : Hash) : Str := h.algorithm ++ lit ":" ++ h.hex

structure Platform where
 os : Str
 architecture : Str
 variant : Str
 osVersion : Str
 deriving DecidableEq

structure Descriptor where
 mediaType : Str
 digest : Hash
 platform : Option Platform
 deriving DecidableEq

/-- The manifests an index document lists. Each descriptor comes with the blob stored under its
digest: a document that lists manifests in turn, or nothing that reads as one. -/
inductive Manifests
 | nil
 | unreadable (d : Descriptor) (rest : Manifests)
 | document (d : Descriptor) (blob rest : Manifests)
 deriving DecidableEq

namespace Manifests

def entries : Manifests → List (Descriptor × Option Manifests)
 | nil => []
 | unreadable d rest => (d, none) :: rest.entries
 | document d blob rest => (d, some blob) :: rest.entries

def descriptors (m : Manifests) : List Descriptor := m.entries.map Prod.fst

def Reaches : Manifests → Hash → Prop
 | nil, _ => False
 | unreadable d rest, h => d.digest = h ∨ rest.Reaches h
 | document d blob rest, h => d.digest = h ∨ blob.Reaches h ∨ rest.Reaches h

def Holds : Manifests → Hash → Manifests → Prop
 | nil, _, _ => False
 | unreadable _ rest, g, doc => rest.Holds g doc
 | document d blob rest, g, doc => d.digest = g ∧ blob = doc ∨ blob.Holds g doc ∨ rest.Holds g doc

/-- No digest is listed at two places of the layout. -/
def ListedOnce : Manifests → Prop
 | nil => True
 | unreadable d rest => ¬ rest.Reaches d.digest ∧ rest.ListedOnce
 | document d blob rest =>
  ¬ blob.Reaches d.digest ∧ ¬ rest.Reaches d.digest ∧ (∀ h, blob.Reaches h → ¬ rest.Reaches h) ∧
   blob.ListedOnce ∧ rest.ListedOnce

end Manifests

structure TopIndex where
 digest : Hash
 parsed : Except Str Manifests

structure Layout where
 fromPath : Except Str Unit
 imageIndex : Except Str TopIndex

/-- The container registry library. An index may refuse a digest, for its media type or because it
is not listed; what it does not refuse is the blob stored under that digest. -/
structure Oci where
 imageIndex : List Descriptor → Hash → Option Str
 image : List Descriptor → Hash → Option Str
 parsePlatform : Str → Except Str Platform
 platformText : Platform → Str

structure SourceOptions where
 platform : Str
 cacheDir : Str
 cacheSize : Int64
 expectDigest : Option Hash

inductive SourceError
 | opening (cause : Str)
 | reading (cause : Str)
 | mismatch (source : Str) (resolved : List Hash) (expected : Hash)
 | platform (value cause : Str)
 | manifest (cause : Str)
 | notFound (want : Platform) (available : List Str)
 | image (cause : Str)
 | cacheDir (cause : Str)
 deriving DecidableEq

def matchResolved (want : Option Hash) (source : Str) (resolved : List Hash) :
  Except SourceError Unit :=
 match want with
 | none => .ok ()
 | some hash => if hash ∈ resolved then .ok () else .error (.mismatch source resolved hash)

def matchLayoutDigest (want : Option Hash) (path : Str) (idx : TopIndex) :
  Except SourceError Unit :=
 match want with
 | none => .ok ()
 | some hash =>
  match idx.parsed with
  | .error e => .error (.reading e)
  | .ok m =>
   matchResolved (some hash) (lit "OCI layout " ++ path)
    (idx.digest :: m.descriptors.map Descriptor.digest)

def sourcePlatform (oci : Oci) (value : Str) : Except SourceError Platform :=
 let value := if value = [] then lit "linux/amd64" else value
 match oci.parsePlatform value with
 | .error e => .error (.platform value e)
 | .ok p => .ok p

def Platform.answers (p want : Platform) : Bool :=
 p.os = want.os && p.architecture = want.architecture &&
  (want.variant = [] || p.variant = want.variant)

def pickNamed (oci : Oci) (want : Platform) (all : List Descriptor) (d : Descriptor) (p : Platform)
  (later : Except SourceError Hash) : Except SourceError Hash :=
 if p.answers want then
  match oci.image all d.digest with
  | some e => .error (.image e)
  | none => .ok d.digest
 else later

def pick (oci : Oci) (want : Platform) : List Descriptor → List Str → Manifests →
  Except SourceError Hash
 | _, available, .nil => .error (.notFound want (available.mergeSort fun a b => decide (a ≤ b)))
 | all, available, .unreadable d rest =>
  match d.platform with
  | none => pick oci want all available rest
  | some p =>
   pickNamed oci want all d p (pick oci want all (available ++ [oci.platformText p]) rest)
 | all, available, .document d blob rest =>
  match d.platform with
  | none =>
   match oci.imageIndex all d.digest with
   | some _ => pick oci want all available rest
   | none =>
    match pick oci want blob.descriptors [] blob with
    | .ok img => .ok img
    | .error _ => pick oci want all available rest
  | some p =>
   pickNamed oci want all d p (pick oci want all (available ++ [oci.platformText p]) rest)

def imageForPlatform (oci : Oci) (m : Manifests) (want : Platform) : Except SourceError Hash :=
 pick oci want m.descriptors [] m

structure ImageSource where
 image : Hash
 platform : Str
 cacheDir : Str
 cacheSize : Int64
 deriving DecidableEq

/-- `filepath.Join`. -/
def joinPath (elements : List Str) : Str :=
 let elements := elements.filter (· ≠ [])
 if elements = [] then [] else clean (join slash elements)

def newImageSource (userCacheDir : Except Str Str) (img : Hash) (opts : SourceOptions) :
  Except SourceError ImageSource :=
 let cacheSize := if opts.cacheSize = 0 then -1 else opts.cacheSize
 if opts.cacheDir = [] then
  match userCacheDir with
  | .error e => .error (.cacheDir e)
  | .ok base =>
   .ok ⟨img, opts.platform, joinPath [base, lit "backimage", lit "layers"], cacheSize⟩
 else .ok ⟨img, opts.platform, opts.cacheDir, cacheSize⟩

def fromOCILayout (oci : Oci) (userCacheDir : Except Str Str) (path : Str) (layout : Layout)
  (opts : SourceOptions) : Except SourceError ImageSource :=
 match layout.fromPath with
 | .error e => .error (.opening e)
 | .ok () =>
  match layout.imageIndex with
  | .error e => .error (.reading e)
  | .ok idx =>
   match matchLayoutDigest opts.expectDigest path idx with
   | .error e => .error e
   | .ok () =>
    match sourcePlatform oci opts.platform with
    | .error e => .error e
    | .ok p =>
     match idx.parsed with
     | .error e => .error (.manifest e)
     | .ok m =>
      match imageForPlatform oci m p with
      | .error e => .error e
      | .ok img => newImageSource userCacheDir img ⟨oci.platformText p, [], 0, none⟩

/-- Whether a document yields an image for the platform: its first descriptor that names the
platform is served, or a nested document in front of that one yields an image. -/
def offers (oci : Oci) (want : Platform) : List Descriptor → Manifests → Bool
 | _, .nil => false
 | all, .unreadable d rest =>
  match d.platform with
  | none => offers oci want all rest
  | some p =>
   if p.answers want then (oci.image all d.digest).isNone else offers oci want all rest
 | all, .document d blob rest =>
  match d.platform with
  | none =>
   (oci.imageIndex all d.digest).isNone && offers oci want blob.descriptors blob ||
    offers oci want all rest
  | some p =>
   if p.answers want then (oci.image all d.digest).isNone else offers oci want all rest

/-- A descriptor names the platform, or stands for a nested document that yields an image. -/
def offered (oci : Oci) (want : Platform) (all : List Descriptor) :
  Descriptor × Option Manifests → Bool
 | (d, blob) =>
  match d.platform with
  | some p => p.answers want
  | none =>
   match blob with
   | none => false
   | some doc => (oci.imageIndex all d.digest).isNone && offers oci want doc.descriptors doc

def firstOffer (oci : Oci) (want : Platform) (m : Manifests) :
  Option (Descriptor × Option Manifests) :=
 m.entries.find? (offered oci want m.descriptors)

section Picked

variable {oci : Oci} {want : Platform} {all : List Descriptor} {h : Hash}

theorem pickNamed_ok {d : Descriptor} {p : Platform} {later : Except SourceError Hash}
  (picked : pickNamed oci want all d p later = .ok h) :
  p.answers want = true ∧ d.digest = h ∨ p.answers want = false ∧ later = .ok h := by
 unfold pickNamed at picked
 by_cases answers : p.answers want = true
 · rw [if_pos answers] at picked
   split at picked
   · cases picked
   · exact .inl ⟨answers, Except.ok.inj picked⟩
 · rw [if_neg answers] at picked
   exact .inr ⟨by simpa using answers, picked⟩

theorem pickNamed_isOk (d : Descriptor) (p : Platform) (later : Except SourceError Hash) :
  (pickNamed oci want all d p later).isOk =
   if p.answers want then (oci.image all d.digest).isNone else later.isOk := by
 unfold pickNamed
 split
 · cases oci.image all d.digest <;> rfl
 · rfl

theorem offers_eq_isOk (available : List Str) (m : Manifests) :
  offers oci want all m = (pick oci want all available m).isOk := by
 induction m generalizing all available with
 | nil => rfl
 | unreadable d rest ih =>
  rw [offers, pick]
  cases d.platform with
  | none => exact ih available
  | some p =>
   dsimp only
   rw [pickNamed_isOk, ih]
 | document d blob rest ihBlob ih =>
  rw [offers, pick]
  cases d.platform with
  | none =>
   dsimp only
   cases oci.imageIndex all d.digest with
   | some e => exact ih available
   | none =>
    rw [ihBlob []]
    cases pick oci want blob.descriptors [] blob with
    | ok img => rfl
    | error e => exact ih available
  | some p =>
   dsimp only
   rw [pickNamed_isOk, ih]

theorem holds_of_mem {m doc : Manifests} {d : Descriptor} (member : (d, some doc) ∈ m.entries) :
  m.Holds d.digest doc := by
 induction m with
 | nil => cases member
 | unreadable d' rest ih =>
  rcases List.mem_cons.mp member with same | later
  · cases same
  · exact ih later
 | document d' doc' rest _ ih =>
  rcases List.mem_cons.mp member with same | later
  · cases same
    exact .inl ⟨rfl, rfl⟩
  · exact .inr (.inr (ih later))

theorem reaches_of_pick {available : List Str} {m : Manifests}
  (picked : pick oci want all available m = .ok h) : m.Reaches h := by
 induction m generalizing all available with
 | nil => cases picked
 | unreadable d rest ih =>
  rw [pick] at picked
  cases platform : d.platform with
  | none =>
   rw [platform] at picked
   exact .inr (ih picked)
  | some p =>
   rw [platform] at picked
   rcases pickNamed_ok picked with ⟨-, here⟩ | ⟨-, later⟩
   · exact .inl here
   · exact .inr (ih later)
 | document d blob rest ihBlob ih =>
  rw [pick] at picked
  cases platform : d.platform with
  | none =>
   rw [platform] at picked
   dsimp only at picked
   split at picked
   · exact .inr (.inr (ih picked))
   · split at picked
     · rename_i below
       cases picked
       exact .inr (.inl (ihBlob below))
     · exact .inr (.inr (ih picked))
  | some p =>
   rw [platform] at picked
   rcases pickNamed_ok picked with ⟨-, here⟩ | ⟨-, later⟩
   · exact .inl here
   · exact .inr (.inr (ih later))

/-- The image comes from the first entry that offers the platform: its own object, or one listed
below it. -/
theorem find_of_pick {available : List Str} {m : Manifests}
  (picked : pick oci want all available m = .ok h) :
  ∃ d blob, m.entries.find? (offered oci want all) = some (d, blob) ∧
   (d.digest = h ∨ ∃ doc, blob = some doc ∧ doc.Reaches h) := by
 induction m generalizing available with
 | nil => cases picked
 | unreadable d rest ih =>
  rw [pick] at picked
  rw [Manifests.entries, List.find?_cons, offered]
  cases platform : d.platform with
  | none =>
   rw [platform] at picked
   exact ih picked
  | some p =>
   rw [platform] at picked
   rcases pickNamed_ok picked with ⟨answers, here⟩ | ⟨other, later⟩
   · exact ⟨d, none, by simp [answers], .inl here⟩
   · simpa [other] using ih later
 | document d blob rest _ ih =>
  rw [pick] at picked
  rw [Manifests.entries, List.find?_cons, offered]
  cases platform : d.platform with
  | none =>
   rw [platform] at picked
   dsimp only at picked ⊢
   rw [offers_eq_isOk []]
   cases opens : oci.imageIndex all d.digest with
   | some e =>
    rw [opens] at picked
    exact ih picked
   | none =>
    rw [opens] at picked
    cases below : pick oci want blob.descriptors [] blob with
    | ok img =>
     rw [below] at picked
     cases picked
     exact ⟨d, some blob, rfl, .inr ⟨blob, rfl, reaches_of_pick below⟩⟩
    | error e =>
     rw [below] at picked
     exact ih picked
  | some p =>
   rw [platform] at picked
   rcases pickNamed_ok picked with ⟨answers, here⟩ | ⟨other, later⟩
   · exact ⟨d, some blob, by simp [answers], .inl here⟩
   · simpa [other] using ih later

end Picked

/-- The image is the object with this digest, or is reached from the index document that has it. -/
def Anchored (idx : TopIndex) (m : Manifests) (d h : Hash) : Prop :=
 h = d ∨ idx.digest = d ∧ m.Reaches h ∨ ∃ doc, m.Holds d doc ∧ doc.Reaches h

/-- The digest is that of the layout's own index, or of the first descriptor there that offers the
platform. -/
def ExpectedFirst (oci : Oci) (want : Platform) (idx : TopIndex) (m : Manifests) (d : Hash) :
  Prop :=
 idx.digest = d ∨ ∃ e ∈ firstOffer oci want m, e.1.digest = d

section Once

variable {m doc : Manifests} {d h : Hash} {e : Descriptor} {blob : Option Manifests}

theorem reaches_of_mem (member : (e, blob) ∈ m.entries)
  (through : e.digest = h ∨ ∃ doc, blob = some doc ∧ doc.Reaches h) : m.Reaches h := by
 induction m with
 | nil => cases member
 | unreadable d' rest ih =>
  rcases List.mem_cons.mp member with same | later
  · cases same
    rcases through with here | ⟨doc, none_some, -⟩
    · exact .inl here
    · cases none_some
  · exact .inr (ih later)
 | document d' doc' rest _ ih =>
  rcases List.mem_cons.mp member with same | later
  · cases same
    rcases through with here | ⟨doc, same, below⟩
    · exact .inl here
    · cases same
      exact .inr (.inl below)
  · exact .inr (.inr (ih later))

theorem reaches_of_holds (held : m.Holds d doc) : m.Reaches d ∧ (doc.Reaches h → m.Reaches h) := by
 induction m with
 | nil => cases held
 | unreadable d' rest ih => exact ⟨.inr (ih held).1, fun below => .inr ((ih held).2 below)⟩
 | document d' doc' rest ihBlob ih =>
  rcases held with ⟨rfl, rfl⟩ | inner | later
  · exact ⟨.inl rfl, fun below => .inr (.inl below)⟩
  · exact ⟨.inr (.inl (ihBlob inner).1), fun below => .inr (.inl ((ihBlob inner).2 below))⟩
  · exact ⟨.inr (.inr (ih later).1), fun below => .inr (.inr ((ih later).2 below))⟩

/-- Where nothing is listed twice, an advertised object that leads to an image is the entry the
image was found through. -/
theorem digest_of_leads (once : m.ListedOnce) (member : (e, blob) ∈ m.entries)
  (through : e.digest = h ∨ ∃ doc, blob = some doc ∧ doc.Reaches h)
  (top : ∃ x ∈ m.entries, x.1.digest = d)
  (leads : h = d ∨ ∃ doc, m.Holds d doc ∧ doc.Reaches h) : e.digest = d := by
 induction m with
 | nil => cases member
 | unreadable d' rest ih =>
  obtain ⟨fresh, onceRest⟩ := once
  obtain ⟨x, listed, named⟩ := top
  -- one of the two is the head: what it leads to would be listed again in the rest
  rcases List.mem_cons.mp member with same | later <;>
   rcases List.mem_cons.mp listed with rfl | elsewhere
  · cases same
    exact named
  · have again := reaches_of_mem elsewhere (.inl named)
    cases same
    rcases through with rfl | ⟨doc, none_some, -⟩
    · rcases leads with rfl | ⟨doc, held, below⟩
      · exact absurd again fresh
      · exact absurd ((reaches_of_holds (m := rest) held).2 below) fresh
    · cases none_some
  · have reached := reaches_of_mem later through
    subst named
    rcases leads with rfl | ⟨doc, held, -⟩
    · exact absurd reached fresh
    · exact absurd (reaches_of_holds (m := rest) (h := h) held).1 fresh
  · exact ih onceRest later ⟨x, elsewhere, named⟩ leads
 | document d' doc' rest _ ih =>
  obtain ⟨notBelow, notAfter, apart, -, onceRest⟩ := once
  obtain ⟨x, listed, named⟩ := top
  rcases List.mem_cons.mp member with same | later <;>
   rcases List.mem_cons.mp listed with rfl | elsewhere
  · cases same
    exact named
  · have again := reaches_of_mem elsewhere (.inl named)
    have reached : rest.Reaches h := by
     rcases leads with rfl | ⟨doc, ⟨rfl, -⟩ | inner | held, below⟩
     · exact again
     · exact absurd again notAfter
     · exact absurd again (apart d (reaches_of_holds (h := h) inner).1)
     · exact (reaches_of_holds held).2 below
    cases same
    rcases through with rfl | ⟨doc, same, below⟩
    · exact absurd reached notAfter
    · cases same
      exact absurd reached (apart h below)
  · have reached := reaches_of_mem later through
    subst named
    rcases leads with rfl | ⟨doc, ⟨-, rfl⟩ | inner | held, below⟩
    · exact absurd reached notAfter
    · exact absurd reached (apart h below)
    · exact absurd (reaches_of_holds (h := h) inner).1 notBelow
    · exact absurd (reaches_of_holds (h := h) held).1 notAfter
  · have again := reaches_of_mem elsewhere (.inl named)
    refine ih onceRest later ⟨x, elsewhere, named⟩ ?_
    rcases leads with same | ⟨doc, ⟨rfl, -⟩ | inner | held, below⟩
    · exact .inl same
    · exact absurd again notAfter
    · exact absurd again (apart d (reaches_of_holds (h := h) inner).1)
    · exact .inr ⟨doc, held, below⟩

end Once

section Anchor

variable {oci : Oci} {userCacheDir : Except Str Str} {path : Str} {layout : Layout}
 {opts : SourceOptions} {src : ImageSource} {idx : TopIndex} {m : Manifests} {want : Platform}

section

variable (read : layout.imageIndex = .ok idx) (parsed : idx.parsed = .ok m)
 (platform : sourcePlatform oci opts.platform = .ok want)

include read parsed platform

theorem fromOCILayout_ok (opened : fromOCILayout oci userCacheDir path layout opts = .ok src) :
  matchLayoutDigest opts.expectDigest path idx = .ok () ∧
  imageForPlatform oci m want = .ok src.image := by
 unfold fromOCILayout at opened
 simp only [read, platform, parsed] at opened
 split at opened
 · cases opened
 · split at opened
   · cases opened
   · rename_i matched
     split at opened
     · cases opened
     · rename_i img picked
       unfold newImageSource at opened
       simp only [if_true] at opened
       split at opened
       · cases opened
       · cases opened
         exact ⟨matched, picked⟩

omit read platform in
theorem advertised_of_match {d : Hash} (expected : opts.expectDigest = some d)
  (matched : matchLayoutDigest opts.expectDigest path idx = .ok ()) :
  idx.digest = d ∨ ∃ x ∈ m.entries, x.1.digest = d := by
 rw [expected, matchLayoutDigest, parsed] at matched
 dsimp only [matchResolved] at matched
 split at matched
 · rename_i listed
   rcases List.mem_cons.mp listed with own | advertised
   · exact .inl own.symm
   · simp only [Manifests.descriptors, List.map_map, List.mem_map] at advertised
     exact .inr advertised
 · cases matched

/-- An expected digest anchors the image of a layout when it leads in the layout's own index, and
only then where the layout lists nothing twice: the digest is looked up among all advertised ones,
the image by platform alone. -/
theorem expected_digest_anchors {d : Hash} (expected : opts.expectDigest = some d)
  (opened : fromOCILayout oci userCacheDir path layout opts = .ok src) :
  (ExpectedFirst oci want idx m d → Anchored idx m d src.image) ∧
   (m.ListedOnce → Anchored idx m d src.image → ExpectedFirst oci want idx m d) := by
 obtain ⟨matched, picked⟩ := fromOCILayout_ok read parsed platform opened
 obtain ⟨e, blob, first, through⟩ := find_of_pick picked
 have member := List.mem_of_find?_eq_some first
 constructor
 · rintro (own | ⟨x, found, named⟩)
   · exact .inr (.inl ⟨own, reaches_of_pick picked⟩)
   · cases Option.some.inj (first.symm.trans found)
     subst named
     rcases through with here | ⟨doc, rfl, below⟩
     · exact .inl here.symm
     · exact .inr (.inr ⟨doc, holds_of_mem member, below⟩)
 · intro once anchored
   rcases advertised_of_match parsed expected matched with own | top
   · exact .inl own
   · rcases anchored with same | ⟨own, -⟩ | under
     · exact .inr ⟨(e, blob), first, digest_of_leads once member through top (.inl same)⟩
     · exact .inl own
     · exact .inr ⟨(e, blob), first, digest_of_leads once member through top (.inr under)⟩

end

end Anchor

def sha256Of (name : String) : Hash := ⟨lit "sha256", lit name⟩

def amd64 : Platform := ⟨lit "linux", lit "amd64", [], []⟩

def arm64 : Platform := ⟨lit "linux", lit "arm64", [], []⟩

def permissiveOci : Oci := ⟨fun _ _ => none, fun _ _ => none, fun _ => .ok amd64, fun _ => []⟩

def imageEntry (name : String) (p : Platform) (rest : Manifests) : Manifests :=
 .unreadable ⟨lit "application/vnd.oci.image.manifest.v1+json", sha256Of name, some p⟩ rest

def layoutOf (m : Manifests) : Layout := ⟨.ok (), .ok ⟨sha256Of "top", .ok m⟩⟩

def twoImages : Manifests := imageEntry "other" amd64 (imageEntry "trusted" arm64 .nil)

def expecting (name : String) : SourceOptions := ⟨[], [], 0, some (sha256Of name)⟩

def sourceOf (name : String) : ImageSource := ⟨sha256Of name, [], lit "/cache/backimage/layers", -1⟩

theorem advertised_digest_other_image :
  fromOCILayout permissiveOci (.ok (lit "/cache")) [] (layoutOf twoImages) (expecting "trusted") =
    .ok (sourceOf "other") ∧
   ¬ Anchored ⟨sha256Of "top", .ok twoImages⟩ twoImages (sha256Of "trusted")
    (sourceOf "other").image := by
 refine ⟨by decide +kernel, ?_⟩
 rintro (same | ⟨own, -⟩ | ⟨doc, held, -⟩)
 · exact absurd same (by decide +kernel)
 · exact absurd own (by decide +kernel)
 · exact held

/-- An index without a platform in front of an image that has one. -/
def nestedIndex : Manifests :=
 .document ⟨lit "application/vnd.oci.image.index.v1+json", sha256Of "trusted", none⟩
  (imageEntry "inner" amd64 .nil) (imageEntry "other" amd64 .nil)

theorem nested_image_anchored :
  fromOCILayout permissiveOci (.ok (lit "/cache")) [] (layoutOf nestedIndex) (expecting "trusted") =
    .ok (sourceOf "inner") ∧
   Anchored ⟨sha256Of "top", .ok nestedIndex⟩ nestedIndex (sha256Of "trusted")
    (sourceOf "inner").image := by
 have opened : fromOCILayout permissiveOci (.ok (lit "/cache")) [] (layoutOf nestedIndex)
   (expecting "trusted") = .ok (sourceOf "inner") := by
  decide +kernel
 refine ⟨opened, (expected_digest_anchors rfl rfl rfl rfl opened).1 (.inr ⟨_, rfl, rfl⟩)⟩

end BackImage.Restore.OciLayout
