/- source: pkg/ociimg/build.go
  digest: Platform images share one index after their layers were compared with the first one's. -/

import BackImage.Restore.LayerCache
import Mathlib.Data.List.Lex
import Mathlib.Data.Prod.Lex

namespace BackImage.Ociimg.MultiArch

open Go.Text
open Restore.LayerCache (SliceSort)

structure Platform where
 os : Str
 architecture : Str
 deriving DecidableEq

abbrev Layers := List (Except Str Str)

structure Image where
 layers : Except Str Layers
 rawManifest : Except Str Bytes
 digest : Except Str Str
 annotations : Except Str (List (Str × Str))

structure BuiltImage where
 platform : Platform
 image : Image

inductive BuildError
 | noImages
 | layers (platform : Platform) (cause : Str)
 | fewLayers (platform : Platform) (got : Nat)
 | read (cause : Str)
 | sharedLayer (platform : Platform) (got want : Str)
 | dataLayer (platform : Platform) (layer : Nat) (got want : Str)

inductive Stop
 | failed (e : BuildError)
 | panicked

structure Addendum where
 add : BuiltImage
 size : Nat
 digest : Str

structure ImageIndex where
 manifests : List Addendum
 annotations : List (Str × Str)

def readable {α : Type} : Except Str α → Except Stop α := Except.mapError fun e => .failed (.read e)

def layersOf (b : BuiltImage) : Except Stop Layers :=
 match b.image.layers with
 | .error e => .error (.failed (.layers b.platform e))
 | .ok layers =>
  if layers.length < 2 then .error (.failed (.fewLayers b.platform layers.length)) else .ok layers

/-- `layers[j].Digest()`. -/
def digestAt (layers : Layers) (j : Nat) : Except Stop Str :=
 match layers[j]? with
 | none => .error .panicked
 | some d => readable d

def compareFrom (p : Platform) (first : Layers) : Nat → Layers → Except Stop Unit
 | _, [] => .ok ()
 | j, l :: rest => do
  let di ← readable l
  let d0 ← digestAt first j
  if di ≠ d0 then throw (.failed (.dataLayer p (j - 1) di d0))
  compareFrom p first (j + 1) rest

def compareImage (first : Layers) (metaDigest : Str) (p : Platform) (layers : Layers) :
  Except Stop Unit := do
 let d ← digestAt layers 1
 if d ≠ metaDigest then throw (.failed (.sharedLayer p d metaDigest))
 compareFrom p first 1 (layers.drop 1)

def compareAll (first : Layers) (metaDigest : Str) : List (BuiltImage × Layers) → Except Stop Unit
 | [] => .ok ()
 | (b, layers) :: rest => do
  compareImage first metaDigest b.platform layers
  compareAll first metaDigest rest

def less (s t : Str) : Bool := s.map UInt8.toNat < t.map UInt8.toNat

def platformLess (a b : BuiltImage) : Bool :=
 if a.platform.os ≠ b.platform.os then less a.platform.os b.platform.os
 else less a.platform.architecture b.platform.architecture

def addendum (b : BuiltImage) : Except Stop Addendum := do
 let raw ← readable b.image.rawManifest
 let digest ← readable b.image.digest
 return ⟨b, raw.length, digest⟩

def mirrored : List BuiltImage → List (Str × Str)
 | [] => []
 | b :: _ => b.image.annotations.toOption.getD []

def buildIndex (sorter : SliceSort BuiltImage platformLess) (imgs : List BuiltImage) :
  Except Stop ImageIndex :=
 match imgs with
 | [] => .error (.failed .noImages)
 | b :: rest => do
  let first ← layersOf b
  let others ← rest.mapM layersOf
  let metaDigest ← digestAt first 1
  compareAll first metaDigest (rest.zip others)
  let sorted := sorter.sort imgs
  let manifests ← sorted.mapM addendum
  return ⟨manifests, mirrored sorted⟩

def digests (b : BuiltImage) : List Str :=
 match b.image.layers with
 | .error _ => []
 | .ok layers => layers.filterMap Except.toOption

def shared (b : BuiltImage) : List Str := (digests b).drop 1

structure Built (b : BuiltImage) : Prop where
 layers : b.image.layers = .ok ((digests b).map .ok)
 two : 2 ≤ (digests b).length
 manifest : ∃ raw, b.image.rawManifest = .ok raw
 digest : ∃ d, b.image.digest = .ok d

variable {b : BuiltImage} {ds first : List Str}

@[simp] theorem readable_ok {α : Type} (a : α) : readable (.ok a) = .ok a := rfl

theorem Built.layersOf_eq (built : Built b) : layersOf b = .ok ((digests b).map .ok) := by
 rw [layersOf, built.layers]
 refine if_neg ?_
 rw [List.length_map]
 exact Nat.not_lt.mpr built.two

theorem Built.addendum_ok (built : Built b) : ∃ a, addendum b = .ok a ∧ a.add = b := by
 obtain ⟨raw, read⟩ := built.manifest
 obtain ⟨d, known⟩ := built.digest
 exact ⟨⟨b, raw.length, d⟩, by rw [addendum, read, known]; rfl, rfl⟩

theorem layersOf_all {imgs : List BuiltImage} (built : ∀ b ∈ imgs, Built b) :
  imgs.mapM layersOf = .ok (imgs.map fun b => (digests b).map .ok) := by
 induction imgs with
 | nil => rfl
 | cons b rest ih =>
  rw [List.mapM_cons, (built b List.mem_cons_self).layersOf_eq,
   ih fun c member => built c (List.mem_cons_of_mem b member)]
  rfl

theorem addendum_all {imgs : List BuiltImage} (built : ∀ b ∈ imgs, Built b) :
  ∃ as, imgs.mapM addendum = .ok as ∧ as.map Addendum.add = imgs := by
 induction imgs with
 | nil => exact ⟨[], rfl, rfl⟩
 | cons b rest ih =>
  obtain ⟨a, here, is⟩ := (built b List.mem_cons_self).addendum_ok
  obtain ⟨as, later, are⟩ := ih fun c member => built c (List.mem_cons_of_mem b member)
  refine ⟨a :: as, ?_, by rw [List.map_cons, is, are]⟩
  rw [List.mapM_cons, here, later]
  rfl

theorem digestAt_map (ds : List Str) (j : Nat) : digestAt (ds.map .ok) j = match ds[j]? with
   | none => .error .panicked
   | some d => .ok d := by
 rw [digestAt, List.getElem?_map]
 cases ds[j]? <;> rfl

theorem compareFrom_eq (p : Platform) (j : Nat) (ds : List Str) :
  (compareFrom p (first.map .ok) j (ds.map .ok) = .ok () ↔ ds <+: first.drop j) ∧
   (compareFrom p (first.map .ok) j (ds.map .ok) = .error .panicked ↔
    first.drop j <+: ds ∧ ds ≠ first.drop j) := by
 induction ds generalizing j with
 | nil => simp [compareFrom]
 | cons d ds ih =>
  rw [List.map_cons, compareFrom, readable_ok, digestAt_map]
  have at_j : first[j]? = (first.drop j).head? := List.head?_drop.symm
  have next := ih (j + 1)
  rw [← List.tail_drop] at next
  rw [at_j]
  cases left : first.drop j with
  | nil => simp [bind, Except.bind]
  | cons x rest =>
   rw [left, List.tail_cons] at next
   by_cases same : d = x
   · simpa [same, List.cons_prefix_cons, bind, Except.bind] using next
   · have other : ¬ x = d := fun eq => same eq.symm
     simp [same, other, List.cons_prefix_cons, bind, Except.bind, throw, throwThe,
      MonadExceptOf.throw]

theorem compareImage_eq (p : Platform) {d0 : Str} (starts : first[1]? = some d0)
  (two : 2 ≤ ds.length) :
  (compareImage (first.map .ok) d0 p (ds.map .ok) = .ok () ↔ ds.drop 1 <+: first.drop 1) ∧
   (compareImage (first.map .ok) d0 p (ds.map .ok) = .error .panicked ↔
    first.drop 1 <+: ds.drop 1 ∧ ds.drop 1 ≠ first.drop 1) := by
 obtain ⟨d, rest, left⟩ := List.exists_cons_of_length_pos
  (show 0 < (ds.drop 1).length by rw [List.length_drop]; omega)
 have here : ds[1]? = some d := by rw [← List.head?_drop, left, List.head?_cons]
 have loop := @compareFrom_eq first p 1 (ds.drop 1)
 rw [compareImage, digestAt_map, here, ← List.map_drop]
 by_cases same : d = d0
 · simpa [same, bind, Except.bind] using loop
 · obtain ⟨e, more, follows⟩ := List.exists_cons_of_ne_nil (l := first.drop 1) (by
    intro none
    rw [← List.head?_drop, none] at starts
    cases starts)
   have is : e = d0 := by
    rw [← List.head?_drop, follows] at starts
    exact Option.some.inj starts
   have other : ¬ d0 = d := fun eq => same eq.symm
   rw [left, follows, is]
   simp [same, other, List.cons_prefix_cons, bind, Except.bind, throw, throwThe,
    MonadExceptOf.throw]

def firstOther (first : List Str) (imgs : List BuiltImage) : Option BuiltImage :=
 imgs.find? fun b => ¬ shared b <+: first

def comparison (first : List Str) (d0 : Str) (imgs : List BuiltImage) : Except Stop Unit :=
 compareAll (first.map .ok) d0 (imgs.zip (imgs.map fun b => (digests b).map .ok))

theorem compareAll_eq {d0 : Str} (starts : first[1]? = some d0) {imgs : List BuiltImage}
  (two : ∀ b ∈ imgs, 2 ≤ (digests b).length) :
  (comparison first d0 imgs = .ok () ↔ firstOther (first.drop 1) imgs = none) ∧
   (comparison first d0 imgs = .error .panicked ↔ ∃ b, firstOther (first.drop 1) imgs = some b ∧
    first.drop 1 <+: shared b) := by
 induction imgs with
 | nil => simp [comparison, compareAll, firstOther]
 | cons b rest ih =>
  have here := compareImage_eq b.platform starts (two b List.mem_cons_self)
  have later := ih fun c member => two c (List.mem_cons_of_mem b member)
  rw [comparison, List.map_cons, List.zip_cons_cons, compareAll]
  rw [show (digests b).drop 1 = shared b from rfl] at here
  cases ran : compareImage (first.map .ok) d0 b.platform ((digests b).map .ok) with
  | ok _ =>
   have begins : shared b <+: first.drop 1 := here.1.mp ran
   have skipped : firstOther (first.drop 1) (b :: rest) = firstOther (first.drop 1) rest :=
    List.find?_cons_of_neg (by simpa only [decide_eq_true_iff, not_not] using begins)
   rw [skipped]
   exact later
  | error stop =>
   have parts : ¬ shared b <+: first.drop 1 := by
    intro begins
    rw [here.1.mpr begins] at ran
    cases ran
   have longer : stop = .panicked ↔ first.drop 1 <+: shared b := by
    rw [ran, Except.error.injEq] at here
    rw [here.2, and_iff_left_iff_imp]
    exact fun _ same => parts (same ▸ List.prefix_rfl)
   have stops : firstOther (first.drop 1) (b :: rest) = some b :=
    List.find?_cons_of_pos (by simpa only [decide_eq_true_iff] using parts)
   rw [stops]
   refine ⟨iff_of_false (by rintro ⟨⟩) (by simp), ?_⟩
   change Except.error stop = Except.error Stop.panicked ↔ _
   rw [Except.error.injEq, longer]
   constructor
   · intro ahead
     exact ⟨b, rfl, ahead⟩
   · rintro ⟨c, is, ahead⟩
     cases is
     exact ahead

/-- `BuildIndex` does not panic, succeeds exactly on identical backups, and lists every image once,
ordered by system and then architecture. -/
def JoinsIdentical (sorter : SliceSort BuiltImage platformLess) (imgs : List BuiltImage) : Prop :=
 buildIndex sorter imgs ≠ .error .panicked ∧
  ((∃ idx, buildIndex sorter imgs = .ok idx) ↔ ∀ a ∈ imgs, ∀ b ∈ imgs,
   (digests a).length = (digests b).length ∧ shared a = shared b) ∧
  ∀ idx, buildIndex sorter imgs = .ok idx → (idx.manifests.map Addendum.add).Perm imgs ∧
   (idx.manifests.map Addendum.add).Pairwise fun a b => platformLess b a = false

variable {sorter : SliceSort BuiltImage platformLess} {rest : List BuiltImage}

theorem buildIndex_eq (built : ∀ c ∈ b :: rest, Built c) : ∃ d0, (digests b)[1]? = some d0 ∧
   match comparison (digests b) d0 rest with
   | .ok () => ∃ idx, buildIndex sorter (b :: rest) = .ok idx ∧
     idx.manifests.map Addendum.add = sorter.sort (b :: rest)
   | .error stop => buildIndex sorter (b :: rest) = .error stop := by
 have head := built b List.mem_cons_self
 obtain ⟨d0, second⟩ : ∃ d0, (digests b)[1]? = some d0 :=
  ⟨_, List.getElem?_eq_getElem (show 1 < (digests b).length from head.two)⟩
 obtain ⟨as, added, are⟩ := @addendum_all (sorter.sort (b :: rest)) fun c member =>
  built c ((sorter.perm _).subset member)
 refine ⟨d0, second, ?_⟩
 have ran : buildIndex sorter (b :: rest) =
   (comparison (digests b) d0 rest >>= fun _ =>
    .ok ⟨as, mirrored (sorter.sort (b :: rest))⟩) := by
  rw [buildIndex, head.layersOf_eq, layersOf_all fun c member =>
   built c (List.mem_cons_of_mem b member)]
  simp only [bind, Except.bind, digestAt_map, second, added]
  rfl
 rw [ran]
 cases comparison (digests b) d0 rest with
 | ok _ => exact ⟨_, rfl, are⟩
 | error stop => rfl

def systemKey (b : BuiltImage) : List Nat ×ₗ List Nat :=
 toLex (b.platform.os.map UInt8.toNat, b.platform.architecture.map UInt8.toNat)

theorem platformLess_eq (a b : BuiltImage) :
  platformLess a b = decide (systemKey a < systemKey b) := by
 have bytes : Function.Injective (List.map UInt8.toNat) :=
  List.map_injective_iff.mpr fun x y => UInt8.toNat.inj
 unfold platformLess less systemKey
 by_cases same : a.platform.os = b.platform.os
 · rw [if_neg (not_not.mpr same), decide_eq_decide, Prod.Lex.toLex_lt_toLex]
   simp [same]
 · rw [if_pos same, decide_eq_decide, Prod.Lex.toLex_lt_toLex]
   simp [bytes.ne same]

def bySystem : SliceSort BuiltImage platformLess where
 sort := (SliceSort.byKey systemKey).sort
 perm := (SliceSort.byKey systemKey).perm
 ordered xs := by simpa only [platformLess_eq] using (SliceSort.byKey systemKey).ordered xs

def imageFor (architecture : String) (layers : List Str) : BuiltImage :=
 ⟨⟨lit "linux", lit architecture⟩, .ok (layers.map .ok), .ok [], .ok [], .ok []⟩

/-- Images are joined as they should be exactly when the first one that does not merely shorten the
first image differs from it in a layer that both have or, without such an image, all are equal. -/
theorem buildIndex_joins_iff (built : ∀ c ∈ b :: rest, Built c) :
  JoinsIdentical sorter (b :: rest) ↔
   match firstOther (shared b) rest with
   | some c => ¬ shared b <+: shared c
   | none => ∀ c ∈ rest, shared c = shared b := by
 have equal : (∀ a ∈ b :: rest, ∀ c ∈ b :: rest, (digests a).length = (digests c).length ∧
  shared a = shared c) ↔
   ∀ c ∈ rest, shared c = shared b := by
  constructor
  · intro all c member
    exact (all c (List.mem_cons_of_mem b member) b List.mem_cons_self).2
  · intro same a left c right
    have each : ∀ x ∈ b :: rest, shared x = shared b := List.forall_mem_cons.mpr ⟨rfl, same⟩
    have agree := (each a left).trans (each c right).symm
    have lengths := congrArg List.length agree
    simp only [shared, List.length_drop] at lengths
    have := (built a left).two
    have := (built c right).two
    exact ⟨by omega, agree⟩
 obtain ⟨d0, second, ran⟩ := @buildIndex_eq b sorter rest built
 obtain ⟨passes, panics⟩ := compareAll_eq second fun c member =>
  (built c (List.mem_cons_of_mem b member)).two
 unfold JoinsIdentical
 rw [equal]
 cases found : firstOther (shared b) rest with
 | none =>
  rw [passes.mpr found] at ran
  obtain ⟨idx, done, listed⟩ := ran
  rw [done]
  constructor
  · rintro ⟨-, joined, -⟩
    exact joined.mp ⟨idx, rfl⟩
  · intro same
    refine ⟨by rintro ⟨⟩, iff_of_true ⟨idx, rfl⟩ same, ?_⟩
    rintro _ ⟨⟩
    rw [listed]
    exact ⟨sorter.perm _, sorter.ordered _⟩
 | some c =>
  have parts : ¬ shared c <+: shared b := by simpa using List.find?_some found
  cases outcome : comparison (digests b) d0 rest with
  | ok _ =>
   have none := passes.mp outcome
   rw [show (digests b).drop 1 = shared b from rfl, found] at none
   cases none
  | error stop =>
   rw [outcome] at ran panics
   have longer : stop = .panicked ↔ shared b <+: shared c := by
    rw [← Except.error.injEq (ε := Stop) (α := Unit), panics]
    constructor
    · rintro ⟨x, is, ahead⟩
      cases found.symm.trans is
      exact ahead
    · intro ahead
      exact ⟨c, found, ahead⟩
   rw [ran]
   constructor
   · rintro ⟨calm, -⟩ ahead
     exact calm (by rw [longer.mpr ahead])
   · intro short
     refine ⟨fun is => short (longer.mp (Except.error.inj is)),
      iff_of_false (by rintro ⟨_, ⟨⟩⟩) ?_, by rintro _ ⟨⟩⟩
     intro same
     exact parts (same c (List.mem_of_find?_eq_some found) ▸ List.prefix_rfl)

theorem equal_backups_joined :
  JoinsIdentical bySystem [imageFor "arm64" [[1], [2], [3]], imageFor "amd64" [[4], [2], [3]]] := by
 have same : ∀ c ∈ [imageFor "amd64" [[4], [2], [3]]],
  shared c = shared (imageFor "arm64" [[1], [2], [3]]) := by decide
 refine (buildIndex_joins_iff ?_).mpr same
 intro c member
 simp only [List.mem_cons, List.not_mem_nil, or_false] at member
 rcases member with rfl | rfl <;> exact ⟨rfl, by decide, ⟨_, rfl⟩, ⟨_, rfl⟩⟩

/-- Two images with the same metadata, where only the second has a data layer: the loop runs past
the end of the first. The other way round they are joined. -/
theorem longer_image_panics :
  ¬ JoinsIdentical bySystem [imageFor "amd64" [[1], [2]], imageFor "arm64" [[1], [2], [3]]] ∧
   ¬ JoinsIdentical bySystem [imageFor "amd64" [[1], [2], [3]], imageFor "arm64" [[1], [2]]] := by
 refine ⟨fun joined => joined.1 rfl, fun joined => ?_⟩
 have same := joined.2.1.mp ⟨_, rfl⟩
 exact absurd (same _ List.mem_cons_self _ (List.mem_cons_of_mem _ List.mem_cons_self)).1
  (by decide)

end BackImage.Ociimg.MultiArch
