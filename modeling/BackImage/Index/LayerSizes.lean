/- source: pkg/backup/pipeline.go, pkg/server/stream.go, pkg/chunk/layerbound.go
  digest: How many layers the rule of both builders leaves, and how large the content boundary makes
    them. -/

import BackImage.Index.CutTables
import BackImage.Lib.CutRule

namespace BackImage.Index.LayerSizes

open Chunk.Boundary Go.Sha256 CutTables Model Lib.CutRule Lib.Wrap
open Go.Text (Bytes)
open Lib.Cut (cutting cut ne_nil_of_mem_cut)

section Boundary

variable {target bytes : Int64} {digest : Bytes}

theorem safeLayerMaximum_bounds (positive : 0 < target.toInt) :
  target.toInt ≤ (safeLayerMaximum target).toInt ∧
  (safeLayerMaximum target).toInt ≤ target.toInt * 4 := by
 have zero := Int64.toInt_zero
 have large : (2305843009213693951 : Int64).toInt = 2305843009213693951 := rfl
 have four : (4 : Int64).toInt = 4 := rfl
 have most : (9223372036854775807 : Int64).toInt = 9223372036854775807 := rfl
 have fits := toInt_fits target
 unfold Fits bound at fits
 have some_target : ¬ target ≤ 0 := by
  rw [Int64.le_iff_toInt_le, zero]
  omega
 unfold safeLayerMaximum
 simp only [some_target, decide_false, Bool.false_or, decide_eq_true_eq]
 by_cases huge : (2305843009213693951 : Int64) < target
 · rw [if_pos huge, most]
   rw [Int64.lt_iff_toInt_lt, large] at huge
   omega
 · rw [if_neg huge]
   rw [Int64.lt_iff_toInt_lt, large] at huge
   rw [Int64.toInt_mul, four, Int.bmod_eq_of_le] <;> omega

theorem quarter_toInt (positive : 0 < target.toInt) : (target / 4).toInt = target.toInt / 4 := by
 rw [Int64.toInt_div_of_ne_right _ _ (by decide), Int.tdiv_eq_ediv_of_nonneg (by omega)]
 rfl

def contentMask (target : Int64) : UInt64 :=
 let bitsN := bitsLen (((target + defaultAvg - 1) / defaultAvg).toUInt64 - 1)
 if 64 ≤ bitsN then 18446744073709551615 else (1 <<< UInt64.ofNat bitsN) - 1

theorem contentBoundary_eq (positive : 0 < target.toInt) (bytes : Int64) (digest : Bytes) :
  initialBoundary true target bytes digest =
   if safeLayerMaximum target ≤ bytes then true else if bytes < target / 4 then false
   else bigEndian64 digest &&& contentMask target == 0 := by
 have zero := Int64.toInt_zero
 obtain ⟨least, -⟩ := safeLayerMaximum_bounds positive
 have quarter := quarter_toInt positive
 have some_target : ¬ target ≤ 0 := by
  rw [Int64.le_iff_toInt_le, zero]
  omega
 have some_max : ¬ safeLayerMaximum target ≤ 0 := by
  rw [Int64.le_iff_toInt_le, zero]
  omega
 have above_min : ¬ safeLayerMaximum target < target / 4 := by
  rw [Int64.lt_iff_toInt_lt, quarter]
  omega
 have above_target : ¬ safeLayerMaximum target < target := by
  rw [Int64.lt_iff_toInt_lt]
  omega
 unfold initialBoundary contentBoundary contentMask
 simp only [if_true, if_neg some_target, ite_self, some_max, above_min, decide_false, Bool.or_self,
  Bool.false_eq_true, if_false, if_neg above_target]

theorem quarter_of_closes (positive : 0 < target.toInt)
  (closes : initialBoundary true target bytes digest = true) :
  target.toInt / 4 ≤ bytes.toInt := by
 obtain ⟨least, -⟩ := safeLayerMaximum_bounds positive
 have quarter := quarter_toInt positive
 rw [contentBoundary_eq positive] at closes
 by_cases full : safeLayerMaximum target ≤ bytes
 · rw [Int64.le_iff_toInt_le] at full
   omega
 · rw [if_neg full] at closes
   by_cases small : bytes < target / 4
   · rw [if_pos small] at closes
     cases closes
   · rw [Int64.lt_iff_toInt_lt, quarter] at small
     omega

theorem lt_of_stays (positive : 0 < target.toInt)
  (stays : initialBoundary true target bytes digest = false) :
  bytes.toInt < target.toInt * 4 := by
 obtain ⟨-, most⟩ := safeLayerMaximum_bounds positive
 rw [contentBoundary_eq positive] at stays
 by_cases full : safeLayerMaximum target ≤ bytes
 · rw [if_pos full] at stays
   cases stays
 · rw [Int64.le_iff_toInt_le] at full
   omega

end Boundary

section Rule

variable {policy : LayerPolicy} {boundary : LayerBoundary} {chunks : List StoredChunk}

theorem length_cutting_lt (boundary : LayerBoundary) (some_layer : 1 ≤ policy.maxLayers)
  (chunks : List StoredChunk) :
  ((cutting (rolls policy boundary) chunks).closed.length : Int) < policy.maxLayers := by
 have few := length_closed_le (rolls policy boundary) (n := (policy.maxLayers - 1).toNat)
  (fun closed g enough => if_pos (by omega)) chunks
 omega

theorem length_cut_le (boundary : LayerBoundary) (some_layer : 1 ≤ policy.maxLayers)
  (chunks : List StoredChunk) :
  ((cut (rolls policy boundary) chunks).length : Int) ≤ policy.maxLayers := by
 have few := length_cutting_lt boundary some_layer chunks
 have more := length_close_le (cutting (rolls policy boundary) chunks)
 unfold cut
 omega

theorem layerSize_concat_le (front : List StoredChunk) (s : StoredChunk) :
  (layerSize (front ++ [s])).toInt ≤ (layerSize front).toInt + s.stored.length ∨
   bound ≤ s.stored.length := by
 by_cases huge : bound ≤ s.stored.length
 · exact .inr huge
 · left
   have size : s.size.toInt = s.stored.length := toInt_ofNat_of_lt (Int.not_le.mp huge)
   have fits := toInt_fits (layerSize front)
   unfold Fits bound at fits
   rw [layerSize_append, Int64.toInt_add, size, Int.bmod_def]
   unfold bound at huge
   split <;> omega

/-- The sizes of a layer that the content boundary of a target closes. -/
structure Sized (target : Int64) (g : List StoredChunk) : Prop where
 least : target.toInt / 4 ≤ (layerSize g).toInt
 most : ∀ front s, g = front ++ [s] → (layerSize g).toInt < target.toInt * 4 + s.stored.length

theorem rolls_early {closed : List (List StoredChunk)} (budget : 110 < policy.maxLayers)
  (early : closed.length < 110) (g : List StoredChunk) :
  rolls policy boundary closed g = boundary (layerSize g) (lastDigest g) := by
 unfold rolls boundaryAfter
 rw [if_neg (by omega), if_neg (by omega)]

theorem sized_of_closed {target : Int64} {k : Nat} {g : List StoredChunk}
  (positive : 0 < target.toInt) (budget : 110 < policy.maxLayers) (early : k < 110)
  (at_k : (cutting (rolls policy (initialBoundary true target)) chunks).closed[k]? = some g) :
  Sized target g := by
 have ruled := ruled_cutting (rolls policy (initialBoundary true target)) chunks
 have few : ((cutting (rolls policy (initialBoundary true target)) chunks).closed.take k).length <
   110 := by
  rw [List.length_take]
  omega
 have closes := ruled.closes at_k
 rw [rolls_early budget few] at closes
 refine ⟨quarter_of_closes positive closes, ?_⟩
 rintro front s rfl
 have top := (toInt_fits (layerSize (front ++ [s]))).2
 rcases layerSize_concat_le front s with small | huge
 · by_cases first : front = []
   · subst first
     have zero : (layerSize []).toInt = 0 := rfl
     omega
   · have stays := ruled.no_sooner at_k first
     rw [rolls_early budget few] at stays
     have less := lt_of_stays positive stays
     omega
 · omega

theorem sized_of_cut {target : Int64} {k : Nat} {g : List StoredChunk} (positive : 0 < target.toInt)
  (budget : 110 < policy.maxLayers) (early : k < 110)
  (not_last : k + 1 < (cut (rolls policy (initialBoundary true target)) chunks).length)
  (at_k : (cut (rolls policy (initialBoundary true target)) chunks)[k]? = some g) :
  Sized target g := by
 apply sized_of_closed positive budget early
 unfold cut at at_k not_last
 rcases closed_close (cutting (rolls policy (initialBoundary true target)) chunks) with
  same | ⟨last, more⟩
 · rw [same] at at_k
   exact at_k
 · rw [more, List.length_append, List.length_singleton] at not_last
   rw [more, List.getElem?_append_left (by omega)] at at_k
   exact at_k

end Rule

def Records (info : LayerInfo) (g : List StoredChunk) : Prop :=
 info.digest = digestText (layerContent g) ∧ info.storedBytes = layerSize g

/-- The infos are those of the first layers of the cut of some chunks. -/
def Layered (policy : LayerPolicy) (boundary : LayerBoundary) (chunks : List StoredChunk)
  (infos : List LayerInfo) : Prop :=
 ∃ groups, groups <+: cut (rolls policy boundary) chunks ∧ List.Forall₂ Records infos groups

structure WithinBudget (policy : LayerPolicy) (boundary : LayerBoundary) (chunks : List StoredChunk)
  (infos : List LayerInfo) : Prop where
 few : infos.length ≤ 118
 filled : ∀ {k : Nat} {info : LayerInfo}, infos[k]? = some info →
  ∃ g, (cut (rolls policy boundary) chunks)[k]? = some g ∧ g ≠ [] ∧ Records info g ∧
   (((layerContent g).length : Int) < bound → info.storedBytes.toInt = (layerContent g).length) ∧
   ∀ target, boundary = initialBoundary true target → 0 < target.toInt → k < 110 →
    k + 1 < infos.length →
    Sized target g

theorem Layered.withinBudget {policy : LayerPolicy} {boundary : LayerBoundary}
  {chunks : List StoredChunk} {infos : List LayerInfo} (budget : policy.maxLayers = 118)
  (layered : Layered policy boundary chunks infos) :
  WithinBudget policy boundary chunks infos := by
 obtain ⟨groups, front, records⟩ := layered
 have lengths := records.length_eq
 have shorter := front.length_le
 refine ⟨?_, ?_⟩
 · have few := length_cut_le boundary (show 1 ≤ policy.maxLayers by omega) chunks
   omega
 · intro k info at_k
   have inside : k < groups.length := by
    have := (List.getElem?_eq_some_iff.mp at_k).1
    omega
   have here : (cut (rolls policy boundary) chunks)[k]? = some groups[k] :=
    List.prefix_iff_getElem?.mp front k inside
   have recorded : Records info groups[k] := by
    obtain ⟨small, rfl⟩ := List.getElem?_eq_some_iff.mp at_k
    exact records.get small inside
   refine ⟨groups[k], here, ne_nil_of_mem_cut (List.mem_of_getElem? here), recorded, ?_, ?_⟩
   · intro fits
     rw [recorded.2, layerSize_toInt fits]
   · rintro target rfl positive early not_last
     exact sized_of_cut positive (by omega) early (by omega) here

end BackImage.Index.LayerSizes
