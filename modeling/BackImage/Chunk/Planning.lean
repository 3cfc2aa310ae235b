/- source: pkg/chunk/plan.go, pkg/backup/stream.go, pkg/server/stream.go
  digest: The layer plan of an estimate: when it respects its limits, and when the server repeats
    it. -/

import BackImage.Chunk.Boundary
import BackImage.Lib.Sequence
import BackImage.Lib.Wrap

namespace BackImage.Chunk.Planning

open Boundary Go.Text Lib.Sequence Lib.Wrap

structure LayerLimits where
 maxDataLayers : Int64
 maxLayerBytes : Int64
 minLayerBytes : Int64
 targetLayerBytes : Int64
 deriving DecidableEq

def defaultLimits : LayerLimits := ⟨118, 5368709120, 16777216, 1073741824⟩

inductive PlanError
 | maxDataLayers (got : Int64)
 | minLayerBytes (got : Int64)
 | targetLayerBytes (got : Int64)
 deriving DecidableEq

inductive PlanWarning
 | grown (layerBytes maxDataLayers : Int64)
 | large (layerBytes : Int64)
 deriving DecidableEq

structure Plan where
 layerBytes : Int64
 layerCount : Int64
 chunkBytes : Int64
 warnings : List PlanWarning
 deriving DecidableEq

def ceilDiv (a b : Int64) : Int64 := (a + b - 1) / b

def clampChunkBytes (layerBytes : Int64) : Int64 :=
 let div := layerBytes / 64
 let div := if div < minChunkSize then minChunkSize else div
 if 67108864 < div then 67108864 else div

structure Sizing where
 layerBytes : Int64
 layerCount : Int64
 deriving DecidableEq

section Steps

variable (estimated : Int64) (limits : LayerLimits)

def grow (s : Sizing) : Sizing :=
 if limits.maxDataLayers < s.layerCount then
  ⟨ceilDiv estimated limits.maxDataLayers, limits.maxDataLayers⟩
 else s

def fill (s : Sizing) : Sizing :=
 if s.layerBytes < limits.minLayerBytes then
  ⟨limits.minLayerBytes, ceilDiv estimated limits.minLayerBytes⟩
 else s

def single (s : Sizing) : Sizing :=
 if s.layerCount = 1 then
  let bytes := if estimated < s.layerBytes then estimated else s.layerBytes
  ⟨if bytes < limits.minLayerBytes then limits.minLayerBytes else bytes, 1⟩
 else s

def targeted : Sizing := ⟨limits.targetLayerBytes, ceilDiv estimated limits.targetLayerBytes⟩

/-- The sizes before the case of a single layer. -/
def filled : Sizing :=
 fill estimated limits (grow estimated limits (targeted estimated limits))

def sizing : Sizing := single estimated limits (filled estimated limits)

def warningsOf (s : Sizing) : List PlanWarning :=
 (if limits.maxDataLayers < ceilDiv estimated limits.targetLayerBytes then
  [.grown (ceilDiv estimated limits.maxDataLayers) limits.maxDataLayers] else []) ++
 (if limits.maxLayerBytes < s.layerBytes then [.large s.layerBytes] else [])

def planLayers : Except PlanError Plan :=
 if limits.maxDataLayers < 1 then .error (.maxDataLayers limits.maxDataLayers)
 else if limits.minLayerBytes < 1 then .error (.minLayerBytes limits.minLayerBytes)
 else if limits.targetLayerBytes < 1 then .error (.targetLayerBytes limits.targetLayerBytes)
 else if estimated ≤ 0 then
  .ok ⟨limits.minLayerBytes, 1, clampChunkBytes limits.minLayerBytes, []⟩
 else
  let s := sizing estimated limits
  .ok ⟨s.layerBytes, s.layerCount, clampChunkBytes s.layerBytes, warningsOf estimated limits s⟩

end Steps

/-- The limits are those that `PlanLayers` accepts. -/
structure Usable (limits : LayerLimits) : Prop where
 layers : 1 ≤ limits.maxDataLayers.toInt
 least : 1 ≤ limits.minLayerBytes.toInt
 target : 1 ≤ limits.targetLayerBytes.toInt

section Division

variable {a b : Int64}

def ceiling (a b : Int) : Int := (a + b - 1) / b

theorem le_ceiling_mul {a b : Int} (positive : 0 < b) : a ≤ ceiling a b * b := by
 have split := Int.emod_add_mul_ediv (a + b - 1) b
 have rest := Int.emod_lt_of_pos (a + b - 1) positive
 unfold ceiling
 rw [Int.mul_comm]
 omega

theorem ceiling_le {a b c : Int} (positive : 0 < b) (covers : a ≤ c * b) : ceiling a b ≤ c := by
 unfold ceiling
 have below : (a + b - 1) / b < c + 1 := by
  apply Int.ediv_lt_of_lt_mul positive
  rw [Int.add_mul]
  omega
 omega

theorem lt_ceiling_iff {a b c : Int} (positive : 0 < b) : c < ceiling a b ↔ c * b < a := by
 constructor
 · intro more
   by_contra covers
   have less := ceiling_le positive (Int.not_lt.mp covers)
   omega
 · intro less
   by_contra few
   have covers := le_ceiling_mul positive (a := a)
   have bounded := Int.mul_le_mul_of_nonneg_right (Int.not_lt.mp few) (Int.le_of_lt positive)
   omega

theorem ceiling_pos {a b : Int} (some_input : 0 < a) (positive : 0 < b) : 1 ≤ ceiling a b := by
 have more := (lt_ceiling_iff (c := 0) positive (a := a)).mpr (by omega)
 omega

/-- The sum that `ceilDiv` forms. -/
def SumFits (a b : Int64) : Prop := a.toInt + b.toInt ≤ bound

instance : Decidable (SumFits a b) := inferInstanceAs (Decidable (_ ≤ _))

theorem toInt_sum (a b : Int64) : (a + b - 1).toInt = (a.toInt + b.toInt - 1).bmod (2 ^ 64) := by
 have one : (1 : Int64).toInt = 1 := rfl
 rw [Int64.toInt_sub, Int64.toInt_add, one, Int.bmod_sub_bmod]

theorem toInt_ceilDiv (some_input : 0 < a.toInt) (positive : 0 < b.toInt) (fits : SumFits a b) :
  (ceilDiv a b).toInt = ceiling a.toInt b.toInt := by
 have other : b ≠ -1 := by
  rintro rfl
  exact absurd positive (by decide)
 have exact_sum : (a + b - 1).toInt = a.toInt + b.toInt - 1 := by
  unfold SumFits bound at fits
  rw [toInt_sum]
  apply Int.bmod_eq_of_le <;> omega
 unfold ceilDiv ceiling
 rw [Int64.toInt_div_of_ne_right _ _ other, exact_sum, Int.tdiv_eq_ediv_of_nonneg]
 omega

theorem ceilDiv_nonpos (positive : 0 < b.toInt) (wraps : ¬ SumFits a b) :
  (ceilDiv a b).toInt ≤ 0 := by
 have other : b ≠ -1 := by
  rintro rfl
  exact absurd positive (by decide)
 have high := a.toInt_lt
 have top := b.toInt_lt
 have negative : (a + b - 1).toInt ≤ 0 := by
  unfold SumFits bound at wraps
  rw [toInt_sum, Int.bmod_def]
  split <;> omega
 unfold ceilDiv
 rw [Int64.toInt_div_of_ne_right _ _ other]
 exact (Int.tdiv_le_tdiv positive negative).trans (Int.zero_tdiv _).le

end Division

/-- What a plan is for: within the limits, and large enough for the estimate. -/
structure Respects (estimated : Int64) (limits : LayerLimits) (p : Plan) : Prop where
 some_layer : 1 ≤ p.layerCount.toInt
 few : p.layerCount.toInt ≤ limits.maxDataLayers.toInt
 filled : limits.minLayerBytes.toInt ≤ p.layerBytes.toInt
 least_chunk : (1048576 : Int) ≤ p.chunkBytes.toInt
 largest_chunk : p.chunkBytes.toInt ≤ 67108864
 covers : estimated.toInt ≤ p.layerCount.toInt * p.layerBytes.toInt

/-- No sum that `PlanLayers` rounds up with wraps, or the only one that wraps is made up for by the
minimum size. -/
def Exact (estimated : Int64) (limits : LayerLimits) : Prop :=
 let most := limits.maxDataLayers
 let least := limits.minLayerBytes
 let target := limits.targetLayerBytes
 estimated.toInt ≤ 0 ∨ SumFits estimated target ∧
  (if ceiling estimated.toInt target.toInt ≤ most.toInt then target.toInt < least.toInt →
   SumFits estimated least
  else if SumFits estimated most then
   ceiling estimated.toInt most.toInt < least.toInt → SumFits estimated least
  else SumFits estimated least ∧ estimated.toInt ≤ most.toInt * least.toInt)

theorem clampChunkBytes_bounds (layerBytes : Int64) :
  (1048576 : Int) ≤ (clampChunkBytes layerBytes).toInt ∧
   (clampChunkBytes layerBytes).toInt ≤ 67108864 := by
 have least : minChunkSize.toInt = 1048576 := rfl
 have most : (67108864 : Int64).toInt = 67108864 := rfl
 unfold clampChunkBytes
 rw [toInt_min, toInt_max, least, most]
 omega

section Sizes

variable {estimated : Int64} {limits : LayerLimits} {s : Sizing}

structure Good (estimated : Int64) (limits : LayerLimits) (s : Sizing) : Prop where
 some_layer : 1 ≤ s.layerCount.toInt
 few : s.layerCount.toInt ≤ limits.maxDataLayers.toInt
 filled : limits.minLayerBytes.toInt ≤ s.layerBytes.toInt
 covers : estimated.toInt ≤ s.layerCount.toInt * s.layerBytes.toInt

theorem good_least_iff (some_input : 0 < estimated.toInt) (usable : Usable limits) :
  Good estimated limits ⟨limits.minLayerBytes, ceilDiv estimated limits.minLayerBytes⟩ ↔
   SumFits estimated limits.minLayerBytes ∧
    estimated.toInt ≤ limits.maxDataLayers.toInt * limits.minLayerBytes.toInt := by
 have positive : 0 < limits.minLayerBytes.toInt := usable.least
 by_cases fits : SumFits estimated limits.minLayerBytes
 · have count := toInt_ceilDiv some_input positive fits
   constructor
   · intro good
     refine ⟨fits, ?_⟩
     have covers := le_ceiling_mul positive (a := estimated.toInt)
     have few := good.few
     rw [count] at few
     have bounded := Int.mul_le_mul_of_nonneg_right few (Int.le_of_lt positive)
     omega
   · rintro ⟨-, covers⟩
     refine ⟨?_, ?_, Int.le_refl _, ?_⟩
     · rw [count]
       exact ceiling_pos some_input positive
     · rw [count]
       exact ceiling_le positive covers
     · rw [count]
       exact le_ceiling_mul positive
 · have none_left := ceilDiv_nonpos (a := estimated) positive fits
   constructor
   · intro good
     have some_layer := good.some_layer
     dsimp only at some_layer
     omega
   · rintro ⟨impossible, -⟩
     exact absurd impossible fits

theorem good_single_iff (filled : limits.minLayerBytes.toInt ≤ s.layerBytes.toInt) :
  Good estimated limits (single estimated limits s) ↔ Good estimated limits s := by
 unfold single
 split
 · rename_i one
   have count : s.layerCount.toInt = 1 := by
    rw [one]
    rfl
   have single_count : (1 : Int64).toInt = 1 := rfl
   constructor
   · rintro ⟨-, few, -, covers⟩
     rw [toInt_max, toInt_min, single_count] at covers
     rw [single_count] at few
     refine ⟨by omega, by omega, filled, ?_⟩
     rw [count]
     omega
   · rintro ⟨-, few, -, covers⟩
     rw [count] at few covers
     refine ⟨by rw [single_count], by rw [single_count]; exact few, ?_, ?_⟩
     · rw [toInt_max]
       omega
     · rw [toInt_max, toInt_min, single_count]
       omega
 · exact Iff.rfl

theorem least_le_filled :
  limits.minLayerBytes.toInt ≤ (filled estimated limits).layerBytes.toInt := by
 unfold filled fill
 split
 · exact Int.le_refl _
 · rename_i enough
   rw [Int64.lt_iff_toInt_lt] at enough
   exact Int.not_lt.mp enough

theorem good_fill_of_small (small : s.layerBytes.toInt < limits.minLayerBytes.toInt)
  (some_input : 0 < estimated.toInt) (usable : Usable limits) :
  Good estimated limits (fill estimated limits s) ↔ SumFits estimated limits.minLayerBytes ∧
   estimated.toInt ≤ limits.maxDataLayers.toInt * limits.minLayerBytes.toInt := by
 unfold fill
 rw [if_pos (Int64.lt_iff_toInt_lt.mpr small)]
 exact good_least_iff some_input usable

theorem fill_of_large (large : limits.minLayerBytes.toInt ≤ s.layerBytes.toInt) :
  fill estimated limits s = s := by
 unfold fill
 rw [if_neg]
 rw [Int64.lt_iff_toInt_lt]
 omega

theorem grow_of_few (few : s.layerCount.toInt ≤ limits.maxDataLayers.toInt) :
  grow estimated limits s = s := by
 unfold grow
 rw [if_neg]
 rw [Int64.lt_iff_toInt_lt]
 omega

theorem grow_of_many (many : limits.maxDataLayers.toInt < s.layerCount.toInt) :
  grow estimated limits s = ⟨ceilDiv estimated limits.maxDataLayers, limits.maxDataLayers⟩ := by
 unfold grow
 rw [if_pos (Int64.lt_iff_toInt_lt.mpr many)]

section

variable (some_input : 0 < estimated.toInt) (usable : Usable limits)

include some_input usable

theorem not_good_of_wraps
  (wraps : ¬ SumFits estimated limits.targetLayerBytes) :
  ¬ Good estimated limits (filled estimated limits) := by
 have none_left := ceilDiv_nonpos (a := estimated) usable.target wraps
 have layers := usable.layers
 rw [filled, grow_of_few (s := targeted estimated limits) (by unfold targeted; dsimp only; omega)]
 by_cases small : limits.targetLayerBytes.toInt < limits.minLayerBytes.toInt
 · rw [good_fill_of_small
    (s := targeted estimated limits) small some_input usable]
   rintro ⟨fits, -⟩
   unfold SumFits at fits wraps
   omega
 · rw [fill_of_large (s := targeted estimated limits) (Int.not_lt.mp small)]
   intro good
   have some_layer := good.some_layer
   unfold targeted at some_layer
   dsimp only at some_layer
   omega

theorem good_few_iff (fits : SumFits estimated limits.targetLayerBytes)
  (few : ceiling estimated.toInt limits.targetLayerBytes.toInt ≤ limits.maxDataLayers.toInt) :
  Good estimated limits (filled estimated limits) ↔
   (limits.targetLayerBytes.toInt < limits.minLayerBytes.toInt →
    SumFits estimated limits.minLayerBytes) := by
 have target := usable.target
 have count := toInt_ceilDiv some_input target fits
 have covers := le_ceiling_mul target (a := estimated.toInt)
 rw [filled, grow_of_few (s := targeted estimated limits) (by rw [targeted, count]; exact few)]
 by_cases small : limits.targetLayerBytes.toInt < limits.minLayerBytes.toInt
 · have enough : estimated.toInt ≤ limits.maxDataLayers.toInt * limits.minLayerBytes.toInt := by
    have layers := usable.layers
    calc estimated.toInt
      ≤ ceiling estimated.toInt limits.targetLayerBytes.toInt * limits.targetLayerBytes.toInt :=
       covers
     _ ≤ limits.maxDataLayers.toInt * limits.minLayerBytes.toInt :=
       Int.mul_le_mul few (Int.le_of_lt small) (by omega) (by omega)
   rw [good_fill_of_small (s := targeted estimated limits) small some_input usable,
    and_iff_left enough]
   exact ⟨fun least _ => least, fun least => least small⟩
 · rw [fill_of_large (s := targeted estimated limits) (Int.not_lt.mp small)]
   refine iff_of_true ⟨?_, ?_, Int.not_lt.mp small, ?_⟩ fun is => absurd is small
   · rw [targeted, count]
     exact ceiling_pos some_input target
   · rw [targeted, count]
     exact few
   · rw [targeted, count]
     exact covers

theorem good_many_iff (fits : SumFits estimated limits.targetLayerBytes)
  (many : limits.maxDataLayers.toInt < ceiling estimated.toInt limits.targetLayerBytes.toInt) :
  Good estimated limits (filled estimated limits) ↔
   if SumFits estimated limits.maxDataLayers then
    ceiling estimated.toInt limits.maxDataLayers.toInt < limits.minLayerBytes.toInt →
     SumFits estimated limits.minLayerBytes
   else SumFits estimated limits.minLayerBytes ∧
    estimated.toInt ≤ limits.maxDataLayers.toInt * limits.minLayerBytes.toInt := by
 have layers := usable.layers
 have least := usable.least
 rw [filled, grow_of_many (s := targeted estimated limits)
  (by rw [targeted, toInt_ceilDiv some_input usable.target fits]; exact many)]
 by_cases grows : SumFits estimated limits.maxDataLayers
 · have size := toInt_ceilDiv some_input layers grows
   have covers := le_ceiling_mul layers (a := estimated.toInt)
   rw [if_pos grows]
   by_cases small : ceiling estimated.toInt limits.maxDataLayers.toInt < limits.minLayerBytes.toInt
   · have enough : estimated.toInt ≤ limits.maxDataLayers.toInt * limits.minLayerBytes.toInt := by
      rw [Int.mul_comm]
      exact covers.trans (Int.mul_le_mul_of_nonneg_right (Int.le_of_lt small) (by omega))
     rw [good_fill_of_small (by rw [size]; exact small) some_input usable, and_iff_left enough]
     exact ⟨fun least _ => least, fun least => least small⟩
   · rw [fill_of_large (by rw [size]; exact Int.not_lt.mp small)]
     refine iff_of_true ⟨layers, Int.le_refl _, ?_, ?_⟩ fun is => absurd is small
     · rw [size]
       exact Int.not_lt.mp small
     · rw [size, Int.mul_comm]
       exact covers
 · have none_left := ceilDiv_nonpos (a := estimated) layers grows
   rw [if_neg grows]
   exact good_fill_of_small (by dsimp only; omega) some_input usable

theorem good_sizing_iff : Good estimated limits (sizing estimated limits) ↔
  Exact estimated limits := by
 unfold sizing Exact
 rw [good_single_iff least_le_filled]
 dsimp only
 rw [or_iff_right (show ¬ estimated.toInt ≤ 0 by omega)]
 by_cases fits : SumFits estimated limits.targetLayerBytes
 · rw [and_iff_right fits]
   by_cases few : ceiling estimated.toInt limits.targetLayerBytes.toInt ≤ limits.maxDataLayers.toInt
   · rw [if_pos few]
     exact good_few_iff some_input usable fits few
   · rw [if_neg few]
     exact good_many_iff some_input usable fits (Int.not_le.mp few)
 · exact iff_of_false (not_good_of_wraps some_input usable fits) fun both => fits both.1

end

theorem planLayers_usable (usable : Usable limits) :
  planLayers estimated limits = if estimated ≤ 0 then
    .ok ⟨limits.minLayerBytes, 1, clampChunkBytes limits.minLayerBytes, []⟩
   else .ok ⟨(sizing estimated limits).layerBytes, (sizing estimated limits).layerCount,
    clampChunkBytes (sizing estimated limits).layerBytes,
    warningsOf estimated limits (sizing estimated limits)⟩ := by
 have one : (1 : Int64).toInt = 1 := rfl
 obtain ⟨layers, least, target⟩ := usable
 unfold planLayers
 rw [if_neg (by rw [Int64.lt_iff_toInt_lt, one]; omega),
  if_neg (by rw [Int64.lt_iff_toInt_lt, one]; omega),
  if_neg (by rw [Int64.lt_iff_toInt_lt, one]; omega)]

theorem usable_of_plan {p : Plan} (planned : planLayers estimated limits = .ok p) :
  Usable limits := by
 have one : (1 : Int64).toInt = 1 := rfl
 unfold planLayers at planned
 obtain ⟨layers, planned⟩ := guard_ok.mp planned
 obtain ⟨least, planned⟩ := guard_ok.mp planned
 obtain ⟨target, -⟩ := guard_ok.mp planned
 rw [Int64.lt_iff_toInt_lt, one] at layers least target
 exact ⟨by omega, by omega, by omega⟩

end Sizes

/-- With limits it accepts, `PlanLayers` returns a plan within them exactly when no sum it rounds up
with wraps, but for the one case that the minimum size makes up for. -/
theorem plan_respects_iff (estimated : Int64) (limits : LayerLimits) (usable : Usable limits) :
  (∃ p, planLayers estimated limits = .ok p ∧ Respects estimated limits p) ↔
  Exact estimated limits := by
 have zero := Int64.toInt_zero
 rw [planLayers_usable usable]
 by_cases nothing : estimated ≤ 0
 · rw [if_pos nothing]
   rw [Int64.le_iff_toInt_le, zero] at nothing
   refine iff_of_true ⟨_, rfl, ?_⟩ (.inl nothing)
   obtain ⟨layers, least, -⟩ := usable
   have bounds := clampChunkBytes_bounds limits.minLayerBytes
   have one : (1 : Int64).toInt = 1 := rfl
   refine ⟨by rw [one], by rw [one]; exact layers, Int.le_refl _, bounds.1, bounds.2, ?_⟩
   dsimp only
   rw [one]
   omega
 · rw [if_neg nothing]
   rw [Int64.le_iff_toInt_le, zero] at nothing
   rw [← good_sizing_iff (Int.not_le.mp nothing) usable]
   constructor
   · rintro ⟨p, is, respects⟩
     cases is
     exact ⟨respects.some_layer, respects.few, respects.filled, respects.covers⟩
   · intro good
     have bounds := clampChunkBytes_bounds (sizing estimated limits).layerBytes
     exact ⟨_, rfl, good.some_layer, good.few, good.filled, bounds.1, bounds.2, good.covers⟩

/-- One byte less than 8 EiB: the sum wraps, and the plan has a negative number of layers. -/
theorem negative_layer_count : Usable defaultLimits ∧
   planLayers 9223372036854775807 defaultLimits = .ok ⟨1073741824, -8589934591, 16777216, []⟩ ∧
   ¬ ∃ p, planLayers 9223372036854775807 defaultLimits = .ok p ∧
    Respects 9223372036854775807 defaultLimits p := by
 have planned : planLayers 9223372036854775807 defaultLimits =
   .ok ⟨1073741824, -8589934591, 16777216, []⟩ := by decide
 refine ⟨⟨by decide, by decide, by decide⟩, planned, ?_⟩
 rintro ⟨p, is, respects⟩
 rw [planned] at is
 cases is
 exact absurd respects.some_layer (by decide)

theorem three_layers_respected : Usable defaultLimits ∧ Exact 3221225472 defaultLimits ∧
   ∃ p, planLayers 3221225472 defaultLimits = .ok p ∧ Respects 3221225472 defaultLimits p := by
 have usable : Usable defaultLimits := ⟨by decide, by decide, by decide⟩
 have fits : Exact 3221225472 defaultLimits :=
  .inr ⟨by decide, by
   rw [if_pos (by decide)]
   intro small
   exact absurd small (by decide)⟩
 exact ⟨usable, fits, (plan_respects_iff 3221225472 defaultLimits usable).mpr fits⟩

structure NoWrap (estimated : Int64) (limits : LayerLimits) : Prop where
 target : SumFits estimated limits.targetLayerBytes
 grown : limits.maxDataLayers < ceilDiv estimated limits.targetLayerBytes →
  SumFits estimated limits.maxDataLayers
 filled : (grow estimated limits (targeted estimated limits)).layerBytes < limits.minLayerBytes →
  SumFits estimated limits.minLayerBytes

def LayerLimits.withTarget (limits : LayerLimits) (target : Int64) : LayerLimits :=
 { limits with targetLayerBytes := target }

def clientLimits (maxLayerSize : Int64) : LayerLimits :=
 if 0 < maxLayerSize then defaultLimits.withTarget maxLayerSize else defaultLimits

def announced (estimated : Int64) (p : Plan) : UInt64 × UInt64 :=
 (estimated.toUInt64, p.layerBytes.toUInt64)

/-- The plan of `newStreamBuilder`. -/
def serverPlan (start : UInt64 × UInt64) : Except PlanError Plan :=
 planLayers start.1.toInt64
  (if 0 < start.2 then defaultLimits.withTarget start.2.toInt64 else defaultLimits)

section Again

variable {estimated : Int64} {limits : LayerLimits}

section

variable (some_input : 0 < estimated.toInt) (usable : Usable limits)
 (none_wraps : NoWrap estimated limits)

include some_input usable none_wraps

theorem exact_of_noWrap : Exact estimated limits := by
 obtain ⟨fits, grown, filled⟩ := none_wraps
 have count := toInt_ceilDiv some_input usable.target fits
 refine .inr ⟨fits, ?_⟩
 split
 · rename_i few
   intro small
   apply filled
   rw [grow_of_few (s := targeted estimated limits) (by rw [targeted, count]; exact few)]
   exact Int64.lt_iff_toInt_lt.mpr small
 · rename_i few
   have many : limits.maxDataLayers.toInt < (ceilDiv estimated limits.targetLayerBytes).toInt := by
    rw [count]
    exact Int.not_le.mp few
   have grows := grown (Int64.lt_iff_toInt_lt.mpr many)
   rw [if_pos grows]
   intro small
   apply filled
   rw [grow_of_many (s := targeted estimated limits) many, Int64.lt_iff_toInt_lt,
    toInt_ceilDiv some_input usable.layers grows]
   exact small

theorem filled_cases : let s := filled estimated limits
  s.layerCount.toInt = ceiling estimated.toInt s.layerBytes.toInt ∨
   s.layerCount = limits.maxDataLayers ∧
    s.layerBytes.toInt = ceiling estimated.toInt limits.maxDataLayers.toInt ∧
    limits.maxDataLayers.toInt < estimated.toInt := by
 obtain ⟨fits, grown, fills⟩ := none_wraps
 have count := toInt_ceilDiv some_input usable.target fits
 unfold filled
 by_cases small : (grow estimated limits (targeted estimated limits)).layerBytes <
  limits.minLayerBytes
 · left
   unfold fill
   rw [if_pos small]
   exact toInt_ceilDiv some_input usable.least (fills small)
 · unfold fill
   rw [if_neg small]
   by_cases few : (targeted estimated limits).layerCount.toInt ≤ limits.maxDataLayers.toInt
   · left
     rw [grow_of_few few]
     exact count
   · have many := Int.not_le.mp few
     right
     rw [grow_of_many many]
     refine ⟨rfl, toInt_ceilDiv some_input usable.layers (grown (Int64.lt_iff_toInt_lt.mpr many)),
      ?_⟩
     rw [targeted, count, lt_ceiling_iff usable.target] at many
     have target := usable.target
     have layers := usable.layers
     have least := Int.mul_le_mul_of_nonneg_left target
      (show 0 ≤ limits.maxDataLayers.toInt by omega)
     omega

theorem sizing_tight (holds : estimated.toInt ≤ (sizing estimated limits).layerBytes.toInt) :
  (sizing estimated limits).layerBytes.toInt = max estimated.toInt limits.minLayerBytes.toInt := by
 have good := (good_sizing_iff some_input usable).mpr (exact_of_noWrap some_input usable none_wraps)
 have cases_of := filled_cases some_input usable none_wraps
 have least := @least_le_filled estimated limits
 have some_bytes := usable.least
 have layers := usable.layers
 unfold sizing at good holds ⊢
 generalize filled estimated limits = s at good cases_of holds least ⊢
 rw [good_single_iff least] at good
 have covers := good.covers
 have some_layer := good.some_layer
 have single_count : (1 : Int64).toInt = 1 := rfl
 by_cases one : s.layerCount = 1
 · unfold single
   rw [if_pos one, toInt_max, toInt_min]
   rw [one, single_count] at covers
   omega
 · -- more than one layer: none of them holds everything
   exfalso
   have more : 1 < s.layerCount.toInt := by
    have other : s.layerCount.toInt ≠ 1 :=
     fun is => one (Int64.toInt_inj.mp (is.trans single_count.symm))
    omega
   unfold single at holds
   rw [if_neg one] at holds
   rcases cases_of with count | ⟨count, size, less⟩
   · rw [count, lt_ceiling_iff (by omega)] at more
     omega
   · rw [count] at more
     have two := Int.mul_le_mul_of_nonneg_left
      (show (2 : Int) ≤ limits.maxDataLayers.toInt by omega)
      (show 0 ≤ estimated.toInt - 1 by omega)
     have shorter := ceiling_le (a := estimated.toInt) (c := estimated.toInt - 1)
      (show 0 < limits.maxDataLayers.toInt by omega) (by omega)
     omega

theorem sizing_again (fits : SumFits estimated (sizing estimated limits).layerBytes) :
  let again := sizing estimated (limits.withTarget (sizing estimated limits).layerBytes)
  again.layerBytes = (sizing estimated limits).layerBytes ∧
   again.layerCount ≤ (sizing estimated limits).layerCount := by
 have good := (good_sizing_iff some_input usable).mpr (exact_of_noWrap some_input usable none_wraps)
 have tight := sizing_tight some_input usable none_wraps
 generalize sizing estimated limits = s at good tight fits ⊢
 have positive : 0 < s.layerBytes.toInt := by
  have least := usable.least
  have filled := good.filled
  omega
 have count := toInt_ceilDiv some_input positive fits
 have fewer := ceiling_le positive good.covers
 have few := good.few
 have target : targeted estimated (limits.withTarget s.layerBytes) =
  ⟨s.layerBytes, ceilDiv estimated s.layerBytes⟩ :=
  rfl
 have kept : filled estimated (limits.withTarget s.layerBytes) =
   ⟨s.layerBytes, ceilDiv estimated s.layerBytes⟩ := by
  rw [filled, target, grow_of_few, fill_of_large]
  · exact good.filled
  · rw [count]
    exact fewer.trans few
 unfold sizing
 rw [kept]
 dsimp only
 unfold single
 dsimp only
 split
 · rename_i one
   have holds : estimated.toInt ≤ s.layerBytes.toInt := by
    have covers := le_ceiling_mul positive (a := estimated.toInt)
    have single_count : (1 : Int64).toInt = 1 := rfl
    rw [← count, one, single_count] at covers
    omega
   constructor
   · apply Int64.toInt_inj.mp
     have least : (limits.withTarget s.layerBytes).minLayerBytes = limits.minLayerBytes := rfl
     rw [toInt_max, toInt_min, least, tight holds]
     omega
   · rw [Int64.le_iff_toInt_le]
     exact good.some_layer
 · refine ⟨rfl, ?_⟩
   rw [Int64.le_iff_toInt_le, count]
   exact fewer

end

end Again

theorem planLayers_again {estimated : Int64} {limits : LayerLimits} {p : Plan}
  (planned : planLayers estimated limits = .ok p) (first : NoWrap estimated limits)
  (fits : SumFits estimated p.layerBytes) :
  ∃ q, planLayers estimated (limits.withTarget p.layerBytes) = .ok q ∧ q.layerBytes = p.layerBytes ∧
   q.chunkBytes = p.chunkBytes ∧ q.layerCount ≤ p.layerCount := by
 have usable := usable_of_plan planned
 have zero := Int64.toInt_zero
 have usable_again (filled : limits.minLayerBytes.toInt ≤ p.layerBytes.toInt) :
   Usable (limits.withTarget p.layerBytes) :=
  ⟨usable.layers, usable.least, usable.least.trans filled⟩
 rw [planLayers_usable usable] at planned
 by_cases nothing : estimated ≤ 0
 · rw [if_pos nothing] at planned
   cases planned
   rw [planLayers_usable (usable_again (Int.le_refl _)), if_pos nothing]
   exact ⟨_, rfl, rfl, rfl, Int64.le_refl _⟩
 · rw [if_neg nothing] at planned
   cases planned
   have some_input : 0 < estimated.toInt := by
    rw [Int64.le_iff_toInt_le, zero] at nothing
    exact Int.not_le.mp nothing
   have good := (good_sizing_iff some_input usable).mpr (exact_of_noWrap some_input usable first)
   obtain ⟨same, fewer⟩ := sizing_again some_input usable first fits
   rw [planLayers_usable (usable_again good.filled), if_neg nothing]
   exact ⟨_, rfl, same, congrArg clampChunkBytes same, fewer⟩

/-- The server's plan of what a client announces has the client's sizes and no more layers. -/
theorem server_repeats_plan (estimated maxLayerSize : Int64) (limits : LayerLimits) (p : Plan)
  (planned : planLayers estimated limits = .ok p) (first : NoWrap estimated limits)
  (second : NoWrap estimated (limits.withTarget p.layerBytes)) :
  ∃ q, planLayers estimated (limits.withTarget p.layerBytes) = .ok q ∧ q.layerBytes = p.layerBytes ∧
   q.chunkBytes = p.chunkBytes ∧ q.layerCount ≤ p.layerCount ∧
   (limits = clientLimits maxLayerSize → serverPlan (announced estimated p) = .ok q) := by
 obtain ⟨q, again, layer, chunk, fewer⟩ := planLayers_again planned first second.target
 refine ⟨q, again, layer, chunk, fewer, ?_⟩
 rintro rfl
 have positive : 1 ≤ p.layerBytes.toInt := (usable_of_plan again).target
 have announces : (0 : UInt64) < p.layerBytes.toUInt64 := by
  apply UInt64.pos_iff_ne_zero.mpr
  intro zero
  rw [← Int64.toInt64_toUInt64 p.layerBytes, zero] at positive
  exact absurd positive (by decide)
 have limits_again : (clientLimits maxLayerSize).withTarget p.layerBytes =
   defaultLimits.withTarget p.layerBytes := by
  unfold clientLimits
  split <;> rfl
 unfold serverPlan announced
 dsimp only
 rw [if_pos announces, Int64.toInt64_toUInt64, Int64.toInt64_toUInt64, ← limits_again]
 exact again

/-- The plan of 3 GiB in layers of 1 GiB, client and server. -/
theorem three_layers_repeated : ∃ p q, planLayers 3221225472 defaultLimits = .ok p ∧
   planLayers 3221225472 (defaultLimits.withTarget p.layerBytes) = .ok q ∧
   q.layerBytes = p.layerBytes ∧
   serverPlan (announced 3221225472 p) = .ok q := by
 obtain ⟨q, again, layer, -, -, server⟩ := server_repeats_plan 3221225472 0 defaultLimits
  ⟨1073741824, 3, 16777216, []⟩ (by decide +kernel)
  ⟨by decide +kernel, by decide +kernel, by decide +kernel⟩
   ⟨by decide +kernel, by decide +kernel, by decide +kernel⟩
 exact ⟨_, q, by decide +kernel, again, layer, server (by decide +kernel)⟩

end BackImage.Chunk.Planning
