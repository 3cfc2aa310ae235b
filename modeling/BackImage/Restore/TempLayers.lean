/- source: pkg/restore/source.go
  digest: The temporary layer files of a source: those on disk are those it knows of, and they are
    few. -/

import BackImage.Go.Text
import BackImage.Lib.Recency

namespace BackImage.Restore.TempLayers

open Go.Text Lib.Recency

/-- The temporary files of one source by number, and the layers they were unpacked for. A name taken
for a new file is unused, and removing an own file does not fail. -/
structure Temps where
 slots : Slots Int Nat
 files : List (Nat × Bytes)
 unused : Nat

def Temps.empty : Temps := ⟨.empty, [], 0⟩

def Temps.create (t : Temps) (content : Bytes) : Temps :=
 { t with files := put t.unused content t.files, unused := t.unused + 1 }

def Temps.remove (t : Temps) (file : Nat) : Temps := { t with files := drop file t.files }

def ephemeralLayerCap : Nat := 4

def dropEphemeral (dataLayer : Int) (t : Temps) : Temps :=
 match look dataLayer t.slots.held with
 | some file => { t.remove file with slots := t.slots.release dataLayer }
 | none => { t with slots := t.slots.release dataLayer }

def touchEphemeral (dataLayer : Int) (t : Temps) : Temps :=
 { t with slots := t.slots.touch dataLayer }

@[simp] theorem slots_dropEphemeral (k : Int) (t : Temps) :
  (dropEphemeral k t).slots = t.slots.release k := by
 unfold dropEphemeral
 split <;> rfl

/-- The loop of `keepEphemeral`. -/
def evict (t : Temps) : Temps :=
 if long : ephemeralLayerCap < t.slots.recent.length then
  evict (dropEphemeral (t.slots.recent.head (List.ne_nil_of_length_pos (by omega))) t)
 else t
termination_by t.slots.recent.length
decreasing_by
 rw [slots_dropEphemeral, Slots.release, List.length_erase_of_mem (List.head_mem _)]
 omega

def keepEphemeral (dataLayer : Int) (file : Nat) (t : Temps) : Temps :=
 evict { t with slots := ⟨put dataLayer file t.slots.held, t.slots.recent ++ [dataLayer]⟩ }

/-- What `Close` leaves. -/
def close (t : Temps) : Temps where
 slots := .empty
 files := t.files.filter fun f =>
  ¬ ∃ e ∈ t.slots.held, look e.1 t.slots.held = some f.1
 unused := t.unused

/-- What stands in the file of a layer. -/
def Temps.held (t : Temps) (k : Int) : Option Bytes :=
 (look k t.slots.held).bind fun file => look file t.files

/-- The files on disk are those of the layers in use, each of one layer. -/
structure Filed (t : Temps) : Prop where
 files : ∀ f, look f t.files ≠ none ↔ ∃ k, look k t.slots.held = some f
 distinct : ∀ k j f, look k t.slots.held = some f → look j t.slots.held = some f → k = j
 used : ∀ f, look f t.files ≠ none → f < t.unused

structure Tidy (t : Temps) : Prop extends Filed t where
 slots : t.slots.Consistent ephemeralLayerCap

theorem tidy_empty : Tidy .empty :=
 ⟨⟨by simp [Temps.empty, Slots.empty, look], by simp [Temps.empty, Slots.empty, look],
  by simp [Temps.empty, look]⟩, Slots.consistent_empty⟩

variable {t : Temps} {k j : Int} {content c : Bytes}

theorem Filed.drop (filed : Filed t) (k : Int) : Filed (dropEphemeral k t) := by
 unfold dropEphemeral
 cases found : look k t.slots.held with
 | none =>
  have same (j : Int) : look j (Lib.Recency.drop k t.slots.held) = look j t.slots.held := by
   by_cases own : j = k
   · rw [own, look_drop_self, found]
   · exact look_drop own
  refine ⟨?_, ?_, filed.used⟩ <;> simp only [Slots.release, same]
  · exact filed.files
  · exact filed.distinct
 | some file =>
  refine ⟨?_, ?_, ?_⟩
  · intro f
    change look f (Lib.Recency.drop file t.files) ≠ none ↔
     ∃ j, look j (Lib.Recency.drop k t.slots.held) = some f
    simp only [look_drop_eq_some]
    by_cases same : f = file
    · rw [same, look_drop_self]
      refine iff_of_false (by simp) ?_
      rintro ⟨j, other, held⟩
      exact other (filed.distinct j k file held found)
    · rw [look_drop same, filed.files]
      constructor
      · rintro ⟨j, held⟩
        refine ⟨j, ?_, held⟩
        rintro rfl
        exact same (Option.some.inj (held.symm.trans found))
      · rintro ⟨j, -, held⟩
        exact ⟨j, held⟩
  · intro i j f left right
    exact filed.distinct i j f (look_drop_eq_some.mp left).2 (look_drop_eq_some.mp right).2
  · intro f there
    obtain ⟨content, held⟩ := Option.ne_none_iff_exists'.mp there
    refine filed.used f ?_
    rw [(look_drop_eq_some.mp held).2]
    exact Option.some_ne_none content

theorem Filed.evict (filed : Filed t) : Filed (evict t) := by
 fun_induction TempLayers.evict t with
 | case1 t long ih => exact ih (filed.drop _)
 | case2 t short => exact filed

theorem slots_evict (t : Temps) : (evict t).slots = t.slots.evict ephemeralLayerCap := by
 fun_induction TempLayers.evict t with
 | case1 t long ih => rw [ih, slots_dropEphemeral, Slots.evict_release long]
 | case2 t short => rw [Slots.evict_of_le (Nat.not_lt.mp short)]

theorem slots_keepEphemeral (file : Nat) :
  (keepEphemeral k file t).slots = t.slots.keep ephemeralLayerCap k file :=
 slots_evict _

theorem held_dropEphemeral (found : (dropEphemeral k t).held j = some c) : t.held j = some c := by
 unfold Temps.held at found ⊢
 obtain ⟨file, known, stands⟩ := Option.bind_eq_some_iff.mp found
 rw [slots_dropEphemeral] at known
 rw [(look_drop_eq_some.mp known).2]
 unfold dropEphemeral at stands
 split at stands
 · exact (look_drop_eq_some.mp stands).2
 · exact stands

theorem held_evict (found : (evict t).held j = some c) : t.held j = some c := by
 fun_induction TempLayers.evict t with
 | case1 t long ih => exact held_dropEphemeral (ih found)
 | case2 t short => exact found

section

variable (filed : Filed t)

include filed

theorem Filed.unheld (k : Int) : look k t.slots.held ≠ some t.unused := by
 intro held
 exact Nat.lt_irrefl _ (filed.used _ ((filed.files _).mpr ⟨k, held⟩))

theorem Filed.add (absent : look k t.slots.held = none) (content : Bytes) :
  Filed { t.create content with slots :=
 ⟨put k t.unused t.slots.held, t.slots.recent ++ [k]⟩ } := by
 refine ⟨?_, ?_, ?_⟩
 · intro f
   change look f (put t.unused content t.files) ≠ none ↔
    ∃ j, look j (put k t.unused t.slots.held) = some f
   by_cases same : f = t.unused
   · rw [same, look_put]
     exact iff_of_true (by simp) ⟨k, look_put⟩
   · rw [look_put_of_ne same, filed.files]
     constructor
     · rintro ⟨j, held⟩
       refine ⟨j, ?_⟩
       rw [look_put_of_ne, held]
       rintro rfl
       rw [absent] at held
       cases held
     · rintro ⟨j, held⟩
       by_cases own : j = k
       · rw [own, look_put] at held
         exact absurd (Option.some.inj held).symm same
       · exact ⟨j, by rwa [look_put_of_ne own] at held⟩
 · intro i j f left right
   by_cases first : i = k <;> by_cases second : j = k
   · rw [first, second]
   · rw [first, look_put] at left
     rw [look_put_of_ne second, ← Option.some.inj left] at right
     exact absurd right (filed.unheld j)
   · rw [second, look_put] at right
     rw [look_put_of_ne first, ← Option.some.inj right] at left
     exact absurd left (filed.unheld i)
   · rw [look_put_of_ne first] at left
     rw [look_put_of_ne second] at right
     exact filed.distinct i j f left right
 · intro f there
   change look f (put t.unused content t.files) ≠ none at there
   change f < t.unused + 1
   by_cases same : f = t.unused
   · exact same ▸ Nat.lt_succ_self _
   · rw [look_put_of_ne same] at there
     exact Nat.lt_succ_of_lt (filed.used f there)

theorem held_keepEphemeral
  (found : (keepEphemeral k t.unused (t.create content)).held j = some c) :
  t.held j = some c ∨ j = k ∧ c = content := by
 obtain ⟨file, known, stands⟩ := Option.bind_eq_some_iff.mp (held_evict found)
 change look j (put k t.unused t.slots.held) = some file at known
 change look file (put t.unused content t.files) = some c at stands
 by_cases own : j = k
 · rw [own, look_put] at known
   rw [← Option.some.inj known, look_put] at stands
   exact .inr ⟨own, (Option.some.inj stands).symm⟩
 · rw [look_put_of_ne own] at known
   have old : file ≠ t.unused := fun same => filed.unheld j (same ▸ known)
   rw [look_put_of_ne old] at stands
   exact .inl (Option.bind_eq_some_iff.mpr ⟨file, known, stands⟩)

theorem look_discarded (content : Bytes) (f : Nat) :
  look f ((t.create content).remove t.unused).files = look f t.files := by
 change look f (drop t.unused (put t.unused content t.files)) = look f t.files
 by_cases own : f = t.unused
 · rw [own, look_drop_self]
   by_contra there
   exact Nat.lt_irrefl _ (filed.used _ (Ne.symm there))
 · rw [look_drop own, look_put_of_ne own]

theorem Filed.discard (content : Bytes) : Filed ((t.create content).remove t.unused) := by
 refine ⟨fun f => ?_, filed.distinct, fun f there => ?_⟩
 · rw [look_discarded filed]
   exact filed.files f
 · rw [look_discarded filed] at there
   exact Nat.lt_succ_of_lt (filed.used f there)

end

theorem Tidy.drop (tidy : Tidy t) (k : Int) : Tidy (dropEphemeral k t) := by
 refine ⟨tidy.toFiled.drop k, ?_⟩
 rw [slots_dropEphemeral]
 exact tidy.slots.release k

section

variable (tidy : Tidy t) (absent : look k t.slots.held = none)

include tidy absent

theorem Tidy.unlisted : k ∉ t.slots.recent := by
 rw [tidy.slots.iff, absent]
 exact fun none => none rfl

theorem Tidy.keep (content : Bytes) : Tidy (keepEphemeral k t.unused (t.create content)) := by
 refine ⟨(tidy.toFiled.add absent content).evict, ?_⟩
 rw [slots_keepEphemeral]
 exact tidy.slots.keep (tidy.unlisted absent) t.unused

/-- The layer that is kept is not the one that is given up for it. -/
theorem look_keepEphemeral (content : Bytes) :
  look t.unused (keepEphemeral k t.unused (t.create content)).files = some content := by
 have kept : look k (keepEphemeral k t.unused (t.create content)).slots.held = some t.unused := by
  rw [slots_keepEphemeral]
  exact tidy.slots.look_keep (by decide) (tidy.unlisted absent) t.unused
 have there := ((tidy.keep absent content).files t.unused).mpr ⟨k, kept⟩
 obtain ⟨c, stands⟩ := Option.ne_none_iff_exists'.mp there
 rcases held_keepEphemeral tidy.toFiled (Option.bind_eq_some_iff.mpr ⟨_, kept, stands⟩) with
  old | new
 · rw [Temps.held, absent] at old
   cases old
 · rw [stands, new.2]

end

theorem Tidy.touch (tidy : Tidy t) {file : Nat} (held : look k t.slots.held = some file) :
  Tidy (touchEphemeral k t) :=
 ⟨{ tidy with }, tidy.slots.touch (by simp [tidy.slots.iff, held])⟩

theorem Filed.close (filed : Filed t) : (close t).files = [] := by
 refine List.filter_eq_nil_iff.mpr ?_
 rintro ⟨file, content⟩ member
 have there : look file t.files ≠ none := fun none => look_eq_none.mp none _ member rfl
 obtain ⟨k, held⟩ := (filed.files file).mp there
 simp only [decide_eq_true_iff, not_not]
 exact ⟨(k, file), mem_of_look held, held⟩

end BackImage.Restore.TempLayers
