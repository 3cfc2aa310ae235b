/- source: none
  digest: Handles numbered as they are asked for, one held at a time, each settled exactly once. -/

import Mathlib.Tactic.Common

namespace BackImage.Lib.Ledger

universe u

variable {β : Type u}

/-- A handle is asked for, with or without success, used, or settled in one of several ways. -/
inductive Entry (β : Type u)
 | opened (h : Nat) (ok : Bool)
 | used (h : Nat)
 | settled (h : Nat) (way : β)
 deriving DecidableEq

/-- The entry is something done with the handle once it was given out. -/
def Entry.Touches (h : Nat) : Entry β → Prop
 | .opened _ _ => False
 | .used h' => h' = h
 | .settled h' _ => h' = h

/-- The number of the next handle, and the handle held. -/
structure Book where
 next : Nat
 held : Option Nat
 deriving DecidableEq

def Book.Sound (b : Book) : Prop := ∀ h, b.held = some h → h < b.next

/-- A handle is only asked for when none is held, and only the one held is used or settled. -/
inductive Post : Book → Entry β → Book → Prop
 | granted (n : Nat) : Post ⟨n, none⟩ (.opened n true) ⟨n + 1, some n⟩
 | refused (n : Nat) : Post ⟨n, none⟩ (.opened n false) ⟨n + 1, none⟩
 | used (n h : Nat) : Post ⟨n, some h⟩ (.used h) ⟨n, some h⟩
 | settled (n h : Nat) (way : β) : Post ⟨n, some h⟩ (.settled h way) ⟨n, none⟩

inductive Posts : Book → List (Entry β) → Book → Prop
 | nil (b : Book) : Posts b [] b
 | cons {b b' b'' : Book} {e : Entry β} {es : List (Entry β)} :
   Post b e b' → Posts b' es b'' → Posts b (e :: es) b''

/-- How an entry settles a handle, if it does. -/
def settlement (h : Nat) : Entry β → Option β
 | .opened _ _ => none
 | .used _ => none
 | .settled h' way => if h' = h then some way else none

/-- How a handle was settled, each time it was. -/
def settlements (h : Nat) (es : List (Entry β)) : List β := es.filterMap (settlement h)

@[simp] theorem settlements_opened (h n : Nat) (ok : Bool) (es : List (Entry β)) :
  settlements h (.opened n ok :: es) = settlements h es := rfl

theorem settlements_same (h : Nat) (way : β) (es : List (Entry β)) :
  settlements h (.settled h way :: es) = way :: settlements h es :=
 List.filterMap_cons_some (if_pos rfl)

variable {h : Nat}

theorem settlements_other {n : Nat} (other : n ≠ h) (way : β) (es : List (Entry β)) :
  settlements h (.settled n way :: es) = settlements h es :=
 List.filterMap_cons_none (if_neg other)

variable {es : List (Entry β)}

theorem settlements_eq_nil (untouched : ∀ e ∈ es, ¬ e.Touches h) : settlements h es = [] := by
 refine List.filterMap_eq_nil_iff.mpr ?_
 intro e member
 cases e with
 | opened n ok => rfl
 | used n => rfl
 | settled n way => exact if_neg (untouched _ member)

variable {b b' : Book}

theorem Posts.append {b'' : Book} {fs : List (Entry β)} (first : Posts b es b')
  (second : Posts b' fs b'') : Posts b (es ++ fs) b'' := by
 induction first with
 | nil b => exact second
 | cons post _ ih => exact .cons post (ih second)

theorem Post.sound {b b' : Book} {e : Entry β} (post : Post b e b') (sound : b.Sound) :
  b'.Sound := by
 cases post with
 | granted n =>
  rintro h ⟨⟩
  exact Nat.lt_succ_self n
 | refused n => exact fun h none_held => nomatch none_held
 | used n h => exact sound
 | settled n h way => exact fun h none_held => nomatch none_held

theorem untouched_of_spent (posts : Posts b es b')
  (old : h < b.next) (free : b.held ≠ some h) : ∀ e ∈ es, ¬ e.Touches h := by
 induction posts with
 | nil b => exact fun e member => nomatch member
 | cons post _ ih =>
  intro e member
  rcases List.mem_cons.mp member with rfl | later
  · cases post with
    | granted n => exact not_false
    | refused n => exact not_false
    | used n h' => exact fun same => free (congrArg some same)
    | settled n h' way => exact fun same => free (congrArg some same)
  · refine ih ?_ ?_ e later
    · cases post <;> (dsimp only at old ⊢; omega)
    · cases post with
      | granted n => exact fun same => absurd (Option.some.inj same) (Nat.ne_of_gt old)
      | refused n => exact fun same => nomatch same
      | used n h' => exact free
      | settled n h' way => exact fun same => nomatch same

theorem settled_of_held (posts : Posts b es b')
  (sound : b.Sound) (held : b.held = some h) (free : b'.held = none) :
  ∃ way, settlements h es = [way] := by
 induction posts with
 | nil b =>
  rw [held] at free
  cases free
 | cons post rest ih =>
  cases post with
  | granted n => cases held
  | refused n => cases held
  | used n h' => exact ih sound held free
  | settled n h' way =>
   cases held
   have spent := untouched_of_spent rest (sound h rfl) (fun same => nomatch same)
   exact ⟨way, by rw [settlements_same, settlements_eq_nil spent]⟩

theorem settled_of_granted (posts : Posts b es b')
  (sound : b.Sound) (free : b'.held = none) (granted : .opened h true ∈ es) :
  b.next ≤ h ∧ ∃ way, settlements h es = [way] := by
 induction posts with
 | nil b => cases granted
 | cons post rest ih =>
  have sound' := post.sound sound
  cases post with
  | granted n =>
   rcases List.mem_cons.mp granted with here | later
   · cases here
     rw [settlements_opened]
     exact ⟨Nat.le_refl _, settled_of_held rest sound' rfl free⟩
   · obtain ⟨young, settled⟩ := ih sound' free later
     exact ⟨Nat.le_of_succ_le young, settled⟩
  | refused n =>
   rcases List.mem_cons.mp granted with here | later
   · cases here
   · obtain ⟨young, settled⟩ := ih sound' free later
     exact ⟨Nat.le_of_succ_le young, settled⟩
  | used n h' =>
   rcases List.mem_cons.mp granted with here | later
   · cases here
   · exact ih sound' free later
  | settled n h' way =>
   rcases List.mem_cons.mp granted with here | later
   · cases here
   · obtain ⟨young, settled⟩ := ih sound' free later
     have old := sound h' rfl
     refine ⟨young, ?_⟩
     rw [settlements_other (by dsimp only at young old; omega)]
     exact settled

theorem untouched_of_refused (posts : Posts b es b')
  (sound : b.Sound) (refused : .opened h false ∈ es) : b.next ≤ h ∧ ∀ e ∈ es, ¬ e.Touches h := by
 induction posts with
 | nil b => cases refused
 | cons post rest ih =>
  have sound' := post.sound sound
  rcases List.mem_cons.mp refused with here | later
  · subst here
    cases post with
    | refused n =>
     refine ⟨Nat.le_refl _, ?_⟩
     intro e member
     rcases List.mem_cons.mp member with rfl | after
     · exact not_false
     · exact untouched_of_spent rest (Nat.lt_succ_self h) (fun same => nomatch same) e after
  · obtain ⟨young, untouched⟩ := ih sound' later
    refine ⟨?_, ?_⟩
    · cases post <;> (dsimp only at young ⊢; omega)
    · intro e member
      rcases List.mem_cons.mp member with rfl | after
      · cases post with
        | granted n => exact not_false
        | refused n => exact not_false
        | used n h' => exact fun same => Nat.not_lt_of_le young (same ▸ sound h' rfl)
        | settled n h' way => exact fun same => Nat.not_lt_of_le young (same ▸ sound h' rfl)
      · exact untouched e after

end BackImage.Lib.Ledger
