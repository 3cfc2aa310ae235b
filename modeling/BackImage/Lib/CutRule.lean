/- source: none
  digest: What a rule says of the groups it closed, and where it cuts when it does not look back. -/

import BackImage.Lib.Cut

namespace BackImage.Lib.CutRule

open Cut

variable {α β : Type*} {rule : Rule α} {c d : Cutting α} {xs : List α} {x : α}

theorem step_closes (closes : rule c.closed (c.filling ++ [x]) = true) :
  c.step rule x = ⟨c.closed ++ [c.filling ++ [x]], []⟩ := by
 unfold Cutting.step
 rw [if_pos closes]
 exact Cutting.close_of_ne_nil (by simp [Cutting.push])

theorem step_stays (stays : ¬ rule c.closed (c.filling ++ [x]) = true) :
  c.step rule x = ⟨c.closed, c.filling ++ [x]⟩ :=
 if_neg stays

/-- The closed groups are those the rule closes, none of them could have been closed sooner, and the
group being filled stays open. -/
structure Ruled (rule : Rule α) (c : Cutting α) : Prop where
 closes : ∀ {k g}, c.closed[k]? = some g → rule (c.closed.take k) g = true
 no_sooner : ∀ {k front x}, c.closed[k]? = some (front ++ [x]) → front ≠ [] →
  rule (c.closed.take k) front = false
 stays : c.filling ≠ [] → rule c.closed c.filling = false

theorem ruled_step (ruled : Ruled rule c) : Ruled rule (c.step rule x) := by
 by_cases closes : rule c.closed (c.filling ++ [x]) = true
 · rw [step_closes closes]
   -- an earlier group is judged by the groups before it, the new one by all of them
   have old {k : Nat} (early : k < c.closed.length) :
     (c.closed ++ [c.filling ++ [x]])[k]? = c.closed[k]? ∧
      (c.closed ++ [c.filling ++ [x]]).take k = c.closed.take k :=
    ⟨List.getElem?_append_left early, List.take_append_of_le_length (Nat.le_of_lt early)⟩
   have new {k : Nat} {g : List α} (late : ¬ k < c.closed.length)
     (at_k : (c.closed ++ [c.filling ++ [x]])[k]? = some g) :
     g = c.filling ++ [x] ∧ (c.closed ++ [c.filling ++ [x]]).take k = c.closed := by
    have inside := (List.getElem?_eq_some_iff.mp at_k).1
    rw [List.length_append, List.length_singleton] at inside
    obtain rfl : k = c.closed.length := by omega
    rw [List.getElem?_concat_length] at at_k
    exact ⟨(Option.some.inj at_k).symm, by simp⟩
   refine ⟨?_, ?_, fun filled => absurd rfl filled⟩
   · intro k g at_k
     dsimp only at at_k ⊢
     by_cases early : k < c.closed.length
     · rw [(old early).1] at at_k
       rw [(old early).2]
       exact ruled.closes at_k
     · obtain ⟨rfl, whole⟩ := new early at_k
       rw [whole]
       exact closes
   · intro k front y at_k filled
     dsimp only at at_k ⊢
     by_cases early : k < c.closed.length
     · rw [(old early).1] at at_k
       rw [(old early).2]
       exact ruled.no_sooner at_k filled
     · obtain ⟨same, whole⟩ := new early at_k
       rw [whole, (List.append_inj_left' same rfl)]
       rw [(List.append_inj_left' same rfl)] at filled
       exact ruled.stays filled
 · rw [step_stays closes]
   exact ⟨ruled.closes, ruled.no_sooner, fun _ => Bool.not_eq_true _ ▸ closes⟩

theorem ruled_cutting (rule : Rule α) (xs : List α) : Ruled rule (cutting rule xs) := by
 induction xs using List.reverseRecOn with
 | nil =>
  refine ⟨?_, ?_, fun filled => absurd rfl filled⟩
  · intro k g at_k
    cases at_k
  · intro k front x at_k
    cases at_k
 | append_singleton xs x ih =>
  rw [cutting_append]
  exact ruled_step ih

theorem length_closed_le (rule : Rule α) {n : Nat}
  (ends : ∀ closed g, n ≤ closed.length → rule closed g = false)
  (xs : List α) : (cutting rule xs).closed.length ≤ n := by
 by_contra more
 have inside : n < (cutting rule xs).closed.length := by omega
 have closes := (ruled_cutting rule xs).closes (List.getElem?_eq_getElem inside)
 rw [ends _ _ (by rw [List.length_take]; omega)] at closes
 cases closes

theorem length_close_le (c : Cutting α) : c.close.closed.length ≤ c.closed.length + 1 := by
 unfold Cutting.close
 split
 · omega
 · simp

theorem closed_step (rule : Rule α) (c : Cutting α) (x : α) :
  (c.step rule x).closed = c.closed ∨ ∃ g, (c.step rule x).closed = c.closed ++ [g] := by
 by_cases closes : rule c.closed (c.filling ++ [x]) = true
 · rw [step_closes closes]
   exact .inr ⟨_, rfl⟩
 · rw [step_stays closes]
   exact .inl rfl

theorem closed_close (c : Cutting α) : c.close.closed = c.closed ∨
  ∃ g, c.close.closed = c.closed ++ [g] := by
 unfold Cutting.close
 split
 · exact .inl rfl
 · exact .inr ⟨_, rfl⟩

/-- After the groups `before`, the first `n` groups of `c` are those of `d`; until then both fill
the same group. -/
structure Alike (n : Nat) (before : List (List α)) (c d : Cutting α) (later : List (List α)) :
  Prop where
 closed : c.closed = before ++ later
 first : later.take n = d.closed.take n
 current : later.length < n → later = d.closed ∧ c.filling = d.filling

theorem Alike.grown {n : Nat} {before later : List (List α)} {c' d' : Cutting α}
  (alike : Alike n before c d later)
  (full : n ≤ later.length) (left : c'.closed = c.closed ∨ ∃ g, c'.closed = c.closed ++ [g])
  (right : d'.closed = d.closed ∨ ∃ g, d'.closed = d.closed ++ [g]) :
  ∃ later', Alike n before c' d' later' := by
 have full' : n ≤ d.closed.length := by
  have lengths := congrArg List.length alike.first
  rw [List.length_take, List.length_take] at lengths
  omega
 have first' : later.take n = d'.closed.take n := by
  rcases right with same | ⟨g, more⟩
  · rw [same]
    exact alike.first
  · rw [more, List.take_append_of_le_length full']
    exact alike.first
 rcases left with same | ⟨g, more⟩
 · exact ⟨later, same.trans alike.closed, first', fun few => absurd full (Nat.not_le.mpr few)⟩
 · refine ⟨later ++ [g], by rw [more, alike.closed, List.append_assoc], ?_, fun few => ?_⟩
   · rw [List.take_append_of_le_length full]
     exact first'
   · rw [List.length_append] at few
     omega

section Forgetful

variable {h : List α → Bool} {n : Nat} {before later : List (List α)}

theorem Alike.step (alike : Alike n before c d later)
  (forgets : ∀ closed g, closed.length < before.length + n → rule closed g = h g) :
  ∃ later', Alike n before (c.step rule x) (d.step (fun _ => h) x) later' := by
 by_cases full : n ≤ later.length
 · exact alike.grown full (closed_step rule c x) (closed_step _ d x)
 · obtain ⟨same, filling⟩ := alike.current (Nat.not_le.mp full)
   have agrees : rule c.closed (c.filling ++ [x]) = h (d.filling ++ [x]) := by
    rw [forgets, filling]
    rw [alike.closed, List.length_append]
    omega
   by_cases closes : h (d.filling ++ [x]) = true
   · have other : d.step (fun _ => h) x = ⟨d.closed ++ [d.filling ++ [x]], []⟩ := step_closes closes
     rw [step_closes (agrees.trans closes), other]
     refine ⟨later ++ [d.filling ++ [x]], ?_, by rw [same], fun _ => ⟨by rw [same], rfl⟩⟩
     rw [alike.closed, filling, List.append_assoc]
   · have other : d.step (fun _ => h) x = ⟨d.closed, d.filling ++ [x]⟩ := step_stays closes
     rw [step_stays (agrees ▸ closes), other]
     exact ⟨later, alike.closed, alike.first, fun _ => ⟨same, by rw [filling]⟩⟩

theorem Alike.close (alike : Alike n before c d later) :
  ∃ later', Alike n before c.close d.close later' := by
 by_cases full : n ≤ later.length
 · exact alike.grown full (closed_close c) (closed_close d)
 · obtain ⟨same, filling⟩ := alike.current (Nat.not_le.mp full)
   unfold Cutting.close
   rw [filling]
   split
   · exact ⟨later, alike.closed, alike.first, fun _ => ⟨same, filling⟩⟩
   · refine ⟨later ++ [d.filling], ?_, by rw [same], fun _ => ⟨by rw [same], rfl⟩⟩
     rw [alike.closed, List.append_assoc]

theorem cut_append_take (ys : List α) (ends : (cutting rule xs).filling = [])
  (forgets : ∀ closed g, closed.length < (cutting rule xs).closed.length + n →
   rule closed g = h g) :
  ∃ later, cut rule (xs ++ ys) = (cutting rule xs).closed ++ later ∧
   later.take n = (cut (fun _ => h) ys).take n := by
 have alike : ∃ later, Alike n (cutting rule xs).closed (cutting rule (xs ++ ys))
  (cutting (fun _ => h) ys)
   later := by
  induction ys using List.reverseRecOn with
  | nil =>
   rw [List.append_nil]
   exact ⟨[], (List.append_nil _).symm, rfl, fun _ => ⟨rfl, ends⟩⟩
  | append_singleton ys y ih =>
   obtain ⟨later, alike⟩ := ih
   rw [← List.append_assoc, cutting_append, cutting_append]
   exact alike.step forgets
 obtain ⟨later, alike⟩ := alike
 obtain ⟨later', closed⟩ := alike.close
 exact ⟨later', closed.closed, closed.first⟩

end Forgetful

section Images

variable {f : α → β} {h : List β → Bool}

theorem cutting_map (xs : List α) :
  (cutting (fun _ g => h (g.map f)) xs).closed.map (List.map f) =
  (cutting (fun _ => h) (xs.map f)).closed ∧
   (cutting (fun _ g => h (g.map f)) xs).filling.map f =
   (cutting (fun _ => h) (xs.map f)).filling := by
 induction xs using List.reverseRecOn with
 | nil => exact ⟨rfl, rfl⟩
 | append_singleton xs x ih =>
  obtain ⟨closed, filling⟩ := ih
  rw [List.map_append, List.map_singleton, cutting_append, cutting_append]
  unfold Cutting.step
  rw [← filling, ← List.map_singleton (f := f), ← List.map_append]
  split
  · rw [Cutting.close_of_ne_nil (by simp [Cutting.push]),
     Cutting.close_of_ne_nil (by simp [Cutting.push])]
    simp [Cutting.push, closed, filling]
  · simp [Cutting.push, closed, filling]

theorem cut_map (xs : List α) :
  (cut (fun _ g => h (g.map f)) xs).map (List.map f) = cut (fun _ => h) (xs.map f) := by
 obtain ⟨closed, filling⟩ := cutting_map (f := f) (h := h) xs
 unfold cut Cutting.close
 rw [← filling, List.isEmpty_map]
 split
 · exact closed
 · simp [closed, filling]

end Images

end BackImage.Lib.CutRule
