/- source: none
  digest: Systems that take enabled actions one after the other, and histories whose events look
    back. -/

import Mathlib.Algebra.Order.BigOperators.Group.List
import Mathlib.Algebra.Ring.Nat
import Mathlib.Tactic.Common

namespace BackImage.Lib.Transitions

universe u v

section Runs

variable {σ : Type u} {α : Type v} {step : α → σ → Option σ}

/-- The state after actions that were all enabled when they were taken. -/
def exec (step : α → σ → Option σ) : List α → σ → Option σ
 | [], s => some s
 | a :: rest, s => (step a s).bind (exec step rest)

/-- Every action of the run meets a condition in the state in which it is taken. -/
def Meets (step : α → σ → Option σ) (C : α → σ → Prop) : List α → σ → Prop
 | [], _ => True
 | a :: rest, s => C a s ∧ ∀ t, step a s = some t → Meets step C rest t

variable {actions : List α}

theorem meets_of_forall {C : α → Prop} (all : ∀ a ∈ actions, C a) (s : σ) :
  Meets step (fun a _ => C a) actions s := by
 induction actions generalizing s with
 | nil => trivial
 | cons a rest ih =>
  exact ⟨all a List.mem_cons_self, fun t _ =>
   ih (fun b inside => all b (List.mem_cons_of_mem a inside)) t⟩

variable {P : σ → Prop} {s t : σ}

/-- What holds at the start and is kept by every enabled action that meets the condition holds after
every run that meets it. -/
theorem exec_keeps_when {C : α → σ → Prop} (start : P s)
  (keeps : ∀ a u v, C a u → P u → step a u = some v → P v) (meets : Meets step C actions s)
  (ran : exec step actions s = some t) : P t := by
 induction actions generalizing s with
 | nil =>
  rw [← Option.some.inj ran]
  exact start
 | cons a rest ih =>
  obtain ⟨u, taken, later⟩ := Option.bind_eq_some_iff.mp ran
  exact ih (keeps a s u meets.1 start taken) (meets.2 u taken) later

theorem exec_keeps (start : P s)
  (keeps : ∀ a u v, P u → step a u = some v → P v) (ran : exec step actions s = some t) : P t :=
 exec_keeps_when start (fun a u v _ => keeps a u v) (meets_of_forall (fun _ _ => trivial) s) ran

theorem length_le_of_exec {measure : σ → Nat} (start : P s)
  (keeps : ∀ a u v, P u → step a u = some v → P v)
  (lowers : ∀ a u v, P u → step a u = some v → measure v < measure u)
  (ran : exec step actions s = some t) : actions.length + measure t ≤ measure s := by
 induction actions generalizing s with
 | nil =>
  rw [← Option.some.inj ran]
  simp
 | cons a rest ih =>
  obtain ⟨u, taken, later⟩ := Option.bind_eq_some_iff.mp ran
  have further := ih (keeps a s u start taken) later
  have lower := lowers a s u start taken
  rw [List.length_cons]
  omega

end Runs

section Histories

variable {ε : Type u} {P : List ε → ε → Prop} {log : List ε} {event : ε}

/-- Every event of a history stands in a relation to what came before it. -/
def Guarded (P : List ε → ε → Prop) (log : List ε) : Prop :=
 ∀ before event after, log = before ++ event :: after → P before event

theorem guarded_nil : Guarded P [] := by
 intro before event after split
 simp at split

theorem guarded_concat (guarded : Guarded P log) (last : P log event) :
  Guarded P (log ++ [event]) := by
 intro before e after split
 rcases List.eq_nil_or_concat after with rfl | ⟨front, x, rfl⟩
 · obtain ⟨rfl, same⟩ := List.append_inj' split rfl
   rw [← List.singleton_inj.mp same]
   exact last
 · have shorter : log = before ++ e :: front := by
    rw [List.concat_eq_append, ← List.cons_append, ← List.append_assoc] at split
    exact (List.append_inj' split rfl).1
   exact guarded before e front shorter

end Histories

section Members

variable {β : Type u} {members : List β} {i : Nat} {old : β}

theorem at_set_cases {j : Nat} {new x : β} (found : (members.set i new)[j]? = some x) :
  j = i ∧ x = new ∨ j ≠ i ∧ members[j]? = some x := by
 by_cases same : i = j
 · subst same
   obtain ⟨inside, -⟩ := List.getElem?_eq_some_iff.mp found
   rw [List.getElem?_set_self (by simpa using inside)] at found
   exact .inl ⟨rfl, (Option.some.inj found).symm⟩
 · rw [List.getElem?_set_ne same] at found
   exact .inr ⟨Ne.symm same, found⟩

theorem at_set_self {new : β} (at_place : members[i]? = some old) :
  (members.set i new)[i]? = some new := by
 obtain ⟨inside, -⟩ := List.getElem?_eq_some_iff.mp at_place
 exact List.getElem?_set_self inside

theorem sum_set (weight : β → Nat) {new : β} (at_place : members[i]? = some old) :
  ((members.set i new).map weight).sum + weight old = (members.map weight).sum + weight new := by
 induction members generalizing i with
 | nil => cases at_place
 | cons x rest ih =>
  cases i with
  | zero =>
   have here : x = old := by simpa using at_place
   subst here
   simp only [List.set_cons_zero, List.map_cons, List.sum_cons]
   omega
  | succ i =>
   have later : rest[i]? = some old := by simpa using at_place
   have tail := ih later
   simp only [List.set_cons_succ, List.map_cons, List.sum_cons]
   omega

end Members

end BackImage.Lib.Transitions
