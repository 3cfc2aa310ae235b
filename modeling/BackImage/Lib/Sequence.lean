/- source: none
  digest: Steps that stop at their first error, with or without a state they leave behind, and runs
    of them. -/

import Mathlib.Data.List.Forall2
import Mathlib.Tactic.Common

namespace BackImage.Lib.Sequence

universe u v w x y

/-- What a call leaves behind: the state, also when it failed, and its error. -/
@[ext]
structure Effect (σ : Type u) (ε : Type v) where
 state : σ
 error : Option ε
 deriving DecidableEq

section Calls

variable {σ : Type u} {ε : Type v} {α : Type w} {β : Type x}

/-- The call returned no error. -/
def done (s : σ) : Effect σ ε := ⟨s, none⟩

/-- The call returned an error. -/
def stop (s : σ) (e : ε) : Effect σ ε := ⟨s, some e⟩

/-- `if err := first; err != nil { return err }`, then the rest. -/
def Effect.andThen (first : Effect σ ε) (next : σ → Effect σ ε) : Effect σ ε :=
 match first.error with
 | none => next first.state
 | some _ => first

@[simp] theorem done_andThen (s : σ) (next : σ → Effect σ ε) : (done s).andThen next = next s := rfl

@[simp] theorem stop_andThen (s : σ) (e : ε) (next : σ → Effect σ ε) :
  (stop s e).andThen next = stop s e := rfl

theorem Effect.eq_done_or_stop (call : Effect σ ε) : call = done call.state ∨
  ∃ e, call = stop call.state e := by
 obtain ⟨s, error⟩ := call
 cases error with
 | none => exact .inl rfl
 | some e => exact .inr ⟨e, rfl⟩

theorem Effect.eq_done {call : Effect σ ε} (well : call.error = none) : call = done call.state := by
 rcases call.eq_done_or_stop with ended | ⟨e, failed⟩
 · exact ended
 · rw [failed] at well
   cases well

variable {s t : σ}

theorem done_inj : (done s : Effect σ ε) = done t ↔ s = t := by
 constructor
 · intro same
   exact congrArg Effect.state same
 · intro same
   rw [same]

theorem stop_ne_done {e : ε} : stop s e ≠ done t := by
 intro same
 have errors := congrArg Effect.error same
 cases errors

variable {first : Effect σ ε} {next : σ → Effect σ ε}

theorem andThen_eq_done : first.andThen next = done t ↔ ∃ s, first = done s ∧ next s = done t := by
 rcases first.eq_done_or_stop with well | ⟨e, failed⟩
 · rw [well, done_andThen]
   constructor
   · intro later
     exact ⟨first.state, rfl, later⟩
   · rintro ⟨s, same, later⟩
     rw [done_inj.mp same]
     exact later
 · rw [failed, stop_andThen]
   constructor
   · intro impossible
     exact absurd impossible stop_ne_done
   · rintro ⟨s, impossible, -⟩
     exact absurd impossible stop_ne_done

theorem andThen_assoc (first : Effect σ ε) (second third : σ → Effect σ ε) :
  (first.andThen second).andThen third = first.andThen fun s => (second s).andThen third := by
 rcases first.eq_done_or_stop with well | ⟨e, failed⟩
 · rw [well, done_andThen, done_andThen]
 · rw [failed, stop_andThen, stop_andThen, stop_andThen]

theorem andThen_done (first : Effect σ ε) : first.andThen done = first := by
 rcases first.eq_done_or_stop with well | ⟨e, failed⟩
 · rw [well, done_andThen]
 · rw [failed, stop_andThen]

variable {P : σ → Prop}

theorem andThen_state
  (before : P first.state) (after : P first.state → P (next first.state).state) :
  P (first.andThen next).state := by
 rcases first.eq_done_or_stop with well | ⟨e, failed⟩
 · rw [well, done_andThen]
   exact after before
 · rw [failed, stop_andThen]
   exact before

/-- What holds where the first call stops, and after the second where it goes on, holds after both;
what the second has done when it ends well, both have done. -/
theorem andThen_ends {Q : σ → Prop} (stopped : P first.state)
  (goes : first.error = none → P (next first.state).state ∧
   ((next first.state).error = none → Q (next first.state).state)) :
  P (first.andThen next).state ∧
   ((first.andThen next).error = none → Q (first.andThen next).state) := by
 rcases first.eq_done_or_stop with well | ⟨e, failed⟩
 · rw [well, done_andThen]
   exact goes (congrArg Effect.error well)
 · rw [failed, stop_andThen]
   exact ⟨stopped, fun impossible => by cases impossible⟩

/-- The error of two calls is the error of one of them. -/
theorem andThen_error {P : ε → Prop}
  (before : ∀ e, first.error = some e → P e) (after : ∀ s e, (next s).error = some e → P e) :
  ∀ e, (first.andThen next).error = some e → P e := by
 intro e failed
 rcases first.eq_done_or_stop with well | ⟨e', stopped⟩
 · rw [well, done_andThen] at failed
   exact after _ e failed
 · rw [stopped, stop_andThen] at failed
   rw [stopped] at before
   exact before e failed

section Parts

variable {τ : Type w} {δ : Type y}

/-- A call on a part of the state, whose error is wrapped. -/
def Effect.within (call : Effect τ δ) (embed : τ → σ) (wrap : δ → ε) : Effect σ ε :=
 ⟨embed call.state, call.error.map wrap⟩

theorem within_eq_done {call : Effect τ δ} {embed : τ → σ} {wrap : δ → ε} {s : σ} :
  call.within embed wrap = done s ↔ ∃ t, call = done t ∧ s = embed t := by
 rcases call.eq_done_or_stop with well | ⟨e, failed⟩
 · rw [well]
   constructor
   · intro same
     exact ⟨call.state, rfl, (done_inj.mp same).symm⟩
   · rintro ⟨t, same, rfl⟩
     rw [done_inj.mp same]
     rfl
 · rw [failed]
   constructor
   · intro impossible
     exact absurd impossible (stop_ne_done (e := wrap e))
   · rintro ⟨t, impossible, -⟩
     exact absurd impossible stop_ne_done

end Parts

/-- The calls of a loop, one for each item, up to the first error. -/
def runAll (step : α → σ → Effect σ ε) : List α → σ → Effect σ ε
 | [], s => done s
 | a :: rest, s => (step a s).andThen (runAll step rest)

variable {step : α → σ → Effect σ ε}

theorem runAll_append (front back : List α) (s : σ) :
  runAll step (front ++ back) s = (runAll step front s).andThen (runAll step back) := by
 induction front generalizing s with
 | nil => rfl
 | cons a front ih =>
  have rest : runAll step (front ++ back) =
    fun s => (runAll step front s).andThen (runAll step back) := funext ih
  rw [List.cons_append, runAll, runAll, rest, andThen_assoc]

theorem runAll_singleton (a : α) (s : σ) : runAll step [a] s = step a s := by
 have last : runAll step [] = done := rfl
 rw [runAll, last, andThen_done]

variable {items : List α}

theorem runAll_keeps (start : P s)
  (keeps : ∀ a ∈ items, ∀ t, P t → P (step a t).state) : P (runAll step items s).state := by
 induction items generalizing s with
 | nil => exact start
 | cons a items ih =>
  rw [runAll]
  have first : P (step a s).state := keeps a List.mem_cons_self s start
  apply andThen_state first
  intro reached
  exact ih reached fun b inside => keeps b (List.mem_cons_of_mem a inside)

/-- The error of a run is the error of one of its calls. -/
theorem runAll_error {P : ε → Prop} (calls : ∀ a s e, (step a s).error = some e → P e)
  (items : List α) (s : σ) : ∀ e, (runAll step items s).error = some e → P e := by
 induction items generalizing s with
 | nil =>
  intro e failed
  cases failed
 | cons a items ih => exact andThen_error (calls a s) ih

/-- The condition holds of every call of a run, in the state that the call starts from. -/
def Along (step : α → σ → Effect σ ε) (cond : α → σ → Prop) : List α → σ → Prop
 | [], _ => True
 | a :: rest, s => cond a s ∧ ((step a s).error = none → Along step cond rest (step a s).state)

instance decidableAlong {cond : α → σ → Prop} [∀ a s, Decidable (cond a s)] :
  ∀ (items : List α) (s : σ), Decidable (Along step cond items s)
 | [], _ => inferInstanceAs (Decidable True)
 | a :: rest, s =>
  let _ : Decidable ((step a s).error = none) := Option.decidableEqNone _
  let _ : Decidable (Along step cond rest (step a s).state) := decidableAlong rest _
  inferInstanceAs (Decidable (cond a s ∧ ((step a s).error = none → _)))

/-- What each call keeps under a condition, a run keeps that meets the condition all along. -/
theorem runAll_along {cond : α → σ → Prop} (start : P s) (along : Along step cond items s)
  (keeps : ∀ a ∈ items, ∀ t, P t → cond a t → P (step a t).state) :
  P (runAll step items s).state := by
 induction items generalizing s with
 | nil => exact start
 | cons a items ih =>
  obtain ⟨here, later⟩ := along
  have first : P (step a s).state := keeps a List.mem_cons_self s start here
  rw [runAll]
  refine (andThen_ends (Q := fun _ => True) first fun well => ⟨?_, fun _ => trivial⟩).1
  exact ih first (later well) fun b inside => keeps b (List.mem_cons_of_mem a inside)

/-- A run that ends well has gone through all its items, each call ending well. -/
theorem runAll_eq_done {P : List α → σ → Prop} (start : P [] s)
  (goes : ∀ before a u v, (before ++ [a]) <+: items → P before u → step a u = done v →
   P (before ++ [a]) v) (well : runAll step items s = done t) : P items t := by
 suffices general : ∀ (before rest : List α) (u : σ), before ++ rest = items → P before u →
   runAll step rest u = done t → P items t from general [] items s rfl start well
 intro before rest
 induction rest generalizing before with
 | nil =>
  intro u whole reached ended
  have same : u = t := done_inj.mp ended
  rw [← whole, List.append_nil, ← same]
  exact reached
 | cons a rest ih =>
  intro u whole reached ended
  obtain ⟨v, called, later⟩ := andThen_eq_done.mp ended
  have front : (before ++ [a]) ++ rest = items := by rw [← whole]; simp
  exact ih (before ++ [a]) v front (goes before a u v ⟨rest, front⟩ reached called) later

end Calls

section Matched

variable {α : Type u} {β : Type v} {R : α → β → Prop} {as : List α} {bs : List β}

theorem exists_left_of_forall₂ (matched : List.Forall₂ R as bs) {b : β} (inside : b ∈ bs) :
  ∃ a ∈ as, R a b := by
 induction matched with
 | nil => cases inside
 | @cons a c as bs related rest ih =>
  rcases List.mem_cons.mp inside with rfl | later
  · exact ⟨a, List.mem_cons_self, related⟩
  · obtain ⟨x, listed, found⟩ := ih later
    exact ⟨x, List.mem_cons_of_mem a listed, found⟩

theorem exists_right_of_forall₂ (matched : List.Forall₂ R as bs) {a : α} (inside : a ∈ as) :
  ∃ b ∈ bs, R a b :=
 exists_left_of_forall₂ (List.Forall₂.flip matched) inside

theorem forall₂_mem (matched : List.Forall₂ R as bs) :
  List.Forall₂ (fun a b => a ∈ as ∧ b ∈ bs ∧ R a b) as bs := by
 induction matched with
 | nil => exact .nil
 | @cons a b as bs related rest ih =>
  refine .cons ⟨List.mem_cons_self, List.mem_cons_self, related⟩ (ih.imp ?_)
  rintro x y ⟨left, right, also⟩
  exact ⟨List.mem_cons_of_mem a left, List.mem_cons_of_mem b right, also⟩

end Matched

variable {ε : Type u} {α β : Type v}

variable {x : Except ε α} {f : α → Except ε β} {r : β}

theorem bind_ok : (x >>= f) = .ok r ↔ ∃ a, x = .ok a ∧ f a = .ok r := by
 cases x with
 | error e =>
  constructor
  · intro impossible
    cases impossible
  · rintro ⟨a, impossible, -⟩
    cases impossible
 | ok a =>
  constructor
  · intro result
    exact ⟨a, rfl, result⟩
  · rintro ⟨b, same, result⟩
    cases same
    exact result

variable {c : Prop} {e : ε}

theorem guard_ok [Decidable c] {r : α} : (if c then .error e else x) = .ok r ↔ ¬ c ∧ x = .ok r := by
 by_cases holds : c <;> simp [holds]

theorem throw_ok [Decidable c] {x : Except ε β} : (if c then (throw e >>= f) else x) = .ok r ↔ ¬ c ∧
  x = .ok r :=
 guard_ok

theorem then_ok {x : Except ε PUnit} {f : PUnit → Except ε β} : (x >>= f) = .ok r ↔ x = .ok ⟨⟩ ∧
  f ⟨⟩ = .ok r := by
 rw [bind_ok]
 constructor
 · rintro ⟨⟨⟩, checked, result⟩
   exact ⟨checked, result⟩
 · rintro ⟨checked, result⟩
   exact ⟨⟨⟩, checked, result⟩

/-- The computation succeeds with a value that passes the test. -/
def okWith (x : Except ε α) (p : α → Bool) : Bool :=
 match x with
 | .ok a => p a
 | .error _ => false

theorem exists_of_okWith {p : α → Bool} (passes : okWith x p = true) : ∃ a, x = .ok a ∧
  p a = true := by
 cases x with
 | error e => cases passes
 | ok a => exact ⟨a, rfl, passes⟩

end BackImage.Lib.Sequence
