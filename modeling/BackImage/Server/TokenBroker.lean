/- source: pkg/server/token.go, pkg/registry/token.go
  digest: Calls that wait for delegated tokens miss no token and get none of another scope. -/

import BackImage.Go.Path
import BackImage.Lib.Transitions
import BackImage.Protocol.Frames
import BackImage.Registry.TokenProvider
import Mathlib.Data.List.Sort

namespace BackImage.Server.TokenBroker

open Go.Text Lib.Transitions Protocol.Frames
open Go.Path (split_append_sep split_join)
open Registry.TokenProvider (Scope)

structure Delegated where
 value : Str
 expiresAt : Int
 scope : Scope
 anonymous : Bool
 deriving DecidableEq

def second : Int := 1000000000

def canonicalActions (actions : List Str) : List Str := actions.insertionSort (· ≤ ·)

def canonical (scope : Scope) : Scope := ⟨scope.repository, canonicalActions scope.actions⟩

def scopeKey (scope : Scope) : Str :=
 scope.repository ++ 0 :: join 44 (canonicalActions scope.actions)

def scopeOf (tok : Token) : Scope := ⟨tok.repository, tok.actions⟩

def delegated (tok : Token) (now : Int) : Option Delegated :=
 if (tok.value = [] ∧ tok.anonymous = false) ∨ tok.repository = [] ∨ tok.expiresAtUnix ≤ 0 then none
 else if now < tok.expiresAtUnix.toInt * second then
  some ⟨tok.value, tok.expiresAtUnix.toInt * second, canonical (scopeOf tok), tok.anonymous⟩
 else none

inductive GetError
 | tokenTimeout
 | context (cause : Str)
 deriving DecidableEq

inductive Place
 | idle
 | checking
 | waiting (channel : Nat) (since : Int)
 | returned (result : Except GetError Delegated)

structure Get where
 scope : Scope
 place : Place

inductive Event
 | provided (scope : Scope) (token : Delegated)
 | invalidated (scope : Scope)
 | returned (scope : Scope) (token : Delegated) (now : Int)
 deriving DecidableEq

structure Broker where
 tokens : Str → Option Delegated
 notify : Nat
 gets : Nat → Get
 log : List Event

/-- `NewTokenBroker`. -/
def start : Broker := ⟨fun _ => none, 0, fun _ => ⟨⟨[], []⟩, .idle⟩, []⟩

def Broker.put (b : Broker) (key : Str) (entry : Option Delegated) (event : Event) : Broker :=
 ⟨Function.update b.tokens key entry, b.notify + 1, b.gets, b.log ++ [event]⟩

def Broker.move (b : Broker) (i : Nat) (place : Place) : Broker :=
 { b with gets := Function.update b.gets i ⟨(b.gets i).scope, place⟩ }

def provideToken (b : Broker) (tok : Option Token) (now : Int) : Broker :=
 match tok with
 | none => b
 | some tok =>
  match delegated tok now with
  | none => b
  | some token =>
   b.put (scopeKey (canonical (scopeOf tok))) (some token) (.provided (scopeOf tok) token)

def invalidate (b : Broker) (scope : Scope) : Broker :=
 b.put (scopeKey (canonical scope)) none (.invalidated scope)

def usable (token : Delegated) (now : Int) : Bool := now + second < token.expiresAt

/-- The critical section of `Get`. -/
def check (b : Broker) (i : Nat) (now : Int) : Broker :=
 match (b.tokens (scopeKey (canonical (b.gets i).scope))).filter (usable · now) with
 | some token =>
  { b.move i (.returned (.ok token)) with log := b.log ++ [.returned (b.gets i).scope token now] }
 | none => b.move i (.waiting b.notify now)

inductive Action
 | provideToken (tok : Option Token) (now : Int)
 | invalidate (scope : Scope)
 | get (i : Nat) (scope : Scope)
 | check (i : Nat) (now : Int)
 | wake (i : Nat)
 | giveUp (i : Nat) (cause : GetError)

def step : Action → Broker → Option Broker
 | .provideToken tok now, b => some (provideToken b tok now)
 | .invalidate scope, b => some (invalidate b scope)
 | .get i scope, b =>
  match (b.gets i).place with
  | .idle => some { b with gets := Function.update b.gets i ⟨scope, .checking⟩ }
  | _ => none
 | .check i now, b =>
  match (b.gets i).place with
  | .checking => some (check b i now)
  | _ => none
 | .wake i, b =>
  match (b.gets i).place with
  | .waiting channel _ => if channel < b.notify then some (b.move i .checking) else none
  | _ => none
 | .giveUp i cause, b =>
  match (b.gets i).place with
  | .waiting _ _ => some (b.move i (.returned (.error cause)))
  | _ => none

def Nameless (actions : List Str) : Prop := actions = [] ∨ actions = [[]]

/-- The same repository and the same actions in some order; a single action without a name counts as
none. -/
def SameScope (a b : Scope) : Prop :=
 a.repository = b.repository ∧ (a.actions.Perm b.actions ∨ Nameless a.actions ∧ Nameless b.actions)

structure Plain (scope : Scope) : Prop where
 repository : 0 ∉ scope.repository
 actions : ∀ name ∈ scope.actions, 44 ∉ name

section Keys

variable {a b : Scope} {xs ys : List Str}

theorem canonicalActions_perm (xs : List Str) : (canonicalActions xs).Perm xs :=
 List.perm_insertionSort _ xs

theorem canonicalActions_sorted (xs : List Str) : (canonicalActions xs).Pairwise (· ≤ ·) :=
 List.pairwise_insertionSort _ xs

theorem scopeKey_canonical (a : Scope) : scopeKey (canonical a) = scopeKey a := by
 have again : canonicalActions (canonicalActions a.actions) = canonicalActions a.actions :=
  (canonicalActions_sorted a.actions).insertionSort_eq
 rw [scopeKey, canonical, again]
 rfl

theorem canonicalActions_eq_iff : canonicalActions xs = canonicalActions ys ↔ xs.Perm ys := by
 constructor
 · intro equal
   exact (canonicalActions_perm xs).symm.trans (equal ▸ canonicalActions_perm ys)
 · intro perm
   exact (((canonicalActions_perm xs).trans perm).trans
    (canonicalActions_perm ys).symm).eq_of_pairwise'
    (canonicalActions_sorted xs) (canonicalActions_sorted ys)

theorem nameless_canonicalActions : Nameless (canonicalActions xs) ↔ Nameless xs := by
 have perm := canonicalActions_perm xs
 constructor
 · rintro (empty | single)
   · exact .inl (List.nil_perm.mp (empty ▸ perm))
   · exact .inr (List.perm_singleton.mp (single ▸ perm.symm))
 · rintro (rfl | rfl)
   · exact .inl rfl
   · exact .inr rfl

theorem join_eq_iff (cleanXs : ∀ x ∈ xs, 44 ∉ x) (cleanYs : ∀ y ∈ ys, 44 ∉ y) :
  join 44 xs = join 44 ys ↔ xs = ys ∨ Nameless xs ∧ Nameless ys := by
 have alone : ∀ zs : List Str, (∀ z ∈ zs, 44 ∉ z) → join 44 zs = [] → Nameless zs := by
  intro zs clean empty
  by_cases none_there : zs = []
  · exact .inl none_there
  · have parts := split_join none_there clean
    rw [empty] at parts
    exact .inr parts.symm
 have joined : ∀ zs : List Str, Nameless zs → join 44 zs = [] := by
  rintro zs (rfl | rfl) <;> rfl
 constructor
 · intro equal
   by_cases empty : join 44 xs = []
   · exact .inr ⟨alone xs cleanXs empty, alone ys cleanYs (equal ▸ empty)⟩
   · have filledXs : xs ≠ [] := fun none_there => empty (none_there ▸ rfl)
     have filledYs : ys ≠ [] := fun none_there => empty (equal.trans (none_there ▸ rfl))
     rw [← split_join filledXs cleanXs, ← split_join filledYs cleanYs, equal]
     exact .inl rfl
 · rintro (rfl | ⟨left, right⟩)
   · rfl
   · rw [joined xs left, joined ys right]

theorem scopeKey_eq_iff (plainA : Plain a) (plainB : Plain b) : scopeKey a = scopeKey b ↔
  SameScope a b := by
 have clean : ∀ scope, Plain scope → ∀ name ∈ canonicalActions scope.actions, (44 : UInt8) ∉ name :=
  fun scope plain name inside => plain.actions name ((canonicalActions_perm _).mem_iff.mp inside)
 have apart : scopeKey a = scopeKey b ↔ a.repository = b.repository ∧
   join 44 (canonicalActions a.actions) = join 44 (canonicalActions b.actions) := by
  constructor
  · intro equal
    have parts := congrArg (split 0) equal
    rw [scopeKey, scopeKey, split_append_sep plainA.repository,
     split_append_sep plainB.repository] at parts
    have same := (List.cons.inj parts).1
    rw [scopeKey, scopeKey, same] at equal
    exact ⟨same, (List.cons.inj (List.append_cancel_left equal)).2⟩
  · rintro ⟨repository, actions⟩
    rw [scopeKey, scopeKey, repository, actions]
 rw [apart, join_eq_iff (clean a plainA) (clean b plainB), canonicalActions_eq_iff,
  nameless_canonicalActions,
  nameless_canonicalActions, SameScope]

end Keys

def Touches (scope : Scope) : Event → Prop
 | .provided other _ => SameScope other scope
 | .invalidated other => SameScope other scope
 | .returned _ _ _ => False

/-- The token was provided for the scope, and neither replaced nor invalidated since. -/
def Current (log : List Event) (scope : Scope) (token : Delegated) : Prop :=
 ∃ earlier given later, log = earlier ++ .provided given token :: later ∧ SameScope given scope ∧
  ∀ event ∈ later, ¬ Touches scope event

/-- What a `Get` may return. -/
def Lawful (before : List Event) : Event → Prop
 | .returned scope token now => Current before scope token ∧ usable token now = true
 | _ => True

def Action.Plain : Action → Prop
 | .provideToken (some tok) _ => TokenBroker.Plain (scopeOf tok)
 | .invalidate scope => TokenBroker.Plain scope
 | .get _ scope => TokenBroker.Plain scope
 | _ => True

structure Sound (b : Broker) : Prop where
 stored : ∀ scope token, Plain scope → b.tokens (scopeKey scope) = some token →
  Current b.log scope token
 lawful : Guarded Lawful b.log
 plain : ∀ i, Plain (b.gets i).scope
 waiting : ∀ i channel since, (b.gets i).place = .waiting channel since → channel ≤ b.notify ∧
  (channel = b.notify → ∀ token, b.tokens (scopeKey (b.gets i).scope) = some token →
   usable token since = false)

section Runs

variable {b b' : Broker} {scope : Scope} {token : Delegated} {event : Event}
 {entry : Option Delegated} {i : Nat}

theorem Current.concat {log : List Event} (current : Current log scope token)
  (other : ¬ Touches scope event) :
  Current (log ++ [event]) scope token := by
 obtain ⟨earlier, given, later, rfl, same, untouched⟩ := current
 refine ⟨earlier, given, later ++ [event], by simp, same, fun e inside => ?_⟩
 rcases List.mem_append.mp inside with old | new
 · exact untouched e old
 · exact List.mem_singleton.mp new ▸ other

theorem Sound.put (sound : Sound b) {given : Scope} (plain : Plain given)
  (touches : ∀ other, Touches other event ↔ SameScope given other)
  (gives : ∀ token, entry = some token → event = .provided given token)
  (lawful : Lawful b.log event) :
  Sound (b.put (scopeKey (canonical given)) entry event) where
 stored := by
  intro scope token plainScope here
  change Function.update b.tokens (scopeKey (canonical given)) entry (scopeKey scope) =
   some token at here
  rw [scopeKey_canonical] at here
  by_cases same : scopeKey scope = scopeKey given
  · rw [same, Function.update_self] at here
    have is := gives token here
    exact ⟨b.log, given, [], is ▸ rfl, (scopeKey_eq_iff plain plainScope).mp same.symm, by simp⟩
  · rw [Function.update_of_ne same] at here
    refine (sound.stored scope token plainScope here).concat fun touched => same ?_
    exact ((scopeKey_eq_iff plain plainScope).mpr ((touches scope).mp touched)).symm
 lawful := guarded_concat sound.lawful lawful
 plain := sound.plain
 waiting := by
  intro i channel since there
  have older := (sound.waiting i channel since there).1
  refine ⟨Nat.le_succ_of_le older, fun newest => ?_⟩
  change channel = b.notify + 1 at newest
  omega

theorem Sound.move (sound : Sound b) {place : Place}
  (waits : ∀ channel since, place = .waiting channel since → channel = b.notify ∧
   ∀ token, b.tokens (scopeKey (b.gets i).scope) = some token → usable token since = false) :
  Sound (b.move i place) := by
 obtain ⟨stored, lawful, plain, waiting⟩ := sound
 unfold Broker.move
 refine ⟨stored, lawful, ?_, ?_⟩ <;> grind

theorem Sound.check (sound : Sound b) {now : Int} : Sound (check b i now) := by
 unfold TokenBroker.check
 rw [scopeKey_canonical]
 split
 · rename_i token found
   obtain ⟨here, valid⟩ := Option.filter_eq_some_iff.mp found
   have current := sound.stored _ token (sound.plain i) here
   have moved : Sound (b.move i (.returned (.ok token))) := sound.move (by simp)
   obtain ⟨stored, lawful, plain, waiting⟩ := moved
   exact ⟨fun other t plain here => (stored other t plain here).concat id,
    guarded_concat lawful ⟨current, valid⟩, plain, waiting⟩
 · rename_i nothing
   refine sound.move fun channel since is => ?_
   cases is
   refine ⟨rfl, fun token here => ?_⟩
   exact Bool.not_eq_true _ ▸ Option.filter_eq_none_iff.mp nothing token here

theorem sound_step {a : Action} (plainly : a.Plain) (sound : Sound b)
  (stepped : step a b = some b') : Sound b' := by
 cases a with
 | provideToken tok now =>
  cases stepped
  unfold provideToken
  split
  · exact sound
  · split
    · exact sound
    · exact sound.put plainly (fun _ => Iff.rfl) (fun token is => by cases is; rfl) trivial
 | invalidate scope =>
  cases stepped
  exact sound.put plainly (fun _ => Iff.rfl) (fun token is => by cases is) trivial
 | get i scope =>
  have called : Sound { b with gets := Function.update b.gets i ⟨scope, .checking⟩ } := by
   obtain ⟨stored, lawful, plain, waiting⟩ := sound
   have asked : TokenBroker.Plain scope := plainly
   refine ⟨stored, lawful, ?_, ?_⟩ <;> grind
  grind [step]
 | check i now =>
  have checked : Sound (check b i now) := sound.check
  grind [step]
 | wake i =>
  have woken : Sound (b.move i .checking) := sound.move (by simp)
  grind [step]
 | giveUp i cause =>
  have given : Sound (b.move i (.returned (.error cause))) := sound.move (by simp)
  grind [step]

theorem sound_start : Sound start :=
 ⟨fun _ _ _ here => (by cases here), guarded_nil, fun _ => ⟨by simp [start], by simp [start]⟩,
  fun _ _ _ waits => by cases waits⟩

end Runs

/-- Whatever providers, invalidations and callers do in which order: a `Get` returns only a token
that was provided for its scope, is the last one and is valid for more than a second; and while the
channel a `Get` waits at is open, no token that could be returned is stored for its scope, at no
time from its last look on. -/
theorem no_lost_wakeup {actions : List Action} {b : Broker} (plain : ∀ a ∈ actions, a.Plain)
  (ran : exec step actions start = some b) :
  (∀ before after scope token now, b.log = before ++ .returned scope token now :: after →
   Current before scope token ∧ now + second < token.expiresAt) ∧
   ∀ i channel since now token, (b.gets i).place = .waiting channel since → ¬ channel < b.notify →
    since ≤ now → b.tokens (scopeKey (b.gets i).scope) = some token →
    ¬ now + second < token.expiresAt := by
 have sound : Sound b :=
  exec_keeps_when sound_start (fun a u v => sound_step) (meets_of_forall plain _) ran
 constructor
 · intro before after scope token now split
   obtain ⟨current, valid⟩ := sound.lawful before _ after split
   exact ⟨current, of_decide_eq_true valid⟩
 · intro i channel since now token there opened later here valid
   obtain ⟨older, unusable⟩ := sound.waiting i channel since there
   have expired := of_decide_eq_false (unusable (by omega) token here)
   omega

def pushToken : Token := ⟨lit "t", 100, lit "r", [lit "push", lit "pull"], false⟩

def wokenGet : List Action :=
 [.get 0 ⟨lit "r", [lit "pull", lit "push"]⟩, .check 0 0, .provideToken (some pushToken) 0, .wake 0,
  .check 0 0]

theorem waiting_get_woken : ∃ b before token, exec step wokenGet start = some b ∧
   b.log = before ++ [.returned ⟨lit "r", [lit "pull", lit "push"]⟩ token 0] ∧
   Current before ⟨lit "r", [lit "pull", lit "push"]⟩ token ∧ 0 + second < token.expiresAt := by
 have plain : ∀ a ∈ wokenGet, a.Plain := by
  intro a inside
  simp only [wokenGet, List.mem_cons, List.not_mem_nil, or_false] at inside
  rcases inside with rfl | rfl | rfl | rfl | rfl
  · exact ⟨by decide, by decide⟩
  · trivial
  · exact ⟨by decide, by decide⟩
  · trivial
  · trivial
 exact ⟨_, [.provided (scopeOf pushToken) _], _, rfl, rfl,
  (no_lost_wakeup plain rfl).1 _ [] _ _ 0 rfl⟩

def namelessToken : Token := ⟨lit "t", 100, lit "r", [[]], false⟩

/-- A token for one action without a name is handed to a caller that asks for no action. -/
theorem nameless_action_is_none :
  ∃ b token, exec step [.provideToken (some namelessToken) 0, .get 0 ⟨lit "r", []⟩, .check 0 0]
  start = some b ∧
   .returned ⟨lit "r", []⟩ token 0 ∈ b.log ∧
   ∀ given other, .provided given other ∈ b.log → ¬ given.actions.Perm [] := by
 refine ⟨_, _, rfl, List.mem_cons_of_mem _ List.mem_cons_self, fun given other inside => ?_⟩
 rcases List.mem_cons.mp inside with is | later
 · cases is
   decide
 · cases List.mem_singleton.mp later

end BackImage.Server.TokenBroker
