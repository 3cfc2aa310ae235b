/- source: pkg/registry/token.go
  digest: Callers of one scope share a mint, and with it the cancellation of the caller that runs
    it. -/

import BackImage.Go.Text
import Mathlib.Logic.Relation

namespace BackImage.Registry.TokenProvider

open Go.Text
open Relation (ReflTransGen)

structure Scope where
 repository : Str
 actions : List Str
 deriving DecidableEq

/-- `Scope.String`. -/
def Scope.key (scope : Scope) : Str :=
 lit "repository:" ++ scope.repository ++ lit ":" ++ join 44 scope.actions

structure Token where
 value : Str
 expiresAt : Int
 anonymous : Bool
 isStatic : Bool
 deriving DecidableEq

def safetyMargin : Int := 60000000000

def validAt (t : Token) (now margin : Int) : Bool :=
 if t.value = [] ∧ t.anonymous = false then false
 else t.isStatic || now + margin < t.expiresAt

inductive GetError
 | cancelled (caller : Nat)
 | mint (cause : Str)
 deriving DecidableEq

abbrev Result := Except GetError Token

/-- Where a caller of `Get` stands. One that waits holds the `tokenCall` of the caller that mints,
which alone knows the result until its last critical section. -/
inductive Place
 | idle
 | entering
 | waiting (leader : Nat)
 | minting
 | minted (result : Result)
 | returned (result : Result)

def Place.mints : Place → Bool
 | .minting | .minted _ => true
 | _ => false

structure Get where
 scope : Scope
 cancelled : Bool
 place : Place

inductive Event
 | called (i : Nat)
 | published (leader : Nat) (result : Result)

structure Provider where
 now : Int
 cache : Str → Option Token
 inflight : Str → Option Nat
 gets : Nat → Get
 log : List Event

def start : Provider := ⟨0, fun _ => none, fun _ => none, fun _ => ⟨⟨[], []⟩, false, .idle⟩, []⟩

def cacheAfter (cache : Str → Option Token) (key : Str) : Result → Str → Option Token
 | .ok t => Function.update cache key (some t)
 | .error _ => cache

/-- The cache has nothing that the first critical section would return. -/
def Stale (p : Provider) (key : Str) : Prop :=
 ∀ t, p.cache key = some t → validAt t p.now safetyMargin = false

/-- What caller `i` does next: its new place, the calls in flight, the cache and the events. `mint`
fails with a cancellation only when its caller is cancelled. -/
inductive Turn (p : Provider) (i : Nat) : Place → (Str → Option Nat) → (Str → Option Token) →
  List Event → Prop
 | hit {t : Token} (here : (p.gets i).place = .entering)
 (cached : p.cache (p.gets i).scope.key = some t)
   (valid : validAt t p.now safetyMargin = true) :
    Turn p i (.returned (.ok t)) p.inflight p.cache []
 | join {leader : Nat} (here : (p.gets i).place = .entering) (stale : Stale p (p.gets i).scope.key)
   (busy : p.inflight (p.gets i).scope.key = some leader) :
    Turn p i (.waiting leader) p.inflight p.cache []
 | lead (here : (p.gets i).place = .entering) (stale : Stale p (p.gets i).scope.key)
   (idle : p.inflight (p.gets i).scope.key = none) :
   Turn p i .minting (Function.update p.inflight (p.gets i).scope.key (some i)) p.cache []
 | mint {result : Result} (here : (p.gets i).place = .minting)
   (own : ∀ j, result = .error (.cancelled j) → j = i ∧ (p.gets i).cancelled = true) :
   Turn p i (.minted result) p.inflight p.cache []
 | publish {result : Result} (here : (p.gets i).place = .minted result) :
   Turn p i (.returned result) (Function.update p.inflight (p.gets i).scope.key none)
    (cacheAfter p.cache (p.gets i).scope.key result) [.published i result]
 | wake {leader : Nat} {result : Result} (here : (p.gets i).place = .waiting leader)
   (closed : (p.gets leader).place = .returned result) :
    Turn p i (.returned result) p.inflight p.cache []
 | giveUp {leader : Nat} (here : (p.gets i).place = .waiting leader)
   (ended : (p.gets i).cancelled = true) :
   Turn p i (.returned (.error (.cancelled i))) p.inflight p.cache []

inductive Step (p : Provider) : Provider → Prop
 | call {i : Nat} (scope : Scope) (here : (p.gets i).place = .idle) :
   Step p { p with
    gets := Function.update p.gets i ⟨scope, (p.gets i).cancelled, .entering⟩
    log := p.log ++ [.called i] }
 | turn {i : Nat} {place : Place} {inflight : Str → Option Nat} {cache : Str → Option Token}
   {new : List Event}
   (turns : Turn p i place inflight cache new) :
   Step p ⟨p.now, cache, inflight, Function.update p.gets i { p.gets i with place := place },
    p.log ++ new⟩
 | cancel (i : Nat) :
   Step p { p with gets := Function.update p.gets i { p.gets i with cancelled := true } }
 | invalidate (scope : Scope) : Step p { p with cache := Function.update p.cache scope.key none }
 | tick (now : Int) : Step p { p with now := now }

def During (log : List Event) (i : Nat) (event : Event) : Prop :=
 ∃ earlier later, log = earlier ++ .called i :: later ∧ event ∈ later

/-- Where the caller of a call in flight is, as caller `i` sees it: it still mints, or it published
its result since `i` called. -/
def Serves (log : List Event) (i leader : Nat) (place : Place) : Prop :=
 place.mints = true ∨ ∃ result, place = .returned result ∧ During log i (.published leader result)

structure Sound (p : Provider) : Prop where
 called : ∀ i, (p.gets i).place ≠ .idle → .called i ∈ p.log
 leads : ∀ i, (p.gets i).place.mints = true → p.inflight (p.gets i).scope.key = some i
 inflight : ∀ key leader, p.inflight key = some leader →
  (p.gets leader).scope.key = key ∧ (p.gets leader).place.mints = true
 waiting : ∀ i leader, (p.gets i).place = .waiting leader →
  Serves p.log i leader (p.gets leader).place
 shares : ∀ i leader, (p.gets i).place = .waiting leader →
  (p.gets leader).scope.key = (p.gets i).scope.key

section Runs

variable {p q : Provider} {i : Nat} {place : Place} {log : List Event} {event : Event}
 {inflight : Str → Option Nat} {cache : Str → Option Token} {new : List Event}

theorem During.append (during : During log i event) (more : List Event) :
  During (log ++ more) i event := by
 obtain ⟨earlier, later, rfl, inside⟩ := during
 exact ⟨earlier, later ++ more, by simp, List.mem_append_left _ inside⟩

theorem during_last (called : .called i ∈ log) : During (log ++ [event]) i event := by
 obtain ⟨earlier, later, rfl⟩ := List.append_of_mem called
 exact ⟨earlier, later ++ [event], by simp, by simp⟩

theorem Serves.append {leader : Nat} (serves : Serves log i leader place) (more : List Event) :
  Serves (log ++ more) i leader place :=
 serves.imp_right fun ⟨result, is, during⟩ => ⟨result, is, during.append more⟩

theorem Turn.called (turns : Turn p i place inflight cache new) : (p.gets i).place ≠ .idle ∧
  place ≠ .idle := by
 cases turns <;> simp_all

theorem sound_turn (sound : Sound p) (turns : Turn p i place inflight cache new) :
  Sound ⟨p.now, cache, inflight, Function.update p.gets i { p.gets i with place := place },
   p.log ++ new⟩ := by
 obtain ⟨called, leads, flight, waiting, shares⟩ := sound
 have entered := turns.called
 refine ⟨?_, ?_, ?_, ?_, ?_⟩
 · grind
 · cases turns <;> grind [Place.mints]
 · cases turns <;> grind [Place.mints]
 · have older : ∀ j leader, (p.gets j).place = .waiting leader →
     Serves (p.log ++ new) j leader (p.gets leader).place :=
      fun j leader waits => (waiting j leader waits).append new
   cases turns with
   | @publish result here =>
    have last : ∀ j, (p.gets j).place ≠ .idle →
     During (p.log ++ [.published i result]) j (.published i result) :=
     fun j there => during_last (called j there)
    grind [Place.mints, Serves]
   | _ => grind [Place.mints, Serves]
 · cases turns <;> grind

theorem sound_step (sound : Sound p) (steps : Step p q) : Sound q := by
 cases steps with
 | turn turns => exact sound_turn sound turns
 | @call i scope here =>
  obtain ⟨called, leads, flight, waiting, shares⟩ := sound
  have older : ∀ j leader, (p.gets j).place = .waiting leader →
    Serves (p.log ++ [.called i]) j leader (p.gets leader).place :=
   fun j leader waits => (waiting j leader waits).append _
  constructor <;> grind [Place.mints, Serves]
 | cancel i =>
  obtain ⟨called, leads, flight, waiting, shares⟩ := sound
  constructor <;> grind
 | invalidate scope => exact { sound with }
 | tick now => exact { sound with }

theorem sound_run (ran : ReflTransGen Step start p) : Sound p := by
 induction ran with
 | refl =>
  exact ⟨fun i there => absurd rfl there, fun i mints => (by cases mints), fun key leader busy =>
   (by cases busy),
   fun i leader waits => (by cases waits), fun i leader waits => by cases waits⟩
 | tail _ steps ih => exact sound_step ih steps

/-- Whoever failed with a cancellation, or is about to, was cancelled, and nobody waits for its
result. -/
structure Unspoilt (p : Provider) : Prop where
 minted : ∀ i j, (p.gets i).place = .minted (.error (.cancelled j)) → (p.gets i).cancelled = true
 returned : ∀ i j, (p.gets i).place = .returned (.error (.cancelled j)) →
  (p.gets i).cancelled = true
 waiting : ∀ i leader, (p.gets i).place = .waiting leader →
  ∀ j, (p.gets leader).place ≠ .returned (.error (.cancelled j))

/-- Nobody waits for a mint whose context is cancelled, or that has failed for it. -/
def Calm (p : Provider) : Prop :=
 ∀ i leader, (p.gets i).place = .waiting leader →
  ((p.gets leader).place = .minting → (p.gets leader).cancelled = false) ∧
   ∀ j, (p.gets leader).place ≠ .minted (.error (.cancelled j))

theorem unspoilt_turn (calm : Calm p) (sound : Sound p) (fine : Unspoilt p)
  (turns : Turn p i place inflight cache new) :
  Unspoilt ⟨p.now, cache, inflight, Function.update p.gets i { p.gets i with place := place },
   p.log ++ new⟩ := by
 obtain ⟨minted, returned, waiting⟩ := fine
 cases turns with
 | join here stale busy =>
  -- the leader is still to publish
  have leads := (sound.inflight _ _ busy).2
  constructor <;> grind [Place.mints]
 | publish here =>
  have shared := fun k waits => (calm k i waits).2
  constructor <;> grind
 | giveUp here ended =>
  -- nobody waits for a caller that waits itself
  have serves := fun k waits => sound.waiting k i waits
  constructor <;> grind [Serves, Place.mints]
 | _ => constructor <;> grind

theorem unspoilt_step (calm : Calm p) (sound : Sound p) (fine : Unspoilt p) (steps : Step p q) :
  Unspoilt q := by
 cases steps with
 | turn turns => exact unspoilt_turn calm sound fine turns
 | call scope here =>
  obtain ⟨minted, returned, waiting⟩ := fine
  constructor <;> grind
 | cancel i =>
  obtain ⟨minted, returned, waiting⟩ := fine
  constructor <;> grind
 | invalidate scope => exact { fine with }
 | tick now => exact { fine with }

theorem unspoilt_run (ran : ReflTransGen (fun p q => Calm p ∧ Step p q) start p) : Sound p ∧
  Unspoilt p := by
 induction ran with
 | refl =>
  exact ⟨sound_run .refl, fun _ _ is => (by cases is), fun _ _ is => (by cases is),
   fun _ _ is => by cases is⟩
 | tail _ steps ih => exact ⟨sound_step ih.1 steps.2, unspoilt_step steps.1 ih.1 ih.2 steps.2⟩

theorem token_source (sound : Sound p) (steps : Step p q) {t : Token}
  (returns : (q.gets i).place = .returned (.ok t)) (before : (p.gets i).place ≠ .returned (.ok t)) :
  (p.cache (p.gets i).scope.key = some t ∧ validAt t p.now safetyMargin = true) ∨
   ∃ leader, (p.gets leader).scope.key = (p.gets i).scope.key ∧
   During q.log i (.published leader (.ok t)) := by
 cases steps with
 | call scope here => grind
 | cancel k => grind
 | invalidate scope => exact absurd returns before
 | tick now => exact absurd returns before
 | @turn k place inflight cache new turns =>
  obtain rfl : i = k := by grind
  have now_at : place = .returned (.ok t) := by simpa using returns
  subst now_at
  cases turns with
  | hit here cached valid => exact .inl ⟨cached, valid⟩
  | publish here => exact .inr ⟨i, rfl, during_last (sound.called i (by simp [here]))⟩
  | @wake leader result here closed =>
   refine .inr ⟨leader, sound.shares i leader here, ?_⟩
   have serves := (sound.waiting i leader here).append []
   grind [Serves, Place.mints]

end Runs

/-- In every run at most one caller of a scope mints, and a caller that returns a token found it in
the cache, valid beyond the margin, or got it from a mint that ended during its call. In every run
in which nobody waits for a cancelled mint, no caller fails with a cancellation unless its own
context is cancelled. -/
theorem coalesced_gets {p : Provider} (ran : ReflTransGen Step start p) :
  (∀ i j, (p.gets i).place.mints = true → (p.gets j).place.mints = true →
   (p.gets i).scope = (p.gets j).scope → i = j) ∧
   (∀ q i t, Step p q → (q.gets i).place = .returned (.ok t) →
    (p.gets i).place ≠ .returned (.ok t) →
    (p.cache (p.gets i).scope.key = some t ∧ validAt t p.now safetyMargin = true) ∨
     ∃ leader, (p.gets leader).scope.key = (p.gets i).scope.key ∧
      During q.log i (.published leader (.ok t))) ∧
   (ReflTransGen (fun p q => Calm p ∧ Step p q) start p →
    ∀ i j, (p.gets i).cancelled = false →
    (p.gets i).place ≠ .returned (.error (.cancelled j))) := by
 have sound := sound_run ran
 refine ⟨fun i j left right same => ?_, fun q i t steps => token_source sound steps,
  fun calm i j live fails => ?_⟩
 · have mine := sound.leads i left
   rw [same, sound.leads j right] at mine
   exact (Option.some.inj mine).symm
 · have dead := (unspoilt_run calm).2.returned i j fails
   rw [live] at dead
   cases dead

/-- A run in which nobody has waited yet. -/
structure Unshared (p : Provider) : Prop where
 ran : ReflTransGen (fun p q => Calm p ∧ Step p q) start p
 apart : ∀ i leader, (p.gets i).place ≠ .waiting leader

theorem Unshared.calm {p : Provider} (run : Unshared p) : Calm p :=
 fun i leader waits => absurd waits (run.apart i leader)

theorem Unshared.step {p q : Provider} (run : Unshared p) (steps : Step p q) (i : Nat) (g : Get)
  (gets : q.gets = Function.update p.gets i g) (apart : ∀ leader, g.place ≠ .waiting leader) :
  Unshared q := by
 refine ⟨run.ran.tail ⟨run.calm, steps⟩, ?_⟩
 rw [gets]
 intro k leader
 by_cases same : k = i
 · rw [same, Function.update_self]
   exact apart leader
 · rw [Function.update_of_ne same]
   exact run.apart k leader

/-- The first mint ends with its caller's cancellation, the second is shared. -/
theorem second_mint_shared : ∃ p, ReflTransGen (fun p q => Calm p ∧ Step p q) start p ∧
   p.gets 0 = ⟨⟨[], []⟩, true, .returned (.error (.cancelled 0))⟩ ∧
   p.gets 1 = ⟨⟨[], []⟩, false, .minting⟩ ∧
   p.gets 2 = ⟨⟨[], []⟩, false, .waiting 1⟩ := by
 have fresh : Unshared start := ⟨.refl, fun _ _ is => by cases is⟩
 have called := fresh.step (.call (i := 0) ⟨[], []⟩ rfl) 0 _ rfl (by simp)
 have led := called.step (.turn (i := 0) (.lead rfl (fun t cached => by cases cached) rfl)) 0 _ rfl
  (by simp)
 have cancelled := led.step (.cancel 0) 0 _ rfl (by simp)
 have failed := cancelled.step (.turn (i := 0)
  (@Turn.mint _ 0 (.error (.cancelled 0)) rfl fun j is => by cases is; exact ⟨rfl, rfl⟩)) 0 _ rfl
   (by simp)
 have published := failed.step (.turn (i := 0) (@Turn.publish _ 0 (.error (.cancelled 0)) rfl)) 0 _
  rfl (by simp)
 have second := published.step (.call (i := 1) ⟨[], []⟩ rfl) 1 _ rfl (by simp)
 have third := second.step (.call (i := 2) ⟨[], []⟩ rfl) 2 _ rfl (by simp)
 have again := third.step (.turn (i := 1) (.lead rfl (fun t cached => by cases cached) rfl)) 1 _ rfl
  (by simp)
 have joins := again.ran.tail
  ⟨again.calm, .turn (i := 2) (.join rfl (fun t cached => by cases cached) rfl)⟩
 exact ⟨_, joins, rfl, rfl, rfl⟩

theorem one_mint_for_two : ∃ p, ReflTransGen Step start p ∧
  (p.gets 0).place = .returned (.error (.cancelled 0)) ∧
   (p.gets 1).place = .minting ∧ (p.gets 2).place = .waiting 1 ∧
   (∀ j, (p.gets j).place.mints = true → (p.gets 1).scope = (p.gets j).scope → 1 = j) ∧
   ∀ i j, (p.gets i).cancelled = false → (p.gets i).place ≠ .returned (.error (.cancelled j)) := by
 obtain ⟨p, calm, first, second, third⟩ := second_mint_shared
 have ran : ReflTransGen Step start p := ReflTransGen.mono (fun _ _ steps => steps.2) _ _ calm
 exact ⟨p, ran, by rw [first], by rw [second], by rw [third],
  fun j => (coalesced_gets ran).1 1 j (by rw [second]; rfl), (coalesced_gets ran).2.2 calm⟩

/-- When a caller is cancelled while it mints, the one that waits for it fails with that
cancellation. -/
theorem waiter_fails_with_leader : ∃ p, ReflTransGen Step start p ∧ (p.gets 2).cancelled = false ∧
   (p.gets 2).place = .returned (.error (.cancelled 1)) := by
 obtain ⟨p, calm, -, leader, waiter⟩ := second_mint_shared
 have ran : ReflTransGen Step start p := ReflTransGen.mono (fun _ _ steps => steps.2) _ _ calm
 have minted := (ran.tail (.cancel 1)).tail (.turn (i := 1)
  (@Turn.mint _ 1 (.error (.cancelled 1)) (by simp [leader]) fun j is => by cases is; simp))
 have published :=
  minted.tail (.turn (i := 1) (@Turn.publish _ 1 (.error (.cancelled 1)) (by simp)))
 have woken := published.tail (.turn (i := 2)
  (@Turn.wake _ 2 1 (.error (.cancelled 1)) (by simp [waiter]) (by simp)))
 exact ⟨_, woken, by simp [waiter], by simp⟩

end BackImage.Registry.TokenProvider
