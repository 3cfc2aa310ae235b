/- source: none
  digest: A file system as inodes and a tree of names, and paths resolved inside its root. -/

import Mathlib.Data.List.Infix
import Mathlib.Tactic.Common

namespace BackImage.Lib.Filesystem

/-- What an inode is; the children of a directory are in the tree of names. -/
inductive Node (γ τ δ : Type)
 | dir
 | file (content : γ)
 | link (text : τ)
 | device (kind : δ)
 deriving DecidableEq

def Node.isLink {γ τ δ : Type} : Node γ τ δ → Bool
 | .link _ => true
 | _ => false

/-- Inodes, and which of them the paths from the root denote. Inodes are never used twice. -/
structure NameTree (ν γ τ δ : Type) where
 names : List ν → Option Nat
 nodes : Nat → Option (Node γ τ δ)
 next : Nat

namespace NameTree

variable {ν γ τ δ : Type} (t : NameTree ν γ τ δ)

/-- What a path denotes, without following a link at any place. -/
def look (p : List ν) : Option (Node γ τ δ) := (t.names p).bind t.nodes

/-- A tree with nothing but its root. -/
def bare : NameTree ν γ τ δ where
 names p := if p.isEmpty then some 0 else none
 nodes i := if i = 0 then some .dir else none
 next := 1

/-- Every name stands in a directory and denotes a known inode. -/
structure WellFormed : Prop where
 root : t.look [] = some .dir
 parent : ∀ p x, t.names (p ++ [x]) ≠ none → t.look p = some .dir
 known : ∀ p i, t.names p = some i → i < t.next ∧ t.nodes i ≠ none

section Changes

variable [DecidableEq ν]

/-- A new inode under a new name. -/
def create (p : List ν) (node : Node γ τ δ) : NameTree ν γ τ δ where
 names q := if q = p then some t.next else t.names q
 nodes i := if i = t.next then some node else t.nodes i
 next := t.next + 1

/-- One more name for an inode. -/
def attach (p : List ν) (i : Nat) : NameTree ν γ τ δ :=
 { t with names := fun q => if q = p then some i else t.names q }

/-- The name and all names below it are removed. -/
def erase (p : List ν) : NameTree ν γ τ δ :=
 { t with names := fun q => if p <+: q then none else t.names q }

/-- A file gets another content. -/
def rewrite (i : Nat) (content : γ) : NameTree ν γ τ δ :=
 { t with nodes := fun j => if j = i then some (.file content) else t.nodes j }

end Changes

end NameTree

open NameTree

/-- One step of a path: up to the parent or down to a name. -/
inductive Hop (ν : Type)
 | up
 | down (name : ν)
 deriving DecidableEq

/-- Why a call fails: what the tree says, or a refusal of the system for reasons of its own. -/
inductive Errno (ρ : Type)
 | notExist
 | exist
 | notDir
 | isDir
 | loop
 | escapes
 | refused (reason : ρ)
 deriving DecidableEq

section Resolve

variable {ν γ τ δ ρ : Type} (parse : τ → Option (List (Hop ν))) (t : NameTree ν γ τ δ)
 (follow : Bool)

/-- The path that hops lead to from a directory, itself given by its path. `parse` gives the hops of
a link, none where it leads out of the root; `onLink` goes on behind a link. -/
def walk (onLink : List ν → List (Hop ν) → Except (Errno ρ) (List ν)) :
  List ν → List (Hop ν) → Except (Errno ρ) (List ν)
 | cur, [] => .ok cur
 | cur, .up :: rest => if cur = [] then .error .escapes else walk onLink cur.dropLast rest
 | cur, .down x :: rest =>
  match t.look (cur ++ [x]) with
  | some (.link text) =>
   if rest = [] ∧ follow = false then .ok (cur ++ [x])
   else
    match parse text with
    | none => .error .escapes
    | some hops => onLink cur (hops ++ rest)
  | some .dir => walk onLink (cur ++ [x]) rest
  | some _ => if rest = [] then .ok (cur ++ [x]) else .error .notDir
  | none => if rest = [] then .ok (cur ++ [x]) else .error .notExist

/-- The path that hops lead to, over at most so many links. -/
def resolve : Nat → List ν → List (Hop ν) → Except (Errno ρ) (List ν)
 | 0 => walk parse t follow fun _ _ => .error .loop
 | links + 1 => walk parse t follow (resolve links)

end Resolve

section Mkdir

variable {ν γ τ δ ρ : Type}

/-- The steps a call may still take before it is refused. -/
abbrev Limit (ρ : Type) := Option (Nat × ρ)

def spent : Limit ρ → Option ρ
 | some (0, reason) => some reason
 | _ => none

def Limit.pass (limit : Limit ρ) : Limit ρ := limit.map fun l => (l.1 - 1, l.2)

variable [DecidableEq ν] (parse : τ → Option (List (Hop ν)))

/-- Directories made where they are missing on the way. A link in the last place is left as it is,
and `last` says whether it leads to a directory. -/
def mkdirs (last : NameTree ν γ τ δ → Bool)
  (onLink : NameTree ν γ τ δ → Limit ρ → List ν → List (Hop ν) →
   NameTree ν γ τ δ × Option (Errno ρ)) :
  NameTree ν γ τ δ → Limit ρ → List ν → List (Hop ν) → NameTree ν γ τ δ × Option (Errno ρ)
 | t, _, _, [] => (t, none)
 | t, limit, cur, hop :: rest =>
  match spent limit with
  | some reason => (t, some (.refused reason))
  | none =>
   match hop with
   | .up =>
    if cur = [] then (t, some .escapes)
    else mkdirs last onLink t limit.pass cur.dropLast rest
   | .down x =>
    match t.look (cur ++ [x]) with
    | none => mkdirs last onLink (t.create (cur ++ [x]) .dir) limit.pass (cur ++ [x]) rest
    | some .dir => mkdirs last onLink t limit.pass (cur ++ [x]) rest
    | some (.link text) =>
     if rest = [] then (t, if last t then none else some .exist)
     else
      match parse text with
      | none => (t, some .escapes)
      | some hops => onLink t limit.pass cur (hops ++ rest)
    | some _ => (t, some (if rest = [] then .exist else .notDir))

/-- Directories made over at most so many links. -/
def mkdirAll (last : NameTree ν γ τ δ → Bool) : Nat → NameTree ν γ τ δ → Limit ρ → List ν →
  List (Hop ν) → NameTree ν γ τ δ × Option (Errno ρ)
 | 0 => mkdirs parse last fun t _ _ _ => (t, some .loop)
 | links + 1 => mkdirs parse last (mkdirAll last links)

end Mkdir

section Trees

variable {ν γ τ δ : Type} {t : NameTree ν γ τ δ} {p q : List ν} {i : Nat} {node : Node γ τ δ}

theorem look_eq_some : t.look p = some node ↔ ∃ i, t.names p = some i ∧ t.nodes i = some node :=
 Option.bind_eq_some_iff

theorem look_of_names (named : t.names p = some i) : t.look p = t.nodes i := by
 rw [look, named]
 rfl

theorem names_of_look_none (wf : t.WellFormed) (missing : t.look p = none) : t.names p = none := by
 cases named : t.names p with
 | none => rfl
 | some i =>
  rw [look_of_names named] at missing
  exact absurd missing (wf.known p i named).2

theorem names_ne_none (found : t.look p = some node) : t.names p ≠ none := by
 obtain ⟨i, named, -⟩ := look_eq_some.mp found
 rw [named]
 simp

theorem dir_above (wf : t.WellFormed) {r : List ν} (more : r ≠ [])
  (named : t.names (p ++ r) ≠ none) :
  t.look p = some .dir := by
 induction r using List.reverseRecOn with
 | nil => exact absurd rfl more
 | append_singleton r x ih =>
  rw [← List.append_assoc] at named
  have parent := wf.parent (p ++ r) x named
  by_cases single : r = []
  · rw [single, List.append_nil] at parent
    exact parent
  · exact ih single (names_ne_none parent)

theorem dir_of_proper (wf : t.WellFormed) (front : p <+: q) (proper : p ≠ q)
  (named : t.names q ≠ none) : t.look p = some .dir := by
 obtain ⟨r, rfl⟩ := front
 refine dir_above wf ?_ named
 rintro rfl
 exact proper (List.append_nil p).symm

theorem wellFormed_rewrite {old content : γ} (wf : t.WellFormed)
  (file : t.nodes i = some (.file old)) :
  (t.rewrite i content).WellFormed := by
 have dirs : ∀ q, t.look q = some .dir → (t.rewrite i content).look q = some .dir := by
  intro q dir
  obtain ⟨j, named, is⟩ := look_eq_some.mp dir
  have other : j ≠ i := by
   rintro rfl
   rw [file] at is
   cases is
  simp [look, rewrite, named, other, is]
 refine ⟨dirs [] wf.root, fun q y named => dirs q (wf.parent q y named), ?_⟩
 intro q j named
 obtain ⟨known, present⟩ := wf.known q j named
 refine ⟨known, ?_⟩
 by_cases here : j = i
 · simp [rewrite, here]
 · simpa [rewrite, here] using present

theorem wellFormed_bare : (bare : NameTree ν γ τ δ).WellFormed where
 root := rfl
 parent := by
  intro p x named
  simp [bare] at named
 known := by
  intro p i named
  obtain ⟨-, isRoot⟩ : p = [] ∧ 0 = i := by simpa [bare] using named
  subst isRoot
  exact ⟨Nat.one_pos, by simp [bare]⟩

section Changes

variable [DecidableEq ν]

theorem names_create : (t.create p node).names q = if q = p then some t.next else t.names q := rfl

theorem look_create (wf : t.WellFormed) :
  (t.create p node).look q = if q = p then some node else t.look q := by
 by_cases here : q = p
 · rw [if_pos here]
   simp [look, create, here]
 · rw [if_neg here]
   cases named : t.names q with
   | none => simp [look, create, here, named]
   | some j =>
    have old : j ≠ t.next := Nat.ne_of_lt (wf.known q j named).1
    simp [look, create, here, named, old]

theorem wellFormed_create {x : ν} (wf : t.WellFormed) (parent : t.look p = some .dir)
  (missing : t.names (p ++ [x]) = none) : (t.create (p ++ [x]) node).WellFormed where
 root := by
  rw [look_create wf, if_neg (by simp)]
  exact wf.root
 parent := by
  intro q y named
  rw [look_create wf]
  have notHere : q ≠ p ++ [x] := by
   rintro rfl
   -- a child of the new name would have been there before
   rw [names_create, if_neg (by simp)] at named
   exact names_ne_none (wf.parent (p ++ [x]) y named) missing
  rw [if_neg notHere]
  by_cases new : q ++ [y] = p ++ [x]
  · rw [(List.append_inj' new rfl).1]
    exact parent
  · rw [names_create, if_neg new] at named
    exact wf.parent q y named
 known := by
  intro q j named
  by_cases here : q = p ++ [x]
  · have is : t.next = j := by simpa [create, here] using named
    rw [← is]
    simp [create]
  · have before : t.names q = some j := by simpa [create, here] using named
    obtain ⟨old, present⟩ := wf.known q j before
    have other : j ≠ t.next := Nat.ne_of_lt old
    refine ⟨Nat.lt_succ_of_lt old, ?_⟩
    simpa [create, other] using present

theorem created_dir {x : ν} (wf : t.WellFormed) (parent : t.look p = some .dir)
  (absent : t.look (p ++ [x]) = none) :
  t.names (p ++ [x]) = none ∧ (t.create (p ++ [x]) .dir).WellFormed ∧
   (t.create (p ++ [x]) .dir).look (p ++ [x]) = some .dir := by
 have missing := names_of_look_none wf absent
 refine ⟨missing, wellFormed_create wf parent missing, ?_⟩
 rw [look_create wf, if_pos rfl]

theorem names_attach : (t.attach p i).names q = if q = p then some i else t.names q := rfl

theorem look_attach : (t.attach p i).look q = if q = p then t.nodes i else t.look q := by
 by_cases here : q = p
 · rw [if_pos here]
   simp [look, attach, here]
 · rw [if_neg here]
   simp [look, attach, here]

theorem wellFormed_attach {x : ν} (wf : t.WellFormed) (parent : t.look p = some .dir)
  (missing : t.names (p ++ [x]) = none) (old : i < t.next) (present : t.nodes i ≠ none) :
  (t.attach (p ++ [x]) i).WellFormed where
 root := by
  rw [look_attach, if_neg (by simp)]
  exact wf.root
 parent := by
  intro q y named
  rw [look_attach]
  have notHere : q ≠ p ++ [x] := by
   rintro rfl
   rw [names_attach, if_neg (by simp)] at named
   exact names_ne_none (wf.parent (p ++ [x]) y named) missing
  rw [if_neg notHere]
  by_cases new : q ++ [y] = p ++ [x]
  · rw [(List.append_inj' new rfl).1]
    exact parent
  · rw [names_attach, if_neg new] at named
    exact wf.parent q y named
 known := by
  intro q j named
  by_cases here : q = p ++ [x]
  · have is : i = j := by simpa [attach, here] using named
    rw [← is]
    exact ⟨old, present⟩
  · have before : t.names q = some j := by simpa [attach, here] using named
    exact wf.known q j before

theorem names_erase : (t.erase p).names q = if p <+: q then none else t.names q := rfl

theorem look_erase : (t.erase p).look q = if p <+: q then none else t.look q := by
 by_cases below : p <+: q
 · simp [look, names_erase, below]
 · simp [look, names_erase, below]
   rfl

theorem wellFormed_erase (wf : t.WellFormed) (notRoot : p ≠ []) : (t.erase p).WellFormed where
 root := by
  rw [look_erase, if_neg (by simpa using notRoot)]
  exact wf.root
 parent := by
  intro q y named
  rw [names_erase] at named
  have kept : ¬ p <+: q ++ [y] := by
   intro below
   exact named (if_pos below)
  rw [if_neg kept] at named
  rw [look_erase, if_neg fun below => kept (below.trans (List.prefix_append q [y]))]
  exact wf.parent q y named
 known := by
  intro q j named
  rw [names_erase] at named
  split at named
  · cases named
  · exact wf.known q j named

end Changes

end Trees

/-- A tree that calls can have made of another. -/
structure Follows {ν γ τ δ : Type} (t t' : NameTree ν γ τ δ) : Prop where
 wf : t'.WellFormed
 next : t.next ≤ t'.next

/-- All names that are not lost are as before, and so are all inodes. -/
structure Spares {ν γ τ δ : Type} (lost : List ν → Prop) (t t' : NameTree ν γ τ δ) : Prop where
 wf : t'.WellFormed
 next : t.next ≤ t'.next
 nodes : ∀ i, i < t.next → t'.nodes i = t.nodes i
 names : ∀ p i, t.names p = some i → ¬ lost p → t'.names p = some i

section Kept

variable {ν γ τ δ : Type} {t t' t'' : NameTree ν γ τ δ} {p : List ν} {i : Nat} {node : Node γ τ δ}
 {lost more : List ν → Prop}

theorem Follows.refl (wf : t.WellFormed) : Follows t t := ⟨wf, Nat.le_refl _⟩

theorem Follows.trans (first : Follows t t') (second : Follows t' t'') : Follows t t'' :=
 ⟨second.wf, Nat.le_trans first.next second.next⟩

theorem Spares.follows (spares : Spares lost t t') : Follows t t' := ⟨spares.wf, spares.next⟩

theorem follows_rewrite {old content : γ} (wf : t.WellFormed)
  (file : t.nodes i = some (.file old)) :
  Follows t (t.rewrite i content) :=
 ⟨wellFormed_rewrite wf file, Nat.le_refl _⟩

theorem Spares.refl (wf : t.WellFormed) : Spares lost t t :=
 ⟨wf, Nat.le_refl _, fun _ _ => rfl, fun _ _ named _ => named⟩

theorem Spares.trans (first : Spares lost t t') (second : Spares lost t' t'') :
  Spares lost t t'' where
 wf := second.wf
 next := Nat.le_trans first.next second.next
 nodes := fun i old => (second.nodes i (Nat.lt_of_lt_of_le old first.next)).trans
  (first.nodes i old)
 names := fun p i named kept => second.names p i (first.names p i named kept) kept

theorem Spares.mono (spares : Spares lost t t') (less : ∀ p, t.names p ≠ none → lost p → more p) :
  Spares more t t' where
 wf := spares.wf
 next := spares.next
 nodes := spares.nodes
 names := by
  intro p i named kept
  refine spares.names p i named fun gone => kept (less p ?_ gone)
  rw [named]
  simp

theorem Spares.look (spares : Spares lost t t') (wf : t.WellFormed) (kept : ¬ lost p)
  (found : t.look p = some node) : t'.look p = some node := by
 obtain ⟨i, named, is⟩ := look_eq_some.mp found
 refine look_eq_some.mpr ⟨i, spares.names p i named kept, ?_⟩
 rw [spares.nodes i (wf.known p i named).1, is]

theorem spares_rewrite {old content : γ} (wf : t.WellFormed) (file : t.nodes i = some (.file old))
  {t₀ : NameTree ν γ τ δ} (spares : Spares lost t₀ t) (new : t₀.next ≤ i) :
  Spares lost t₀ (t.rewrite i content) where
 wf := wellFormed_rewrite wf file
 next := spares.next
 nodes := by
  intro j old
  have other : j ≠ i := Nat.ne_of_lt (Nat.lt_of_lt_of_le old new)
  rw [← spares.nodes j old]
  simp [rewrite, other]
 names := spares.names

variable [DecidableEq ν]

theorem spares_create {x : ν} (wf : t.WellFormed) (parent : t.look p = some .dir)
  (missing : t.names (p ++ [x]) = none) : Spares lost t (t.create (p ++ [x]) node) where
 wf := wellFormed_create wf parent missing
 next := Nat.le_succ _
 nodes := by
  intro i old
  simp [create, Nat.ne_of_lt old]
 names := by
  intro q i named _
  have other : q ≠ p ++ [x] := by
   rintro rfl
   rw [missing] at named
   cases named
  simpa [create, other] using named

theorem spares_attach {x : ν} (wf : t.WellFormed) (parent : t.look p = some .dir)
  (missing : t.names (p ++ [x]) = none) (old : i < t.next) (present : t.nodes i ≠ none) :
  Spares lost t (t.attach (p ++ [x]) i) where
 wf := wellFormed_attach wf parent missing old present
 next := Nat.le_refl _
 nodes := fun _ _ => rfl
 names := by
  intro q j named _
  have other : q ≠ p ++ [x] := by
   rintro rfl
   rw [missing] at named
   cases named
  simpa [attach, other] using named

theorem spares_erase (wf : t.WellFormed) (notRoot : p ≠ []) : Spares (p <+: ·) t (t.erase p) where
 wf := wellFormed_erase wf notRoot
 next := Nat.le_refl _
 nodes := fun _ _ => rfl
 names := by
  intro q i named kept
  rw [names_erase, if_neg kept]
  exact named

end Kept

/-- Every name and every inode is as before; what is new has new inodes. -/
structure Extends {ν γ τ δ : Type} (t t' : NameTree ν γ τ δ) : Prop where
 names : ∀ p i, t.names p = some i → t'.names p = some i
 nodes : ∀ i, i < t.next → t'.nodes i = t.nodes i
 next : t.next ≤ t'.next
 fresh : ∀ p i, t'.names p = some i → t.names p = some i ∨ t.next ≤ i

section Growth

variable {ν γ τ δ ρ : Type} {t t' t'' : NameTree ν γ τ δ} {p q : List ν} {i : Nat}
 {node : Node γ τ δ}

theorem Extends.refl (t : NameTree ν γ τ δ) : Extends t t :=
 ⟨fun _ _ named => named, fun _ _ => rfl, Nat.le_refl _, fun _ _ named => .inl named⟩

theorem Extends.trans (first : Extends t t') (second : Extends t' t'') : Extends t t'' where
 names := fun p i named => second.names p i (first.names p i named)
 nodes := fun i old => (second.nodes i (Nat.lt_of_lt_of_le old first.next)).trans
  (first.nodes i old)
 next := Nat.le_trans first.next second.next
 fresh := by
  intro p i named
  rcases second.fresh p i named with before | new
  · exact first.fresh p i before
  · exact .inr (Nat.le_trans first.next new)

theorem Extends.spares {lost : List ν → Prop} (grows : Extends t t') (wf : t'.WellFormed) :
  Spares lost t t' :=
 ⟨wf, grows.next, grows.nodes, fun p i named _ => grows.names p i named⟩

theorem dir_dropLast (wf : t.WellFormed) (filled : p ≠ []) (dir : t.look p = some .dir) :
  t.look p.dropLast = some .dir := by
 apply dir_above wf (List.cons_ne_nil (p.getLast filled) [])
 rw [List.dropLast_append_getLast filled]
 exact names_ne_none dir

variable [DecidableEq ν]

theorem extends_create (missing : t.names p = none) : Extends t (t.create p node) where
 names := by
  intro q i named
  have other : q ≠ p := by
   rintro rfl
   rw [missing] at named
   cases named
  simpa [create, other] using named
 nodes := by
  intro i old
  simp [create, Nat.ne_of_lt old]
 next := Nat.le_succ _
 fresh := by
  intro q i named
  by_cases here : q = p
  · have is : t.next = i := by simpa [create, here] using named
    exact .inr (Nat.le_of_eq is)
  · exact .inl (by simpa [create, here] using named)

/-- What a function that goes on behind a link must keep for the directories before it. -/
def Grows (go : NameTree ν γ τ δ → Limit ρ → List ν → List (Hop ν) →
   NameTree ν γ τ δ × Option (Errno ρ)) : Prop :=
 ∀ t limit cur hops, t.WellFormed → t.look cur = some .dir →
  Extends t (go t limit cur hops).1 ∧ (go t limit cur hops).1.WellFormed

variable {parse : τ → Option (List (Hop ν))} {last : NameTree ν γ τ δ → Bool}

theorem grows_mkdirs {onLink : NameTree ν γ τ δ → Limit ρ → List ν → List (Hop ν) →
   NameTree ν γ τ δ × Option (Errno ρ)} (link : Grows onLink) :
  Grows (mkdirs parse last onLink) := by
 intro t limit cur hops
 induction hops generalizing t limit cur with
 | nil => exact fun wf _ => ⟨Extends.refl t, wf⟩
 | cons hop rest ih =>
  intro wf dir
  unfold mkdirs
  split
  · exact ⟨Extends.refl t, wf⟩
  · cases hop with
    | up =>
     dsimp only
     split
     · exact ⟨Extends.refl t, wf⟩
     · rename_i filled
       exact ih t _ _ wf (dir_dropLast wf filled dir)
    | down x =>
     dsimp only
     split
     · rename_i absent
       obtain ⟨missing, made, there⟩ := created_dir wf dir absent
       obtain ⟨grown, fine⟩ := ih _ limit.pass _ made there
       exact ⟨(extends_create missing).trans grown, fine⟩
     · rename_i isDir
       exact ih t _ _ wf isDir
     · split
       · exact ⟨Extends.refl t, wf⟩
       · split
         · exact ⟨Extends.refl t, wf⟩
         · exact link t _ cur _ wf dir
     · exact ⟨Extends.refl t, wf⟩

theorem grows_mkdirAll (links : Nat) :
  Grows (mkdirAll parse last links : NameTree ν γ τ δ → Limit ρ → _ → _ → _) := by
 induction links with
 | zero => exact grows_mkdirs fun t _ _ _ wf _ => ⟨Extends.refl t, wf⟩
 | succ links ih => exact grows_mkdirs ih

end Growth

/-- The root, or a name in a directory. -/
def Placed {ν γ τ δ : Type} (t : NameTree ν γ τ δ) (p : List ν) : Prop :=
 p = [] ∨ ∃ q x, p = q ++ [x] ∧ t.look q = some .dir

section Found

variable {ν γ τ δ ρ : Type} {parse : τ → Option (List (Hop ν))} {t : NameTree ν γ τ δ}
 {follow : Bool}
 {cur p : List ν} {hops : List (Hop ν)}

theorem placed_of_named (wf : t.WellFormed) (named : t.names p ≠ none) : Placed t p := by
 induction p using List.reverseRecOn with
 | nil => exact .inl rfl
 | append_singleton p x _ => exact .inr ⟨p, x, rfl, wf.parent p x named⟩

theorem walk_placed {onLink : List ν → List (Hop ν) → Except (Errno ρ) (List ν)} (wf : t.WellFormed)
  (link : ∀ c hs q, t.look c = some .dir → onLink c hs = .ok q → Placed t q)
  (dir : t.look cur = some .dir) (found : walk parse t follow onLink cur hops = .ok p) :
  Placed t p := by
 induction hops generalizing cur with
 | nil =>
  rw [← Except.ok.inj found]
  exact placed_of_named wf (names_ne_none dir)
 | cons hop rest ih =>
  cases hop with
  | up =>
   rw [walk] at found
   split at found
   · cases found
   · rename_i filled
     exact ih (dir_dropLast wf filled dir) found
  | down x =>
   have here : ∀ q, (.ok (cur ++ [x]) : Except (Errno ρ) (List ν)) = .ok q → Placed t q := by
    intro q is
    rw [← Except.ok.inj is]
    exact .inr ⟨cur, x, rfl, dir⟩
   rw [walk] at found
   split at found
   · split at found
     · exact here p found
     · split at found
       · cases found
       · exact link _ _ p dir found
   · rename_i isDir
     exact ih isDir found
   · split at found
     · exact here p found
     · cases found
   · split at found
     · exact here p found
     · cases found

theorem resolve_placed (links : Nat) (wf : t.WellFormed) (dir : t.look cur = some .dir)
  (found : (resolve parse t follow links cur hops : Except (Errno ρ) (List ν)) = .ok p) :
  Placed t p := by
 induction links generalizing cur hops p with
 | zero => exact walk_placed wf (fun _ _ _ _ impossible => by cases impossible) dir found
 | succ links ih => exact walk_placed wf (fun c hs q isDir later => ih isDir later) dir found

end Found

section Straight

variable {ν γ τ δ ρ : Type} {parse : τ → Option (List (Hop ν))} {t : NameTree ν γ τ δ}
 {p q cur rest : List ν}

/-- No path above this one denotes a link. -/
def Straight (t : NameTree ν γ τ δ) (p : List ν) : Prop :=
 ∀ q, q <+: p → q ≠ p → ∀ text, t.look q ≠ some (.link text)

/-- Hops down along names. -/
def downs (p : List ν) : List (Hop ν) := p.map .down

/-- No link stands on the way from a directory, and none at its end if that would be followed. -/
def Unlinked (t : NameTree ν γ τ δ) (follow : Bool) (cur rest : List ν) : Prop :=
 ∀ r, r <+: rest → r ≠ [] → (r ≠ rest ∨ follow = true) → ∀ text,
  t.look (cur ++ r) ≠ some (.link text)

variable {follow : Bool} {x : ν}

theorem Unlinked.first (free : Unlinked t follow cur (x :: rest))
  (goes : rest ≠ [] ∨ follow = true) (text : τ) : t.look (cur ++ [x]) ≠ some (.link text) := by
 apply free [x] (by simp) (List.cons_ne_nil x [])
 refine goes.imp_left fun filled same => filled ?_
 exact (List.cons.inj same).2.symm

theorem Unlinked.further (free : Unlinked t follow cur (x :: rest)) :
  Unlinked t follow (cur ++ [x]) rest := by
 intro r front _ proper text
 have here := free (x :: r) (List.cons_prefix_cons.mpr ⟨rfl, front⟩) (List.cons_ne_nil x r)
  (proper.imp_left fun differs same => differs (List.cons.inj same).2) text
 rwa [List.append_assoc]

theorem unlinked_of_straight (straight : Straight t p)
  (last : follow = true → ∀ text, t.look p ≠ some (.link text)) : Unlinked t follow [] p := by
 intro r front _ proper text
 rw [List.nil_append]
 by_cases whole : r = p
 · rw [whole]
   exact last (proper.resolve_left fun differs => differs whole) text
 · exact straight r front whole text

theorem downs_eq_nil : downs rest = [] ↔ rest = [] := List.map_eq_nil_iff

theorem straight_of_named (wf : t.WellFormed) (named : t.names p ≠ none) : Straight t p := by
 intro q above proper text
 rw [dir_of_proper wf above proper named]
 simp

theorem straight_of_parent (wf : t.WellFormed) (dir : t.look p = some .dir) :
  Straight t (p ++ [x]) := by
 intro q above proper text
 rcases List.prefix_concat_iff.mp above with whole | higher
 · exact absurd whole proper
 · by_cases here : q = p
   · rw [here, dir]
     simp
   · rw [dir_of_proper wf higher here (names_ne_none dir)]
     simp

instance [DecidableEq ν] (t : NameTree ν γ τ δ) (p : List ν) : Decidable (Straight t p) :=
 decidable_of_iff (∀ q ∈ p.inits, q ≠ p → (t.look q).any Node.isLink = false) <| by
  constructor
  · intro all q above proper text linked
    have here := all q ((List.mem_inits q p).mpr above) proper
    rw [linked] at here
    cases here
  · intro straight q above proper
    have free := straight q ((List.mem_inits q p).mp above) proper
    cases found : t.look q with
    | none => rfl
    | some node =>
     cases node with
     | link text => exact absurd found (free text)
     | dir => rfl
     | file content => rfl
     | device kind => rfl

theorem walk_named {onLink : List ν → List (Hop ν) → Except (Errno ρ) (List ν)}
  (wf : t.WellFormed) (free : Unlinked t follow cur rest) (named : t.names (cur ++ rest) ≠ none) :
  walk parse t follow onLink cur (downs rest) = .ok (cur ++ rest) := by
 induction rest generalizing cur with
 | nil =>
  rw [List.append_nil]
  rfl
 | cons x rest ih =>
  have split_one : cur ++ x :: rest = cur ++ [x] ++ rest := by simp
  rw [split_one] at named ⊢
  change walk parse t follow onLink cur (.down x :: downs rest) = _
  by_cases ends : rest = []
  · subst ends
    rw [List.append_nil] at named ⊢
    obtain ⟨i, is⟩ := Option.ne_none_iff_exists'.mp named
    obtain ⟨node, present⟩ := Option.ne_none_iff_exists'.mp (wf.known _ i is).2
    rw [walk, look_of_names is, present]
    cases node with
    | dir => rfl
    | file content => rfl
    | device kind => rfl
    | link text =>
     cases follow with
     | false => rfl
     | true =>
      have linked : t.look (cur ++ [x]) = some (.link text) := by rw [look_of_names is, present]
      exact absurd linked (free.first (.inr rfl) text)
  · rw [walk, dir_above wf ends named]
    exact ih free.further named

theorem resolve_named (links : Nat) (wf : t.WellFormed) (named : t.names p ≠ none)
  (last : follow = true → ∀ text, t.look p ≠ some (.link text)) :
  (resolve parse t follow links [] (downs p) : Except (Errno ρ) (List ν)) = .ok p := by
 have free := unlinked_of_straight (straight_of_named wf named) last
 cases links with
 | zero => exact walk_named wf free named
 | succ links => exact walk_named wf free named

theorem walk_unlinked {onLink : List ν → List (Hop ν) → Except (Errno ρ) (List ν)}
  (wf : t.WellFormed) (free : Unlinked t follow cur rest) :
  (∀ q, walk parse t follow onLink cur (downs rest) = .ok q → q = cur ++ rest) ∧
   (walk parse t follow onLink cur (downs rest) = .error .notExist → t.names (cur ++ rest) =
    none) := by
 induction rest generalizing cur with
 | nil =>
  refine ⟨fun q found => ?_, fun missing => by cases missing⟩
  rw [List.append_nil]
  exact (Except.ok.inj found).symm
 | cons x rest ih =>
  have split_one : cur ++ x :: rest = cur ++ [x] ++ rest := by simp
  have last : ∀ q, downs rest = [] → (.ok (cur ++ [x]) : Except (Errno ρ) (List ν)) = .ok q →
    q = cur ++ [x] ++ rest := by
   intro q ends found
   rw [downs_eq_nil.mp ends, List.append_nil]
   exact (Except.ok.inj found).symm
  rw [split_one]
  change (∀ q, walk parse t follow onLink cur (.down x :: downs rest) = .ok q → _) ∧
   (walk parse t follow onLink cur (.down x :: downs rest) = .error .notExist → _)
  rw [walk]
  split
  · rename_i text linked
    split
    · rename_i ends
      exact ⟨fun q => last q ends.1, fun missing => by cases missing⟩
    · rename_i goes
      rw [downs_eq_nil, not_and_or, Bool.not_eq_false] at goes
      exact absurd linked (free.first goes text)
  · exact ih free.further
  · split
    · rename_i ends
      exact ⟨fun q => last q ends, fun missing => by cases missing⟩
    · exact ⟨fun q found => (by cases found), fun missing => by cases missing⟩
  · rename_i missing
    split
    · rename_i ends
      exact ⟨fun q => last q ends, fun missing => by cases missing⟩
    · rename_i more
      refine ⟨fun q found => (by cases found), fun _ => ?_⟩
      by_contra named
      have dir := dir_above wf (fun ends => more (downs_eq_nil.mpr ends)) named
      rw [missing] at dir
      cases dir

theorem resolve_straight (links : Nat) (wf : t.WellFormed) (straight : Straight t p)
  (last : follow = true → ∀ text, t.look p ≠ some (.link text)) :
  (∀ q, (resolve parse t follow links [] (downs p) : Except (Errno ρ) (List ν)) = .ok q → q = p) ∧
   ((resolve parse t follow links [] (downs p) : Except (Errno ρ) (List ν)) = .error .notExist →
    t.names p = none) := by
 have free := unlinked_of_straight straight last
 cases links with
 | zero => exact walk_unlinked wf free
 | succ links => exact walk_unlinked wf free

section Mkdir

variable [DecidableEq ν] {lastIsDir : NameTree ν γ τ δ → Bool}

theorem mkdirs_unlinked {onLink : NameTree ν γ τ δ → Limit ρ → List ν → List (Hop ν) →
   NameTree ν γ τ δ × Option (Errno ρ)} (limit : Limit ρ) (wf : t.WellFormed)
  (dir : t.look cur = some .dir) (free : Unlinked t true cur rest) :
  (∀ q, (mkdirs parse lastIsDir onLink t limit cur (downs rest)).1.names q ≠ t.names q →
   q <+: cur ++ rest) ∧
   ((mkdirs parse lastIsDir onLink t limit cur (downs rest)).2 = none →
    (mkdirs parse lastIsDir onLink t limit cur (downs rest)).1.look (cur ++ rest) = some .dir) := by
 induction rest generalizing t limit cur with
 | nil =>
  refine ⟨fun q changed => absurd rfl changed, fun _ => ?_⟩
  rw [List.append_nil]
  exact dir
 | cons x rest ih =>
  have split_one : cur ++ x :: rest = cur ++ [x] ++ rest := by simp
  have idle : ∀ e : Errno ρ, (∀ q, ((t, some e) : _ × Option (Errno ρ)).1.names q ≠ t.names q →
    q <+: cur ++ [x] ++ rest) ∧ (((t, some e) : _ × Option (Errno ρ)).2 = none →
     t.look (cur ++ [x] ++ rest) = some .dir) :=
   fun e => ⟨fun q changed => absurd rfl changed, fun well => by cases well⟩
  rw [split_one]
  change (∀ q, (mkdirs parse lastIsDir onLink t limit cur (.down x :: downs rest)).1.names q ≠ _ →
   _) ∧ ((mkdirs parse lastIsDir onLink t limit cur (.down x :: downs rest)).2 = none →
    (mkdirs parse lastIsDir onLink t limit cur (.down x :: downs rest)).1.look _ = some .dir)
  unfold mkdirs
  split
  · exact idle _
  · dsimp only
    split
    · rename_i absent
      obtain ⟨missing, made, there⟩ := created_dir wf dir absent
      have still : Unlinked (t.create (cur ++ [x]) .dir) true (cur ++ [x]) rest := by
       intro r front filled proper text
       rw [look_create wf, if_neg (by simpa using filled)]
       exact free.further r front filled proper text
      obtain ⟨along, ends⟩ := ih limit.pass made there still
      refine ⟨fun q changed => ?_, ends⟩
      by_cases here : q = cur ++ [x]
      · rw [here]
        exact List.prefix_append _ _
      · apply along q
        rw [names_create, if_neg here]
        exact changed
    · rename_i isDir
      exact ih limit.pass wf isDir free.further
    · rename_i text linked
      exact absurd linked (free.first (.inr rfl) text)
    · exact idle _

theorem mkdirAll_straight (links : Nat) (limit : Limit ρ) (wf : t.WellFormed)
  (straight : Straight t p) (last : ∀ text, t.look p ≠ some (.link text)) :
  (∀ q, (mkdirAll parse lastIsDir links t limit [] (downs p)).1.names q ≠ t.names q → q <+: p) ∧
   ((mkdirAll parse lastIsDir links t limit [] (downs p)).2 = none →
    (mkdirAll parse lastIsDir links t limit [] (downs p)).1.look p = some .dir) := by
 have free : Unlinked t true [] p := unlinked_of_straight straight fun _ => last
 cases links with
 | zero => exact mkdirs_unlinked limit wf wf.root free
 | succ links => exact mkdirs_unlinked limit wf wf.root free

end Mkdir

end Straight

end BackImage.Lib.Filesystem
