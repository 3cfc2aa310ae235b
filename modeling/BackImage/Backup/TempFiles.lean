/- source: pkg/backup/pipeline.go
  digest: Which files of a local run are left in the temporary directory, however it ends. -/

import BackImage.Backup.BuilderLayers

namespace BackImage.Backup.TempFiles

open BuilderLayers CutRefinement Pipeline Chunk.Boundary Go.Text Index.CutTables
open Index.Private Index.Model
open Lib.Cut (Cutting cutting)

/-- Where `Run` publishes. -/
inductive Target
 | remote
 | registry
 | output (kind : Str)
 deriving DecidableEq

structure Publication where
 target : Target
 buildImages : Option Str
 remotePayload : Option Str
 indexDigest : Except Str Str
 upload : Except Str Str
 pushRegistry : Option Str
 pushLocal : Option Str

inductive RunError
 | build (cause : BuildError)
 | metadata (cause : BuildError)
 | images (cause : Str)
 | payload (cause : Str)
 | indexDigest (cause : Str)
 | upload (cause : Str)
 | digestDiffers (remote here : Str)
 | push (cause : Str)
 | output (kind cause : Str)
 deriving DecidableEq

def publish (pub : Publication) : Except RunError Unit :=
 match pub.buildImages with
 | some e => .error (.images e)
 | none =>
  match pub.target with
  | .remote =>
   match pub.remotePayload with
   | some e => .error (.payload e)
   | none =>
    match pub.indexDigest with
    | .error e => .error (.indexDigest e)
    | .ok expected =>
     match pub.upload with
     | .error e => .error (.upload e)
     | .ok digest => if digest ≠ expected then .error (.digestDiffers digest expected) else .ok ()
  | .registry =>
   match pub.pushRegistry with
   | some e => .error (.push e)
   | none => .ok ()
  | .output kind =>
   match pub.pushLocal with
   | some e => .error (.output kind e)
   | none => .ok ()

def cleanup (b : Builder) : List TempFile :=
 b.disk.filter fun
  | .spool i => b.spool.all (·.idx ≠ i)
  | .layer k => !(k < b.layers.length : Bool)

def run (env : Env) (cfg : Config) (feed : Feed) (pub : Publication) :
  List TempFile × Except RunError Unit :=
 match build env cfg feed with
 | (b, .error e) => (b.disk, .error (.build e))
 | (b, .ok ()) =>
  match finalize env cfg feed b with
  | .error e => (b.disk, .error (.metadata e))
  | .ok _ => (cleanup b, publish pub)

section Conditions

variable (env : Env) (cfg : Config) (feed : Feed) (boundary : LayerBoundary)

/-- Layer `n` is closed and its file made. -/
def Closes (n : Nat) : Prop :=
 env.digestSpool n = none ∧ env.closeSpool n = none ∧ env.fileLayer n = none

/-- Closing layer `n` fails in one of the two calls after which the spool is removed. -/
def Removes (n : Nat) : Prop :=
 env.digestSpool n ≠ none ∨ env.closeSpool n = none ∧ env.fileLayer n ≠ none

theorem Closes.not_removes {env : Env} {n : Nat} (closes : Closes env n) : ¬ Removes env n := by
 rintro (undigested | ⟨-, unmade⟩)
 · exact undigested closes.1
 · exact unmade closes.2.2

/-- The chunk is stored in the spool, which is created if there is none. -/
def Takes (c : Cutting StoredChunk) (s : StoredChunk) : Prop :=
 env.cancelled s.plain.index = none ∧ storedOf env.store s.plain = .ok s.stored ∧
  (c.filling = [] → env.createSpool c.closed.length = none) ∧ env.writeSpool s.plain.index = none

theorem Takes.unique {env : Env} {c : Cutting StoredChunk} {ck : PlainChunk} {stored other : Bytes}
  (takes : Takes env c ⟨ck, stored⟩) (again : Takes env c ⟨ck, other⟩) : stored = other :=
 Except.ok.inj (takes.2.1.symm.trans again.2.1)

/-- From this point of the cut on, every call of `build` succeeds. -/
def Smooth : Cutting StoredChunk → List PlainChunk → Prop
 | c, [] =>
  feed.splitErr = none ∧ feed.archiveErr = none ∧ c.items.length % 4294967296 ≠ 0 ∧
   (c.filling ≠ [] → Closes env c.closed.length)
 | c, ck :: rest =>
  ∃ stored, Takes env c ⟨ck, stored⟩ ∧
   (rolls (policyOf cfg) boundary c.closed (c.filling ++ [⟨ck, stored⟩]) = true →
    Closes env c.closed.length) ∧
   Smooth (c.step (rolls (policyOf cfg) boundary) ⟨ck, stored⟩) rest

/-- Before a layer is closed, with these chunks in the spool, the first call that fails is one that
leaves no file: nothing was spooled yet, or closing the first layer removes the spool. -/
def FailsBare : List StoredChunk → List PlainChunk → Prop
 | filling, [] =>
  filling = [] ∨
   feed.splitErr = none ∧ feed.archiveErr = none ∧ filling.length % 4294967296 ≠ 0 ∧ Removes env 0
 | filling, ck :: rest =>
  filling = [] ∧ (env.cancelled ck.index ≠ none ∨ (∀ stored, storedOf env.store ck ≠ .ok stored) ∨
    env.createSpool 0 ≠ none) ∨
   ∃ stored, Takes env ⟨[], filling⟩ ⟨ck, stored⟩ ∧
    if rolls (policyOf cfg) boundary [] (filling ++ [⟨ck, stored⟩]) then Removes env 0
    else FailsBare (filling ++ [⟨ck, stored⟩]) rest

end Conditions

/-- The files of the first `n` layers. -/
def layerFiles : Nat → List TempFile
 | 0 => []
 | n + 1 => .layer n :: layerFiles n

def diskOf (c : Cutting StoredChunk) : List TempFile :=
 if c.filling = [] then layerFiles c.closed.length else .spool c.closed.length ::
  layerFiles c.closed.length

theorem spool_not_mem (i n : Nat) : TempFile.spool i ∉ layerFiles n := by
 induction n with
 | zero => exact List.not_mem_nil
 | succ n ih => simpa [layerFiles] using ih

theorem layerFiles_eq_nil {n : Nat} : layerFiles n = [] ↔ n = 0 := by
 cases n <;> simp [layerFiles]

theorem diskOf_eq_nil {c : Cutting StoredChunk} : diskOf c = [] ↔ c.closed = [] ∧
  c.filling = [] := by
 unfold diskOf
 split <;> simp_all [layerFiles_eq_nil]

section Steps

variable {env : Env} {cfg : Config} {feed : Feed} {boundary : LayerBoundary} {b b' : Builder}
 {c : Cutting StoredChunk} {ck : PlainChunk}

/-- The builder is at this point of its cut, below the limit, with the files of that point on
disk. -/
structure Kept (cfg : Config) (boundary : LayerBoundary) (b : Builder) (c : Cutting StoredChunk) :
  Prop where
 follows : Follows cfg boundary b c
 few : (c.closed.length : Int) < (policyOf cfg).maxLayers
 disk : b.disk = diskOf c

theorem Kept.found (kept : Kept cfg boundary b c) (filled : c.filling ≠ []) :
  b.spool = some ⟨c.closed.length, layerContent c.filling, layerSize c.filling⟩ := by
 rw [kept.follows.spool, spoolOf, if_neg (by simpa using filled)]

theorem Kept.removed (kept : Kept cfg boundary b c) (filled : c.filling ≠ []) {s : Spool}
  (found : b.spool = some s) : b.disk.filter (· ≠ .spool s.idx) = layerFiles c.closed.length := by
 cases Option.some.inj ((kept.found filled).symm.trans found)
 rw [kept.disk, diskOf, if_neg filled, List.filter_cons_of_neg (by simp)]
 refine List.filter_eq_self.mpr fun file member => ?_
 have other : file ≠ .spool c.closed.length := by
  rintro rfl
  exact spool_not_mem _ _ member
 simpa using other

theorem rollLayer_cases (kept : Kept cfg boundary b c) (filled : c.filling ≠ []) :
  (Closes env c.closed.length ∧ ∃ b', rollLayer env cfg b = (b', .ok ()) ∧ b'.disk =
   diskOf c.close) ∨
   ¬ Closes env c.closed.length ∧ ∃ b' e, rollLayer env cfg b = (b', .error e) ∧
    (Removes env c.closed.length → b'.disk = layerFiles c.closed.length) ∧
    (¬ Removes env c.closed.length → b'.disk = diskOf c) := by
 have count := kept.follows.layerCount
 have below : ¬ (0 < cfg.maxDataLayers ∧ cfg.maxDataLayers ≤ b.layers.length) := by
  rintro ⟨positive, reached⟩
  have few := kept.few
  rw [maxLayers_of_positive positive, ← count] at few
  omega
 have found := kept.found filled
 have removed := kept.removed filled found
 unfold rollLayer Closes Removes
 rw [found]
 dsimp only
 rw [if_neg below, count]
 cases digest : env.digestSpool c.closed.length with
 | some e =>
  refine .inr ⟨by simp, _, _, rfl, fun _ => removed, ?_⟩
  intro kept
  exact absurd (.inl (by simp)) kept
 | none =>
  cases closing : env.closeSpool c.closed.length with
  | some e => exact .inr ⟨by simp, _, _, rfl, by simp, fun _ => kept.disk⟩
  | none =>
   cases making : env.fileLayer c.closed.length with
   | some e =>
    refine .inr ⟨by simp, _, _, rfl, fun _ => removed, ?_⟩
    intro kept
    exact absurd (.inr ⟨rfl, by simp⟩) kept
   | none =>
    refine .inl ⟨⟨rfl, rfl, rfl⟩, _, rfl, ?_⟩
    dsimp only [applyFallback, removeSpool]
    have made : diskOf ⟨c.closed ++ [c.filling], []⟩ = .layer c.closed.length ::
      layerFiles c.closed.length := by
     simp [diskOf, layerFiles]
    rw [Cutting.close_of_ne_nil filled, made, ← removed]
    exact List.filter_cons_of_pos (by simp)

theorem Kept.missing (kept : Kept cfg boundary b c) (empty : c.filling = []) : b.spool = none := by
 rw [kept.follows.spool, empty]
 rfl

theorem openSpool_cases (env : Env) (kept : Kept cfg boundary b c) :
  (c.filling = [] ∧ ∃ cause, env.createSpool c.closed.length = some cause ∧
    openSpool env b = .error (.createSpool cause)) ∨
   (c.filling = [] → env.createSpool c.closed.length = none) ∧
   ∃ b' s, openSpool env b = .ok (b', s) ∧
    b'.disk = .spool c.closed.length :: layerFiles c.closed.length := by
 unfold openSpool
 by_cases empty : c.filling = []
 · rw [kept.missing empty, kept.follows.blobs]
   cases creating : env.createSpool c.closed.length with
   | some cause => exact .inl ⟨empty, cause, rfl, rfl⟩
   | none =>
    refine .inr ⟨fun _ => rfl, _, _, rfl, ?_⟩
    rw [kept.disk, diskOf, if_pos empty]
 · rw [kept.found empty]
   refine .inr ⟨fun none_yet => absurd none_yet empty, b, _, rfl, ?_⟩
   rw [kept.disk, diskOf, if_neg empty]

/-- Storing a chunk: it is taken, or the call fails, with an empty disk only before the first
spool. -/
theorem storeChunk_cases (kept : Kept cfg boundary b c) (alive : env.cancelled ck.index = none) :
  (∃ stored b', Takes env c ⟨ck, stored⟩ ∧ storeChunk env ck b = (b', .ok stored) ∧
    b'.disk = diskOf (c.push ⟨ck, stored⟩)) ∨
   (∀ stored, ¬ Takes env c ⟨ck, stored⟩) ∧ ∃ b' e, storeChunk env ck b = (b', .error e) ∧
    (b'.disk = [] ↔ c.closed = [] ∧ c.filling = [] ∧
     ((∀ stored, storedOf env.store ck ≠ .ok stored) ∨
      env.createSpool c.closed.length ≠ none)) := by
 unfold storeChunk
 cases storing : storedOf env.store ck with
 | error e =>
  refine .inr ⟨fun stored takes => ?_, b, .store e, rfl, ?_⟩
  · cases storing.symm.trans takes.2.1
  · rw [kept.disk, diskOf_eq_nil]
    simp
 | ok stored =>
  rcases openSpool_cases env kept with
   ⟨empty, cause, refused, opened⟩ | ⟨creates, b₁, s, opened, onDisk⟩
  · rw [opened]
    refine .inr ⟨fun stored takes => ?_, b, .createSpool cause, rfl, ?_⟩
    · cases refused.symm.trans (takes.2.2.1 empty)
    · rw [kept.disk, diskOf_eq_nil]
      simp [refused]
  · rw [opened]
    dsimp only
    cases writing : env.writeSpool ck.index with
    | some cause =>
     refine .inr ⟨fun stored takes => ?_, b₁, .writeSpool cause, rfl, ?_⟩
     · cases writing.symm.trans takes.2.2.2
     · rw [onDisk]
       simp only [reduceCtorEq, false_iff]
       rintro ⟨-, empty, unstored | refused⟩
       · exact unstored stored rfl
       · exact refused (creates empty)
    | none =>
     refine .inl ⟨stored, _, ⟨alive, storing, creates, writing⟩, rfl, ?_⟩
     simp [onDisk, diskOf, Cutting.push]

theorem Kept.push (kept : Kept cfg boundary b c) {stored : Bytes}
  (stores : storeChunk env ck b = (b', .ok stored))
  (disk : b'.disk = diskOf (c.push ⟨ck, stored⟩)) :
  Kept cfg boundary (appendRow b' ⟨ck, stored⟩) (c.push ⟨ck, stored⟩) :=
 ⟨follows_push kept.follows stores, kept.few, disk⟩

theorem push_filling_ne_nil (c : Cutting StoredChunk) (s : StoredChunk) :
  (c.push s).filling ≠ [] := by
 simp [Cutting.push]

theorem few_of_rolls {closed : List (List StoredChunk)} {g : List StoredChunk}
  (closing : rolls (policyOf cfg) boundary closed g = true) :
  ((closed ++ [g]).length : Int) < (policyOf cfg).maxLayers := by
 unfold rolls at closing
 split at closing
 · cases closing
 · rw [List.length_append, List.length_singleton]
   omega

/-- One chunk: it is taken and the step of the cut made, or a call fails. -/
theorem feedChunk_cases (env : Env) (ck : PlainChunk) (kept : Kept cfg boundary b c) :
  (∃ stored b', Takes env c ⟨ck, stored⟩ ∧
    (rolls (policyOf cfg) boundary c.closed (c.filling ++ [⟨ck, stored⟩]) = true →
     Closes env c.closed.length) ∧
    feedChunk env cfg ck b = (b', .ok ()) ∧
    Kept cfg boundary b' (c.step (rolls (policyOf cfg) boundary) ⟨ck, stored⟩)) ∨
   (∀ stored, Takes env c ⟨ck, stored⟩ →
     rolls (policyOf cfg) boundary c.closed (c.filling ++ [⟨ck, stored⟩]) = true ∧
     ¬ Closes env c.closed.length) ∧
    ∃ b' e, feedChunk env cfg ck b = (b', .error e) ∧ (b'.disk = [] ↔ c.closed = [] ∧
     (c.filling = [] ∧
      (env.cancelled ck.index ≠ none ∨ (∀ stored, storedOf env.store ck ≠ .ok stored) ∨
       env.createSpool 0 ≠ none) ∨
      (∃ stored, Takes env c ⟨ck, stored⟩) ∧ Removes env 0)) := by
 unfold feedChunk
 cases alive : env.cancelled ck.index with
 | some cause =>
  have untaken (stored : Bytes) : ¬ Takes env c ⟨ck, stored⟩ := by
   intro takes
   cases alive.symm.trans takes.1
  refine .inr ⟨fun stored takes => absurd takes (untaken stored), b, .cancelled cause, rfl, ?_⟩
  rw [kept.disk, diskOf_eq_nil]
  simp [untaken]
 | none =>
  dsimp only
  rcases storeChunk_cases kept alive with
   ⟨stored, b₁, takes, stores, onDisk⟩ | ⟨untaken, b₁, e, stores, bare⟩
  · have pushed := kept.push stores onDisk
    rw [stores]
    dsimp only
    rw [shouldRollLayer_eq pushed.follows]
    by_cases closing : rolls (policyOf cfg) boundary c.closed (c.filling ++ [⟨ck, stored⟩]) = true
    · rw [if_pos closing]
      rcases rollLayer_cases pushed (push_filling_ne_nil c _) with
       ⟨closes, b₂, rolled, onDisk⟩ | ⟨stays, b₂, e, rolled, removed, left⟩
      · refine .inl ⟨stored, b₂, takes, fun _ => closes, rolled, ?_⟩
        rw [Cutting.step, if_pos closing]
        refine ⟨follows_roll pushed.follows rolled, ?_, onDisk⟩
        rw [Cutting.close_of_ne_nil (push_filling_ne_nil c _)]
        exact few_of_rolls closing
      · refine .inr ⟨fun other takes' => ?_, b₂, e, rolled, ?_⟩
        · rw [takes'.unique takes]
          exact ⟨closing, stays⟩
        · by_cases removes : Removes env c.closed.length
          · rw [removed removes, layerFiles_eq_nil]
            refine ⟨fun none_closed => ?_, fun bare => congrArg List.length bare.1⟩
            have first := List.length_eq_zero_iff.mp none_closed
            exact ⟨first, .inr ⟨⟨stored, takes⟩, none_closed ▸ removes⟩⟩
          · rw [left removes, diskOf_eq_nil]
            refine iff_of_false (fun bare => push_filling_ne_nil c _ bare.2) ?_
            rintro ⟨first, ⟨empty, gone | unstored | refused⟩ | ⟨-, removes'⟩⟩
            · exact gone rfl
            · exact unstored stored takes.2.1
            · have creates := takes.2.2.1 empty
              rw [first] at creates
              exact refused creates
            · rw [first] at removes
              exact removes removes'
    · rw [if_neg closing]
      refine .inl ⟨stored, _, takes, fun closing' => absurd closing' closing, rfl, ?_⟩
      rw [Cutting.step, if_neg closing]
      exact pushed
  · rw [stores]
    refine .inr ⟨fun stored takes => absurd takes (untaken stored), b₁, e, rfl, ?_⟩
    rw [bare]
    refine and_congr_right fun first => ?_
    simp [untaken, first]

/-- A build that went through: files of layers are on disk, of at least one. -/
def Done (cfg : Config) (boundary : LayerBoundary) (b : Builder) : Prop :=
 ∃ c, Follows cfg boundary b c ∧ b.disk = layerFiles c.closed.length ∧ c.closed ≠ []

theorem finish_cases (kept : Kept cfg boundary b c) :
  (Smooth env cfg feed boundary c [] ∧
   ¬ (c.closed = [] ∧ FailsBare env cfg feed boundary c.filling []) ∧
    ∃ b', finish env cfg feed (b, .ok ()) = (b', .ok ()) ∧ Done cfg boundary b') ∨
   ¬ Smooth env cfg feed boundary c [] ∧ ∃ b' e, finish env cfg feed (b, .ok ()) = (b', .error e) ∧
    (b'.disk = [] ↔ c.closed = [] ∧ FailsBare env cfg feed boundary c.filling []) := by
 have counted : b.chunkIdx = 0 ↔ c.items.length % 4294967296 = 0 := by
  rw [kept.follows.counter, ← UInt32.toNat_inj, UInt32.toNat_ofNat']
  rfl
 have still (refused : feed.splitErr = none → feed.archiveErr = none →
  c.items.length % 4294967296 = 0) :
   b.disk = [] ↔ c.closed = [] ∧ FailsBare env cfg feed boundary c.filling [] := by
  rw [kept.disk, diskOf_eq_nil, FailsBare]
  refine and_congr_right fun first => ⟨.inl, ?_⟩
  rintro (empty | ⟨noSplit, noArchive, some_items, -⟩)
  · exact empty
  · have wrapped := refused noSplit noArchive
    rw [Cutting.items, first] at wrapped
    exact absurd wrapped some_items
 unfold finish Smooth
 cases splitting : feed.splitErr with
 | some cause => exact .inr ⟨by simp, b, _, rfl, still (by simp [splitting])⟩
 | none =>
  cases archiving : feed.archiveErr with
  | some cause => exact .inr ⟨by simp, b, _, rfl, still (by simp [archiving])⟩
  | none =>
   dsimp only
   by_cases nothing : b.chunkIdx = 0
   · rw [if_pos nothing]
     have wrapped := counted.mp nothing
     exact .inr ⟨by simp [wrapped], b, _, rfl, still fun _ _ => wrapped⟩
   · rw [if_neg nothing]
     have some_items := mt counted.mpr nothing
     by_cases empty : c.filling = []
     · have idle : rollLayer env cfg b = (b, .ok ()) := by rw [rollLayer, kept.missing empty]
       have some_closed : c.closed ≠ [] := by
        intro none_closed
        simp [Cutting.items, none_closed, empty] at some_items
       refine .inl ⟨⟨rfl, rfl, some_items, fun filled => absurd empty filled⟩, fun bare =>
        some_closed bare.1,
        b, idle, c, kept.follows, ?_, some_closed⟩
       rw [kept.disk, diskOf, if_pos empty]
     · rcases rollLayer_cases kept empty with
        ⟨closes, b₁, rolled, onDisk⟩ | ⟨stays, b₁, e, rolled, removed, left⟩
       · refine .inl ⟨⟨rfl, rfl, some_items, fun _ => closes⟩, ?_, b₁, rolled, c.close,
          follows_roll kept.follows rolled, ?_⟩
         · rintro ⟨first, none_yet | ⟨-, -, -, removes⟩⟩
           · exact empty none_yet
           · exact (first ▸ closes).not_removes removes
         · rw [onDisk, Cutting.close_of_ne_nil empty, diskOf, if_pos rfl]
           simp
       · refine .inr ⟨fun smooth => stays (smooth.2.2.2 empty), b₁, e, rolled, ?_⟩
         by_cases removes : Removes env c.closed.length
         · rw [removed removes, layerFiles_eq_nil, List.length_eq_zero_iff]
           refine ⟨fun first => ⟨first, .inr ⟨splitting, archiving, ?_, ?_⟩⟩, And.left⟩
           · rwa [Cutting.items, first] at some_items
           · rwa [first] at removes
         · rw [left removes, diskOf_eq_nil]
           refine iff_of_false (fun bare => empty bare.2) ?_
           rintro ⟨first, none_yet | ⟨-, -, -, removes'⟩⟩
           · exact empty none_yet
           · rw [first] at removes
             exact removes removes'

theorem failsBare_cons {stored : Bytes} {rest : List PlainChunk} (takes : Takes env c ⟨ck, stored⟩)
  (closes : rolls (policyOf cfg) boundary c.closed (c.filling ++ [⟨ck, stored⟩]) = true →
   Closes env c.closed.length) :
  (c.closed = [] ∧ FailsBare env cfg feed boundary c.filling (ck :: rest)) ↔
   (c.step (rolls (policyOf cfg) boundary) ⟨ck, stored⟩).closed = [] ∧
    FailsBare env cfg feed boundary (c.step (rolls (policyOf cfg) boundary) ⟨ck, stored⟩).filling
    rest := by
 obtain ⟨closed, filling⟩ := c
 have started (first : closed = []) : ¬ (filling = [] ∧ (env.cancelled ck.index ≠ none ∨
   (∀ stored, storedOf env.store ck ≠ .ok stored) ∨ env.createSpool 0 ≠ none)) := by
  subst first
  rintro ⟨empty, gone | unstored | refused⟩
  · exact gone takes.1
  · exact unstored stored takes.2.1
  · exact refused (takes.2.2.1 empty)
 rw [FailsBare]
 by_cases closing : rolls (policyOf cfg) boundary closed (filling ++ [⟨ck, stored⟩]) = true
 · -- the first layer is closed, and its file stays
   rw [Cutting.step, if_pos closing, Cutting.close_of_ne_nil (push_filling_ne_nil _ _)]
   refine iff_of_false ?_ (fun bare => by simp at bare)
   rintro ⟨rfl, before | ⟨other, takes', removes⟩⟩
   · exact started rfl before
   · rw [takes'.unique takes, if_pos closing] at removes
     exact (closes closing).not_removes removes
 · rw [Cutting.step, if_neg closing]
   refine and_congr_right ?_
   rintro rfl
   constructor
   · rintro (before | ⟨other, takes', fails⟩)
     · exact absurd before (started rfl)
     · rw [takes'.unique takes, if_neg closing] at fails
       exact fails
   · intro fails
     refine .inr ⟨stored, takes, ?_⟩
     rw [if_neg closing]
     exact fails

/-- A build from this point of the cut on: all its calls succeed, or one fails, with an empty disk
only in the cases above. -/
theorem feedAll_cases (env : Env) (feed : Feed) (cks : List PlainChunk)
  (kept : Kept cfg boundary b c) :
  (Smooth env cfg feed boundary c cks ∧
   ¬ (c.closed = [] ∧ FailsBare env cfg feed boundary c.filling cks) ∧
    ∃ b', finish env cfg feed (feedAll env cfg cks b) = (b', .ok ()) ∧ Done cfg boundary b') ∨
   ¬ Smooth env cfg feed boundary c cks ∧
    ∃ b' e, finish env cfg feed (feedAll env cfg cks b) = (b', .error e) ∧
     (b'.disk = [] ↔ c.closed = [] ∧ FailsBare env cfg feed boundary c.filling cks) := by
 induction cks generalizing b c with
 | nil => exact finish_cases kept
 | cons ck rest ih =>
  rw [feedAll, Smooth]
  rcases feedChunk_cases env ck kept with
   ⟨stored, b₁, takes, closes, fed, kept₁⟩ | ⟨stuck, b₁, e, fed, bare⟩
  · rw [fed, failsBare_cons takes closes]
    rcases ih kept₁ with ⟨smooth, sound, done⟩ | ⟨rough, failed⟩
    · exact .inl ⟨⟨stored, takes, closes, smooth⟩, sound, done⟩
    · refine .inr ⟨?_, failed⟩
      rintro ⟨other, takes', -, smooth⟩
      rw [takes'.unique takes] at smooth
      exact rough smooth
  · rw [fed]
    refine .inr ⟨?_, b₁, e, rfl, ?_⟩
    · rintro ⟨stored, takes, closes, -⟩
      exact (stuck stored takes).2 (closes (stuck stored takes).1)
    · rw [bare, FailsBare]
      obtain ⟨closed, filling⟩ := c
      refine and_congr_right ?_
      rintro rfl
      refine or_congr_right ?_
      constructor
      · rintro ⟨⟨stored, takes⟩, removes⟩
        refine ⟨stored, takes, ?_⟩
        rw [if_pos (stuck stored takes).1]
        exact removes
      · rintro ⟨stored, takes, removes⟩
        rw [if_pos (stuck stored takes).1] at removes
        exact ⟨⟨stored, takes⟩, removes⟩

end Steps

section Runs

variable {env : Env} {cfg : Config} {feed : Feed} {boundary : LayerBoundary} {b : Builder}

/-- `chunk.NewFixed` refuses the size. -/
def BadSize (cfg : Config) : Prop :=
 cfg.dedup = false ∧ (cfg.chunkBytes < minChunkSize ∨ maxChunkSize < cfg.chunkBytes)

theorem buildWith_cases (env : Env) (cfg : Config) (feed : Feed) (boundary : LayerBoundary) :
  (¬ (BadSize cfg ∨ env.newSealer ≠ none ∨
   FailsBare env cfg feed boundary [] (number 0 feed.data)) ∧
    Smooth env cfg feed boundary .empty (number 0 feed.data) ∧
    ∃ b, buildWith env cfg feed boundary = (b, .ok ()) ∧ Done cfg boundary b) ∨
   (Smooth env cfg feed boundary .empty (number 0 feed.data) → BadSize cfg ∨ env.newSealer ≠ none) ∧
    ∃ b e, buildWith env cfg feed boundary = (b, .error e) ∧
     (b.disk = [] ↔ BadSize cfg ∨ env.newSealer ≠ none ∨
      FailsBare env cfg feed boundary [] (number 0 feed.data)) := by
 have start : Kept cfg boundary (Builder.start boundary) .empty := by
  refine ⟨follows_start cfg boundary, ?_, rfl⟩
  have one := one_le_maxLayers cfg
  exact one
 by_cases size : BadSize cfg
 · exact .inr ⟨fun _ => .inl size, _, _, if_pos size, iff_of_true rfl (.inl size)⟩
 · cases sealing : env.newSealer with
   | some cause =>
    refine .inr ⟨fun _ => .inr (by simp), Builder.start boundary, .sealer cause, ?_,
     iff_of_true rfl (.inr (.inl (by simp)))⟩
    refine (if_neg size).trans ?_
    rw [sealing]
   | none =>
    have whole : buildWith env cfg feed boundary =
      finish env cfg feed (feedAll env cfg (number 0 feed.data) (Builder.start boundary)) := by
     refine (if_neg size).trans ?_
     rw [sealing]
    rw [whole]
    simp only [size, ne_eq, not_true, false_or]
    have cases := feedAll_cases env feed (number 0 feed.data) start
    simp only [Cutting.empty, true_and] at cases
    rcases cases with ⟨smooth, sound, done⟩ | ⟨rough, failed⟩
    · exact .inl ⟨sound, smooth, done⟩
    · exact .inr ⟨rough, failed⟩

/-- The calls of `finalize` succeed: the index is written and, with encryption, the private half. -/
def Writes (env : Env) (cfg : Config) (feed : Feed) : Prop :=
 (∃ blob, env.writer.writeIndex ⟨if cfg.encrypt then schemaVersionPrivate else 1, feed.entries⟩ =
  .ok blob) ∧
  (cfg.encrypt = true → Seals env.writer)

end Runs

end BackImage.Backup.TempFiles
