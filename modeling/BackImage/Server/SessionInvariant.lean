/- source: pkg/server/session.go, pkg/server/session_stream.go
  digest: What a session hears and does, in order, what must come before each of its calls, and what
    holds between two steps. -/

import BackImage.Server.Session

namespace BackImage.Server.SessionInvariant

open Go.Sha256 Go.Text Lib.Transitions RegistrySink Session
open Protocol.Frames hiding written
open Server.Stream (maxDataLayers)

universe u

variable {W : Type u}

inductive Item
 | heard (m : ClientMessage)
 | own (e : Event)
 | pipe (e : Event)
 deriving DecidableEq

def Item.event : Item → Option Event
 | .heard _ => none
 | .own e => some e
 | .pipe e => some e

def events (h : List Item) : List Event := h.filterMap Item.event

def heardIn (cfg : SessionConfig) (t : Turn W) : List Item :=
 match t.trouble, t.frame with
 | none, .ok (some .control, payload) =>
  match cfg.decode payload with
  | .ok m => [.heard m]
  | .error _ => []
 | _, _ => []

def news (log log' : List Event) : List Event := log'.drop log.length

/-- The trace of `runFrom`. -/
def traceFrom (cfg : SessionConfig) (last : Answers W) (eof : Str) : RunState W → List (Turn W) →
  List Item
 | rs, [] => (news rs.log (runFrom cfg last eof rs []).1.log).map .own
 | rs, t :: ts =>
  if rs.state = .closed then (news rs.log (leave t.answers rs .returned).1.log).map .own
  else
   match uploadLayers t.answers.sink rs t.uploads with
   | (piped, true) => (news rs.log piped.log).map .pipe
   | (piped, false) =>
    (news rs.log piped.log).map .pipe ++ heardIn cfg t ++
     match turn cfg t piped with
     | (done, some ended) =>
      (news piped.log done.log).map .own ++
       (news done.log (leave t.answers done ended).1.log).map .own
     | (done, none) => (news piped.log done.log).map .own ++ traceFrom cfg last eof done ts

/-- The trace of `Run`. -/
def trace (cfg : SessionConfig) (now : Int) (turns : List (Turn W)) (last : Answers W) (eof : Str) :
  List Item :=
 traceFrom cfg last eof (RunState.fresh now) turns

def acceptedOf : Item → Bytes
 | .own (.call (.write _ payload _)) => payload
 | .own (.feedIngest payload _) => payload
 | _ => []

def accepted (h : List Item) : Nat := (h.flatMap acceptedOf).length

def writtenOf (call : Nat) : Item → Bytes
 | .own (.call (.write n payload _)) => if n = call then payload else []
 | _ => []

theorem writtenOf_write {call : Nat} {payload : Bytes} {answer : Option (Nat × Option Str)} :
  writtenOf call (.own (.call (.write call payload answer))) = payload :=
 if_pos rfl

def written (call : Nat) (h : List Item) : Bytes := h.flatMap (writtenOf call)

def Whole (call : Nat) (h : List Item) : Prop :=
 ∀ payload answer, .own (.call (.write call payload answer)) ∈ h →
  answer = some (payload.length, none)

def endOf : Item → Option (Option LayerEnd)
 | .heard (.layerEnd m) => some m
 | _ => none

def ends (h : List Item) : List (Option LayerEnd) := h.filterMap endOf

def rawBytes (m : Option StreamEnd) : UInt64 := m.elim 0 StreamEnd.rawBytes

section

variable (cfg : SessionConfig) (before : List Item)

def Greeted : Prop :=
 ∃ m, .heard (.hello (some m)) ∈ before ∧ (cfg.authToken ≠ [] → m.authToken = cfg.authToken)

def Admitted (reference : Str) : Prop :=
 Greeted cfg before ∧ repoAllowed reference cfg.allowedRepos = true ∧
  ((∃ m, .heard (.backupStart (some m)) ∈ before ∧ m.reference = reference) ∨
   ∃ m, .heard (.streamStart (some m)) ∈ before ∧ m.reference = reference)

structure Stored (reference : Str) (m : LayerStart) (call : Nat) : Prop where
 opened : .call (.openBlob call reference m.sha256 m.size.toInt64 none) ∈ events before
 size : (written call before).length = m.size.toNat
 digest : digestText (written call before) = m.sha256
 whole : Whole call before
 committed : .call (.commit call (some none)) ∈ events before

/-- The `k`-th layer was announced, and its blob was there already or was uploaded. -/
def Settled (reference : Str) (k : Nat) (layer : Layer) : Prop :=
 ∃ m, .heard (.layerStart (some m)) ∈ before ∧ m.index.toNat = k ∧ m.sha256 = layer.digest ∧
  (.call (.blobExists reference layer.digest (.ok true)) ∈ events before ∨ ∃ call,
   Stored before reference m call)

structure Complete (backup : Backup) : Prop where
 count : backup.layers.length = backup.start.layerCount.toNat
 ended : ends before = backup.layers.map fun layer => some ⟨layer.index, layer.digest⟩
 settled : ∀ k layer, backup.layers[k]? = some layer →
  layer.index.toNat = k ∧ Settled before backup.start.reference k layer

structure Streaming : Prop where
 started : ∃ m, .startIngest m none ∈ events before
 running : ∀ e, .finishIngest e ∉ events before
 alive : .abortIngest ∉ events before

def Unpublished : Prop :=
 ∀ backup answer, .call (.commitBackup backup answer) ∉ events before

def Unstreamed : Prop := ∀ m e, .startIngest m e ∉ events before

def CallLaw : Call → Prop
 | .blobExists reference _ _ => Admitted cfg before reference
 | .openBlob _ reference _ _ _ => Admitted cfg before reference
 | .putBlob reference _ _ _ => Admitted cfg before reference
 | .commitBackup backup _ => Admitted cfg before backup.start.reference ∧ Complete before backup ∧
   Unpublished before ∧ Unstreamed before
 | _ => True

end

/-- `same` compares a declared number of bytes with a number of bytes. -/
def EventLaw (same : UInt64 → Nat → Prop) (cfg : SessionConfig) (before : List Item) : Event → Prop
 | .call c => CallLaw cfg before c
 | .startIngest m _ => Admitted cfg before m.reference ∧ Unpublished before
 | .finishIngest _ => ∃ front m, before = front ++ [.heard (.streamEnd m)] ∧ Streaming front ∧
   (rawBytes m = 0 ∨ same (rawBytes m) (accepted front))
 | _ => True

/-- A quota below `2 ^ 63` is kept. -/
def Quota (cfg : SessionConfig) (h : List Item) : Prop :=
 0 < cfg.maxBytes.toNat → cfg.maxBytes.toNat < 2 ^ 63 → accepted h ≤ cfg.maxBytes.toNat

def Law (same : UInt64 → Nat → Prop) (cfg : SessionConfig) (before : List Item) (item : Item) :
  Prop :=
 Quota cfg (before ++ [item]) ∧ ∀ e, item.event = some e → EventLaw same cfg before e

variable {cfg : SessionConfig} {same : UInt64 → Nat → Prop} {item : Item}

section Longer

variable {h h' : List Item}

theorem events_append : events (h ++ h') = events h ++ events h' := List.filterMap_append

theorem ends_append : ends (h ++ h') = ends h ++ ends h' := List.filterMap_append

theorem written_append {call : Nat} : written call (h ++ h') = written call h ++ written call h' :=
 List.flatMap_append

theorem accepted_append : accepted (h ++ h') = accepted h + accepted h' := by
 unfold accepted
 rw [List.flatMap_append, List.length_append]

theorem accepted_concat : accepted (h ++ [item]) = accepted h + (acceptedOf item).length := by
 rw [accepted_append]
 unfold accepted
 rw [List.flatMap_singleton]

theorem Greeted.append (greeted : Greeted cfg h) : Greeted cfg (h ++ h') := by
 obtain ⟨m, heard, token⟩ := greeted
 exact ⟨m, List.mem_append_left _ heard, token⟩

theorem Admitted.append {reference : Str} (admitted : Admitted cfg h reference) :
  Admitted cfg (h ++ h') reference := by
 obtain ⟨greeted, allowed, ⟨m, heard, names⟩ | ⟨m, heard, names⟩⟩ := admitted
 · exact ⟨greeted.append, allowed, .inl ⟨m, List.mem_append_left _ heard, names⟩⟩
 · exact ⟨greeted.append, allowed, .inr ⟨m, List.mem_append_left _ heard, names⟩⟩

theorem quota_of_guarded (guarded : Guarded (Law same cfg) h) : Quota cfg h := by
 rcases List.eq_nil_or_concat h with rfl | ⟨front, last, rfl⟩
 · intro _ _
   exact Nat.zero_le _
 · rw [List.concat_eq_append] at guarded ⊢
   exact (guarded front last [] rfl).1

end Longer

def Marked : Event → Prop
 | .call (.commitBackup _ _) => True
 | .startIngest _ _ => True
 | .finishIngest _ => True
 | .abortIngest => True
 | _ => False

def Unmarked (h : List Item) : Prop := ∀ e ∈ events h, ¬ Marked e

section

variable (cfg : SessionConfig) (h : List Item) (rs : RunState W)

structure Idle : Prop where
 unmarked : Unmarked h
 ends : ends h = []
 ingest : rs.ingest = false

/-- The layers of the list were announced and are in the registry; those uploaded used writers with
numbers below `limit`. -/
def SettledBelow (reference : Str) (limit : Nat) (layers : List Layer) : Prop :=
 ∀ k layer, layers[k]? = some layer → layer.index.toNat = k ∧
  ∃ m, .heard (.layerStart (some m)) ∈ h ∧ m.index.toNat = k ∧ m.sha256 = layer.digest ∧
   (.call (.blobExists reference layer.digest (.ok true)) ∈ events h ∨
    ∃ call, call < limit ∧ Stored h reference m call)

/-- No write went to a writer that is yet to be opened. -/
def Fresh (opened : Nat) : Prop :=
 ∀ call payload answer, .own (.call (.write call payload answer)) ∈ h → call < opened

/-- Layers are being received: there is room for so many more, those that were ended used writers
with numbers below `limit`, and some ends are heard but not dealt with. -/
structure Filling (limit room : Nat) (waiting : List (Option LayerEnd)) : Prop where
 start : ∃ b, rs.start = some b ∧ b.reference = rs.reference ∧
  rs.layers.length + room ≤ b.layerCount.toNat ∧ b.layerCount.toNat ≤ maxDataLayers
 admitted : Admitted cfg h rs.reference
 unmarked : Unmarked h
 ends : ends h = (rs.layers.map fun layer => some ⟨layer.index, layer.digest⟩) ++ waiting
 settled : SettledBelow h rs.reference limit rs.layers
 ingest : rs.ingest = false

structure Holding (m : LayerStart) (call : Nat) : Prop where
 known : call < rs.opened
 opened : .call (.openBlob call rs.reference m.sha256 m.size.toInt64 none) ∈ events h
 written : written call h = rs.hashed
 whole : Whole call h

structure Receiving (m : LayerStart) (limit : Nat) : Prop extends Filling cfg h rs limit 1 [] where
 bound : limit ≤ rs.opened
 current : rs.current = some m
 heard : .heard (.layerStart (some m)) ∈ h
 index : m.index = UInt32.ofNat rs.layers.length
 present : rs.skipped = true → .call (.blobExists rs.reference m.sha256 (.ok true)) ∈ events h
 counted : rs.skipped = false → rs.received.toInt = rs.hashed.length ∧
  (rs.hashed = [] ∨ (rs.hashed.length : Int) ≤ m.size.toInt64.toInt)
 holding : rs.skipped = false → ∀ held, rs.receiver = some held →
  held.call = limit ∧ Holding h rs m held.call

structure Flowing : Prop where
 admitted : Admitted cfg h rs.reference
 streaming : Streaming h

def Place : SessionState → Prop
 | .new => Idle h rs
 | .greeted => Idle h rs ∧ Greeted cfg h
 | .ready => Filling cfg h rs rs.opened 1 []
 | .receiving => ∃ m limit, Receiving cfg h rs m limit
 | .streaming => Flowing cfg h rs
 | .closed => True

structure Sound : Prop where
 total : rs.totalBytes = UInt64.ofNat (accepted h)
 fresh : Fresh h rs.opened
 place : Place cfg h rs rs.state

end

theorem sound_fresh (cfg : SessionConfig) (now : Int) :
  Sound cfg [] (RunState.fresh now : RunState W) where
 total := rfl
 fresh := fun _ _ _ nothing => absurd nothing List.not_mem_nil
 place := ⟨fun _ nothing => absurd nothing List.not_mem_nil, rfl, rfl⟩

structure Neutral (item : Item) : Prop where
 ends : endOf item = none
 accepts : acceptedOf item = []
 writes : ∀ call payload answer, item ≠ .own (.call (.write call payload answer))
 unmarked : ∀ e, item.event = some e → ¬ Marked e

section Neutrals

variable {h : List Item} {rs rs' : RunState W} {limit : Nat} {m : LayerStart}

theorem Neutral.ends_eq (neutral : Neutral item) :
  SessionInvariant.ends (h ++ [item]) = SessionInvariant.ends h := by
 rw [ends_append]
 unfold SessionInvariant.ends
 rw [List.filterMap_cons_none neutral.ends, List.filterMap_nil, List.append_nil]

theorem Neutral.accepted_eq (neutral : Neutral item) : accepted (h ++ [item]) = accepted h := by
 rw [accepted_concat, neutral.accepts]
 rfl

theorem fresh_concat {opened : Nat}
  (other : ∀ call payload answer, item ≠ .own (.call (.write call payload answer)))
  (fresh : Fresh h opened) : Fresh (h ++ [item]) opened := by
 intro call payload answer inside
 rcases List.mem_append.mp inside with before | now
 · exact fresh call payload answer before
 · exact absurd (List.mem_singleton.mp now).symm (other call payload answer)

variable {call : Nat}

theorem writtenOf_eq_nil (other : ∀ payload answer,
   item ≠ .own (.call (.write call payload answer))) :
  writtenOf call item = [] := by
 unfold writtenOf
 split
 · split
   · rename_i same
     subst same
     exact absurd rfl (other _ _)
   · rfl
 · rfl

theorem written_concat (other : ∀ payload answer,
   item ≠ .own (.call (.write call payload answer))) :
  written call (h ++ [item]) = written call h := by
 rw [written_append]
 unfold written
 rw [List.flatMap_singleton, writtenOf_eq_nil other, List.append_nil]

theorem mem_events_concat {e : Event} (inside : e ∈ events h) : e ∈ events (h ++ [item]) := by
 rw [events_append]
 exact List.mem_append_left _ inside

theorem mem_events_cases {e : Event} (inside : e ∈ events (h ++ [item])) : e ∈ events h ∨
  item.event = some e := by
 rw [events_append] at inside
 rcases List.mem_append.mp inside with before | now
 · exact .inl before
 · obtain ⟨x, member, is⟩ := List.mem_filterMap.mp now
   rw [List.mem_singleton.mp member] at is
   exact .inr is

theorem whole_concat (whole : Whole call h)
  (other : ∀ payload answer, item ≠ .own (.call (.write call payload answer))) :
  Whole call (h ++ [item]) := by
 intro payload answer inside
 rcases List.mem_append.mp inside with before | now
 · exact whole payload answer before
 · exact absurd (List.mem_singleton.mp now).symm (other _ _)

theorem stored_concat {reference : Str} (stored : Stored h reference m call)
  (other : ∀ payload answer, item ≠ .own (.call (.write call payload answer))) :
  Stored (h ++ [item]) reference m call where
 opened := mem_events_concat stored.opened
 size := by rw [written_concat other]; exact stored.size
 digest := by rw [written_concat other]; exact stored.digest
 whole := whole_concat stored.whole other
 committed := mem_events_concat stored.committed

theorem Unmarked.concat (unmarked : Unmarked h) (plain : ∀ e, item.event = some e → ¬ Marked e) :
  Unmarked (h ++ [item]) := by
 intro e inside
 rcases mem_events_cases inside with before | now
 · exact unmarked e before
 · exact plain e now

theorem Idle.concat (idle : Idle h rs) (neutral : Neutral item) : Idle (h ++ [item]) rs where
 unmarked := idle.unmarked.concat neutral.unmarked
 ends := by rw [neutral.ends_eq]; exact idle.ends
 ingest := idle.ingest

variable {room : Nat} {waiting : List (Option LayerEnd)}

section

variable (filling : Filling cfg h rs limit room waiting)

include filling

theorem Filling.settled_concat
  (above : ∀ call payload answer, item = .own (.call (.write call payload answer)) → limit ≤ call) :
  SettledBelow (h ++ [item]) rs.reference limit rs.layers := by
 intro k layer place
 obtain ⟨index, m, heard, named, digest, blob⟩ := filling.settled k layer place
 refine ⟨index, m, List.mem_append_left _ heard, named, digest, ?_⟩
 rcases blob with present | ⟨call, below, stored⟩
 · exact .inl (mem_events_concat present)
 · refine .inr ⟨call, below, stored_concat stored fun payload answer is => ?_⟩
   exact absurd (above call payload answer is) (Nat.not_le.mpr below)

theorem Filling.concat (ends : endOf item = none) (unmarked : ∀ e, item.event = some e → ¬ Marked e)
  (above : ∀ call payload answer, item = .own (.call (.write call payload answer)) → limit ≤ call) :
  Filling cfg (h ++ [item]) rs limit room waiting where
 start := filling.start
 admitted := filling.admitted.append
 unmarked := filling.unmarked.concat unmarked
 ends := by
  rw [ends_append, filling.ends]
  unfold SessionInvariant.ends
  rw [List.filterMap_cons_none ends, List.filterMap_nil, List.append_nil]
 settled := filling.settled_concat above
 ingest := filling.ingest

theorem Filling.neutral (neutral : Neutral item) :
  Filling cfg (h ++ [item]) rs limit room waiting :=
 filling.concat neutral.ends neutral.unmarked
  fun call payload answer is => absurd is (neutral.writes call payload answer)

theorem Filling.moved (start : rs'.start = rs.start)
  (reference : rs'.reference = rs.reference) (layers : rs'.layers = rs.layers)
  (ingest : rs'.ingest = rs.ingest) : Filling cfg h rs' limit room waiting where
 start := by
  rw [start, reference, layers]
  exact filling.start
 admitted := by
  rw [reference]
  exact filling.admitted
 unmarked := filling.unmarked
 ends := by
  rw [layers]
  exact filling.ends
 settled := by
  rw [layers, reference]
  exact filling.settled
 ingest := ingest.trans filling.ingest

theorem Filling.limit_le {limit' : Nat} (more : limit ≤ limit') :
  Filling cfg h rs limit' room waiting where
 start := filling.start
 admitted := filling.admitted
 unmarked := filling.unmarked
 ends := filling.ends
 settled := by
  intro k layer place
  obtain ⟨index, m, heard, named, digest, blob⟩ := filling.settled k layer place
  refine ⟨index, m, heard, named, digest, blob.imp_right ?_⟩
  rintro ⟨call, below, stored⟩
  exact ⟨call, Nat.lt_of_lt_of_le below more, stored⟩
 ingest := filling.ingest

end

theorem Receiving.concat (receiving : Receiving cfg h rs m limit) (neutral : Neutral item) :
  Receiving cfg (h ++ [item]) rs m limit where
 toFilling := receiving.toFilling.neutral neutral
 bound := receiving.bound
 current := receiving.current
 heard := List.mem_append_left _ receiving.heard
 index := receiving.index
 present := fun skipped => mem_events_concat (receiving.present skipped)
 counted := receiving.counted
 holding := by
  intro uploading held here
  obtain ⟨same, known, opened, filled, whole⟩ := receiving.holding uploading held here
  refine ⟨same, known, mem_events_concat opened, ?_, whole_concat whole (neutral.writes held.call)⟩
  rw [written_concat (neutral.writes held.call)]
  exact filled

theorem streaming_concat (streaming : Streaming h) (plain : ∀ e, item.event = some e → ¬ Marked e) :
  Streaming (h ++ [item]) := by
 obtain ⟨⟨start, started⟩, running, alive⟩ := streaming
 refine ⟨⟨start, mem_events_concat started⟩, fun e inside => ?_, fun inside => ?_⟩
 · rcases mem_events_cases inside with before | now
   · exact running e before
   · exact plain _ now trivial
 · rcases mem_events_cases inside with before | now
   · exact alive before
   · exact plain _ now trivial

theorem Place.concat {state : SessionState} (place : Place cfg h rs state)
  (neutral : Neutral item) :
  Place cfg (h ++ [item]) rs state := by
 cases state with
 | new => exact Idle.concat place neutral
 | greeted => exact ⟨place.1.concat neutral, place.2.append⟩
 | ready => exact Filling.neutral place neutral
 | receiving =>
  obtain ⟨m, limit, receiving⟩ := place
  exact ⟨m, limit, receiving.concat neutral⟩
 | streaming => exact ⟨place.admitted.append, streaming_concat place.streaming neutral.unmarked⟩
 | closed => trivial

theorem Sound.concat (sound : Sound cfg h rs) (neutral : Neutral item) :
  Sound cfg (h ++ [item]) rs where
 total := by rw [neutral.accepted_eq]; exact sound.total
 fresh := fresh_concat neutral.writes sound.fresh
 place := sound.place.concat neutral

end Neutrals

theorem Sound.logged {cfg : SessionConfig} {h : List Item} {rs : RunState W}
  (sound : Sound cfg h rs)
  (log : List Event) (now : Int) : Sound cfg h { rs with log := log, lastProgress := now } := by
 refine ⟨sound.total, sound.fresh, ?_⟩
 have place := sound.place
 show Place cfg h _ rs.state
 cases state : rs.state with
 | new =>
  rw [state] at place
  exact { place with }
 | greeted =>
  rw [state] at place
  exact ⟨⟨place.1.unmarked, place.1.ends, place.1.ingest⟩, place.2⟩
 | ready =>
  rw [state] at place
  exact Filling.moved place rfl rfl rfl rfl
 | receiving =>
  rw [state] at place
  obtain ⟨m, limit, filling, bound, current, heard, index, present, counted, holding⟩ := place
  refine ⟨m, limit, filling.moved rfl rfl rfl rfl, bound, current, heard, index, present,
   counted, ?_⟩
  intro uploading held here
  obtain ⟨same, mine⟩ := holding uploading held here
  exact ⟨same, mine.known, mine.opened, mine.written, mine.whole⟩
 | streaming =>
  rw [state] at place
  exact ⟨place.admitted, place.streaming⟩
 | closed => trivial

theorem Sound.note {cfg : SessionConfig} {h : List Item} {rs : RunState W} (sound : Sound cfg h rs)
  (e : Event) : Sound cfg h (rs.note e) :=
 sound.logged (rs.log ++ [e]) rs.lastProgress

/-- What some code did obeys the law, and if the session goes on the invariant holds again. -/
def Good (same : UInt64 → Nat → Prop) (cfg : SessionConfig) (h : List Item) (log : List Event)
  (r : Step W) : Prop :=
 ∃ es, r.1.log = log ++ es ∧ Guarded (Law same cfg) (h ++ es.map .own) ∧
  (r.2 = none → Sound cfg (h ++ es.map .own) r.1)

section Steps

variable {h : List Item} {log : List Event} {rs : RunState W} {a : Answers W} {r : Step W}
 {e : Event}

theorem good_goes (guarded : Guarded (Law same cfg) h) (is : rs.log = log)
  (sound : Sound cfg h rs) :
  Good same cfg h log (rs, none) := by
 refine ⟨[], is.trans (List.append_nil _).symm, ?_, fun _ => ?_⟩
 · rw [List.map_nil, List.append_nil]
   exact guarded
 · rw [List.map_nil, List.append_nil]
   exact sound

theorem good_ended {ended : Ending} (guarded : Guarded (Law same cfg) h) (is : rs.log = log) :
  Good same cfg h log (rs, some ended) := by
 refine ⟨[], is.trans (List.append_nil _).symm, ?_, fun impossible => by cases impossible⟩
 rw [List.map_nil, List.append_nil]
 exact guarded

theorem good_after (rest : Good same cfg (h ++ [.own e]) (log ++ [e]) r) :
  Good same cfg h log r := by
 obtain ⟨es, grown, guarded, sound⟩ := rest
 refine ⟨e :: es, ?_, ?_, fun goes => ?_⟩
 · rw [grown, List.append_assoc, List.singleton_append]
 · rw [List.map_cons, List.append_cons]
   exact guarded
 · rw [List.map_cons, List.append_cons]
   exact sound goes

theorem law_own (guarded : Guarded (Law same cfg) h) (accepts : acceptedOf (.own e) = [])
  (law : EventLaw same cfg h e) : Law same cfg h (.own e) := by
 refine ⟨fun positive small => ?_, fun x is => ?_⟩
 · rw [accepted_concat, accepts]
   exact quota_of_guarded guarded positive small
 · cases is
   exact law

/-- What `abort`, `fail` and `send` do. -/
def Quit : Event → Prop
 | .abortIngest => True
 | .call (.abort _ _) => True
 | .sent _ _ => True
 | _ => False

theorem law_quit (guarded : Guarded (Law same cfg) h) (quit : Quit e) :
  Law same cfg h (.own e) := by
 unfold Quit at quit
 split at quit
 · exact law_own guarded rfl trivial
 · exact law_own guarded rfl trivial
 · exact law_own guarded rfl trivial
 · cases quit

theorem guarded_quits {es : List Event} (guarded : Guarded (Law same cfg) h)
  (quits : ∀ e ∈ es, Quit e) :
  Guarded (Law same cfg) (h ++ es.map .own) := by
 induction es generalizing h with
 | nil =>
  rw [List.map_nil, List.append_nil]
  exact guarded
 | cons e es ih =>
  rw [List.map_cons, List.append_cons]
  apply ih
  · exact guarded_concat guarded (law_quit guarded (quits e List.mem_cons_self))
  · exact fun x member => quits x (List.mem_cons_of_mem _ member)

def Quits (log log' : List Event) : Prop := ∃ es, log' = log ++ es ∧ ∀ e ∈ es, Quit e

theorem Quits.one (quit : Quit e) : Quits log (log ++ [e]) :=
 ⟨[e], rfl, fun x member => by rw [List.mem_singleton.mp member]; exact quit⟩

theorem Quits.refl (log : List Event) : Quits log log :=
 ⟨[], (List.append_nil _).symm, fun _ nothing => absurd nothing List.not_mem_nil⟩

theorem Quits.trans {log' log'' : List Event} (first : Quits log log') (second : Quits log' log'') :
  Quits log log'' := by
 obtain ⟨es, rfl, early⟩ := first
 obtain ⟨fs, rfl, late⟩ := second
 refine ⟨es ++ fs, List.append_assoc .., fun x member => ?_⟩
 exact (List.mem_append.mp member).elim (early x) (late x)

theorem quits_stopIngest : Quits rs.log (stopIngest rs).log := by
 unfold stopIngest
 split
 · exact .one trivial
 · exact .refl _

theorem quits_abort (a : Answers W) (rs : RunState W) : Quits rs.log (abort a rs).1.log := by
 refine quits_stopIngest.trans ?_
 unfold abort
 dsimp only
 split
 · exact .refl _
 · split
   · exact .one trivial
   · exact .one trivial

theorem good_of_quits (guarded : Guarded (Law same cfg) h) (quits : Quits log r.1.log)
  (ends : r.2 ≠ none) :
  Good same cfg h log r := by
 obtain ⟨es, grown, all⟩ := quits
 exact ⟨es, grown, guarded_quits guarded all, fun goes => absurd goes ends⟩

theorem good_fail {report : Option Str} {err : ProtocolError} (guarded : Guarded (Law same cfg) h)
  (is : rs.log = log) : Good same cfg h log (fail a report rs err) := by
 have aborted := quits_abort a rs
 rw [is] at aborted
 unfold fail
 rcases result : abort a rs with ⟨left, panicked⟩
 rw [result] at aborted
 cases panicked with
 | true => exact good_of_quits guarded aborted (Option.some_ne_none _)
 | false => exact good_of_quits guarded (aborted.trans (.one trivial)) (Option.some_ne_none _)

theorem good_dismiss {f : Failure} (guarded : Guarded (Law same cfg) h) :
  Good same cfg h rs.log (dismiss a rs f) := by
 have aborted := quits_abort a rs
 unfold dismiss
 rcases result : abort a rs with ⟨left, panicked⟩
 rw [result] at aborted
 cases panicked with
 | true => exact good_of_quits guarded aborted (Option.some_ne_none _)
 | false => exact good_of_quits guarded aborted (Option.some_ne_none _)

theorem quits_leave {ended : Ending} : Quits rs.log (leave a rs ended).1.log := by
 have aborted := quits_abort a rs
 unfold leave
 rcases result : abort a rs with ⟨left, panicked⟩
 rw [result] at aborted
 cases panicked with
 | true => exact aborted
 | false => exact aborted

theorem quits_stop {f : Failure} : Quits rs.log (stop a rs f).1.log := by
 have left : Quits rs.log (leave a rs (.failed f)).1.log := quits_leave
 exact left

theorem neutral_own (accepts : acceptedOf (.own e) = [])
  (writes : ∀ call payload answer, e ≠ .call (.write call payload answer))
  (unmarked : ¬ Marked e) : Neutral (.own e) where
 ends := rfl
 accepts := accepts
 writes := fun call payload answer is => writes call payload answer (Item.own.inj is)
 unmarked := fun x is => by cases is; exact unmarked

theorem good_send {m : ServerMessage} {answer : Option Str} (guarded : Guarded (Law same cfg) h)
  (is : rs.log = log) (sound : Sound cfg h rs) : Good same cfg h log (send rs m answer) := by
 subst is
 unfold send
 refine good_after ⟨[], (List.append_nil _).symm, ?_, fun _ => ?_⟩
 · rw [List.map_nil, List.append_nil]
   exact guarded_concat guarded (law_quit guarded trivial)
 · rw [List.map_nil, List.append_nil]
   exact (sound.concat (neutral_own rfl (by simp) id)).note _

end Steps

end BackImage.Server.SessionInvariant
