/- source: pkg/server/session.go, pkg/server/registry_sink.go
  digest: Which sessions settle every blob writer once and leave the results of failed openings
    alone. -/

import BackImage.Lib.Ledger
import BackImage.Server.Session

namespace BackImage.Server.Ownership

open Go.Text Lib.Ledger Protocol.Frames RegistrySink Session

inductive Way
 | committed
 | aborted
 deriving DecidableEq

def entryOf : Event → Option (Entry Way)
 | .call (.openBlob n _ _ _ error) => some (.opened n error.isNone)
 | .call (.write n _ _) => some (.used n)
 | .call (.commit n (some none)) => some (.settled n .committed)
 | .call (.commit n _) => some (.used n)
 | .call (.abort n _) => some (.settled n .aborted)
 | _ => none

/-- A method of the result of the `n`-th `OpenBlob` is called. -/
def Invokes (n : Nat) : Event → Prop
 | .call (.write m _ _) => m = n
 | .call (.commit m _) => m = n
 | .call (.abort m _) => m = n
 | _ => False

def isAbort (n : Nat) : Event → Bool
 | .call (.abort m _) => m = n
 | _ => false

def committed (n : Nat) (log : List Event) : Nat := log.count (.call (.commit n (some none)))

/-- How often `Abort` was called on it. -/
def aborted (n : Nat) (log : List Event) : Nat := log.countP (isAbort n)

/-- Every writer that was opened is committed once and never aborted, or aborted once; and no method
is called on what a failed `OpenBlob` returned. -/
def Owned (log : List Event) : Prop :=
 (∀ n reference digest size, .call (.openBlob n reference digest size none) ∈ log →
  (committed n log = 1 ∧ aborted n log = 0) ∨ (committed n log = 0 ∧ aborted n log = 1)) ∧
 ∀ n reference digest size e, .call (.openBlob n reference digest size (some e)) ∈ log →
  ∀ event ∈ log, ¬ Invokes n event

def settles (n : Nat) (e : Event) : Option Way := (entryOf e).bind (settlement n)

theorem settlements_entries (n : Nat) (log : List Event) :
  settlements n (log.filterMap entryOf) = log.filterMap (settles n) := by
 unfold settlements
 rw [List.filterMap_filterMap]
 rfl

variable {n : Nat} {e : Event}

theorem settles_committed_iff : settles n e = some .committed ↔
  e = .call (.commit n (some none)) := by
 unfold settles entryOf
 split <;> simp_all [settlement]

theorem settles_aborted_iff : settles n e = some .aborted ↔ isAbort n e = true := by
 unfold settles entryOf isAbort
 split <;> simp_all [settlement]

theorem committed_eq (n : Nat) (log : List Event) :
  committed n log = (settlements n (log.filterMap entryOf)).count .committed := by
 rw [settlements_entries, List.count_filterMap]
 refine List.countP_congr ?_
 intro e _
 rw [beq_iff_eq, beq_iff_eq, settles_committed_iff]

theorem aborted_eq (n : Nat) (log : List Event) :
  aborted n log = (settlements n (log.filterMap entryOf)).count .aborted := by
 rw [settlements_entries, List.count_filterMap]
 refine List.countP_congr ?_
 intro e _
 rw [beq_iff_eq, settles_aborted_iff]

theorem touches_of_invokes (invokes : Invokes n e) : ∃ entry, entryOf e = some entry ∧
  entry.Touches n := by
 unfold Invokes at invokes
 split at invokes
 · exact ⟨_, rfl, invokes⟩
 · rename_i m answer
   rcases answer with _ | _ | _ <;> exact ⟨_, rfl, invokes⟩
 · exact ⟨_, rfl, invokes⟩
 · cases invokes

theorem owned_of_posts {log : List Event}
  (posts : Posts ⟨0, none⟩ (log.filterMap entryOf) ⟨n, none⟩) : Owned log := by
 have sound : Book.Sound ⟨0, none⟩ := fun h held => nomatch held
 constructor
 · intro m reference digest size opened
   have granted : Entry.opened m true ∈ log.filterMap entryOf :=
    List.mem_filterMap.mpr ⟨_, opened, rfl⟩
   obtain ⟨-, way, settled⟩ := settled_of_granted posts sound rfl granted
   rw [committed_eq, aborted_eq, settled]
   cases way with
   | committed => exact .inl ⟨rfl, rfl⟩
   | aborted => exact .inr ⟨rfl, rfl⟩
 · intro m reference digest size e opened event member invokes
   have refused : Entry.opened m false ∈ log.filterMap entryOf :=
    List.mem_filterMap.mpr ⟨_, opened, rfl⟩
   obtain ⟨entry, is, touches⟩ := touches_of_invokes invokes
   exact (untouched_of_refused posts sound refused).2 entry
    (List.mem_filterMap.mpr ⟨event, member, is⟩) touches

/-- The receiver is a writer that can be called, and there is one only while a layer the registry
does not have is received. -/
structure Inv (rs : RunState Pointer) : Prop where
 live : ∀ held, rs.receiver = some held → held.value ≠ none
 busy : rs.receiver ≠ none → rs.state = .receiving ∧ rs.skipped = false

def book (rs : RunState Pointer) : Book := ⟨rs.opened, rs.receiver.map Held.call⟩

/-- What was done between two states is a ledger from the one to the other. -/
def Kept (rs rs' : RunState Pointer) : Prop :=
 ∃ events, rs'.log = rs.log ++ events ∧ Posts (book rs) (events.filterMap entryOf) (book rs')

theorem Kept.trans {a b c : RunState Pointer} (first : Kept a b) (second : Kept b c) :
  Kept a c := by
 obtain ⟨es, grown, posts⟩ := first
 obtain ⟨fs, grown', posts'⟩ := second
 refine ⟨es ++ fs, by rw [grown', grown, List.append_assoc], ?_⟩
 rw [List.filterMap_append]
 exact posts.append posts'

variable {rs rs' : RunState Pointer}

theorem kept_quiet (events : List Event) (silent : events.filterMap entryOf = [])
  (log : rs'.log = rs.log ++ events) (same : book rs' = book rs) : Kept rs rs' := by
 refine ⟨events, log, ?_⟩
 rw [silent, same]
 exact .nil _

theorem kept_one {event : Event} {entry : Entry Way}
  (log : rs'.log = rs.log ++ [event]) (is : entryOf event = some entry)
  (post : Post (book rs) entry (book rs')) : Kept rs rs' := by
 refine ⟨[event], log, ?_⟩
 rw [List.filterMap_cons_some is]
 exact .cons post (.nil _)

def Preserves (rs rs' : RunState Pointer) : Prop := Kept rs rs' ∧ Inv rs'

theorem preserves_after {a b c : RunState Pointer} (first : Kept a b) (second : Preserves b c) :
  Preserves a c :=
 ⟨first.trans second.1, second.2⟩

theorem inv_of_none (free : rs.receiver = none) : Inv rs where
 live held here := by rw [free] at here; cases here
 busy taken := absurd free taken

theorem Inv.congr (inv : Inv rs) (receiver : rs'.receiver = rs.receiver)
  (state : rs'.state = rs.state) (skipped : rs'.skipped = rs.skipped) : Inv rs' where
 live held here := inv.live held (receiver ▸ here)
 busy taken := by
  rw [state, skipped]
  exact inv.busy (receiver ▸ taken)

theorem preserves_note (inv : Inv rs) (silent : entryOf e = none) : Preserves rs (rs.note e) :=
 ⟨kept_quiet [e] (List.filterMap_cons_none silent) rfl rfl, inv.congr rfl rfl rfl⟩

section Served

variable {c : Int} {r : RegistryAnswers} {a : Answers Pointer} {cfg : SessionConfig}
 {rs : RunState Pointer}

variable {held : Held Pointer}

theorem abort_live (served : a.sink = registrySink c r)
  (live : held.value ≠ none) : ∃ value e, a.sink.writer.abort held.value = some (value, e) := by
 obtain ⟨u, is⟩ := Option.ne_none_iff_exists'.mp live
 rw [served, is]
 exact ⟨_, _, rfl⟩

theorem stopIngest_receiver (rs : RunState Pointer) : (stopIngest rs).receiver = rs.receiver := by
 unfold stopIngest
 split <;> rfl

theorem stopIngest_kept (rs : RunState Pointer) : Kept rs (stopIngest rs) := by
 unfold stopIngest
 split
 · exact kept_quiet [.abortIngest] rfl rfl rfl
 · exact kept_quiet [] rfl (List.append_nil _).symm rfl

section

variable (served : a.sink = registrySink c r)

include served

theorem abort_spec (inv : Inv rs) : ∃ rs', abort a rs = (rs', false) ∧ Kept rs rs' ∧
  rs'.receiver = none := by
 have kept := stopIngest_kept rs
 unfold abort
 dsimp only
 cases holding : (stopIngest rs).receiver with
 | none => exact ⟨_, rfl, kept, holding⟩
 | some held =>
  have live := inv.live held (stopIngest_receiver rs ▸ holding)
  obtain ⟨value, e, aborted⟩ := abort_live served live
  dsimp only
  rw [aborted]
  refine ⟨_, rfl, kept.trans (kept_one rfl rfl ?_), rfl⟩
  unfold book
  rw [holding]
  exact .settled _ _ _

theorem abort_nil {n : Nat} (nil : rs.receiver = some ⟨n, none⟩) :
  ∃ rs', abort a rs = (rs', true) ∧ rs.log <+: rs'.log ∧ .call (.abort n none) ∈ rs'.log ∧
   rs'.receiver = rs.receiver := by
 obtain ⟨events, grown, -⟩ := stopIngest_kept rs
 unfold abort
 dsimp only
 rw [stopIngest_receiver, nil, served]
 refine ⟨_, rfl, ?_, List.mem_append_right _ (List.mem_singleton.mpr rfl), ?_⟩
 · exact ⟨events ++ [.call (.abort n none)], by rw [← List.append_assoc, ← grown]; rfl⟩
 · exact (stopIngest_receiver rs).trans nil

theorem fail_preserves (inv : Inv rs) (report : Option Str)
  (e : ProtocolError) : Preserves rs (fail a report rs e).1 := by
 obtain ⟨rs', aborted, kept, free⟩ := abort_spec served inv
 unfold fail
 rw [aborted]
 exact ⟨kept.trans (kept_quiet [.sent (.error e) report] rfl rfl rfl), inv_of_none free⟩

theorem Preserves.fails (first : Preserves rs rs') (report : Option Str) (e : ProtocolError) :
  Preserves rs (fail a report rs' e).1 :=
 preserves_after first.1 (fail_preserves served first.2 report e)

theorem dismiss_preserves (inv : Inv rs) (f : Failure) : Preserves rs (dismiss a rs f).1 := by
 obtain ⟨rs', aborted, kept, free⟩ := abort_spec served inv
 unfold dismiss
 rw [aborted]
 exact ⟨kept.trans (kept_quiet [] rfl (List.append_nil _).symm rfl), inv_of_none free⟩

theorem stop_preserves (inv : Inv rs) (f : Failure) : Preserves rs (stop a rs f).1 := by
 obtain ⟨rs', aborted, kept, free⟩ := abort_spec served inv
 unfold stop
 rw [aborted]
 exact ⟨kept, inv_of_none free⟩

end

theorem Preserves.sends (first : Preserves rs rs') (m : ServerMessage) (answer : Option Str) :
  Preserves rs (send rs' m answer).1 := preserves_after first.1 (preserves_note first.2 rfl)

theorem kept_fields {rs rs' : RunState Pointer} (log : rs'.log = rs.log)
  (same : book rs' = book rs) : Kept rs rs' :=
 kept_quiet [] rfl (by rw [log, List.append_nil]) same

theorem Preserves.throttled (first : Preserves rs rs') : Preserves rs (throttle cfg a rs').1 := by
 have unchanged : (throttle cfg a rs').1 = rs' := by
  unfold throttle
  split <;> rfl
 rw [unchanged]
 exact first

theorem free_of_state (inv : Inv rs) (state : rs.state ≠ .receiving) : rs.receiver = none := by
 by_contra taken
 exact state (inv.busy taken).1

theorem hello_preserves (served : a.sink = registrySink c r) (inv : Inv rs) (m : Option Hello) :
  Preserves rs (hello cfg a rs m).1 := by
 unfold hello
 cases checked : checkHello cfg rs m with
 | error e => exact fail_preserves served inv a.first e
 | ok m =>
  have free := free_of_state inv (by rw [(checkHello_ok checked).1]; decide)
  have asked := preserves_note inv (rfl : entryOf (.call (.knownBlobs m.sessionId)) = none)
  dsimp only
  cases a.sink.knownBlobs m.sessionId with
  | error e => exact asked.fails served a.first _
  | ok known =>
   refine .sends ?_ _ _
   exact ⟨asked.1.trans (kept_fields rfl rfl), inv_of_none free⟩

theorem backupStart_preserves (served : a.sink = registrySink c r) (inv : Inv rs)
  (m : Option BackupStart) : Preserves rs (backupStart cfg a rs m).1 := by
 unfold backupStart
 cases checked : checkBackupStart cfg rs m with
 | error e => exact fail_preserves served inv a.first e
 | ok m =>
  have free := free_of_state inv (by rw [(checkBackupStart_ok checked).1]; decide)
  dsimp only
  cases scopeOf a m.reference with
  | error e =>
   refine .fails served ?_ _ _
   exact ⟨kept_fields rfl rfl, inv_of_none free⟩
  | ok request =>
   refine .sends ?_ _ _
   exact ⟨kept_fields rfl rfl, inv_of_none free⟩

variable {m : LayerStart}

theorem openLayer_preserves (served : a.sink = registrySink c r) (free : rs.receiver = none)
  (busy : rs.state = .receiving ∧ rs.skipped = false) (starts : Starts r c rs.reference m.sha256) :
  Preserves rs (openLayer a rs m).1 := by
 have holding : book rs = ⟨rs.opened, none⟩ := by
  unfold book
  rw [free]
  rfl
 have called : a.sink.openBlob rs.reference m.sha256 m.size.toInt64 =
   openBlob r c rs.reference m.sha256 := by rw [served]; rfl
 unfold openLayer
 rw [called]
 rcases openBlob_cases r c rs.reference m.sha256 with
  ⟨-, ⟨u, opened⟩ | ⟨e, opened⟩⟩ | ⟨fails, -⟩
 · rw [opened]
   refine .sends ?_ _ _
   refine ⟨kept_one rfl rfl ?_, ?_, fun _ => busy⟩
   · rw [holding]
     exact .granted rs.opened
   · rintro held ⟨⟩
     exact Option.some_ne_none u
 · rw [opened]
   refine .fails served ?_ _ _
   refine ⟨kept_one rfl rfl ?_, inv_of_none rfl⟩
   rw [holding]
   exact .refused rs.opened
 · exact absurd starts fails

/-- The frame asks for the upload of a layer the registry does not have. -/
def Asks (cfg : SessionConfig) (a : Answers Pointer) (rs : RunState Pointer)
  (start : Option LayerStart) (m : LayerStart) : Prop :=
 checkLayerStart cfg rs start = .ok m ∧ a.sink.blobExists rs.reference m.sha256 = .ok false

theorem layerStart_preserves (served : a.sink = registrySink c r) (inv : Inv rs)
  {start : Option LayerStart}
  (starts : ∀ m, Asks cfg a rs start m → Starts r c rs.reference m.sha256) :
  Preserves rs (layerStart cfg a rs start).1 := by
 unfold layerStart
 cases checked : checkLayerStart cfg rs start with
 | error e => exact fail_preserves served inv a.first e
 | ok m =>
  have free := free_of_state inv (by rw [(checkLayerStart_ok checked).1]; decide)
  dsimp only
  cases found : a.sink.blobExists rs.reference m.sha256 with
  | error e =>
   refine .fails served ?_ _ _
   exact ⟨(preserves_note inv rfl).1, inv_of_none free⟩
  | ok present =>
   cases present with
   | true =>
    refine .sends ?_ _ _
    exact ⟨kept_quiet [_] rfl rfl rfl, inv_of_none free⟩
   | false =>
    refine preserves_after ?_ (openLayer_preserves served ?_ ⟨rfl, rfl⟩ ?_)
    · exact kept_quiet [_] rfl rfl rfl
    · exact free
    · exact starts m ⟨checked, found⟩

theorem write_live (served : a.sink = registrySink c r) (live : held.value ≠ none)
  (payload : Bytes) :
  ∃ u n e, a.sink.writer.write held.value payload = some (some u, n, e) := by
 obtain ⟨u, is⟩ := Option.ne_none_iff_exists'.mp live
 rw [served, is]
 exact ⟨_, _, _, rfl⟩

theorem commit_live (served : a.sink = registrySink c r)
  (live : held.value ≠ none) : ∃ u e, a.sink.writer.commit held.value = some (some u, e) := by
 obtain ⟨u, is⟩ := Option.ne_none_iff_exists'.mp live
 rw [served, is]
 exact ⟨_, _, rfl⟩

theorem used_preserves (inv : Inv rs) (holding : rs.receiver = some held)
  {u : BackImage.Registry.BlobSession.BlobUpload} {event : Event}
  (used : entryOf event = some (.used held.call)) :
  Preserves rs { rs.note event with receiver := some ⟨held.call, some u⟩ } := by
 refine ⟨kept_one rfl used ?_, ?_, ?_⟩
 · unfold book
   rw [holding]
   exact .used _ _
 · rintro x ⟨⟩
   exact Option.some_ne_none u
 · intro _
   exact inv.busy (by rw [holding]; exact Option.some_ne_none held)

section

variable (served : a.sink = registrySink c r)

include served

theorem layerData_preserves (inv : Inv rs) (payload : Bytes) :
  Preserves rs (layerData cfg a rs payload).1 := by
 unfold layerData
 cases checkData cfg rs payload with
 | error e => exact fail_preserves served inv a.first e
 | ok fine =>
  dsimp only
  split
  · refine Preserves.throttled ?_
    exact ⟨kept_fields rfl rfl, inv.congr rfl rfl rfl⟩
  · cases holding : rs.receiver with
    | none => exact ⟨kept_fields rfl rfl, inv⟩
    | some held =>
     obtain ⟨u, n, e, wrote⟩ := write_live served (inv.live held holding) payload
     dsimp only
     rw [wrote]
     have used := used_preserves inv holding (u := u)
      (rfl : entryOf (.call (.write held.call payload (some (n, e)))) = _)
     cases e with
     | some e => exact used.fails served _ _
     | none =>
      dsimp only
      split
      · exact used.fails served _ _
      · refine Preserves.throttled ?_
        exact ⟨used.1.trans (kept_fields rfl rfl), used.2.congr rfl rfl rfl⟩

theorem streamData_preserves (inv : Inv rs) (payload : Bytes) :
  Preserves rs (streamData cfg a rs payload).1 := by
 unfold streamData
 split
 · exact fail_preserves served inv _ _
 · split
   · exact fail_preserves served inv _ _
   · dsimp only
     split
     · refine Preserves.throttled ?_
       exact ⟨kept_fields rfl rfl, inv.congr rfl rfl rfl⟩
     · have fed : ∀ error, Preserves rs (rs.note (.feedIngest payload error)) :=
        fun error => preserves_note inv rfl
       cases a.feedIngest payload with
       | some e => exact (fed _).fails served _ _
       | none =>
        refine Preserves.throttled ?_
        exact ⟨(fed none).1.trans (kept_fields rfl rfl), (fed none).2.congr rfl rfl rfl⟩

theorem publishLast_preserves (free : rs.receiver = none) : Preserves rs (publishLast a rs).1 := by
 unfold publishLast
 split
 · exact ⟨kept_fields rfl rfl, inv_of_none free⟩
 · split
   · exact ⟨kept_fields rfl rfl, inv_of_none free⟩
   · dsimp only
     split
     · refine .fails served ?_ _ _
       exact ⟨kept_quiet [_] rfl rfl rfl, inv_of_none free⟩
     · refine .sends ?_ _ _
       exact ⟨kept_quiet [_] rfl rfl rfl, inv_of_none free⟩

theorem sealLayer_preserves {current : LayerStart}
  {before : RunState Pointer} (kept : Kept before (endLayer rs current)) :
  Preserves before (sealLayer a rs current).1 := by
 unfold sealLayer
 dsimp only
 split
 · exact ⟨kept.trans (kept_quiet [_] rfl rfl rfl), inv_of_none rfl⟩
 · refine preserves_after (kept.trans ?_) (publishLast_preserves served ?_)
   · exact kept_quiet [_] rfl rfl rfl
   · rfl

theorem layerEnd_preserves (inv : Inv rs) (m : Option LayerEnd) :
  Preserves rs (layerEnd a rs m).1 := by
 unfold layerEnd
 cases checkLayerEnd rs m with
 | error e => exact fail_preserves served inv a.first e
 | ok current =>
  dsimp only
  split
  · rename_i skipped
    have free : rs.receiver = none := by
     by_contra taken
     rw [(inv.busy taken).2] at skipped
     cases skipped
    refine sealLayer_preserves served (kept_fields rfl ?_)
    unfold book
    rw [free]
    rfl
  · cases holding : rs.receiver with
    | none => exact ⟨kept_fields rfl rfl, inv⟩
    | some held =>
     obtain ⟨u, e, ended⟩ := commit_live served (inv.live held holding)
     dsimp only
     rw [ended]
     cases e with
     | some e =>
      have used := used_preserves inv holding (u := u)
       (rfl : entryOf (.call (.commit held.call (some (some e)))) = _)
      exact used.fails served _ _
     | none =>
      refine sealLayer_preserves served (kept_one rfl rfl ?_)
      unfold book
      rw [holding]
      exact .settled _ _ _

theorem streamStart_preserves (inv : Inv rs) (m : Option StreamStart) :
  Preserves rs (streamStart cfg a rs m).1 := by
 unfold streamStart
 cases checked : checkStreamStart cfg a rs m with
 | error e => exact fail_preserves served inv a.first e
 | ok m =>
  have free := free_of_state inv (by rw [(checkStreamStart_ok checked).1]; decide)
  dsimp only
  cases scopeOf a m.reference with
  | error e =>
   refine .fails served ?_ _ _
   exact ⟨kept_fields rfl rfl, inv_of_none free⟩
  | ok request =>
   dsimp only
   split
   · refine .fails served ?_ _ _
     exact ⟨kept_quiet [_] rfl rfl rfl, inv_of_none free⟩
   · refine .sends ?_ _ _
     exact ⟨kept_quiet [_] rfl rfl rfl, inv_of_none free⟩

theorem streamEnd_preserves (inv : Inv rs) (m : Option StreamEnd) :
  Preserves rs (streamEnd a rs m).1 := by
 unfold streamEnd
 cases checked : checkStreamEnd rs m with
 | error e => exact fail_preserves served inv a.first e
 | ok fine =>
  have free := free_of_state inv (by rw [(checkStreamEnd_ok checked).1]; decide)
  dsimp only
  split
  · refine .fails served ?_ _ _
    exact ⟨kept_quiet [_] rfl rfl rfl, inv_of_none free⟩
  · have finished : ∀ rs' : RunState Pointer, book rs' = book rs →
      (∃ answer, rs'.log = rs.log ++ [.finishIngest none, .sent .streamProgress answer]) →
      Kept rs rs' := by
     rintro rs' same ⟨answer, log⟩
     exact kept_quiet [.finishIngest none, .sent .streamProgress answer] rfl log same
    split
    · refine ⟨finished _ rfl ⟨a.first, ?_⟩, inv_of_none free⟩
      exact List.append_assoc _ _ _
    · refine .sends ?_ _ _
      refine ⟨finished _ rfl ⟨a.first, ?_⟩, inv_of_none free⟩
      exact List.append_assoc _ _ _

end

def asked (cfg : SessionConfig) (t : Turn Pointer) (rs : RunState Pointer) : Option LayerStart :=
 match t.trouble, t.frame with
 | none, .ok (some .control, payload) =>
  match cfg.decode payload with
  | .ok (.layerStart start) =>
   match checkLayerStart cfg rs start with
   | .ok m =>
    match t.answers.sink.blobExists rs.reference m.sha256 with
    | .ok false => some m
    | _ => none
   | .error _ => none
  | _ => none
 | _, _ => none

theorem control_preserves (served : a.sink = registrySink c r) (inv : Inv rs) (m : ClientMessage)
  (starts : ∀ start layer, m = .layerStart start → Asks cfg a rs start layer →
   Starts r c rs.reference layer.sha256) : Preserves rs (control cfg a rs m).1 := by
 cases m with
 | hello m => exact hello_preserves served inv m
 | backupStart m => exact backupStart_preserves served inv m
 | layerStart m => exact layerStart_preserves served inv fun layer => starts m layer rfl
 | layerEnd m => exact layerEnd_preserves served inv m
 | streamStart m => exact streamStart_preserves served inv m
 | streamEnd m => exact streamEnd_preserves served inv m
 | token m =>
  simp only [Session.control]
  split
  · exact preserves_note inv rfl
  · exact fail_preserves served inv _ _
 | cancel reason => exact dismiss_preserves served inv _
 | error message => exact dismiss_preserves served inv _
 | empty => exact fail_preserves served inv _ _

theorem upload_quiet (reference : Str) (call : Nat) (layer : LayerUpload) :
  ∃ calls ended, upload (registrySink c r) reference call layer = (calls, 0, ended) ∧
   (calls.map Event.call).filterMap entryOf = [] ∧ ended ≠ .panicked := by
 unfold upload
 cases (registrySink c r).blobExists reference layer.digest with
 | error e => exact ⟨_, _, rfl, rfl, by simp⟩
 | ok present =>
  cases present with
  | true => exact ⟨_, _, rfl, rfl, by simp⟩
  | false =>
   refine ⟨_, _, rfl, rfl, ?_⟩
   cases putBlob r c reference layer.digest layer.size <;> simp

theorem uploadLayers_preserves (inv : Inv rs) (layers : List LayerUpload) :
  ∃ rs', uploadLayers (registrySink c r) rs layers = (rs', false) ∧ Preserves rs rs' := by
 induction layers generalizing rs with
 | nil => exact ⟨rs, rfl, kept_fields rfl rfl, inv⟩
 | cons layer layers ih =>
  obtain ⟨calls, ended, uploaded, silent, fine⟩ :=
   upload_quiet (c := c) (r := r) rs.reference rs.opened layer
  have noted : Preserves rs (rs.noteCalls calls) :=
   ⟨kept_quiet (calls.map .call) silent rfl rfl, inv.congr rfl rfl rfl⟩
  unfold uploadLayers
  split
  · exact ⟨rs, rfl, kept_fields rfl rfl, inv⟩
  · rw [uploaded]
    cases ended with
    | panicked => exact absurd rfl fine
    | failed cause =>
     refine ⟨_, rfl, noted.1.trans ?_, ?_⟩
     · exact kept_fields rfl rfl
     · exact noted.2.congr rfl rfl rfl
    | done =>
     obtain ⟨rs', went, preserved⟩ := ih noted.2
     exact ⟨rs', went, preserves_after noted.1 preserved⟩

variable {t : Turn Pointer}

theorem asked_of_asks (calm : t.trouble = none) {payload : Bytes}
  (frame : t.frame = .ok (some .control, payload)) {start : Option LayerStart}
  (decoded : cfg.decode payload = .ok (.layerStart start))
  (asks : Asks cfg t.answers rs start m) : asked cfg t rs = some m := by
 unfold asked
 rw [calm, frame]
 dsimp only
 rw [decoded]
 dsimp only
 rw [asks.1]
 dsimp only
 rw [asks.2]

theorem turn_preserves (served : t.answers.sink = registrySink c r) (inv : Inv rs)
  (starts : ∀ m, asked cfg t rs = some m → Starts r c rs.reference m.sha256) :
  Preserves rs (turn cfg t rs).1 := by
 have fails : ∀ e, Preserves rs (fail t.answers t.answers.first rs e).1 :=
  fun e => fail_preserves served inv _ e
 have progress : Preserves rs { rs with lastProgress := t.now } :=
  ⟨kept_fields rfl rfl, inv.congr rfl rfl rfl⟩
 unfold turn
 cases calm : t.trouble with
 | some f => exact stop_preserves served inv f
 | none =>
  cases frame : t.frame with
  | error e => exact stop_preserves served inv _
  | ok read =>
   obtain ⟨type, payload⟩ := read
   dsimp only
   unfold handle
   split
   · split
     · exact fails _
     · split
       · exact fails _
       · exact ⟨kept_fields rfl rfl, inv⟩
   · refine preserves_after progress.1 ?_
     unfold data
     split
     · exact streamData_preserves served progress.2 payload
     · exact layerData_preserves served progress.2 payload
   · refine preserves_after progress.1 ?_
     dsimp only
     cases decoded : cfg.decode payload with
     | error e => exact fail_preserves served progress.2 _ _
     | ok m =>
      refine control_preserves served progress.2 m ?_
      rintro start layer rfl asks
      exact starts layer (asked_of_asks calm frame decoded asks)
   · exact fails _

theorem leave_spec (served : a.sink = registrySink c r) (inv : Inv rs) (ended : Ending) :
  Kept rs (leave a rs ended).1 ∧ (leave a rs ended).1.receiver = none := by
 obtain ⟨rs', aborted, kept, free⟩ := abort_spec served inv
 unfold leave
 rw [aborted]
 exact ⟨kept, free⟩

theorem openLayer_panics (served : a.sink = registrySink c r)
  (fails : ¬ Starts r c rs.reference m.sha256) :
  ∃ rs', openLayer a rs m = (rs', some .panicked) ∧ ¬ Owned (leave a rs' .panicked).1.log := by
 have called : a.sink.openBlob rs.reference m.sha256 m.size.toInt64 =
   openBlob r c rs.reference m.sha256 := by rw [served]; rfl
 rcases openBlob_cases r c rs.reference m.sha256 with ⟨starts, -⟩ | ⟨-, e, opened⟩
 · exact absurd starts fails
 · have stored : (storeReceiver rs m (some none) (some e)).receiver = some ⟨rs.opened, none⟩ := rfl
   obtain ⟨rs', aborted, grown, -, held⟩ := abort_nil served stored
   obtain ⟨rs'', again, later, invoked, -⟩ := abort_nil served (held.trans stored)
   refine ⟨rs', ?_, ?_⟩
   · unfold openLayer fail
     rw [called, opened]
     dsimp only
     rw [aborted]
   · unfold leave
     rw [again]
     intro owned
     have failed : .call (.openBlob rs.opened rs.reference m.sha256 m.size.toInt64 (some e)) ∈
       (storeReceiver rs m (some none) (some e)).log :=
      List.mem_append_right _ (List.mem_singleton.mpr rfl)
     exact owned.2 _ _ _ _ _ ((grown.trans later).subset failed) _ invoked rfl

theorem turn_panics (served : t.answers.sink = registrySink c r)
  (asks : asked cfg t rs = some m) (fails : ¬ Starts r c rs.reference m.sha256) :
  ∃ rs', turn cfg t rs = (rs', some .panicked) ∧
   ¬ Owned (leave t.answers rs' .panicked).1.log := by
 unfold asked at asks
 split at asks
 · rename_i payload calm frame
   split at asks
   · rename_i start decoded
     split at asks
     · rename_i layer checked
       split at asks
       · rename_i missing
         cases asks
         unfold turn
         rw [calm, frame]
         dsimp only [handle]
         rw [decoded]
         dsimp only [Session.control]
         unfold layerStart
         rw [show checkLayerStart cfg { rs with lastProgress := t.now } start = .ok m from checked]
         dsimp only
         rw [missing]
         exact openLayer_panics served fails
       · cases asks
     · cases asks
   · cases asks
 · cases asks

end Served

structure RegistryTurn where
 turn : Turn Pointer
 registry : RegistryAnswers

def RegistryTurn.served (t : RegistryTurn) (chunkSize : Int) : Turn Pointer :=
 { t.turn with answers := { t.turn.answers with sink := registrySink chunkSize t.registry } }

/-- `Run` with a registry sink. -/
def registryRun (cfg : SessionConfig) (chunkSize : Int) (now : Int) (turns : List RegistryTurn)
  (last : RegistryTurn) (eof : Str) : RunState Pointer × Ending :=
 run cfg now (turns.map (·.served chunkSize)) (last.served chunkSize).answers eof

def reached (cfg : SessionConfig) (chunkSize : Int) :
  RunState Pointer → List RegistryTurn → List (RunState Pointer × RegistryTurn)
 | _, [] => []
 | rs, t :: ts =>
  if rs.state = .closed then []
  else
   let found := (uploadLayers (t.served chunkSize).answers.sink rs t.turn.uploads).1
   (found, t) ::
    match turn cfg (t.served chunkSize) found with
    | (next, none) => reached cfg chunkSize next ts
    | (_, some _) => []

/-- Whenever the loop comes to ask for an upload, the registry starts it, or the client for it
cannot be built. -/
def UploadsStart (cfg : SessionConfig) (chunkSize : Int) (rs : RunState Pointer)
  (turns : List RegistryTurn) : Prop :=
 ∀ x ∈ reached cfg chunkSize rs turns, ∀ m, asked cfg (x.2.served chunkSize) x.1 = some m →
  Starts x.2.registry chunkSize x.1.reference m.sha256

theorem runFrom_owned_iff {cfg : SessionConfig} {c : Int} {last : RegistryTurn} {eof : Str}
  {rs₀ : RunState Pointer} {turns : List RegistryTurn} (inv : Inv rs) (kept : Kept rs₀ rs)
  (empty : rs₀.log = [] ∧ book rs₀ = ⟨0, none⟩) :
  Owned (runFrom cfg (last.served c).answers eof rs (turns.map (·.served c))).1.log ↔
   UploadsStart cfg c rs turns := by
 have owned : ∀ rs', Kept rs₀ rs' → rs'.receiver = none → Owned rs'.log := by
  rintro rs' ⟨events, log, posts⟩ free
  rw [empty.1, List.nil_append] at log
  rw [empty.2, book, free, ← log] at posts
  exact owned_of_posts posts
 have leaves : ∀ (t : RegistryTurn) rs' ended, Preserves rs₀ rs' →
   Owned (leave (t.served c).answers rs' ended).1.log := by
  intro t rs' ended preserved
  have left := leave_spec (a := (t.served c).answers) rfl preserved.2 ended
  exact owned _ (preserved.1.trans left.1) left.2
 induction turns generalizing rs with
 | nil =>
  refine iff_of_true ?_ (fun x member => nomatch member)
  rw [List.map_nil, runFrom]
  split
  · exact leaves last rs _ ⟨kept, inv⟩
  · exact leaves last _ _ (preserves_after kept (stop_preserves rfl inv _))
 | cons t ts ih =>
  rw [List.map_cons, runFrom]
  by_cases closed : rs.state = .closed
  · rw [if_pos closed]
    refine iff_of_true (leaves t rs _ ⟨kept, inv⟩) ?_
    intro x member
    rw [reached, if_pos closed] at member
    cases member
  · obtain ⟨found, uploaded, preserved⟩ :=
     uploadLayers_preserves (c := c) (r := t.registry) inv t.turn.uploads
    have uploads : uploadLayers (t.served c).answers.sink rs (t.served c).uploads =
      (found, false) := uploaded
    have reaches : reached cfg c rs (t :: ts) = (found, t) ::
      match turn cfg (t.served c) found with
      | (next, none) => reached cfg c next ts
      | (_, some _) => [] := by
     rw [reached, if_neg closed]
     dsimp only
     rw [show uploadLayers (t.served c).answers.sink rs t.turn.uploads =
      (found, false) from uploaded]
    rw [if_neg closed, uploads, UploadsStart, reaches]
    dsimp only
    by_cases starts : ∀ m, asked cfg (t.served c) found = some m →
      Starts t.registry c found.reference m.sha256
    · have stepped : Preserves rs₀ (turn cfg (t.served c) found).1 :=
       preserves_after (kept.trans preserved.1) (turn_preserves rfl preserved.2 starts)
      cases went : turn cfg (t.served c) found with
      | mk next ended =>
       rw [went] at stepped
       cases ended with
       | some ended =>
        refine iff_of_true (leaves t next ended stepped) ?_
        intro x member
        cases List.mem_singleton.mp member
        exact starts
       | none =>
        refine (ih stepped.2 stepped.1).trans ?_
        rw [List.forall_mem_cons]
        exact ⟨fun rest => ⟨starts, rest⟩, fun both => both.2⟩
    · simp only [not_forall] at starts
      obtain ⟨m, asks, fails⟩ := starts
      obtain ⟨next, panicked, disowned⟩ := turn_panics rfl asks fails
      rw [panicked]
      refine iff_of_false disowned ?_
      intro all
      exact fails (all _ List.mem_cons_self m asks)

/-- A session with a registry sink settles each writer exactly once, and leaves the result of every
failed `OpenBlob` alone, if and only if the registry starts each upload the loop comes to ask for,
or the client for it cannot be built. -/
theorem writers_owned_iff (cfg : SessionConfig) (chunkSize now : Int) (turns : List RegistryTurn)
  (last : RegistryTurn) (eof : Str) : Owned (registryRun cfg chunkSize now turns last eof).1.log ↔
   UploadsStart cfg chunkSize (RunState.fresh now) turns :=
 runFrom_owned_iff (inv_of_none rfl) (kept_fields rfl rfl) ⟨rfl, rfl⟩

def willingRegistry : RegistryAnswers where
 parseReference _ := .ok (lit "team/app")
 httpBase _ := none
 head _ := .ok false
 upload := ⟨.ok (lit "/upload/1"), fun u p => (u, p.length, none), fun u => (u, none), fun u =>
  (u, none)⟩
 putStream _ _ := none
 commitBackup _ := .ok (lit "sha256:0")

def upperDigest : Str := lit "sha256:" ++ List.replicate 64 65

def shortDecode : Bytes → Except Str ClientMessage
 | [1] => .ok (.hello (some ⟨1, lit "s", []⟩))
 | [2] => .ok (.backupStart (some ⟨lit "r/app:1", 1, 3⟩))
 | [3] => .ok (.layerStart (some ⟨0, 3, upperDigest, [], []⟩))
 | _ => .error (lit "decode client message")

def shortConfig : SessionConfig := ⟨lit "1", [], [], 0, 0, shortDecode⟩

def shortTurn (payload : Bytes) : RegistryTurn where
 turn := ⟨none, none, .ok (some .control, payload), 0, [],
  ⟨registrySink 0 willingRegistry, none, none, none, fun _ => none, fun _ => none,
   .error ⟨true, []⟩⟩⟩
 registry := willingRegistry

def shortRun : RunState Pointer × Ending :=
 registryRun shortConfig 0 0 [shortTurn [1], shortTurn [2], shortTurn [3]] (shortTurn [])
  (lit "EOF")

/-- The check of a `LayerStart` accepts upper-case digits and `Open` does not: the session calls
`Abort` on the nil pointer it got and dies of it. -/
theorem upper_case_digest_panics : shortRun.2 = .panicked ∧ ¬ Owned shortRun.1.log := by
 refine ⟨by decide +kernel, ?_⟩
 intro owned
 have failed :
  .call (.openBlob 0 (lit "r/app:1") upperDigest 3 (some (lit "invalid blob digest"))) ∈
   shortRun.1.log := by
  decide +kernel
 have invoked : .call (.abort 0 none) ∈ shortRun.1.log := by decide +kernel
 exact owned.2 _ _ _ _ _ failed _ invoked rfl

end BackImage.Server.Ownership
