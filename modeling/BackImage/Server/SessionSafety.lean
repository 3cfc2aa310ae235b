/- source: pkg/server/session.go, pkg/server/session_stream.go
  digest: Against every client and every sink, a session makes its calls only after what entitles it
    to them. -/

import BackImage.Server.SessionHandlers

namespace BackImage.Server.SessionSafety

open Go.Sha256 Go.Text Lib.Transitions Session SessionHandlers SessionInvariant
open RegistrySink
open Protocol.Frames hiding written
open RegistrySink (Backup Sink)

universe u

variable {W : Type u}

section Steps

variable {same : UInt64 → Nat → Prop} {cfg : SessionConfig} {h : List Item} {log : List Event}
 {rs : RunState W} {a : Answers W} {r : Step W} {e : Event}

theorem good_control (exact_count : ∀ n, same (UInt64.ofNat n) n)
  (guarded : Guarded (Law same cfg) h) (sound : Sound cfg h rs) (m : ClientMessage) :
  Good same cfg (h ++ [.heard m]) rs.log (control cfg a rs m) := by
 have heard : Guarded (Law same cfg) (h ++ [.heard m]) := guarded_concat guarded (law_heard guarded)
 have last : .heard m ∈ h ++ [.heard m] := List.mem_append_right _ List.mem_cons_self
 cases m with
 | hello m => exact good_hello heard (sound.concat (neutral_heard (by simp))) last
 | backupStart m => exact good_backupStart heard (sound.concat (neutral_heard (by simp))) last
 | layerStart m => exact good_layerStart heard (sound.concat (neutral_heard (by simp))) last
 | layerEnd m => exact good_layerEnd heard sound
 | streamStart m => exact good_streamStart heard (sound.concat (neutral_heard (by simp))) last
 | streamEnd m => exact good_streamEnd exact_count heard sound
 | token m =>
  have kept := sound.concat (neutral_heard (m := .token m) (by simp))
  have lawful := guarded_concat heard (law_own (e := .call (.provideToken m)) heard rfl trivial)
  unfold Session.control
  dsimp only
  split
  · refine good_after (good_goes lawful rfl ?_)
    exact (kept.concat (neutral_own rfl (by simp) id)).note _
  · exact good_fail heard rfl
 | cancel reason => exact good_dismiss heard
 | error message => exact good_dismiss heard
 | empty => exact good_fail heard rfl

def Piped (reference : Str) : Call → Prop
 | .blobExists r _ _ => r = reference
 | .openBlob _ r _ _ _ => r = reference
 | .putBlob r _ _ _ => r = reference
 | .write _ _ _ => True
 | .commit _ _ => True
 | .abort _ _ => True
 | _ => False

theorem piped_copyPieces {w : RegistrySink.BlobWriter W} {call : Nat} {v : W} {n : Nat}
  {pieces : List Bytes}
  {reference : Str} : ∀ c ∈ (copyPieces w call v n pieces).1, Piped reference c := by
 induction pieces generalizing v n with
 | nil => exact fun c nothing => absurd nothing List.not_mem_nil
 | cons p ps ih =>
  intro c member
  unfold copyPieces at member
  split at member
  · rw [List.mem_singleton.mp member]
    trivial
  · rw [List.mem_singleton.mp member]
    trivial
  · split at member
    · rw [List.mem_singleton.mp member]
      trivial
    · rcases List.mem_cons.mp member with rfl | later
      · trivial
      · exact ih c later

variable {reference : Str}

variable {w : RegistrySink.BlobWriter W} {call : Nat} {v : W}

theorem piped_giveUp {cause : Str} : ∀ c ∈ (giveUp w call v cause).1, Piped reference c := by
 intro c member
 unfold giveUp at member
 split at member
 · rw [List.mem_singleton.mp member]
   trivial
 · rw [List.mem_singleton.mp member]
   trivial

theorem piped_copyLayer {layer : LayerUpload} :
  ∀ c ∈ (copyLayer w call v layer).1, Piped reference c := by
 intro c member
 unfold copyLayer at member
 split at member
 · exact piped_giveUp c member
 · rename_i pieces readError closeError content
   have pieces_piped := @piped_copyPieces W w call v 0 pieces reference
   split at member
   · rename_i calls copied
     rw [copied] at pieces_piped
     exact pieces_piped c member
   · rename_i calls after written copyError copied
     rw [copied] at pieces_piped
     dsimp only at member
     split at member
     · rcases List.mem_append.mp member with early | late
       · exact pieces_piped c early
       · exact piped_giveUp c late
     · split at member
       all_goals
        rcases List.mem_append.mp member with early | late
        · exact pieces_piped c early
        · rw [List.mem_singleton.mp late]
          trivial

theorem piped_upload {s : Sink W} {reference : Str} {call : Nat} {layer : LayerUpload} :
  ∀ c ∈ (upload s reference call layer).1, Piped reference c := by
 intro c member
 unfold upload at member
 dsimp only at member
 split at member
 · rw [List.mem_singleton.mp member]
   rfl
 · rw [List.mem_singleton.mp member]
   rfl
 · split at member
   · simp only [List.mem_cons, List.not_mem_nil, or_false] at member
     rcases member with rfl | rfl
     · rfl
     · rfl
   · split at member
     · simp only [List.mem_cons, List.not_mem_nil, or_false] at member
       rcases member with rfl | rfl
       · rfl
       · rfl
     · simp only [List.mem_cons, List.not_mem_nil, or_false] at member
       rcases member with rfl | rfl
       · rfl
       · rfl
     · rcases List.mem_cons.mp member with rfl | member
       · rfl
       · rcases List.mem_cons.mp member with rfl | member
         · rfl
         · exact piped_copyLayer c member

variable {c : Call}

theorem neutral_pipe (piped : Piped reference c) : Neutral (.pipe (.call c)) where
 ends := rfl
 accepts := rfl
 writes := fun _ _ _ => Item.noConfusion
 unmarked := by
  rintro e ⟨⟩ marked
  cases c with
  | commitBackup => cases piped
  | _ => cases marked

theorem law_pipe (guarded : Guarded (Law same cfg) h)
  (admitted : Admitted cfg h reference) (piped : Piped reference c) :
  Law same cfg h (.pipe (.call c)) := by
 refine ⟨fun positive small => ?_, fun x is => ?_⟩
 · rw [(neutral_pipe piped).accepted_eq]
   exact quota_of_guarded guarded positive small
 · cases is
   cases c with
   | blobExists r d f => exact piped ▸ admitted
   | openBlob n r d z f => exact piped ▸ admitted
   | putBlob r d z f => exact piped ▸ admitted
   | write | commit | abort => trivial
   | knownBlobs | commitBackup | provideToken => cases piped

theorem guarded_piped {calls : List Call} (guarded : Guarded (Law same cfg) h)
  (sound : Sound cfg h rs) (admitted : Admitted cfg h reference)
  (piped : ∀ c ∈ calls, Piped reference c) :
  Guarded (Law same cfg) (h ++ (calls.map Event.call).map .pipe) ∧
   Sound cfg (h ++ (calls.map Event.call).map .pipe) rs := by
 induction calls generalizing h with
 | nil =>
  rw [List.map_nil, List.map_nil, List.append_nil]
  exact ⟨guarded, sound⟩
 | cons c calls ih =>
  have first := piped c List.mem_cons_self
  rw [List.map_cons, List.map_cons, List.append_cons]
  apply ih
  · exact guarded_concat guarded (law_pipe guarded admitted first)
  · exact sound.concat (neutral_pipe first)
  · exact admitted.append
  · exact fun x member => piped x (List.mem_cons_of_mem _ member)

theorem streaming_of_ingest (sound : Sound cfg h rs) (running : rs.state ≠ .closed)
  (ingest : rs.ingest = true) :
  rs.state = .streaming := by
 have idle : rs.ingest ≠ false := by simp [ingest]
 have place := sound.place
 cases state : rs.state with
 | new =>
  rw [state] at place
  exact absurd place.ingest idle
 | greeted =>
  rw [state] at place
  exact absurd place.1.ingest idle
 | ready =>
  rw [state] at place
  exact absurd place.ingest idle
 | receiving =>
  rw [state] at place
  obtain ⟨m, limit, receiving⟩ := place
  exact absurd receiving.ingest idle
 | streaming => rfl
 | closed => exact absurd state running

theorem sound_piped (sound : Sound cfg h rs) (state : rs.state = .streaming) (log : List Event)
  (more : Nat) (failed : Bool) :
  Sound cfg h { rs with log := log, opened := rs.opened + more, uploadFailed := failed } := by
 have flowing := sound.place
 rw [state] at flowing
 refine ⟨sound.total, fun call payload answer inside => ?_, ?_⟩
 · exact Nat.lt_add_right _ (sound.fresh call payload answer inside)
 · show Place cfg h _ rs.state
   rw [state]
   exact ⟨flowing.admitted, flowing.streaming⟩

theorem piped_uploads {s : Sink W} {layers : List LayerUpload} (guarded : Guarded (Law same cfg) h)
  (sound : Sound cfg h rs) (running : rs.state ≠ .closed) :
  ∃ es, (uploadLayers s rs layers).1.log = rs.log ++ es ∧
   Guarded (Law same cfg) (h ++ es.map .pipe) ∧
   Sound cfg (h ++ es.map .pipe) (uploadLayers s rs layers).1 := by
 induction layers generalizing rs h with
 | nil =>
  refine ⟨[], (List.append_nil _).symm, ?_⟩
  rw [List.map_nil, List.append_nil]
  exact ⟨guarded, sound⟩
 | cons layer layers ih =>
  unfold uploadLayers
  split
  · refine ⟨[], (List.append_nil _).symm, ?_⟩
    rw [List.map_nil, List.append_nil]
    exact ⟨guarded, sound⟩
  · rename_i active
    rw [not_or, Bool.not_eq_false] at active
    have state := streaming_of_ingest sound running active.1
    have flowing := sound.place
    rw [state] at flowing
    have calls_piped := @piped_upload W s rs.reference rs.opened layer
    have step := guarded_piped guarded sound flowing.admitted calls_piped
    split
    · rename_i calls opened uploaded
      rw [uploaded] at step
      exact ⟨calls.map .call, rfl, step.1, sound_piped step.2 state _ _ _⟩
    · rename_i calls opened cause uploaded
      rw [uploaded] at step
      exact ⟨calls.map .call, rfl, step.1, sound_piped step.2 state _ _ _⟩
    · rename_i calls opened uploaded
      rw [uploaded] at step
      have after := sound_piped step.2 state (rs.log ++ calls.map .call) opened rs.uploadFailed
      obtain ⟨es, grown, later, kept⟩ := ih step.1 after running
      refine ⟨calls.map .call ++ es, ?_, ?_, ?_⟩
      · rw [← List.append_assoc]
        exact grown
      · rw [List.map_append, ← List.append_assoc]
        exact later
      · rw [List.map_append, ← List.append_assoc]
        exact kept

/-- `ReadFrame` returns no longer frame. -/
def Readable (t : Turn W) : Prop :=
 ∀ type payload, t.frame = .ok (type, payload) → payload.length ≤ maxFrameSize

theorem good_turn {t : Turn W} (exact_count : ∀ n, same (UInt64.ofNat n) n) (readable : Readable t)
  (guarded : Guarded (Law same cfg) h) (sound : Sound cfg h rs) :
  Good same cfg (h ++ heardIn cfg t) rs.log (turn cfg t rs) := by
 have silent : Guarded (Law same cfg) (h ++ []) := by
  rw [List.append_nil]
  exact guarded
 have ticked : ∀ now, Sound cfg (h ++ []) { rs with lastProgress := now } := by
  intro now
  rw [List.append_nil]
  exact sound.logged rs.log now
 unfold turn heardIn
 cases t.trouble with
 | some f => exact good_of_quits silent quits_stop (Option.some_ne_none _)
 | none =>
  cases frame : t.frame with
  | error err => exact good_of_quits silent quits_stop (Option.some_ne_none _)
  | ok read =>
   obtain ⟨type, payload⟩ := read
   unfold handle
   cases type with
   | none => exact good_fail silent rfl
   | some type =>
    cases type with
    | keepalive =>
     dsimp only
     split
     · exact good_fail silent rfl
     · split
       · exact good_fail silent rfl
       · exact good_goes silent rfl (by rw [List.append_nil]; exact sound)
    | data => exact good_data (readable _ payload frame) silent (ticked t.now)
    | control =>
     dsimp only
     cases cfg.decode payload with
     | error err => exact good_fail silent rfl
     | ok m => exact good_control exact_count guarded (sound.logged rs.log t.now) m

theorem news_append (es : List Event) : news log (log ++ es) = es := List.drop_left

theorem events_own (es : List Event) : events (es.map .own) = es := by
 unfold events
 rw [List.filterMap_map]
 exact List.filterMap_some

theorem events_pipe (es : List Event) : events (es.map .pipe) = es := by
 unfold events
 rw [List.filterMap_map]
 exact List.filterMap_some

theorem events_heardIn (t : Turn W) : events (heardIn cfg t) = [] := by
 unfold heardIn
 split
 · split <;> rfl
 · rfl

/-- The trace from here on is lawful, and holds what the rest of the run writes down. -/
def Traced (same : UInt64 → Nat → Prop) (cfg : SessionConfig) (h : List Item) (log : List Event)
  (items : List Item) (final : List Event) : Prop :=
 Guarded (Law same cfg) (h ++ items) ∧ final = log ++ events items

variable {final : List Event}

theorem traced_quits (guarded : Guarded (Law same cfg) h) (quits : Quits log final) :
  Traced same cfg h log ((news log final).map .own) final := by
 obtain ⟨es, rfl, all⟩ := quits
 rw [news_append]
 refine ⟨guarded_quits guarded all, ?_⟩
 rw [events_own]

theorem traced_append {items more : List Item}
  (rest : Traced same cfg (h ++ items) (log ++ events items) more final) :
  Traced same cfg h log (items ++ more) final := by
 obtain ⟨guarded, grown⟩ := rest
 refine ⟨?_, ?_⟩
 · rw [← List.append_assoc]
   exact guarded
 · rw [grown, events_append, List.append_assoc]

theorem traced_runFrom {last : Answers W} {eof : Str} (exact_count : ∀ n, same (UInt64.ofNat n) n)
  {turns : List (Turn W)} (readable : ∀ t ∈ turns, Readable t)
  (guarded : Guarded (Law same cfg) h) (sound : Sound cfg h rs) :
  Traced same cfg h rs.log (traceFrom cfg last eof rs turns)
  (runFrom cfg last eof rs turns).1.log := by
 induction turns generalizing rs h with
 | nil =>
  unfold traceFrom
  apply traced_quits guarded
  unfold runFrom
  split
  · exact quits_leave
  · exact quits_stop.trans quits_leave
 | cons t ts ih =>
  unfold traceFrom runFrom
  split
  · exact traced_quits guarded quits_leave
  · rename_i running
    obtain ⟨es, grown, lawful, kept⟩ :=
     @piped_uploads W same cfg h rs t.answers.sink t.uploads guarded sound running
    rcases uploaded : uploadLayers t.answers.sink rs t.uploads with ⟨piped, crashed⟩
    rw [uploaded] at grown kept
    dsimp only at grown kept ⊢
    cases crashed with
    | true =>
     dsimp only
     rw [grown, news_append]
     exact ⟨lawful, by rw [events_pipe]⟩
    | false =>
     obtain ⟨fs, further, obeyed, goes⟩ :=
      @good_turn W same cfg (h ++ es.map .pipe) piped t exact_count
      (readable t List.mem_cons_self) lawful kept
     rcases turned : turn cfg t piped with ⟨done, ended⟩
     rw [turned] at further goes
     dsimp only at further goes ⊢
     rw [grown, news_append, List.append_assoc]
     apply traced_append
     apply traced_append
     rw [events_pipe, events_heardIn, List.append_nil, ← grown, turned]
     cases ended with
     | some ended =>
      dsimp only
      rw [further, news_append]
      apply traced_append
      rw [events_own, ← further]
      exact traced_quits obeyed quits_leave
     | none =>
      dsimp only
      rw [further, news_append]
      apply traced_append
      rw [events_own, ← further]
      exact ih (fun t member => readable t (List.mem_cons_of_mem _ member)) obeyed (goes rfl)

end Steps

/-- For every client and every sink, the trace of a session is lawful, and its events are the log.
The numbers of a `StreamEnd` are compared as the 64 bits that the message and the counter have. -/
theorem session_lawful (cfg : SessionConfig) (now : Int) (turns : List (Turn W)) (last : Answers W)
  (eof : Str) (readable : ∀ t ∈ turns, Readable t) :
  Guarded (Law (fun raw n => raw = UInt64.ofNat n) cfg) (trace cfg now turns last eof) ∧
   events (trace cfg now turns last eof) = (run cfg now turns last eof).1.log := by
 have traced : Traced (fun raw n => raw = UInt64.ofNat n) cfg [] [] (trace cfg now turns last eof)
   (run cfg now turns last eof).1.log :=
  traced_runFrom (fun _ => rfl) readable guarded_nil (sound_fresh cfg now)
 exact ⟨traced.1, traced.2.symm⟩

def lenientSink : Sink Unit where
 knownBlobs _ := .ok []
 blobExists _ _ := .ok false
 openBlob _ _ _ := (some (), none)
 commitBackup _ := .ok []
 writer := ⟨fun _ payload => some ((), payload.length, none), fun _ => some ((), none), fun _ =>
  some ((), none)⟩
 putBlob := none
 tokenScope := none
 streaming := true

def lenient : Answers Unit where
 sink := lenientSink
 first := none
 second := none
 waiting := none
 startIngest _ := none
 feedIngest _ := none
 finishIngest := .ok ⟨[], 0, 0, 0, 0, 0, 0, 0⟩

def turnOf (type : FrameType) (payload : Bytes) : Turn Unit :=
 ⟨none, none, .ok (some type, payload), 0, [], lenient⟩

variable {payload : Bytes}

theorem readable_turnOf {type : FrameType} (short : payload.length ≤ maxFrameSize) :
  Readable (turnOf type payload) := by
 rintro _ _ ⟨⟩
 exact short

def script : Bytes → Except Str ClientMessage
 | [0] => .ok (.hello (some ⟨2, lit "s", lit "token"⟩))
 | [1] => .ok (.streamStart (some ⟨lit "r", 0⟩))
 | [2] => .ok (.streamEnd (some ⟨1⟩))
 | [3] => .ok (.backupStart (some ⟨lit "r", 1, 0⟩))
 | [4] => .ok (.layerStart (some ⟨0, 1, digestText [7], [], []⟩))
 | [5] => .ok (.layerEnd (some ⟨0, digestText [7]⟩))
 | _ => .error []

def scripted : SessionConfig := ⟨lit "1", lit "token", [lit "r"], 0, 0, script⟩

def oneLayer : List (Turn Unit) :=
 [turnOf .control [0], turnOf .control [3], turnOf .control [4], turnOf .data [7],
  turnOf .control [5]]

theorem readable_oneLayer : ∀ t ∈ oneLayer, Readable t := by
 intro t member
 simp only [oneLayer, List.mem_cons, List.not_mem_nil, or_false] at member
 rcases member with rfl | rfl | rfl | rfl | rfl
 all_goals exact readable_turnOf (by decide)

def oneLayerBackup : Backup := ⟨lit "s", ⟨lit "r", 1, 0⟩, [⟨0, 1, digestText [7], [], []⟩]⟩

theorem one_layer_published : (∀ t ∈ oneLayer, Readable t) ∧
  .own (.call (.commitBackup oneLayerBackup (.ok []))) ∈ trace scripted 0 oneLayer lenient [] ∧
   Guarded (Law (fun raw n => raw = UInt64.ofNat n) scripted)
   (trace scripted 0 oneLayer lenient []) :=
 ⟨readable_oneLayer, by decide +kernel,
  (session_lawful scripted 0 oneLayer lenient [] readable_oneLayer).1⟩

theorem traceFrom_goes {cfg : SessionConfig} {last : Answers W} {eof : Str} {rs done : RunState W}
  {t : Turn W}
  {ts : List (Turn W)} {es : List Event} (running : rs.state ≠ .closed) (idle : t.uploads = [])
  (turned : turn cfg t rs = (done, none)) (grown : done.log = rs.log ++ es) :
  traceFrom cfg last eof rs (t :: ts) =
  heardIn cfg t ++ es.map .own ++ traceFrom cfg last eof done ts := by
 have uploads : uploadLayers t.answers.sink rs t.uploads = (rs, false) := by
  rw [idle]
  rfl
 have silent : news rs.log rs.log = [] := List.drop_length
 rw [traceFrom, if_neg running, uploads]
 dsimp only
 rw [turned]
 dsimp only
 rw [silent, grown, news_append, List.map_nil, List.nil_append, List.append_assoc]

def fed (rs : RunState Unit) (payload : Bytes) : RunState Unit :=
 { rs with
   lastProgress := 0
   log := rs.log ++ [.feedIngest payload none]
   totalBytes := rs.totalBytes + UInt64.ofNat payload.length }

variable {rs : RunState Unit}

theorem turn_fed (state : rs.state = .streaming) (ingest : rs.ingest = true)
  (filled : payload ≠ []) :
  turn scripted (turnOf .data payload) rs = (fed rs payload, none) := by
 have free : ∀ bytes, overQuota scripted bytes = false := fun _ => rfl
 show data scripted lenient { rs with lastProgress := 0 } payload = _
 unfold data streamData
 rw [if_pos state]
 dsimp only
 rw [if_neg (by simp [ingest]), free, if_neg (by simp), if_neg filled]
 rfl

theorem trace_frames (filled : payload ≠ []) (n : Nat) (rest : List (Turn Unit))
  (rs : RunState Unit) (state : rs.state = .streaming) (ingest : rs.ingest = true) :
  ∃ rs' : RunState Unit, rs'.state = .streaming ∧ rs'.ingest = true ∧
   rs'.totalBytes = rs.totalBytes + UInt64.ofNat (n * payload.length) ∧
   traceFrom scripted lenient [] rs (List.replicate n (turnOf .data payload) ++ rest) =
    List.replicate n (.own (.feedIngest payload none)) ++ traceFrom scripted lenient [] rs'
    rest := by
 induction n generalizing rs with
 | zero =>
  refine ⟨rs, state, ingest, ?_, rfl⟩
  rw [Nat.zero_mul]
  exact (UInt64.add_zero _).symm
 | succ n ih =>
  obtain ⟨rs', state', ingest', total, later⟩ := ih (fed rs payload) state ingest
  refine ⟨rs', state', ingest', ?_, ?_⟩
  · rw [total, Nat.succ_mul, Nat.add_comm, UInt64.ofNat_add, ← UInt64.add_assoc]
    rfl
  · have running : rs.state ≠ .closed := by simp [state]
    rw [List.replicate_succ, List.cons_append,
     traceFrom_goes running rfl (turn_fed state ingest filled) rfl, later, List.replicate_succ]
    rfl

def streamingStart : RunState Unit :=
 (turn scripted (turnOf .control [1]) (turn scripted (turnOf .control [0]) (RunState.fresh 0)).1).1

theorem trace_streamingStart (rest : List (Turn Unit)) : ∃ opening, accepted opening = 0 ∧
   trace scripted 0 (turnOf .control [0] :: turnOf .control [1] :: rest) lenient [] =
    opening ++ traceFrom scripted lenient [] streamingStart rest := by
 refine ⟨[.heard (.hello (some ⟨2, lit "s", lit "token"⟩)), .own (.call (.knownBlobs (lit "s"))),
  .own (.sent (.helloAck ⟨lit "1", 2, true, 0, [lit "r"], true, []⟩) none),
  .heard (.streamStart (some ⟨lit "r", 0⟩)), .own (.startIngest ⟨lit "r", 0⟩ none),
  .own (.sent (.streamAck none) none)], rfl, ?_⟩
 rfl

def longStream (frames : Nat) : List (Turn Unit) :=
 turnOf .control [0] :: turnOf .control [1] ::
  (List.replicate frames (turnOf .data (List.replicate maxFrameSize 0)) ++
   [turnOf .data [0], turnOf .control [2]])

theorem readable_longStream (frames : Nat) : ∀ t ∈ longStream frames, Readable t := by
 intro t member
 simp only [longStream, List.mem_cons, List.mem_append, List.not_mem_nil, or_false] at member
 rcases member with rfl | rfl | many | rfl | rfl
 · exact readable_turnOf (by decide)
 · exact readable_turnOf (by decide)
 · rw [List.eq_of_mem_replicate many]
   exact readable_turnOf (Nat.le_of_eq List.length_replicate)
 · exact readable_turnOf (by decide)
 · exact readable_turnOf (by decide)

theorem accepted_replicate {item : Item} (n : Nat) :
  accepted (List.replicate n item) = n * (acceptedOf item).length := by
 induction n with
 | zero =>
  rw [Nat.zero_mul]
  rfl
 | succ n ih =>
  rw [List.replicate_succ', accepted_concat, ih, Nat.succ_mul]

def finished (rs : RunState Unit) : RunState Unit :=
 { rs with
   state := .closed
   ingest := false
   lastProgress := 0
   log := rs.log ++ [.finishIngest none] ++ [.sent .streamProgress none] ++
    [.sent (.backupEnd ⟨[], 0, 0, 0, 0, 0, 0, 0⟩) none] }

theorem turn_finished (state : rs.state = .streaming) (ingest : rs.ingest = true)
  (total : rs.totalBytes = 1) : turn scripted (turnOf .control [2]) rs = (finished rs, none) := by
 have checked : checkStreamEnd { rs with lastProgress := 0 } (some ⟨1⟩) = .ok () := by
  unfold checkStreamEnd
  rw [if_neg (by simp [state, ingest])]
  dsimp only
  rw [if_neg (by simp [total])]
 show streamEnd lenient { rs with lastProgress := 0 } (some ⟨1⟩) = _
 unfold streamEnd
 rw [checked]
 rfl

theorem trace_finished {rs : RunState Unit} (state : rs.state = .streaming)
  (ingest : rs.ingest = true)
  (total : rs.totalBytes = 1) : ∃ rest, traceFrom scripted lenient [] rs [turnOf .control [2]] =
   [.heard (.streamEnd (some ⟨1⟩))] ++ .own (.finishIngest none) :: rest := by
 have running : rs.state ≠ .closed := by simp [state]
 have grown : (finished rs).log = rs.log ++ [.finishIngest none, .sent .streamProgress none,
   .sent (.backupEnd ⟨[], 0, 0, 0, 0, 0, 0, 0⟩) none] := by
  simp [finished]
 rw [traceFrom_goes running rfl (turn_finished state ingest total) grown]
 exact ⟨_, rfl⟩

/-- After `2 ^ 64` bytes and one more the counter shows one, and an end that declares one byte is
taken for the truth. -/
theorem wrapped_count_accepted : (∀ t ∈ longStream (2 ^ 42), Readable t) ∧
   ¬ Guarded (Law (fun raw n => raw.toNat = n) scripted)
   (trace scripted 0 (longStream (2 ^ 42)) lenient []) := by
 refine ⟨readable_longStream _, fun guarded => ?_⟩
 have size : (List.replicate maxFrameSize (0 : UInt8)).length = maxFrameSize :=
  List.length_replicate
 have filled : List.replicate maxFrameSize (0 : UInt8) ≠ [] := by
  apply List.ne_nil_of_length_pos
  rw [size]
  decide
 obtain ⟨opening, unfed, begun⟩ := trace_streamingStart
  (List.replicate (2 ^ 42) (turnOf .data (List.replicate maxFrameSize 0)) ++
   [turnOf .data [0], turnOf .control [2]])
 obtain ⟨rs, state, ingest, total, streamed⟩ :=
  trace_frames filled (2 ^ 42) [turnOf .data [0], turnOf .control [2]] streamingStart rfl rfl
 have running : rs.state ≠ .closed := by simp [state]
 have wrapped : (fed rs [0]).totalBytes = 1 := by
  show rs.totalBytes + UInt64.ofNat 1 = 1
  rw [total, size]
  rfl
 obtain ⟨rest, ended⟩ := @trace_finished (fed rs [0]) state ingest wrapped
 have last := @traceFrom_goes Unit scripted lenient [] rs (fed rs [0]) (turnOf .data [0])
  [turnOf .control [2]]
  [.feedIngest [0] none] running rfl (turn_fed state ingest (by simp)) rfl
 rw [longStream, begun, streamed, last, ended, ← List.append_assoc, ← List.append_assoc,
  ← List.append_assoc]
  at guarded
 obtain ⟨front, m, same, -, declared⟩ := (guarded _ (.own (.finishIngest none)) rest rfl).2 _ rfl
 obtain ⟨rfl, heard⟩ := List.append_inj' same rfl
 cases heard
 rcases declared with none_declared | exact_count
 · cases none_declared
 · have frames : (acceptedOf (.own (.feedIngest (List.replicate maxFrameSize 0) none))).length =
    2 ^ 22 := size
   have last_byte : accepted (heardIn scripted (turnOf .data [0]) ++
     [Event.feedIngest [0] none].map Item.own) = 1 := rfl
   have one : (rawBytes (some ⟨1⟩)).toNat = 1 := rfl
   rw [accepted_append, accepted_append, unfed, accepted_replicate, frames, last_byte,
    one] at exact_count
   omega

end BackImage.Server.SessionSafety
