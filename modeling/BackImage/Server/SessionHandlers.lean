/- source: pkg/server/session.go,
     pkg/server/session_stream.go
  digest: Every handler of a session obeys the law of its trace and keeps the invariant. -/

import BackImage.Server.SessionInvariant

namespace BackImage.Server.SessionHandlers

open Go.Sha256 Go.Text Lib.Transitions Session SessionInvariant
open Protocol.Frames hiding written
open Server.Stream (maxDataLayers)

universe u

variable {W : Type u}

section Steps

variable {same : UInt64 → Nat → Prop} {cfg : SessionConfig} {h : List Item} {log : List Event}
 {rs : RunState W} {a : Answers W} {r : Step W} {e : Event}

theorem law_heard {m : ClientMessage} (guarded : Guarded (Law same cfg) h) :
  Law same cfg h (.heard m) := by
 refine ⟨fun positive small => ?_, fun x is => by cases is⟩
 rw [accepted_concat]
 exact quota_of_guarded guarded positive small

theorem neutral_heard {m : ClientMessage} (other : ∀ x, m ≠ .layerEnd x) : Neutral (.heard m) where
 ends := by
  unfold endOf
  split
  · rename_i x is
    exact absurd (Item.heard.inj is) (other x)
  · rfl
 accepts := rfl
 writes := fun _ _ _ => Item.noConfusion
 unmarked := fun _ is => by cases is

theorem good_hello {m : Option Hello} (guarded : Guarded (Law same cfg) h) (sound : Sound cfg h rs)
  (heard : .heard (.hello m) ∈ h) : Good same cfg h rs.log (hello cfg a rs m) := by
 unfold hello
 cases checked : checkHello cfg rs m with
 | error err => exact good_fail guarded rfl
 | ok x =>
  obtain ⟨state, rfl, token⟩ := checkHello_ok checked
  have asked := guarded_concat guarded
   (law_own (e := .call (.knownBlobs x.sessionId)) guarded rfl trivial)
  have kept := sound.concat (neutral_own (e := .call (.knownBlobs x.sessionId)) rfl (by simp) id)
  have idle := kept.place
  rw [state] at idle
  apply good_after
  dsimp only
  cases a.sink.knownBlobs x.sessionId with
  | error err => exact good_fail asked rfl
  | ok known =>
   refine good_send asked rfl ⟨kept.total, kept.fresh, ?_⟩
   refine ⟨{ idle with }, x, ?_, token⟩
   exact List.mem_append_left _ heard

theorem good_backupStart {m : Option BackupStart} (guarded : Guarded (Law same cfg) h)
  (sound : Sound cfg h rs) (heard : .heard (.backupStart m) ∈ h) :
  Good same cfg h rs.log (backupStart cfg a rs m) := by
 unfold backupStart
 cases checked : checkBackupStart cfg rs m with
 | error err => exact good_fail guarded rfl
 | ok x =>
  obtain ⟨state, rfl, allowed, some_layers, few⟩ := checkBackupStart_ok checked
  have place := sound.place
  rw [state] at place
  obtain ⟨idle, greeted⟩ := place
  dsimp only
  cases scopeOf a x.reference with
  | error err => exact good_fail guarded rfl
  | ok request =>
   refine good_send guarded rfl ⟨sound.total, sound.fresh, ?_⟩
   refine ⟨⟨x, rfl, rfl, some_layers, few⟩, ?_, idle.unmarked, idle.ends, ?_, idle.ingest⟩
   · exact ⟨greeted, allowed, .inl ⟨x, heard, rfl⟩⟩
   · intro k layer nothing
     cases nothing

theorem written_unopened {opened : Nat} (fresh : Fresh h opened) : written opened h = [] ∧
  Whole opened h := by
 have none_yet : ∀ payload answer, .own (.call (.write opened payload answer)) ∉ h :=
  fun payload answer inside => absurd (fresh _ payload answer inside) (Nat.lt_irrefl _)
 constructor
 · unfold written
   apply List.flatMap_eq_nil_iff.mpr
   intro item inside
   refine writtenOf_eq_nil fun payload answer is => ?_
   rw [is] at inside
   exact none_yet payload answer inside
 · exact fun payload answer inside => absurd inside (none_yet payload answer)

theorem mem_events_last : e ∈ events (h ++ [.own e]) := by
 rw [events_append]
 exact List.mem_append_right _ List.mem_cons_self

/-- No layer is open; so many more may come, and some ends are heard but not dealt with. -/
structure Standing (cfg : SessionConfig) (h : List Item) (rs : RunState W) (room : Nat)
  (waiting : List (Option LayerEnd)) : Prop where
 total : rs.totalBytes = UInt64.ofNat (accepted h)
 fresh : Fresh h rs.opened
 filling : Filling cfg h rs rs.opened room waiting

/-- The next layer is `m`. -/
structure Announced (cfg : SessionConfig) (h : List Item) (rs : RunState W)
  (waiting : List (Option LayerEnd))
  (m : LayerStart) : Prop extends Standing cfg h rs 1 waiting where
 heard : .heard (.layerStart (some m)) ∈ h
 index : m.index = UInt32.ofNat rs.layers.length

variable {m : LayerStart} {room : Nat} {waiting : List (Option LayerEnd)} {item : Item}

theorem Standing.concat (standing : Standing cfg h rs room waiting) (neutral : Neutral item) :
  Standing cfg (h ++ [item]) rs room waiting where
 total := by rw [neutral.accepted_eq]; exact standing.total
 fresh := fresh_concat neutral.writes standing.fresh
 filling := standing.filling.neutral neutral

theorem Standing.noted (standing : Standing cfg h rs room waiting) (receiver : Option (Held W))
  (neutral : Neutral (.own e)) : Standing cfg (h ++ [.own e])
  { rs.note e with receiver := receiver } room waiting := by
 have further := standing.concat neutral
 exact ⟨further.total, further.fresh, further.filling.moved rfl rfl rfl rfl⟩

theorem Announced.concat (announced : Announced cfg h rs waiting m) (neutral : Neutral item) :
  Announced cfg (h ++ [item]) rs waiting m :=
 ⟨announced.toStanding.concat neutral, List.mem_append_left _ announced.heard, announced.index⟩

theorem Announced.noted (announced : Announced cfg h rs waiting m) (receiver : Option (Held W))
  (neutral : Neutral (.own e)) : Announced cfg (h ++ [.own e])
  { rs.note e with receiver := receiver } waiting m :=
 ⟨announced.toStanding.noted receiver neutral, List.mem_append_left _ announced.heard,
  announced.index⟩

theorem announced_of_sound (sound : Sound cfg h rs) (state : rs.state = .ready)
  (heard : .heard (.layerStart (some m)) ∈ h) (index : m.index = UInt32.ofNat rs.layers.length) :
  Announced cfg h rs [] m := by
 have filling := sound.place
 rw [state] at filling
 exact ⟨⟨sound.total, sound.fresh, filling⟩, heard, index⟩

theorem Announced.skipping {skipCount : UInt32} (announced : Announced cfg h rs [] m)
  (present : .call (.blobExists rs.reference m.sha256 (.ok true)) ∈ events h) :
  Sound cfg h { beginLayer rs m true with skipCount := skipCount } := by
 obtain ⟨⟨total, fresh, filling⟩, heard, index⟩ := announced
 refine ⟨total, fresh, m, rs.opened, ?_⟩
 exact
  { toFilling := filling.moved rfl rfl rfl rfl
    bound := Nat.le_refl _
    current := rfl
    heard := heard
    index := index
    present := fun _ => present
    counted := fun impossible => by cases impossible
    holding := fun impossible => by cases impossible }

theorem Announced.opening {value : Option W} (announced : Announced cfg h rs [] m)
  (opened : .call (.openBlob rs.opened rs.reference m.sha256 m.size.toInt64 none) ∈ events h) :
  Sound cfg h (storeReceiver (beginLayer rs m false) m value none) := by
 obtain ⟨⟨total, fresh, filling⟩, heard, index⟩ := announced
 have unwritten : written rs.opened h = [] ∧ Whole rs.opened h :=
  written_unopened fresh
 refine ⟨total, fun call payload answer inside => ?_, m, rs.opened, ?_⟩
 · exact Nat.lt_succ_of_lt (fresh call payload answer inside)
 · exact
    { toFilling := filling.moved rfl rfl rfl rfl
      bound := Nat.le_succ _
      current := rfl
      heard := heard
      index := index
      present := fun impossible => by cases impossible
      counted := fun _ => ⟨rfl, .inl rfl⟩
      holding := by
       intro _ held here
       obtain ⟨w, -, rfl⟩ := Option.map_eq_some_iff.mp here
       exact ⟨rfl, Nat.lt_succ_self _, opened, unwritten.1, unwritten.2⟩ }

theorem good_openLayer (guarded : Guarded (Law same cfg) h) (is : rs.log = log)
  (announced : Announced cfg h rs [] m) :
  Good same cfg h log (openLayer a (beginLayer rs m false) m) := by
 subst is
 have lawful : ∀ error, Guarded (Law same cfg)
   (h ++ [.own (.call (.openBlob rs.opened rs.reference m.sha256 m.size.toInt64 error))]) :=
  fun error => guarded_concat guarded (law_own guarded rfl announced.filling.admitted)
 unfold openLayer
 split
 · exact good_after (good_fail (lawful _) rfl)
 · refine good_after (good_send (lawful _) rfl ?_)
   have further := announced.concat (neutral_own (e := .call
    (.openBlob rs.opened rs.reference m.sha256 m.size.toInt64 none)) rfl (by simp) id)
   exact further.opening mem_events_last

theorem good_layerStart {m : Option LayerStart} (guarded : Guarded (Law same cfg) h)
  (sound : Sound cfg h rs) (heard : .heard (.layerStart m) ∈ h) :
  Good same cfg h rs.log (layerStart cfg a rs m) := by
 unfold layerStart
 cases checked : checkLayerStart cfg rs m with
 | error err => exact good_fail guarded rfl
 | ok x =>
  obtain ⟨state, rfl, index⟩ := checkLayerStart_ok checked
  have announced := announced_of_sound sound state heard index
  have lawful : ∀ found, Guarded (Law same cfg)
    (h ++ [.own (.call (.blobExists rs.reference x.sha256 found))]) :=
   fun found => guarded_concat guarded (law_own guarded rfl announced.filling.admitted)
  dsimp only
  cases a.sink.blobExists rs.reference x.sha256 with
  | error err => exact good_after (good_fail (lawful _) rfl)
  | ok present =>
   have asked := announced.noted rs.receiver
    (neutral_own (e := .call (.blobExists rs.reference x.sha256 (.ok present))) rfl (by simp) id)
   cases present with
   | true => exact good_after (good_send (lawful _) rfl (asked.skipping mem_events_last))
   | false => exact good_after (good_openLayer (lawful _) rfl asked)

variable {payload : Bytes}

section

variable (small : payload.length ≤ maxFrameSize) (guarded : Guarded (Law same cfg) h)
 (total : rs.totalBytes = UInt64.ofNat (accepted h))
 (within : overQuota cfg (rs.totalBytes + UInt64.ofNat payload.length) = false)

include small guarded total within

theorem quota_accepts (positive : 0 < cfg.maxBytes.toNat) (below : cfg.maxBytes.toNat < 2 ^ 63) :
  accepted h + payload.length ≤ cfg.maxBytes.toNat := by
 have before := quota_of_guarded guarded positive below
 have frame : payload.length ≤ 2 ^ 22 := small
 have sum : (rs.totalBytes + UInt64.ofNat payload.length).toNat = accepted h + payload.length := by
  rw [total, ← UInt64.ofNat_add, UInt64.toNat_ofNat', Nat.mod_eq_of_lt]
  omega
 unfold overQuota at within
 rw [Bool.and_eq_false_iff, decide_eq_false_iff_not, decide_eq_false_iff_not] at within
 rcases within with unset | fits
 · have set_quota : (0 : UInt64) < cfg.maxBytes := UInt64.lt_iff_toNat_lt.mpr positive
   exact absurd set_quota unset
 · rw [UInt64.not_lt, UInt64.le_iff_toNat_le, sum] at fits
   exact fits

theorem guarded_payload (takes : acceptedOf (.own e) = payload) (law : EventLaw same cfg h e) :
  Guarded (Law same cfg) (h ++ [.own e]) := by
 refine guarded_concat guarded ⟨fun positive below => ?_, fun x is => by cases is; exact law⟩
 rw [accepted_concat, takes]
 exact quota_accepts small guarded total within positive below

end

theorem good_throttle (guarded : Guarded (Law same cfg) h) (is : rs.log = log)
  (sound : Sound cfg h rs) :
  Good same cfg h log (throttle cfg a rs) := by
 unfold throttle
 split
 · exact good_goes guarded is sound
 · cases a.waiting with
   | none => exact good_goes guarded is sound
   | some err => exact good_ended guarded is

theorem total_payload (total : rs.totalBytes = UInt64.ofNat (accepted h)) :
  rs.totalBytes + UInt64.ofNat payload.length = UInt64.ofNat (accepted h + payload.length) := by
 rw [total, UInt64.ofNat_add]

theorem good_streamData (small : payload.length ≤ maxFrameSize)
  (guarded : Guarded (Law same cfg) h) (sound : Sound cfg h rs) (state : rs.state = .streaming) :
  Good same cfg h rs.log (streamData cfg a rs payload) := by
 have flowing := sound.place
 rw [state] at flowing
 unfold streamData
 split
 · exact good_fail guarded rfl
 · split
   · exact good_fail guarded rfl
   · rename_i within
     dsimp only
     split
     · rename_i empty
       subst empty
       refine good_throttle guarded rfl ⟨total_payload sound.total, sound.fresh, ?_⟩
       show Place cfg h _ rs.state
       rw [state]
       exact ⟨flowing.admitted, flowing.streaming⟩
     · have fed : ∀ answer, Guarded (Law same cfg) (h ++ [.own (.feedIngest payload answer)]) :=
        fun answer => guarded_payload small guarded sound.total (Bool.not_eq_true _ ▸ within)
         rfl trivial
       cases a.feedIngest payload with
       | some err => exact good_after (good_fail (fed _) rfl)
       | none =>
        refine good_after (good_throttle (fed _) rfl ⟨?_, ?_, ?_⟩)
        · rw [accepted_concat]
          exact total_payload sound.total
        · exact fresh_concat (by simp) sound.fresh
        · show Place cfg _ _ rs.state
          rw [state]
          exact ⟨flowing.admitted.append, streaming_concat flowing.streaming
           fun x is => by cases is; exact id⟩

theorem received_payload {received size : Int64} {n : Nat}
  (small : payload.length ≤ maxFrameSize) (counted : received.toInt = n)
  (before : n = 0 ∨ (n : Int) ≤ size.toInt) (fits : Int64.ofNat payload.length ≤ size - received) :
  (received + Int64.ofNat payload.length).toInt = ((n + payload.length : Nat) : Int) ∧
   ((n + payload.length : Nat) : Int) ≤ size.toInt := by
 have frame : payload.length ≤ 2 ^ 22 := small
 have length : (Int64.ofNat payload.length).toInt = payload.length :=
  Int64.toInt_ofNat_of_lt (by omega)
 have top := size.toInt_lt
 have bottom := size.le_toInt
 rw [Int64.le_iff_toInt_le, length, Int64.toInt_sub, counted] at fits
 have difference : (size.toInt - n).bmod (2 ^ 64) = size.toInt - n := by
  apply Int.bmod_eq_of_le
  · omega
  · omega
 rw [difference] at fits
 have sum : ((n : Int) + payload.length).bmod (2 ^ 64) = n + payload.length := by
  apply Int.bmod_eq_of_le
  · omega
  · omega
 rw [Int64.toInt_add, length, counted, sum]
 omega

variable {limit : Nat}

theorem sound_wrote {held : Held W} {value : W}
  (sound : Sound cfg h rs) (receiving : Receiving cfg h rs m limit) (state : rs.state = .receiving)
  (uploading : rs.skipped = false) (here : rs.receiver = some held)
  (small : payload.length ≤ maxFrameSize)
  (fits : Int64.ofNat payload.length ≤ m.size.toInt64 - rs.received) (log : List Event) :
  Sound cfg (h ++ [.own (.call (.write held.call payload (some (payload.length, none))))])
   (accept { rs with log := log, receiver := some ⟨held.call, value⟩, hashed :=
   rs.hashed ++ payload }
    payload) := by
 obtain ⟨same, known, opened, filled, whole⟩ := receiving.holding uploading held here
 obtain ⟨counted, before⟩ := receiving.counted uploading
 have amount := received_payload small counted
  (before.imp_left fun empty => by rw [empty]; rfl) fits
 have unmarked : ∀ e,
  (Item.own (.call (.write held.call payload (some (payload.length, none))))).event =
   some e → ¬ Marked e := by
  intro e is
  cases is
  exact id
 have filling := receiving.toFilling.concat rfl unmarked fun call bytes answer is => by
  cases is
  exact Nat.le_of_eq same.symm
 refine ⟨?_, fun call bytes answer inside => ?_, ?_⟩
 · rw [accepted_concat]
   exact total_payload sound.total
 · rcases List.mem_append.mp inside with earlier | now
   · exact sound.fresh call bytes answer earlier
   · cases List.mem_singleton.mp now
     exact known
 · show Place cfg _ _ rs.state
   rw [state]
   refine ⟨m, limit, filling.moved rfl rfl rfl rfl, receiving.bound, receiving.current,
    List.mem_append_left _ receiving.heard, receiving.index,
    fun skipped => mem_events_concat (receiving.present skipped), fun _ => ?_, ?_⟩
   · show (rs.received + Int64.ofNat payload.length).toInt = ((rs.hashed ++ payload).length : Int) ∧
      (rs.hashed ++ payload = [] ∨ ((rs.hashed ++ payload).length : Int) ≤ m.size.toInt64.toInt)
     rw [List.length_append]
     exact ⟨amount.1, .inr amount.2⟩
   · rintro - _ ⟨⟩
     refine ⟨same, known, mem_events_concat opened, ?_, ?_⟩
     · rw [written_append, filled]
       unfold written
       rw [List.flatMap_singleton, writtenOf_write]
       rfl
     · intro bytes answer inside
       rcases List.mem_append.mp inside with earlier | now
       · exact whole bytes answer earlier
       · cases List.mem_singleton.mp now
         rfl

theorem good_layerData (small : payload.length ≤ maxFrameSize)
  (guarded : Guarded (Law same cfg) h) (sound : Sound cfg h rs) :
  Good same cfg h rs.log (layerData cfg a rs payload) := by
 unfold layerData
 cases checked : checkData cfg rs payload with
 | error err => exact good_fail guarded rfl
 | ok x =>
  obtain ⟨state, uploading, fits, within⟩ := checkData_ok checked
  have place := sound.place
  rw [state] at place
  obtain ⟨m, limit, receiving⟩ := place
  dsimp only
  split
  · rename_i empty
    have same : accept rs payload = rs := by
     subst empty
     simp [accept]
    rw [same]
    exact good_throttle guarded rfl sound
  · split
    · exact good_ended guarded rfl
    · rename_i held here
      have handed : ∀ answer,
       Guarded (Law same cfg) (h ++ [.own (.call (.write held.call payload answer))]) :=
       fun answer => guarded_payload small guarded sound.total within rfl trivial
      split
      · exact good_after (good_ended (handed _) rfl)
      · rename_i value n error wrote
        cases error with
        | some err => exact good_after (good_fail (handed _) rfl)
        | none =>
         dsimp only
         split
         · exact good_after (good_fail (handed _) rfl)
         · rename_i whole
           obtain rfl := not_not.mp whole
           refine good_after (good_throttle (handed _) rfl ?_)
           exact sound_wrote sound receiving state uploading here small (fits m receiving.current) _

theorem good_data (small : payload.length ≤ maxFrameSize)
  (guarded : Guarded (Law same cfg) h) (sound : Sound cfg h rs) :
  Good same cfg h rs.log (data cfg a rs payload) := by
 unfold data
 split
 · rename_i state
   exact good_streamData small guarded sound state
 · exact good_layerData small guarded sound

structure Appended (cfg : SessionConfig) (h : List Item) (rs : RunState W) :
  Prop extends Standing cfg h rs 0 [] where
 state : rs.state = .ready

theorem Appended.sound (appended : Appended cfg h rs) {b : BackupStart}
  (started : rs.start = some b)
  (lacking : UInt32.ofNat rs.layers.length ≠ b.layerCount) : Sound cfg h rs := by
 obtain ⟨⟨total, fresh, filling⟩, state⟩ := appended
 refine ⟨total, fresh, ?_⟩
 rw [state]
 obtain ⟨b', is, names, room, few⟩ := filling.start
 rw [started] at is
 cases is
 refine ⟨⟨b, started, names, ?_, few⟩, filling.admitted, filling.unmarked, filling.ends,
  filling.settled,
  filling.ingest⟩
 have short : rs.layers.length ≠ b.layerCount.toNat := by
  intro full
  apply lacking
  rw [full]
  exact UInt32.ofNat_toNat
 omega

theorem Appended.lawful (appended : Appended cfg h rs) {b : BackupStart}
  (started : rs.start = some b)
  (full : UInt32.ofNat rs.layers.length = b.layerCount) (answer : Except Str Str) :
  EventLaw same cfg h (.call (.commitBackup ⟨rs.sessionId, b, rs.layers⟩ answer)) := by
 have filling := appended.filling
 obtain ⟨b', is, names, room, few⟩ := filling.start
 rw [started] at is
 cases is
 have small : rs.layers.length < 2 ^ 32 := by
  have bound : maxDataLayers < 2 ^ 32 := by decide
  omega
 have count : rs.layers.length = b.layerCount.toNat := by
  rw [← full, UInt32.toNat_ofNat', Nat.mod_eq_of_lt small]
 refine ⟨?_, ⟨count, filling.ends.trans (List.append_nil _), ?_⟩, ?_, ?_⟩
 · rw [names]
   exact filling.admitted
 · intro k layer place
   obtain ⟨index, m, heard, named, digest, blob⟩ := filling.settled k layer place
   refine ⟨index, m, heard, named, digest, ?_⟩
   rw [names]
   exact blob.imp_right fun ⟨call, _, stored⟩ => ⟨call, stored⟩
 · exact fun backup answer inside => filling.unmarked _ inside trivial
 · exact fun m error inside => filling.unmarked _ inside trivial

theorem good_publishLast (guarded : Guarded (Law same cfg) h) (is : rs.log = log)
  (appended : Appended cfg h rs) : Good same cfg h log (publishLast a rs) := by
 subst is
 unfold publishLast
 split
 · exact good_ended guarded rfl
 · rename_i b started
   split
   · rename_i lacking
     exact good_goes guarded rfl (appended.sound started lacking)
   · rename_i full
     have lawful := fun answer => guarded_concat guarded
      (law_own (e := .call (.commitBackup ⟨rs.sessionId, b, rs.layers⟩ answer)) guarded rfl
       (appended.lawful started (not_not.mp full) answer))
     dsimp only
     cases a.sink.commitBackup ⟨rs.sessionId, b, rs.layers⟩ with
     | error err => exact good_after (good_fail (lawful _) rfl)
     | ok digest =>
      refine good_after (good_send (lawful _) rfl ⟨?_, ?_, trivial⟩)
      · rw [accepted_append]
        exact appended.total
      · exact fresh_concat (by simp) appended.fresh

def Kept (h : List Item) (rs : RunState W) (m : LayerStart) : Prop :=
 .call (.blobExists rs.reference m.sha256 (.ok true)) ∈ events h ∨
  ∃ call, call < rs.opened ∧ Stored h rs.reference m call

theorem Announced.appended (closing : Announced cfg h rs [some ⟨m.index, m.sha256⟩] m)
  (kept : Kept h rs m) :
  Appended cfg h (endLayer rs m) := by
 have filling := closing.filling
 obtain ⟨b, started, names, room, few⟩ := filling.start
 have number : m.index.toNat = rs.layers.length := by
  have bound : maxDataLayers < 2 ^ 32 := by decide
  rw [closing.index, UInt32.toNat_ofNat', Nat.mod_eq_of_lt]
  omega
 refine ⟨⟨closing.total, closing.fresh, ⟨b, started, names, ?_, few⟩, filling.admitted,
  filling.unmarked,
  ?_, ?_, filling.ingest⟩, rfl⟩
 · show (rs.layers ++ [_]).length + 0 ≤ _
   rw [List.length_append]
   exact room
 · show _ = List.map _ (rs.layers ++ [_]) ++ []
   rw [List.map_append, List.append_nil]
   exact filling.ends
 · intro k layer place
   change (rs.layers ++ [_])[k]? = some layer at place
   rcases Nat.lt_or_ge k rs.layers.length with early | late
   · rw [List.getElem?_append_left early] at place
     exact filling.settled k layer place
   · rw [List.getElem?_append_right late] at place
     have last : k - rs.layers.length = 0 := by
      by_contra further
      rw [List.getElem?_singleton, if_neg further] at place
      cases place
     rw [last] at place
     cases place
     have here : k = rs.layers.length := by omega
     subst here
     exact ⟨number, m, closing.heard, number, rfl, kept⟩

theorem good_sealLayer (guarded : Guarded (Law same cfg) h) (is : rs.log = log)
  (closing : Announced cfg h rs [some ⟨m.index, m.sha256⟩] m) (kept : Kept h rs m) :
  Good same cfg h log (sealLayer a rs m) := by
 subst is
 have lawful : ∀ message answer, Guarded (Law same cfg) (h ++ [.own (.sent message answer)]) :=
  fun message answer => guarded_concat guarded (law_quit guarded trivial)
 unfold sealLayer
 dsimp only
 split
 · exact good_after (good_ended (lawful _ _) rfl)
 · refine good_after (good_publishLast (lawful _ _) rfl ?_)
   have appended := closing.appended kept
   exact ⟨appended.toStanding.noted none (neutral_own rfl (by simp) id), appended.state⟩

theorem closing_of_receiving (receiving : Receiving cfg h rs m limit) (sound : Sound cfg h rs) :
  Announced cfg (h ++ [.heard (.layerEnd (some ⟨m.index, m.sha256⟩))]) rs
  [some ⟨m.index, m.sha256⟩] m where
 total := by
  rw [accepted_append]
  exact sound.total
 fresh := fresh_concat (by simp) sound.fresh
 filling :=
  { start := receiving.start
    admitted := receiving.admitted.append
    unmarked := receiving.unmarked.concat fun e is => by cases is
    ends := by
     rw [ends_append, receiving.ends, List.append_nil]
     rfl
    settled := (receiving.toFilling.limit_le receiving.bound).settled_concat
     fun call payload answer is => by cases is
    ingest := receiving.ingest }
 heard := List.mem_append_left _ receiving.heard
 index := receiving.index

theorem declared_size {size : UInt64} {n : Nat} (reached : size.toInt64.toInt = n) :
  n = size.toNat := by
 have bound := size.toNat_lt
 have read : size.toInt64.toInt = (size.toNat : Int).bmod (2 ^ 64) := by
  rw [← UInt64.toNat_toBitVec, ← BitVec.toInt_eq_toNat_bmod]
  rfl
 rw [read, Int.bmod_def] at reached
 split at reached <;> omega

theorem stored_of_receiving {held : Held W} {heard : ClientMessage}
  (receiving : Receiving cfg h rs m limit) (uploading : rs.skipped = false)
  (here : rs.receiver = some held) (received : rs.received = m.size.toInt64)
  (digest : digestText rs.hashed = m.sha256) :
  Stored (h ++ [.heard heard] ++ [.own (.call (.commit held.call (some none)))]) rs.reference m
  held.call := by
 obtain ⟨-, -, opened, filled, whole⟩ := receiving.holding uploading held here
 have counted := (receiving.counted uploading).1
 rw [received] at counted
 have content : written held.call
  (h ++ [.heard heard] ++ [.own (.call (.commit held.call (some none)))]) =
   rs.hashed := by
  rw [written_concat (by simp), written_concat (by simp)]
  exact filled
 constructor
 · exact mem_events_concat (mem_events_concat opened)
 · rw [content]
   exact declared_size counted
 · rw [content]
   exact digest
 · exact whole_concat (whole_concat whole (by simp)) (by simp)
 · exact mem_events_last

theorem good_layerEnd {m : Option LayerEnd}
  (guarded : Guarded (Law same cfg) (h ++ [.heard (.layerEnd m)])) (sound : Sound cfg h rs) :
  Good same cfg (h ++ [.heard (.layerEnd m)]) rs.log (layerEnd a rs m) := by
 unfold layerEnd
 cases checked : checkLayerEnd rs m with
 | error err => exact good_fail guarded rfl
 | ok x =>
  obtain ⟨state, current, rfl, whole⟩ := checkLayerEnd_ok checked
  have place := sound.place
  rw [state] at place
  obtain ⟨y, limit, receiving⟩ := place
  rw [receiving.current] at current
  cases current
  have closing := closing_of_receiving receiving sound
  have lawful : ∀ call answer, Guarded (Law same cfg)
    (h ++ [.heard (.layerEnd (some ⟨x.index, x.sha256⟩))] ++
     [.own (.call (.commit call answer))]) :=
   fun call answer => guarded_concat guarded (law_own guarded rfl trivial)
  dsimp only
  split
  · rename_i skipped
    exact good_sealLayer guarded rfl closing (.inl (mem_events_concat (receiving.present skipped)))
  · rename_i skipping
    have uploading : rs.skipped = false := Bool.not_eq_true _ ▸ skipping
    obtain ⟨received, digest⟩ := whole uploading
    split
    · exact good_ended guarded rfl
    · rename_i held here
      split
      · exact good_after (good_ended (lawful _ _) rfl)
      · rename_i value error committed
        cases error with
        | some err => exact good_after (good_fail (lawful _ _) rfl)
        | none =>
         refine good_after (good_sealLayer (lawful _ _) rfl ?_ ?_)
         · exact closing.noted _ (neutral_own rfl (by simp) id)
         · refine .inr ⟨held.call, (receiving.holding uploading held here).2.known, ?_⟩
           exact (stored_of_receiving receiving uploading here received digest :)

theorem good_streamStart {m : Option StreamStart} (guarded : Guarded (Law same cfg) h)
  (sound : Sound cfg h rs) (heard : .heard (.streamStart m) ∈ h) :
  Good same cfg h rs.log (streamStart cfg a rs m) := by
 unfold streamStart
 cases checked : checkStreamStart cfg a rs m with
 | error err => exact good_fail guarded rfl
 | ok x =>
  obtain ⟨state, rfl, allowed⟩ := checkStreamStart_ok checked
  have place := sound.place
  rw [state] at place
  obtain ⟨idle, greeted⟩ := place
  have admitted : Admitted cfg h x.reference := ⟨greeted, allowed, .inr ⟨x, heard, rfl⟩⟩
  have unpublished : Unpublished h := fun backup answer inside => idle.unmarked _ inside trivial
  have lawful : ∀ error, Guarded (Law same cfg) (h ++ [.own (.startIngest x error)]) :=
   fun error => guarded_concat guarded (law_own guarded rfl ⟨admitted, unpublished⟩)
  dsimp only
  cases scopeOf a x.reference with
  | error err => exact good_fail guarded rfl
  | ok request =>
   dsimp only
   cases a.startIngest x with
   | some err => exact good_after (good_fail (lawful _) rfl)
   | none =>
    refine good_after (good_send (lawful _) rfl ⟨?_, ?_, ?_⟩)
    · rw [accepted_append]
      exact sound.total
    · exact fresh_concat (by simp) sound.fresh
    · refine ⟨admitted.append, ⟨x, mem_events_last⟩, fun e inside => ?_, fun inside => ?_⟩
      · rcases mem_events_cases inside with before | now
        · exact idle.unmarked _ before trivial
        · cases now
      · rcases mem_events_cases inside with before | now
        · exact idle.unmarked _ before trivial
        · cases now

theorem good_streamEnd {m : Option StreamEnd} (exact_count : ∀ n, same (UInt64.ofNat n) n)
  (guarded : Guarded (Law same cfg) (h ++ [.heard (.streamEnd m)])) (sound : Sound cfg h rs) :
  Good same cfg (h ++ [.heard (.streamEnd m)]) rs.log (streamEnd a rs m) := by
 unfold streamEnd
 cases checked : checkStreamEnd rs m with
 | error err => exact good_fail guarded rfl
 | ok x =>
  obtain ⟨state, declared⟩ := checkStreamEnd_ok checked
  have flowing := sound.place
  rw [state] at flowing
  have lawful : ∀ error, Guarded (Law same cfg)
    (h ++ [.heard (.streamEnd m)] ++ [.own (.finishIngest error)]) := by
   intro error
   refine guarded_concat guarded (law_own guarded rfl ⟨h, m, rfl, flowing.streaming, ?_⟩)
   refine declared.imp_right fun equal => ?_
   change rawBytes m = rs.totalBytes at equal
   rw [equal, sound.total]
   exact exact_count _
  have reported : ∀ error message answer, Guarded (Law same cfg)
    (h ++ [.heard (.streamEnd m)] ++ [.own (.finishIngest error)] ++
     [.own (.sent message answer)]) :=
   fun error message answer => guarded_concat (lawful error) (law_quit (lawful error) trivial)
  dsimp only
  split
  · exact good_after (good_fail (lawful _) rfl)
  · split
    · exact good_after (good_after (good_ended (reported _ _ _) rfl))
    · refine good_after (good_after (good_send (reported _ _ _) rfl ⟨?_, ?_, trivial⟩))
      · rw [accepted_append, accepted_append, accepted_append]
        exact sound.total
      · exact fresh_concat (by simp) (fresh_concat (by simp) (fresh_concat (by simp) sound.fresh))

end Steps

end BackImage.Server.SessionHandlers
