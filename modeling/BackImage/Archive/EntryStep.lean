/- source: pkg/archive/writer.go
  digest: What one entry of the walk changes, whether it is left out, stored or fails. -/

import BackImage.Archive.Writer

namespace BackImage.Archive.EntryStep

open Writer Go Go.ModeBits Go.Text Lib.Sequence
open Go.Sha256 (sum256)

/-- Only what is reported has changed: the archive and what the walk remembers are the same. -/
structure Quiet (w w' : TarWriter) : Prop where
 tw : w'.tw = w.tw
 counters : w'.stats.counters = w.stats.counters
 entries : w'.entries = w.entries
 links : w'.links = w.links
 rootBases : w'.rootBases = w.rootBases
 devSeen : w'.devSeen = w.devSeen

theorem Quiet.refl (w : TarWriter) : Quiet w w := ⟨rfl, rfl, rfl, rfl, rfl, rfl⟩

theorem Quiet.trans {u v w : TarWriter} (first : Quiet u v) (second : Quiet v w) : Quiet u w where
 tw := second.tw.trans first.tw
 counters := second.counters.trans first.counters
 entries := second.entries.trans first.entries
 links := second.links.trans first.links
 rootBases := second.rootBases.trans first.rootBases
 devSeen := second.devSeen.trans first.devSeen

section Reports

variable (w : TarWriter)

theorem quiet_skip : Quiet w w.skip := ⟨rfl, rfl, rfl, rfl, rfl, rfl⟩

theorem quiet_note (err : WalkError) : Quiet w (w.note err) := ⟨rfl, rfl, rfl, rfl, rfl, rfl⟩

theorem quiet_warnOnce (msg : Str) : Quiet w (w.warnOnce msg) := by
 unfold TarWriter.warnOnce
 split
 · exact Quiet.refl w
 · exact ⟨rfl, rfl, rfl, rfl, rfl, rfl⟩

theorem quiet_lose (lost : Option WalkError) : Quiet w (w.lose lost) := by
 cases lost with
 | none => exact Quiet.refl w
 | some err =>
  have counted : Quiet w ({ w with stats.xattrsSkipped := w.stats.xattrsSkipped + 1 }.note err) :=
   ⟨rfl, rfl, rfl, rfl, rfl, rfl⟩
  exact counted.trans (quiet_warnOnce _ _)

theorem quiet_leaveEmpty (err : WalkError) : Quiet w (w.leaveEmpty err) := by
 have counted : Quiet w { w.note err with stats.contentSkipped := w.stats.contentSkipped + 1 } :=
  ⟨rfl, rfl, rfl, rfl, rfl, rfl⟩
 exact counted.trans (quiet_warnOnce _ _)

theorem quiet_handleWalkError (opts : Options) (err : WalkError) :
  Quiet w (handleWalkError opts err w).state := by
 unfold handleWalkError
 split
 · exact Quiet.refl w
 · exact (quiet_note w err).trans (quiet_skip _)

end Reports

structure Drafted (arcPath : Str) (st : FileInfo) (d : Entry) : Prop where
 path : d.path = arcPath
 mode : d.mode = permissions st.mode
 modTime : d.modTime = st.modTime
 digest : d.sha256 = []
 notLink : d.type ≠ .hardlink
 size : 0 ≤ d.size
 bare : d.type ≠ .regular → d.size = 0
 target : d.type = .symlink → d.linkTarget ≠ []
 noTarget : d.type ≠ .symlink → d.linkTarget = []
 keys : ∀ x ∈ d.xattrs, x.1 ≠ []

variable {opts : Options} {a : Answers} {st : FileInfo} {d : Entry} {dirFile : Option Descriptor}
 {ar : Archiver}

section Drafts

variable {arcPath fsPath : Str}

theorem classify_object {type : EntryType} {size : Int64} {target : Str}
  (shape : classify fsPath a st = .object type size target) :
  type = .symlink ∧ size = 0 ∧ target ≠ [] ∨ type = .regular ∧ size = st.size ∧ target = [] ∨
   (type ≠ .hardlink ∧ type ≠ .symlink ∧ type ≠ .regular) ∧ size = 0 ∧ target = [] := by
 unfold classify at shape
 split at shape
 · split at shape
   · cases shape
   · rename_i target _
     cases shape
     exact .inl ⟨rfl, rfl, target.filled⟩
 · split at shape
   · cases shape
     exact .inr (.inl ⟨rfl, rfl, rfl⟩)
   · refine .inr (.inr ?_)
     split at shape
     · cases shape
       exact ⟨by decide, rfl, rfl⟩
     · split at shape
       · cases shape
         exact ⟨by decide, rfl, rfl⟩
       · split at shape
         · cases shape
           exact ⟨by decide, rfl, rfl⟩
         · split at shape
           · cases shape
             exact ⟨by decide, rfl, rfl⟩
           · split at shape
             · cases shape
             · cases shape

/-- `readMeta` touches neither the name nor what the switch has set. -/
structure Described (st : FileInfo) (e e' : Entry) : Prop where
 path : e'.path = e.path
 type : e'.type = e.type
 size : e'.size = e.size
 mode : e'.mode = e.mode
 linkTarget : e'.linkTarget = e.linkTarget
 sha256 : e'.sha256 = e.sha256
 modTime : e'.modTime = st.modTime
 keys : e'.xattrs = e.xattrs ∨ ∀ x ∈ e'.xattrs, x.1 ≠ []

theorem described_of_readMeta {numeric preserve : Bool} {f : Option Descriptor} {e : Entry}
  {lost : Option OsError} (made : readMeta numeric preserve a f st e = (d, lost)) :
  Described st e d := by
 unfold readMeta at made
 dsimp only at made
 split at made
 · split at made
   · cases made
     exact ⟨rfl, rfl, rfl, rfl, rfl, rfl, rfl, .inl rfl⟩
   · cases made
     refine ⟨rfl, rfl, rfl, rfl, rfl, rfl, rfl, .inr ?_⟩
     intro x inside
     have kept := (List.mem_filter.mp inside).2
     simpa using kept
 · cases made
   exact ⟨rfl, rfl, rfl, rfl, rfl, rfl, rfl, .inl rfl⟩

variable {lost : Option WalkError} {file : Except OsError Descriptor}

theorem described_of_draft (drafted : draft opts arcPath fsPath a st dirFile = .entry d lost file) :
  ∃ type size target, classify fsPath a st = .object type size target ∧
   Described st ⟨arcPath, type, size, permissions st.mode, 0, 0, [], [], 0, 0, 0, target, 0, 0,
    [], 0, []⟩
    d := by
 unfold draft at drafted
 grind [draft, described_of_readMeta]

theorem drafted_of_draft
  (drafted : draft opts arcPath fsPath a st dirFile = .entry d lost file) :
  Drafted arcPath st d := by
 obtain ⟨type, size, target, shape, path, kind, length, mode, link, digest, time, keys⟩ :=
  described_of_draft drafted
 have typed : d.type ≠ .hardlink ∧ 0 ≤ d.size ∧ (d.type ≠ .regular → d.size = 0) ∧
   (d.type = .symlink → d.linkTarget ≠ []) ∧ (d.type ≠ .symlink → d.linkTarget = []) := by
  rw [kind, length, link]
  dsimp only
  rcases classify_object shape with ⟨rfl, rfl, filled⟩ | ⟨rfl, rfl, rfl⟩ |
   ⟨⟨notLink, notSymlink, -⟩, rfl, rfl⟩
  · exact ⟨by decide, by decide, fun _ => rfl, fun _ => filled, fun other => absurd rfl other⟩
  · exact ⟨by decide, st.sized, fun other => absurd rfl other,
     fun other => (by cases other), fun _ => rfl⟩
  · exact ⟨notLink, by decide, fun _ => rfl, fun is => absurd is notSymlink, fun _ => rfl⟩
 obtain ⟨notLink, sized, bare, filled, none_there⟩ := typed
 refine ⟨path, mode, time, digest, notLink, sized, bare, filled, none_there, ?_⟩
 rcases keys with none_read | named
 · intro x inside
   rw [none_read] at inside
   cases inside
 · exact named

end Drafts

/-- The draft of an entry with its offset and digest filled in; the size is the one found or
none. -/
structure Finished (d e : Entry) : Prop where
 path : e.path = d.path
 type : e.type = d.type
 mode : e.mode = d.mode
 modTime : e.modTime = d.modTime
 linkTarget : e.linkTarget = d.linkTarget
 xattrs : e.xattrs = d.xattrs
 size : e.size = d.size ∨ e.size = 0
 digest : e.type ≠ .regular → e.sha256 = d.sha256

/-- What a call for one entry may leave behind, also when it fails: at most this entry is appended,
and the hard links are the given ones. -/
structure Leaves (d : Entry) (links : List (HardlinkKey × Str)) (w w' : TarWriter) : Prop where
 links : w'.links = links
 rootBases : w'.rootBases = w.rootBases
 devSeen : w'.devSeen = w.devSeen
 entries : w'.entries = w.entries ∨ ∃ e, Finished d e ∧ w'.entries = w.entries ++ [e]

/-- The entry stands in the archive: its header behind the padding that was due, then its
content. -/
structure Stored (ar : Archiver) (w : TarWriter) (e : Entry) (content : Bytes) (w' : TarWriter) :
  Prop where
 entries : w'.entries = w.entries ++ [e]
 complete : w.tw.left = 0
 offset : e.tarOffset = nextHeader w.written
 fits : content.length ≤ (headerOf ar.opts e).payload
 tar : ∃ blocks, ar.format.encode (headerOf ar.opts e) = .ok blocks ∧
  w'.tw = ⟨w.tw.out ++ Tar.zeros w.tw.pad ++ blocks ++ content,
   (headerOf ar.opts e).payload - content.length, Tar.padding (headerOf ar.opts e).payload⟩
 counters : w'.stats.counters = w.stats.counters.add e.type (Int64.ofNat content.length)
 digest : e.type = .regular → e.sha256 = hexEncode (sum256 content)
 bare : e.type ≠ .regular → content = []

section Store

variable {fsPath : Str} {file : Option Descriptor} {w w' : TarWriter}

theorem finished_digest (regular : d.type = .regular) (digest : Str) (offset : Int64) :
  Finished d { d with tarOffset := offset, sha256 := digest } :=
 ⟨rfl, rfl, rfl, rfl, rfl, rfl, .inl rfl, fun other => absurd regular other⟩

theorem leaves_settle {content : Bytes} {offset : Int64} {sent : Tar.Output}
  (regular : d.type = .regular) : Leaves d w.links w
   (settle opts { d with tarOffset := offset } fsPath content { w with tw := sent }).state := by
 have finished := finished_digest regular (hexEncode (sum256 content)) offset
 unfold settle
 dsimp only
 split
 · split
   · exact ⟨rfl, rfl, rfl, .inl rfl⟩
   · exact ⟨rfl, rfl, rfl, .inr ⟨_, finished, rfl⟩⟩
 · exact ⟨rfl, rfl, rfl, .inr ⟨_, finished, rfl⟩⟩

theorem leaves_store : Leaves d w.links w (store ar d fsPath file w).state := by
 have idle : ∀ sent : Tar.Output, Leaves d w.links w { w with tw := sent } :=
  fun sent => ⟨rfl, rfl, rfl, .inl rfl⟩
 unfold store
 dsimp only
 apply andThen_state (idle _)
 intro _
 split
 · rename_i regular
   split
   · exact leaves_settle regular
   · apply andThen_state (idle _)
     intro _
     split
     · exact idle _
     · exact leaves_settle regular
 · refine ⟨rfl, rfl, rfl, .inr ⟨_, ?_, rfl⟩⟩
   exact ⟨rfl, rfl, rfl, rfl, rfl, rfl, .inl rfl, fun _ => rfl⟩

variable {content : Bytes}

theorem settle_eq_done (well : settle opts d fsPath content w = done w') :
  w'.entries = w.entries ++ [{ d with sha256 := hexEncode (sum256 content) }] ∧ w'.tw = w.tw ∧
   w'.stats.counters = w.stats.counters.add d.type (Int64.ofNat content.length) := by
 unfold settle at well
 dsimp only at well
 split at well
 · split at well
   · exact absurd well stop_ne_done
   · rw [← done_inj.mp well]
     exact ⟨rfl, rfl, rfl⟩
 · rw [← done_inj.mp well]
   exact ⟨rfl, rfl, rfl⟩

variable {e : Entry}

theorem payload_regular (opts : Options) (other : e.type ≠ .regular) :
  (headerOf opts e).payload = 0 := by
 cases kind : e.type with
 | regular => exact absurd kind other
 | dir | symlink | hardlink | charDevice | blockDevice | fifo =>
  simp [headerOf, Tar.Header.payload, kind, typeflag]

theorem stored_of_store (well : store ar d fsPath file w = done w') :
  ∃ e content, Finished d e ∧ Stored ar w e content w' := by
 unfold store at well
 dsimp only at well
 obtain ⟨sent, header, rest⟩ := andThen_eq_done.mp well
 obtain ⟨tw, headed, rfl⟩ := within_eq_done.mp header
 obtain ⟨complete, blocks, encoded, rfl⟩ := Tar.writeHeader_eq_done headed
 dsimp only at rest
 split at rest
 · rename_i regular
   -- the content that was copied, none of it where there is no descriptor
   obtain ⟨content, sent, short, copied, settled⟩ : ∃ content sent,
     content.length ≤ (headerOf ar.opts d).payload ∧
     sent =
      (⟨w.tw.out ++ Tar.zeros w.tw.pad ++ blocks ++ content,
       (headerOf ar.opts d).payload - content.length,
      Tar.padding (headerOf ar.opts d).payload⟩ : Tar.Output) ∧
     settle ar.opts { d with tarOffset := nextHeader w.written } fsPath content
      { w with tw := sent } = done w' := by
    split at rest
    · refine ⟨[], _, Nat.zero_le _, ?_, rest⟩
      rw [List.append_nil]
      rfl
    · obtain ⟨after, wrote, last⟩ := andThen_eq_done.mp rest
      obtain ⟨tw, written, rfl⟩ := within_eq_done.mp wrote
      obtain ⟨short, rfl⟩ := Tar.write_eq_done written
      split at last
      · exact absurd last stop_ne_done
      · exact ⟨_, _, short, rfl, last⟩
   obtain ⟨entries, tw, counters⟩ := settle_eq_done settled
   have finished := finished_digest regular (hexEncode (sum256 content)) (nextHeader w.written)
   exact ⟨_, content, finished, entries, complete, rfl, short,
    ⟨blocks, encoded, by rw [tw, copied]; rfl⟩,
    counters, fun _ => rfl, fun other => absurd regular other⟩
 · rename_i other
   have empty : (headerOf ar.opts d).payload = 0 := payload_regular ar.opts other
   rw [← done_inj.mp rest]
   refine ⟨{ d with tarOffset := nextHeader w.written }, [],
    ⟨rfl, rfl, rfl, rfl, rfl, rfl, .inl rfl, fun _ => rfl⟩, rfl, complete, rfl, Nat.zero_le _,
    ⟨blocks, encoded, ?_⟩, rfl, fun regular => absurd regular other, fun _ => rfl⟩
   rw [List.append_nil]
   rfl

theorem Stored.from {v : TarWriter} (stored : Stored ar v e content w')
  (tw : v.tw = w.tw) (entries : v.entries = w.entries)
  (counters : v.stats.counters = w.stats.counters) : Stored ar w e content w' := by
 have written : v.written = w.written := by rw [TarWriter.written, TarWriter.written, tw]
 refine ⟨?_, ?_, ?_, stored.fits, ?_, ?_, stored.digest, stored.bare⟩
 · rw [← entries]
   exact stored.entries
 · rw [← tw]
   exact stored.complete
 · rw [← written]
   exact stored.offset
 · rw [← tw]
   exact stored.tar
 · rw [← counters]
   exact stored.counters

end Store

theorem groupLinks_cases (st : FileInfo) (d : Entry) (links : List (HardlinkKey × Str)) :
  groupLinks st d links = (d, links) ∨
   (∃ key, d.type = .regular ∧ groupLinks st d links = (d, (key, d.path) :: links)) ∨
   ∃ key first, d.type = .regular ∧ (key, first) ∈ links ∧
    groupLinks st d links =
     ({ d with type := .hardlink, linkTarget := first, size := 0 }, links) := by
 unfold groupLinks
 split
 · rename_i regular
   split
   · exact .inl rfl
   · rename_i key _
     split
     · rename_i first found
       have inside : (key, first) ∈ links := by
        obtain ⟨front, back, split, -⟩ := List.lookup_eq_some_iff.mp found
        rw [split]
        exact List.mem_append_right _ List.mem_cons_self
       exact .inr (.inr ⟨key, first, regular, inside, rfl⟩)
     · exact .inr (.inl ⟨key, regular, rfl⟩)
 · exact .inl rfl

section Emit

variable {arcPath fsPath : Str} {file : Except OsError Descriptor} {w w' : TarWriter}

theorem Finished.ofEmpty {e : Entry} (finished : Finished { d with size := 0 } e) :
  Finished d e := by
 refine ⟨finished.path, finished.type, finished.mode, finished.modTime, finished.linkTarget,
  finished.xattrs, .inr ?_, finished.digest⟩
 rcases finished.size with zero | zero
 · exact zero
 · exact zero

theorem leaves_writeEntry : Leaves (groupLinks st d w.links).1 (groupLinks st d w.links).2 w
   (writeEntry ar d fsPath st file w).state := by
 unfold writeEntry
 dsimp only
 split
 · split
   · exact ⟨leaves_store.links, leaves_store.rootBases, leaves_store.devSeen, leaves_store.entries⟩
   · split
     · have quiet := quiet_handleWalkError { w with links := (groupLinks st d w.links).2 } ar.opts
        (.opening fsPath (by assumption))
       exact ⟨quiet.links, quiet.rootBases, quiet.devSeen, .inl quiet.entries⟩
     · rename_i cause _
       have quiet := quiet_leaveEmpty { w with links := (groupLinks st d w.links).2 }
        (.opening fsPath cause)
       refine ⟨leaves_store.links.trans quiet.links, leaves_store.rootBases.trans quiet.rootBases,
        leaves_store.devSeen.trans quiet.devSeen, ?_⟩
       rcases leaves_store.entries with none_added | ⟨e, finished, added⟩
       · exact .inl (none_added.trans quiet.entries)
       · refine .inr ⟨e, finished.ofEmpty, ?_⟩
         rw [added, quiet.entries]
 · exact ⟨leaves_store.links, leaves_store.rootBases, leaves_store.devSeen, leaves_store.entries⟩

theorem stored_of_writeEntry (well : writeEntry ar d fsPath st file w = done w') :
  ∃ e content, Finished (groupLinks st d w.links).1 e ∧ Stored ar w e content w' := by
 unfold writeEntry at well
 dsimp only at well
 split at well
 · split at well
   · obtain ⟨e, content, finished, stored⟩ := stored_of_store well
     exact ⟨e, content, finished, stored.from rfl rfl rfl⟩
   · rename_i cause
     split at well
     · rename_i strict
       rw [handleWalkError, if_pos strict] at well
       exact absurd well stop_ne_done
     · have quiet := quiet_leaveEmpty { w with links := (groupLinks st d w.links).2 }
        (.opening fsPath cause)
       obtain ⟨e, content, finished, stored⟩ := stored_of_store well
       exact ⟨e, content, finished.ofEmpty, stored.from quiet.tw quiet.entries quiet.counters⟩
 · obtain ⟨e, content, finished, stored⟩ := stored_of_store well
   exact ⟨e, content, finished, stored.from rfl rfl rfl⟩

theorem emitOne_state : Quiet w (emitOne ar arcPath fsPath a st dirFile w).state ∨
   ∃ d lost file, draft ar.opts arcPath fsPath a st dirFile = .entry d lost file ∧
    Leaves (groupLinks st d w.links).1 (groupLinks st d w.links).2 w
     (emitOne ar arcPath fsPath a st dirFile w).state := by
 unfold emitOne
 split
 · exact .inl (quiet_skip w)
 · exact .inl (quiet_handleWalkError w _ _)
 · rename_i d lost file drafted
   refine .inr ⟨d, lost, file, drafted, ?_⟩
   have quiet := quiet_lose w lost
   have left : Leaves _ _ (w.lose lost) (writeEntry ar d fsPath st file (w.lose lost)).state :=
    leaves_writeEntry
   rw [quiet.links] at left
   refine ⟨left.links, left.rootBases.trans quiet.rootBases, left.devSeen.trans quiet.devSeen, ?_⟩
   rw [← quiet.entries]
   exact left.entries

theorem emitOne_eq_done (well : emitOne ar arcPath fsPath a st dirFile w = done w') :
  ((∀ d lost file, draft ar.opts arcPath fsPath a st dirFile ≠ .entry d lost file) ∧ Quiet w w') ∨
   ∃ d lost file e content, draft ar.opts arcPath fsPath a st dirFile = .entry d lost file ∧
    Finished (groupLinks st d w.links).1 e ∧ Stored ar w e content w' ∧
    w'.links = (groupLinks st d w.links).2 := by
 unfold emitOne at well
 split at well
 · rename_i drafted
   refine .inl ⟨?_, ?_⟩
   · intro d lost file other
     rw [drafted] at other
     cases other
   · rw [← done_inj.mp well]
     exact quiet_skip w
 · rename_i err drafted
   refine .inl ⟨?_, ?_⟩
   · intro d lost file other
     rw [drafted] at other
     cases other
   · have quiet := quiet_handleWalkError w ar.opts err
     rw [well] at quiet
     exact quiet
 · rename_i d lost file drafted
   have quiet := quiet_lose w lost
   obtain ⟨e, content, finished, stored⟩ := stored_of_writeEntry well
   have left : Leaves _ _ (w.lose lost) (writeEntry ar d fsPath st file (w.lose lost)).state :=
    leaves_writeEntry
   rw [well] at left
   rw [quiet.links] at finished left
   exact .inr ⟨d, lost, file, e, content, drafted, finished,
    stored.from quiet.tw quiet.entries quiet.counters, left.links⟩

end Emit

end BackImage.Archive.EntryStep
