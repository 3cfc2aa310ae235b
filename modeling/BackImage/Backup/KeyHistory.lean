/- source: pkg/backup/pipeline.go, pkg/crypt/key.go
  digest: Over any sequence of runs, one key has one nonce mode and no nonce seals two texts. -/

import BackImage.Crypt.Envelope
import BackImage.Crypt.Integrity
import BackImage.Index.Model
import BackImage.Lib.Sequence

namespace BackImage.Backup.KeyHistory

open Crypt.Envelope Crypt.Integrity Go.Sha256 Go.Text Index.Model Lib.Sequence Lib.Reading
open Crypt.Integrity (SealCall)

structure DedupBase where
 manifest : Manifest
 keysPass : Bytes
 keys : Bytes

def DedupBase.keyFiles (base : DedupBase) : List Bytes := [base.keysPass, base.keys]

structure Sealing where
 drawn : Bytes
 role : Role
 chunkIndex : UInt32
 codec : Codec
 payload : Bytes

structure BackupRun where
 encrypt : Bool
 dedup : Bool
 rotateKey : Bool
 passphraseSet : Bool
 identity : Identity
 previous : Option DedupBase
 drawnDek : Bytes
 drawnNonceKey : Bytes
 seals : List Sealing

inductive KeyWarning
 | rotation
 | refused (cause : ReuseError)
 | baseNotEncrypted
 | otherPassphrase
 | identityNeeded
 deriving DecidableEq

def firstKey (age : Age) (identity : Identity) : List Bytes → Option (Except ReuseError KeyMaterial)
 | [] => none
 | data :: rest =>
  if data = [] then firstKey age identity rest
  else
   match unwrapKeys age identity (Script.ofList data) with
   | .error _ => firstKey age identity rest
   | .ok km =>
    match km.reusableFor envelopeVersion.toNat .convergent with
    | .error e => some (.error e)
    | .ok () => some (.ok km)

def dedupKeyWarning (base : DedupBase) (passphraseSet : Bool) : KeyWarning :=
 if base.manifest.encryption.enabled = false then .baseNotEncrypted
 else if passphraseSet then .otherPassphrase
 else .identityNeeded

def reuseDedupKey (age : Age) (run : BackupRun) : Option KeyMaterial × Option KeyWarning :=
 match run.previous with
 | none => (none, none)
 | some base =>
  if run.rotateKey then (none, some .rotation)
  else
   match firstKey age run.identity base.keyFiles with
   | none => (none, some (dedupKeyWarning base run.passphraseSet))
   | some (.error e) => (none, some (.refused e))
   | some (.ok km) => (some km, none)

namespace BackupRun

def reused (age : Age) (run : BackupRun) : Option KeyMaterial :=
 if run.dedup then (reuseDedupKey age run).1 else none

def fresh (run : BackupRun) : KeyMaterial :=
 if run.dedup then newDedupKeyMaterial run.drawnDek run.drawnNonceKey
 else newKeyMaterial run.drawnDek run.drawnNonceKey

def key (age : Age) (run : BackupRun) : Option KeyMaterial :=
 if run.encrypt then some ((run.reused age).getD run.fresh) else none

/-- The nonce mode `build` seals with. -/
def mode (run : BackupRun) : NonceMode := if run.dedup then .convergent else .random

/-- The `Seal` calls of a run. -/
def calls (run : BackupRun) : List SealCall :=
 run.seals.map fun s => ⟨run.mode, s.drawn, s.role, s.chunkIndex, s.codec, s.payload⟩

def keyFiles (run : BackupRun) : List Bytes := run.previous.elim [] DedupBase.keyFiles

end BackupRun

theorem reusableFor_ok {k : KeyMaterial} {epoch : Int} {mode : NonceMode}
  (reusable : k.reusableFor epoch mode = .ok ()) :
  k.attested = true ∧ k.envelopeVersion = epoch ∧ k.nonceMode = nonceModeName mode ∧
   k.reuse = reuseConvergentDedup := by
 simp only [KeyMaterial.reusableFor, guard_ok, not_not, Bool.not_eq_false, and_true] at reusable
 exact reusable

variable {age : Age} {km : KeyMaterial}

theorem firstKey_ok {identity : Identity} {files : List Bytes}
  (found : firstKey age identity files = some (.ok km)) :
  (∃ file ∈ files, unwrapKeys age identity (Script.ofList file) = .ok km) ∧
   km.reusableFor envelopeVersion.toNat .convergent = .ok () := by
 induction files with
 | nil => cases found
 | cons data rest ih =>
  have later : firstKey age identity rest = some (.ok km) →
    (∃ file ∈ data :: rest, unwrapKeys age identity (Script.ofList file) = .ok km) ∧
     km.reusableFor envelopeVersion.toNat .convergent = .ok () := by
   intro found
   obtain ⟨⟨file, inside, opened⟩, reusable⟩ := ih found
   exact ⟨⟨file, List.mem_cons_of_mem data inside, opened⟩, reusable⟩
  rw [firstKey] at found
  split at found
  · exact later found
  · split at found
    · exact later found
    · rename_i opened
      split at found
      · cases found
      · rename_i reusable
        cases found
        exact ⟨⟨data, List.mem_cons_self, opened⟩, reusable⟩

theorem reused_ok {run : BackupRun} (taken : run.reused age = some km) : run.dedup = true ∧
   (∃ file ∈ run.keyFiles, unwrapKeys age run.identity (Script.ofList file) = .ok km) ∧
   km.reusableFor envelopeVersion.toNat .convergent = .ok () := by
 unfold BackupRun.reused at taken
 split at taken
 · rename_i dedup
   refine ⟨dedup, ?_⟩
   unfold reuseDedupKey at taken
   split at taken
   · cases taken
   · rename_i base here
     split at taken
     · cases taken
     · split at taken
       · cases taken
       · cases taken
       · rename_i found
         cases taken
         have files : run.keyFiles = base.keyFiles := by rw [BackupRun.keyFiles, here]; rfl
         rw [files]
         exact firstKey_ok found
 · cases taken

/-- What is assumed of the next run: a key it draws is new, and the key files it can open hold
material an earlier run sealed with and wrapped. -/
structure Allowed (age : Age) (before : List BackupRun) (run : BackupRun) : Prop where
 fresh : run.reused age = none →
  ∀ r ∈ before, ∀ km, r.key age = some km → km.dek ≠ run.drawnDek
 wrapped : ∀ file ∈ run.keyFiles, ∀ km, unwrapKeys age run.identity (Script.ofList file) = .ok km →
  ∃ r ∈ before, r.key age = some km

inductive History (age : Age) : List BackupRun → Prop
 | nil : History age []
 | run {before : List BackupRun} {next : BackupRun} :
   History age before → Allowed age before next → History age (before ++ [next])

structure Sound (age : Age) (runs : List BackupRun) : Prop where
 mode : ∀ r ∈ runs, ∀ km, r.key age = some km → km.nonceMode = nonceModeName r.mode
 unique : ∀ r ∈ runs, ∀ r' ∈ runs, ∀ km km', r.key age = some km → r'.key age = some km' →
  km.dek = km'.dek → km = km'

theorem key_cases {run : BackupRun} (keyed : run.key age = some km) : run.reused age = some km ∨
   run.reused age = none ∧ km.dek = run.drawnDek ∧ km.nonceMode = nonceModeName run.mode := by
 unfold BackupRun.key at keyed
 split at keyed
 · cases taken : run.reused age with
   | some k =>
    rw [taken] at keyed
    exact .inl keyed
   | none =>
    rw [taken] at keyed
    cases keyed
    refine .inr ⟨rfl, ?_⟩
    cases dedup : run.dedup with
    | true => simp [BackupRun.fresh, BackupRun.mode, dedup, newDedupKeyMaterial, freshMaterial]
    | false => simp [BackupRun.fresh, BackupRun.mode, dedup, newKeyMaterial, freshMaterial]
 · cases keyed

theorem sound_step {before : List BackupRun} {next : BackupRun}
  (sound : Sound age before) (allowed : Allowed age before next) :
  Sound age (before ++ [next]) := by
 -- the key of the new run is new, or the key of an earlier run
 have origin : ∀ km, next.key age = some km →
   (∀ r ∈ before, ∀ km', r.key age = some km' → km'.dek ≠ km.dek) ∨
    ∃ r ∈ before, r.key age = some km := by
  intro km keyed
  rcases key_cases keyed with taken | ⟨drawn, dek, -⟩
  · obtain ⟨-, ⟨file, inside, opened⟩, -⟩ := reused_ok taken
    exact .inr (allowed.wrapped file inside km opened)
  · left
    intro r inside km' keyed'
    rw [dek]
    exact allowed.fresh drawn r inside km' keyed'
 constructor
 · intro r inside km keyed
   rcases List.mem_append.mp inside with old | new
   · exact sound.mode r old km keyed
   · obtain rfl := List.mem_singleton.mp new
     rcases key_cases keyed with taken | ⟨-, -, named⟩
     · obtain ⟨dedup, -, reusable⟩ := reused_ok taken
       have convergent : r.mode = .convergent := if_pos dedup
       rw [convergent]
       exact (reusableFor_ok reusable).2.2.1
     · exact named
 · intro r inside r' inside' km km' keyed keyed' same
   rcases List.mem_append.mp inside with old | new
   · rcases List.mem_append.mp inside' with old' | new'
     · exact sound.unique r old r' old' km km' keyed keyed' same
     · obtain rfl := List.mem_singleton.mp new'
       rcases origin km' keyed' with unseen | ⟨r₀, old₀, keyed₀⟩
       · exact absurd same (unseen r old km keyed)
       · exact sound.unique r old r₀ old₀ km km' keyed keyed₀ same
   · obtain rfl := List.mem_singleton.mp new
     rcases List.mem_append.mp inside' with old' | new'
     · rcases origin km keyed with unseen | ⟨r₀, old₀, keyed₀⟩
       · exact absurd same.symm (unseen r' old' km' keyed')
       · exact sound.unique r₀ old₀ r' old' km km' keyed₀ keyed' same
     · obtain rfl := List.mem_singleton.mp new'
       rw [keyed] at keyed'
       exact Option.some.inj keyed'

theorem sound_history {runs : List BackupRun} (history : History age runs) : Sound age runs := by
 induction history with
 | nil =>
  constructor
  · intro r inside
    cases inside
  · intro r inside
    cases inside
 | run _ allowed ih => exact sound_step ih allowed

def nonceMessage (call : SealCall) : Bytes := nonceLabel ++ call.ad ++ sum256 call.payload

def nonceMessages (age : Age) (runs : List BackupRun) (nonceKey : Bytes) : Set Bytes :=
 {message | ∃ r ∈ runs, ∃ km, r.key age = some km ∧ km.nonceKey = nonceKey ∧
   ∃ call ∈ r.calls, call.mode = .convergent ∧ message = nonceMessage call}

def payloads (runs : List BackupRun) : Set Bytes :=
 {payload | ∃ r ∈ runs, ∃ call ∈ r.calls, payload = call.payload}

/-- HMAC-SHA256, truncated to a nonce, separates the messages it is given. -/
def NonceFree (age : Age) (runs : List BackupRun) : Prop :=
 ∀ nonceKey, Set.InjOn (fun message => (hmacSha256 nonceKey message).take nonceLen)
  (nonceMessages age runs nonceKey)

theorem nonce_convergent {call : SealCall} (convergent : call.mode = .convergent)
  (nonceKey : Bytes) :
  call.nonce nonceKey = (hmacSha256 nonceKey (nonceMessage call)).take nonceLen := by
 unfold SealCall.nonce
 rw [convergent]
 rfl

theorem nonceMessage_eq {call call' : SealCall} (same : nonceMessage call = nonceMessage call') :
  call.ad = call'.ad ∧ sum256 call.payload = sum256 call'.payload := by
 unfold nonceMessage at same
 have lengths : (sum256 call.payload).length = (sum256 call'.payload).length := by
  rw [length_sum256, length_sum256]
 obtain ⟨labelled, digests⟩ := List.append_inj' same lengths
 exact ⟨List.append_cancel_left labelled, digests⟩

/-- In every history, whatever the public manifests of the bases say: calls under one data key have
one nonce mode; two convergent ones with one nonce authenticate and seal the same bytes; and a key
that is taken over attests the current envelope, convergent nonces and the policy that allows it. -/
theorem nonces_never_reused {runs : List BackupRun} (history : History age runs)
  (hmac : NonceFree age runs) (sha : CollisionFree (payloads runs)) :
  (∀ r ∈ runs, ∀ r' ∈ runs, ∀ km km', r.key age = some km → r'.key age = some km' →
   km.dek = km'.dek → r.mode = r'.mode ∧
    ∀ call ∈ r.calls, ∀ call' ∈ r'.calls, call.mode = .convergent → call'.mode = .convergent →
     call.nonce km.nonceKey = call'.nonce km'.nonceKey → call.ad = call'.ad ∧
     call.payload = call'.payload) ∧
  ∀ r ∈ runs, ∀ km, r.reused age = some km →
   km.attested = true ∧ km.envelopeVersion = envelopeVersion.toNat ∧
    km.nonceMode = nonceModeName .convergent ∧ km.reuse = reuseConvergentDedup := by
 have sound := sound_history history
 constructor
 · intro r inside r' inside' km km' keyed keyed' sameDek
   obtain rfl := sound.unique r inside r' inside' km km' keyed keyed' sameDek
   constructor
   · apply nonceModeName_injective
     rw [← sound.mode r inside km keyed, sound.mode r' inside' km keyed']
   · intro call member call' member' convergent convergent' sameNonce
     rw [nonce_convergent convergent, nonce_convergent convergent'] at sameNonce
     have sameMessage := hmac km.nonceKey ⟨r, inside, km, keyed, rfl, call, member, convergent, rfl⟩
      ⟨r', inside', km, keyed', rfl, call', member', convergent', rfl⟩ sameNonce
     obtain ⟨sameAd, sameDigest⟩ := nonceMessage_eq sameMessage
     exact ⟨sameAd, sha ⟨r, inside, call, member, rfl⟩ ⟨r', inside', call', member', rfl⟩
      sameDigest⟩
 · intro r _ km taken
   obtain ⟨-, -, reusable⟩ := reused_ok taken
   exact reusableFor_ok reusable

def sharedKey : KeyMaterial := newDedupKeyMaterial (List.replicate 32 1) (List.replicate 32 2)

def oneFile : Age where
 Identities := Unit
 identities _ := .ok (some ())
 decrypt _ file := some file.content
 decodeKey plain := if plain = [7] then some sharedKey else none

def dedupRun (previous : Option DedupBase) (dek : UInt8) : BackupRun where
 encrypt := true
 dedup := true
 rotateKey := false
 passphraseSet := true
 identity := ⟨[], []⟩
 previous := previous
 drawnDek := List.replicate 32 dek
 drawnNonceKey := List.replicate 32 2
 seals := [⟨[], .data, 0, .zstd, [5]⟩]

def twoRuns : List BackupRun := [dedupRun none 1, dedupRun (some ⟨default, [7], []⟩) 3]

theorem unwraps_shared {identity : Identity} {file : Bytes}
  (opened : unwrapKeys oneFile identity (Script.ofList file) = .ok km) : km = sharedKey := by
 simp only [unwrapKeys, oneFile, Script.content_ofList] at opened
 split at opened
 · cases opened
 · rename_i found
   split at found
   · cases found
     split at opened
     · exact (Except.ok.inj opened).symm
     · cases opened
   · cases found

theorem twoRuns_history : History oneFile twoRuns := by
 have first : Allowed oneFile [] (dedupRun none 1) := by
  constructor
  · intro _ r inside
    cases inside
  · intro file inside
    cases inside
 have second : Allowed oneFile [dedupRun none 1] (dedupRun (some ⟨default, [7], []⟩) 3) := by
  constructor
  · intro none_taken
    exact absurd none_taken (by decide)
  · intro file _ km opened
    refine ⟨dedupRun none 1, List.mem_singleton_self _, ?_⟩
    rw [unwraps_shared opened]
    rfl
 exact .run (.run .nil first) second

/-- The second run seals the same text with the same key, hence with the same nonce, and that is the
only way its nonces repeat. -/
theorem twoRuns_share_key : (dedupRun (some ⟨default, [7], []⟩) 3).reused oneFile = some sharedKey ∧
   (dedupRun none 1).mode = (dedupRun (some ⟨default, [7], []⟩) 3).mode := by
 have keyed : (dedupRun none 1).key oneFile = some sharedKey := rfl
 have keyed' : (dedupRun (some ⟨default, [7], []⟩) 3).key oneFile = some sharedKey := by decide
 have calls : ∀ r ∈ twoRuns, ∀ call ∈ r.calls, call = ⟨.convergent, [], .data, 0, .zstd, [5]⟩ := by
  intro r inside call member
  rcases List.mem_cons.mp inside with rfl | tail
  · exact List.mem_singleton.mp member
  · obtain rfl := List.mem_singleton.mp tail
    exact List.mem_singleton.mp member
 have hmac : NonceFree oneFile twoRuns := by
  rintro nonceKey a ⟨r, inside, -, -, -, call, member, -, rfl⟩ b
   ⟨r', inside', -, -, -, call', member', -, rfl⟩ -
  rw [calls r inside call member, calls r' inside' call' member']
 have sha : CollisionFree (payloads twoRuns) := by
  rintro a ⟨r, inside, call, member, rfl⟩ b ⟨r', inside', call', member', rfl⟩ -
  rw [calls r inside call member, calls r' inside' call' member']
 refine ⟨by decide, ?_⟩
 exact ((nonces_never_reused twoRuns_history hmac sha).1 _ List.mem_cons_self _
  (List.mem_cons_of_mem _ (List.mem_singleton_self _)) _ _ keyed keyed' rfl).1

end BackImage.Backup.KeyHistory
