/- source: pkg/index/model.go, pkg/index/private.go
  digest: Writing the file index and the private half of the metadata, and when they read back. -/

import BackImage.Crypt.Integrity
import BackImage.Go.Glob
import BackImage.Index.Private

namespace BackImage.Index.FileTable

open Crypt.Envelope Crypt.Integrity Entries Go.Glob Go.Sha256 Go.Text Limiter Model Private
open Lib.Reading (Script)

def replacement : Str := [0xEF, 0xBF, 0xBD]

def coerceFuel : Nat → Str → Str
 | 0, _ => []
 | _ + 1, [] => []
 | n + 1, b :: rest =>
  let (r, width) := decodeRune (b :: rest)
  if r = runeError ∧ width = 1 then replacement ++ coerceFuel n rest
  else (b :: rest).take width ++ coerceFuel n ((b :: rest).drop width)

def coerce (s : Str) : Str := coerceFuel s.length s

theorem coerce_ne_nil {s : Str} (filled : s ≠ []) : coerce s ≠ [] := by
 cases s with
 | nil => exact absurd rfl filled
 | cons b rest =>
  have wide := decodeRune_pos filled
  rw [coerce, List.length_cons, coerceFuel]
  cases decoded : decodeRune (b :: rest) with
  | mk r width =>
   rw [decoded] at wide
   dsimp only at wide ⊢
   split
   · exact List.append_ne_nil_of_left_ne_nil (List.cons_ne_nil _ _) _
   · apply List.append_ne_nil_of_left_ne_nil
     intro empty
     rcases List.take_eq_nil_iff.mp empty with narrow | none
     · omega
     · cases none

theorem coerce_ascii {s : Str} (ascii : ∀ b ∈ s, b < 0x80) : coerce s = s := by
 induction s with
 | nil => rfl
 | cons b rest ih =>
  have small : b < 0x80 := ascii b List.mem_cons_self
  have decoded : decodeRune (b :: rest) = (b.toNat, 1) := by
   rw [decodeRune, if_pos small]
  have proper : ¬ (b.toNat = runeError ∧ 1 = 1) := by
   rintro ⟨same, -⟩
   have bound := b.toNat_lt
   rw [same] at bound
   exact absurd bound (by decide)
  have tail : coerceFuel rest.length rest = rest :=
   ih fun c inside => ascii c (List.mem_cons_of_mem b inside)
  rw [coerce, List.length_cons, coerceFuel, decoded]
  dsimp only
  rw [if_neg proper, List.take_succ_cons, List.take_zero, List.drop_succ_cons, List.drop_zero, tail]
  rfl

example : coerce [97, 0xFF] = coerce [97, 0xFE] := by decide

structure IndexValue where
 schemaVersion : Int
 entries : Option (List FileEntry)
 deriving DecidableEq

def IndexValue.list (v : IndexValue) : List FileEntry := v.entries.getD []

inductive Member
 | number (n : Int)
 | null
 | array (elements : List (Option FileEntry))
 | other

structure IndexCodec where
 encode : IndexValue → Option Bytes
 members : Bytes → Option (List (Str × Member))
 compress : Bytes → Bytes
 decompress : Bytes → Option Bytes

def coerceEntry (e : FileEntry) : FileEntry :=
 { e with
   path := coerce e.path
   mode := coerce e.mode
   uname := coerce e.uname
   gname := coerce e.gname
   linkTarget := coerce e.linkTarget
   sha256 := coerce e.sha256 }

def entriesMember : Option (List FileEntry) → Member
 | none => .null
 | some entries => .array (entries.map fun e => some (coerceEntry e))

def zstdMagic : Bytes := [0x28, 0xB5, 0x2F, 0xFD]

/-- Values come back from JSON but for the bytes no string can hold, and frames from zstd. -/
structure IndexCodec.Faithful (codec : IndexCodec) : Prop where
 json : ∀ {v text}, codec.encode v = some text → codec.members text =
  some [(lit "schemaVersion", .number v.schemaVersion), (lit "entries", entriesMember v.entries)]
 zstd : ∀ text, codec.decompress (codec.compress text) = some text
 magic : ∀ text, ∃ rest, codec.compress text = zstdMagic ++ rest

inductive WriteIndexError
 | nilIndex
 | schema (cause : ReadError)
 | entries (cause : EntryError)
 | encode
 deriving DecidableEq

def writeIndexCompressed (codec : IndexCodec) (idx : IndexValue) : Except WriteIndexError Bytes :=
 match codec.encode idx with
 | none => .error .encode
 | some text => .ok (codec.compress text)

def writeIndex (codec : IndexCodec) (ae : Aead) (idx : Option IndexValue)
  (sealer : Option KeyedSealer) : Except WriteIndexError Bytes :=
 match idx with
 | none => .error .nilIndex
 | some idx =>
  match checkSchema idx.schemaVersion with
  | .error e => .error (.schema e)
  | .ok () =>
   match validateEntries idx.list with
   | .error e => .error (.entries e)
   | .ok () =>
    match writeIndexCompressed codec idx, sealer with
    | .error e, _ => .error e
    | .ok frame, none => .ok frame
    | .ok frame, some s => .ok (sealMetadata ae s .index frame)

inductive DecodeError
 | zstd
 | start
 | schemaVersion
 | notArray
 | tooMany
 | entry
 deriving DecidableEq

def DecodeError.message : DecodeError → Str
 | .zstd => lit "zstd"
 | .start => lit "index start: "
 | .schemaVersion => lit "index schemaVersion: "
 | .notArray => lit "index: entries is not an array"
 | .tooMany => errBadSchema ++ lit ": the index holds more than 10000000 entries"
 | .entry => lit "index entry: "

def decodeEntries : List (Option FileEntry) → List FileEntry → Except DecodeError (List FileEntry)
 | [], sofar => .ok sofar
 | e :: rest, sofar =>
  if maxIndexEntries ≤ sofar.length then .error .tooMany
  else
   match e with
   | none => .error .entry
   | some e => decodeEntries rest (sofar ++ [e])

def decodeMembers : List (Str × Member) → FileIndex → Except DecodeError FileIndex
 | [], idx => .ok idx
 | (key, value) :: rest, idx =>
  if key = lit "schemaVersion" then
   match value with
   | .number n => decodeMembers rest { idx with schemaVersion := n }
   | .null => decodeMembers rest idx
   | _ => .error .schemaVersion
  else if key = lit "entries" then
   match value with
   | .array elements =>
    match decodeEntries elements idx.entries with
    | .error e => .error e
    | .ok entries => decodeMembers rest { idx with entries := entries }
   | _ => .error .notArray
  else decodeMembers rest idx

def decodeIndexStreaming (codec : IndexCodec) (payload : Bytes) : Except DecodeError FileIndex :=
 match codec.decompress payload with
 | none => .error .zstd
 | some text =>
  match codec.members text with
  | none => .error .start
  | some members => decodeMembers members ⟨0, []⟩

def decodersOf (codec : IndexCodec) (private_ : Bytes → Except Str PrivateData) : Decoders where
 private_ := private_
 index payload :=
  match decodeIndexStreaming codec payload with
  | .error e => .error e.message
  | .ok idx => .ok idx

def openerOf : Option KeyedSealer → Opener
 | none => .clear
 | some s => .keyed s.dek

theorem decodeEntries_all {entries sofar : List FileEntry}
  (few : sofar.length + entries.length ≤ maxIndexEntries) :
  decodeEntries (entries.map some) sofar = .ok (sofar ++ entries) := by
 induction entries generalizing sofar with
 | nil => rw [List.map_nil, decodeEntries, List.append_nil]
 | cons e rest ih =>
  rw [List.length_cons] at few
  have room : ¬ maxIndexEntries ≤ sofar.length := by omega
  have rest_fits : (sofar ++ [e]).length + rest.length ≤ maxIndexEntries := by
   rw [List.length_append, List.length_singleton]
   omega
  rw [List.map_cons, decodeEntries, if_neg room, ih rest_fits, List.append_assoc,
   List.singleton_append]

variable {codec : IndexCodec} {v : IndexValue}

theorem decodeIndexStreaming_written (faithful : codec.Faithful)
  {text : Bytes} (encoded : codec.encode v = some text) (few : v.list.length ≤ maxIndexEntries) :
  decodeIndexStreaming codec (codec.compress text) =
   match v.entries with
   | none => .error .notArray
   | some entries => .ok ⟨v.schemaVersion, entries.map coerceEntry⟩ := by
 have other : ¬ lit "entries" = lit "schemaVersion" := by decide
 simp only [decodeIndexStreaming, faithful.zstd, faithful.json encoded, decodeMembers, if_true,
  if_neg other]
 cases held : v.entries with
 | none => rfl
 | some entries =>
  have count : v.list = entries := by rw [IndexValue.list, held]; rfl
  rw [count] at few
  have all : decodeEntries (entries.map fun e => some (coerceEntry e)) [] =
    .ok (entries.map coerceEntry) := by
   have decoded : decodeEntries ((entries.map coerceEntry).map some) [] =
     .ok ([] ++ entries.map coerceEntry) :=
    decodeEntries_all (by rw [List.length_map]; simpa using few)
   rw [List.map_map] at decoded
   exact decoded
  simp only [entriesMember, all]

theorem readCapped_within {what : Str} {data : Bytes}
  (capped : data.length ≤ defaultMaxMetadataBytes.toNatClampNeg) :
  readCapped what data = .ok data := by
 have bound : ¬ defaultMaxMetadataBytes ≤ 0 := by decide
 have content : (limitMetadata Script.reader 0 what).content
  ⟨(Script.ofList data : Script UInt8 Str), 0⟩ =
   data := by
  rw [limitMetadata, if_pos (.inl (by decide)), limitBytes_content, if_neg bound]
  change ((Script.ofList data : Script UInt8 Str).content).take _ = data
  rw [Script.content_ofList, List.take_of_length_le capped]
 have quiet :
  ((limitMetadata Script.reader 0 what).final ⟨(Script.ofList data : Script UInt8 Str), 0⟩).fault =
   none := by
  rw [limitMetadata, if_pos (.inl (by decide)), limitBytes_final]
  · rfl
  · change ((Script.ofList data : Script UInt8 Str).content).length ≤ _
    rw [Script.content_ofList]
    exact capped
 rw [readCapped, Lib.Reading.Reader.readAll_eq, quiet, content]

theorem isEnvelope_frame (faithful : codec.Faithful) (text : Bytes) :
  isEnvelope (codec.compress text) = false := by
 obtain ⟨rest, frame⟩ := faithful.magic text
 rw [frame]
 rfl

def Correct (ae : Aead) (dek : Bytes) : Prop :=
 ∀ nonce payload ad, nonce.length = nonceLen →
  ae.open_ dek nonce (ae.seal_ dek nonce payload ad) ad = some payload

variable {ae : Aead}

theorem indexPayload_written (faithful : codec.Faithful)
  (text : Bytes) : indexPayload ae .clear (codec.compress text) = .ok (codec.compress text) := by
 have bare := isEnvelope_frame faithful text
 simp [indexPayload, bare, Opener.requiresAuthentication]

def callOf (s : KeyedSealer) (role : Role) (frame : Bytes) : SealCall :=
 ⟨s.mode, s.drawn, role, 0, .zstd, frame⟩

theorem open_sealMetadata {s : KeyedSealer} (correct : Correct ae s.dek)
  (drawn : s.drawn.length = nonceLen) (role : Role) (frame : Bytes) :
  (Opener.keyed s.dek).open ae role 0 (sealMetadata ae s role frame) = .ok (frame, .zstd) := by
 apply keyed_open_iff.mpr
 refine ⟨(callOf s role frame).header s.nonceKey,
  ae.seal_ s.dek ((callOf s role frame).nonce s.nonceKey) frame (callOf s role frame).ad,
  readable_header drawn, SealCall.blob_eq ae s.dek s.nonceKey (callOf s role frame), rfl, rfl, ?_⟩
 have authenticated : aad ((callOf s role frame).header s.nonceKey) role 0 =
  (callOf s role frame).ad :=
  aad_header s.nonceKey (.inr rfl)
 rw [authenticated]
 exact correct _ _ _ (readable_header drawn).nonce

theorem indexPayload_sealed {s : KeyedSealer} (correct : Correct ae s.dek)
  (drawn : s.drawn.length = nonceLen) (frame : Bytes) :
  indexPayload ae (.keyed s.dek) (sealMetadata ae s .index frame) = .ok frame := by
 have envelope : isEnvelope (sealMetadata ae s .index frame) = true := rfl
 simp only [indexPayload, Opener.requiresAuthentication, envelope, open_sealMetadata correct drawn]
 simp

theorem validHex64_hexEncode {bs : Bytes} (whole : bs.length = 32) :
  validHex64 (hexEncode bs) = true := by
 have digit : ∀ n : UInt8, n < 16 →
   ((48 ≤ hexDigit n && hexDigit n ≤ 57) || (97 ≤ hexDigit n && hexDigit n ≤ 102)) = true := by
  have all : ∀ n : Fin 256, UInt8.ofNat n < 16 →
    ((48 ≤ hexDigit (UInt8.ofNat n) && hexDigit (UInt8.ofNat n) ≤ 57) ||
     (97 ≤ hexDigit (UInt8.ofNat n) && hexDigit (UInt8.ofNat n) ≤ 102)) = true := by
   decide +kernel
  intro n
  have here := all ⟨n.toNat, n.toNat_lt⟩
  rwa [show UInt8.ofNat n.toNat = n from UInt8.ofNat_toNat] at here
 have length : (hexEncode bs).length = 2 * bs.length := by
  simp [hexEncode, List.length_flatMap, Nat.mul_comm]
 rw [validHex64, Bool.and_eq_true, List.all_eq_true]
 refine ⟨by rw [length, whole]; rfl, ?_⟩
 intro c inside
 obtain ⟨b, -, pair⟩ := List.mem_flatMap.mp inside
 have high : b >>> 4 < 16 := by
  rw [UInt8.lt_iff_toNat_lt, UInt8.toNat_shiftRight]
  have small := b.toNat_lt
  change b.toNat >>> 4 < 16
  rw [Nat.shiftRight_eq_div_pow]
  omega
 have low : b &&& 15 < 16 := by
  rw [UInt8.lt_iff_toNat_lt, UInt8.toNat_and]
  exact Nat.lt_of_le_of_lt Nat.and_le_right (by decide)
 rcases List.mem_cons.mp pair with rfl | last
 · exact digit _ high
 · rw [List.mem_singleton.mp last]
   exact digit _ low

theorem validHex64_ascii {s : Str} (valid : validHex64 s = true) : ∀ b ∈ s, b < 0x80 := by
 intro b inside
 simp only [validHex64, Bool.and_eq_true, List.all_eq_true] at valid
 have digit := valid.2 b inside
 simp only [Bool.or_eq_true, Bool.and_eq_true, decide_eq_true_eq] at digit
 rcases digit with ⟨-, high⟩ | ⟨-, high⟩
 · exact UInt8.lt_of_le_of_lt high (by decide)
 · exact UInt8.lt_of_le_of_lt high (by decide)

theorem parseMode_ascii {s : Str} (parsed : parseMode s ≠ none) : ∀ b ∈ s, b < 0x80 := by
 intro b inside
 unfold parseMode at parsed
 split at parsed
 · exact absurd rfl parsed
 · split at parsed
   · rename_i digits
     have digit := List.all_eq_true.mp digits b inside
     simp only [Bool.and_eq_true, decide_eq_true_eq] at digit
     exact UInt8.lt_of_le_of_lt digit.2 (by decide)
   · exact absurd rfl parsed

theorem fit_coerceEntry {e : FileEntry} (fit : Fit e) : Fit (coerceEntry e) ↔
   (coerce e.path).length ≤ maxPathBytes ∧ (coerce e.linkTarget).length ≤ maxPathBytes := by
 constructor
 · intro fit'
   exact ⟨fit'.pathSize, fit'.targetSize⟩
 · rintro ⟨pathSize, targetSize⟩
   refine ⟨coerce_ne_nil fit.path, pathSize, targetSize, fit.type, fit.size, fit.offset, ?_, ?_, ?_⟩
   · change parseMode (coerce e.mode) ≠ none
     rw [coerce_ascii (parseMode_ascii fit.mode)]
     exact fit.mode
   · intro regular
     change validHex64 (coerce e.sha256) = true
     rw [coerce_ascii (validHex64_ascii (fit.digest regular))]
     exact fit.digest regular
   · intro link
     exact coerce_ne_nil (fit.target link)

/-- The names of the entries survive their encoding: no two become one, none outgrows the limit. -/
structure Survives (entries : List FileEntry) : Prop where
 distinct : (entries.map fun e => coerce e.path).Nodup
 paths : ∀ e ∈ entries, (coerce e.path).length ≤ maxPathBytes
 targets : ∀ e ∈ entries, (coerce e.linkTarget).length ≤ maxPathBytes

theorem validateEntries_coerced {entries : List FileEntry}
  (valid : validateEntries entries = .ok ()) :
  validateEntries (entries.map coerceEntry) = .ok () ↔ Survives entries := by
 obtain ⟨few, fit, ordered⟩ := validateEntries_ok_iff.mp valid
 have paths : (entries.map coerceEntry).map FileEntry.path = entries.map fun e =>
   coerce e.path := by
  rw [List.map_map]
  rfl
 rw [validateEntries_ok_iff]
 constructor
 · rintro ⟨-, fit', ordered'⟩
   have sizes : ∀ e ∈ entries, _ := fun e inside =>
    (fit_coerceEntry (fit e inside)).mp (fit' _ (List.mem_map_of_mem inside))
   have distinct := ordered'.distinct
   rw [paths] at distinct
   exact ⟨distinct, fun e inside => (sizes e inside).1, fun e inside => (sizes e inside).2⟩
 · rintro ⟨distinct, short, short'⟩
   refine ⟨by rwa [List.length_map], ?_, ?_, ?_⟩
   · intro e' inside
     obtain ⟨e, member, rfl⟩ := List.mem_map.mp inside
     exact (fit_coerceEntry (fit e member)).mpr ⟨short e member, short' e member⟩
   · rw [paths]
     exact distinct
   · exact List.pairwise_map.mpr ordered.growing

variable {sealer : Option KeyedSealer}

theorem writeIndex_ok {blob : Bytes} (written : writeIndex codec ae (some v) sealer = .ok blob) :
  checkSchema v.schemaVersion = .ok () ∧ validateEntries v.list = .ok () ∧
   ∃ text, codec.encode v = some text ∧
    blob = match sealer with
     | none => codec.compress text
     | some s => sealMetadata ae s .index (codec.compress text) := by
 simp only [writeIndex] at written
 cases schema : checkSchema v.schemaVersion with
 | error e => simp [schema] at written
 | ok _ =>
  cases valid : validateEntries v.list with
  | error e => simp [schema, valid] at written
  | ok _ =>
   refine ⟨rfl, rfl, ?_⟩
   simp only [schema, valid, writeIndexCompressed] at written
   cases encoded : codec.encode v with
   | none => simp [encoded] at written
   | some text =>
    simp only [encoded] at written
    refine ⟨text, rfl, ?_⟩
    cases sealer with
    | none => exact (Except.ok.inj written).symm
    | some s => exact (Except.ok.inj written).symm

theorem writeIndex_accepts : (∃ blob, writeIndex codec ae (some v) sealer = .ok blob) ↔
   checkSchema v.schemaVersion = .ok () ∧ validateEntries v.list = .ok () ∧
    ∃ text, codec.encode v = some text := by
 constructor
 · rintro ⟨blob, written⟩
   obtain ⟨schema, valid, text, encoded, -⟩ := writeIndex_ok written
   exact ⟨schema, valid, text, encoded⟩
 · rintro ⟨schema, valid, text, encoded⟩
   simp only [writeIndex, schema, valid, writeIndexCompressed, encoded]
   cases sealer with
   | none => exact ⟨_, rfl⟩
   | some s => exact ⟨_, rfl⟩

def Fits (ae : Aead) : Option KeyedSealer → Prop
 | none => True
 | some s => Correct ae s.dek ∧ s.drawn.length = nonceLen

/-- A written index of bounded size is read back, entry by entry and coerced, exactly when its entry
list is not nil and its names survive their encoding. -/
theorem index_reads_back_iff (faithful : codec.Faithful) (fits : Fits ae sealer) {blob : Bytes}
  (written : writeIndex codec ae (some v) sealer = .ok blob)
  (capped : blob.length ≤ defaultMaxMetadataBytes.toNatClampNeg)
  (private_ : Bytes → Except Str PrivateData) :
  readIndex ae (decodersOf codec private_) blob (some (openerOf sealer)) =
    .ok ⟨v.schemaVersion, v.list.map coerceEntry⟩ ↔
   v.entries ≠ none ∧ Survives v.list := by
 obtain ⟨schema, valid, text, encoded, stored⟩ := writeIndex_ok written
 have few := (validateEntries_ok_iff.mp valid).1
 have opened : indexPayload ae (openerOf sealer) blob = .ok (codec.compress text) := by
  cases sealer with
  | none =>
   rw [stored]
   exact indexPayload_written faithful text
  | some s =>
   rw [stored]
   exact indexPayload_sealed fits.1 fits.2 (codec.compress text)
 have decoded := decodeIndexStreaming_written faithful encoded few
 simp only [readIndex, readCapped_within capped, opened, decodersOf, decoded]
 cases held : v.entries with
 | none =>
  refine iff_of_false ?_ ?_
  · intro impossible
    cases impossible
  · rintro ⟨absent, -⟩
    exact absent rfl
 | some entries =>
  have list : v.list = entries := by rw [IndexValue.list, held]; rfl
  rw [list] at valid ⊢
  simp only [schema, ne_eq, reduceCtorEq, not_false_eq_true, true_and]
  rw [← validateEntries_coerced valid]
  cases validateEntries (entries.map coerceEntry) with
  | error e => simp
  | ok _ => simp

def directory (path : Str) (offset : Int64) : FileEntry :=
 { (default : FileEntry) with
   path := path, type := .dir, mode := lit "0755", mtime := 1, tarOffset := offset }

def twins : IndexValue := ⟨1, some [directory [97, 0xFF] 0, directory [97, 0xFE] 512]⟩

def pair : IndexValue := ⟨1, some [directory [97, 0xFF] 0, directory [98, 0xFE] 512]⟩

def tableCodec : IndexCodec where
 encode v := if v = twins then some [1] else if v = pair then some [2] else none
 members text :=
  let written (v : IndexValue) : List (Str × Member) :=
   [(lit "schemaVersion", .number v.schemaVersion), (lit "entries", entriesMember v.entries)]
  if text = [1] then some (written twins) else if text = [2] then some (written pair) else none
 compress text := zstdMagic ++ text
 decompress payload := if payload.take 4 = zstdMagic then some (payload.drop 4) else none

theorem tableCodec_faithful : tableCodec.Faithful where
 json := by
  intro v text encoded
  simp only [tableCodec] at encoded
  split at encoded
  · rename_i same
    cases encoded
    rw [same]
    rfl
  · split at encoded
    · rename_i same
      cases encoded
      rw [same]
      rfl
    · cases encoded
 zstd text := rfl
 magic text := ⟨text, rfl⟩

def idleCipher : Aead := ⟨fun _ _ text _ => text, fun _ _ text _ => some text⟩

def noPrivate (_ : Bytes) : Except Str PrivateData := .error []

/-- Both names are accepted when the index is written; read back they are one name, and the index
is refused for repeating it. -/
theorem twins_not_read_back :
  writeIndex tableCodec idleCipher (some twins) none = .ok (zstdMagic ++ [1]) ∧
   readIndex idleCipher (decodersOf tableCodec noPrivate) (zstdMagic ++ [1]) (some .clear) =
    .error (.entries (.repeated 1 0 (97 :: replacement))) := by
 constructor
 · decide +kernel
 · decide +kernel

/-- Names that stay apart are read back with their invalid bytes replaced. -/
theorem pair_reads_back : readIndex idleCipher (decodersOf tableCodec noPrivate) (zstdMagic ++ [2])
  (some .clear) =
   .ok ⟨1, [directory (97 :: replacement) 0, directory (98 :: replacement) 512]⟩ := by
 have written : writeIndex tableCodec idleCipher (some pair) none = .ok (zstdMagic ++ [2]) := by
  decide +kernel
 have capped : (zstdMagic ++ [2]).length ≤ defaultMaxMetadataBytes.toNatClampNeg := by decide
 have survives : Survives pair.list := ⟨by decide +kernel, by decide +kernel, by decide +kernel⟩
 have fits : Fits idleCipher none := trivial
 exact (index_reads_back_iff tableCodec_faithful fits written capped noPrivate).mpr
  ⟨nofun, survives⟩

def coerceBinding (b : Binding) : Binding :=
 { manifest := coerce b.manifest
   chunks := coerce b.chunks
   index := coerce b.index
   policy := { b.policy with aead := coerce b.policy.aead, nonceMode := coerce b.policy.nonceMode }
    }

/-- The private half as JSON gives it back: bytes that no string can hold are replaced. -/
def coercePrivate (p : PrivateData) : PrivateData :=
 { p with
   binding := p.binding.map coerceBinding
   sources := p.sources.map coerce
   host := ⟨coerce p.host.hostname, coerce p.host.os, coerce p.host.arch⟩
   encryption := ⟨coerce p.encryption.keyFingerprint, p.encryption.recipients.map coerce⟩
   chunks := p.chunks.map fun c => { c with ps := coerce c.ps } }

/-- What was encoded and compressed is decompressed and decoded, but for such bytes. -/
def Decodes (codec : PrivateCodec) (decoders : Decoders) : Prop :=
 ∀ p text, codec.encode p = some text → decoders.private_ (codec.compress text) =
  .ok (coercePrivate p)

variable {codec : PrivateCodec} {decoders : Decoders} {ae : Aead} {s : KeyedSealer}
 {p : PrivateData} {blob : Bytes}

theorem writePrivate_ok (written : writePrivate codec ae (some p) (some s) = .ok blob) :
  checkSchema p.schemaVersion = .ok () ∧
   ∃ text, codec.encode p = some text ∧
   blob = sealMetadata ae s .confidential (codec.compress text) := by
 simp only [writePrivate] at written
 cases schema : checkSchema p.schemaVersion with
 | error e => simp [schema] at written
 | ok _ =>
  cases encoded : codec.encode p with
  | none => simp [schema, encoded] at written
  | some text =>
   simp only [schema, encoded] at written
   exact ⟨rfl, text, rfl, (Except.ok.inj written).symm⟩

/-- A private half of bounded size is read back under its key. -/
theorem readPrivate_written (decodes : Decodes codec decoders) (correct : Correct ae s.dek)
  (drawn : s.drawn.length = nonceLen) (written : writePrivate codec ae (some p) (some s) = .ok blob)
  (capped : blob.length ≤ defaultMaxMetadataBytes.toNatClampNeg) :
  readPrivate ae decoders blob (some (.keyed s.dek)) = .ok (coercePrivate p) := by
 obtain ⟨schema, text, encoded, rfl⟩ := writePrivate_ok written
 have envelope : isEnvelope (sealMetadata ae s .confidential (codec.compress text)) = true := rfl
 have schema' : checkSchema (coercePrivate p).schemaVersion = .ok () := schema
 simp only [readPrivate, Opener.requiresAuthentication, readCapped_within capped, envelope,
  open_sealMetadata correct drawn, decodes p text encoded, schema']
 simp

theorem validDigest_ascii {d : Str} (valid : validDigest d = true) : ∀ b ∈ d, b < 0x80 := by
 obtain ⟨named, hex⟩ := Bool.and_eq_true_iff.mp valid
 obtain ⟨digits, rfl⟩ := List.isPrefixOf_iff_prefix.mp named
 rw [trimPrefix_append] at hex
 have algorithm : ∀ b ∈ lit "sha256:", b < 0x80 := by decide +kernel
 intro b member
 exact (List.mem_append.mp member).elim (algorithm b) (validHex64_ascii hex b)

theorem validDigest_digestText (content : Bytes) : validDigest (digestText content) = true := by
 rw [digestText, validDigest, trimPrefix_append,
  validHex64_hexEncode (Crypt.Integrity.length_sum256 _), Bool.and_true]
 simp [hasPrefix, List.isPrefixOf_iff_prefix]

theorem coercePrivate_chunks (digests : ∀ c ∈ p.chunks, validDigest c.ps = true) :
  (coercePrivate p).chunks = p.chunks := by
 refine (List.map_congr_left fun c member => ?_).trans (List.map_id _)
 rw [coerce_ascii (validDigest_ascii (digests c member))]
 rfl

/-- A binding made for a manifest with readable policy texts comes back as it was. -/
theorem coerceBinding_new {json : Json} {m : Manifest} {t : ChunkTable} {indexBlob : Bytes}
  {b : Binding} (aead : coerce m.encryption.aead = m.encryption.aead)
  (mode : coerce m.encryption.nonceMode = m.encryption.nonceMode)
  (made : newBinding json m t indexBlob = .ok b) : coerceBinding b = b := by
 have digest (content : Bytes) : coerce (digestText content) = digestText content :=
  coerce_ascii (validDigest_ascii (validDigest_digestText content))
 simp only [newBinding, manifestBindingDigest, chunkTableBindingDigest, bind, Except.bind] at made
 split at made
 · cases made
 · rename_i manifestDigest encodedManifest
   split at made
   · cases made
   · rename_i chunksDigest encodedTable
     cases made
     split at encodedManifest
     · cases encodedManifest
     · split at encodedTable
       · cases encodedTable
       · cases encodedManifest
         cases encodedTable
         simp only [coerceBinding, digest, blobBindingDigest, policyOf, aead, mode]

/-- The rows a merge completes depend on the secrets of the chunks alone. -/
theorem mergePrivate_table {m m' : Manifest} {t : ChunkTable} {q : PrivateData}
  (schema : q.schemaVersion = p.schemaVersion) (chunks : q.chunks = p.chunks) :
  (mergePrivate m t q).2 = (mergePrivate m' t p).2 := by
 unfold mergePrivate
 rw [schema, chunks]
 split
 · rfl
 · split <;> rfl

end BackImage.Index.FileTable
