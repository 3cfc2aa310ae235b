/- source: pkg/crypt/envelope.go, pkg/crypt/chunk.go
  digest: The header codec is exact, and an opener accepts the sealed blobs and no other bytes. -/

import BackImage.Crypt.Envelope

namespace BackImage.Crypt.Integrity

open Envelope Go.Sha256 Go.Text

structure SealCall where
 mode : NonceMode
 drawn : Bytes
 role : Role
 chunkIndex : UInt32
 codec : Codec
 payload : Bytes

namespace SealCall

def ad (c : SealCall) : Bytes := aad (sealHeader c.mode c.codec) c.role c.chunkIndex

def nonce (nonceKey : Bytes) (c : SealCall) : Bytes :=
 match c.mode with
 | .random => c.drawn
 | .convergent => convergentNonce nonceKey c.ad c.payload

def header (nonceKey : Bytes) (call : SealCall) : Header :=
 { sealHeader call.mode call.codec with nonce := call.nonce nonceKey }

def blob (ae : Aead) (dek nonceKey : Bytes) (call : SealCall) : Bytes :=
 sealBlob ae dek nonceKey call.mode call.drawn call.role call.chunkIndex call.codec call.payload

/-- The blob may be opened at an index: a convergent blob carries none. -/
def At (call : SealCall) (i : UInt32) : Prop := call.mode = .convergent ∨ call.chunkIndex = i

theorem blob_eq (ae : Aead) (dek nonceKey : Bytes) (call : SealCall) :
  call.blob ae dek nonceKey = marshalHeader (call.header nonceKey) ++
   ae.seal_ dek (call.nonce nonceKey) call.payload call.ad := by
 obtain ⟨mode, drawn, role, chunkIndex, codec, payload⟩ := call
 cases mode <;> rfl

end SealCall

/-- What an ideal cipher opens under the key was sealed under it: nonce, ciphertext and
authenticated data are those of a call in the history. -/
def IdealUnder (ae : Aead) (dek nonceKey : Bytes) (history : List SealCall) : Prop :=
 ∀ nonce ciphertext ad payload, ae.open_ dek nonce ciphertext ad = some payload →
  ∃ call ∈ history, nonce = call.nonce nonceKey ∧ ad = call.ad ∧ payload = call.payload ∧
   ciphertext = ae.seal_ dek nonce payload ad

theorem Role.byte_injective {r r' : Role} (same : r.byte = r'.byte) : r = r' := by
 cases r <;> cases r' <;> first | rfl | cases same

theorem Codec.id_injective {c c' : Codec} (same : c.id = c'.id) : c = c' := by
 cases c <;> cases c' <;> first | rfl | cases same

theorem aad_eq {h h' : Header} {r r' : Role} {i i' : UInt32}
  (written : ¬ h'.version < envelopeVersionRole) (same : aad h r i = aad h' r' i') :
  h.version = h'.version ∧ h.codec = h'.codec ∧ h.aead = h'.aead ∧ h.flags = h'.flags ∧ r = r' := by
 unfold aad at same
 rw [if_neg written] at same
 by_cases legacy : h.version < envelopeVersionRole
 · -- an old header authenticates one byte less
   rw [if_pos legacy] at same
   have lengths := congrArg List.length same
   have four : ∀ x : Header, ∀ j : UInt32,
     (if x.flags &&& flagConvergent = 0 then bigEndian32 j else [0, 0, 0, 0]).length = 4 := by
    intro x j
    split <;> rfl
   simp only [List.length_append, four, List.length_cons, List.length_nil] at lengths
   omega
 · rw [if_neg legacy] at same
   simp only [List.append_assoc, List.append_cancel_left_eq, List.cons_append, List.nil_append,
    List.cons.injEq] at same
   obtain ⟨version, codec, aead, flags, role, -⟩ := same
   exact ⟨version, Codec.id_injective codec, aead, flags, Role.byte_injective role⟩

/-- The headers a reader can return: a known version and cipher, and a nonce of twelve bytes that
is zero where none is stored. -/
structure Readable (h : Header) : Prop where
 version : ¬ (h.version < envelopeVersionLegacy ∨ envelopeVersion < h.version)
 aead : h.aead = aeadNone ∨ h.aead = aeadAES256GCM
 nonce : h.nonce.length = nonceLen
 blank : h.aead = aeadNone → h.nonce = List.replicate nonceLen 0

variable {codec : Codec}

theorem byID_eq_some {id : UInt8} : Codec.byID id = some codec ↔ codec.id = id := by
 constructor
 · intro found
   have same := List.find?_some found
   exact eq_of_beq same
 · rintro rfl
   cases codec <;> rfl

variable {h : Header}

theorem length_marshalHeader (readable : Readable h) :
  (marshalHeader h).length = headerSize h.aead := by
 have nonce := readable.nonce
 have magic : envelopeMagic.length = 8 := rfl
 rcases readable.aead with none | gcm
 · have other : ¬ aeadNone = aeadAES256GCM := by decide
   simp [marshalHeader, headerSize, none, magic, other, headerEndSize]
 · have other : ¬ aeadAES256GCM = aeadNone := by decide
   simp [marshalHeader, headerSize, gcm, magic, other, nonce, headerMaxSize, nonceLen]

theorem split_fixed {src : Bytes} (long : 12 ≤ src.length) :
  src = src.take 8 ++ [src.getD 8 0, src.getD 9 0, src.getD 10 0, src.getD 11 0] ++ src.drop
  12 := by
 have step : ∀ k, k < 12 → src.drop k = src.getD k 0 :: src.drop (k + 1) := by
  intro k small
  have bound : k < src.length := by omega
  rw [List.drop_eq_getElem_cons bound, List.getD_eq_getElem?_getD, List.getElem?_eq_getElem bound,
   Option.getD_some]
 conv_lhs => rw [← List.take_append_drop 8 src, step 8 (by decide), step 9 (by decide),
  step 10 (by decide), step 11 (by decide)]
 simp only [List.append_assoc, List.cons_append, List.nil_append]

theorem marshal_of_parseHeader {src : Bytes} {n : Nat} (parsed : parseHeader src = .ok (h, n)) :
  Readable h ∧ n = (marshalHeader h).length ∧ src = marshalHeader h ++ src.drop n := by
 unfold parseHeader at parsed
 split at parsed
 · cases parsed
 rename_i long
 have long : 12 ≤ src.length := Nat.le_of_not_lt long
 split at parsed
 · cases parsed
 rename_i magic
 have magic : src.take 8 = envelopeMagic := not_not.mp magic
 dsimp only at parsed
 split at parsed
 · cases parsed
 rename_i version
 split at parsed
 · cases parsed
 rename_i codec known
 have codecByte : codec.id = src.getD 9 0 := byID_eq_some.mp known
 split at parsed
 · cases parsed
 rename_i aead
 have aead : src.getD 10 0 = aeadNone ∨ src.getD 10 0 = aeadAES256GCM := by
  by_contra other
  exact aead (not_or.mp other)
 split at parsed
 · cases parsed
 rename_i whole
 cases parsed
 have split := split_fixed long
 rw [magic] at split
 rcases aead with none | gcm
 · have readable : Readable ⟨src.getD 8 0, codec, src.getD 10 0, src.getD 11 0,
     if src.getD 10 0 = aeadNone then List.replicate nonceLen 0
     else (src.drop headerEndSize).take nonceLen⟩ := by
    rw [if_pos none]
    exact ⟨version, .inl none, List.length_replicate, fun _ => rfl⟩
   refine ⟨readable, (length_marshalHeader readable).symm, ?_⟩
   have other : ¬ aeadNone = aeadAES256GCM := by decide
   simp only [marshalHeader, none, if_neg other, headerSize, if_true, codecByte, List.append_nil]
   rw [none] at split
   exact split
 · have other : ¬ aeadAES256GCM = aeadNone := by decide
   have long' : 24 ≤ src.length := by
    rw [gcm] at whole
    exact Nat.le_of_not_lt whole
   have readable : Readable ⟨src.getD 8 0, codec, src.getD 10 0, src.getD 11 0,
     if src.getD 10 0 = aeadNone then List.replicate nonceLen 0
     else (src.drop headerEndSize).take nonceLen⟩ := by
    rw [gcm, if_neg other]
    refine ⟨version, .inr rfl, ?_, fun clear => absurd clear other⟩
    simp only [List.length_take, List.length_drop, headerEndSize, nonceLen]
    omega
   refine ⟨readable, (length_marshalHeader readable).symm, ?_⟩
   have rest : (src.drop 12).take 12 ++ src.drop 24 = src.drop 12 := by
    have joined := List.take_append_drop 12 (src.drop 12)
    rwa [List.drop_drop] at joined
   simp only [marshalHeader, gcm, if_neg other, if_true, headerSize, codecByte, headerEndSize,
    nonceLen, headerMaxSize]
   rw [gcm] at split
   rw [List.append_assoc, rest]
   exact split

theorem parseHeader_marshal (readable : Readable h) (rest : Bytes) :
  parseHeader (marshalHeader h ++ rest) = .ok (h, (marshalHeader h).length) := by
 have size := length_marshalHeader readable
 have whole : ¬ (marshalHeader h ++ rest).length < headerSize h.aead := by
  rw [List.length_append, size]
  omega
 have fixed : ¬ (marshalHeader h ++ rest).length < headerEndSize := by
  have least : headerEndSize ≤ headerSize h.aead := by
   unfold headerSize
   split <;> decide
  omega
 have magic : (marshalHeader h ++ rest).take 8 = envelopeMagic := rfl
 have version : (marshalHeader h ++ rest).getD 8 0 = h.version := rfl
 have codec : (marshalHeader h ++ rest).getD 9 0 = h.codec.id := rfl
 have aead : (marshalHeader h ++ rest).getD 10 0 = h.aead := rfl
 have flags : (marshalHeader h ++ rest).getD 11 0 = h.flags := rfl
 have known : Codec.byID h.codec.id = some h.codec := byID_eq_some.mpr rfl
 have cipher : ¬ (h.aead ≠ aeadNone ∧ h.aead ≠ aeadAES256GCM) := by
  rintro ⟨keyed, other⟩
  exact readable.aead.elim keyed other
 have nonce : (if h.aead = aeadNone then List.replicate nonceLen 0
   else ((marshalHeader h ++ rest).drop headerEndSize).take nonceLen) = h.nonce := by
  rcases readable.aead with none | gcm
  · rw [if_pos none, readable.blank none]
  · have other : ¬ h.aead = aeadNone := by
     rw [gcm]
     decide
    have stored : (marshalHeader h ++ rest).drop headerEndSize = h.nonce ++ rest := by
     simp only [marshalHeader, if_pos gcm]
     rfl
    rw [if_neg other, stored, ← readable.nonce, List.take_left]
 unfold parseHeader
 rw [if_neg fixed, if_neg (not_not.mpr magic)]
 simp only [version, codec, aead, flags, known, if_neg readable.version, if_neg cipher,
  if_neg whole, nonce, size]

variable {i : UInt32}

theorem bigEndian32_injective {j : UInt32} (same : bigEndian32 i = bigEndian32 j) : i = j := by
 simp only [bigEndian32, List.cons.injEq, and_true] at same
 obtain ⟨first, second, third, fourth⟩ := same
 have byte : ∀ {x y : UInt32}, x.toUInt8 = y.toUInt8 → x.toNat % 256 = y.toNat % 256 := by
  intro x y equal
  have numbers := congrArg UInt8.toNat equal
  simpa only [UInt32.toNat_toUInt8] using numbers
 have first := byte first
 have second := byte second
 have third := byte third
 have fourth := byte fourth
 simp only [UInt32.toNat_shiftRight, Nat.shiftRight_eq_div_pow] at first second third
 have bound := i.toNat_lt
 have bound' := j.toNat_lt
 apply UInt32.toNat_inj.mp
 change i.toNat / 2 ^ 24 % 256 = j.toNat / 2 ^ 24 % 256 at first
 change i.toNat / 2 ^ 16 % 256 = j.toNat / 2 ^ 16 % 256 at second
 change i.toNat / 2 ^ 8 % 256 = j.toNat / 2 ^ 8 % 256 at third
 omega

variable {role : Role}

theorem aad_position {j : UInt32}
  (positional : h.flags &&& flagConvergent = 0) (same : aad h role i = aad h role j) : i = j := by
 apply bigEndian32_injective
 simp only [aad, if_pos positional] at same
 split at same
 · exact List.append_cancel_left same
 · exact List.append_cancel_left same

theorem aad_positionless (convergent : ¬ h.flags &&& flagConvergent = 0) (role : Role)
  (i j : UInt32) : aad h role i = aad h role j := by
 simp only [aad, if_neg convergent]

theorem length_sum256 (msg : Bytes) : (sum256 msg).length = 32 := by
 unfold sum256
 simp [wordBytes]

theorem length_convergentNonce (nonceKey ad payload : Bytes) :
  (convergentNonce nonceKey ad payload).length = nonceLen := by
 simp only [convergentNonce, hmacSha256, List.length_take, length_sum256]
 decide

variable {nonceKey : Bytes} {call : SealCall}

theorem readable_header (drawn : call.drawn.length = nonceLen) :
  Readable (call.header nonceKey) where
 version := by
  change ¬ (envelopeVersion < envelopeVersionLegacy ∨ envelopeVersion < envelopeVersion)
  decide
 aead := .inr rfl
 nonce := by
  obtain ⟨mode, _, role, chunkIndex, codec, payload⟩ := call
  cases mode with
  | random => exact drawn
  | convergent => exact length_convergentNonce _ _ _
 blank := by
  intro clear
  change aeadAES256GCM = aeadNone at clear
  exact absurd clear (by decide)

theorem aad_header (nonceKey : Bytes) (reach : call.At i) :
  aad (call.header nonceKey) call.role i = call.ad := by
 obtain ⟨mode, drawn, role, chunkIndex, codec, payload⟩ := call
 rcases reach with convergent | same
 · subst convergent
   have positionless : ¬ (sealHeader .convergent codec).flags &&& flagConvergent = 0 := by
    change ¬ flagConvergent &&& flagConvergent = 0
    decide
   exact aad_positionless positionless role i chunkIndex
 · subst same
   rfl

theorem at_of_aad (same : aad (call.header nonceKey) call.role i = call.ad) : call.At i := by
 obtain ⟨mode, drawn, role, chunkIndex, codec, payload⟩ := call
 cases mode with
 | convergent => exact .inl rfl
 | random =>
  have positional : (sealHeader .random codec).flags &&& flagConvergent = 0 := by
   change (0 : UInt8) &&& flagConvergent = 0
   decide
  exact .inr (aad_position positional same).symm

def CorrectUnder (ae : Aead) (dek nonceKey : Bytes) (history : List SealCall) : Prop :=
 ∀ call ∈ history,
  ae.open_ dek (call.nonce nonceKey) (ae.seal_ dek (call.nonce nonceKey) call.payload call.ad)
   call.ad = some call.payload

variable {ae : Aead} {dek blob payload : Bytes}

theorem keyed_open_iff : (Opener.keyed dek).open ae role i blob = .ok (payload, codec) ↔
   ∃ h body, Readable h ∧ blob = marshalHeader h ++ body ∧ h.aead = aeadAES256GCM ∧
    h.codec = codec ∧ ae.open_ dek h.nonce body (aad h role i) = some payload := by
 constructor
 · intro opened
   unfold Opener.open at opened
   cases parsed : parseHeader blob with
   | error e => simp [parsed] at opened
   | ok pair =>
    obtain ⟨h, n⟩ := pair
    obtain ⟨readable, -, split⟩ := marshal_of_parseHeader parsed
    simp only [parsed] at opened
    split at opened
    · cases opened
    rename_i keyed
    split at opened
    · cases opened
    rename_i found
    cases opened
    exact ⟨h, blob.drop n, readable, split, readable.aead.resolve_left keyed, rfl, found⟩
 · rintro ⟨h, body, readable, rfl, gcm, rfl, found⟩
   have keyed : ¬ h.aead = aeadNone := by
    rw [gcm]
    decide
   simp only [Opener.open, parseHeader_marshal readable, if_neg keyed, List.drop_left, found]

theorem clear_open_iff : Opener.clear.open ae role i blob = .ok (payload, codec) ↔
   ∃ h, Readable h ∧ blob = marshalHeader h ++ payload ∧ h.aead = aeadNone ∧ h.codec = codec := by
 constructor
 · intro opened
   unfold Opener.open at opened
   cases parsed : parseHeader blob with
   | error e => simp [parsed] at opened
   | ok pair =>
    obtain ⟨h, n⟩ := pair
    obtain ⟨readable, -, split⟩ := marshal_of_parseHeader parsed
    simp only [parsed] at opened
    split at opened
    · rename_i clear
      cases opened
      exact ⟨h, readable, split, clear, rfl⟩
    · cases opened
 · rintro ⟨h, readable, rfl, clear, rfl⟩
   simp only [Opener.open, parseHeader_marshal readable, if_pos clear, List.drop_left]

variable {history : List SealCall}

theorem open_of_sealed (correct : CorrectUnder ae dek nonceKey history) (member : call ∈ history)
  (drawn : call.drawn.length = nonceLen) (reach : call.At i) :
  (Opener.keyed dek).open ae call.role i (call.blob ae dek nonceKey) =
   .ok (call.payload, call.codec) := by
 apply keyed_open_iff.mpr
 refine ⟨call.header nonceKey, ae.seal_ dek (call.nonce nonceKey) call.payload call.ad,
  readable_header drawn, SealCall.blob_eq ae dek nonceKey call, rfl, rfl, ?_⟩
 rw [aad_header nonceKey reach]
 exact correct call member

theorem sealed_of_open (ideal : IdealUnder ae dek nonceKey history)
  (opened : (Opener.keyed dek).open ae role i blob = .ok (payload, codec)) :
  ∃ call ∈ history, blob = call.blob ae dek nonceKey ∧ call.role = role ∧ call.codec = codec ∧
   call.payload = payload ∧ call.At i := by
 obtain ⟨h, body, -, split, -, rfl, found⟩ := keyed_open_iff.mp opened
 obtain ⟨call, member, sameNonce, sameAd, samePayload, sameText⟩ := ideal _ _ _ _ found
 have current : ¬ (sealHeader call.mode call.codec).version < envelopeVersionRole := by
  change ¬ envelopeVersion < envelopeVersionRole
  decide
 obtain ⟨sameVersion, sameCodec, sameCipher, sameFlags, sameRole⟩ := aad_eq current sameAd
 -- every header byte is authenticated, so the header is the one the call wrote
 have header : h = call.header nonceKey := by
  obtain ⟨version, codec, aead, flags, nonce⟩ := h
  simp only [SealCall.header, Header.mk.injEq]
  exact ⟨sameVersion, sameCodec, sameCipher, sameFlags, sameNonce⟩
 have body_eq : body = ae.seal_ dek (call.nonce nonceKey) call.payload call.ad := by
  rw [sameText, sameNonce, samePayload, sameAd]
 have reach : call.At i := by
  rw [header, sameRole] at sameAd
  exact at_of_aad sameAd
 refine ⟨call, member, ?_, sameRole.symm, sameCodec.symm, samePayload.symm, reach⟩
 rw [SealCall.blob_eq, split, header, body_eq]

/-- Under an ideal cipher and any history of sealing under one key, the keyed opener accepts the
sealed blobs in their role and reach and nothing else. The opener without a key accepts the
well-formed envelopes that carry their payload in the clear and nothing else, so no sealed blob. -/
theorem envelope_integrity
  (ideal : IdealUnder ae dek nonceKey history) (correct : CorrectUnder ae dek nonceKey history)
  (drawn : ∀ call ∈ history, call.drawn.length = nonceLen) (role : Role) (i : UInt32)
  (blob payload : Bytes) (codec : Codec) :
  ((Opener.keyed dek).open ae role i blob = .ok (payload, codec) ↔
   ∃ call ∈ history, blob = call.blob ae dek nonceKey ∧ call.role = role ∧ call.codec = codec ∧
    call.payload = payload ∧ call.At i) ∧
  ((Opener.keyed dek).open ae role i blob = .ok (payload, codec) →
   blob.take 11 = envelopeMagic ++ [envelopeVersion, codec.id, aeadAES256GCM]) ∧
  (Opener.clear.open ae role i blob = .ok (payload, codec) ↔
   ∃ version flags, envelopeVersionLegacy ≤ version ∧ version ≤ envelopeVersion ∧
    blob = envelopeMagic ++ [version, codec.id, aeadNone, flags] ++ payload) ∧
  ∀ call ∈ history, Opener.clear.open ae role i (call.blob ae dek nonceKey) =
   .error .keyRequired := by
 refine ⟨⟨sealed_of_open ideal, ?_⟩, ?_, ⟨?_, ?_⟩, ?_⟩
 · rintro ⟨call, member, rfl, rfl, rfl, rfl, reach⟩
   exact open_of_sealed correct member (drawn call member) reach
 · intro opened
   obtain ⟨call, -, rfl, -, rfl, -, -⟩ := sealed_of_open ideal opened
   rw [SealCall.blob_eq]
   rfl
 · intro opened
   obtain ⟨h, readable, split, clear, rfl⟩ := clear_open_iff.mp opened
   have version := not_or.mp readable.version
   refine ⟨h.version, h.flags, UInt8.not_lt.mp version.1, UInt8.not_lt.mp version.2, ?_⟩
   have other : ¬ aeadNone = aeadAES256GCM := by decide
   simpa only [marshalHeader, clear, if_neg other, List.append_nil] using split
 · rintro ⟨version, flags, least, most, rfl⟩
   have readable : Readable ⟨version, codec, aeadNone, flags, List.replicate nonceLen 0⟩ := by
    refine ⟨?_, .inl rfl, List.length_replicate, fun _ => rfl⟩
    exact not_or.mpr ⟨UInt8.not_lt.mpr least, UInt8.not_lt.mpr most⟩
   exact clear_open_iff.mpr ⟨_, readable, rfl, rfl, rfl⟩
 · intro call member
   have readable : Readable (call.header nonceKey) := readable_header (drawn call member)
   have parsed := parseHeader_marshal readable
   have keyed : ¬ aeadAES256GCM = aeadNone := by decide
   rw [SealCall.blob_eq]
   simp only [Opener.open, parsed]
   exact if_neg keyed

def recordedCipher (nonce payload ad : Bytes) : Aead where
 seal_ _ _ text _ := text ++ [16]
 open_ _ nonce' ciphertext ad' :=
  if nonce' = nonce ∧ ciphertext = payload ++ [16] ∧ ad' = ad then some payload else none

def recordedCall : SealCall := ⟨.random, List.replicate 12 7, .data, 5, .zstd, [1, 2]⟩

/-- The recorded blob opens in its own role and index, and not at the next index. -/
theorem recorded_blob_opens_at_five :
  let ae := recordedCipher (recordedCall.nonce [9]) [1, 2] recordedCall.ad
  (Opener.keyed [8]).open ae .data 5 (recordedCall.blob ae [8] [9]) = .ok ([1, 2], .zstd) ∧
   (Opener.keyed [8]).open ae .data 6 (recordedCall.blob ae [8] [9]) ≠ .ok ([1, 2], .zstd) := by
 intro ae
 have ideal : IdealUnder ae [8] [9] [recordedCall] := by
  intro nonce ciphertext ad payload opened
  simp only [ae, recordedCipher] at opened
  split at opened
  · rename_i same
    obtain ⟨rfl, rfl, rfl⟩ := same
    cases opened
    exact ⟨recordedCall, List.mem_singleton_self _, rfl, rfl, rfl, rfl⟩
  · cases opened
 have correct : CorrectUnder ae [8] [9] [recordedCall] := by
  intro call member
  obtain rfl := List.mem_singleton.mp member
  decide +kernel
 have drawn : ∀ call ∈ [recordedCall], call.drawn.length = nonceLen := by decide
 have at_ := fun i => (envelope_integrity ideal correct drawn .data i
  (recordedCall.blob ae [8] [9]) [1, 2] .zstd).1
 refine ⟨(at_ 5).mpr ⟨recordedCall, List.mem_singleton_self _, rfl, rfl, rfl, rfl, .inr rfl⟩, ?_⟩
 intro opened
 obtain ⟨call, member, -, -, -, -, reach⟩ := (at_ 6).mp opened
 obtain rfl := List.mem_singleton.mp member
 rcases reach with mode | index
 · cases mode
 · exact absurd index (by decide)

end BackImage.Crypt.Integrity
