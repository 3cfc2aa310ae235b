/- source: pkg/crypt/envelope.go, pkg/crypt/chunk.go, pkg/compress/registry.go, pkg/crypt/key.go,
     pkg/crypt/keyfile.go
  digest: The blob envelope with its sealers and openers, key material, and unwrapping a key
    file. -/

import BackImage.Go.Sha256
import BackImage.Lib.Reading

namespace BackImage.Crypt.Envelope

open Go.Sha256 Go.Text Lib.Reading

inductive Codec
 | store | gzip | zstd | xz | lz4
 deriving DecidableEq

def Codec.id : Codec → UInt8
 | .store => 0
 | .gzip => 1
 | .zstd => 2
 | .xz => 3
 | .lz4 => 4

def Codec.byID (id : UInt8) : Option Codec :=
 [Codec.store, .gzip, .zstd, .xz, .lz4].find? fun c => c.id == id

inductive Role
 | data | index | confidential
 deriving DecidableEq

def Role.byte : Role → UInt8
 | .data => 0
 | .index => 1
 | .confidential => 2

def envelopeMagic : Bytes := lit "BIMGCHK1"
def envelopeVersionLegacy : UInt8 := 1
def envelopeVersionRole : UInt8 := 2

def envelopeVersion : UInt8 := 3

def aeadNone : UInt8 := 0
def aeadAES256GCM : UInt8 := 1
def flagConvergent : UInt8 := 1
def nonceLen : Nat := 12
def headerEndSize : Nat := 12
def headerMaxSize : Nat := 24

structure Header where
 version : UInt8
 codec : Codec
 aead : UInt8
 flags : UInt8
 nonce : Bytes
 deriving DecidableEq

def headerSize (aead : UInt8) : Nat := if aead = aeadNone then headerEndSize else headerMaxSize

def marshalHeader (h : Header) : Bytes :=
 envelopeMagic ++ [h.version, h.codec.id, h.aead, h.flags] ++
  if h.aead = aeadAES256GCM then h.nonce else []

def isEnvelope (b : Bytes) : Bool := hasPrefix b envelopeMagic

inductive OpenError
 | shortBlob (size : Nat)
 | notBlob
 | version (got : UInt8)
 | codec (got : UInt8)
 | aead (got : UInt8)
 | shortHeader (need have_ : Nat)
 | unauthenticated
 | integrity
 | keyRequired
 deriving DecidableEq

def parseHeader (src : Bytes) : Except OpenError (Header × Nat) :=
 if src.length < headerEndSize then .error (.shortBlob src.length)
 else if src.take 8 ≠ envelopeMagic then .error .notBlob
 else
  let version := src.getD 8 0
  let aead := src.getD 10 0
  if version < envelopeVersionLegacy ∨ envelopeVersion < version then .error (.version version)
  else
   match Codec.byID (src.getD 9 0) with
   | none => .error (.codec (src.getD 9 0))
   | some codec =>
    if aead ≠ aeadNone ∧ aead ≠ aeadAES256GCM then .error (.aead aead)
    else if src.length < headerSize aead then
     .error (.shortHeader (headerSize aead) src.length)
    else
     let nonce :=
      if aead = aeadNone then List.replicate nonceLen 0
      else (src.drop headerEndSize).take nonceLen
     .ok (⟨version, codec, aead, src.getD 11 0, nonce⟩, headerSize aead)

/-- `binary.BigEndian.PutUint32`. -/
def bigEndian32 (n : UInt32) : Bytes :=
 [(n >>> 24).toUInt8, (n >>> 16).toUInt8, (n >>> 8).toUInt8, n.toUInt8]

def aad (h : Header) (role : Role) (chunkIndex : UInt32) : Bytes :=
 let position := if h.flags &&& flagConvergent = 0 then bigEndian32 chunkIndex else [0, 0, 0, 0]
 let fixed := envelopeMagic ++ [h.version, h.codec.id, h.aead, h.flags]
 if h.version < envelopeVersionRole then fixed ++ position
 else fixed ++ [role.byte] ++ position

structure Aead where
 seal_ : Bytes → Bytes → Bytes → Bytes → Bytes
 open_ : Bytes → Bytes → Bytes → Bytes → Option Bytes

inductive Opener
 | keyed (dek : Bytes)
 | clear
 deriving DecidableEq

def Opener.requiresAuthentication : Opener → Bool
 | .keyed _ => true
 | .clear => false

def Opener.open (ae : Aead) (o : Opener) (role : Role) (chunkIndex : UInt32) (blob : Bytes) :
  Except OpenError (Bytes × Codec) :=
 match parseHeader blob with
 | .error e => .error e
 | .ok (h, n) =>
  match o with
  | .keyed dek =>
   if h.aead = aeadNone then .error .unauthenticated
   else
    match ae.open_ dek h.nonce (blob.drop n) (aad h role chunkIndex) with
    | none => .error .integrity
    | some payload => .ok (payload, h.codec)
  | .clear =>
   if h.aead = aeadNone then .ok (blob.drop n, h.codec) else .error .keyRequired

inductive NonceMode
 | random | convergent
 deriving DecidableEq

def hmacSha256 (key msg : Bytes) : Bytes :=
 let key := if 64 < key.length then sum256 key else key
 let block := key ++ List.replicate (64 - key.length) (0 : UInt8)
 let inner := sum256 (block.map (· ^^^ 0x36) ++ msg)
 sum256 (block.map (· ^^^ 0x5c) ++ inner)

def nonceLabel : Bytes := lit "backimage/nonce/v3" ++ [0]

def convergentNonce (nonceKey aad payload : Bytes) : Bytes :=
 (hmacSha256 nonceKey (nonceLabel ++ aad ++ sum256 payload)).take nonceLen

def sealHeader (mode : NonceMode) (codec : Codec) : Header :=
 ⟨envelopeVersion, codec, aeadAES256GCM,
  match mode with
  | .random => 0
  | .convergent => flagConvergent,
  []⟩

def sealBlob (ae : Aead) (dek nonceKey : Bytes) (mode : NonceMode) (drawn : Bytes) (role : Role)
  (chunkIndex : UInt32) (codec : Codec) (payload : Bytes) : Bytes :=
 let h := sealHeader mode codec
 let authenticated := aad h role chunkIndex
 let nonce :=
  match mode with
  | .random => drawn
  | .convergent => convergentNonce nonceKey authenticated payload
 marshalHeader { h with nonce := nonce } ++ ae.seal_ dek nonce payload authenticated

def schemaVersionLegacy : Int := 1

def schemaVersionAttested : Int := 2

structure KeyMaterial where
 schemaVersion : Int
 envelopeVersion : Int
 nonceMode : Str
 reuse : Str
 dek : Bytes
 nonceKey : Bytes
 deriving DecidableEq, Inhabited

def KeyMaterial.attested (k : KeyMaterial) : Bool := schemaVersionAttested ≤ k.schemaVersion

def KeyMaterial.validate (k : KeyMaterial) : Bool :=
 (k.schemaVersion = schemaVersionLegacy ||
  (k.schemaVersion = schemaVersionAttested && 0 < k.envelopeVersion &&
   (k.nonceMode = lit "random" || k.nonceMode = lit "convergent") &&
   (k.reuse = lit "never" || k.reuse = lit "convergent-dedup"))) &&
  k.dek.length = 32 && k.nonceKey.length = 32

def reuseNever : Str := lit "never"

def reuseConvergentDedup : Str := lit "convergent-dedup"

def nonceModeName : NonceMode → Str
 | .random => lit "random"
 | .convergent => lit "convergent"

def freshMaterial (mode : NonceMode) (reuse : Str) (dek nonceKey : Bytes) : KeyMaterial :=
 ⟨schemaVersionAttested, envelopeVersion.toNat, nonceModeName mode, reuse, dek, nonceKey⟩

def newKeyMaterial (dek nonceKey : Bytes) : KeyMaterial :=
 freshMaterial .random reuseNever dek nonceKey

def newDedupKeyMaterial (dek nonceKey : Bytes) : KeyMaterial :=
 freshMaterial .convergent reuseConvergentDedup dek nonceKey

inductive ReuseError
 | notAttested
 | epoch (attested : Int)
 | nonceMode (attested : Str)
 | notReusable (policy : Str)
 deriving DecidableEq

def KeyMaterial.reusableFor (k : KeyMaterial) (epoch : Int) (mode : NonceMode) :
  Except ReuseError Unit :=
 if k.attested = false then .error .notAttested
 else if k.envelopeVersion ≠ epoch then .error (.epoch k.envelopeVersion)
 else if k.nonceMode ≠ nonceModeName mode then .error (.nonceMode k.nonceMode)
 else if k.reuse ≠ reuseConvergentDedup then .error (.notReusable k.reuse)
 else .ok ()

theorem nonceModeName_injective : Function.Injective nonceModeName := by
 intro a b same
 cases a <;> cases b <;> first | rfl | exact absurd same (by decide)

def newKeyedOpener (k : KeyMaterial) : Option Opener :=
 if k.validate then some (.keyed k.dek) else none

structure Identity where
 passphrase : Bytes
 ageKeyFile : Str
 deriving DecidableEq

inductive UnwrapError
 | identity (cause : Str)
 | wrongPassphrase
 deriving DecidableEq

/-- The age and JSON packages as `UnwrapKeys` uses them: what the credentials parse to, the
decryption of a key file, and the decoding of what it holds. -/
structure Age where
 Identities : Type
 identities : Identity → Except Str (Option Identities)
 decrypt : Identities → Script UInt8 Str → Option Bytes
 decodeKey : Bytes → Option KeyMaterial

def unwrapKeys (age : Age) (id : Identity) (file : Script UInt8 Str) :
  Except UnwrapError KeyMaterial :=
 match age.identities id with
 | .error e => .error (.identity e)
 | .ok none => .error .wrongPassphrase
 | .ok (some identities) =>
  match age.decrypt identities file with
  | none => .error .wrongPassphrase
  | some plain =>
   match age.decodeKey plain with
   | none => .error .wrongPassphrase
   | some km => if km.validate then .ok km else .error .wrongPassphrase

theorem validate_of_unwrapKeys {age : Age} {id : Identity} {file : Script UInt8 Str}
  {km : KeyMaterial} (unwrapped : unwrapKeys age id file = .ok km) : km.validate = true := by
 unfold unwrapKeys at unwrapped
 cases found : age.identities id with
 | error e =>
  rw [found] at unwrapped
  cases unwrapped
 | ok parsed =>
  rw [found] at unwrapped
  cases parsed with
  | none => cases unwrapped
  | some identities =>
   cases plain : age.decrypt identities file with
   | none => simp [plain] at unwrapped
   | some bytes =>
    cases decoded : age.decodeKey bytes with
    | none => simp [plain, decoded] at unwrapped
    | some material =>
     simp only [plain, decoded] at unwrapped
     by_cases valid : material.validate = true
     · rw [if_pos valid] at unwrapped
       cases unwrapped
       exact valid
     · rw [if_neg valid] at unwrapped
       cases unwrapped

end BackImage.Crypt.Envelope
