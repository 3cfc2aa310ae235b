/- source: pkg/protocol/backimage.proto, pkg/protocol/frame.go
  digest: The messages of a session, and frames that are read back as they were written. -/

import BackImage.Go.Text
import BackImage.Lib.Reading

namespace BackImage.Protocol.Frames

open Go.Text Lib.Reading

def version : UInt32 := 2

def minVersion : UInt32 := 1

def supported (v : UInt32) : Bool := minVersion ≤ v && v ≤ version

def maxFrameSize : Nat := 4 <<< 20

inductive FrameType
 | control
 | data
 | keepalive
 deriving DecidableEq

structure Hello where
 protocolVersion : UInt32
 sessionId : Str
 authToken : Str
 deriving DecidableEq

structure BackupStart where
 reference : Str
 layerCount : UInt32
 estimatedBytes : UInt64
 deriving DecidableEq

structure LayerStart where
 index : UInt32
 size : UInt64
 sha256 : Str
 diffId : Str
 mediaType : Str
 deriving DecidableEq

structure LayerEnd where
 index : UInt32
 digest : Str
 deriving DecidableEq

structure StreamStart where
 reference : Str
 estimatedBytes : UInt64
 deriving DecidableEq

structure StreamEnd where
 rawBytes : UInt64
 deriving DecidableEq

structure Token where
 value : Str
 expiresAtUnix : Int64
 repository : Str
 actions : List Str
 anonymous : Bool
 deriving DecidableEq

inductive ClientMessage
 | hello (m : Option Hello)
 | backupStart (m : Option BackupStart)
 | layerStart (m : Option LayerStart)
 | layerEnd (m : Option LayerEnd)
 | streamStart (m : Option StreamStart)
 | streamEnd (m : Option StreamEnd)
 | token (m : Option Token)
 | cancel (reason : Str)
 | error (message : Str)
 | empty
 deriving DecidableEq

structure TokenRequest where
 repository : Str
 actions : List Str
 deriving DecidableEq

structure HelloAck where
 serverVersion : Str
 protocolVersion : UInt32
 streaming : Bool
 maxBytes : UInt64
 allowedRepoPrefixes : List Str
 resumable : Bool
 knownBlobDigests : List Str
 deriving DecidableEq

structure BackupEnd where
 digest : Str
 bytesUploaded : UInt64
 blobsSkipped : UInt32
 rawBytes : UInt64
 storedBytes : UInt64
 layers : UInt32
 chunks : UInt32
 files : Int64
 deriving DecidableEq

variable {σ ε : Type}

abbrev Frame := UInt8 × Bytes

def validFrameType (t : UInt8) : Bool := t = 1 || t = 2 || t = 3

def putUint32 (n : Nat) : Bytes :=
 [UInt8.ofNat (n / 16777216), UInt8.ofNat (n / 65536), UInt8.ofNat (n / 256), UInt8.ofNat n]

def uint32 (b : Bytes) : Nat := b.foldl (fun n x => n * 256 + x.toNat) 0

inductive WriteError
 | frameType (t : UInt8)
 | tooLarge (got : Nat)
 | write (cause : Str)

inductive ReadError (ε : Type)
 | eof
 | unexpectedEof
 | source (cause : ε)
 | frameType (t : UInt8)
 | tooLarge (got : Nat)

def writeFrame (refuses : Bytes → Option Str) (t : UInt8) (payload : Bytes) :
  Bytes × Except WriteError Unit :=
 if ¬ validFrameType t then ([], .error (.frameType t))
 else if maxFrameSize < payload.length then ([], .error (.tooLarge payload.length))
 else
  let header := t :: putUint32 payload.length
  match refuses header with
  | some e => ([], .error (.write e))
  | none =>
   if payload = [] then (header, .ok ())
   else
    match refuses payload with
    | some e => (header, .error (.write e))
    | none => (header ++ payload, .ok ())

def readFullError (got : Bytes) : End ε → ReadError ε
 | .failed e => .source e
 | .eof => if got = [] then .eof else .unexpectedEof

def readFrame (r : Reader σ UInt8 ε) (s : σ) (cap : Nat) : σ × Nat × Except (ReadError ε) Frame :=
 match r.advance 5 s with
 | (s, got, some e) => (s, cap, .error (readFullError got e))
 | (s, header, none) =>
  let t := header.headD 0
  let n := uint32 (header.drop 1)
  if ¬ validFrameType t then (s, cap, .error (.frameType t))
  else if maxFrameSize < n then (s, cap, .error (.tooLarge n))
  else
   let cap := if cap < n then n else cap
   match r.advance n s with
   | (s, got, some e) => (s, cap, .error (readFullError got e))
   | (s, payload, none) => (s, cap, .ok (t, payload))

def readFrames (r : Reader σ UInt8 ε) : Nat → σ → Nat → List Frame × σ × Nat × Option (ReadError ε)
 | 0, s, cap => ([], s, cap, none)
 | n + 1, s, cap =>
  match readFrame r s cap with
  | (s, cap, .error e) => ([], s, cap, some e)
  | (s, cap, .ok f) =>
   let (fs, rest) := readFrames r n s cap
   (f :: fs, rest)

structure Sendable (f : Frame) : Prop where
 valid : validFrameType f.1 = true
 fits : f.2.length ≤ maxFrameSize

def encode (f : Frame) : Bytes := f.1 :: putUint32 f.2.length ++ f.2

theorem uint32_putUint32 {n : Nat} (small : n < 4294967296) : uint32 (putUint32 n) = n := by
 simp only [uint32, putUint32, List.foldl_cons, List.foldl_nil, UInt8.toNat_ofNat']
 omega

theorem putUint32_uint32 (a b c d : UInt8) : putUint32 (uint32 [a, b, c, d]) = [a, b, c, d] := by
 have := a.toNat_lt
 have := b.toNat_lt
 have := c.toNat_lt
 have := d.toNat_lt
 simp only [uint32, putUint32, List.foldl_cons, List.foldl_nil, List.cons.injEq, and_true,
  ← UInt8.toNat_inj,
  UInt8.toNat_ofNat']
 omega

theorem writeFrame_eq {f : Frame} (sendable : Sendable f) :
  writeFrame (fun _ => none) f.1 f.2 = (encode f, .ok ()) := by
 have fits : ¬ maxFrameSize < f.2.length := Nat.not_lt.mpr sendable.fits
 unfold writeFrame encode
 by_cases empty : f.2 = []
 · simp [sendable.valid, empty]
 · simp [sendable.valid, fits, empty]

theorem five_bytes {data : Bytes} (long : 5 ≤ data.length) :
  ∃ x a b c d rest, data = x :: a :: b :: c :: d :: rest := by
 rcases data with _ | ⟨x, _ | ⟨a, _ | ⟨b, _ | ⟨c, _ | ⟨d, rest⟩⟩⟩⟩⟩
 all_goals first
  | exact ⟨x, a, b, c, d, rest, rfl⟩
  | exact absurd long (by simp)

section Read

variable {r : Reader σ UInt8 ε} (sticky : r.Sticky) {s : σ} (cap : Nat) {f : Frame}

include sticky

theorem readFrame_encode (sendable : Sendable f) {rest : Bytes}
  (starts : r.content s = encode f ++ rest) :
  ∃ t, readFrame r s cap = (t, if cap < f.2.length then f.2.length else cap, .ok f) ∧
   r.content t = rest ∧ r.final t = r.final s := by
 obtain ⟨t, ran, left, stays⟩ := r.advance_spec sticky 5 s
 obtain ⟨u, filled, behind, remains⟩ := r.advance_spec sticky f.2.length t
 have size : uint32 (putUint32 f.2.length) = f.2.length :=
  uint32_putUint32 (Nat.lt_of_le_of_lt sendable.fits (by decide))
 have header : (r.content s).take 5 = f.1 :: putUint32 f.2.length := by
  rw [starts]
  rfl
 have payload : r.content t = f.2 ++ rest := by
  rw [left, starts]
  rfl
 have long : 5 ≤ (r.content s).length := by
  rw [starts]
  simp [encode, putUint32]
 rw [payload, List.take_left, if_pos (by simp)] at filled
 refine ⟨u, ?_, by rw [behind, payload, List.drop_left], remains.trans stays⟩
 rw [readFrame, ran, if_pos long, header]
 simp only [List.headD_cons, List.drop_succ_cons, List.drop_zero, size, sendable.valid,
  Nat.not_lt.mpr sendable.fits, filled, not_true_eq_false, if_false]

theorem readFrame_ok {t : σ} {cap' : Nat} (result : readFrame r s cap = (t, cap', .ok f)) :
  Sendable f ∧ r.content s = encode f ++ r.content t := by
 obtain ⟨u, ran, left, -⟩ := r.advance_spec sticky 5 s
 by_cases long : 5 ≤ (r.content s).length
 · obtain ⟨x, a, b, c, d, rest, is⟩ := five_bytes long
   obtain ⟨v, filled, behind, -⟩ := r.advance_spec sticky (uint32 [a, b, c, d]) u
   rw [if_pos long, is] at ran
   unfold readFrame at result
   simp only [ran, filled, List.take_succ_cons, List.take_zero, List.headD_cons,
    List.drop_succ_cons,
    List.drop_zero] at result
   split at result
   · cases result
   · rename_i valid
     split at result
     · cases result
     · rename_i fits
       by_cases enough : uint32 [a, b, c, d] ≤ (r.content u).length
       · simp only [enough, if_true] at result
         cases result
         have length : ((r.content u).take (uint32 [a, b, c, d])).length = uint32 [a, b, c, d] := by
          rw [List.length_take]
          omega
         refine ⟨⟨by simpa using valid, by rw [length]; exact Nat.not_lt.mp fits⟩, ?_⟩
         rw [encode, length, putUint32_uint32, is, behind, List.append_assoc, List.take_append_drop,
          left, is]
         rfl
       · simp only [enough, if_false] at result
         cases result
 · unfold readFrame at result
   rw [if_neg long] at ran
   simp only [ran] at result
   cases result

omit sticky in
theorem readFrame_cap : (readFrame r s cap).2.1 ≤ max cap maxFrameSize := by
 unfold readFrame
 split
 · exact Nat.le_max_left _ _
 · simp only
   split
   · exact Nat.le_max_left _ _
   · split
     · exact Nat.le_max_left _ _
     · split <;> (simp only; split <;> omega)

theorem readFrame_end (empty : r.content s = []) (regular : r.final s = .eof) :
  ∃ t, readFrame r s cap = (t, cap, .error .eof) := by
 obtain ⟨t, ran, -, -⟩ := r.advance_spec sticky 5 s
 rw [empty, regular] at ran
 refine ⟨t, ?_⟩
 rw [readFrame, ran]
 rfl

theorem readFrames_encode {fs : List Frame} (sendable : ∀ f ∈ fs, Sendable f) {rest : Bytes}
  (starts : r.content s = fs.flatMap encode ++ rest) : ∃ t cap', r.content t = rest ∧
  r.final t = r.final s ∧
   cap' ≤ max cap maxFrameSize ∧
   ∀ n, readFrames r (fs.length + n) s cap =
   (fs ++ (readFrames r n t cap').1, (readFrames r n t cap').2) := by
 induction fs generalizing s cap with
 | nil => exact ⟨s, cap, starts, rfl, Nat.le_max_left _ _, fun n => by simp⟩
 | cons f fs ih =>
  obtain ⟨here, later⟩ := List.forall_mem_cons.mp sendable
  rw [List.flatMap_cons, List.append_assoc] at starts
  obtain ⟨t, read, left, stays⟩ := readFrame_encode sticky cap here starts
  have bounded : (if cap < f.2.length then f.2.length else cap) ≤ max cap maxFrameSize := by
   have grown := @readFrame_cap _ _ r s cap
   rwa [read] at grown
  obtain ⟨u, cap', behind, remains, small, runs⟩ :=
   ih (if cap < f.2.length then f.2.length else cap) later left
  refine ⟨u, cap', behind, remains.trans stays, by omega, fun n => ?_⟩
  rw [List.length_cons, Nat.add_right_comm, readFrames, read]
  simp only [runs n, List.cons_append]

end Read

def written (fs : List Frame) : Bytes := fs.flatMap fun f => (writeFrame (fun _ => none) f.1 f.2).1

theorem written_eq {fs : List Frame} (sendable : ∀ f ∈ fs, Sendable f) :
  written fs = fs.flatMap encode := by
 refine List.flatMap_congr fun f member => ?_
 rw [writeFrame_eq (sendable f member)]

/-- Frames are read back as they were written, then the end, and no read takes a byte of a later
frame; and for any stream, a frame is read exactly when its encoding is at the front, while the
buffer never grows beyond the largest frame. -/
theorem frames_round_trip (r : Reader σ UInt8 ε) (sticky : r.Sticky) (s : σ) (cap : Nat) :
  (∀ fs : List Frame, (∀ f ∈ fs, Sendable f) → r.content s = written fs → r.final s = .eof →
    (∀ k ≤ fs.length, ∃ t cap', readFrames r k s cap = (fs.take k, t, cap', none) ∧
     r.content t = written (fs.drop k)) ∧
    ∃ t cap', readFrames r (fs.length + 1) s cap = (fs, t, cap', some .eof)) ∧
   (readFrame r s cap).2.1 ≤ max cap maxFrameSize ∧
   ∀ f, (∃ t cap', readFrame r s cap = (t, cap', .ok f)) ↔ Sendable f ∧
   written [f] <+: r.content s := by
 refine ⟨?_, readFrame_cap cap, ?_⟩
 · intro fs sendable starts regular
   refine ⟨?_, ?_⟩
   · intro k within
     have front : ∀ f ∈ fs.take k, Sendable f :=
      fun f member => sendable f (List.mem_of_mem_take member)
     have back : ∀ f ∈ fs.drop k, Sendable f :=
      fun f member => sendable f (List.mem_of_mem_drop member)
     have split : r.content s = (fs.take k).flatMap encode ++ (fs.drop k).flatMap encode := by
      rw [starts, written_eq sendable, ← List.flatMap_append, List.take_append_drop]
     obtain ⟨t, cap', left, -, -, runs⟩ := readFrames_encode sticky cap front split
     refine ⟨t, cap', ?_, by rw [left, written_eq back]⟩
     have ran := runs 0
     rw [List.length_take, Nat.min_eq_left within] at ran
     simpa [readFrames] using ran
   · rw [written_eq sendable, ← List.append_nil (fs.flatMap encode)] at starts
     obtain ⟨t, cap', left, stays, -, runs⟩ := readFrames_encode sticky cap sendable starts
     obtain ⟨u, ends⟩ := readFrame_end sticky cap' left (stays.trans regular)
     refine ⟨u, cap', ?_⟩
     rw [runs 1]
     simp [readFrames, ends]
 · intro f
   constructor
   · rintro ⟨t, cap', read⟩
     obtain ⟨sendable, starts⟩ := readFrame_ok sticky cap read
     refine ⟨sendable, ?_⟩
     rw [written_eq (by simpa using sendable), starts]
     simp
   · rintro ⟨sendable, rest, starts⟩
     rw [written_eq (by simpa using sendable)] at starts
     have front : r.content s = encode f ++ rest := by simpa using starts.symm
     obtain ⟨t, read, -, -⟩ := readFrame_encode sticky cap sendable front
     exact ⟨t, _, read⟩

theorem two_frames_read_back :
  ∃ t cap', readFrames Script.reader 3 ⟨[[2, 0, 0], [0, 1, 9, 3], [0, 0, 0, 0]], .eof, true⟩ 0 =
   ([(2, [9]), (3, [])], t, cap', some (.eof : ReadError Str)) := by
 refine ((frames_round_trip Script.reader Script.reader_sticky _ 0).1 [(2, [9]), (3, [])] ?_
  (by decide) rfl).2
 intro f member
 simp only [List.mem_cons, List.not_mem_nil, or_false] at member
 rcases member with rfl | rfl <;> exact ⟨by decide, by decide⟩

end BackImage.Protocol.Frames
