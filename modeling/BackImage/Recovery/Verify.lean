/- source: pkg/recovery/recovery.go
  digest: The integrity pass over stored digests, plaintexts and the file index. -/

import BackImage.Recovery.StreamTar

namespace BackImage.Recovery.Verify

open Go.Sha256 Go.Text Index.Limiter Index.Model StreamTar Unlock
open Lib.Reading (Script)

inductive VerifyError
 | chunk (cause : ChunkError)
 | storedDigest (i : Nat)
 | plaintext (i : Nat)
 | index (cause : IndexError)
 | integrity
 deriving DecidableEq

structure VerifyResult where
 chunks : Nat
 full : Bool
 ok : Bool
 errors : List VerifyError
 entries : Nat
 deriving DecidableEq

def VerifyResult.add (res : VerifyResult) (e : VerifyError) : VerifyResult :=
 { res with ok := false, errors := res.errors ++ [e] }

def storedFault (b : Backup) (i : Nat) (c : Chunk) : Option VerifyError :=
 match storedChunk b i with
 | .error e => some (.chunk e)
 | .ok stored => if digestMatches c.ss (sum256 stored) = false then some (.storedDigest i) else none

def plainFault (pk : Packages) (run : Schedule) (b : Backup) (i : Nat) (c : Chunk) :
  Option VerifyError :=
 match plainChunkPayload pk b i with
 | .error e => some (.chunk e)
 | .ok (payload, codec) =>
  match pk.newReader codec payload with
  | .error e => some (.chunk (.decompressor i e))
  | .ok d =>
   match (plainReader b i).copy (run.bufs i 0)
     ⟨d.body, 0⟩ with
   | (_, some e) => some (.chunk (.reading i e))
   | (out, none) =>
    match d.closeErr with
    | some e => some (.chunk (.close i e))
    | none =>
     if (out.length : Int) ≠ c.pb.toInt ∨ digestMatches c.ps (sum256 out) = false then
      some (.plaintext i)
     else none

def chunkFault (pk : Packages) (run : Schedule) (b : Backup) (full : Bool) (i : Nat) (c : Chunk) :
  Option VerifyError :=
 match storedFault b i c with
 | some e => some e
 | none => if full then plainFault pk run b i c else none

def verifyFrom (pk : Packages) (run : Schedule) (b : Backup) (full keepGoing : Bool) :
  Nat → List Chunk → VerifyResult → VerifyResult × Option VerifyError
 | _, [], res => (res, none)
 | i, c :: rest, res =>
  match chunkFault pk run b full i c with
  | none => verifyFrom pk run b full keepGoing (i + 1) rest res
  | some e =>
   if keepGoing then verifyFrom pk run b full keepGoing (i + 1) rest (res.add e)
   else (res.add e, some e)

def VerifyResult.finish (res : VerifyResult) : VerifyResult × Except VerifyError Unit :=
 if res.ok then (res, .ok ()) else (res, .error .integrity)

def verify (pk : Packages) (run : Schedule) (b : Backup) (full keepGoing : Bool) :
  VerifyResult × Except VerifyError Unit :=
 match verifyFrom pk run b full keepGoing 0 b.table.chunks
   ⟨b.table.chunks.length, full, true, [], 0⟩ with
 | (res, some e) => (res, .error e)
 | (res, none) =>
  if full then
   match b.index pk with
   | .error e =>
    if keepGoing then (res.add (.index e)).finish
    else (res.add (.index e), .error (.index e))
   | .ok idx => { res with entries := idx.entries.length }.finish
  else res.finish

section Clean

variable {pk : Packages} {run : Schedule} {b : Backup} {full keepGoing : Bool}

/-- No chunk from `i` on has a fault. -/
def Faultless (pk : Packages) (run : Schedule) (b : Backup) (full : Bool) (i : Nat)
  (chunks : List Chunk) : Prop :=
 ∀ j c, chunks[j]? = some c → chunkFault pk run b full (i + j) c = none

variable {i : Nat}

theorem faultless_cons {c : Chunk} {rest : List Chunk} : Faultless pk run b full i (c :: rest) ↔
   chunkFault pk run b full i c = none ∧ Faultless pk run b full (i + 1) rest := by
 constructor
 · intro clean
   refine ⟨clean 0 c rfl, ?_⟩
   intro j d at_j
   rw [show i + 1 + j = i + (j + 1) by omega]
   exact clean (j + 1) d at_j
 · rintro ⟨first, later⟩ j d at_j
   cases j with
   | zero =>
    cases at_j
    exact first
   | succ j =>
    rw [show i + (j + 1) = i + 1 + j by omega]
    exact later j d at_j

variable {chunks : List Chunk} {res : VerifyResult}

theorem verifyFrom_ok_false (bad : res.ok = false) :
  (verifyFrom pk run b full keepGoing i chunks res).1.ok = false := by
 induction chunks generalizing i res with
 | nil => exact bad
 | cons c rest ih =>
  unfold verifyFrom
  split
  · exact ih bad
  · split
    · exact ih rfl
    · rfl

theorem verifyFrom_clean_iff (good : res.ok = true) :
  (verifyFrom pk run b full keepGoing i chunks res).1.ok = true ↔
   Faultless pk run b full i chunks := by
 induction chunks generalizing i with
 | nil =>
  constructor
  · intro _ j c at_j
    cases at_j
  · intro _
    exact good
 | cons c rest ih =>
  rw [faultless_cons]
  unfold verifyFrom
  cases fault : chunkFault pk run b full i c with
  | none => simpa using ih
  | some e =>
   have stays : (verifyFrom pk run b full keepGoing (i + 1) rest (res.add e)).1.ok = false :=
    verifyFrom_ok_false rfl
   cases keepGoing with
   | false => simp [VerifyResult.add]
   | true => simp [stays]

theorem verifyFrom_of_faultless
  (clean : Faultless pk run b full i chunks) :
  verifyFrom pk run b full keepGoing i chunks res = (res, none) := by
 induction chunks generalizing i with
 | nil => rfl
 | cons c rest ih =>
  rw [faultless_cons] at clean
  rw [verifyFrom, clean.1]
  exact ih clean.2

theorem verify_ok_iff : (verify pk run b full keepGoing).2 = .ok () ↔
   Faultless pk run b full 0 b.table.chunks ∧ (full = true → ∃ idx, b.index pk = .ok idx) := by
 by_cases clean : Faultless pk run b full 0 b.table.chunks
 · unfold verify
   rw [verifyFrom_of_faultless clean]
   cases full with
   | false => simp [clean, VerifyResult.finish]
   | true =>
    cases read : b.index pk with
    | error e => cases keepGoing <;> simp [VerifyResult.finish, VerifyResult.add]
    | ok idx => simp [clean, VerifyResult.finish]
 · have bad : (verifyFrom pk run b full keepGoing 0 b.table.chunks
     ⟨b.table.chunks.length, full, true, [], 0⟩).1.ok = false := by
    rw [← Bool.not_eq_true, verifyFrom_clean_iff rfl]
    exact clean
   refine iff_of_false ?_ fun both => clean both.1
   unfold verify
   generalize verifyFrom pk run b full keepGoing 0 b.table.chunks
    ⟨b.table.chunks.length, full, true, [], 0⟩ = ran at bad
   obtain ⟨res, stopped⟩ := ran
   cases stopped with
   | some e => simp
   | none =>
    have flag : res.ok = false := bad
    cases full with
    | false => simp [VerifyResult.finish, flag]
    | true =>
     cases read : b.index pk with
     | error e => cases keepGoing <;> simp [VerifyResult.finish, VerifyResult.add]
     | ok idx => simp [VerifyResult.finish, flag]

end Clean

/-- The stored bytes have the recorded digest, and they open and decompress to a plaintext of the
recorded size and digest. -/
structure Intact (pk : Packages) (b : Backup) (i : Nat) (c : Chunk) (p : Bytes) : Prop where
 stored : ∃ s, storedChunk b i = .ok s ∧ digestMatches c.ss (sum256 s) = true
 opened : ∃ payload codec d, plainChunkPayload pk b i = .ok (payload, codec) ∧
  pk.newReader codec payload = .ok d ∧ d.body.content = p ∧ d.body.last = .eof ∧ d.closeErr = none
 size : (p.length : Int) = c.pb.toInt
 digest : digestMatches c.ps (sum256 p) = true

section Predicts

variable {pk : Packages} {run : Schedule} {b : Backup} {i : Nat} {c : Chunk}

theorem within_plainCap (at_i : b.table.chunks[i]? = some c) {p : Bytes}
  (size : (p.length : Int) = c.pb.toInt) :
  p.length ≤ (plainCap b i).toNatClampNeg := by
 unfold plainCap
 rw [at_i]
 by_cases positive : 0 < c.pb
 · simp only [positive, if_true]
   change p.length ≤ c.pb.toInt.toNat
   omega
 · have none_left : c.pb.toInt ≤ 0 := Int64.le_iff_toInt_le.mp (Int64.not_lt.mp positive)
   omega

theorem limited_copy_iff (at_i : b.table.chunks[i]? = some c) (body : Script UInt8 Str)
  {bufs : Nat → Nat} (room : ∀ k, 0 < bufs k) (p : Bytes) :
  (plainReader b i).copy bufs ⟨body, 0⟩ = (p, none) ∧
    (p.length : Int) = c.pb.toInt ↔
   body.content = p ∧ body.last = .eof ∧ (p.length : Int) = c.pb.toInt := by
 rw [Lib.Reading.Reader.copy_eq _ room, Prod.mk.injEq]
 constructor
 · rintro ⟨⟨content, fine⟩, size⟩
   obtain ⟨whole, ends⟩ := Index.Limiter.limitBytes_whole _ _ _ fine
   refine ⟨whole.symm.trans content, ?_, size⟩
   change body.last.fault = none at ends
   cases last : body.last with
   | eof => rfl
   | failed e =>
    rw [last] at ends
    cases ends
 · rintro ⟨rfl, last, size⟩
   have final := Index.Limiter.limitBytes_final Script.reader (plainCap b i) (plaintextOf i)
    (within_plainCap at_i size)
   have fine : ((plainReader b i).final ⟨body, 0⟩).fault = none := by
    rw [plainReader, final]
    change (body.last.map _).fault = none
    rw [last]
    rfl
   exact ⟨⟨(Index.Limiter.limitBytes_whole _ _ _ fine).1, fine⟩, size⟩

theorem storedFault_none_iff : storedFault b i c = none ↔
   ∃ s, storedChunk b i = .ok s ∧ digestMatches c.ss (sum256 s) = true := by
 unfold storedFault
 cases storedChunk b i <;> simp

theorem plainFault_none_iff (at_i : b.table.chunks[i]? = some c) : plainFault pk run b i c = none ↔
   ∃ p, (∃ payload codec d, plainChunkPayload pk b i = .ok (payload, codec) ∧
     pk.newReader codec payload = .ok d ∧ d.body.content = p ∧ d.body.last = .eof ∧
     d.closeErr = none) ∧
    (p.length : Int) = c.pb.toInt ∧ digestMatches c.ps (sum256 p) = true := by
 unfold plainFault
 constructor
 · intro quiet
   cases fetched : plainChunkPayload pk b i with
   | error e => simp [fetched] at quiet
   | ok pair =>
    obtain ⟨payload, codec⟩ := pair
    cases made : pk.newReader codec payload with
    | error e => simp [fetched, made] at quiet
    | ok d =>
     simp only [fetched, made] at quiet
     split at quiet
     · cases quiet
     · rename_i out copied
       split at quiet
       · cases quiet
       · rename_i closed
         split at quiet
         · cases quiet
         · rename_i right
           rw [not_or, not_not, Bool.not_eq_false] at right
           obtain ⟨content, last, size⟩ :=
            (limited_copy_iff at_i d.body (run.room i 0) out).mp ⟨copied, right.1⟩
           exact ⟨out, ⟨payload, codec, d, rfl, made, content, last, closed⟩, size, right.2⟩
 · rintro ⟨p, ⟨payload, codec, d, fetched, made, content, last, closed⟩, size, digest⟩
   have copied := ((limited_copy_iff at_i d.body (run.room i 0) p).mpr ⟨content, last, size⟩).1
   simp [fetched, made, copied, closed, size, digest]

theorem chunkFault_none_iff (at_i : b.table.chunks[i]? = some c) :
  chunkFault pk run b true i c = none ↔ ∃ p, Intact pk b i c p := by
 unfold chunkFault
 cases wrong : storedFault b i c with
 | some e =>
  have bad : ¬ ∃ s, storedChunk b i = .ok s ∧ digestMatches c.ss (sum256 s) = true := by
   rw [← storedFault_none_iff, wrong]
   simp
  refine iff_of_false (by simp) ?_
  rintro ⟨p, intact⟩
  exact bad intact.stored
 | none =>
  simp only [if_true]
  rw [plainFault_none_iff at_i]
  constructor
  · rintro ⟨p, opened, size, digest⟩
    exact ⟨p, storedFault_none_iff.mp wrong, opened, size, digest⟩
  · rintro ⟨p, intact⟩
    exact ⟨p, intact.opened, intact.size, intact.digest⟩

theorem Intact.streamed (at_i : b.table.chunks[i]? = some c) {p : Bytes}
  (intact : Intact pk b i c p) (verify : Bool) :
  streamOneChunk pk run b verify i c = (p, .ok ()) := by
 obtain ⟨payload, codec, d, fetched, made, content, last, closed⟩ := intact.opened
 have pass : ∀ k, copyPass pk b (run.bufs i k) payload codec i = (p, .ok p.length) := by
  intro k
  have copied :=
   ((limited_copy_iff at_i d.body (run.room i k) p).mpr ⟨content, last, intact.size⟩).1
  rw [copyPass, made]
  simp only [copied, closed]
 unfold streamOneChunk
 simp only [fetched, pass, intact.size, intact.digest]
 cases verify <;> simp

theorem streamFrom_intact (calm : ∀ j, run.cancelled j = none) (verify : Bool) {chunks : List Chunk}
  {ps : List Bytes} (length : ps.length = chunks.length)
  (inside : ∀ j c, chunks[j]? = some c → b.table.chunks[i + j]? = some c)
  (intact : ∀ j c p, chunks[j]? = some c → ps[j]? = some p → Intact pk b (i + j) c p) :
  streamFrom pk run b verify i chunks = (ps.flatten, .ok ()) := by
 induction chunks generalizing i ps with
 | nil =>
  rw [List.length_eq_zero_iff.mp length]
  rfl
 | cons c rest ih =>
  obtain ⟨p, ps, rfl⟩ := List.exists_cons_of_length_eq_add_one length
  have here : streamOneChunk pk run b verify i c = (p, .ok ()) :=
   (intact 0 c p rfl rfl).streamed (inside 0 c rfl) verify
  have shifted : ∀ j, i + (j + 1) = i + 1 + j := fun j => by omega
  have later := @ih (i + 1) ps (Nat.succ.inj length)
   (fun j d at_j => shifted j ▸ inside (j + 1) d at_j)
   (fun j d q at_j at_q => shifted j ▸ intact (j + 1) d q at_j at_q)
  rw [streamFrom, calm i]
  simp only [here, later, List.flatten_cons]

theorem verifyFrom_errors {full : Bool} {chunks : List Chunk} {res : VerifyResult} :
  (verifyFrom pk run b full true i chunks res).1.errors = res.errors ++
    (chunks.zipIdx i).filterMap (fun x => chunkFault pk run b full x.2 x.1) ∧
   (verifyFrom pk run b full true i chunks res).2 = none := by
 induction chunks generalizing i res with
 | nil => simp [verifyFrom]
 | cons c rest ih =>
  unfold verifyFrom
  rw [List.zipIdx_cons]
  cases fault : chunkFault pk run b full i c with
  | none => simpa [fault] using ih
  | some e => simpa [fault, VerifyResult.add] using @ih (i + 1) (res.add e)

/-- A full verification succeeds exactly when every chunk is intact and the index reads; the tar is
then written whole, with or without checks. Going on, it reports one error for each damaged chunk,
none for the others, and at most one for the index. -/
theorem verify_predicts_restore (keepGoing : Bool) : ((verify pk run b true keepGoing).2 = .ok () ↔
    (∀ i c, b.table.chunks[i]? = some c → ∃ p, Intact pk b i c p) ∧ ∃ idx, b.index pk = .ok idx) ∧
   ((verify pk run b true keepGoing).2 = .ok () → ∀ again : Schedule,
    (∀ i, again.cancelled i = none) →
    ∃ ps : List Bytes, ps.length = b.table.chunks.length ∧
     (∀ i c p, b.table.chunks[i]? = some c → ps[i]? = some p → Intact pk b i c p) ∧
     ∀ check, streamTar pk again b check = (ps.flatten, .ok ())) ∧
   (∀ i c, b.table.chunks[i]? = some c →
    (chunkFault pk run b true i c = none ↔ ∃ p, Intact pk b i c p)) ∧
   (verify pk run b true true).1.errors =
    b.table.chunks.zipIdx.filterMap (fun x => chunkFault pk run b true x.2 x.1) ++
     (match b.index pk with
     | .ok _ => []
     | .error e => [.index e]) := by
 have exact_iff : (verify pk run b true keepGoing).2 = .ok () ↔
   (∀ i c, b.table.chunks[i]? = some c → ∃ p, Intact pk b i c p) ∧ ∃ idx, b.index pk = .ok idx := by
  rw [verify_ok_iff]
  unfold Faultless
  simp only [Nat.zero_add, true_imp_iff]
  constructor
  · rintro ⟨clean, reads⟩
    exact ⟨fun i c at_i => (chunkFault_none_iff at_i).mp (clean i c at_i), reads⟩
  · rintro ⟨intact, reads⟩
    exact ⟨fun i c at_i => (chunkFault_none_iff at_i).mpr (intact i c at_i), reads⟩
 refine ⟨exact_iff, ?_, fun i c at_i => chunkFault_none_iff at_i, ?_⟩
 · intro fine again calm
   have intact := (exact_iff.mp fine).1
   choose! plain is using intact
   have each : ∀ i c p, b.table.chunks[i]? = some c →
     (b.table.chunks.zipIdx.map fun x => plain x.2 x.1)[i]? = some p → Intact pk b i c p := by
    intro i c p at_i at_p
    simp only [List.getElem?_map, List.getElem?_zipIdx, at_i, Option.map_some, Nat.zero_add,
     Option.some.injEq] at at_p
    exact at_p ▸ is i c at_i
   refine ⟨b.table.chunks.zipIdx.map fun x => plain x.2 x.1, by simp, each, fun check => ?_⟩
   refine streamFrom_intact calm _ (by simp) ?_ ?_
   · intro j c at_j
     rwa [Nat.zero_add]
   · intro j c p at_j at_p
     rw [Nat.zero_add]
     exact each j c p at_j at_p
 · obtain ⟨errors, goes⟩ := @verifyFrom_errors pk run b 0 true b.table.chunks
    ⟨b.table.chunks.length, true, true, [], 0⟩
   unfold verify
   generalize verifyFrom pk run b true true 0 b.table.chunks
    ⟨b.table.chunks.length, true, true, [], 0⟩ = ran at errors goes
   obtain ⟨res, stopped⟩ := ran
   cases goes
   change res.errors = _ at errors
   cases b.index pk with
   | error e => simp [VerifyResult.finish, VerifyResult.add, errors]
   | ok idx =>
    cases flag : res.ok <;> simp [VerifyResult.finish, errors, flag]

end Predicts

end BackImage.Recovery.Verify
