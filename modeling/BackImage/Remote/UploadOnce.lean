/- source: pkg/remote/client.go
  digest: The client's side of a layer-by-layer upload, and what it counts against the quota of the
    server. -/

import BackImage.Server.Session
import Mathlib.Algebra.BigOperators.Intervals
import Mathlib.Algebra.Order.BigOperators.Group.Finset

namespace BackImage.Remote.UploadOnce

open Go.Text Protocol.Frames
open Server.Session (SessionConfig overQuota)

inductive Reply
 | helloAck (protocolVersion : UInt32) (maxBytes : UInt64)
 | backupAck (ready : Bool) (request : Option TokenRequest)
 | layerAck (index : UInt32) (skipped : Bool)
 | progress (layer : UInt32)
 | backupEnd (digest : Str) (bytesUploaded : UInt64) (blobsSkipped : UInt32)
 | tokenRequest (request : TokenRequest)
 | error (kind : UInt32) (message hint : Str)
 | other
 deriving DecidableEq

/-- One `readServer`, with how `provideToken` would end if the message asked for a token, and what
the goroutines beside the upload have left in `asyncErr`. -/
structure Received where
 message : Except Str Reply
 provided : Option Str
 asyncErr : Option Str

/-- What `layerDescriptor` returns. -/
structure Descriptor where
 digest : Str
 diffID : Str
 size : Int64
 mediaType : Str
 deriving DecidableEq

structure Layer where
 descriptor : Except Str Descriptor

structure Result where
 digest : Str
 bytesUploaded : UInt64
 blobsSkipped : UInt32
 deriving DecidableEq

inductive ClientError
 | dial (cause : Str)
 | scopeGuard (cause : Str)
 | write (cause : Str)
 | read (cause : Str)
 | remote (kind : UInt32) (message hint : Str)
 | badHelloAck
 | estimate (estimated maxBytes : UInt64)
 | notReady
 | token (cause : Str)
 | async (cause : Str)
 | layer (index : Nat) (cause : Str)
 | quota (index : Nat) (sent maxBytes : UInt64)
 | layerAckIndex (got want : UInt32)
 | progressLayer (got want : UInt32)
 | stream (cause : Str)
 deriving DecidableEq

/-- The connection as the upload meets it: `Dial`, `newScopeGuard`, every control message written,
every layer streamed, and what is read until the stream ends. -/
structure Peer where
 dial : Option Str
 scopeGuard : Option Str
 written : Nat → Option Str
 streamed : Nat → Option Str
 received : List Received
 closed : Str

section Exchange

variable {α : Type} (peer : Peer)

def handleAux (r : Received) : Reply → Option ClientError
 | .error kind message hint => some (.remote kind message hint)
 | .tokenRequest _ => r.provided.map .token
 | _ => r.asyncErr.map .async

def waitFor (answer : Received → Reply → Option (Except ClientError α)) :
  List Received → Except ClientError (α × List Received)
 | [] => .error (.read peer.closed)
 | r :: rest =>
  match r.message with
  | .error cause => .error (.read cause)
  | .ok m =>
   match handleAux r m with
   | some e => .error e
   | none =>
    match answer r m with
    | none => waitFor answer rest
    | some (.error e) => .error e
    | some (.ok a) => .ok (a, rest)

def waitForBackupAck : List Received → Except ClientError (Unit × List Received) :=
 waitFor peer fun r m =>
  match m with
  | .backupAck ready request =>
   if ready = false then some (.error .notReady)
   else if request.isSome then
    match r.provided with
    | some cause => some (.error (.token cause))
    | none => some (.ok ())
   else some (.ok ())
  | _ => none

def waitForLayerAck (index : UInt32) : List Received → Except ClientError (Bool × List Received) :=
 waitFor peer fun _ m =>
  match m with
  | .layerAck got skipped =>
   if got ≠ index then some (.error (.layerAckIndex got index)) else some (.ok skipped)
  | _ => none

def waitForProgress (index : UInt32) : List Received → Except ClientError (Unit × List Received) :=
 waitFor peer fun _ m =>
  match m with
  | .progress layer =>
   if layer ≠ index then some (.error (.progressLayer layer index)) else some (.ok ())
  | _ => none

def waitForEnd : List Received → Except ClientError Result
 | [] => .error (.read peer.closed)
 | r :: rest =>
  match r.message with
  | .error cause => .error (.read cause)
  | .ok (.backupEnd digest uploaded skipped) => .ok ⟨digest, uploaded, skipped⟩
  | .ok m =>
   match handleAux r m with
   | some e => .error e
   | none => waitForEnd rest

def writeClient (number : Nat) : Except ClientError Unit :=
 match peer.written number with
 | some cause => .error (.write cause)
 | none => .ok ()

def streamLayer (index : Nat) : Except ClientError Unit :=
 match peer.streamed index with
 | some cause => .error (.stream cause)
 | none => .ok ()

def streamUnless (skipped : Bool) (index : Nat) : Except ClientError Unit :=
 if skipped then .ok () else streamLayer peer index

def exchange (index number : Nat) (reads : List Received) : Except ClientError (List Received) := do
 writeClient peer number
 let ack ← waitForLayerAck peer (UInt32.ofNat index) reads
 streamUnless peer ack.1 index
 writeClient peer (number + 1)
 let progress ← waitForProgress peer (UInt32.ofNat index) ack.2
 pure progress.2

def uploadLayers (maxBytes : UInt64) :
  List Layer → Nat → UInt64 → Nat → List Received → Except ClientError (List Received)
 | [], _, _, _, reads => .ok reads
 | layer :: rest, index, sent, number, reads =>
  match layer.descriptor with
  | .error cause => .error (.layer index cause)
  | .ok d =>
   let sent := sent + d.size.toUInt64
   if 0 < maxBytes ∧ maxBytes < sent then .error (.quota index sent maxBytes)
   else
    match exchange peer index number reads with
    | .error e => .error e
    | .ok reads => uploadLayers maxBytes rest (index + 1) sent (number + 2) reads

def uploadGreeted (estimated maxBytes : UInt64) (layers : List Layer) (reads : List Received) :
  Except ClientError Result :=
 if 0 < maxBytes ∧ maxBytes < estimated then .error (.estimate estimated maxBytes)
 else do
  writeClient peer 1
  let ready ← waitForBackupAck peer reads
  let reads ← uploadLayers peer maxBytes layers 0 0 2 ready.2
  waitForEnd peer reads

def uploadOnce (estimated : UInt64) (layers : List Layer) : Except ClientError Result :=
 match peer.dial with
 | some cause => .error (.dial cause)
 | none =>
  match peer.scopeGuard with
  | some cause => .error (.scopeGuard cause)
  | none =>
   match writeClient peer 0 with
   | .error e => .error e
   | .ok _ =>
    match peer.received with
    | [] => .error (.read peer.closed)
    | r :: reads =>
     match r.message with
     | .error cause => .error (.read cause)
     | .ok (.error kind message hint) => .error (.remote kind message hint)
     | .ok (.helloAck protocolVersion maxBytes) =>
      if supported protocolVersion = false ∨ version < protocolVersion then .error .badHelloAck
      else uploadGreeted peer estimated maxBytes layers reads
     | .ok _ => .error .badHelloAck

end Exchange

def weight (ds : List Descriptor) (index : Nat) : Nat :=
 (ds[index]?.map fun d => d.size.toUInt64.toNat).getD 0

def total (ds : List Descriptor) (count : Nat) : Nat := ∑ i ∈ Finset.range count, weight ds i

def answered (ds : List Descriptor) (skip : Nat → Bool) (answer : Bool) (count : Nat) : Nat :=
 ∑ i ∈ Finset.range count with skip i = answer, weight ds i

section Sizes

variable {ds : List Descriptor} {skip : Nat → Bool}

theorem total_zero (ds : List Descriptor) : total ds 0 = 0 := rfl

theorem total_succ (ds : List Descriptor) (count : Nat) :
  total ds (count + 1) = total ds count + weight ds count :=
 Finset.sum_range_succ _ _

variable {i : Nat}

theorem total_mono {j : Nat} (before : i ≤ j) : total ds i ≤ total ds j :=
 Finset.sum_le_sum_of_subset (Finset.range_subset_range.mpr before)

theorem answered_split (ds : List Descriptor) (skip : Nat → Bool) (count : Nat) :
  answered ds skip true count + answered ds skip false count = total ds count := by
 have halves := Finset.sum_filter_add_sum_filter_not (Finset.range count) (fun i => skip i = true)
  (weight ds)
 simp only [Bool.not_eq_true] at halves
 exact halves

theorem answered_succ (count : Nat) :
  answered ds skip false (count + 1) ≤ answered ds skip false count + weight ds count := by
 unfold answered
 rw [Finset.range_add_one, Finset.filter_insert]
 split
 · rw [Finset.sum_insert (by simp), Nat.add_comm]
 · exact Nat.le_add_right _ _

variable {d : Descriptor} {rest : List Descriptor}

theorem weight_of_drop (left : ds.drop i = d :: rest) : weight ds i = d.size.toUInt64.toNat := by
 have here : ds[i]? = some d := by
  rw [← Nat.add_zero i, ← List.getElem?_drop, left]
  rfl
 rw [weight, here]
 rfl

theorem drop_succ (left : ds.drop i = d :: rest) : ds.drop (i + 1) = rest ∧ i < ds.length := by
 constructor
 · rw [← List.drop_drop, left]
   rfl
 · by_contra outside
   rw [List.drop_of_length_le (by omega)] at left
   cases left

end Sizes

def readable (ds : List Descriptor) : List Layer := ds.map fun d => ⟨.ok d⟩

def Quiet {α : Type} (x : Except ClientError α) : Prop :=
 ∀ index sent maxBytes, x ≠ .error (.quota index sent maxBytes)

section Quiet

variable {α β : Type} {peer : Peer}

variable {x : Except ClientError α} {f : α → Except ClientError β}

theorem Quiet.bind (first : Quiet x) (rest : ∀ a, Quiet (f a)) : Quiet (x >>= f) := by
 cases x with
 | error e =>
  intro index sent maxBytes same
  cases same
  exact first index sent maxBytes rfl
 | ok a => exact rest a

theorem Quiet.after {index : Nat} {sent maxBytes : UInt64}
  (first : Quiet x) (refused : (x >>= f) = .error (.quota index sent maxBytes)) :
  ∃ a, f a = .error (.quota index sent maxBytes) := by
 cases x with
 | error e =>
  cases refused
  exact absurd rfl (first index sent maxBytes)
 | ok a => exact ⟨a, refused⟩

theorem quiet_ok (a : α) : Quiet (.ok a : Except ClientError α) := by
 intro index sent maxBytes impossible
 cases impossible

theorem quiet_handleAux {r : Received} {m : Reply} {e : ClientError}
  (handled : handleAux r m = some e) :
  Quiet (.error e : Except ClientError α) := by
 intro index sent maxBytes same
 cases same
 unfold handleAux at handled
 split at handled <;> simp at handled

theorem quiet_waitFor {answer : Received → Reply → Option (Except ClientError α)}
  (fine : ∀ r m x, answer r m = some x → Quiet x) (reads : List Received) :
  Quiet (waitFor peer answer reads) := by
 induction reads with
 | nil => simp [waitFor, Quiet]
 | cons r rest ih =>
  rw [waitFor]
  split
  · simp [Quiet]
  · split
    · rename_i handled
      exact quiet_handleAux handled
    · split
      · exact ih
      · rename_i e answered
        intro index sent maxBytes same
        cases same
        exact fine _ _ _ answered index sent maxBytes rfl
      · exact quiet_ok _

theorem quiet_waitForBackupAck (reads : List Received) : Quiet (waitForBackupAck peer reads) := by
 apply quiet_waitFor
 intro r m x answered
 split at answered
 · split at answered
   · cases answered
     simp [Quiet]
   · split at answered
     · split at answered <;> (cases answered; simp [Quiet])
     · cases answered
       exact quiet_ok _
 · cases answered

theorem quiet_waitForLayerAck (index : UInt32) (reads : List Received) :
  Quiet (waitForLayerAck peer index reads) := by
 apply quiet_waitFor
 intro r m x answered
 split at answered
 · split at answered <;> (cases answered; simp [Quiet])
 · cases answered

theorem quiet_waitForProgress (index : UInt32) (reads : List Received) :
  Quiet (waitForProgress peer index reads) := by
 apply quiet_waitFor
 intro r m x answered
 split at answered
 · split at answered <;> (cases answered; simp [Quiet])
 · cases answered

theorem quiet_writeClient (number : Nat) : Quiet (writeClient peer number) := by
 unfold writeClient
 split <;> simp [Quiet]

theorem quiet_streamLayer (index : Nat) : Quiet (streamLayer peer index) := by
 unfold streamLayer
 split <;> simp [Quiet]

theorem quiet_waitForEnd (reads : List Received) : Quiet (waitForEnd peer reads) := by
 induction reads with
 | nil => simp [waitForEnd, Quiet]
 | cons r rest ih =>
  rw [waitForEnd]
  split
  · simp [Quiet]
  · exact quiet_ok _
  · split
    · rename_i handled
      exact quiet_handleAux handled
    · exact ih

theorem quiet_exchange (index number : Nat) (reads : List Received) :
  Quiet (exchange peer index number reads) := by
 refine (quiet_writeClient _).bind fun _ => (quiet_waitForLayerAck _ _).bind fun ack => ?_
 refine Quiet.bind ?_ fun _ => (quiet_writeClient _).bind fun _ =>
  (quiet_waitForProgress _ _).bind fun _ => quiet_ok _
 unfold streamUnless
 split
 · exact quiet_ok _
 · exact quiet_streamLayer _

end Quiet

def ackOf (r : Received) : Option Bool :=
 match r.message with
 | .ok (.layerAck _ skipped) => some skipped
 | _ => none

/-- The server announces this quota, and acknowledges the layers one after another with these
answers. -/
structure Follows (peer : Peer) (maxBytes : UInt64) (skip : Nat → Bool) : Prop where
 greeting : ∃ r reads protocolVersion, peer.received = r :: reads ∧
  r.message = .ok (.helloAck protocolVersion maxBytes)
 acks : ∀ k skipped, (peer.received.filterMap ackOf)[k]? = some skipped → skipped = skip k

section Quota

variable {peer : Peer} {ds : List Descriptor} {maxBytes : UInt64}

theorem sent_add {d : Descriptor} {rest : List Descriptor} {index : Nat} {sent : UInt64}
  (fits : total ds ds.length < 2 ^ 64) (left : ds.drop index = d :: rest)
  (counted : sent.toNat = total ds index) :
  (sent + d.size.toUInt64).toNat = total ds (index + 1) := by
 have within : total ds (index + 1) ≤ total ds ds.length := total_mono (drop_succ left).2
 rw [total_succ, weight_of_drop left] at within ⊢
 rw [UInt64.toNat_add, counted]
 omega

theorem uploadLayers_quota {rest : List Descriptor} {index number k : Nat} {sent s m : UInt64}
  {reads : List Received} (fits : total ds ds.length < 2 ^ 64) (left : ds.drop index = rest)
  (counted : sent.toNat = total ds index)
  (announced : 0 < maxBytes) (below : total ds index ≤ maxBytes.toNat)
  (refused : uploadLayers peer maxBytes (readable rest) index sent number reads =
   .error (.quota k s m)) :
  k < ds.length ∧ total ds k ≤ maxBytes.toNat ∧ maxBytes.toNat < total ds (k + 1) := by
 induction rest generalizing index sent number reads with
 | nil => cases refused
 | cons d rest ih =>
  have sum := sent_add fits left counted
  obtain ⟨further, inside⟩ := drop_succ left
  rw [readable, List.map_cons, uploadLayers] at refused
  dsimp only at refused
  split at refused
  · rename_i passed
    cases refused
    have more := UInt64.lt_iff_toNat_lt.mp passed.2
    rw [sum] at more
    exact ⟨inside, below, more⟩
  · rename_i allowed
    split at refused
    · rename_i failed
      cases refused
      exact absurd failed (quiet_exchange _ _ _ _ _ _)
    · refine ih further sum ?_ refused
      rw [← sum]
      by_contra more
      have passed : maxBytes < sent + d.size.toUInt64 := UInt64.lt_iff_toNat_lt.mpr (by omega)
      exact allowed ⟨announced, passed⟩

theorem uploadOnce_quota {estimated s m : UInt64} {k : Nat} {skip : Nat → Bool}
  (fits : total ds ds.length < 2 ^ 64)
  (announced : 0 < maxBytes) (follows : Follows peer maxBytes skip)
  (refused : uploadOnce peer estimated (readable ds) = .error (.quota k s m)) :
  k < ds.length ∧ total ds k ≤ maxBytes.toNat ∧ maxBytes.toNat < total ds (k + 1) := by
 obtain ⟨r, reads, protocolVersion, first, greeted⟩ := follows.greeting
 have within : uploadGreeted peer estimated maxBytes (readable ds) reads =
   .error (.quota k s m) := by
  unfold uploadOnce at refused
  rw [first] at refused
  dsimp only at refused
  rw [greeted] at refused
  split at refused
  · cases refused
  · split at refused
    · cases refused
    · split at refused
      · rename_i unwritten
        cases refused
        exact absurd unwritten (quiet_writeClient _ _ _ _)
      · dsimp only at refused
        split at refused
        · cases refused
        · exact refused
 unfold uploadGreeted at within
 split at within
 · cases within
 · obtain ⟨-, later⟩ := (quiet_writeClient _).after within
   obtain ⟨ready, layers⟩ := (quiet_waitForBackupAck _).after later
   cases uploaded : uploadLayers peer maxBytes (readable ds) 0 0 2 ready.2 with
   | error e =>
    rw [uploaded] at layers
    cases layers
    exact @uploadLayers_quota peer ds maxBytes ds 0 2 k 0 s m ready.2 fits rfl (total_zero ds).symm
     announced
     (Nat.zero_le _) uploaded
   | ok left =>
    rw [uploaded] at layers
    exact absurd layers (quiet_waitForEnd _ _ _ _)

end Quota

def turns (skip : Nat → Bool) : Nat → Nat → List Received
 | 0, _ => []
 | count + 1, index =>
  ⟨.ok (.layerAck (UInt32.ofNat index) (skip index)), none, none⟩ ::
   ⟨.ok (.progress (UInt32.ofNat index)), none, none⟩ :: turns skip count (index + 1)

def willing (maxBytes : UInt64) (skip : Nat → Bool) (count : Nat) : Peer where
 dial := none
 scopeGuard := none
 written := fun _ => none
 streamed := fun _ => none
 received := ⟨.ok (.helloAck version maxBytes), none, none⟩ ::
  ⟨.ok (.backupAck true none), none, none⟩ ::
  turns skip count 0
 closed := lit "EOF"

section Willing

variable {ds : List Descriptor} {maxBytes : UInt64} {skip : Nat → Bool}

theorem filterMap_turns (count index : Nat) :
  (turns skip count index).filterMap ackOf = (List.range' index count).map skip := by
 induction count generalizing index with
 | zero => rfl
 | succ count ih =>
  simp only [turns, List.filterMap_cons, ackOf, ih]
  rfl

theorem willing_follows (count : Nat) : Follows (willing maxBytes skip count) maxBytes skip where
 greeting := ⟨_, _, _, rfl, rfl⟩
 acks := by
  intro k skipped found
  unfold willing at found
  rw [List.filterMap_cons_none rfl, List.filterMap_cons_none rfl, filterMap_turns,
   List.getElem?_map] at found
  obtain ⟨i, at_k, is⟩ := Option.map_eq_some_iff.mp found
  obtain ⟨within, place⟩ := List.getElem?_eq_some_iff.mp at_k
  rw [List.getElem_range'] at place
  rw [← is, ← place]
  congr 1
  omega

theorem exchange_willing (count index number : Nat) (rest : List Received) :
  exchange (willing maxBytes skip count) index number
   (⟨.ok (.layerAck (UInt32.ofNat index) (skip index)), none, none⟩ ::
    ⟨.ok (.progress (UInt32.ofNat index)), none, none⟩ :: rest) = .ok rest := by
 cases wanted : skip index <;>
  simp [exchange, writeClient, waitForLayerAck, waitForProgress, waitFor, handleAux, streamUnless,
   streamLayer,
   willing, bind, Except.bind, pure, Except.pure]

theorem uploadLayers_willing {index count k : Nat} {sent : UInt64} (number : Nat)
  (fits : total ds ds.length < 2 ^ 64)
  (counted : sent.toNat = total ds index) (announced : 0 < maxBytes) (before : index ≤ k)
  (inside : k < ds.length)
  (below : total ds k ≤ maxBytes.toNat) (passed : maxBytes.toNat < total ds (k + 1)) :
  ∃ s, uploadLayers (willing maxBytes skip count) maxBytes (readable (ds.drop index)) index
  sent number
   (turns skip (k - index) index) = .error (.quota k s maxBytes) := by
 obtain ⟨distance, reach⟩ : ∃ distance, k = index + distance := ⟨k - index, by omega⟩
 induction distance generalizing index number sent with
 | zero =>
  obtain rfl : k = index := reach
  cases left : ds.drop k with
  | nil =>
   have none_left := List.drop_eq_nil_iff.mp left
   omega
  | cons d rest =>
   have more : maxBytes < sent + d.size.toUInt64 := by
    rw [UInt64.lt_iff_toNat_lt, sent_add fits left counted]
    exact passed
   refine ⟨sent + d.size.toUInt64, ?_⟩
   rw [readable, List.map_cons, uploadLayers]
   dsimp only
   rw [if_pos ⟨announced, more⟩]
 | succ distance ih =>
  cases left : ds.drop index with
  | nil =>
   have none_left := List.drop_eq_nil_iff.mp left
   omega
  | cons d rest =>
   have sum := sent_add fits left counted
   have sofar : total ds (index + 1) ≤ total ds k := total_mono (by omega)
   have allowed : ¬ (0 < maxBytes ∧ maxBytes < sent + d.size.toUInt64) := by
    rintro ⟨-, more⟩
    rw [UInt64.lt_iff_toNat_lt, sum] at more
    omega
   have steps : k - index = (k - (index + 1)) + 1 := by omega
   obtain ⟨s, refused⟩ := ih (number + 2) sum (by omega) (by omega)
   rw [(drop_succ left).1] at refused
   refine ⟨s, ?_⟩
   rw [readable, List.map_cons, uploadLayers, steps, turns]
   dsimp only
   rw [if_neg allowed, exchange_willing]
   exact refused

theorem uploadOnce_willing {estimated : UInt64} {k : Nat} (fits : total ds ds.length < 2 ^ 64)
  (announced : 0 < maxBytes) (estimate : estimated ≤ maxBytes) (inside : k < ds.length)
  (below : total ds k ≤ maxBytes.toNat) (passed : maxBytes.toNat < total ds (k + 1)) :
  ∃ s, uploadOnce (willing maxBytes skip k) estimated (readable ds) =
  .error (.quota k s maxBytes) := by
 obtain ⟨s, refused⟩ := @uploadLayers_willing ds maxBytes skip 0 k k 0 2 fits (total_zero ds).symm
  announced
  (Nat.zero_le k) inside below passed
 refine ⟨s, ?_⟩
 have modest : ¬ (0 < maxBytes ∧ maxBytes < estimated) :=
  fun both => UInt64.not_lt.mpr estimate both.2
 have greeting : uploadOnce (willing maxBytes skip k) estimated (readable ds) =
   uploadGreeted (willing maxBytes skip k) estimated maxBytes (readable ds)
    (⟨.ok (.backupAck true none), none, none⟩ :: turns skip k 0) := by
  rfl
 rw [greeting, uploadGreeted, if_neg modest]
 have acknowledged : waitForBackupAck (willing maxBytes skip k)
   (⟨.ok (.backupAck true none), none, none⟩ :: turns skip k 0) = .ok ((), turns skip k 0) := rfl
 rw [Nat.sub_zero, List.drop_zero] at refused
 have written : writeClient (willing maxBytes skip k) 1 = .ok () := rfl
 simp only [written, acknowledged, refused, bind, Except.bind]

end Willing

/-- The client refuses a layer for the quota only if the layers the server wants up to it exceed it:
no upload that the server's checks let pass is refused. -/
structure CountsSent (ds : List Descriptor) (skip : Nat → Bool) (maxBytes estimated : UInt64) :
  Prop where
 exceeded : ∀ peer, Follows peer maxBytes skip → ∀ i sent m,
  uploadOnce peer estimated (readable ds) = .error (.quota i sent m) →
   maxBytes.toNat < answered ds skip false (i + 1)
 accepted : ∀ cfg : SessionConfig, cfg.maxBytes = maxBytes →
  (∀ i < ds.length,
   overQuota cfg (UInt64.ofNat (answered ds skip false i) + UInt64.ofNat (weight ds i)) = false) →
   ∀ peer, Follows peer maxBytes skip → ∀ i sent m,
    uploadOnce peer estimated (readable ds) ≠ .error (.quota i sent m)

/-- The client counts what is sent exactly if, at the first layer with which all sizes together pass
the quota, the layers skipped up to it weigh less than what is too much. -/
theorem quota_counts_sent_iff (ds : List Descriptor) (skip : Nat → Bool)
  (maxBytes estimated : UInt64) (announced : 0 < maxBytes) (fits : total ds ds.length < 2 ^ 64)
  (estimate : estimated ≤ maxBytes) :
  CountsSent ds skip maxBytes estimated ↔
   ∀ i < ds.length, total ds i ≤ maxBytes.toNat → maxBytes.toNat < total ds (i + 1) →
    answered ds skip true (i + 1) + maxBytes.toNat < total ds (i + 1) := by
 constructor
 · rintro ⟨exceeded, -⟩ i inside below passed
   obtain ⟨s, refused⟩ := @uploadOnce_willing ds maxBytes skip estimated i fits announced estimate
    inside below passed
   have wanted := exceeded _ (willing_follows i) i s maxBytes refused
   have halves := answered_split ds skip (i + 1)
   omega
 · intro light
   have exceeded : ∀ peer, Follows peer maxBytes skip → ∀ i sent m,
     uploadOnce peer estimated (readable ds) = .error (.quota i sent m) →
      i < ds.length ∧ maxBytes.toNat < answered ds skip false (i + 1) := by
    intro peer follows i sent m refused
    obtain ⟨inside, below, passed⟩ := uploadOnce_quota fits announced follows refused
    have less := light i inside below passed
    have halves := answered_split ds skip (i + 1)
    exact ⟨inside, by omega⟩
   refine ⟨fun peer follows i sent m refused => (exceeded peer follows i sent m refused).2, ?_⟩
   intro cfg announces passes peer follows i sent m refused
   obtain ⟨inside, more⟩ := exceeded peer follows i sent m refused
   have step := @answered_succ ds skip i
   have halves := answered_split ds skip i
   have sum := total_succ ds i
   have whole : total ds (i + 1) ≤ total ds ds.length := total_mono inside
   have value : (UInt64.ofNat (answered ds skip false i) + UInt64.ofNat (weight ds i)).toNat =
     answered ds skip false i + weight ds i := by
    rw [UInt64.toNat_add, UInt64.toNat_ofNat_of_lt' (by simp [UInt64.size]; omega),
     UInt64.toNat_ofNat_of_lt' (by simp [UInt64.size]; omega)]
    omega
   have beyond : maxBytes < UInt64.ofNat (answered ds skip false i) +
     UInt64.ofNat (weight ds i) := by
    rw [UInt64.lt_iff_toNat_lt, value]
    omega
   have refusal := passes i inside
   simp [overQuota, announces, announced, beyond] at refusal

def sixBytes (name : String) : Descriptor := ⟨lit name, lit name, 6, []⟩

def firstThere : Nat → Bool := fun i => i = 0

/-- The upload sends six bytes against a quota of ten, and is refused for twelve. -/
theorem skipped_layer_counted :
  uploadOnce (willing 10 firstThere 1) 6 (readable [sixBytes "a", sixBytes "b"]) =
  .error (.quota 1 12 10) ∧
  answered [sixBytes "a", sixBytes "b"] firstThere false 2 = 6 ∧
  ¬ CountsSent [sixBytes "a", sixBytes "b"] firstThere 10 6 := by
 have refused : uploadOnce (willing 10 firstThere 1) 6 (readable [sixBytes "a", sixBytes "b"]) =
   .error (.quota 1 12 10) := rfl
 have sent : answered [sixBytes "a", sixBytes "b"] firstThere false 2 = 6 := by decide +kernel
 refine ⟨refused, sent, ?_⟩
 rintro ⟨exceeded, -⟩
 have more := exceeded _ (willing_follows 1) 1 12 10 refused
 rw [sent] at more
 exact absurd more (by decide)

def lightFirst : List Descriptor := [⟨lit "a", lit "a", 1, []⟩, sixBytes "b", sixBytes "c"]

theorem light_skip_counted : answered lightFirst firstThere true 3 = 1 ∧
  CountsSent lightFirst firstThere 10 6 := by
 refine ⟨by decide +kernel,
  (quota_counts_sent_iff lightFirst firstThere 10 6 (by decide) (by decide +kernel)
  (by decide)).mpr ?_⟩
 decide +kernel

end BackImage.Remote.UploadOnce
