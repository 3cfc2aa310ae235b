/- source: none
  digest: Headers, the writer with its deferred padding, and the reader that skips it. -/

import BackImage.Go.Text
import BackImage.Lib.Sequence

namespace BackImage.Go.Tar

open Text Lib.Sequence

inductive Typeflag
 | reg | link | symlink | char | block | dir | fifo
 | other (flag : UInt8)
 deriving DecidableEq, Inhabited

structure Header where
 typeflag : Typeflag
 name : Str
 linkname : Str
 size : Int64
 mode : UInt32
 uid : Int
 gid : Int
 uname : Str
 gname : Str
 modTime : Int
 accessTime : Option Int
 changeTime : Option Int
 devmajor : Int64
 devminor : Int64
 paxRecords : List (Str × Bytes)
 deriving DecidableEq, Inhabited

def Header.payload (h : Header) : Nat :=
 match h.typeflag with
 | .reg | .other _ => h.size.toNatClampNeg
 | _ => 0

/-- `blockPadding`. -/
def padding (n : Nat) : Nat := (512 - n % 512) % 512

def zeros (n : Nat) : Bytes := List.replicate n 0

def trailer : Bytes := zeros 1024

inductive Found
 | header (h : Header) (size : Nat)
 | eof
 | failed (cause : Str)

structure Format where
 encode : Header → Except Str Bytes
 decode : Bytes → Found

structure Kept (written read : Header) : Prop where
 typeflag : read.typeflag = written.typeflag
 name : read.name = written.name
 linkname : read.linkname = written.linkname
 size : read.size = written.size
 mode : read.mode = written.mode
 uid : read.uid = written.uid
 gid : read.gid = written.gid

/-- A header takes whole blocks, with at most one mebibyte of extended records, and is read back
from exactly the blocks that were written for it. -/
structure Format.Faithful (format : Format) : Prop where
 reads : ∀ {h blocks}, format.encode h = .ok blocks →
  ∃ read, Kept h read ∧ ∀ rest, format.decode (blocks ++ rest) = .header read blocks.length
 ends : format.decode trailer = .eof
 filled : ∀ {h blocks}, format.encode h = .ok blocks → 0 < blocks.length
 whole : ∀ {h blocks}, format.encode h = .ok blocks → blocks.length % 512 = 0
 bounded : ∀ {h blocks}, format.encode h = .ok blocks → blocks.length ≤ 2 ^ 20 + 1024

abbrev Sink := Bytes → Bytes → Option (Nat × Str)

structure Output where
 out : Bytes
 left : Nat
 pad : Nat
 deriving DecidableEq

inductive WriteError
 | missed (n : Nat)
 | header (cause : Str)
 | tooLong
 | sink (cause : Str)
 deriving DecidableEq

section Writer

variable (format : Format) (sink : Sink)

def put (bs : Bytes) (t : Output) : Effect Output WriteError :=
 match sink t.out bs with
 | some (n, e) => stop { t with out := t.out ++ bs.take n } (.sink e)
 | none => done { t with out := t.out ++ bs }

def flush (t : Output) : Effect Output WriteError :=
 if 0 < t.left then stop t (.missed t.left)
 else (put sink (zeros t.pad) t).andThen fun t => done { t with pad := 0 }

def writeHeader (h : Header) (t : Output) : Effect Output WriteError :=
 (flush sink t).andThen fun t =>
  match format.encode h with
  | .error cause => stop t (.header cause)
  | .ok blocks => (put sink blocks t).andThen fun t =>
   done { t with left := h.payload, pad := padding h.payload }

def write (bs : Bytes) (t : Output) : Effect Output WriteError :=
 (put sink (bs.take t.left) t).andThen fun sent =>
  let sent := { sent with left := t.left - (bs.take t.left).length }
  if t.left < bs.length then stop sent .tooLong else done sent

def close (t : Output) : Effect Output WriteError := (flush sink t).andThen (put sink trailer)

variable {format sink} {t t' : Output}

theorem put_eq_done {bs : Bytes} (well : put sink bs t = done t') :
  t' = { t with out := t.out ++ bs } := by
 unfold put at well
 split at well
 · exact absurd well stop_ne_done
 · exact (done_inj.mp well).symm

theorem flush_eq_done (well : flush sink t = done t') : t.left = 0 ∧
  t' = ⟨t.out ++ zeros t.pad, 0, 0⟩ := by
 unfold flush at well
 split at well
 · exact absurd well stop_ne_done
 · rename_i complete
   have none_left : t.left = 0 := by omega
   obtain ⟨padded, placed, rest⟩ := andThen_eq_done.mp well
   refine ⟨none_left, ?_⟩
   rw [← done_inj.mp rest, put_eq_done placed, none_left]

theorem writeHeader_eq_done {h : Header} (well : writeHeader format sink h t = done t') :
  t.left = 0 ∧ ∃ blocks, format.encode h = .ok blocks ∧
   t' = ⟨t.out ++ zeros t.pad ++ blocks, h.payload, padding h.payload⟩ := by
 obtain ⟨flushed, before, rest⟩ := andThen_eq_done.mp well
 obtain ⟨complete, rfl⟩ := flush_eq_done before
 refine ⟨complete, ?_⟩
 cases encoded : format.encode h with
 | error cause =>
  rw [encoded] at rest
  exact absurd rest stop_ne_done
 | ok blocks =>
  rw [encoded] at rest
  obtain ⟨sent, placed, last⟩ := andThen_eq_done.mp rest
  refine ⟨blocks, rfl, ?_⟩
  rw [← done_inj.mp last, put_eq_done placed]

theorem write_eq_done {bs : Bytes} (well : write sink bs t = done t') :
  bs.length ≤ t.left ∧ t' = ⟨t.out ++ bs, t.left - bs.length, t.pad⟩ := by
 obtain ⟨sent, placed, rest⟩ := andThen_eq_done.mp well
 dsimp only at rest
 split at rest
 · exact absurd rest stop_ne_done
 · rename_i fits
   have short : bs.length ≤ t.left := by omega
   refine ⟨short, ?_⟩
   rw [← done_inj.mp rest, put_eq_done placed, List.take_of_length_le short]

theorem close_eq_done (well : close sink t = done t') : t.left = 0 ∧
  t'.out = t.out ++ zeros t.pad ++ trailer := by
 obtain ⟨flushed, before, last⟩ := andThen_eq_done.mp well
 obtain ⟨complete, rfl⟩ := flush_eq_done before
 exact ⟨complete, by rw [put_eq_done last]⟩

end Writer

def next (format : Format) (pad : Nat) (rest : Bytes) : Found :=
 if rest.length < pad then .eof
 else
  match format.decode (rest.drop pad) with
  | .header h size => .header h (pad + size)
  | other => other

theorem next_zeros {format : Format} (pad : Nat) (rest : Bytes) :
  next format pad (zeros pad ++ rest) =
   match format.decode rest with
   | .header h size => .header h (pad + size)
   | other => other := by
 have long : ¬ (zeros pad ++ rest).length < pad := by
  rw [List.length_append, zeros, List.length_replicate]
  omega
 have skipped : (zeros pad ++ rest).drop pad = rest := by
  apply List.drop_left'
  rw [zeros, List.length_replicate]
 rw [next, if_neg long, skipped]

def tableFormat (table : List Header) : Format where
 encode h :=
  match table.findIdx? (· = h) with
  | some i => if i < 255 then .ok (UInt8.ofNat (i + 1) :: zeros 511) else .error (lit "too far")
  | none => .error (lit "unknown header")
 decode bs :=
  match bs with
  | [] => .eof
  | b :: _ =>
   if b = 0 then .eof
   else
    match table[b.toNat - 1]? with
    | some h => .header h 512
    | none => .failed (lit "invalid tar header")

theorem encode_tableFormat {table : List Header} {h : Header} {blocks : Bytes}
  (encoded : (tableFormat table).encode h = .ok blocks) :
  ∃ i, i < 255 ∧ table[i]? = some h ∧ blocks = UInt8.ofNat (i + 1) :: zeros 511 := by
 simp only [tableFormat] at encoded
 split at encoded
 · rename_i i found
   split at encoded
   · rename_i near
     obtain ⟨inside, same, -⟩ := List.findIdx?_eq_some_iff_getElem.mp found
     refine ⟨i, near, ?_, (Except.ok.inj encoded).symm⟩
     rw [List.getElem?_eq_getElem inside]
     exact congrArg some (by simpa using same)
   · cases encoded
 · cases encoded

theorem tableFormat_faithful (table : List Header) : (tableFormat table).Faithful := by
 have long : ∀ b : UInt8, (b :: zeros 511).length = 512 := fun b => by
  rw [List.length_cons, zeros, List.length_replicate]
 refine ⟨?_, rfl, ?_, ?_, ?_⟩
 · intro h blocks encoded
   obtain ⟨i, near, listed, rfl⟩ := encode_tableFormat encoded
   have place : (UInt8.ofNat (i + 1)).toNat = i + 1 := by
    rw [UInt8.toNat_ofNat']
    omega
   have marked : UInt8.ofNat (i + 1) ≠ 0 := by
    intro zero
    rw [zero] at place
    cases place
   refine ⟨h, ⟨rfl, rfl, rfl, rfl, rfl, rfl, rfl⟩, ?_⟩
   intro rest
   simp only [tableFormat, List.cons_append, if_neg marked, place, Nat.add_sub_cancel, listed, long]
 · intro h blocks encoded
   obtain ⟨i, -, -, rfl⟩ := encode_tableFormat encoded
   rw [long]
   decide
 · intro h blocks encoded
   obtain ⟨i, -, -, rfl⟩ := encode_tableFormat encoded
   rw [long]
 · intro h blocks encoded
   obtain ⟨i, -, -, rfl⟩ := encode_tableFormat encoded
   rw [long]
   decide

end BackImage.Go.Tar
