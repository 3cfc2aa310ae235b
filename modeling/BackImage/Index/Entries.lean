/- source: pkg/index/model.go, pkg/index/limits.go, pkg/backup/pipeline.go
  digest: What every consumer of the file index relies on, and the entries the local pipeline makes
    of an archive. -/

import BackImage.Archive.Writer
import BackImage.Index.Model
import BackImage.Lib.Sequence

namespace BackImage.Index.Entries

open Go.ModeBits Go.Text Lib.Sequence Model
open Archive.Writer (Counters Entry)

def maxIndexEntries : Nat := 10000000
def maxPathBytes : Nat := 4096

def parseMode (s : Str) : Option UInt32 :=
 if s = [] ∨ 6 < s.length ∨ s.head? ≠ some 48 then none
 else if s.all (fun c => 48 ≤ c && c ≤ 55) then
  some (s.foldl (fun (v : UInt32) (c : UInt8) => v * 8 + (c - 48).toUInt32) 0)
 else none

def formatMode (m : UInt32) : Str :=
 48 :: (List.replicate (3 - (octal m.toNat).length) 48 ++ octal m.toNat)

theorem parseMode_formatMode {m : UInt32} (small : m.toNat < 2 ^ 15) :
  parseMode (formatMode m) ≠ none := by
 have short : (octal m.toNat).length ≤ 5 := (length_octal_le (by decide)).mpr small
 have room : ¬ (formatMode m = [] ∨ 6 < (formatMode m).length ∨
   (formatMode m).head? ≠ some 48) := by
  simp only [formatMode, List.length_cons, List.length_append, List.length_replicate,
   List.head?_cons, not_or]
  refine ⟨List.cons_ne_nil _ _, ?_, ?_⟩
  · omega
  · simp
 have digits : (formatMode m).all (fun c => 48 ≤ c && c ≤ 55) = true := by
  apply List.all_eq_true.mpr
  intro c inside
  have zero : (48 : UInt8) ≤ 48 ∧ (48 : UInt8) ≤ 55 := by decide
  have bounds : 48 ≤ c ∧ c ≤ 55 := by
   rcases List.mem_cons.mp inside with rfl | later
   · exact zero
   · rcases List.mem_append.mp later with padded | digit
     · rw [List.eq_of_mem_replicate padded]
       exact zero
     · exact mem_octal digit
  simpa using bounds
 rw [parseMode, if_neg room, if_pos digits]
 exact Option.some_ne_none _

inductive EntryError
 | tooMany (held : Nat)
 | emptyPath (i : Nat)
 | longPath (i size : Nat)
 | longTarget (i size : Nat)
 | repeated (i first : Nat) (path : Str)
 | offset (i : Nat) (got previous : Int64)
 | unknownType (i : Nat)
 | negative (i : Nat)
 | mode (i : Nat) (mode : Str)
 | digest (i : Nat)
 | noTarget (i : Nat)
 deriving DecidableEq

/-- The type is in `entryTypes`. -/
def known : EntryType → Bool
 | .other _ => false
 | _ => true

def checkFields (i : Nat) (e : FileEntry) : Except EntryError Unit :=
 if known e.type = false then .error (.unknownType i)
 else if e.size < 0 ∨ e.tarOffset < 0 then .error (.negative i)
 else if parseMode e.mode = none then .error (.mode i e.mode)
 else if e.type = .reg ∧ validHex64 e.sha256 = false then .error (.digest i)
 else if (e.type = .sym ∨ e.type = .hard) ∧ e.linkTarget = [] then .error (.noTarget i)
 else .ok ()

def checkEntries : Nat → List (Str × Nat) → Int64 → List FileEntry → Except EntryError Unit
 | _, _, _, [] => .ok ()
 | i, seen, previous, e :: rest =>
  if e.path = [] then .error (.emptyPath i)
  else if maxPathBytes < e.path.length then .error (.longPath i e.path.length)
  else if maxPathBytes < e.linkTarget.length then .error (.longTarget i e.linkTarget.length)
  else
   match seen.lookup e.path with
   | some first => .error (.repeated i first e.path)
   | none =>
    if e.tarOffset ≤ previous then .error (.offset i e.tarOffset previous)
    else
     match checkFields i e with
     | .error err => .error err
     | .ok () => checkEntries (i + 1) ((e.path, i) :: seen) e.tarOffset rest

def validateEntries (entries : List FileEntry) : Except EntryError Unit :=
 if maxIndexEntries < entries.length then .error (.tooMany entries.length)
 else checkEntries 0 [] (-1) entries

variable {i : Nat} {seen : List (Str × Nat)} {previous : Int64} {e : FileEntry}
variable {rest : List FileEntry}

theorem checkEntries_cons : checkEntries i seen previous (e :: rest) = .ok () ↔
   e.path ≠ [] ∧ e.path.length ≤ maxPathBytes ∧ e.linkTarget.length ≤ maxPathBytes ∧
    e.path ∉ seen.map Prod.fst ∧ previous < e.tarOffset ∧ checkFields i e = .ok () ∧
    checkEntries (i + 1) ((e.path, i) :: seen) e.tarOffset rest = .ok () := by
 have unseen : seen.lookup e.path = none ↔ e.path ∉ seen.map Prod.fst := by
  rw [List.lookup_eq_none_iff]
  constructor
  · intro absent member
    obtain ⟨pair, inside, same⟩ := List.mem_map.mp member
    have differs := absent pair inside
    rw [same] at differs
    simp at differs
  · intro absent pair inside
    by_contra same
    have equal : e.path = pair.1 := by simpa using same
    exact absent (List.mem_map.mpr ⟨pair, inside, equal.symm⟩)
 rw [checkEntries, guard_ok, guard_ok, guard_ok, Nat.not_lt, Nat.not_lt, ← unseen]
 cases found : seen.lookup e.path with
 | some first => simp
 | none =>
  simp only [guard_ok, Int64.not_le, true_and]
  cases fields : checkFields i e with
  | error err => simp
  | ok _ => simp

structure Fit (e : FileEntry) : Prop where
 path : e.path ≠ []
 pathSize : e.path.length ≤ maxPathBytes
 targetSize : e.linkTarget.length ≤ maxPathBytes
 type : known e.type = true
 size : 0 ≤ e.size
 offset : 0 ≤ e.tarOffset
 mode : parseMode e.mode ≠ none
 digest : e.type = .reg → validHex64 e.sha256 = true
 target : e.type = .sym ∨ e.type = .hard → e.linkTarget ≠ []

structure Ordered (entries : List FileEntry) : Prop where
 distinct : (entries.map FileEntry.path).Nodup
 growing : entries.Pairwise fun a b => a.tarOffset < b.tarOffset

theorem checkFields_ok_iff : checkFields i e = .ok () ↔
   known e.type = true ∧ 0 ≤ e.size ∧ 0 ≤ e.tarOffset ∧ parseMode e.mode ≠ none ∧
    (e.type = .reg → validHex64 e.sha256 = true) ∧
    (e.type = .sym ∨ e.type = .hard → e.linkTarget ≠ []) := by
 simp only [checkFields, guard_ok, not_or, not_and, Int64.not_lt, Bool.not_eq_false, and_true,
  and_assoc, ne_eq]

theorem ordered_cons : Ordered (e :: rest) ↔
   (∀ x ∈ rest, e.path ≠ x.path ∧ e.tarOffset < x.tarOffset) ∧ Ordered rest := by
 constructor
 · rintro ⟨distinct, growing⟩
   rw [List.map_cons, List.nodup_cons] at distinct
   rw [List.pairwise_cons] at growing
   refine ⟨?_, distinct.2, growing.2⟩
   intro x inside
   refine ⟨?_, growing.1 x inside⟩
   intro same
   exact distinct.1 (List.mem_map.mpr ⟨x, inside, same.symm⟩)
 · rintro ⟨apart, distinct, growing⟩
   refine ⟨?_, List.pairwise_cons.mpr ⟨fun x inside => (apart x inside).2, growing⟩⟩
   rw [List.map_cons, List.nodup_cons]
   refine ⟨?_, distinct⟩
   intro repeated
   obtain ⟨x, inside, same⟩ := List.mem_map.mp repeated
   exact (apart x inside).1 same.symm

variable {entries : List FileEntry}

theorem checkEntries_ok_iff : checkEntries i seen previous entries = .ok () ↔
   (∀ e ∈ entries, Fit e ∧ e.path ∉ seen.map Prod.fst ∧ previous < e.tarOffset) ∧
    Ordered entries := by
 induction entries generalizing i seen previous with
 | nil =>
  refine iff_of_true rfl ⟨?_, List.nodup_nil, List.Pairwise.nil⟩
  intro e inside
  cases inside
 | cons e rest ih =>
  rw [checkEntries_cons, checkFields_ok_iff, ih, ordered_cons]
  constructor
  · rintro ⟨path, pathSize, targetSize, unseen, grows, ⟨type, size, offset, mode, digest, target⟩,
     later, ordered⟩
    refine ⟨?_, ?_, ordered⟩
    · intro x inside
      rcases List.mem_cons.mp inside with rfl | tail
      · exact ⟨⟨path, pathSize, targetSize, type, size, offset, mode, digest, target⟩,
         unseen, grows⟩
      · obtain ⟨fit, fresh, after⟩ := later x tail
        rw [List.map_cons, List.mem_cons, not_or] at fresh
        exact ⟨fit, fresh.2, Int64.lt_trans grows after⟩
    · intro x inside
      obtain ⟨-, fresh, after⟩ := later x inside
      rw [List.map_cons, List.mem_cons, not_or] at fresh
      exact ⟨fun same => fresh.1 same.symm, after⟩
  · rintro ⟨each, apart, ordered⟩
    obtain ⟨fit, unseen, grows⟩ := each e List.mem_cons_self
    refine ⟨fit.path, fit.pathSize, fit.targetSize, unseen, grows,
     ⟨fit.type, fit.size, fit.offset, fit.mode, fit.digest, fit.target⟩, ?_, ordered⟩
    intro x inside
    obtain ⟨fit', unseen', -⟩ := each x (List.mem_cons_of_mem e inside)
    obtain ⟨differs, after⟩ := apart x inside
    refine ⟨fit', ?_, after⟩
    rw [List.map_cons, List.mem_cons, not_or]
    exact ⟨fun same => differs same.symm, unseen'⟩

theorem validateEntries_ok_iff : validateEntries entries = .ok () ↔
   entries.length ≤ maxIndexEntries ∧ (∀ e ∈ entries, Fit e) ∧ Ordered entries := by
 rw [validateEntries, guard_ok, Nat.not_lt, checkEntries_ok_iff]
 constructor
 · rintro ⟨few, each, ordered⟩
   exact ⟨few, fun e inside => (each e inside).1, ordered⟩
 · rintro ⟨few, each, ordered⟩
   refine ⟨few, ?_, ordered⟩
   intro e inside
   have fit := each e inside
   refine ⟨fit, List.not_mem_nil, ?_⟩
   exact Int64.lt_of_lt_of_le (by decide) fit.offset

def archiveMode (mode : FileMode) : UInt32 := permissionBits mode

def typeCode : Archive.Writer.EntryType → EntryType
 | .regular => .reg
 | .dir => .dir
 | .symlink => .sym
 | .hardlink => .hard
 | .charDevice => .chr
 | .blockDevice => .blk
 | .fifo => .fifo

/-- One entry of `archiveToIndex`. -/
def fileEntry (e : Entry) : FileEntry where
 path := e.path
 type := typeCode e.type
 size := e.size
 mode := formatMode (archiveMode e.mode)
 uid := e.uid
 gid := e.gid
 uname := e.uname
 gname := e.gname
 mtime := e.modTime
 linkTarget := e.linkTarget
 tarOffset := e.tarOffset
 sha256 := e.sha256

def archiveToIndex (entries : List Entry) : List FileEntry := entries.map fileEntry

/-- The totals that `finalize` records. -/
def totals (c : Counters) (bytesStored : Int64) : Totals where
 files := c.files
 dirs := c.dirs
 symlinks := c.symlinks
 hardlinks := c.hardlinks
 devices := c.devices + c.fifos
 bytesRaw := c.bytesRaw
 bytesStored := bytesStored

end BackImage.Index.Entries
