/- source: pkg/archive/extract_unix.go
  digest: An extraction on a file system: what each entry removes, creates and changes there. -/

import BackImage.Archive.EntryNames
import BackImage.Go.Root
import Mathlib.Data.List.Sort

namespace BackImage.Archive.Create

open Go Go.Path Go.Root Go.Text Lib.Filesystem Lib.Sequence
open Extract (ExtractOptions ExtractError treat)

inductive CopyFault
 | unexpectedEof
 | failed (refusal : Refusal)
 deriving DecidableEq

structure Calls where
 lstat : Option Refusal
 removeAll : Option (Refusal × List (Str × List Str))
 mkdirParent : Limit Refusal
 openParent : Option Refusal
 mkdir : Limit Refusal
 openFile : Option Refusal
 copying : Option (Nat × CopyFault)
 closing : Option Refusal
 symlink : Option Refusal
 link : Option Refusal
 copyOpen : Option Refusal
 copyCreate : Option Refusal
 copyBytes : Option (Nat × Refusal)
 copyDevice : Bytes
 copyRemove : Option Refusal
 mknod : Option Refusal
 lchown : Option Refusal
 chmod : Option Refusal
 openXattrs : Option Refusal
 setxattr : Str → Option Refusal
 utimes : Option Refusal

def willing : Calls where
 lstat := none
 removeAll := none
 mkdirParent := none
 openParent := none
 mkdir := none
 openFile := none
 copying := none
 closing := none
 symlink := none
 link := none
 copyOpen := none
 copyCreate := none
 copyBytes := none
 copyDevice := []
 copyRemove := none
 mknod := none
 lchown := none
 chmod := none
 openXattrs := none
 setxattr := fun _ => none
 utimes := none

structure FixCalls where
 chmod : Option Refusal
 openParent : Option Refusal
 utimes : Option Refusal

structure Item where
 hdr : Tar.Header
 body : Bytes
 cancelled : Option Str
 calls : Calls

/-- The options that `Extract` reads. -/
structure Options where
 base : ExtractOptions
 preserveOwner : Bool
 preserveXattrs : Bool

structure Attrs where
 mode : UInt32
 owner : Int × Int
 xattrs : List (Str × Bytes)
 accessTime : Option Int
 modTime : Int
 deriving DecidableEq

inductive Change
 | owner
 | mode
 | xattr
 | times
 deriving DecidableEq

/-- What happens during an extraction, with the object each call reached: an entry is taken up, a
link or its copy is made, a directory is there, metadata changes. -/
inductive Event
 | entry (path : List Str) (type : Tar.Typeflag)
 | linking (found : Option (Nat × Object))
 | copying (found : Option (Nat × Object))
 | directory (found : Option (Nat × Object))
 | changed (what : Change) (ino : Nat)
 deriving DecidableEq

/-- The errors of `createOne`. -/
inductive CreateError
 | needOverwrite (name : Str)
 | lstat (name : Str) (cause : OsErr)
 | removing (name : Str) (cause : OsErr)
 | mkdirParent (name : Str) (cause : OsErr)
 | openParent (name : Str) (cause : OsErr)
 | mkdir (name : Str) (cause : OsErr)
 | creating (name : Str) (cause : OsErr)
 | writing (name : Str) (fault : CopyFault)
 | closing (name : Str) (cause : OsErr)
 | symlink (name : Str) (cause : OsErr)
 | linkTargetNotRestored (name target : Str)
 | hardlink (name target : Str) (cause : OsErr)
 | hardlinkCopy (name target : Str) (cause copyCause : OsErr) (removeCause : Option OsErr)
 | mknod (name : Str) (cause : OsErr)
 | unsupported (name : Str) (flag : Tar.Typeflag)
 | metadata (what : Change) (name : Str) (cause : OsErr)
 deriving DecidableEq

def fatalFS : OsErr → Bool
 | .refused .unusable => true
 | _ => false

def fatalAlways : CreateError → Bool
 | .needOverwrite _ | .unsupported _ _ => true
 | .writing _ .unexpectedEof => true
 | .writing _ (.failed r) => fatalFS (.refused r)
 | .linkTargetNotRestored _ _ => false
 | .hardlinkCopy _ _ e e' removing => fatalFS e || fatalFS e' || removing.any fatalFS
 | .lstat _ e | .removing _ e | .mkdirParent _ e | .openParent _ e | .mkdir _ e | .creating _ e
 | .closing _ e | .symlink _ e | .hardlink _ _ e | .mknod _ e | .metadata _ _ e => fatalFS e

inductive Fault
 | cancelled (cause : Str)
 | tarRead (cause : Str)
 | refused (cause : ExtractError)
 | creating (cause : CreateError)
 deriving DecidableEq

/-- The state of `Extract`: the destination, the names a hardlink may point at, the directories of
the final pass, the entries that were skipped, and the events so far. -/
structure Run where
 disk : Disk
 attrs : Nat → Attrs
 materialised : List Str
 dirFixes : List (Str × Tar.Header)
 errors : List Fault
 log : List Event

def Run.start (disk : Disk) (attrs : Nat → Attrs) : Run := ⟨disk, attrs, [], [], [], []⟩

namespace Run

def note (run : Run) (event : Event) : Run := { run with log := run.log ++ [event] }

def on (run : Run) (disk : Disk) : Run := { run with disk := disk }

def materialise (run : Run) (name : Str) : Run :=
 { run with materialised := name :: run.materialised }

def forget (run : Run) (name : Str) : Run :=
 { run with materialised := run.materialised.filter (· ≠ name) }

end Run

def reached (found : Except OsErr (Nat × Object)) : Option (Nat × Object) := found.toOption

def parentName (name : Str) : Str :=
 let d := trimSuffix (dirPart name) [slash]
 if d = [] then dot else d

/-- The file part of `path.Split`. -/
def baseName (name : Str) : Str := name.drop (dirPart name).length

def pathOf (name : Str) : List Str := split slash name

def Run.enter (run : Run) (hdr : Tar.Header) : Run :=
 run.note (.entry (pathOf hdr.name) hdr.typeflag)

section Entry

variable (opts : Options) (calls : Calls) (hdr : Tar.Header)

def clearName (run : Run) : Effect Run CreateError :=
 match stat false calls.lstat run.disk hdr.name with
 | .ok (_, existing) =>
  if opts.base.overwrite = false then stop run (.needOverwrite hdr.name)
  else if existing = .dir ∧ hdr.typeflag = .dir then done run
  else
   match removeAll calls.removeAll run.disk hdr.name with
   | (disk, some e) => stop (run.on disk) (.removing hdr.name e)
   | (disk, none) => done ((run.on disk).forget hdr.name)
 | .error .notExist => done run
 | .error e => stop run (.lstat hdr.name e)

def makeParents (run : Run) : Effect Run CreateError :=
 if dir hdr.name = dot then done run
 else
  match mkdirAll calls.mkdirParent run.disk (dir hdr.name) with
  | (disk, some e) => stop (run.on disk) (.mkdirParent hdr.name e)
  | (disk, none) => done (run.on disk)

def openParent (refusal : Option Refusal) (disk : Disk) (name : Str) : Except OsErr (List Str) :=
 openDir refusal disk (parentName name)

def placeDir (run : Run) : Effect Run CreateError :=
 match mkdirAll calls.mkdir run.disk hdr.name with
 | (disk, some e) => stop (run.on disk) (.mkdir hdr.name e)
 | (disk, none) =>
  done ((run.on disk).note (.directory (reached (stat false none disk hdr.name))))

def placeFile (body : Bytes) (run : Run) : Effect Run CreateError :=
 match openWrite calls.openFile run.disk hdr.name with
 | .error e => stop run (.creating hdr.name e)
 | .ok (disk, file) =>
  match calls.copying with
  | some (n, fault) => stop (run.on (writeTo disk (body.take n) file)) (.writing hdr.name fault)
  | none =>
   let run := run.on (writeTo disk body file)
   match calls.closing with
   | some r => stop run (.closing hdr.name (.refused r))
   | none => done (run.materialise hdr.name)

def placeSymlink (run : Run) : Effect Run CreateError :=
 match make calls.symlink run.disk hdr.name (.link hdr.linkname) with
 | .error e => stop run (.symlink hdr.name e)
 | .ok disk => done (run.on disk)

def readAll (calls : Calls) : Object → Except OsErr Bytes
 | .file content => .ok content
 | .device _ => .ok calls.copyDevice
 | .dir | .link _ => .error .isDir

def dropCopy (disk : Disk) (cause : OsErr) : Disk × Option (OsErr × Option OsErr) :=
 let removed := remove calls.copyRemove disk hdr.name
 (removed.1, some (cause, removed.2))

def copyFileIn (disk : Disk) : Disk × Option (OsErr × Option OsErr) :=
 match stat true calls.copyOpen disk hdr.linkname with
 | .error e => (disk, some (e, none))
 | .ok (_, source) =>
  match openWrite calls.copyCreate disk hdr.name with
  | .error e => (disk, some (e, none))
  | .ok (created, file) =>
   match readAll calls source with
   | .error e => dropCopy calls hdr created e
   | .ok content =>
    match calls.copyBytes with
    | some (n, r) => dropCopy calls hdr (writeTo created (content.take n) file) (.refused r)
    | none => (writeTo created content file, none)

def placeLink (run : Run) : Effect Run CreateError :=
 if hdr.linkname ∉ run.materialised then
  stop run (.linkTargetNotRestored hdr.name hdr.linkname)
 else
  let run := run.note (.linking (reached (stat false none run.disk hdr.linkname)))
  match link calls.link run.disk hdr.linkname hdr.name with
  | .ok disk => done ((run.on disk).materialise hdr.name)
  | .error e =>
   if fatalFS e then stop run (.hardlink hdr.name hdr.linkname e)
   else
    let run := run.note (.copying (reached (stat true none run.disk hdr.linkname)))
    match copyFileIn calls hdr run.disk with
    | (disk, some (e', removing)) =>
     stop (run.on disk) (.hardlinkCopy hdr.name hdr.linkname e e' removing)
    | (disk, none) =>
     if opts.base.strict then stop (run.on disk) (.hardlink hdr.name hdr.linkname e)
     else done ((run.on disk).materialise hdr.name)

def placeNode (parent : List Str) (special : Special) (run : Run) : Effect Run CreateError :=
 match mknodAt calls.mknod run.disk parent (baseName hdr.name) (.device special) with
 | .error e => stop run (.mknod hdr.name e)
 | .ok disk => done (run.on disk)

/-- The switch of `createOne`. -/
def place (body : Bytes) (parent : List Str) (run : Run) : Effect Run CreateError :=
 match hdr.typeflag with
 | .dir => placeDir calls hdr run
 | .reg => placeFile calls hdr body run
 | .symlink => placeSymlink calls hdr run
 | .link => placeLink opts calls hdr run
 | .char => placeNode calls hdr parent (.char hdr.devmajor hdr.devminor) run
 | .block => placeNode calls hdr parent (.block hdr.devmajor hdr.devminor) run
 | .fifo => placeNode calls hdr parent .fifo run
 | .other flag => stop run (.unsupported hdr.name (.other flag))

def degrade (strict : Bool) (err : CreateError) (run : Run) : Effect Run CreateError :=
 if strict then stop run err else done run

def change (strict : Bool) (what : Change) (name : Str) (set : Attrs → Attrs) (run : Run)
  (found : Except OsErr Nat) : Effect Run CreateError :=
 match found with
 | .error e => degrade strict (.metadata what name e) run
 | .ok i =>
  done ({ run with
   attrs := fun j => if j = i then set (run.attrs j) else run.attrs j }.note (.changed what i))

def headerMode : UInt32 := hdr.mode &&& 0xfff

def inode (found : Except OsErr (Nat × Object)) : Except OsErr Nat := found.map Prod.fst

def applyOwner (run : Run) : Effect Run CreateError :=
 if opts.preserveOwner then
  change opts.base.strict .owner hdr.name (fun a => { a with owner := (hdr.uid, hdr.gid) }) run
   (inode (stat false calls.lchown run.disk hdr.name))
 else done run

def applyMode (run : Run) : Effect Run CreateError :=
 if hdr.typeflag = .symlink ∨ hdr.typeflag = .dir then done run
 else
  change opts.base.strict .mode hdr.name (fun a => { a with mode := headerMode hdr }) run
   (inode (stat true calls.chmod run.disk hdr.name))

def xattrPairs : List (Str × Bytes) :=
 hdr.paxRecords.filterMap fun r =>
  if hasPrefix r.1 (lit "SCHILY.xattr.") then some (trimPrefix r.1 (lit "SCHILY.xattr."), r.2)
  else none

/-- `xattrNamespace(attr) == "trusted"`. -/
def trusted (attr : Str) : Bool := hasPrefix attr (lit "trusted.")

def tolerateXattr (attr : Str) : Refusal → Bool
 | .unsupported => true
 | .permission => trusted attr
 | .unusable | .other => false

def setXattr (i : Nat) (pair : Str × Bytes) (run : Run) : Effect Run CreateError :=
 match calls.setxattr pair.1 with
 | none =>
  change opts.base.strict .xattr hdr.name (fun a => { a with xattrs := pair :: a.xattrs })
   run (.ok i)
 | some r =>
  if tolerateXattr pair.1 r then done run
  else degrade opts.base.strict (.metadata .xattr hdr.name (.refused r)) run

def applyXattrs (run : Run) : Effect Run CreateError :=
 if opts.preserveXattrs = false ∨ xattrPairs hdr = [] then done run
 else if hdr.typeflag ≠ .reg ∧ hdr.typeflag ≠ .dir ∧ hdr.typeflag ≠ .link then done run
 else
  match inode (stat true calls.openXattrs run.disk hdr.name) with
  | .error e => degrade opts.base.strict (.metadata .xattr hdr.name e) run
  | .ok i => runAll (setXattr opts calls hdr i) (xattrPairs hdr) run

def setTimes (a : Attrs) : Attrs :=
 { a with accessTime := hdr.accessTime.or a.accessTime, modTime := hdr.modTime }

def applyTimes (parent : List Str) (run : Run) : Effect Run CreateError :=
 if hdr.modTime = 0 then done run
 else
  change opts.base.strict .times hdr.name (setTimes hdr) run
   (statAt calls.utimes run.disk parent (baseName hdr.name))

def applyMetadata (parent : List Str) (run : Run) : Effect Run CreateError :=
 (applyOwner opts calls hdr run).andThen fun run =>
  (applyMode opts calls hdr run).andThen fun run =>
   (applyXattrs opts calls hdr run).andThen (applyTimes opts calls hdr parent)

/-- `createOne` from the open parent on. -/
def createIn (body : Bytes) (run : Run) : Effect Run CreateError :=
 match openParent calls.openParent run.disk hdr.name with
 | .error e => stop run (.openParent hdr.name e)
 | .ok parent =>
  (place opts calls hdr body parent run).andThen (applyMetadata opts calls hdr parent)

def createOne (body : Bytes) (run : Run) : Effect Run CreateError :=
 (clearName opts calls hdr (run.enter hdr)).andThen fun run =>
  (makeParents calls hdr run).andThen (createIn opts calls hdr body)

end Entry

def skip (strict fatal : Bool) (fault : Fault) (run : Run) : Effect Run Fault :=
 if strict ∨ fatal then stop run fault
 else done { run with errors := run.errors ++ [fault] }

def remember (hdr : Tar.Header) (run : Run) : Run :=
 if hdr.typeflag = .dir then { run with dirFixes := run.dirFixes ++ [(hdr.name, hdr)] } else run

/-- One turn of the loop of `Extract`. -/
def turn (opts : Options) (item : Item) (run : Run) : Effect Run Fault :=
 match item.cancelled with
 | some cause => stop run (.cancelled cause)
 | none =>
  match treat opts.base item.hdr with
  | .pass => done run
  | .refuse cause => skip opts.base.strict false (.refused cause) run
  | .create hdr =>
   let call := createOne opts item.calls hdr item.body run
   match call.error with
   | none => done (remember hdr call.state)
   | some err => skip opts.base.strict (fatalAlways err) (.creating err) call.state

def utimesIn (calls : FixCalls) (disk : Disk) (name : Str) : Except OsErr Nat :=
 match openParent calls.openParent disk name with
 | .error e => .error e
 | .ok parent => statAt calls.utimes disk parent (baseName name)

def fixDir (opts : Options) (calls : Nat → FixCalls) (fix : (Str × Tar.Header) × Nat) (run : Run) :
  Effect Run CreateError :=
 let name := fix.1.1
 let hdr := fix.1.2
 (change opts.base.strict .mode name (fun a => { a with mode := headerMode hdr }) run
  (inode (stat true (calls fix.2).chmod run.disk name))).andThen fun run =>
   if hdr.modTime = 0 then done run
   else
    change opts.base.strict .times name (setTimes hdr) run
     (utimesIn (calls fix.2) run.disk name)

structure Order where
 sort : List (Str × Tar.Header) → List (Str × Tar.Header)
 perm : ∀ fixes, (sort fixes).Perm fixes
 deepestFirst : ∀ fixes, (sort fixes).Pairwise fun a b => b.1.length ≤ a.1.length

def byLength : Order where
 sort fixes := fixes.insertionSort fun a b => b.1.length ≤ a.1.length
 perm fixes := List.perm_insertionSort _ fixes
 deepestFirst fixes := by
  have : Std.Total fun a b : Str × Tar.Header => b.1.length ≤ a.1.length :=
   ⟨fun a b => Nat.le_total _ _⟩
  have : IsTrans (Str × Tar.Header) fun a b => b.1.length ≤ a.1.length :=
   ⟨fun a b c first second => Nat.le_trans second first⟩
  exact List.pairwise_insertionSort _ fixes

def finalPass (opts : Options) (order : Order) (calls : Nat → FixCalls) (run : Run) :
  Effect Run Fault :=
 (runAll (fixDir opts calls) (order.sort run.dirFixes).zipIdx run).within id .creating

def extract (opts : Options) (order : Order) (calls : Nat → FixCalls) (items : List Item)
  (tail : Option Fault) (run : Run) : Effect Run Fault :=
 (runAll (turn opts) items run).andThen fun run =>
  match tail with
  | some fault => stop run fault
  | none => finalPass opts order calls run

def plainHeader (type : Tar.Typeflag) (name linkname : Str) : Tar.Header where
 typeflag := type
 name := name
 linkname := linkname
 size := 0
 mode := 0o644
 uid := 0
 gid := 0
 uname := []
 gname := []
 modTime := 1
 accessTime := none
 changeTime := none
 devmajor := 0
 devminor := 0
 paxRecords := []

def plainItem (type : Tar.Typeflag) (name linkname : Str) (body : Bytes) : Item :=
 ⟨plainHeader type name linkname, body, none, willing⟩

def plainAttrs : Attrs := ⟨0o700, (0, 0), [], none, 0⟩

def overwriting : Options := ⟨⟨true, false, [], [], 0⟩, true, true⟩

/-- An archive extracted over a tree by a system that refuses nothing. -/
def extracted (items : List Item) (disk : Disk) : Effect Run Fault :=
 extract overwriting byLength (fun _ => ⟨none, none, none⟩) items none
  (Run.start disk fun _ => plainAttrs)

end BackImage.Archive.Create
