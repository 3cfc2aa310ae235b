/- source: pkg/archive/entry.go, pkg/archive/source.go, pkg/archive/source_unix.go,
     pkg/archive/meta_unix.go, pkg/archive/writer.go, pkg/archive/archive.go
  digest: The walk that archives a tree: what is opened, left out, counted and written, in order. -/

import BackImage.Archive.Exclude
import BackImage.Go.ModeBits
import BackImage.Go.Path
import BackImage.Go.Sha256
import BackImage.Go.Tar
import Mathlib.Data.List.Sort

namespace BackImage.Archive.Writer

open Exclude Go Go.ModeBits Go.Path Go.Sha256 Go.Text Lib.Sequence

inductive EntryType
 | regular | dir | symlink | hardlink | charDevice | blockDevice | fifo
 deriving DecidableEq

structure Entry where
 path : Str
 type : EntryType
 size : Int64
 mode : FileMode
 uid : Int
 gid : Int
 uname : Str
 gname : Str
 modTime : Int
 accessTime : Int
 changeTime : Int
 linkTarget : Str
 devMajor : Int64
 devMinor : Int64
 xattrs : List (Str × Bytes)
 tarOffset : Int64
 sha256 : Str
 deriving DecidableEq

inductive EntryError
 | emptyPath
 | absolute (path : Str)
 | dotDot (path : Str)
 | size (path : Str) (size : Int64) (type : EntryType)
 | noTarget (path : Str) (type : EntryType)
 | emptyKey (path : Str)
 deriving DecidableEq

def Entry.validate (e : Entry) : Except EntryError Unit :=
 if e.path = [] then .error .emptyPath
 else if hasPrefix e.path (lit "/") then .error (.absolute e.path)
 else if e.path = lit ".." ∨ hasPrefix e.path (lit "../") ∨ contains e.path (lit "/../") then
  .error (.dotDot e.path)
 else if e.size ≠ 0 ∧ e.type ≠ .regular then .error (.size e.path e.size e.type)
 else if (e.type = .symlink ∨ e.type = .hardlink) ∧ e.linkTarget = [] then
  .error (.noTarget e.path e.type)
 else if e.xattrs.any (fun x => x.1 = []) then .error (.emptyKey e.path)
 else .ok ()

structure OsError where
 permission : Bool
 text : Str
 deriving DecidableEq

structure FileName where
 text : Str
 ordinary : Ordinary text
 noNul : 0 ∉ text

instance : DecidableEq FileName := fun a b =>
 decidable_of_iff (a.text = b.text) (by
  constructor
  · intro same
    cases a
    cases b
    cases same
    rfl
  · intro same
    rw [same])

structure LinkText where
 text : Str
 filled : text ≠ []

structure FileInfo where
 mode : FileMode
 size : Int64
 sized : 0 ≤ size
 modTime : Int
 accessTime : Int
 changeTime : Int
 dev : UInt64
 ino : UInt64
 nlink : UInt64
 uid : UInt32
 gid : UInt32
 rdev : Int64 × Int64

abbrev Xattrs := List (Str × Bytes)

structure Descriptor where
 fstat : Except OsError FileInfo
 settling : Option OsError
 content : Bytes
 reading : Option OsError
 xattrs : Except OsError Xattrs

structure Answers where
 cancelled : Option Str
 lstat : Except OsError FileInfo
 readlink : Except OsError LinkText
 opening : Except OsError Descriptor
 readdir : Option OsError
 openRoot : Except OsError (Except OsError FileInfo)
 xattrs : Except OsError Xattrs
 owner : Str × Str

structure Names where
 list : List FileName
 distinct : list.Nodup

def absent (cancelled : Option Str) (cause : OsError) : Answers where
 cancelled := cancelled
 lstat := .error cause
 readlink := .error cause
 opening := .error cause
 readdir := some cause
 openRoot := .error cause
 xattrs := .error cause
 owner := ([], [])

/-- A tree to archive: nothing, or what is answered about its top and the tree at each name below. A
name may be listed and gone when the walk comes to it. -/
inductive Tree
 | missing (cancelled : Option Str) (cause : OsError)
 | node (answers : Answers) (names : Names) (child : FileName → Tree)

def Tree.answers : Tree → Answers
 | .missing cancelled cause => absent cancelled cause
 | .node answers _ _ => answers

def errSourceChanged : OsError := ⟨false, lit "replaced while archiving"⟩

def sameEntry (a b : FileInfo) : Bool :=
 a.mode &&& modeType = b.mode &&& modeType && a.dev = b.dev && a.ino = b.ino

def openVerified (a : Answers) (st : FileInfo) : Except OsError Descriptor :=
 match a.opening with
 | .error e => .error e
 | .ok f =>
  match f.fstat with
  | .error e => .error e
  | .ok fi =>
   if sameEntry fi st then
    match f.settling with
    | some e => .error e
    | none => .ok f
   else .error errSourceChanged

/-- `sort.Strings`. -/
def sorted (names : Names) : List FileName :=
 names.list.insertionSort fun a b => a.text ≤ b.text

def list (a : Answers) (names : Names) (st : FileInfo) :
  Except OsError (Descriptor × List FileName) :=
 match openVerified a st with
 | .error e => .error e
 | .ok f =>
  match a.readdir with
  | some e => .error e
  | none =>
   match a.openRoot with
   | .error e => .error e
   | .ok (.ok fi) => if sameEntry fi st then .ok (f, sorted names) else .error errSourceChanged
   | .ok (.error e) => if e.permission then .ok (f, sorted names) else .error e

theorem list_eq_ok {a : Answers} {names : Names} {st : FileInfo} {f : Descriptor}
  {found : List FileName} (listed : list a names st = .ok (f, found)) : found = sorted names := by
 unfold list at listed
 grind

theorem nodup_sorted (names : Names) : (sorted names).Nodup :=
 (List.perm_insertionSort _ names.list).nodup_iff.mpr names.distinct

structure HardlinkKey where
 dev : UInt64
 ino : UInt64
 deriving DecidableEq

def fileIdentity (st : FileInfo) : Option HardlinkKey :=
 if st.nlink ≤ 1 then none else some ⟨st.dev, st.ino⟩

def named (xattrs : Xattrs) : Xattrs := xattrs.filter fun x => x.1 ≠ []

def readMeta (numericOwner preserveXattrs : Bool) (a : Answers) (f : Option Descriptor)
  (st : FileInfo) (e : Entry) : Entry × Option OsError :=
 let e := { e with
  uid := st.uid.toNat
  gid := st.gid.toNat
  devMajor := st.rdev.1
  devMinor := st.rdev.2
  modTime := st.modTime
  accessTime := st.accessTime
  changeTime := st.changeTime
  uname := if numericOwner then [] else a.owner.1
  gname := if numericOwner then [] else a.owner.2 }
 if preserveXattrs then
  match f.elim a.xattrs Descriptor.xattrs with
  | .error lost => (e, some lost)
  | .ok xs => ({ e with xattrs := named xs }, none)
 else (e, none)

structure Options where
 strict : Bool
 oneFileSystem : Bool
 excludes : List Str
 numericOwner : Bool
 preserveXattrs : Bool
 preserveTimes : Bool
 deriving DecidableEq

inductive WalkError
 | collision (base a b : Str)
 | lstatRoot (root : Str) (cause : OsError)
 | readdirRoot (root : Str) (cause : OsError)
 | cancelled (root cause : Str)
 | lstat (path : Str) (cause : OsError)
 | readdir (path : Str) (cause : OsError)
 | readlink (path : Str) (cause : OsError)
 | unsupported (path : Str) (mode : FileMode)
 | metadata (path : Str) (cause : OsError)
 | xattrsLost (path : Str) (cause : OsError)
 | opening (path : Str) (cause : OsError)
 | header (path : Str) (cause : Tar.WriteError)
 | copyWrite (path : Str) (cause : Tar.WriteError)
 | copyRead (path : Str) (cause : OsError)
 | sizeChanged (path : Str) (stat read : Int64)
 | trailer (cause : Tar.WriteError)
 deriving DecidableEq

structure Counters where
 files : Int64
 dirs : Int64
 symlinks : Int64
 hardlinks : Int64
 devices : Int64
 fifos : Int64
 bytesRaw : Int64
 deriving DecidableEq

def Counters.zero : Counters := ⟨0, 0, 0, 0, 0, 0, 0⟩

def Counters.add (c : Counters) (type : EntryType) (n : Int64) : Counters :=
 let c := { c with bytesRaw := c.bytesRaw + n }
 match type with
 | .regular => { c with files := c.files + 1 }
 | .dir => { c with dirs := c.dirs + 1 }
 | .symlink => { c with symlinks := c.symlinks + 1 }
 | .hardlink => { c with hardlinks := c.hardlinks + 1 }
 | .charDevice | .blockDevice => { c with devices := c.devices + 1 }
 | .fifo => { c with fifos := c.fifos + 1 }

structure Stats where
 counters : Counters
 skipped : Int64
 contentSkipped : Int64
 xattrsSkipped : Int64
 errors : List WalkError
 warnings : List Str
 deriving DecidableEq

structure TarWriter where
 tw : Tar.Output
 stats : Stats
 entries : List Entry
 links : List (HardlinkKey × Str)
 rootBases : List (Str × Str)
 devSeen : Option UInt64
 deriving DecidableEq

structure Archiver where
 opts : Options
 format : Tar.Format
 sink : Tar.Sink

def newWriter : TarWriter :=
 ⟨⟨[], 0, 0⟩, ⟨.zero, 0, 0, 0, [], []⟩, [], [], [], none⟩

namespace TarWriter

variable (w : TarWriter)

def written : Int64 := Int64.ofNat w.tw.out.length

def skip : TarWriter := { w with stats.skipped := w.stats.skipped + 1 }

def note (err : WalkError) : TarWriter :=
 { w with stats.errors := w.stats.errors ++ [err] }

def warnOnce (msg : Str) : TarWriter :=
 if msg ∈ w.stats.warnings then w else { w with stats.warnings := w.stats.warnings ++ [msg] }

def lose : Option WalkError → TarWriter
 | none => w
 | some err =>
  ({ w with stats.xattrsSkipped := w.stats.xattrsSkipped + 1 }.note err).warnOnce
   (lit "attributi estesi non leggibili su alcune entry: sono stati esclusi dall'archivio")

def leaveEmpty (err : WalkError) : TarWriter :=
 { w.note err with stats.contentSkipped := w.stats.contentSkipped + 1 }.warnOnce
  (lit
   "contenuto di alcuni file non leggibile: archiviati come file vuoti, con nome, permessi, owner e timestamp conservati (--allow-degraded)")

def record (e : Entry) (n : Int64) : TarWriter :=
 { w with stats.counters := w.stats.counters.add e.type n, entries := w.entries ++ [e] }

end TarWriter

def handleWalkError (opts : Options) (err : WalkError) (w : TarWriter) :
  Effect TarWriter WalkError :=
 if opts.strict then stop w err else done (w.note err).skip

inductive Shape
 | object (type : EntryType) (size : Int64) (target : Str)
 | socket
 | fault (err : WalkError)

/-- The switch of `emitOne`. -/
def classify (fsPath : Str) (a : Answers) (st : FileInfo) : Shape :=
 if has st.mode modeSymlink then
  match a.readlink with
  | .error cause => .fault (.readlink fsPath cause)
  | .ok target => .object .symlink 0 target.text
 else if isRegular st.mode then .object .regular st.size []
 else if isDir st.mode then .object .dir 0 []
 else if has st.mode modeCharDevice then .object .charDevice 0 []
 else if has st.mode modeDevice then .object .blockDevice 0 []
 else if has st.mode modeNamedPipe then .object .fifo 0 []
 else if has st.mode modeSocket then .socket
 else .fault (.unsupported fsPath st.mode)

def noDescriptor : OsError := ⟨false, lit "no descriptor"⟩

inductive Draft
 | leftOut
 | fault (err : WalkError)
 | entry (e : Entry) (lost : Option WalkError) (file : Except OsError Descriptor)

def draft (opts : Options) (arcPath fsPath : Str) (a : Answers) (st : FileInfo)
  (dirFile : Option Descriptor) : Draft :=
 if excludedBy opts.excludes arcPath then .leftOut
 else
  match classify fsPath a st with
  | .socket => .leftOut
  | .fault err => .fault err
  | .object type size target =>
   let file := if type = .regular then openVerified a st else .error noDescriptor
   let metaFile := if type = .dir then dirFile else file.toOption
   let e : Entry :=
    ⟨arcPath, type, size, permissions st.mode, 0, 0, [], [], 0, 0, 0, target, 0, 0, [], 0, []⟩
   match readMeta opts.numericOwner opts.preserveXattrs a metaFile st e with
   | (e, none) => .entry e none file
   | (e, some lost) =>
    if opts.strict then .fault (.metadata fsPath lost)
    else .entry e (some (.xattrsLost fsPath lost)) file

def typeflag : EntryType → Tar.Typeflag
 | .regular => .reg
 | .dir => .dir
 | .symlink => .symlink
 | .hardlink => .link
 | .charDevice => .char
 | .blockDevice => .block
 | .fifo => .fifo

def tarName (e : Entry) : Str :=
 if e.type = .dir then trimSuffix e.path [slash] ++ [slash] else e.path

/-- The header `writeEntry` fills in. -/
def headerOf (opts : Options) (e : Entry) : Tar.Header where
 typeflag := typeflag e.type
 name := tarName e
 linkname := if e.type = .symlink ∨ e.type = .hardlink then e.linkTarget else []
 size := if e.type = .regular then e.size else 0
 mode := permissionBits e.mode
 uid := e.uid
 gid := e.gid
 uname := e.uname
 gname := e.gname
 modTime := e.modTime
 accessTime := if opts.preserveTimes then some e.accessTime else none
 changeTime := if opts.preserveTimes then some e.changeTime else none
 devmajor := if e.type = .charDevice ∨ e.type = .blockDevice then e.devMajor else 0
 devminor := if e.type = .charDevice ∨ e.type = .blockDevice then e.devMinor else 0
 paxRecords :=
  if opts.preserveXattrs then e.xattrs.map fun x => (lit "SCHILY.xattr." ++ x.1, x.2) else []

def groupLinks (st : FileInfo) (e : Entry) (links : List (HardlinkKey × Str)) :
  Entry × List (HardlinkKey × Str) :=
 if e.type = .regular then
  match fileIdentity st with
  | none => (e, links)
  | some key =>
   match links.lookup key with
   | some first => ({ e with type := .hardlink, linkTarget := first, size := 0 }, links)
   | none => (e, (key, e.path) :: links)
 else (e, links)

def nextHeader (written : Int64) : Int64 := (written + 511) &&& ~~~511

def settle (opts : Options) (e : Entry) (fsPath : Str) (content : Bytes) (w : TarWriter) :
  Effect TarWriter WalkError :=
 let n := Int64.ofNat content.length
 let e := { e with sha256 := hexEncode (sum256 content) }
 if n ≠ e.size then
  if opts.strict then stop w (.sizeChanged fsPath e.size n)
  else done ((w.note (.sizeChanged fsPath e.size n)).record e n)
 else done (w.record e n)

section Writing

variable (ar : Archiver)

/-- `writeEntry` from `WriteHeader` on. -/
def store (e : Entry) (fsPath : Str) (file : Option Descriptor) (w : TarWriter) :
  Effect TarWriter WalkError :=
 let e := { e with tarOffset := nextHeader w.written }
 let sent := Tar.writeHeader ar.format ar.sink (headerOf ar.opts e) w.tw
 (sent.within (fun tw => { w with tw := tw }) (.header e.path)).andThen fun w =>
  if e.type = .regular then
   match file with
   | none => settle ar.opts e fsPath [] w
   | some f =>
    let copied := Tar.write ar.sink f.content w.tw
    (copied.within (fun tw => { w with tw := tw }) (.copyWrite fsPath)).andThen fun w =>
     match f.reading with
     | some cause => stop w (.copyRead fsPath cause)
     | none => settle ar.opts e fsPath f.content w
  else done (w.record e 0)

def writeEntry (e : Entry) (fsPath : Str) (st : FileInfo) (file : Except OsError Descriptor)
  (w : TarWriter) : Effect TarWriter WalkError :=
 let grouped := groupLinks st e w.links
 let w := { w with links := grouped.2 }
 if grouped.1.type = .regular then
  match file with
  | .ok f => store ar grouped.1 fsPath (some f) w
  | .error cause =>
   if ar.opts.strict then handleWalkError ar.opts (.opening fsPath cause) w
   else store ar { grouped.1 with size := 0 } fsPath none (w.leaveEmpty (.opening fsPath cause))
 else store ar grouped.1 fsPath none w

def emitOne (arcPath fsPath : Str) (a : Answers) (st : FileInfo) (dirFile : Option Descriptor)
  (w : TarWriter) : Effect TarWriter WalkError :=
 match draft ar.opts arcPath fsPath a st dirFile with
 | .leftOut => done w.skip
 | .fault err => handleWalkError ar.opts err w
 | .entry e lost file => writeEntry ar e fsPath st file (w.lose lost)

def otherDevice (opts : Options) (devSeen : Option UInt64) (st : FileInfo) : Bool :=
 opts.oneFileSystem && devSeen.any fun dev => st.dev ≠ dev

def walkChildren (fsRoot : Str) (cancelled : FileName → Option Str)
  (visit : FileName → TarWriter → Effect TarWriter WalkError) :
  List FileName → TarWriter → Effect TarWriter WalkError
 | [], w => done w
 | name :: rest, w =>
  match cancelled name with
  | some cause => stop w (.cancelled fsRoot cause)
  | none => (visit name w).andThen (walkChildren fsRoot cancelled visit rest)

def walkEntry (fsRoot : Str) : Tree → Str → Str → TarWriter → Effect TarWriter WalkError
 | .missing _ cause, _, fsPath, w => handleWalkError ar.opts (.lstat fsPath cause) w
 | .node a names child, rel, fsPath, w =>
  match a.lstat with
  | .error cause => handleWalkError ar.opts (.lstat fsPath cause) w
  | .ok st =>
   if otherDevice ar.opts w.devSeen st then
    -- a mount point is archived without its content, anything else not at all
    if isDir st.mode then
     (emitOne ar rel fsPath a st (openVerified a st).toOption w).andThen fun w => done w.skip
    else done w.skip
   else if isDir st.mode then
    match list a names st with
    | .error cause =>
     if cause.permission then
      (emitOne ar rel fsPath a st none w).andThen fun w => done w.skip
     else handleWalkError ar.opts (.readdir fsPath cause) w
    | .ok (f, found) =>
     (emitOne ar rel fsPath a st (some f) w).andThen
      (walkChildren fsRoot (fun name => (child name).answers.cancelled)
       (fun name => walkEntry fsRoot (child name) (rel ++ slash :: name.text)
        (joinPath fsPath name.text)) found)
   else emitOne ar rel fsPath a st none w

def deviceAfter (opts : Options) (devSeen : Option UInt64) (st : FileInfo) : Option UInt64 :=
 if opts.oneFileSystem ∧ devSeen = none then some st.dev else devSeen

def archiveRoot (root : Str) : Tree → TarWriter → Effect TarWriter WalkError
 | .missing _ cause, w => stop w (.lstatRoot root cause)
 | .node a names child, w =>
  match a.lstat with
  | .error cause => stop w (.lstatRoot root cause)
  | .ok st =>
   let w := { w with devSeen := deviceAfter ar.opts w.devSeen st }
   if otherDevice ar.opts w.devSeen st then done w.skip
   else if isDir st.mode then
    match list a names st with
    | .error cause =>
     if ar.opts.strict then handleWalkError ar.opts (.readdirRoot root cause) w
     else
      (emitOne ar (base root) root a st none w).andThen
       (handleWalkError ar.opts (.readdir root cause))
    | .ok (f, found) =>
     (emitOne ar (base root) root a st (some f) w).andThen
      (walkChildren root (fun name => (child name).answers.cancelled)
       (fun name => walkEntry ar root (child name) (base root ++ slash :: name.text)
        (joinPath root name.text)) found)
   else emitOne ar (base root) root a st none w

def addRoot (root : Str) (tree : Tree) (w : TarWriter) : Effect TarWriter WalkError :=
 let root := clean root
 match w.rootBases.lookup (base root) with
 | some previous => stop w (.collision (base root) previous root)
 | none => archiveRoot ar root tree { w with rootBases := (base root, root) :: w.rootBases }

def addRoots (roots : List (Str × Tree)) (w : TarWriter) : Effect TarWriter WalkError :=
 runAll (fun root => addRoot ar root.1 root.2) roots w

def close (w : TarWriter) : Effect TarWriter WalkError :=
 (Tar.close ar.sink w.tw).within (fun tw => { w with tw := tw }) .trailer

end Writing

end BackImage.Archive.Writer
