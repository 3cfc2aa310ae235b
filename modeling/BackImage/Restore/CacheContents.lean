/- source: pkg/restore/source.go
  digest: Which files the layer cache holds when several sources share it. -/

import BackImage.Restore.LayerCache

namespace BackImage.Restore.CacheContents

open Go.Text Index.Model Lib.Recency Lib.Wrap LayerCache
open TempLayers (Temps)
open Go.Sha256 (sum256)

structure Call where
 source : Nat
 chunk : Int
 disk : Disk
 serve : Int → Except Str ByteStream

structure Shared where
 temps : Nat → Temps
 cache : Cache

def Shared.start : Shared := ⟨fun _ => .empty, []⟩

def step (r : Readers) (sources : List Source) (w : Shared) (call : Call) : Shared :=
 match sources[call.source]? with
 | none => w
 | some src =>
  let s := (blob r call.disk call.serve src call.chunk ⟨w.temps call.source, w.cache⟩).1
  ⟨Function.update w.temps call.source s.temps, s.cache⟩

def run (r : Readers) (sources : List Source) (calls : List Call) (w : Shared) : Shared :=
 calls.foldl (step r sources) w

/-- The content is that of a file of a layer tar whose bytes hash to the name. -/
def Genuine (r : Readers) (name : Str) (content : Bytes) : Prop :=
 ∃ raw codecName decoded, ∃ e : Entry, hexEncode (sum256 raw.bytes) = name ∧
  openLayerTar r raw codecName = .ok decoded ∧ e ∈ (r.untar decoded).entries ∧ e.fault = none ∧
   e.content = content

/-- The bytes served for the layer that the call reads hash to the digest of the layer. -/
def Honest (sources : List Source) (call : Call) : Prop :=
 ∀ src ∈ sources[call.source]?, ∀ layer ∈ layerOf src.manifest call.chunk, ∀ id raw,
  src.locate layer.index = .ok id → call.serve layer.index = .ok raw →
   hexEncode (sum256 raw.bytes) = id.digest.hex

def AllGenuine (r : Readers) (cache : Cache) : Prop := ∀ f ∈ cache, Genuine r f.1 f.2.content

section Steps

variable {r : Readers} {src : Source} {dataLayer : Int} {extracted : Except BlobError Bytes}

theorem allGenuine_change {s t : State} (change : Change src dataLayer extracted s t)
  (sound : ∀ id content, src.locate dataLayer = .ok id → extracted = .ok content →
   Genuine r id.digest.hex content) (all : AllGenuine r s.cache) : AllGenuine r t.cache := by
 intro f member
 rcases change.mem_cache member with ⟨old, held, same⟩ | ⟨id, located, named, new⟩
 · rw [← same]
   exact all (f.1, old) held
 · rw [← named]
   exact sound id f.2.content located new

theorem genuine_of_extract {served : Except Str ByteStream} {wanted codecName name : Str}
  {expected : Int64} {content : Bytes}
  (honest : ∀ raw, served = .ok raw → hexEncode (sum256 raw.bytes) = name)
  (new : extract r served dataLayer wanted codecName expected = .ok content) :
  Genuine r name content := by
 obtain ⟨raw, decoded, e, opened, decodes, first, -, -, clean, same⟩ := extract_ok_iff.mp new
 exact ⟨raw, codecName, decoded, e, honest raw opened, decodes, List.mem_of_find?_eq_some first,
  clean, same⟩

theorem allGenuine_step {sources : List Source} {call : Call} {w : Shared}
  (honest : Honest sources call) (all : AllGenuine r w.cache) :
  AllGenuine r (step r sources w call).cache := by
 unfold step
 split
 · exact all
 · rename_i src found
   have kept := @blob_keeps r call.disk call.serve src call.chunk
    ⟨w.temps call.source, w.cache⟩ (fun s => AllGenuine r s.cache) all
   apply kept
   intro c layer s t row assigned all change
   apply allGenuine_change change _ all
   intro id content located new
   exact genuine_of_extract (fun raw => honest src found layer assigned id raw located) new

end Steps

/-- Calls that are served honest bytes leave nothing foreign in the cache, however many sources
take turns and whatever else fails. -/
theorem honest_calls_cache_genuine (r : Readers) (sources : List Source) (calls : List Call)
  (honest : ∀ call ∈ calls, Honest sources call) :
  ∀ f ∈ (run r sources calls Shared.start).cache, Genuine r f.1 f.2.content := by
 have general : ∀ w, AllGenuine r w.cache → AllGenuine r (run r sources calls w).cache := by
  induction calls with
  | nil => exact fun w all => all
  | cons call rest ih =>
   intro w all
   apply ih fun later member => honest later (List.mem_cons_of_mem call member)
   exact allGenuine_step (honest call List.mem_cons_self) all
 apply general
 intro f member
 cases member

def soleEntry (name : Str) (s : ByteStream) (small : (s.bytes.length : Int) < bound) : Entry where
 toHeader := { (default : Go.Tar.Header) with name := name, size := size s.bytes }
 content := s.bytes
 fault := none
 short := (size_toInt small).ge
 whole _ := (size_toInt small).symm

def soleTar (name : Str) (s : ByteStream) : Tar :=
 if small : (s.bytes.length : Int) <
  bound then ⟨[soleEntry name s small], s.fault⟩ else ⟨[], s.fault⟩

theorem mem_soleTar {name : Str} {s : ByteStream} {e : Entry}
  (member : e ∈ (soleTar name s).entries) :
  e.content = s.bytes ∧ e.fault = none := by
 unfold soleTar at member
 split at member
 · rw [List.mem_singleton.mp member]
   exact ⟨rfl, rfl⟩
 · cases member

def bare : Readers where
 newReader _ s := .ok s
 untar := soleTar (lit "a")
 clean _ _ _ member _ := (mem_soleTar member).2

theorem openLayerTar_bare {raw decoded : ByteStream} {codecName : Str}
  (opened : openLayerTar bare raw codecName = .ok decoded) : decoded = raw := by
 unfold openLayerTar at opened
 split at opened
 · cases opened
 · simp [bare, unwrap, Except.mapError, bind, Except.bind] at opened
   exact opened.symm

def oneByte : Source where
 layers := .ok ([[], [], [1]].map fun bytes =>
  ⟨.ok ⟨lit "sha256", hexEncode (sum256 bytes)⟩, .error []⟩)
 daemon := false
 cacheSize := 1024
 manifest :=
  { (default : Manifest) with
    archive := { (default : ArchiveInfo) with compression := lit "store" }
    chunking := { (default : ChunkingInfo) with count := 1 }
    layers := [⟨0, lit "sha256:", 0, 0, 1⟩] }
 table := ⟨1, [⟨0, lit "a", [], [], 1, 1⟩]⟩

theorem locate_oneByte {dataLayer : Int} {id : LayerBytes}
  (located : oneByte.locate dataLayer = .ok id) : id.digest.hex = hexEncode (sum256 [1]) := by
 obtain ⟨layers, l, held, found, known⟩ := Source.locate_ok.mp located
 cases held
 obtain ⟨low, found⟩ := imageLayer_eq_some.mp found
 have high := (List.getElem?_eq_some_iff.mp found).1
 simp only [List.length_map, List.length_cons, List.length_nil] at high
 have first : dataLayer = 0 := by omega
 subst first
 cases found
 cases known
 rfl

def readWhile (served : ByteStream) : Call := ⟨0, 0, Disk.sound 0, fun _ => .ok served⟩

def foreign : ByteStream := ⟨[2], some (lit "error verifying sha256 checksum")⟩

theorem honest_byte_cached : (run bare [oneByte] [readWhile ⟨[1], none⟩] Shared.start).cache =
    [(hexEncode (sum256 [1]), ⟨[1], 0⟩)] ∧
   Genuine bare (hexEncode (sum256 [1])) [1] := by
 have held : (run bare [oneByte] [readWhile ⟨[1], none⟩] Shared.start).cache =
   [(hexEncode (sum256 [1]), ⟨[1], 0⟩)] := by
  decide +kernel
 have honest : ∀ call ∈ [readWhile ⟨[1], none⟩], Honest [oneByte] call := by
  intro call only src found layer _ id raw located served
  cases List.mem_singleton.mp only
  cases Option.mem_some.mp found
  cases served
  rw [locate_oneByte located]
 refine ⟨held, ?_⟩
 have all := honest_calls_cache_genuine bare [oneByte] [readWhile ⟨[1], none⟩] honest
 rw [held] at all
 exact all _ List.mem_cons_self

/-- The layer is read only as far as the wanted file goes, so that a registry that serves another
byte for the layer gets it cached under the layer's digest. -/
theorem foreign_byte_cached : (hexEncode (sum256 [1]), ⟨[2], 0⟩) ∈
    (run bare [oneByte] [readWhile foreign] Shared.start).cache ∧
   ¬ Genuine bare (hexEncode (sum256 [1])) [2] := by
 refine ⟨by decide +kernel, ?_⟩
 rintro ⟨raw, codecName, decoded, e, named, opened, member, -, content⟩
 -- a file of such a layer is the whole layer, so the layer would be the byte served
 rw [openLayerTar_bare opened] at member
 change e ∈ (soleTar (lit "a") raw).entries at member
 rw [← (mem_soleTar member).1, content] at named
 exact absurd named (by decide +kernel)

end BackImage.Restore.CacheContents
