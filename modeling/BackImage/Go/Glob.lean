/- source: none
  digest: path.Match byte by byte, and what it does with a pattern without wildcards. -/

import BackImage.Go.Text

namespace BackImage.Go.Glob

open Text

def star : UInt8 := 42
def question : UInt8 := 63
def bracket : UInt8 := 91
def backslash : UInt8 := 92
def closing : UInt8 := 93
def caret : UInt8 := 94
def hyphen : UInt8 := 45

def runeError : Nat := 0xFFFD

def continued (sofar : Nat) (lo hi c : UInt8) : Option Nat :=
 if c < lo ∨ hi < c then none else some (sofar * 64 + (c &&& 0x3F).toNat)

def secondLow (b0 : UInt8) : UInt8 := if b0 = 0xE0 then 0xA0 else if b0 = 0xF0 then 0x90 else 0x80

def secondHigh (b0 : UInt8) : UInt8 := if b0 = 0xED then 0x9F else if b0 = 0xF4 then 0x8F else 0xBF

def decodeLong (b0 : UInt8) (rest : Str) : Option (Nat × Nat) :=
 match rest with
 | [] => none
 | b1 :: rest =>
  if b0 < 0xE0 then (continued (b0 &&& 0x1F).toNat (secondLow b0) (secondHigh b0) b1).map (·, 2)
  else
   match rest with
   | [] => none
   | b2 :: rest =>
    if b0 < 0xF0 then
     (continued (b0 &&& 0x0F).toNat (secondLow b0) (secondHigh b0) b1).bind fun r =>
      (continued r 0x80 0xBF b2).map (·, 3)
    else
     match rest with
     | [] => none
     | b3 :: _ =>
      (continued (b0 &&& 0x07).toNat (secondLow b0) (secondHigh b0) b1).bind fun r =>
       (continued r 0x80 0xBF b2).bind fun r => (continued r 0x80 0xBF b3).map (·, 4)

def decodeRune : Str → Nat × Nat
 | [] => (runeError, 0)
 | b0 :: rest =>
  if b0 < 0x80 then (b0.toNat, 1)
  else if b0 < 0xC2 ∨ 0xF4 < b0 then (runeError, 1)
  else (decodeLong b0 rest).getD (runeError, 1)

def getEsc : Str → Option (Nat × Str)
 | [] => none
 | c :: rest =>
  if c = hyphen ∨ c = closing then none
  else
   let chunk := if c = backslash then rest else c :: rest
   let (r, n) := decodeRune chunk
   if chunk = [] ∨ (r = runeError ∧ n = 1) ∨ chunk.drop n = [] then none
   else some (r, chunk.drop n)

def classFuel (r : Nat) : Nat → Str → Nat → Bool → Option (Bool × Str)
 | 0, _, _, _ => none
 | fuel + 1, chunk, nrange, matched =>
  if chunk.head? = some closing ∧ 0 < nrange then some (matched, chunk.tail)
  else
   match getEsc chunk with
   | none => none
   | some (lo, chunk) =>
    if chunk.head? = some hyphen then
     match getEsc chunk.tail with
     | none => none
     | some (hi, chunk) =>
      classFuel r fuel chunk (nrange + 1) (matched || (lo ≤ r && r ≤ hi))
    else classFuel r fuel chunk (nrange + 1) (matched || r = lo)

def literal (c : UInt8) (s : Option Str) : Option Str :=
 s.bind fun s => if s.head? = some c then some s.tail else none

/-- `matchChunk`. The outer option is the error for a bad pattern; the inner one is what is left of
the name, nothing once the match has failed and the chunk is only parsed. -/
def matchChunkFuel : Nat → Str → Option Str → Option (Option Str)
 | _, [], s => some s
 | 0, _, _ => some none
 | fuel + 1, c :: chunk, s =>
  let s := s.filter (· ≠ [])
  if c = bracket then
   let r := s.elim 0 fun s => (decodeRune s).1
   let negated := chunk.head? = some caret
   let chunk := if negated then chunk.tail else chunk
   match classFuel r (chunk.length + 1) chunk 0 false with
   | none => none
   | some (matched, chunk) =>
    matchChunkFuel fuel chunk
     (if matched = negated then none else s.map fun s => s.drop (decodeRune s).2)
  else if c = question then
   matchChunkFuel fuel chunk
    (s.bind fun s => if s.head? = some slash then none else some (s.drop (decodeRune s).2))
  else if c = backslash then
   match chunk with
   | [] => none
   | c :: chunk => matchChunkFuel fuel chunk (literal c s)
  else matchChunkFuel fuel chunk (literal c s)

def matchChunk (chunk s : Str) : Option (Option Str) := matchChunkFuel chunk.length chunk (some s)

def scanBody : Bool → Str → Str × Str
 | _, [] => ([], [])
 | inrange, c :: rest =>
  if c = backslash then
   match rest with
   | [] => ([c], [])
   | d :: rest =>
    let (chunk, left) := scanBody inrange rest
    (c :: d :: chunk, left)
  else if c = star ∧ inrange = false then ([], c :: rest)
  else
   let (chunk, left) :=
    scanBody (if c = bracket then true else if c = closing then false else inrange) rest
   (c :: chunk, left)

def scanChunk (pattern : Str) : Bool × Str × Str :=
 (pattern.head? = some star, scanBody false (pattern.dropWhile (· = star)))

def skipMatch (chunk rest : Str) : Str → Option (Option Str)
 | [] => some none
 | c :: name =>
  if c = slash then some none
  else
   match matchChunk chunk name with
   | none => none
   | some none => skipMatch chunk rest name
   | some (some t) =>
    if rest = [] ∧ t ≠ [] then skipMatch chunk rest name else some (some t)

def checkRest : Nat → Str → Option Bool
 | 0, _ => some false
 | fuel + 1, pattern =>
  if pattern = [] then some false
  else
   let (_, chunk, rest) := scanChunk pattern
   match matchChunk chunk [] with
   | none => none
   | some _ => checkRest fuel rest

def matchFuel : Nat → Str → Str → Option Bool
 | 0, _, name => some (name = [])
 | fuel + 1, pattern, name =>
  if pattern = [] then some (name = [])
  else
   let (starred, chunk, rest) := scanChunk pattern
   if starred ∧ chunk = [] then some (slash ∉ name)
   else
    match matchChunk chunk name with
    | none => none
    | some here =>
     let continue_ : Option (Option Str) :=
      match here with
      | some t =>
       if t = [] ∨ rest ≠ [] then some (some t)
       else if starred then skipMatch chunk rest name else some none
      | none => if starred then skipMatch chunk rest name else some none
     match continue_ with
     | none => none
     | some (some t) => matchFuel fuel rest t
     | some none => checkRest rest.length rest

def matchPath (pattern name : Str) : Option Bool := matchFuel pattern.length pattern name

example : matchPath (lit "*.[^a-c]?") (lit "x.de") = some true := by decide +kernel

theorem decodeLong_pos {b0 : UInt8} {rest : Str} {x : Nat × Nat}
  (decoded : decodeLong b0 rest = some x) : 0 < x.2 := by
 unfold decodeLong at decoded
 split at decoded
 · cases decoded
 · split at decoded
   · obtain ⟨r, -, rfl⟩ := Option.map_eq_some_iff.mp decoded
     exact Nat.two_pos
   · split at decoded
     · cases decoded
     · split at decoded
       · obtain ⟨r, -, decoded⟩ := Option.bind_eq_some_iff.mp decoded
         obtain ⟨r', -, rfl⟩ := Option.map_eq_some_iff.mp decoded
         exact Nat.succ_pos 2
       · split at decoded
         · cases decoded
         · obtain ⟨r, -, decoded⟩ := Option.bind_eq_some_iff.mp decoded
           obtain ⟨r', -, decoded⟩ := Option.bind_eq_some_iff.mp decoded
           obtain ⟨r'', -, rfl⟩ := Option.map_eq_some_iff.mp decoded
           exact Nat.succ_pos 3

theorem decodeRune_pos {s : Str} (filled : s ≠ []) : 0 < (decodeRune s).2 := by
 cases s with
 | nil => exact absurd rfl filled
 | cons b rest =>
  rw [decodeRune]
  split
  · exact Nat.one_pos
  · split
    · exact Nat.one_pos
    · cases decoded : decodeLong b rest with
      | none => exact Nat.one_pos
      | some x => exact decodeLong_pos decoded

def plain (pattern : Str) : Bool :=
 pattern.all fun c => c ≠ star && c ≠ question && c ≠ bracket && c ≠ backslash

section Plain

variable {pattern : Str}

theorem plain_cons {c : UInt8} (p : plain (c :: pattern) = true) :
  c ≠ star ∧ c ≠ question ∧ c ≠ bracket ∧ c ≠ backslash ∧ plain pattern = true := by
 simpa [plain, and_assoc] using p

section

variable (p : plain pattern = true)

include p

theorem scanBody_plain (inrange : Bool) : scanBody inrange pattern = (pattern, []) := by
 induction pattern generalizing inrange with
 | nil => rfl
 | cons c rest ih =>
  obtain ⟨noStar, -, -, noEscape, later⟩ := plain_cons p
  unfold scanBody
  rw [if_neg noEscape, if_neg (fun both => noStar both.1), ih later]

theorem scanChunk_plain : scanChunk pattern = (false, pattern, []) := by
 unfold scanChunk
 cases pattern with
 | nil => rfl
 | cons c rest =>
  obtain ⟨noStar, -⟩ := plain_cons p
  have kept : (c :: rest).dropWhile (· = star) = c :: rest := by simp [noStar]
  rw [kept, scanBody_plain p]
  simp [noStar]

theorem matchChunkFuel_failed {fuel : Nat} : matchChunkFuel fuel pattern none = some none := by
 induction pattern generalizing fuel with
 | nil => cases fuel <;> rfl
 | cons c rest ih =>
  obtain ⟨-, noQuestion, noBracket, noEscape, later⟩ := plain_cons p
  cases fuel with
  | zero => rfl
  | succ fuel =>
   unfold matchChunkFuel
   simp only [noBracket, noQuestion, noEscape, if_false]
   exact ih later

theorem matchChunk_plain (s : Str) : matchChunk pattern s =
   some (if pattern.isPrefixOf s then some (s.drop pattern.length) else none) := by
 unfold matchChunk
 induction pattern generalizing s with
 | nil => rfl
 | cons c rest ih =>
  obtain ⟨-, noQuestion, noBracket, noEscape, later⟩ := plain_cons p
  rw [List.length_cons]
  unfold matchChunkFuel
  simp only [noBracket, noQuestion, noEscape, if_false]
  cases s with
  | nil => exact matchChunkFuel_failed later
  | cons d s =>
   by_cases same : d = c
   · subst same
     have taken : literal d ((some (d :: s)).filter (· ≠ [])) = some s := by
      simp [literal, Option.filter]
     rw [taken]
     simpa [List.isPrefixOf] using ih later s
   · have failed : literal c ((some (d :: s)).filter (· ≠ [])) = none := by
      simp [literal, same]
     have differs : (c == d) = false := by simpa using Ne.symm same
     rw [failed, matchChunkFuel_failed later]
     simp [List.isPrefixOf, differs]

theorem matchPath_plain (name : Str) : matchPath pattern name = some (decide (pattern = name)) := by
 cases pattern with
 | nil =>
  unfold matchPath matchFuel
  simp [eq_comm]
 | cons c rest =>
  have filled : c :: rest ≠ [] := List.cons_ne_nil c rest
  rw [matchPath, List.length_cons, matchFuel, if_neg filled, scanChunk_plain p]
  dsimp only
  rw [if_neg (by simp), matchChunk_plain p]
  by_cases front : (c :: rest).isPrefixOf name = true
  · obtain ⟨t, rfl⟩ := List.isPrefixOf_iff_prefix.mp front
    have left : (c :: rest ++ t).drop (c :: rest).length = t := List.drop_left
    simp only [front, if_true, left]
    by_cases exhausted : t = []
    · subst exhausted
      cases rest.length <;> simp [matchFuel]
    · simp [exhausted, checkRest]
  · have differs : c :: rest ≠ name := by
     rintro rfl
     exact front (by simp)
    simp [front, differs, checkRest]

end

end Plain

end BackImage.Go.Glob
