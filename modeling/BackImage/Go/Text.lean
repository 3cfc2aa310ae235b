/- source: none
  digest: Go strings are byte sequences, and hexadecimal text determines its bytes. -/

import Mathlib.Algebra.Ring.Nat
import Mathlib.Data.List.Infix
import Mathlib.Logic.Function.Basic

namespace BackImage.Go.Text

abbrev Bytes := List UInt8

abbrev Str := List UInt8

instance : LawfulBEq Str := List.instLawfulBEq

def lit (s : String) : Str := s.toUTF8.data.toList

def hasPrefix (s p : Str) : Bool := p.isPrefixOf s

def hasSuffix (s p : Str) : Bool := p.isSuffixOf s

def trimPrefix (s p : Str) : Str := if hasPrefix s p then s.drop p.length else s

def trimSuffix (s p : Str) : Str :=
 if hasSuffix s p then s.take (s.length - p.length) else s

def contains (s sub : Str) : Bool := s.tails.any fun rest => hasPrefix rest sub

def split (sep : UInt8) : Str → List Str
 | [] => [[]]
 | c :: rest =>
  if c = sep then [] :: split sep rest
  else
   match split sep rest with
   | [] => [[c]]
   | first :: others => (c :: first) :: others

/-- `strings.Join`. -/
def joinWith (sep : Str) : List Str → Str
 | [] => []
 | [s] => s
 | s :: rest => s ++ (sep ++ joinWith sep rest)

def join (sep : UInt8) : List Str → Str := joinWith [sep]

def slash : UInt8 := 47

theorem trimPrefix_append (p s : Str) : trimPrefix (p ++ s) p = s := by
 have pre : hasPrefix (p ++ s) p = true := by
  simp [hasPrefix, List.isPrefixOf_iff_prefix]
 simp [trimPrefix, pre]

def hexDigit (n : UInt8) : UInt8 := if n < 10 then 48 + n else 87 + n

/-- `hex.EncodeToString`. -/
def hexEncode (bs : Bytes) : Str :=
 bs.flatMap fun (b : UInt8) => [hexDigit (b >>> 4), hexDigit (b &&& 15)]

private def hexValue (c : UInt8) : UInt8 := if c < 87 then c - 48 else c - 87

private theorem hexValue_pair (b : UInt8) :
  hexValue (hexDigit (b >>> 4)) * 16 + hexValue (hexDigit (b &&& 15)) = b := by
 have all : ∀ n : Fin 256, hexValue (hexDigit (UInt8.ofNat n >>> 4)) * 16 +
   hexValue (hexDigit (UInt8.ofNat n &&& 15)) = UInt8.ofNat n := by
  decide +kernel
 have this := all ⟨b.toNat, b.toNat_lt⟩
 rwa [show UInt8.ofNat b.toNat = b from UInt8.ofNat_toNat] at this

theorem hexEncode_injective : Function.Injective hexEncode := by
 intro xs
 induction xs with
 | nil =>
  intro ys equal
  cases ys with
  | nil => rfl
  | cons y ys => simp [hexEncode] at equal
 | cons x xs ih =>
  intro ys equal
  cases ys with
  | nil => simp [hexEncode] at equal
  | cons y ys =>
   simp only [hexEncode, List.flatMap_cons, List.cons_append, List.nil_append,
    List.cons.injEq] at equal
   obtain ⟨high, low, rest⟩ := equal
   have head : x = y := by
    rw [← hexValue_pair x, ← hexValue_pair y, high, low]
   rw [head, ih rest]

def decimal (n : Nat) : Str := (Nat.toDigits 10 n).map fun c => UInt8.ofNat c.toNat

/-- A signed number, as `%d` prints it. -/
def decimalInt (n : Int) : Str :=
 if n < 0 then lit "-" ++ decimal n.natAbs else decimal n.natAbs

def decimal6 (n : Nat) : Str :=
 List.replicate (6 - (decimal n).length) 48 ++ decimal n

/-- `strconv.FormatUint(n, 8)`. -/
def octal (n : Nat) : Str := (Nat.toDigits 8 n).map fun c => UInt8.ofNat c.toNat

theorem mem_octal {n : Nat} {c : UInt8} (inside : c ∈ octal n) : 48 ≤ c ∧ c ≤ 55 := by
 have digit : ∀ d : Fin 8, 48 ≤ UInt8.ofNat (Nat.digitChar d).toNat ∧
   UInt8.ofNat (Nat.digitChar d).toNat ≤ 55 := by decide
 induction n using Nat.strongRecOn with
 | ind n ih =>
  by_cases small : n < 8
  · rw [octal, Nat.toDigits_of_lt_base small] at inside
    rw [List.mem_singleton.mp inside]
    exact digit ⟨n, small⟩
  · have large : 8 ≤ n := by omega
    rw [octal, Nat.toDigits_of_base_le (by decide) large, List.map_append,
     List.mem_append] at inside
    rcases inside with front | last
    · exact ih (n / 8) (by omega) front
    · rw [List.mem_singleton.mp last]
      exact digit ⟨n % 8, Nat.mod_lt n (by decide)⟩

theorem length_octal_le {n k : Nat} (some_place : 0 < k) : (octal n).length ≤ k ↔ n < 8 ^ k := by
 rw [octal, List.length_map]
 exact Nat.length_toDigits_le_iff (by decide) some_place

end BackImage.Go.Text
