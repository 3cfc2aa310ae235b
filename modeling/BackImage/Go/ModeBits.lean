/- source: none
  digest: Mode words, their twelve permission bits, and the way through a tar header and back. -/

import Mathlib.Algebra.Ring.Nat
import Mathlib.Logic.Basic

namespace BackImage.Go.ModeBits

abbrev FileMode := UInt32

def modeDir : FileMode := 0x80000000
def modeSymlink : FileMode := 0x08000000
def modeDevice : FileMode := 0x04000000
def modeNamedPipe : FileMode := 0x02000000
def modeSocket : FileMode := 0x01000000
def modeSetuid : FileMode := 0x00800000
def modeSetgid : FileMode := 0x00400000
def modeCharDevice : FileMode := 0x00200000
def modeSticky : FileMode := 0x00100000
def modeIrregular : FileMode := 0x00080000

def modeType : FileMode :=
 modeDir ||| modeSymlink ||| modeNamedPipe ||| modeSocket ||| modeDevice ||| modeCharDevice |||
  modeIrregular

def has (mode bits : FileMode) : Bool := decide (mode &&& bits ≠ 0)

def isDir (mode : FileMode) : Bool := has mode modeDir
def isRegular (mode : FileMode) : Bool := !has mode modeType
def perm (mode : FileMode) : FileMode := mode &&& 0o777

def flag (on : Bool) (bits : UInt32) : UInt32 := if on then bits else 0

def permissionBits (mode : FileMode) : UInt32 :=
 perm mode ||| flag (has mode modeSetuid) 0o4000 ||| flag (has mode modeSetgid) 0o2000 |||
  flag (has mode modeSticky) 0o1000

def permissions (mode : FileMode) : FileMode :=
 perm mode ||| flag (has mode modeSetuid) modeSetuid ||| flag (has mode modeSetgid) modeSetgid |||
  flag (has mode modeSticky) modeSticky

def headerMode (word : UInt32) : FileMode :=
 perm word ||| flag (has word 0o4000) modeSetuid ||| flag (has word 0o2000) modeSetgid |||
  flag (has word 0o1000) modeSticky

section Bits

variable {a b bits : UInt32} {on : Bool}

theorem or_and (a b bits : UInt32) : (a ||| b) &&& bits = a &&& bits ||| b &&& bits := by
 apply UInt32.toBitVec_inj.mp
 ext i
 simp [Bool.and_or_distrib_right]

theorem or_eq_zero : a ||| b = 0 ↔ a = 0 ∧ b = 0 := by
 constructor
 · intro none_set
   have words : a.toNat ||| b.toNat = 0 := by
    rw [← UInt32.toNat_or, none_set]
    rfl
   obtain ⟨first, second⟩ := Nat.or_eq_zero_iff.mp words
   exact ⟨UInt32.toNat_inj.mp first, UInt32.toNat_inj.mp second⟩
 · rintro ⟨rfl, rfl⟩
   rfl

@[simp] theorem has_or : has (a ||| b) bits = (has a bits || has b bits) := by
 have apart : (a ||| b) &&& bits ≠ 0 ↔ a &&& bits ≠ 0 ∨ b &&& bits ≠ 0 := by
  rw [or_and, ne_eq, or_eq_zero, not_and_or]
 rw [has, has, has, ← Bool.decide_or]
 exact decide_eq_decide.mpr apart

@[simp] theorem has_flag {own : UInt32} : has (flag on own) bits = (on && has own bits) := by
 cases on with
 | false => simp [flag, has]
 | true => simp [flag]

@[simp] theorem perm_or : perm (a ||| b) = perm a ||| perm b := or_and a b _

@[simp] theorem perm_flag : perm (flag on bits) = flag on (perm bits) := by
 cases on with
 | false => exact UInt32.zero_and
 | true => rfl

@[simp] theorem perm_perm (mode : FileMode) : perm (perm mode) = perm mode := by
 rw [perm, perm, UInt32.and_assoc]
 rfl

theorem flag_zero (on : Bool) : flag on 0 = 0 := by
 cases on with
 | false => rfl
 | true => rfl

theorem has_perm (outside : perm bits = 0) (mode : FileMode) : has (perm mode) bits = false := by
 have none_left : perm mode &&& bits = 0 := by
  rw [perm, UInt32.and_assoc, UInt32.and_comm 0o777 bits, show bits &&& 0o777 = 0 from outside,
   UInt32.and_zero]
 rw [has, none_left]
 rfl

end Bits

theorem permissionBits_word (mode : FileMode) (a b c : Bool) :
  permissionBits (perm mode ||| flag a modeSetuid ||| flag b modeSetgid ||| flag c modeSticky) =
   perm mode ||| flag a 0o4000 ||| flag b 0o2000 ||| flag c 0o1000 := by
 have apart : has modeSetuid modeSetgid = false ∧ has modeSetuid modeSticky = false ∧
   has modeSetgid modeSetuid = false ∧ has modeSetgid modeSticky = false ∧
   has modeSticky modeSetuid = false ∧ has modeSticky modeSetgid = false := by decide
 have own : has modeSetuid modeSetuid = true ∧ has modeSetgid modeSetgid = true ∧
   has modeSticky modeSticky = true := by decide
 have outside : perm modeSetuid = 0 ∧ perm modeSetgid = 0 ∧ perm modeSticky = 0 := by decide
 simp [permissionBits, apart, own, outside, flag_zero, has_perm]

theorem headerMode_word (mode : FileMode) (a b c : Bool) :
  headerMode (perm mode ||| flag a 0o4000 ||| flag b 0o2000 ||| flag c 0o1000) =
   perm mode ||| flag a modeSetuid ||| flag b modeSetgid ||| flag c modeSticky := by
 have apart : has 0o4000 0o2000 = false ∧ has 0o4000 0o1000 = false ∧ has 0o2000 0o4000 = false ∧
   has 0o2000 0o1000 = false ∧ has 0o1000 0o4000 = false ∧ has 0o1000 0o2000 = false := by decide
 have own : has 0o4000 0o4000 = true ∧ has 0o2000 0o2000 = true ∧ has 0o1000 0o1000 = true := by
  decide
 have outside : perm 0o4000 = 0 ∧ perm 0o2000 = 0 ∧ perm 0o1000 = 0 := by decide
 simp [headerMode, apart, own, outside, flag_zero, has_perm]

theorem permissionBits_permissions (mode : FileMode) :
  permissionBits (permissions mode) = permissionBits mode :=
 permissionBits_word mode _ _ _

theorem permissionBits_headerMode (mode : FileMode) :
  permissionBits (headerMode (permissionBits mode)) = permissionBits mode := by
 have back : headerMode (permissionBits mode) = permissions mode := headerMode_word mode _ _ _
 rw [back, permissionBits_permissions]

theorem flag_le (on : Bool) (bits : UInt32) : (flag on bits).toNat ≤ bits.toNat := by
 cases on with
 | false => exact Nat.zero_le _
 | true => exact Nat.le_refl _

theorem permissionBits_lt (mode : FileMode) : (permissionBits mode).toNat < 2 ^ 12 := by
 have small : (perm mode).toNat < 2 ^ 12 := by
  have within : (perm mode).toNat ≤ (0o777 : UInt32).toNat := by
   rw [perm, UInt32.toNat_and]
   exact Nat.and_le_right
  have width : (0o777 : UInt32).toNat = 511 := rfl
  omega
 have setuid : (flag (has mode modeSetuid) 0o4000).toNat < 2 ^ 12 :=
  Nat.lt_of_le_of_lt (flag_le _ _) (by decide)
 have setgid : (flag (has mode modeSetgid) 0o2000).toNat < 2 ^ 12 :=
  Nat.lt_of_le_of_lt (flag_le _ _) (by decide)
 have sticky : (flag (has mode modeSticky) 0o1000).toNat < 2 ^ 12 :=
  Nat.lt_of_le_of_lt (flag_le _ _) (by decide)
 rw [permissionBits, UInt32.toNat_or, UInt32.toNat_or, UInt32.toNat_or]
 exact Nat.or_lt_two_pow (Nat.or_lt_two_pow (Nat.or_lt_two_pow small setuid) setgid) sticky

end BackImage.Go.ModeBits
