import Mathlib.Logic.Function.Basic

/-!
# The priority bit map

`_Priority_Major_bit_map` has a bit for each of the sixteen words of `_Priority_Bit_map`, and each of
these has a bit for one priority. Bit 0 is the most significant one.
-/

namespace Rtems

/-- `Priority_Control`; 0 is the highest priority. -/
abbrev Priority := Fin 256

namespace Priority

/-- `__log2table`, by its runs of equal entries. -/
def log2table (i : Nat) : Nat :=
  if i < 2 then 7
  else if i < 4 then 6
  else if i < 8 then 5
  else if i < 16 then 4
  else if i < 32 then 3
  else if i < 64 then 2
  else if i < 128 then 1
  else 0

def findFirstBit (value : BitVec 16) : Nat :=
  if value.toNat < 0x100 then log2table value.toNat + 8 else log2table (value.toNat >>> 8)

def major (p : Priority) : Fin 16 := ⟨p / 16, by omega⟩

def minor (p : Priority) : Fin 16 := ⟨p % 16, by omega⟩

def mask (n : Fin 16) : BitVec 16 := 0x8000#16 >>> n.val

/-- `minor` is the index of the word that it points to. -/
structure Information where
  minor : Fin 16
  readyMajor : BitVec 16
  readyMinor : BitVec 16
  blockMajor : BitVec 16
  blockMinor : BitVec 16
  deriving DecidableEq, Repr

def initializeInformation (p : Priority) : Information where
  minor := major p
  readyMajor := mask (major p)
  blockMajor := ~~~mask (major p)
  readyMinor := mask (minor p)
  blockMinor := ~~~mask (minor p)

structure BitMap where
  major : BitVec 16
  minor : Fin 16 → BitVec 16

namespace BitMap

/-- `_Priority_Handler_initialization`. -/
def empty : BitMap := ⟨0, fun _ => 0⟩

/-- `_Priority_Add_to_bit_map`. -/
def add (B : BitMap) (i : Information) : BitMap where
  minor := Function.update B.minor i.minor (B.minor i.minor ||| i.readyMinor)
  major := B.major ||| i.readyMajor

/-- `_Priority_Remove_from_bit_map`. -/
def remove (B : BitMap) (i : Information) : BitMap :=
  let word := B.minor i.minor &&& i.blockMinor
  { minor := Function.update B.minor i.minor word
    major := if word = 0 then B.major &&& i.blockMajor else B.major }

def getHighest (B : BitMap) : Nat :=
  let major := findFirstBit B.major
  let minor := findFirstBit (B.minor (Fin.ofNat 16 major))
  (major <<< 4) + minor

end BitMap

end Priority

end Rtems
