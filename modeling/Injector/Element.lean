/-
# Injector.Element -- identities of declarations

Classes and members are known by small numbers that the program gives out in
order of declaration.  An element is what a diagnostic or a trace points at: a
class, one constructor of a class, or a member.
-/
namespace Injector

set_option autoImplicit false

/-- A class of the program. -/
structure ClassId where
  index : UInt32
  deriving DecidableEq, Inhabited, Repr

/-- A method, a property or a top-level function of the program. -/
structure MemberId where
  index : UInt32
  deriving DecidableEq, Inhabited, Repr

/-- The largest number an identity can have. -/
def lastIdentity : Nat := 4294967295

/-- The identity of the declaration at position `n`. -/
def ClassId.ofNat (n : Nat) : ClassId := ⟨UInt32.ofNat (min n lastIdentity)⟩

def ClassId.toNat (id : ClassId) : Nat := id.index.toNat

/-- The identity of the declaration at position `n`. -/
def MemberId.ofNat (n : Nat) : MemberId := ⟨UInt32.ofNat (min n lastIdentity)⟩

def MemberId.toNat (id : MemberId) : Nat := id.index.toNat

/-- A declaration of the program. -/
inductive Element where
  | cls (id : ClassId)
  /-- The constructor of `owner` at position `index`. -/
  | ctor (owner : ClassId) (index : UInt64)
  | member (id : MemberId)
  deriving DecidableEq, Inhabited, Repr

theorem ClassId.toNat_ofNat {n : Nat} (h : n ≤ lastIdentity) : (ClassId.ofNat n).toNat = n := by
  have : n < UInt32.size := Nat.lt_of_le_of_lt h (by decide)
  simp only [ClassId.ofNat, ClassId.toNat, Nat.min_eq_left h]
  exact UInt32.toNat_ofNat_of_lt this

theorem MemberId.toNat_ofNat {n : Nat} (h : n ≤ lastIdentity) :
    (MemberId.ofNat n).toNat = n := by
  have : n < UInt32.size := Nat.lt_of_le_of_lt h (by decide)
  simp only [MemberId.ofNat, MemberId.toNat, Nat.min_eq_left h]
  exact UInt32.toNat_ofNat_of_lt this

end Injector
