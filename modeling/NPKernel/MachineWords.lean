import Mathlib

/-!
# Machine words and the limits of the C integer types
-/

namespace NPKernel

abbrev Word := BitVec 64

/-- Tables have 64, 128, 256 or 512 entries. -/
instance neZero64 : NeZero 64 := ⟨by decide⟩

instance neZero128 : NeZero 128 := ⟨by decide⟩

instance neZero256 : NeZero 256 := ⟨by decide⟩

instance neZero512 : NeZero 512 := ⟨by decide⟩

def UINT32_MAX : ℕ := 0xffffffff

def UINT64_MAX : ℕ := 2 ^ 64 - 1

def INT64_MAX : ℤ := 2 ^ 63 - 1

def INT64_MIN : ℤ := -2 ^ 63

def hasBit (flags mask : Word) : Bool := flags &&& mask != 0

end NPKernel
