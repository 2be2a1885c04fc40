/-! Integers of 64 bits. Results are computed exactly and then cut down to their low 64 bits, which are
read with a sign. -/
namespace Baby

def mask64 : Nat := (1 <<< 64) - 1

/-- The bits of an integer that a mask lets through. A negative integer has ones without end, so those of
its complement are the ones left out. -/
def masked (mask : Nat) : Int → Nat
  | .ofNat n => n &&& mask
  | .negSucc n => (n &&& mask) ^^^ mask

def wrap (n : Int) : Int :=
  let low := masked mask64 n
  if low >>> 63 = 0 then low else low - (1 <<< 64 : Nat)

def truncatedQuotient (a b : Int) : Int :=
  let quotient : Int := (a.natAbs / b.natAbs : Nat)
  if decide (a < 0) = decide (b < 0) then quotient else -quotient

end Baby
