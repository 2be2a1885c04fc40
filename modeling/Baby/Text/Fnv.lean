import Baby.Text.Utf8

/-! The 64-bit FNV-1a digest. -/
namespace Baby.Text.Fnv

def basis : UInt64 := 0xCBF29CE484222325

def prime : UInt64 := 0x100000001B3

def absorb (digest : UInt64) (octet : UInt8) : UInt64 := (digest ^^^ octet.toUInt64) * prime

def digest (s : String) : UInt64 := (Utf8.encode s.toList).foldl absorb basis

end Baby.Text.Fnv
