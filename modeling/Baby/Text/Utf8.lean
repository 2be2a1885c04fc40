/-! UTF-8: the octets of a text, and reading octets as a text with a report of the first fault. -/
namespace Baby.Text.Utf8

def encode (cs : List Char) : List UInt8 := cs.flatMap String.utf8EncodeChar

inductive Reason where
  | invalidStart | invalidContinuation | unexpectedEnd
  deriving DecidableEq, Repr

/-- The octets from `first` to `last` are the longest start of a well-formed sequence there is. -/
structure Fault where
  first : Nat
  last : Nat
  lead : UInt8
  reason : Reason
  deriving DecidableEq, Repr

structure Lead where
  bits : Nat
  follow : Nat
  low : UInt8
  high : UInt8
  deriving DecidableEq, Repr

def lead? (b : UInt8) : Option Lead :=
  let n := b.toNat
  if n < 0x80 then some ⟨n, 0, 0x80, 0xBF⟩
  else if n < 0xC2 then none
  else if n < 0xE0 then some ⟨n - 0xC0, 1, 0x80, 0xBF⟩
  else if n < 0xF0 then
    some ⟨n - 0xE0, 2, if b = 0xE0 then 0xA0 else 0x80, if b = 0xED then 0x9F else 0xBF⟩
  else if n < 0xF5 then
    some ⟨n - 0xF0, 3, if b = 0xF0 then 0x90 else 0x80, if b = 0xF4 then 0x8F else 0xBF⟩
  else none

def continue? : Nat → UInt8 → UInt8 → Nat → Nat → List UInt8 → Except (Nat × Reason) (Nat × List UInt8)
  | 0, _, _, code, _, rest => .ok (code, rest)
  | _ + 1, _, _, _, good, [] => .error (good, .unexpectedEnd)
  | n + 1, low, high, code, good, b :: rest =>
      if low ≤ b && b ≤ high then
        continue? n 0x80 0xBF (64 * code + (b.toNat - 0x80)) (good + 1) rest
      else .error (good, .invalidContinuation)

def decodeFrom : Nat → Nat → List UInt8 → Except Fault (List Char)
  | _, _, [] => .ok []
  | 0, _, _ :: _ => .ok []
  | n + 1, at_, b :: raw =>
      match lead? b with
      | none => .error ⟨at_, at_, b, .invalidStart⟩
      | some l =>
        match continue? l.follow l.low l.high l.bits 0 raw with
        | .error (good, reason) => .error ⟨at_, at_ + good, b, reason⟩
        | .ok (code, rest) => do
            let cs ← decodeFrom n (at_ + 1 + l.follow) rest
            .ok (Char.ofNat code :: cs)

/-- Every character takes at least one octet, so the number of octets bounds the recursion. -/
def decode (raw : List UInt8) : Except Fault (List Char) := decodeFrom raw.length 0 raw

end Baby.Text.Utf8

namespace Baby.Text

def unixLines : List Char → List Char
  | '\r' :: '\n' :: cs => '\n' :: unixLines cs
  | '\r' :: cs => '\n' :: unixLines cs
  | c :: cs => c :: unixLines cs
  | [] => []

end Baby.Text
