/-!
# Decoding UTF-8

Bytes are decoded to characters one sequence at a time. The first byte of a sequence fixes how many
follow it and, for some, a narrower range for the second byte, which is how overlong forms,
surrogates and code points beyond the last are excluded. The first fault ends the decoding: a byte
that begins no sequence, a byte that does not go on with one, or an end that comes too early. A
fault covers the bytes that had been taken for one sequence.

## Main definitions

* `Utf8.decode`, `Utf8.Fault`.
-/

namespace ThemeSheet.Utf8

/-- Why bytes are no UTF-8. -/
inductive Reason where
  | invalidStart
  | invalidContinuation
  | unexpectedEnd
deriving DecidableEq, Repr

namespace Reason

/-- The wording of a reason. -/
def wording : Reason → String
  | .invalidStart => "invalid start byte"
  | .invalidContinuation => "invalid continuation byte"
  | .unexpectedEnd => "unexpected end of data"

end Reason

/-- A fault: where it starts, how many bytes it covers, the first of them, and the reason. -/
structure Fault where
  start : Nat
  size : Nat
  byte : UInt8
  reason : Reason
deriving DecidableEq, Repr

/-- A byte as two hexadecimal digits. -/
def byteText (b : UInt8) : String :=
  String.ofList [Nat.digitChar (b.toNat / 16), Nat.digitChar (b.toNat % 16)]

/-- The wording of a fault. -/
def Fault.message (fault : Fault) : String :=
  let place := if fault.size = 1 then
      "byte 0x" ++ byteText fault.byte ++ " in position " ++ toString fault.start
    else "bytes in position " ++ toString fault.start ++ "-" ++
      toString (fault.start + fault.size - 1)
  "'utf-8' codec can't decode " ++ place ++ ": " ++ fault.reason.wording

/-- What a first byte announces: how many bytes follow, the bits it gives itself, and the range of
the byte after it. -/
structure Lead where
  follow : Nat
  bits : Nat
  low : Nat
  high : Nat

/-- What a byte announces, if a sequence may begin with it. -/
def lead? (b : UInt8) : Option Lead :=
  let n := b.toNat
  if n < 0x80 then some ⟨0, n, 0x80, 0xBF⟩
  else if n < 0xC2 then none
  else if n < 0xE0 then some ⟨1, n - 0xC0, 0x80, 0xBF⟩
  else if n < 0xF0 then
    some ⟨2, n - 0xE0, if n = 0xE0 then 0xA0 else 0x80, if n = 0xED then 0x9F else 0xBF⟩
  else if n < 0xF5 then
    some ⟨3, n - 0xF0, if n = 0xF0 then 0x90 else 0x80, if n = 0xF4 then 0x8F else 0xBF⟩
  else none

/-- Decodes bytes. Inside a sequence, `lead` holds what is still expected of it together with the
bits so far, `start` and `first` its place and its first byte, and `taken` its bytes so far; between
sequences nothing is expected. `done` holds the characters so far in reverse. -/
def decodeFrom (start taken : Nat) (first : UInt8) (lead : Lead) (done : List Char) :
    List UInt8 → Except Fault (List Char)
  | [] =>
    if lead.follow = 0 then .ok done.reverse
    else .error ⟨start, taken, first, .unexpectedEnd⟩
  | b :: rest =>
    if lead.follow = 0 then
      let here := start + taken
      match lead? b with
      | none => .error ⟨here, 1, b, .invalidStart⟩
      | some announced =>
        if announced.follow = 0 then
          decodeFrom here 1 b announced (Char.ofNat announced.bits :: done) rest
        else decodeFrom here 1 b announced done rest
    else if lead.low ≤ b.toNat ∧ b.toNat ≤ lead.high then
      let bits := lead.bits * 64 + (b.toNat - 0x80)
      let next : Lead := ⟨lead.follow - 1, bits, 0x80, 0xBF⟩
      if next.follow = 0 then decodeFrom start (taken + 1) first next (Char.ofNat bits :: done) rest
      else decodeFrom start (taken + 1) first next done rest
    else .error ⟨start, taken, first, .invalidContinuation⟩

/-- The characters that bytes encode. -/
def decode (bytes : List UInt8) : Except Fault (List Char) :=
  decodeFrom 0 0 0 ⟨0, 0, 0, 0⟩ [] bytes

end ThemeSheet.Utf8
