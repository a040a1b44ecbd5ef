import StrategyBootstrap.Spec.Python

/-!
# `StrategyBootstrap.Spec.Utf8`: CPython's UTF-8 codec

`read_usage` decodes a usage export with `bytes.decode("utf-8")` when it fetched it, and with
`Path.read_text(encoding="utf-8")` when it reads a file; it saves a fetched export with
`write_text(payload, encoding="utf-8")`. This module is the strict UTF-8 decoder of CPython
(`Objects/stringlib/codecs.h`, `utf8_decode`). Each lead byte takes the continuation bytes
RFC 3629 gives it, with the narrower second byte after `E0`, `ED`, `F0` and `F4`. The first
sequence that breaks these rules raises `UnicodeDecodeError`, with the position, the span and the
reason CPython reports: a byte that cannot start a sequence, a byte that cannot continue one, or a
sequence cut off by the end of the input, whose span runs to that end.

`read_text` reads in universal newlines mode: after decoding, `\r\n` and a lone `\r` become `\n`.
-/

set_option autoImplicit false

namespace StrategyBootstrap

/-- Why the decoder stopped. -/
inductive Utf8Reason where
  | invalidStart
  | invalidContinuation
  | unexpectedEnd
  deriving DecidableEq, Repr

/-- The reason as `UnicodeDecodeError` prints it. -/
def Utf8Reason.text : Utf8Reason → String
  | .invalidStart => "invalid start byte"
  | .invalidContinuation => "invalid continuation byte"
  | .unexpectedEnd => "unexpected end of data"

/-- A decoding error: its reason and the bytes it covers, from `start` up to `stop` (excluded),
counted from the start of the input. -/
structure Utf8Error where
  reason : Utf8Reason
  start : Nat
  stop : Nat
  deriving DecidableEq, Repr

/-- The same error in an input that has `k` more bytes before it. -/
def Utf8Error.shift (k : Nat) (e : Utf8Error) : Utf8Error :=
  { e with start := e.start + k, stop := e.stop + k }

/-- A continuation byte, `10xxxxxx`. -/
def isCont (b : UInt8) : Bool := 0x80 ≤ b && b ≤ 0xBF

/-- The low six bits of a continuation byte. -/
def contBits (b : UInt8) : Nat := b.toNat % 64

/-- The characters of a sequence of bytes, or the first error. The second byte after `E0` must be
at least `A0` and after `ED` below `A0` (no surrogates), after `F0` at least `90` and after `F4`
below `90` (nothing above `U+10FFFF`). A sequence the input ends in the middle of is checked as far
as it goes: a byte that cannot continue it is an invalid continuation, and otherwise the error is
the unexpected end. -/
def decodeChars : List UInt8 → Except Utf8Error (List Char)
  | [] => .ok []
  | b :: rest =>
    let invalid (reason : Utf8Reason) (span : Nat) : Except Utf8Error (List Char) :=
      .error ⟨reason, 0, span⟩
    let truncated := invalid .unexpectedEnd (rest.length + 1)
    -- the character `c` of `k` bytes, then what the rest decodes to
    let emit (c k : Nat) : Except Utf8Error (List Char) → Except Utf8Error (List Char)
      | .ok cs => .ok (Char.ofNat c :: cs)
      | .error e => .error (e.shift k)
    if b < 0x80 then emit b.toNat 1 (decodeChars rest)
    else if b < 0xC2 then invalid .invalidStart 1
    else if b < 0xE0 then
      match rest with
      | [] => truncated
      | c :: tail =>
        if !isCont c then invalid .invalidContinuation 1
        else emit ((b.toNat % 32) * 64 + contBits c) 2 (decodeChars tail)
    else if b < 0xF0 then
      -- the second byte after `E0` and `ED`
      let badSecond (c : UInt8) : Bool :=
        !isCont c || (b = 0xE0 && c < 0xA0) || (b = 0xED && 0xA0 ≤ c)
      match rest with
      | [] => truncated
      | [c] => if badSecond c then invalid .invalidContinuation 1 else truncated
      | c :: d :: tail =>
        if badSecond c then invalid .invalidContinuation 1
        else if !isCont d then invalid .invalidContinuation 2
        else emit ((b.toNat % 16) * 4096 + contBits c * 64 + contBits d) 3 (decodeChars tail)
    else if b < 0xF5 then
      -- the second byte after `F0` and `F4`
      let badSecond (c : UInt8) : Bool :=
        !isCont c || (b = 0xF0 && c < 0x90) || (b = 0xF4 && 0x90 ≤ c)
      match rest with
      | [] => truncated
      | [c] => if badSecond c then invalid .invalidContinuation 1 else truncated
      | [c, d] =>
        if badSecond c then invalid .invalidContinuation 1
        else if !isCont d then invalid .invalidContinuation 2
        else truncated
      | c :: d :: e :: tail =>
        if badSecond c then invalid .invalidContinuation 1
        else if !isCont d then invalid .invalidContinuation 2
        else if !isCont e then invalid .invalidContinuation 3
        else
          emit ((b.toNat % 8) * 262144 + contBits c * 4096 + contBits d * 64 + contBits e) 4
            (decodeChars tail)
    else invalid .invalidStart 1

/-- `%02x` of a byte: two lowercase hexadecimal digits. -/
def hexByte (b : UInt8) : String :=
  let digits := Nat.toDigits 16 b.toNat
  ⟨if digits.length < 2 then '0' :: digits else digits⟩

/-- `str(exc)` of the `UnicodeDecodeError` for the input `bytes`: one byte is named with its value,
a longer span by its first and last positions. -/
def Utf8Error.text (bytes : List UInt8) (e : Utf8Error) : String :=
  if e.stop = e.start + 1 then
    "'utf-8' codec can't decode byte 0x" ++ hexByte (bytes.getD e.start 0) ++ " in position " ++
      toString e.start ++ ": " ++ e.reason.text
  else
    "'utf-8' codec can't decode bytes in position " ++ toString e.start ++ "-" ++
      toString (e.stop - 1) ++ ": " ++ e.reason.text

/-- `bytes.decode("utf-8")`. -/
def decodeUtf8 (bytes : List UInt8) : Except PyExc String :=
  match decodeChars bytes with
  | .ok cs => .ok ⟨cs⟩
  | .error e => .error (.unicodeDecode (e.text bytes))

/-- Universal newlines: `\r\n` and a lone `\r` read as `\n`. -/
def translateNewlines : List Char → List Char
  | [] => []
  | '\r' :: '\n' :: rest => '\n' :: translateNewlines rest
  | '\r' :: rest => '\n' :: translateNewlines rest
  | c :: rest => c :: translateNewlines rest

/-- `Path.read_text(encoding="utf-8")` of a file holding `bytes`: decode, then translate
newlines. -/
def readText (bytes : List UInt8) : Except PyExc String :=
  (decodeUtf8 bytes).map fun s => ⟨translateNewlines s.data⟩

end StrategyBootstrap
