/-!
# UTF-8

Bytes and text.  `Utf8.encode` writes text, `Utf8.decodeLossy` reads any bytes at all, and
`Utf8.decode?` reads bytes that are UTF-8 throughout.

A lossy reader has to say what becomes of bytes that are no character.  The rule here: one
replacement character stands for each longest stretch that begins a character and then goes wrong,
and for each byte that cannot begin one.  Both readers take their characters off the front by
`Utf8.firstChar`, so they agree on what is well formed.
-/

set_option autoImplicit false

namespace ValueShell

/-- Raw bytes, as a command writes them. -/
abbrev Bytes := List UInt8

namespace Utf8

/-- The UTF-8 form of a text. -/
def encode (s : String) : Bytes :=
  s.toList.flatMap String.utf8EncodeChar

/-- Is the byte one that continues a character? -/
def isTrail (b : UInt8) : Bool :=
  0x80 ≤ b && b ≤ 0xBF

/-- May `next` follow the first byte `b` of a character?  For most first bytes any trail byte may;
the others are cut down so that no character has a longer form than it needs, and none is a
surrogate or above U+10FFFF. -/
def maySecond (b next : UInt8) : Bool :=
  if b == 0xE0 then 0xA0 ≤ next && next ≤ 0xBF
  else if b == 0xED then 0x80 ≤ next && next ≤ 0x9F
  else if b == 0xF0 then 0x90 ≤ next && next ≤ 0xBF
  else if b == 0xF4 then 0x80 ≤ next && next ≤ 0x8F
  else isTrail next

/-- How many bytes the first byte promises after itself, or nothing when it cannot be a first
byte. -/
def trailCount (b : UInt8) : Option Nat :=
  if b < 0x80 then some 0
  else if 0xC2 ≤ b && b ≤ 0xDF then some 1
  else if 0xE0 ≤ b && b ≤ 0xEF then some 2
  else if 0xF0 ≤ b && b ≤ 0xF4 then some 3
  else none

/-- The six payload bits of a trail byte. -/
def payload (b : UInt8) : Nat :=
  b.toNat % 64

/-- The character at the front of `b :: rest`, or nothing when the bytes there are no character, and
the number of bytes of `rest` that go with it. -/
def firstChar (b : UInt8) (rest : Bytes) : Option Char × Nat :=
  match trailCount b, rest with
  | some 0, _ => (some (Char.ofNat b.toNat), 0)
  | some 1, x :: _ =>
    if isTrail x then (some (Char.ofNat (b.toNat % 32 * 64 + payload x)), 1) else (none, 0)
  | some 2, x :: tail =>
    if maySecond b x then
      match tail with
      | y :: _ =>
        if isTrail y then
          (some (Char.ofNat ((b.toNat % 16 * 64 + payload x) * 64 + payload y)), 2)
        else (none, 1)
      | [] => (none, 1)
    else (none, 0)
  | some 3, x :: tail =>
    if maySecond b x then
      match tail with
      | y :: z :: _ =>
        if isTrail y then
          if isTrail z then
            (some (Char.ofNat
              (((b.toNat % 8 * 64 + payload x) * 64 + payload y) * 64 + payload z)), 3)
          else (none, 2)
        else (none, 1)
      | [y] => if isTrail y then (none, 2) else (none, 1)
      | [] => (none, 1)
    else (none, 0)
  | _, _ => (none, 0)

/-- The characters of the bytes from the front on, with nothing where there is none. -/
def chars : Bytes → List (Option Char)
  | [] => []
  | b :: rest =>
    let (c?, used) := firstChar b rest
    c? :: chars (rest.drop used)
termination_by bs => bs.length
decreasing_by simp only [List.length_drop, List.length_cons]; omega

/-- The text of any bytes: what is no character is replaced. -/
def decodeLossy (bs : Bytes) : String :=
  String.ofList ((chars bs).map (·.getD '\uFFFD'))

/-- The text of bytes that are UTF-8 throughout. -/
def decode? (bs : Bytes) : Option String :=
  ((chars bs).mapM id).map String.ofList

end Utf8

end ValueShell
