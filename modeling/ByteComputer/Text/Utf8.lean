/-!
# UTF-8

Bytes are read one at a time. A byte that cannot begin a character is ill-formed by itself; a
sequence that breaks off before its last byte is one ill-formed part, and the byte that broke it
is read afresh. So an ill-formed part is as long as the standard's maximal subpart, and never
reaches across a byte below `0x80`.

`Utf8.lossy` puts a replacement character in the place of each ill-formed part; `Utf8.decode?`
accepts a text only if it has none.
-/

namespace ByteComputer.Utf8

/-! ## Leading bytes -/

/-- An inclusive range of bytes. -/
structure ByteRange where
  low : UInt8
  high : UInt8

/-- The bytes that may continue a character where nothing narrower is asked. -/
def ByteRange.continuation : ByteRange := ⟨0x80, 0xBF⟩

def ByteRange.holds (r : ByteRange) (b : UInt8) : Bool := r.low ≤ b && b ≤ r.high

/-- A character that has begun: its bits so far, and what its further bytes must be. -/
structure Unfinished where
  bits : Nat
  next : ByteRange
  later : List ByteRange

/-- What a byte in leading position is. -/
inductive Lead where
  | complete (c : Char)
  | begins (p : Unfinished)
  | illFormed

/-- Sorts the bytes by what they announce. The narrower second ranges keep out overlong forms,
surrogates and values past the last code point. -/
def Lead.ofByte (b : UInt8) : Lead :=
  let more := ByteRange.continuation
  if b < 0x80 then .complete (Char.ofNat b.toNat)
  else if b < 0xC2 then .illFormed
  else if b < 0xE0 then .begins ⟨b.toNat - 0xC0, more, []⟩
  else if b = 0xE0 then .begins ⟨0, ⟨0xA0, 0xBF⟩, [more]⟩
  else if b = 0xED then .begins ⟨0xD, ⟨0x80, 0x9F⟩, [more]⟩
  else if b < 0xF0 then .begins ⟨b.toNat - 0xE0, more, [more]⟩
  else if b = 0xF0 then .begins ⟨0, ⟨0x90, 0xBF⟩, [more, more]⟩
  else if b < 0xF4 then .begins ⟨b.toNat - 0xF0, more, [more, more]⟩
  else if b = 0xF4 then .begins ⟨4, ⟨0x80, 0x8F⟩, [more, more]⟩
  else .illFormed

/-! ## Decoding -/

/-- The parts read so far, latest first, and the character that is under way. An ill-formed part
is `none`. -/
structure Decoder where
  parts : List (Option Char) := []
  underWay : Option Unfinished := none

/-- Takes a byte in leading position. -/
def Decoder.lead (parts : List (Option Char)) (b : UInt8) : Decoder :=
  match Lead.ofByte b with
  | .complete c => { parts := some c :: parts }
  | .begins p => { parts, underWay := some p }
  | .illFormed => { parts := none :: parts }

/-- Takes a byte that carries on the character under way. -/
def Decoder.extend (parts : List (Option Char)) (p : Unfinished) (b : UInt8) : Decoder :=
  let bits := p.bits * 64 + (b.toNat - 0x80)
  match p.later with
  | [] => { parts := some (Char.ofNat bits) :: parts }
  | next :: later => { parts, underWay := some ⟨bits, next, later⟩ }

def Decoder.feed (d : Decoder) (b : UInt8) : Decoder :=
  match d.underWay with
  | none => Decoder.lead d.parts b
  | some p =>
    if p.next.holds b then Decoder.extend d.parts p b else Decoder.lead (none :: d.parts) b

/-- The parts in their order; a character still under way at the end is ill-formed. -/
def Decoder.finish (d : Decoder) : List (Option Char) :=
  match d.underWay with
  | none => d.parts.reverse
  | some _ => (none :: d.parts).reverse

/-- The characters and ill-formed parts of a sequence of bytes. -/
def parts (bytes : List UInt8) : List (Option Char) :=
  (bytes.foldl Decoder.feed {}).finish

/-- The text with U+FFFD in the place of each ill-formed part. -/
def lossy (bytes : List UInt8) : List Char :=
  (parts bytes).map (·.getD (Char.ofNat 0xFFFD))

/-- The text, if no part of it is ill-formed. -/
def decode? (bytes : List UInt8) : Option (List Char) :=
  (parts bytes).mapM id

end ByteComputer.Utf8
