/-!
# UTF-8

Characters as bytes. `decode?` refuses everything that is not the shortest form of a
character: stray continuation bytes, cut sequences, overlong forms, surrogates and values
beyond the last code point.
-/

namespace RelStore.Text.Utf8

/-- The contents of a file or a piece of it. -/
abbrev Bytes := List UInt8

/-- The bytes of a character. -/
def encodeChar (c : Char) : Bytes :=
  let n := c.toNat
  if n < 0x80 then [.ofNat n]
  else if n < 0x800 then [.ofNat (0xC0 + n / 64), .ofNat (0x80 + n % 64)]
  else if n < 0x10000 then
    [.ofNat (0xE0 + n / 4096), .ofNat (0x80 + n / 64 % 64), .ofNat (0x80 + n % 64)]
  else
    [.ofNat (0xF0 + n / 262144), .ofNat (0x80 + n / 4096 % 64), .ofNat (0x80 + n / 64 % 64),
      .ofNat (0x80 + n % 64)]

/-- The bytes of a text. -/
def encode (cs : List Char) : Bytes := cs.flatMap encodeChar

/-- The bytes of a string. -/
def ofString (s : String) : Bytes := encode s.toList

/-- A byte that continues a character. -/
def isTail (b : UInt8) : Bool := 0x80 ≤ b.toNat && b.toNat < 0xC0

/-- The payload of a continuation byte. -/
def tailBits (b : UInt8) : Nat := b.toNat - 0x80

/-- The character with this code point, if the value is one and is not below `least`. -/
def scalar? (least n : Nat) : Option Char :=
  if h : n.isValidChar then if least ≤ n then some (Char.ofNatAux n h) else none else none

/-- The characters that the bytes spell. -/
def decode? : Bytes → Option (List Char)
  | [] => some []
  | a :: rest =>
    if a.toNat < 0x80 then (decode? rest).map (Char.ofNat a.toNat :: ·)
    else match rest with
    | [] => none
    | b :: rest =>
      if !isTail b then none
      else if a.toNat < 0xC0 then none
      else if a.toNat < 0xE0 then do
        let c ← scalar? 0x80 ((a.toNat - 0xC0) * 64 + tailBits b)
        (decode? rest).map (c :: ·)
      else match rest with
      | [] => none
      | b' :: rest =>
        if !isTail b' then none
        else if a.toNat < 0xF0 then do
          let c ← scalar? 0x800 ((a.toNat - 0xE0) * 4096 + tailBits b * 64 + tailBits b')
          (decode? rest).map (c :: ·)
        else match rest with
        | [] => none
        | b'' :: rest =>
          if !isTail b'' || 0xF8 ≤ a.toNat then none
          else do
            let c ← scalar? 0x10000 ((a.toNat - 0xF0) * 262144 + tailBits b * 4096 +
              tailBits b' * 64 + tailBits b'')
            (decode? rest).map (c :: ·)

/-- The string that the bytes spell. -/
def toString? (bytes : Bytes) : Option String := (decode? bytes).map String.ofList

/-- The lines of a file, cut after every line feed. A last line without a line feed counts, an
empty rest after the last line feed does not. -/
def lines : Bytes → List Bytes
  | [] => []
  | b :: rest =>
    if b = 10 then [] :: lines rest
    else match lines rest with
      | [] => [[b]]
      | line :: more => (b :: line) :: more

end RelStore.Text.Utf8
