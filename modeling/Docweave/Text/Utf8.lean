import Docweave.Fault

namespace Docweave.Text.Utf8

inductive Lead where
  | char (c : Char) (length : Nat)
  | cut
  | bad (length : Nat) (reason : String)
  deriving Repr

structure Call where
  owed : Nat
  low : Nat
  high : Nat
  value : Nat
  deriving DecidableEq, Repr

def call? (b : Nat) : Option Call :=
  if b < 0x80 then some ⟨0, 0, 0, b⟩
  else if b < 0xC2 then none
  else if b < 0xE0 then some ⟨1, 0x80, 0xBF, b - 0xC0⟩
  else if b = 0xE0 then some ⟨2, 0xA0, 0xBF, 0⟩
  else if b = 0xED then some ⟨2, 0x80, 0x9F, 0xD⟩
  else if b < 0xF0 then some ⟨2, 0x80, 0xBF, b - 0xE0⟩
  else if b = 0xF0 then some ⟨3, 0x90, 0xBF, 0⟩
  else if b < 0xF4 then some ⟨3, 0x80, 0xBF, b - 0xF0⟩
  else if b = 0xF4 then some ⟨3, 0x80, 0x8F, 4⟩
  else none

def follow : Nat → Nat → Nat → Nat → Nat → List Nat → Lead
  | 0, _, _, used, value, _ => .char (Char.ofNat value) used
  | _ + 1, _, _, _, _, [] => .cut
  | owed + 1, low, high, used, value, b :: rest =>
      if low ≤ b ∧ b ≤ high then follow owed 0x80 0xBF (used + 1) (value * 64 + (b - 0x80)) rest
      else .bad used "invalid continuation byte"

def isSurrogateStart : List Nat → Bool
  | [a, b] => a == 0xED && decide (0xA0 ≤ b ∧ b ≤ 0xBF)
  | _ => false

def lead (bytes : List Nat) : Lead :=
  match bytes with
  | [] => .cut
  | b :: rest =>
      if isSurrogateStart bytes then .cut
      else
        match call? b with
        | none => .bad 1 "invalid start byte"
        | some c => follow c.owed c.low c.high 1 c.value rest

def endFault (pending : List Nat) : Option Fault :=
  if pending.isEmpty then none
  else if isSurrogateStart pending then some (.notUtf8 (pending.take 1) 0 "invalid continuation byte")
  else some (.notUtf8 pending 0 "unexpected end of data")

structure Piece where
  chars : List Char
  pending : List Nat
  fault : Option Fault := none

def pieceFrom : Nat → Nat → List Nat → Piece
  | 0, _, bytes => ⟨[], bytes, none⟩
  | _ + 1, _, [] => ⟨[], [], none⟩
  | fuel + 1, position, bytes =>
      match lead bytes with
      | .cut => ⟨[], bytes, none⟩
      | .bad length reason => ⟨[], [], some (.notUtf8 (bytes.take length) position reason)⟩
      | .char c length =>
          let rest := pieceFrom fuel (position + length) (bytes.drop length)
          { rest with chars := c :: rest.chars }

structure Decoded where
  chars : List Char
  fault : Option Fault
  deriving Inhabited

def decodeFrom (size : Nat) : Nat → List Nat → List Nat → Decoded
  | 0, _, _ => ⟨[], none⟩
  | fuel + 1, pending, bytes =>
      if bytes.isEmpty then ⟨[], endFault pending⟩
      else
        let input := pending ++ bytes.take size
        let piece := pieceFrom (input.length + 1) 0 input
        match piece.fault with
        | some fault => ⟨[], some fault⟩
        | none =>
            let rest := decodeFrom size fuel piece.pending (bytes.drop size)
            { rest with chars := piece.chars ++ rest.chars }

def pieceSize : Nat := 8192

def decode (bytes : List Nat) : Decoded :=
  decodeFrom pieceSize (bytes.length + 1) [] bytes

end Docweave.Text.Utf8
