/-!
# The nesting of a JSON text

A scan over the bytes of a text that counts the containers open at once without
reading the document. It only has to know where strings begin and end; closers
that match nothing count as none.
-/

namespace FieldExpr.Json

/-- Where the scan stands. -/
structure NestingScan where
  depth : Nat := 0
  inString : Bool := false
  escaped : Bool := false

/-- The scan after one more byte. -/
def NestingScan.step (s : NestingScan) (b : UInt8) : NestingScan :=
  if s.inString then
    if s.escaped then { s with escaped := false }
    else if b = 0x5c then { s with escaped := true }
    else if b = 0x22 then { s with inString := false }
    else s
  else if b = 0x22 then { s with inString := true }
  else if b = 0x7b ∨ b = 0x5b then { s with depth := s.depth + 1 }
  else if b = 0x7d ∨ b = 0x5d then { s with depth := s.depth - 1 }
  else s

/-- The first depth past the limit that the scan reaches, if any. -/
def NestingScan.excess (limit : Nat) (s : NestingScan) : List UInt8 → Option Nat
  | [] => none
  | b :: rest =>
    let next := s.step b
    if limit < next.depth then some next.depth else next.excess limit rest

/-- The first nesting depth past `limit` that a text reaches, if any. -/
def nestingExcess (limit : Nat) (bytes : List UInt8) : Option Nat :=
  NestingScan.excess limit {} bytes

end FieldExpr.Json
