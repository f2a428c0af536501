import FieldExpr.Artifact.Document
import FieldExpr.Digest.Sha256
import FieldExpr.Text.Hex

/-!
# Program digests

The digest of a program is the hash of its canonical bytes. Programs that are
the same share a digest, so it can stand for the program in caches and stores.
-/

namespace FieldExpr

/-- A digest: thirty-two bytes. -/
structure Digest where
  bytes : List UInt8
  length_bytes : bytes.length = 32
  deriving DecidableEq

/-- A text that is not a digest. -/
structure DigestError where
  text : String
  deriving DecidableEq

/-- The message of the error. -/
def DigestError.message (e : DigestError) : String :=
  "Invalid program digest '" ++ e.text ++ "'"

namespace Digest

/-- The lower-case hexadecimal form. -/
def hex (d : Digest) : String :=
  String.ofList (Text.hex d.bytes)

/-- The digest of sixty-four hexadecimal digits of either case. -/
def ofHex (text : String) : Except DigestError Digest :=
  match Text.unhex? text.toUTF8.data.toList with
  | some bytes => if h : bytes.length = 32 then .ok ⟨bytes, h⟩ else .error ⟨text⟩
  | none => .error ⟨text⟩

/-- The order of the bytes, from the first one on. -/
def compareBytes : List UInt8 → List UInt8 → Ordering
  | [], [] => .eq
  | [], _ :: _ => .lt
  | _ :: _, [] => .gt
  | a :: as, b :: bs => (Ord.compare a.toNat b.toNat).then (compareBytes as bs)

/-- The order of digests. -/
def compare (a b : Digest) : Ordering :=
  compareBytes a.bytes b.bytes

end Digest

/-- The digest of a program. -/
def Program.digest (p : Program) : Digest :=
  ⟨Sha256.hash p.canonicalBytes, Sha256.length_hash _⟩

end FieldExpr
