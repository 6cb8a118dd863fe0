import TensorLoops.Hash.Sha256
import TensorLoops.Text.Json

namespace TensorLoops

def compilerVersion : String := "0.3.1"

/-- Where a result comes from: the hash of the source text and the version of the compiler. -/
structure Provenance where
  sourceHash : List UInt8
  version : String
  deriving DecidableEq, Repr

namespace Provenance

def ofSource (source : String) : Provenance :=
  ⟨Hash.sha256 source.toUTF8.toList, compilerVersion⟩

/-- Two hexadecimal digits for each byte. -/
def hashText (p : Provenance) : String :=
  .ofList (p.sourceHash.flatMap fun byte =>
    [Nat.digitChar (byte.toNat / 16), Nat.digitChar (byte.toNat % 16)])

/-- The keys in alphabetical order, and a line break at the end. -/
def text (p : Provenance) : String :=
  (Text.Json.object
    [("compiler_version", .string p.version), ("source_hash", .string p.hashText)]).text ++ "\n"

end Provenance

end TensorLoops
