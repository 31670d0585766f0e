import DerivationReplay.Derivation
import DerivationReplay.Digest.Sha256

/-! The snapshot reference of a derivation: a hash of its clauses, the same in every run. -/
namespace DerivationReplay

def littleEndian (word : UInt64) : List UInt8 :=
  (List.range 8).map fun place => UInt8.ofNat (word.toNat >>> (8 * place))

def utf8 (text : String) : List UInt8 := text.toList.flatMap String.utf8EncodeChar

/-- A clause that has not been activated counts as activated at the last point in time. -/
def Clause.snapshotBytes (clause : Clause) : List UInt8 :=
  littleEndian clause.id ++ utf8 clause.text ++ [0] ++ utf8 clause.rule ++ [0] ++
    clause.parents.flatMap littleEndian ++ [if clause.fromPreprocessing then 1 else 0] ++
    littleEndian (clause.life.active.getD 0xffffffffffffffff)

namespace Derivation

def snapshotBytes (derivation : Derivation) : List UInt8 :=
  derivation.clauses.flatMap Clause.snapshotBytes

def snapshot (derivation : Derivation) : String :=
  "dag1_" ++ Sha256.hexDigest derivation.snapshotBytes

end Derivation
end DerivationReplay
