import DerivationReplay.Derivation.Snapshot
import DerivationReplay.Proofs.Coherence

/-!
What the snapshot reference identifies. The bytes of a derivation do not say where the parents of a
clause end, a null byte in a text looks like its end, and the last point in time stands for none at
all. Up to this layout the bytes give the contents of the derivation back; beyond it they do not.
-/
namespace DerivationReplay

section Bytes

theorem little_endian_injective {first second : UInt64}
    (same : littleEndian first = littleEndian second) : first = second := by
  have bytes := List.map_inj_left.mp same
  refine UInt64.toNat_inj.mp (Nat.eq_of_testBit_eq fun bit => ?_)
  by_cases inside : bit < 64
  · have byte := congrArg (·.toNat.testBit (bit % 8))
      (bytes (bit / 8) (List.mem_range.mpr (by omega)))
    have within : bit % 8 < 8 := Nat.mod_lt bit (by decide)
    simpa only [UInt8.toNat_ofNat', Nat.testBit_mod_two_pow, within, decide_true, Bool.true_and,
      Nat.testBit_shiftRight, Nat.div_add_mod] using byte
  · have beyond (word : UInt64) : word.toNat.testBit bit = false :=
      Nat.testBit_lt_two_pow (word.toNat_lt.trans_le (Nat.pow_le_pow_right (by decide) (by omega)))
    rw [beyond, beyond]

theorem utf8_injective {first second : String} (same : utf8 first = utf8 second) :
    first = second := by
  have decoded (text : String) : (utf8 text).toByteArray.utf8Decode? = some text.toList.toArray :=
    List.utf8Decode?_utf8Encode
  have chars := decoded first
  rw [same, decoded, Option.some.injEq] at chars
  exact String.toList_inj.mp (List.toArray_inj chars).symm

theorem terminated_split {first second rest other : List UInt8}
    (nulls : first.count 0 = second.count 0) (same : first ++ 0 :: rest = second ++ 0 :: other) :
    first = second ∧ rest = other := by
  induction first generalizing second with
  | nil =>
    cases second with
    | nil => exact ⟨rfl, (List.cons.inj same).2⟩
    | cons byte second =>
      obtain ⟨rfl, _⟩ := List.cons.inj same
      simp at nulls
  | cons byte first ih =>
    cases second with
    | nil =>
      obtain ⟨rfl, _⟩ := List.cons.inj same
      simp at nulls
    | cons head second =>
      obtain ⟨rfl, tails⟩ := List.cons.inj same
      rw [List.count_cons, List.count_cons, Nat.add_right_cancel_iff] at nulls
      obtain ⟨rfl, rest⟩ := ih nulls tails
      exact ⟨rfl, rest⟩

theorem words_split {first second : List UInt64} {rest other : List UInt8}
    (length : first.length = second.length)
    (same : first.flatMap littleEndian ++ rest = second.flatMap littleEndian ++ other) :
    first = second ∧ rest = other := by
  induction first generalizing second with
  | nil =>
    obtain rfl := List.length_eq_zero_iff.mp length.symm
    exact ⟨rfl, same⟩
  | cons word first ih =>
    obtain ⟨head, second, rfl⟩ := List.exists_cons_of_length_eq_add_one length.symm
    rw [List.flatMap_cons, List.flatMap_cons, List.append_assoc, List.append_assoc] at same
    obtain ⟨words, same⟩ := List.append_inj same rfl
    obtain ⟨rfl, rest⟩ := ih (Nat.succ.inj length) same
    exact ⟨congrArg (· :: first) (little_endian_injective words), rest⟩

end Bytes

namespace Clause

/-- The part of a clause that a snapshot is meant to identify. -/
def identity (clause : Clause) : Clause where
  id := clause.id
  text := clause.text
  rule := clause.rule
  parents := clause.parents
  fromPreprocessing := clause.fromPreprocessing
  life := { active := clause.life.active }

/-- What the bytes of a clause leave open. -/
structure Layout where
  textNulls : Nat
  ruleNulls : Nat
  parents : Nat
  activeAtLast : Bool
deriving DecidableEq

def layout (clause : Clause) : Layout where
  textNulls := (utf8 clause.text).count 0
  ruleNulls := (utf8 clause.rule).count 0
  parents := clause.parents.length
  activeAtLast := clause.life.active = some 0xffffffffffffffff

theorem bytes_split {first second : Clause} {rest other : List UInt8}
    (layout : first.layout = second.layout)
    (same : first.snapshotBytes ++ rest = second.snapshotBytes ++ other) :
    first.identity = second.identity ∧ rest = other := by
  obtain ⟨textNulls, ruleNulls, parents, atLast⟩ := Layout.mk.inj layout
  simp only [snapshotBytes, List.append_assoc, List.singleton_append] at same
  -- Part by part, as the bytes are written; the layout says where the open parts end.
  obtain ⟨ids, same⟩ := List.append_inj same rfl
  obtain ⟨texts, same⟩ := terminated_split textNulls same
  obtain ⟨rules, same⟩ := terminated_split ruleNulls same
  obtain ⟨parents, same⟩ := words_split parents same
  obtain ⟨flags, same⟩ := List.cons.inj same
  obtain ⟨times, same⟩ := List.append_inj same rfl
  have preprocessing : first.fromPreprocessing = second.fromPreprocessing := by
    cases one : first.fromPreprocessing <;> cases other : second.fromPreprocessing <;> simp_all
  -- The same eight bytes stand for no activation and for one at the last point in time.
  have active : first.life.active = second.life.active := by
    have times := little_endian_injective times
    cases one : first.life.active <;> cases other : second.life.active <;> simp_all
  refine ⟨?_, same⟩
  simp only [identity, little_endian_injective ids, utf8_injective texts, utf8_injective rules,
    parents, preprocessing, active]

end Clause

namespace Derivation

def Alike (first second : Derivation) : Prop :=
  first.ids = second.ids ∧
    ∀ id, (first.get? id).map Clause.identity = (second.get? id).map Clause.identity

theorem bytes_identify {first second : List Clause}
    (layouts : first.map Clause.layout = second.map Clause.layout)
    (same : first.flatMap Clause.snapshotBytes = second.flatMap Clause.snapshotBytes) :
    first.map Clause.identity = second.map Clause.identity := by
  induction first generalizing second with
  | nil => rw [List.map_eq_nil_iff.mp layouts.symm]
  | cons clause first ih =>
    cases second with
    | nil => cases layouts
    | cons other second =>
      obtain ⟨layout, layouts⟩ := List.cons.inj layouts
      rw [List.flatMap_cons, List.flatMap_cons] at same
      obtain ⟨identity, same⟩ := Clause.bytes_split layout same
      rw [List.map_cons, List.map_cons, identity, ih layouts same]

theorem identities_by_number {derivation : Derivation} (coherent : derivation.Coherent) :
    (derivation.table.map fun _ clause => clause.identity).toList =
      (derivation.clauses.map Clause.identity).map fun clause => (clause.id, clause) := by
  rw [clauses, values_of_list, Std.ExtTreeMap.toList_map, List.map_map, List.map_map]
  refine List.map_congr_left fun entry mem => ?_
  have found := Std.ExtTreeMap.mem_toList_iff_getElem?_eq_some.mp mem
  exact congrArg (·, entry.2.identity) (coherent.keyed entry.1 entry.2 found).symm

variable {first second : Derivation}

theorem alike_iff (coherent : first.Coherent) (other_coherent : second.Coherent) :
    Alike first second ↔
      first.clauses.map Clause.identity = second.clauses.map Clause.identity := by
  rw [← List.map_inj_right fun _ _ same => (Prod.mk.inj same).2, ← identities_by_number coherent,
    ← identities_by_number other_coherent, Std.ExtTreeMap.toList_inj]
  constructor
  · intro alike
    refine Std.ExtTreeMap.ext_getElem? fun id => ?_
    rw [Std.ExtTreeMap.getElem?_map, Std.ExtTreeMap.getElem?_map]
    exact alike.2 id
  · intro same
    constructor
    · rw [ids, ids, ← Std.ExtTreeMap.keys_map, same, Std.ExtTreeMap.keys_map]
    · intro id
      have found : (first.table.map fun _ clause => clause.identity)[id]? =
          (second.table.map fun _ clause => clause.identity)[id]? := by rw [same]
      rwa [Std.ExtTreeMap.getElem?_map, Std.ExtTreeMap.getElem?_map] at found

theorem bytes_of_identities (derivation : Derivation) :
    derivation.snapshotBytes =
      (derivation.clauses.map Clause.identity).flatMap Clause.snapshotBytes := by
  rw [List.flatMap_map]
  rfl

theorem layouts_of_identities (derivation : Derivation) :
    derivation.clauses.map Clause.layout =
      (derivation.clauses.map Clause.identity).map Clause.layout := by
  rw [List.map_map]
  rfl

/-- Two derivations are alike exactly if they have the same bytes, laid out in the same way. -/
theorem snapshot_identifies_iff (firsts seconds : List Clause)
    (given : ofClauses firsts = .ok first) (other_given : ofClauses seconds = .ok second) :
    Alike first second ↔ first.snapshotBytes = second.snapshotBytes ∧
      first.clauses.map Clause.layout = second.clauses.map Clause.layout := by
  rw [alike_iff (clauses_coherent given) (clauses_coherent other_given)]
  constructor
  · intro same
    rw [bytes_of_identities, layouts_of_identities, same, ← bytes_of_identities,
      ← layouts_of_identities]
    exact ⟨rfl, rfl⟩
  · intro told
    exact bytes_identify told.2 told.1

def parentTold : List Clause := [
  { id := 256, text := "p", rule := "input", fromPreprocessing := true },
  { id := 300, text := "q", rule := "resolution", parents := [256],
    life := { active := some 301 } },
  { id := 0x2026207120262070, text := "r", rule := "input", fromPreprocessing := true }]

/-- The same bytes, in which the parent is read as a flag and an activation, the activation as the
next number, and that number as the beginning of a text. -/
def parentUntold : List Clause := [
  { id := 256, text := "p", rule := "input", fromPreprocessing := true },
  { id := 300, text := "q", rule := "resolution", life := { active := some 1 } },
  { id := 301, text := "p & q & r", rule := "input", fromPreprocessing := true }]

theorem told_given : ∃ derivation, ofClauses parentTold = .ok derivation ∧
    derivation.clauses.map Clause.identity = parentTold := ⟨_, rfl, rfl⟩

theorem reversed_given : ∃ derivation, ofClauses parentTold.reverse = .ok derivation ∧
    derivation.clauses.map Clause.identity = parentTold := ⟨_, rfl, rfl⟩

theorem untold_given : ∃ derivation, ofClauses parentUntold = .ok derivation ∧
    derivation.clauses.map Clause.identity = parentUntold := ⟨_, rfl, rfl⟩

theorem told_alike_reversed : ∃ first second, ofClauses parentTold = .ok first ∧
    ofClauses parentTold.reverse = .ok second ∧ Alike first second := by
  obtain ⟨first, given, told⟩ := told_given
  obtain ⟨second, other_given, reversed⟩ := reversed_given
  refine ⟨first, second, given, other_given, ?_⟩
  refine (snapshot_identifies_iff _ _ given other_given).mpr ⟨?_, ?_⟩
  · rw [bytes_of_identities, told, bytes_of_identities, reversed]
  · rw [layouts_of_identities, told, layouts_of_identities, reversed]

theorem same_bytes_other_parents : ¬ ∀ (firsts seconds : List Clause) (first second : Derivation),
    ofClauses firsts = .ok first → ofClauses seconds = .ok second →
      first.snapshotBytes = second.snapshotBytes → Alike first second := by
  intro identifies
  obtain ⟨first, given, told⟩ := told_given
  obtain ⟨second, other_given, untold⟩ := untold_given
  have same : first.snapshotBytes = second.snapshotBytes := by
    rw [bytes_of_identities, told, bytes_of_identities, untold]
    decide
  have alike := identifies parentTold parentUntold first second given other_given same
  rw [alike_iff (clauses_coherent given) (clauses_coherent other_given), told, untold] at alike
  exact absurd alike (by decide)

end Derivation
end DerivationReplay
