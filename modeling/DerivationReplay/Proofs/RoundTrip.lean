import DerivationReplay.Proofs.Coherence
import DerivationReplay.Proofs.RecordFields

/-!
Records of derivations. A derivation is read back from its own record: the clauses are written field
by field, what is left out is read as its default, and children and leaves, which are computed anew,
come out as they were. What a record says of children and leaves therefore makes no difference.
-/
namespace DerivationReplay
open Json

namespace Clause

def members (clause : Clause) : List (Option Json) := [
  some (ofWord clause.id), some (ofText clause.text), some (ofText clause.rule),
  some (ofWords clause.parents), some (ofWords clause.children.toList),
  if clause.statistics.isEmpty then none else some clause.statistics.toJson,
  some (.bool clause.fromPreprocessing),
  clause.life.new.map ofWord, clause.life.passive.map ofWord, clause.life.active.map ofWord,
  clause.life.deletion.map ofWord,
  if clause.life.deletionParents.isEmpty then none else some (ofWords clause.life.deletionParents)]

theorem time_field_present (name : String) (time : Option Time) :
    timeField name time = ((time.map ofWord).map (name, ·)).toList := by
  cases time <;> rfl

theorem left_out_present (name : String) (absent : Bool) (value : Json) :
    (if absent then [] else [(name, value)]) =
      ((if absent then none else some value).map (name, ·)).toList := by
  cases absent <;> rfl

theorem to_json_present (clause : Clause) :
    clause.toJson = record (present (fieldNames.zip clause.members)) := by
  simp only [toJson, time_field_present, left_out_present, fieldNames, members,
    List.zip_cons_cons, List.zip_nil_left, present_cons, present_nil, List.append_nil,
    List.append_assoc]
  rfl

theorem members_to_json (clause : Clause) :
    members? fieldNames false clause.toJson = some clause.members := by
  rw [to_json_present]
  exact members_present (by decide) rfl

theorem time_of_time (time : Option Time) : time? (time.map ofWord) = some time := by
  cases time with
  | none => rfl
  | some time => exact congrArg (Option.map some) (word_of_word time)

theorem statistics_of_statistics (statistics : Statistics) :
    Statistics.ofJson? statistics.toJson = some statistics := by
  have words : (statistics.toList.map fun entry => (entry.1, ofWord entry.2)).mapM
      (fun entry => entry.2.word?.map (entry.1, ·)) = some statistics.toList :=
    read_written fun _ _ => by simp [word_of_word]
  rw [Statistics.toJson, record, Statistics.ofJson?, named_written]
  simp [words, map_of_list]

theorem of_json_to_json (clause : Clause) : ofJson? clause.toJson = some clause := by
  have statistics : defaulting ∅ Statistics.ofJson?
      (if clause.statistics.isEmpty then none else some clause.statistics.toJson) =
        some clause.statistics := by
    split
    · rename_i none
      rw [Std.ExtTreeMap.isEmpty_iff.mp none]
      rfl
    · exact statistics_of_statistics _
  have parents : ids? (if clause.life.deletionParents.isEmpty then none
      else some (ofWords clause.life.deletionParents)) = some clause.life.deletionParents := by
    split
    · rename_i none
      rw [List.isEmpty_iff.mp none]
      rfl
    · exact words_of_words _
  rw [ofJson?]
  refine Option.bind_eq_some_iff.mpr ⟨_, members_to_json clause, ?_⟩
  refine Option.bind_eq_some_iff.mpr ⟨_, word_of_word clause.id, ?_⟩
  refine Option.bind_eq_some_iff.mpr ⟨_, text_of_text clause.text, ?_⟩
  refine Option.bind_eq_some_iff.mpr ⟨_, text_of_text clause.rule, ?_⟩
  refine Option.bind_eq_some_iff.mpr ⟨_, words_of_words clause.parents, ?_⟩
  refine Option.bind_eq_some_iff.mpr ⟨_, words_of_words clause.children.toList, ?_⟩
  refine Option.bind_eq_some_iff.mpr ⟨_, statistics, ?_⟩
  refine Option.bind_eq_some_iff.mpr ⟨clause.fromPreprocessing, rfl, ?_⟩
  refine Option.bind_eq_some_iff.mpr ⟨_, time_of_time clause.life.new, ?_⟩
  refine Option.bind_eq_some_iff.mpr ⟨_, time_of_time clause.life.passive, ?_⟩
  refine Option.bind_eq_some_iff.mpr ⟨_, time_of_time clause.life.active, ?_⟩
  refine Option.bind_eq_some_iff.mpr ⟨_, time_of_time clause.life.deletion, ?_⟩
  refine Option.bind_eq_some_iff.mpr ⟨_, parents, ?_⟩
  rw [set_of_list]

def withoutChildren : Json → Json := changeMember fieldNames "children" emptyWords

theorem ids_emptied (member : Option Json) :
    (ids? (member.map emptyWords)).isSome = (ids? member).isSome := by
  cases member with
  | none => rfl
  | some value =>
    change (list? word? (emptyWords value)).isSome = (list? word? value).isSome
    rw [emptyWords]
    split
    · rename_i ids
      exact ids.symm
    · rfl

theorem bare_without_children (value : Json) :
    (ofJson? (withoutChildren value)).map bare = (ofJson? value).map bare := by
  rw [ofJson?, withoutChildren, members_change _ (by decide), ofJson?]
  cases read : members? fieldNames false value with
  | none => rfl
  | some members =>
    match members, members_length read with
    | [clauseId, text, rule, parents, children, statistics, fromPreprocessing, new, passive, active,
        deletion, deletionParents], _ =>
    have place : fieldNames.idxOf "children" = 4 := by decide
    rw [place]
    -- The children are read in fifth place; whichever they are, all later fields are read alike.
    refine same_after (fun _ => ?_) (required word? clauseId)
    refine same_after (fun _ => ?_) (required text? text)
    refine same_after (fun _ => ?_) (required text? rule)
    refine same_after (fun _ => ?_) (ids? parents)
    refine same_after_either (ids_emptied children) fun _ _ => ?_
    iterate 7 refine same_after (fun _ => ?_) _
    rfl

end Clause

namespace Derivation

section OwnRecord

theorem key_of_id (id : ClauseId) : key? (.ofText (toString id)) = some id := by
  simp [key?, Quoted.ofText, Text.word64_of_numeral]

def nodes (table : Table) : Json :=
  record (table.toList.map fun (id, clause) => (toString id, clause.toJson))

def numbered? (field : Quoted × Json) : Option (ClauseId × Clause) := do
  let id ← key? field.1
  let clause ← Clause.ofJson? field.2
  some (id, clause)

theorem table_of_entries (fields : List (Quoted × Json)) :
    table? (.object fields) = (fields.mapM numbered?).map fun entries => .ofList entries :=
  Option.map_eq_bind.symm

theorem table_of_written (entries : List (ClauseId × Clause)) :
    table? (record (entries.map fun (id, clause) => (toString id, clause.toJson))) =
      some (.ofList entries) := by
  have read : ((entries.map fun entry => (toString entry.1, entry.2.toJson)).map
      fun field => (Quoted.ofText field.1, field.2)).mapM numbered? = some entries := by
    rw [List.map_map]
    exact read_written fun _ _ => by simp [numbered?, key_of_id, Clause.of_json_to_json]
  rw [record, table_of_entries, read, Option.map_some]

theorem table_of_nodes (table : Table) : table? (nodes table) = some table := by
  rw [nodes, table_of_written, map_of_list]

theorem of_own_table {derivation : Derivation} (coherent : derivation.Coherent) :
    ofTable derivation.table = .ok derivation := by
  rw [ofTable, (mismatch_none_iff _).mpr (coherent_keyed coherent)]
  change ofClosedTable derivation.table = .ok derivation
  rw [ofClosedTable, (dangling_none_iff _).mpr (coherent_closed coherent)]
  exact congrArg Except.ok (assemble_table coherent)

def decoded (table : Option Table) : Except DecodeError Derivation :=
  match table with
  | none => .error .malformed
  | some table => (ofTable table).mapError .flawed

theorem of_own_json {derivation : Derivation} (coherent : derivation.Coherent) :
    ofJson derivation.toJson = .ok derivation := by
  have distinct : ([("nodes", nodes derivation.table),
      ("leaves", ofWords derivation.leaves.toList)].map Prod.fst).Nodup := by simp
  have members : members? ["nodes"] false derivation.toJson =
      some [some (nodes derivation.table)] := members_record distinct
  rw [ofJson, members]
  change decoded (table? (nodes derivation.table)) = .ok derivation
  rw [table_of_nodes, decoded, of_own_table coherent]
  rfl

end OwnRecord

section Indexes

def bareTable (table : Table) : Table := table.map fun _ clause => clause.bare

def bareEntry (entry : ClauseId × Clause) : ClauseId × Clause := (entry.1, entry.2.bare)

theorem mismatch_bare (table : Table) : keyMismatch? (bareTable table) = keyMismatch? table := by
  rw [keyMismatch?, bareTable, Std.ExtTreeMap.toList_map, List.findSome?_map]
  rfl

theorem dangling_bare (table : Table) :
    danglingParent? (bareTable table) = danglingParent? table := by
  have missing (clause : Clause) :
      missingParent? (bareTable table) clause.bare = missingParent? table clause := by
    simp only [missingParent?, bareTable, Std.ExtTreeMap.contains_map]
    rfl
  have entries : (bareTable table).toList = table.toList.map bareEntry :=
    Std.ExtTreeMap.toList_map
  rw [danglingParent?, danglingParent?, entries, List.findSome?_map]
  refine congrArg (List.findSome? · table.toList) (funext fun entry => ?_)
  exact congrArg (Option.map (Flaw.danglingParent entry.2.id)) (missing entry.2)

theorem children_bare (table : Table) :
    childrenByParent (bareTable table) = childrenByParent table := by
  rw [childrenByParent, childrenByParent, bareTable, Std.ExtTreeMap.foldl_eq_foldl_toList,
    Std.ExtTreeMap.foldl_eq_foldl_toList, Std.ExtTreeMap.toList_map, List.foldl_map]
  rfl

theorem assemble_bare (table : Table) : assemble (bareTable table) = assemble table := by
  rw [assemble, children_bare, bareTable, Std.ExtTreeMap.map_map, Std.ExtTreeMap.keys_map]
  rfl

/-- Neither the checks of a table nor what is assembled from it look at the children. -/
theorem of_bare_table (table : Table) : ofTable (bareTable table) = ofTable table := by
  rw [ofTable, ofTable, ofClosedTable, ofClosedTable, mismatch_bare, dangling_bare, assemble_bare]

theorem decoded_bare (table : Option Table) : decoded (table.map bareTable) = decoded table := by
  cases table with
  | none => rfl
  | some table => exact congrArg (Except.mapError DecodeError.flawed) (of_bare_table table)

theorem bare_insert (table : Table) (id : ClauseId) (clause : Clause) :
    bareTable (table.insert id clause) = (bareTable table).insert id clause.bare := by
  refine Std.ExtTreeMap.ext_getElem? fun other => ?_
  rw [bareTable, Std.ExtTreeMap.getElem?_map, get_insert, get_insert, bareTable,
    Std.ExtTreeMap.getElem?_map]
  split <;> rfl

theorem bare_of_list (entries : List (ClauseId × Clause)) :
    bareTable (.ofList entries) = .ofList (entries.map bareEntry) := by
  have empty : bareTable ∅ = ∅ := Std.ExtTreeMap.ext_getElem? fun _ => by simp [bareTable]
  rw [Std.ExtTreeMap.ofList_eq_foldl, Std.ExtTreeMap.ofList_eq_foldl, List.foldl_map, ← empty]
  refine (List.foldl_hom bareTable fun table entry => ?_).symm
  exact (bare_insert table entry.1 entry.2).symm

theorem bare_of_read (read : Option (List (ClauseId × Clause))) :
    (read.map fun entries => (.ofList entries : Table)).map bareTable =
      (read.map (List.map bareEntry)).map fun entries => .ofList entries := by
  cases read with
  | none => rfl
  | some entries => exact congrArg some (bare_of_list entries)

def withoutChildren : Json → Json
  | .object fields => .object (fields.map fun (key, value) => (key, Clause.withoutChildren value))
  | value => value

/-- The record of a derivation, whatever it says of children and leaves. -/
def withoutIndexes (value : Json) : Json :=
  dropMember "leaves" (changeMember ["nodes"] "nodes" withoutChildren value)

theorem entry_without_children (field : Quoted × Json) :
    (numbered? (field.1, Clause.withoutChildren field.2)).map bareEntry =
      (numbered? field).map bareEntry := by
  refine same_after (fun id => ?_) (key? field.1)
  have named (read : Option Clause) : (read >>= fun clause => some (id, clause)).map bareEntry =
      (read.map Clause.bare).map (id, ·) := by
    cases read <;> rfl
  rw [named, named, Clause.bare_without_children]

theorem table_without_children (value : Json) :
    (table? (withoutChildren value)).map bareTable = (table? value).map bareTable := by
  cases value with
  | object fields =>
    rw [withoutChildren, table_of_entries, table_of_entries, bare_of_read, bare_of_read,
      List.mapM_map]
    exact congrArg _ (same_in_sequence entry_without_children fields)
  | _ => rfl

theorem of_json_without_indexes (value : Json) : ofJson (withoutIndexes value) = ofJson value := by
  have place : ["nodes"].idxOf "nodes" = 0 := by simp
  change decoded _ = decoded (members? ["nodes"] false value >>= _)
  -- Both tables are compared without children, which is all that `decoded` looks at.
  rw [← decoded_bare, withoutIndexes, members_drop (by simp), members_change _ (by simp), place,
    ← decoded_bare (members? ["nodes"] false value >>= _)]
  refine congrArg decoded ?_
  cases members? ["nodes"] false value with
  | none => rfl
  | some members =>
    rcases members with _ | ⟨_ | nodes, rest⟩
    · rfl
    · rfl
    · exact table_without_children nodes

end Indexes

/-- A derivation is read back from its own record, and of two records that agree but for numbers of
children and the leaves the same is read. -/
theorem json_round_trip :
    (∀ derivation, Obtained derivation → ofJson derivation.toJson = .ok derivation) ∧
      ∀ value other, withoutIndexes value = withoutIndexes other →
        ofJson value = ofJson other := by
  constructor
  · -- Each step starts from a derivation that is read back, hence coherent.
    intro derivation obtained
    induction obtained with
    | clauses _ _ given => exact of_own_json (clauses_coherent given)
    | table _ _ given => exact of_own_json (table_coherent given)
    | json _ _ read => exact of_own_json (json_coherent read)
    | text _ _ read => exact of_own_json (text_coherent read)
    | events _ _ _ built clear => exact of_own_json (events_coherent built clear)
    | ancestors source _ _ clear ids view ih =>
      obtain ⟨_, rfl⟩ := (request_ok_iff source ids _ _).mp view
      exact of_own_json (ancestor_closure_coherent (json_coherent ih) clear _)
    | descendants source _ _ clear ids view ih =>
      obtain ⟨_, rfl⟩ := (request_ok_iff source ids _ _).mp view
      exact of_own_json (descendant_closure_coherent (json_coherent ih) clear _)
    | activated source _ clear ih =>
      exact of_own_json (activated_part_coherent (json_coherent ih) clear)
    | contracted source _ clear rule ih =>
      exact of_own_json (contract_coherent rule (json_coherent ih) clear)
  · intro value other same
    rw [← of_json_without_indexes value, same, of_json_without_indexes]

def loneRecord (children leaves : List ClauseId) : Json :=
  record [
    ("nodes", record [("1", record [("number", ofWord 1), ("clause", Json.ofText "p"),
      ("inference_rule", Json.ofText "input"), ("children", ofWords children)])]),
    ("leaves", ofWords leaves)]

theorem lone_record_indexes (children leaves : List ClauseId) :
    withoutIndexes (loneRecord children leaves) = withoutIndexes (loneRecord [] []) := by
  have emptied (ids : List ClauseId) : emptyWords (ofWords ids) = .array [] := by
    rw [emptyWords, words_of_words]
    rfl
  simp [loneRecord, withoutIndexes, withoutChildren, Clause.withoutChildren, changeMember,
    dropMember, record, Quoted.ofText, emptied]

theorem given_chain_round_trip : (∃ derivation, ofClauses givenChain = .ok derivation ∧
      ofJson derivation.toJson = .ok derivation) ∧
    withoutIndexes (loneRecord [7] [9]) = withoutIndexes (loneRecord [] [1]) ∧
    ofJson (loneRecord [7] [9]) = ofJson (loneRecord [] [1]) := by
  obtain ⟨derivation, given⟩ : ∃ derivation, ofClauses givenChain = .ok derivation := ⟨_, rfl⟩
  have same : withoutIndexes (loneRecord [7] [9]) = withoutIndexes (loneRecord [] [1]) := by
    rw [lone_record_indexes, lone_record_indexes [] [1]]
  exact ⟨⟨derivation, given, json_round_trip.1 derivation (.clauses _ _ given)⟩, same,
    json_round_trip.2 _ _ same⟩

end Derivation
end DerivationReplay
