import DerivationReplay.Clause.Numbering
import DerivationReplay.Json.Record
import Mathlib.Data.List.Nodup

/-!
Fields of JSON records. A record that is written with some of its fields left out is read with these
absent, fields that are not asked for make no difference, and a change of one field changes only
what is read for it.
-/
namespace DerivationReplay

theorem map_of_list {α β : Type} [DecidableEq α] [Ord α] [Std.TransOrd α] [Std.LawfulEqOrd α]
    (map : Std.ExtTreeMap α β compare) : .ofList map.toList = map := by
  have apart : map.toList.Pairwise fun first second => ¬ compare first.1 second.1 = .eq :=
    Std.ExtTreeMap.distinct_keys_toList
  refine Std.ExtTreeMap.ext_getElem? fun key => ?_
  cases found : map[key]? with
  | some value =>
    exact Std.ExtTreeMap.getElem?_ofList_of_mem Std.ReflCmp.compare_self apart
      (Std.ExtTreeMap.mem_toList_iff_getElem?_eq_some.mpr found)
  | none =>
    have missing : key ∉ map := by
      rw [Std.ExtTreeMap.mem_iff_isSome_getElem?, found]
      exact Bool.false_ne_true
    refine Std.ExtTreeMap.getElem?_eq_none fun mem => missing ?_
    rwa [Std.ExtTreeMap.mem_ofList, Std.ExtTreeMap.map_fst_toList_eq_keys, List.contains_iff_mem,
      Std.ExtTreeMap.mem_keys] at mem

theorem set_of_list (ids : ClauseIds) : Std.ExtTreeSet.ofList ids.toList compare = ids := by
  refine Std.ExtTreeSet.ext_mem fun id => ?_
  rw [Std.ExtTreeSet.mem_ofList, List.contains_iff_mem, Std.ExtTreeSet.mem_toList]

section Sequences
variable {α β γ : Type}

theorem read_written {write : α → β} {read : β → Option α} {items : List α}
    (each : ∀ item ∈ items, read (write item) = some item) :
    (items.map write).mapM read = some items := by
  induction items with
  | nil => rfl
  | cons item items ih =>
    rw [List.map_cons, List.mapM_cons, each item List.mem_cons_self,
      ih fun other mem => each other (List.mem_cons_of_mem item mem)]
    rfl

/-! Two ways to decode that agree on what is looked at. -/

variable {look : β → γ}

theorem same_after {first second : α → Option β}
    (same : ∀ value, (first value).map look = (second value).map look) (decoded : Option α) :
    (decoded >>= first).map look = (decoded >>= second).map look := by
  cases decoded with
  | none => rfl
  | some value => exact same value

theorem same_after_either {after : α → Option β} {first second : Option α}
    (both : first.isSome = second.isSome)
    (same : ∀ value other, (after value).map look = (after other).map look) :
    (first >>= after).map look = (second >>= after).map look := by
  cases first <;> cases second
  · rfl
  · cases both
  · cases both
  · exact same _ _

theorem same_in_sequence {first second : α → Option β}
    (same : ∀ item, (first item).map look = (second item).map look) (items : List α) :
    (items.mapM first).map (List.map look) = (items.mapM second).map (List.map look) := by
  induction items with
  | nil => rfl
  | cons item items ih =>
    have looked (decode : α → Option β) : ((item :: items).mapM decode).map (List.map look) =
        ((decode item).map look).bind fun first =>
          ((items.mapM decode).map (List.map look)).map (first :: ·) := by
      rw [List.mapM_cons]
      cases decode item with
      | none => rfl
      | some value => cases items.mapM decode <;> rfl
    rw [looked, looked, same, ih]

end Sequences

namespace Json

def present (fields : List (String × Option Json)) : List (String × Json) :=
  fields.filterMap fun (name, value) => value.map (name, ·)

theorem present_nil : present [] = [] := rfl

theorem present_cons (name : String) (value : Option Json)
    (fields : List (String × Option Json)) :
    present ((name, value) :: fields) = (value.map (name, ·)).toList ++ present fields := by
  cases value <;> rfl

theorem present_names (fields : List (String × Option Json)) :
    ((present fields).map Prod.fst).Sublist (fields.map Prod.fst) := by
  induction fields with
  | nil => exact .slnil
  | cons field fields ih =>
    obtain ⟨name, value⟩ := field
    cases value with
    | none => exact ih.cons name
    | some value => exact ih.cons_cons name

theorem lookup_present {fields : List (String × Option Json)}
    (distinct : (fields.map Prod.fst).Nodup) {name : String} {value : Option Json}
    (mem : (name, value) ∈ fields) : (present fields).lookup name = value := by
  induction fields with
  | nil => cases mem
  | cons field fields ih =>
    obtain ⟨first, held⟩ := field
    obtain ⟨fresh, distinct⟩ := List.nodup_cons.mp distinct
    rcases List.mem_cons.mp mem with same | mem
    · cases same
      cases value with
      | some value => exact List.lookup_cons_self
      | none =>
        refine List.lookup_eq_none_iff.mpr fun other listed => ?_
        have known := (present_names fields).subset (List.mem_map.mpr ⟨other, listed, rfl⟩)
        have different : name ≠ other.1 := fun same => fresh (same ▸ known)
        simpa using different
    · have different : name ≠ first :=
        fun same => fresh (same ▸ List.mem_map.mpr ⟨_, mem, rfl⟩)
      rw [← ih distinct mem]
      cases held with
      | none => rfl
      | some held =>
        have other : (name == first) = false := by simpa using different
        simp [present, List.lookup_cons, other]

theorem named_written (fields : List (String × Json)) :
    named? (fields.map fun (name, value) => (.ofText name, value)) = some fields :=
  read_written fun _ _ => rfl

theorem members_length {names : List String} {closed : Bool} {value : Json}
    {members : List (Option Json)} (read : members? names closed value = some members) :
    members.length = names.length := by
  unfold members? at read
  split at read
  · split at read
    · cases read
      rw [List.length_append, List.length_map, List.length_replicate]
      omega
    · cases read
  · simp only [Option.bind_eq_bind, Option.bind_eq_some_iff] at read
    obtain ⟨named, _, found⟩ := read
    split at found
    · cases found
    · split at found
      · cases found
      · cases found
        exact List.length_map _
  · cases read

theorem members_record {names : List String} {fields : List (String × Json)}
    (distinct : (fields.map Prod.fst).Nodup) :
    members? names false (record fields) = some (names.map (List.lookup · fields)) := by
  have once : ¬ (names.any fun name => fields.countP (·.1 = name) > 1) = true := by
    intro twice
    obtain ⟨name, _, more⟩ := List.any_eq_true.mp twice
    have few := List.nodup_iff_count.mp distinct name
    rw [List.count, List.countP_map] at few
    rw [decide_eq_true_eq] at more
    have same : fields.countP (fun field => decide (field.1 = name)) =
        fields.countP ((fun other => other == name) ∘ Prod.fst) := rfl
    omega
  rw [record, members?, named_written, Option.bind_eq_bind, Option.bind_some,
    Bool.false_and, if_neg Bool.false_ne_true, if_neg once]

theorem members_present {names : List String} {values : List (Option Json)}
    (distinct : names.Nodup) (length : values.length = names.length) :
    members? names false (record (present (names.zip values))) = some values := by
  have keys : ((names.zip values).map Prod.fst) = names := List.map_fst_zip (by omega)
  rw [members_record ((keys.symm ▸ distinct).sublist (present_names _)), Option.some.injEq]
  refine List.ext_getElem (by simp [length]) fun place inside there => ?_
  rw [List.getElem_map]
  rw [List.length_map] at inside
  refine lookup_present (keys.symm ▸ distinct) (List.mem_iff_getElem.mpr ⟨place, ?_, ?_⟩)
  · rw [List.length_zip]
    omega
  · simp

def changeMember (names : List String) (name : String) (change : Json → Json) : Json → Json
  | .array items => .array (items.modify (names.idxOf name) change)
  | .object fields => .object (fields.map fun (key, value) =>
      (key, if key.text = some name then change value else value))
  | value => value

def dropMember (name : String) : Json → Json
  | .object fields => .object (fields.filter fun field => field.1.text ≠ some name)
  | value => value

def emptyWords (value : Json) : Json :=
  if (list? word? value).isSome then .array [] else value

def given (name : String) (fields : List (String × Json)) : List Json :=
  (fields.filter (·.1 = name)).map Prod.snd

def single? (found : List (List Json)) : Option (List (Option Json)) :=
  if found.any (·.length > 1) then none else some (found.map List.head?)

theorem given_cons (name key : String) (value : Json) (fields : List (String × Json)) :
    given name ((key, value) :: fields) =
      if key = name then value :: given name fields else given name fields := by
  by_cases same : key = name <;> simp [given, same]

theorem lookup_given (name : String) (fields : List (String × Json)) :
    fields.lookup name = (given name fields).head? := by
  induction fields with
  | nil => rfl
  | cons field fields ih =>
    obtain ⟨key, value⟩ := field
    rw [given_cons, List.lookup_cons, ih]
    by_cases same : key = name
    · simp [same]
    · have other : (name == key) = false := by simpa using Ne.symm same
      simp [same, other]

/-- The members of an object are what it gives for each of the names. -/
theorem members_object (names : List String) (fields : List (Quoted × Json)) :
    members? names false (.object fields) =
      (named? fields).bind fun named => single? (names.map (given · named)) := by
  have count (name : String) (named : List (String × Json)) :
      named.countP (·.1 = name) = (given name named).length := by
    rw [given, List.length_map, List.countP_eq_length_filter]
  simp only [members?, single?, count, lookup_given, Bool.false_and, Bool.false_eq_true,
    ↓reduceIte, List.any_map, List.map_map]
  rfl

theorem named_cons (key : Quoted) (value : Json) (fields : List (Quoted × Json)) :
    named? ((key, value) :: fields) =
      key.text.bind fun text => (named? fields).map ((text, value) :: ·) := by
  obtain ⟨text, escaped⟩ := key
  simp only [named?, List.mapM_cons]
  cases text with
  | none => rfl
  | some text => cases fields.mapM fun (name, value) => name.text.map (·, value) <;> rfl

section Drop
variable (name : String)

theorem named_drop (fields : List (Quoted × Json)) :
    named? (fields.filter fun field => field.1.text ≠ some name) =
      (named? fields).map (List.filter (·.1 ≠ name)) := by
  induction fields with
  | nil => rfl
  | cons field fields ih =>
    obtain ⟨⟨text, escaped⟩, value⟩ := field
    cases text with
    | none => simp [named_cons]
    | some text =>
      rw [named_cons, Option.bind_some, Option.map_map]
      by_cases same : text = name
      · simpa [same, Function.comp_def] using ih
      · rw [List.filter_cons_of_pos (by simpa using same), named_cons, Option.bind_some, ih,
          Option.map_map]
        simp [same, Function.comp_def]

theorem given_drop {name other : String} (different : other ≠ name)
    (fields : List (String × Json)) :
    given other (fields.filter (·.1 ≠ name)) = given other fields := by
  rw [given, given, List.filter_filter]
  refine congrArg _ (List.filter_congr fun field _ => ?_)
  by_cases same : field.1 = other <;> simp [same, different]

theorem members_drop {names : List String} {name : String} (other : name ∉ names) (value : Json) :
    members? names false (dropMember name value) = members? names false value := by
  cases value with
  | object fields =>
    rw [dropMember, members_object, members_object, named_drop, Option.bind_map]
    refine congrArg _ (funext fun named => congrArg single? (List.map_congr_left ?_))
    exact fun wanted mem => given_drop (ne_of_mem_of_not_mem mem other) named
  | _ => rfl

end Drop

section Change
variable (names : List String) (name : String) (change : Json → Json)

theorem named_change (fields : List (Quoted × Json)) :
    named? (fields.map fun (key, value) =>
      (key, if key.text = some name then change value else value)) =
      (named? fields).map (List.map fun (key, value) =>
        (key, if key = name then change value else value)) := by
  induction fields with
  | nil => rfl
  | cons field fields ih =>
    obtain ⟨⟨text, escaped⟩, value⟩ := field
    rw [List.map_cons, named_cons, named_cons, ih]
    cases text with
    | none => rfl
    | some text => simp [Function.comp_def]

theorem given_change (other : String) (fields : List (String × Json)) :
    given other (fields.map fun (key, value) =>
        (key, if key = name then change value else value)) =
      (given other fields).map fun value => if other = name then change value else value := by
  induction fields with
  | nil => rfl
  | cons field fields ih =>
    obtain ⟨key, value⟩ := field
    rw [List.map_cons, given_cons, given_cons, ih]
    by_cases same : key = other <;> simp [same]

theorem any_twice_modify (found : List (List Json)) (place : Nat) :
    (found.modify place (List.map change)).any (·.length > 1) = found.any (·.length > 1) := by
  induction found generalizing place with
  | nil => simp
  | cons values found ih => cases place <;> simp [ih]

theorem heads_modify (found : List (List Json)) (place : Nat) :
    (found.modify place (List.map change)).map List.head? =
      (found.map List.head?).modify place (Option.map change) := by
  induction found generalizing place with
  | nil => simp
  | cons values found ih => cases place <;> simp [ih]

theorem single_modify (found : List (List Json)) (place : Nat) :
    single? (found.modify place (List.map change)) =
      (single? found).map (·.modify place (Option.map change)) := by
  rw [single?, single?, any_twice_modify, heads_modify]
  split <;> rfl

theorem modify_absent (count place : Nat) :
    (List.replicate count none).modify place (Option.map change) = List.replicate count none := by
  induction count generalizing place with
  | zero => simp
  | succ count ih => cases place <;> simp [List.replicate_succ, ih]

theorem modify_padded (items : List Json) (count place : Nat) :
    (items.modify place change).map some ++ List.replicate count none =
      (items.map some ++ List.replicate count none).modify place (Option.map change) := by
  induction items generalizing place with
  | nil => simp [modify_absent]
  | cons item items ih => cases place <;> simp [ih]

variable {names name}

theorem place_of_name (distinct : names.Nodup) {place : Nat} (inside : place < names.length) :
    names[place] = name ↔ names.idxOf name = place := by
  constructor
  · rintro rfl
    exact distinct.idxOf_getElem place inside
  · rintro rfl
    exact List.getElem_idxOf inside

/-- The changed field is read as the change of what was read. -/
theorem members_change (distinct : names.Nodup) (value : Json) :
    members? names false (changeMember names name change value) =
      (members? names false value).map (·.modify (names.idxOf name) (Option.map change)) := by
  cases value with
  | array items =>
    simp only [changeMember, members?, List.length_modify]
    split
    · rw [modify_padded, Option.map_some]
    · rfl
  | object fields =>
    rw [changeMember, members_object, members_object, named_change, Option.bind_map,
      Option.map_bind]
    refine congrArg _ (funext fun named => ?_)
    rw [Function.comp_apply, Function.comp_apply, ← single_modify]
    refine congrArg single? (List.ext_getElem (by simp) fun place inside _ => ?_)
    rw [List.length_map] at inside
    rw [List.getElem_map, given_change, List.getElem_modify, List.getElem_map]
    by_cases same : names[place] = name
    · simp [same, (place_of_name distinct inside).mp same]
    · simp [same, mt (place_of_name distinct inside).mpr same]
  | _ => rfl

end Change
end Json
end DerivationReplay
