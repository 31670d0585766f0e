import DerivationReplay.Event.Line
import DerivationReplay.Proofs.Chronicle
import Mathlib.Data.List.Basic

/-!
The headers of lines. Four forms of a header are told apart by what stands before the number of the
clause; a line has at most one of them, and it is the one that is read.
-/
namespace DerivationReplay.Event
open Text

inductive Form
  | plain
  | search
  | reduction
  | detail
deriving DecidableEq, Repr

inductive Header : Form → EventKind → List Char → Prop
  | plain : Header .plain .preprocessing []
  | search {kind : EventKind}
      (reported : kind ∈ [.new, .passive, .active, .forwardReduction, .backwardReduction]) :
      Header .search kind ("[SA] " ++ kind.phrase ++ ": ").toList
  | reduction {kind : EventKind} {blanks colon : List Char} (reduces : kind.reduces)
      (blank : ∀ c ∈ blanks, isBlank c) (optional : colon = [] ∨ colon = [':']) :
      Header .reduction kind (blanks ++ (kind.phrase.toList ++ colon ++ [' ']))
  | detail {kind : EventKind} {blanks : List Char} (details : kind.details)
      (blank : ∀ c ∈ blanks, isBlank c) :
      Header .detail kind (blanks ++ (kind.phrase.toList ++ [' ']))

theorem headed_prefix {headers : List (String × EventKind)} {line text : List Char}
    {kind : EventKind} (read : headed? headers line = some (kind, text)) :
    ∃ header, (header, kind) ∈ headers ∧ line = header.toList ++ text := by
  obtain ⟨⟨header, named⟩, listed, found⟩ := List.exists_of_findSome?_eq_some read
  obtain ⟨rest, start, same⟩ := Option.map_eq_some_iff.mp found
  cases same
  exact ⟨header, listed, (List.append_eq_of_isPrefixOf?_eq_some start).symm⟩

theorem search_header {header : String} {kind : EventKind}
    (listed : (header, kind) ∈ searchHeaders) : Header .search kind header.toList := by
  simp only [searchHeaders, List.mem_cons, Prod.mk.injEq, List.not_mem_nil, or_false] at listed
  rcases listed with ⟨rfl, rfl⟩ | ⟨rfl, rfl⟩ | ⟨rfl, rfl⟩ | ⟨rfl, rfl⟩ | ⟨rfl, rfl⟩
  all_goals exact .search (by decide)

theorem reduction_header {header : String} {kind : EventKind} {blanks : List Char}
    (listed : (header, kind) ∈ reductionHeaders) (blank : ∀ c ∈ blanks, isBlank c) :
    ∃ form, Header form kind (blanks ++ header.toList) := by
  simp only [reductionHeaders, List.mem_cons, Prod.mk.injEq, List.not_mem_nil, or_false] at listed
  rcases listed with ⟨rfl, rfl⟩ | ⟨rfl, rfl⟩ | ⟨rfl, rfl⟩ | ⟨rfl, rfl⟩ | ⟨rfl, rfl⟩ | ⟨rfl, rfl⟩
  · exact ⟨_, .reduction rfl blank (.inr rfl)⟩
  · exact ⟨_, .reduction rfl blank (.inl rfl)⟩
  · exact ⟨_, .reduction rfl blank (.inr rfl)⟩
  · exact ⟨_, .reduction rfl blank (.inl rfl)⟩
  · exact ⟨_, .detail rfl blank⟩
  · exact ⟨_, .detail rfl blank⟩

theorem header_of_read {line text : List Char} {kind : EventKind}
    (read : header? line = some (kind, text)) :
    ∃ form header, Header form kind header ∧ line = header ++ text := by
  unfold header? at read
  split at read
  · cases read
    exact ⟨.plain, [], .plain, rfl⟩
  · rcases Option.or_eq_some_iff.mp read with read | ⟨_, read⟩
    · obtain ⟨header, listed, whole⟩ := headed_prefix read
      exact ⟨.search, header.toList, search_header listed, whole⟩
    · obtain ⟨header, listed, rest⟩ := headed_prefix read
      have blank : ∀ c ∈ line.takeWhile isBlank, isBlank c := fun c => List.mem_takeWhile_imp
      obtain ⟨form, formed⟩ := reduction_header listed blank
      refine ⟨form, _, formed, ?_⟩
      rw [List.append_assoc, ← rest]
      exact List.takeWhile_append_dropWhile.symm

def blankPoints : List Nat :=
  List.range' 0x9 5 ++ [0x20, 0x85, 0xa0, 0x1680] ++ List.range' 0x2000 11 ++
    [0x2028, 0x2029, 0x202f, 0x205f, 0x3000]

theorem blank_not_digit {c : Char} (blank : isBlank c) : isDigit c = false := by
  have point : c.toNat ∈ blankPoints := by
    simp only [isBlank, Bool.or_eq_true, Bool.and_eq_true, decide_eq_true_eq, beq_iff_eq] at blank
    simp only [blankPoints, List.mem_append, List.mem_range'_1, List.mem_cons, List.not_mem_nil,
      or_false]
    omega
  have apart : ∀ point ∈ blankPoints, ∀ first ∈ digitZeros,
      ¬ (first ≤ point ∧ point < first + 10) := by
    decide +kernel
  refine List.any_eq_false.mpr fun first listed => ?_
  simpa using apart c.toNat point first listed

theorem search_bracket {kind : EventKind} {header : List Char}
    (headed : Header .search kind header) : header.head? = some '[' := by
  cases headed
  cases kind <;> rfl

theorem indented_head {blanks rest : List Char} {c : Char} (blank : ∀ c ∈ blanks, isBlank c)
    (other : isDigit c = false) (bracket : c ≠ '[') :
    ∃ first tail, blanks ++ c :: rest = first :: tail ∧ isDigit first = false ∧ first ≠ '[' := by
  cases blanks with
  | nil => exact ⟨c, rest, rfl, other, bracket⟩
  | cons first blanks =>
    have gap := blank first List.mem_cons_self
    refine ⟨first, blanks ++ c :: rest, rfl, blank_not_digit gap, ?_⟩
    rintro rfl
    cases gap

theorem read_after_blanks {blanks rest : List Char} {c : Char} (blank : ∀ c ∈ blanks, isBlank c)
    (apart : isBlank c = false) (other : isDigit c = false) (bracket : c ≠ '[') :
    header? (blanks ++ c :: rest) = headed? reductionHeaders (c :: rest) := by
  have skipped : trimStart (blanks ++ c :: rest) = c :: rest := by
    rw [trimStart, List.dropWhile_append_of_pos blank, List.dropWhile_cons_of_neg (by simp [apart])]
  obtain ⟨first, tail, start, digit, unlike⟩ := indented_head blank other bracket
  have unsearched : headed? searchHeaders (blanks ++ c :: rest) = none := by
    refine Option.eq_none_iff_forall_ne_some.mpr fun (kind, text) read => ?_
    obtain ⟨header, listed, whole⟩ := headed_prefix read
    have opened := search_bracket (search_header listed)
    rw [start] at whole
    cases cut : header.toList with
    | nil => simp [cut] at opened
    | cons d header => simp_all
  rw [header?, unsearched, skipped, start]
  simp [digit]

theorem read_header {form : Form} {kind : EventKind} {header text : List Char}
    (headed : Header form kind header) (digit : (text.head?.map isDigit).getD false = true) :
    header? (header ++ text) = some (kind, text) := by
  cases headed with
  | plain => exact if_pos digit
  | search reported =>
    cases kind
    all_goals first | rfl | exact absurd reported (by decide)
  | reduction reduces blank optional =>
    rw [List.append_assoc]
    rcases (kind.reduces_iff).mp reduces with rfl | rfl <;> rcases optional with rfl | rfl
    all_goals exact (read_after_blanks blank (by decide) (by decide) (by decide)).trans rfl
  | detail details blank =>
    rw [List.append_assoc]
    rcases (kind.details_iff).mp details with rfl | rfl
    all_goals exact (read_after_blanks blank (by decide) (by decide) (by decide)).trans rfl

/-- The form is told from the kind of event and from the first character. -/
def formOf (kind : EventKind) (header : List Char) : Form :=
  if kind = .preprocessing then .plain
  else if kind.details then .detail
  else if header.head? = some '[' then .search
  else .reduction

theorem form_of_header {form : Form} {kind : EventKind} {header : List Char}
    (headed : Header form kind header) : form = formOf kind header := by
  cases headed with
  | plain => rfl
  | search reported =>
    cases kind
    all_goals first | rfl | exact absurd reported (by decide)
  | @reduction kind blanks colon reduces blank optional =>
    have unlike : ∀ c rest, isDigit c = false → c ≠ '[' →
        (blanks ++ c :: rest).head? ≠ some '[' := by
      intro c rest other bracket
      obtain ⟨first, tail, start, _, apart⟩ := indented_head blank other bracket
      rw [start]
      exact fun same => apart (Option.some.inj same)
    rcases (kind.reduces_iff).mp reduces with rfl | rfl
    all_goals exact (if_neg (unlike _ _ (by decide) (by decide))).symm
  | detail details blank =>
    rcases (kind.details_iff).mp details with rfl | rfl <;> rfl

end DerivationReplay.Event
