import DerivationReplay.Proofs.Chronicle
import Mathlib.Data.List.Induction

/-!
The language of the chronicles that a recorder accepts: what the events of one clause keep to,
whatever the events of other clauses stand between them, and how one more event stays inside it.
-/
namespace DerivationReplay
namespace Chronicle

def ofClause (id : ClauseId) (told : List Event) : List Event := told.filter (·.concerns id)

def Preceded (earlier later : Event → Prop) (told : List Event) : Prop :=
  ∀ before event after, told = before ++ event :: after → later event →
    ∃ other ∈ before, earlier other

def Repeats (own : List Event) (event : Event) : Prop :=
  ∀ first ∈ own.head?, event.rule = first.rule ∧ event.parents = first.parents

structure Ordered (own : List Event) : Prop where
  opening : ∀ first ∈ own.head?, first.kind = .preprocessing ∨ first.kind = .new
  preprocessing_first : ∀ later ∈ own.tail, later.kind ≠ .preprocessing
  new_once : own.countP (·.kind = .new) ≤ 1
  passive_once : own.countP (·.kind = .passive) ≤ 1
  active_once : own.countP (·.kind = .active) ≤ 1
  reduced_once : own.countP (·.kind.reduces) ≤ 1
  new_before_passive : Preceded (·.kind = .new) (·.kind = .passive) own
  passive_before_active : Preceded (·.kind = .passive) (·.kind = .active) own
  new_before_reduction : Preceded (·.kind = .new) (·.kind.reduces = true) own
  restated : ∀ later ∈ own.tail, later.kind.declares = true → Repeats own later

structure Lawful (told : List Event) : Prop where
  ordered : ∀ id, Ordered (ofClause id told)
  details : Preceded (·.kind.reduces = true) (·.kind.details = true) told

/-- What one more event of a clause needs from the earlier ones. -/
structure Allowed (own : List Event) (event : Event) : Prop where
  opens : own = [] → event.kind = .preprocessing ∨ event.kind = .new
  preprocessing : event.kind = .preprocessing → own = []
  new : event.kind = .new → ∀ other ∈ own, other.kind ≠ .new
  passive : event.kind = .passive →
    (∃ other ∈ own, other.kind = .new) ∧ ∀ other ∈ own, other.kind ≠ .passive
  active : event.kind = .active →
    (∃ other ∈ own, other.kind = .passive) ∧ ∀ other ∈ own, other.kind ≠ .active
  reduction : event.kind.reduces = true →
    (∃ other ∈ own, other.kind = .new) ∧ ∀ other ∈ own, other.kind.reduces = false
  restates : event.kind.declares = true → Repeats own event

def Admissible (told : List Event) (event : Event) : Prop :=
  if event.kind.details then ∃ other ∈ told, other.kind.reduces = true
  else Allowed (ofClause event.id told) event

section Snoc
variable (told own : List Event) (event : Event)

theorem of_clause_snoc (id : ClauseId) : ofClause id (told ++ [event]) =
    ofClause id told ++ if event.concerns id then [event] else [] := by
  rw [ofClause, ofClause, List.filter_append]
  cases hit : event.concerns id <;> simp [hit]

theorem preceded_snoc (earlier later : Event → Prop) : Preceded earlier later (told ++ [event]) ↔
    Preceded earlier later told ∧ (later event → ∃ other ∈ told, earlier other) := by
  constructor
  · intro preceded
    refine ⟨fun before other after split => preceded before other (after ++ [event]) ?_,
      preceded told event [] rfl⟩
    rw [split, List.append_assoc, List.cons_append]
  · rintro ⟨preceded, last⟩ before other after split
    rcases List.eq_nil_or_concat after with rfl | ⟨after, final, rfl⟩
    · obtain ⟨rfl, same⟩ := List.append_inj' split rfl
      cases same
      exact last
    · rw [List.concat_eq_append, ← List.cons_append, ← List.append_assoc] at split
      exact preceded before other after (List.append_inj' split rfl).1

theorem preceded_some {told : List Event} {earlier later : Event → Prop}
    (preceded : Preceded earlier later told) (some : ∃ event ∈ told, later event) :
    ∃ other ∈ told, earlier other := by
  obtain ⟨event, mem, hit⟩ := some
  obtain ⟨before, after, rfl⟩ := List.append_of_mem mem
  obtain ⟨other, mem, hit⟩ := preceded before event after rfl hit
  exact ⟨other, List.mem_append_left _ mem, hit⟩

theorem preceded_none {told : List Event} {earlier later : Event → Prop}
    (preceded : Preceded earlier later told) (none : ∀ event ∈ told, ¬ earlier event) :
    ∀ event ∈ told, ¬ later event := by
  intro event mem hit
  obtain ⟨other, mem, early⟩ := preceded_some preceded ⟨event, mem, hit⟩
  exact none other mem early

theorem once_snoc (kind : Event → Bool) : (own ++ [event]).countP kind ≤ 1 ↔
    own.countP kind ≤ 1 ∧ (kind event = true → ∀ other ∈ own, kind other = false) := by
  rw [List.countP_append, List.countP_singleton]
  cases hit : kind event
  · simp
  · have none : own.countP kind = 0 ↔ ∀ other ∈ own, kind other = false := by
      simp [List.countP_eq_zero]
    rw [← none]
    simp only [if_true, true_implies]
    omega

theorem head_snoc (first : Event) (head : first ∈ (own ++ [event]).head?) :
    own = [] ∧ first = event ∨ first ∈ own.head? := by
  cases own with
  | nil => exact .inl ⟨rfl, by simpa [eq_comm] using head⟩
  | cons => exact .inr head

theorem tail_snoc (later : Event) (mem : later ∈ (own ++ [event]).tail) :
    later ∈ own.tail ∨ own ≠ [] ∧ later = event := by
  cases own with
  | nil => cases mem
  | cons => simpa using mem

theorem mem_tail_snoc (later : Event) (mem : later ∈ own.tail) :
    later ∈ (own ++ [event]).tail := by
  cases own with
  | nil => cases mem
  | cons => exact List.mem_append_left _ mem

theorem last_mem_tail (some : own ≠ []) : event ∈ (own ++ [event]).tail := by
  cases own with
  | nil => exact absurd rfl some
  | cons => simp

theorem ordered_prefix (ordered : Ordered (own ++ [event])) : Ordered own where
  opening first head := ordered.opening first (by simp [Option.mem_def.mp head])
  preprocessing_first later mem :=
    ordered.preprocessing_first later (mem_tail_snoc own event later mem)
  new_once := ((once_snoc own event _).mp ordered.new_once).1
  passive_once := ((once_snoc own event _).mp ordered.passive_once).1
  active_once := ((once_snoc own event _).mp ordered.active_once).1
  reduced_once := ((once_snoc own event _).mp ordered.reduced_once).1
  new_before_passive := ((preceded_snoc own event _ _).mp ordered.new_before_passive).1
  passive_before_active := ((preceded_snoc own event _ _).mp ordered.passive_before_active).1
  new_before_reduction := ((preceded_snoc own event _ _).mp ordered.new_before_reduction).1
  restated later mem kind first head :=
    ordered.restated later (mem_tail_snoc own event later mem) kind first
      (by simp [Option.mem_def.mp head])

theorem allowed_last (ordered : Ordered (own ++ [event])) : Allowed own event where
  opens := by
    rintro rfl
    exact ordered.opening event rfl
  preprocessing kind := by
    by_contra some
    exact ordered.preprocessing_first event (last_mem_tail own event some) kind
  new kind := by
    have once := ((once_snoc own event _).mp ordered.new_once).2
    simpa [kind] using once
  passive kind := by
    have once := ((once_snoc own event _).mp ordered.passive_once).2
    exact ⟨((preceded_snoc own event _ _).mp ordered.new_before_passive).2 kind,
      by simpa [kind] using once⟩
  active kind := by
    have once := ((once_snoc own event _).mp ordered.active_once).2
    exact ⟨((preceded_snoc own event _ _).mp ordered.passive_before_active).2 kind,
      by simpa [kind] using once⟩
  reduction kind :=
    ⟨((preceded_snoc own event _ _).mp ordered.new_before_reduction).2 kind,
      ((once_snoc own event _).mp ordered.reduced_once).2 kind⟩
  restates kind first head := by
    have some : own ≠ [] := by
      rintro rfl
      cases head
    exact ordered.restated event (last_mem_tail own event some) kind first
      (by simp [Option.mem_def.mp head])

theorem ordered_append (ordered : Ordered own) (allowed : Allowed own event) :
    Ordered (own ++ [event]) where
  opening first head := by
    rcases head_snoc own event first head with ⟨none, rfl⟩ | head
    · exact allowed.opens none
    · exact ordered.opening first head
  preprocessing_first later mem := by
    rcases tail_snoc own event later mem with old | ⟨some, rfl⟩
    · exact ordered.preprocessing_first later old
    · intro kind
      exact some (allowed.preprocessing kind)
  new_once := (once_snoc own event _).mpr ⟨ordered.new_once, by simpa using allowed.new⟩
  passive_once := by
    refine (once_snoc own event _).mpr ⟨ordered.passive_once, fun kind => ?_⟩
    simpa using (allowed.passive (by simpa using kind)).2
  active_once := by
    refine (once_snoc own event _).mpr ⟨ordered.active_once, fun kind => ?_⟩
    simpa using (allowed.active (by simpa using kind)).2
  reduced_once :=
    (once_snoc own event _).mpr ⟨ordered.reduced_once, fun kind => (allowed.reduction kind).2⟩
  new_before_passive :=
    (preceded_snoc own event _ _).mpr
      ⟨ordered.new_before_passive, fun kind => (allowed.passive kind).1⟩
  passive_before_active :=
    (preceded_snoc own event _ _).mpr
      ⟨ordered.passive_before_active, fun kind => (allowed.active kind).1⟩
  new_before_reduction :=
    (preceded_snoc own event _ _).mpr
      ⟨ordered.new_before_reduction, fun kind => (allowed.reduction kind).1⟩
  restated later mem kind first head := by
    rcases tail_snoc own event later mem with old | ⟨some, rfl⟩
    · rcases head_snoc own event first head with ⟨rfl, _⟩ | opener
      · cases old
      · exact ordered.restated later old kind first opener
    · rcases head_snoc own later first head with ⟨none, _⟩ | opener
      · exact absurd none some
      · exact allowed.restates kind first opener

/-- Only the clause of the event, if it reports on one, gets a longer history. -/
theorem lawful_snoc : Lawful (told ++ [event]) ↔ Lawful told ∧ Admissible told event := by
  unfold Admissible
  constructor
  · intro lawful
    have details := (preceded_snoc told event _ _).mp lawful.details
    have ordered : ∀ id, Ordered (ofClause id told) := by
      intro id
      have longer := lawful.ordered id
      rw [of_clause_snoc] at longer
      split at longer
      · exact ordered_prefix _ event longer
      · rwa [List.append_nil] at longer
    refine ⟨⟨ordered, details.1⟩, ?_⟩
    split
    · rename_i kind
      exact details.2 kind
    · rename_i kind
      have longer := lawful.ordered event.id
      rw [of_clause_snoc, if_pos (by simp [Event.concerns, kind])] at longer
      exact allowed_last _ event longer
  · intro both
    obtain ⟨lawful, admissible⟩ := both
    refine ⟨fun id => ?_, (preceded_snoc told event _ _).mpr ⟨lawful.details, fun kind => ?_⟩⟩
    · rw [of_clause_snoc]
      split
      · rename_i concerns
        obtain ⟨kind, rfl⟩ : event.kind.details = false ∧ event.id = id := by
          simpa [Event.concerns] using concerns
        rw [if_neg (by simp [kind])] at admissible
        exact ordered_append _ event (lawful.ordered event.id) admissible
      · rw [List.append_nil]
        exact lawful.ordered id
    · rwa [if_pos kind] at admissible

end Snoc

section Admission
variable {own : List Event} {event : Event}

theorem allowed_preprocessing_iff (kind : event.kind = .preprocessing) :
    Allowed own event ↔ own = [] := by
  constructor
  · intro allowed
    exact allowed.preprocessing kind
  · rintro rfl
    constructor <;> simp [kind, EventKind.reduces, Repeats]

theorem allowed_new_iff (kind : event.kind = .new) :
    Allowed own event ↔ (∀ other ∈ own, other.kind ≠ .new) ∧ Repeats own event := by
  constructor
  · intro allowed
    exact ⟨allowed.new kind, allowed.restates (by simp [kind, EventKind.declares])⟩
  · intro needs
    obtain ⟨new, repeats⟩ := needs
    exact
      { opens := fun _ => .inr kind
        preprocessing := by simp [kind]
        new := fun _ => new
        passive := by simp [kind]
        active := by simp [kind]
        reduction := by simp [kind, EventKind.reduces]
        restates := fun _ => repeats }

theorem allowed_passive_iff (kind : event.kind = .passive) : Allowed own event ↔
    (∃ other ∈ own, other.kind = .new) ∧ (∀ other ∈ own, other.kind ≠ .passive) ∧
      Repeats own event := by
  constructor
  · intro allowed
    exact ⟨(allowed.passive kind).1, (allowed.passive kind).2,
      allowed.restates (by simp [kind, EventKind.declares])⟩
  · intro needs
    obtain ⟨new, passive, repeats⟩ := needs
    exact
      { opens := fun none => absurd none (List.ne_nil_of_mem new.choose_spec.1)
        preprocessing := by simp [kind]
        new := by simp [kind]
        passive := fun _ => ⟨new, passive⟩
        active := by simp [kind]
        reduction := by simp [kind, EventKind.reduces]
        restates := fun _ => repeats }

theorem allowed_active_iff (kind : event.kind = .active) : Allowed own event ↔
    (∃ other ∈ own, other.kind = .passive) ∧ (∀ other ∈ own, other.kind ≠ .active) ∧
      Repeats own event := by
  constructor
  · intro allowed
    exact ⟨(allowed.active kind).1, (allowed.active kind).2,
      allowed.restates (by simp [kind, EventKind.declares])⟩
  · intro needs
    obtain ⟨passive, active, repeats⟩ := needs
    exact
      { opens := fun none => absurd none (List.ne_nil_of_mem passive.choose_spec.1)
        preprocessing := by simp [kind]
        new := by simp [kind]
        passive := by simp [kind]
        active := fun _ => ⟨passive, active⟩
        reduction := by simp [kind, EventKind.reduces]
        restates := fun _ => repeats }

theorem allowed_reduction_iff (reduces : event.kind.reduces = true) : Allowed own event ↔
    (∃ other ∈ own, other.kind = .new) ∧ ∀ other ∈ own, other.kind.reduces = false := by
  constructor
  · intro allowed
    exact allowed.reduction reduces
  · intro needs
    obtain ⟨new, once⟩ := needs
    have kind := event.kind.reduces_iff.mp reduces
    exact
      { opens := fun none => absurd none (List.ne_nil_of_mem new.choose_spec.1)
        preprocessing := by rcases kind with kind | kind <;> simp [kind]
        new := by rcases kind with kind | kind <;> simp [kind]
        passive := by rcases kind with kind | kind <;> simp [kind]
        active := by rcases kind with kind | kind <;> simp [kind]
        reduction := fun _ => ⟨new, once⟩
        restates := by simp [event.kind.undeclaring_of_reduces reduces] }

end Admission

section Readings
variable {told : List Event} (id : ClauseId)

theorem mem_of_clause (event : Event) : event ∈ ofClause id told ↔
    event ∈ told ∧ event.kind.details = false ∧ event.id = id := by
  simp [ofClause, Event.concerns]

theorem reduction_of_clause {event : Event} (mem : event ∈ told) (hit : event.reduces id = true) :
    event ∈ ofClause id told ∧ event.kind.reduces = true := by
  obtain ⟨reduces, same⟩ := Bool.and_eq_true_iff.mp hit
  exact ⟨(mem_of_clause id event).mpr
    ⟨mem, event.kind.plain_of_reduces reduces, of_decide_eq_true same⟩, reduces⟩

theorem inactive_iff : (∀ event ∈ told, event.isOf .active id = false) ↔
    ∀ event ∈ ofClause id told, event.kind ≠ .active := by
  constructor
  · intro inactive event mem kind
    obtain ⟨mem, _, same⟩ := (mem_of_clause id event).mp mem
    simpa [Event.isOf, kind, same] using inactive event mem
  · intro inactive event mem
    by_contra active
    have both : event.kind = .active ∧ event.id = id := by simpa [Event.isOf] using active
    have plain : event.kind.details = false := by simp [both.1, EventKind.details]
    exact inactive event ((mem_of_clause id event).mpr ⟨mem, plain, both.2⟩) both.1

theorem declaration_eq_head (lawful : Lawful told) :
    declaration? told id = (ofClause id told).head? := by
  have same : declaration? told id = (ofClause id told).find? (·.declares id) := by
    rw [ofClause, List.find?_filter, declaration?]
    congr 1
    funext event
    cases kind : event.kind <;>
      simp [Event.declares, Event.concerns, EventKind.declares, EventKind.details, kind]
  rw [same]
  -- A lawful history opens with a declaration, so both searches stop there.
  cases own : ofClause id told with
  | nil => rfl
  | cons first rest =>
    have opening := (lawful.ordered id).opening first (by simp [own])
    have mem := (mem_of_clause id first).mp (own ▸ List.mem_cons_self)
    rcases opening with kind | kind <;>
      simp [Event.declares, EventKind.declares, kind, mem.2.2]

theorem written_none_iff (emptyClause : String) (lawful : Lawful told) :
    written? emptyClause told id = none ↔ ofClause id told = [] := by
  rw [written?, Option.map_eq_none_iff, declaration_eq_head id lawful, List.head?_eq_none_iff]

theorem written_of_mem (emptyClause : String) (lawful : Lawful told) {event : Event}
    (mem : event ∈ ofClause id told) : ∃ clause, written? emptyClause told id = some clause := by
  refine Option.ne_none_iff_exists'.mp ?_
  rw [ne_eq, written_none_iff id emptyClause lawful]
  exact List.ne_nil_of_mem mem

theorem written_some_iff (emptyClause : String) (lawful : Lawful told) (clause : Clause) :
    written? emptyClause told id = some clause ↔ ∃ first ∈ (ofClause id told).head?,
      declared emptyClause told first = clause := by
  rw [written?, Option.map_eq_some_iff, declaration_eq_head id lawful]
  rfl

theorem place_some_iff (report : Event → Bool)
    (own : ∀ event ∈ told, report event = true → event.concerns id = true) :
    (place? report told).isSome ↔ ∃ event ∈ ofClause id told, report event = true := by
  rw [Option.isSome_iff_ne_none, ne_eq, place_none_iff]
  constructor
  · intro some
    by_contra none
    refine some fun event mem => ?_
    by_contra hit
    rw [Bool.not_eq_false] at hit
    exact none ⟨event, List.mem_filter.mpr ⟨mem, own event mem hit⟩, hit⟩
  · rintro ⟨event, mem, hit⟩ none
    rw [none event (List.mem_filter.mp mem).1] at hit
    cases hit

section Stamps
variable (emptyClause : String)

theorem new_some_iff : (life emptyClause told id).new.isSome ↔
    ∃ event ∈ ofClause id told, event.kind = .new := by
  have own : ∀ event ∈ told, event.isOf .new id = true → event.concerns id = true := by
    intro event _ hit
    simp_all [Event.isOf, Event.concerns, EventKind.details]
  rw [life, place_some_iff id _ own]
  refine exists_congr fun event => and_congr_right fun mem => ?_
  simp [Event.isOf, ((mem_of_clause id event).mp mem).2.2]

theorem passive_some_iff (unrefuted : ∀ event ∈ told, event.refutes emptyClause = false) :
    (life emptyClause told id).passive.isSome ↔
      ∃ event ∈ ofClause id told, event.kind = .passive := by
  have own : ∀ event ∈ told, (event.isOf .passive id ||
      event.refutes emptyClause && event.id = id) = true → event.concerns id = true := by
    intro event mem hit
    simp_all [Event.isOf, Event.concerns, EventKind.details]
  rw [life, place_some_iff id _ own]
  refine exists_congr fun event => and_congr_right fun mem => ?_
  obtain ⟨mem, _, same⟩ := (mem_of_clause id event).mp mem
  simp [Event.isOf, same, unrefuted event mem]

theorem active_some_iff (unrefuted : ∀ event ∈ told, event.refutes emptyClause = false) :
    (life emptyClause told id).active.isSome ↔
      ∃ event ∈ ofClause id told, event.kind = .active := by
  have own : ∀ event ∈ told, (event.activates emptyClause && event.id = id) = true →
      event.concerns id = true := by
    intro event mem hit
    simp_all [Event.activates, Event.concerns, EventKind.details]
  have step : (step? emptyClause told id).isSome =
      (place? (fun event => event.activates emptyClause && event.id = id) told).isSome := by
    simp [step?, place?]
  rw [life, step, place_some_iff id _ own]
  refine exists_congr fun event => and_congr_right fun mem => ?_
  obtain ⟨mem, _, same⟩ := (mem_of_clause id event).mp mem
  simp [Event.activates, same, unrefuted event mem]

theorem deletion_some_iff : (life emptyClause told id).deletion.isSome ↔
    ∃ event ∈ ofClause id told, event.kind.reduces = true := by
  have own : ∀ event ∈ told, event.reduces id = true → event.concerns id = true := by
    intro event mem hit
    exact (List.mem_filter.mp (reduction_of_clause id mem hit).1).2
  rw [life, place_some_iff id _ own]
  refine exists_congr fun event => and_congr_right fun mem => ?_
  simp [Event.reduces, ((mem_of_clause id event).mp mem).2.2]

theorem deletion_parents_none (none : (life emptyClause told id).deletion = none) :
    (life emptyClause told id).deletionParents = [] := by
  have unreduced : ¬ ∃ event ∈ told, event.reduces id = true := by
    simpa using (place_none_iff told _).mp none
  rw [life, deletionParents, afterReduction, (drop_while_nil_iff told id).mpr unreduced]
  rfl

theorem life_of_none (none : ofClause id told = [])
    (unrefuted : ∀ event ∈ told, event.refutes emptyClause = false) :
    life emptyClause told id = {} := by
  have new := @new_some_iff told id emptyClause
  have passive := passive_some_iff id emptyClause unrefuted
  have active := active_some_iff id emptyClause unrefuted
  have deletion := @deletion_some_iff told id emptyClause
  simp only [none, List.not_mem_nil, false_and, exists_false, iff_false,
    Option.not_isSome_iff_eq_none] at new passive active deletion
  have parents := deletion_parents_none id emptyClause deletion
  generalize life emptyClause told id = life at *
  obtain ⟨_, _, _, _, _⟩ := life
  simp_all

end Stamps

theorem reduced_snoc (told : List Event) (event : Event) : reduced? (told ++ [event]) =
    if event.kind.reduces then some event.id else reduced? told := by
  rw [reduced?, List.filter_append]
  cases hit : event.kind.reduces
  · simp [hit, reduced?]
  · simp [hit]

theorem open_snoc (told : List Event) (event : Event) : Open (told ++ [event]) id ↔
    if event.kind.reduces then event.id = id ∧ ∀ other ∈ told, other.reduces id = false
    else Open told id := by
  rw [Open, after_reduction_snoc]
  by_cases reduced : ∃ other ∈ told, other.reduces id = true
  · have again : ¬ ∀ other ∈ told, other.reduces id = false := by
      simpa using reduced
    cases hit : event.kind.reduces <;>
      simp [Open, reduced, again, hit, or_imp, forall_and]
  · have first : ∀ other ∈ told, other.reduces id = false := by
      simpa using reduced
    have never : ¬ Open told id := fun still => reduced still.1
    simp only [List.mem_append, List.mem_singleton, or_and_right, exists_or, exists_eq_left,
      reduced, false_or]
    cases hit : event.kind.reduces
    · simpa [Event.reduces, hit] using never
    · simpa [Event.reduces, hit] using fun _ => first

/-- No clause is reduced twice, so the reduction that details refer to is the last one. -/
theorem reduced_eq_some_iff (lawful : Lawful told) : reduced? told = some id ↔ Open told id := by
  induction told using List.reverseRecOn with
  | nil => simp [reduced?, Open]
  | append_singleton told event ih =>
    obtain ⟨lawful, admissible⟩ := (lawful_snoc told event).mp lawful
    rw [reduced_snoc, open_snoc]
    split
    · rename_i hit
      rw [Admissible, if_neg (by simp [event.kind.plain_of_reduces hit])] at admissible
      have once := (admissible.reduction hit).2
      constructor
      · intro same
        obtain rfl := Option.some.inj same
        refine ⟨rfl, fun other mem => ?_⟩
        by_contra again
        obtain ⟨own, reduces⟩ := reduction_of_clause event.id mem (by simpa using again)
        rw [once other own] at reduces
        cases reduces
      · rintro ⟨rfl, _⟩
        rfl
    · exact ih lawful

end Readings
end Chronicle
end DerivationReplay
