import LiveDoc.Grammar.Basic
import LiveDoc.Proofs.Grammar.Search

/-!
# What a grammar keeps of its rules

Which elements a grammar has and which may stand in which, said of the rules alone. A search ends
with a closed set: of every rule that it has met, all that the rule leads to has been met, too. So
nothing that can be reached is missing, though rules may refer to themselves and a reference may be
met again before the rule behind it has been looked through.
-/

set_option autoImplicit false
set_option relaxedAutoImplicit false

namespace LiveDoc.Grammar

open Search (Run Step)

/-- An element can be reached from a rule without passing through another terminal. -/
inductive Rules.Reaches (rules : Rules) : Rule → String → Prop
  | terminal (spec : ElementSpec) (children : Option Rule) :
    Reaches rules (.terminal spec children) spec.name
  | choice {parts : List Rule} {part : Rule} {element : String} (mem : part ∈ parts)
    (inside : Reaches rules part element) : Reaches rules (.choice parts) element
  | sequence {parts : List Rule} {part : Rule} {element : String} (mem : part ∈ parts)
    (inside : Reaches rules part element) : Reaches rules (.sequence parts) element
  | repeated {inner : Rule} {element : String} (inside : Reaches rules inner element) :
    Reaches rules (.repeated inner) element
  | optional {inner : Rule} {element : String} (inside : Reaches rules inner element) :
    Reaches rules (.optional inner) element
  | ref {name element : String} {target : Rule} (found : rules.get? name = some target)
    (inside : Reaches rules target element) : Reaches rules (.ref name) element

/-- A rule stands somewhere in another one, also in the rules for the children of terminals. -/
inductive Rule.Within (part : Rule) : Rule → Prop
  | self : Within part part
  | terminal {spec : ElementSpec} {children : Rule} (inside : Within part children) :
    Within part (.terminal spec (some children))
  | choice {parts : List Rule} {rule : Rule} (mem : rule ∈ parts) (inside : Within part rule) :
    Within part (.choice parts)
  | sequence {parts : List Rule} {rule : Rule} (mem : rule ∈ parts) (inside : Within part rule) :
    Within part (.sequence parts)
  | repeated {inner : Rule} (inside : Within part inner) : Within part (.repeated inner)
  | optional {inner : Rule} (inside : Within part inner) : Within part (.optional inner)

namespace Rules

/-- A rule occurs somewhere in the rules of a grammar. -/
def Holds (rules : Rules) (part : Rule) : Prop := ∃ named ∈ rules, part.Within named.2

/-- Terminals that share the name of an element are the same. -/
def Consistent (rules : Rules) : Prop :=
  ∀ t u : Terminal, rules.Holds (.terminal t.spec t.children) →
    rules.Holds (.terminal u.spec u.children) → t.spec.name = u.spec.name → t = u

/-- A reference occurs in the rules, and no rule has its name. -/
def Dangles (rules : Rules) (name : String) : Prop :=
  rules.Holds (.ref name) ∧ rules.get? name = none

end Rules

variable {rules : Rules} {descend : Bool} {before after : Search} {rule : Rule}
  {name element : String}

/-- All that a rule leads to has been met or waits, short of what terminals and references lead to
themselves. -/
inductive Settled (s : Search) : Rule → Prop
  | waits {rule : Rule} (mem : rule ∈ s.waiting) : Settled s rule
  | terminal {spec : ElementSpec} {children : Option Rule}
    (met : s.met.hasElement spec.name = true) : Settled s (.terminal spec children)
  | choice {parts : List Rule} (all : ∀ part ∈ parts, Settled s part) : Settled s (.choice parts)
  | sequence {parts : List Rule} (all : ∀ part ∈ parts, Settled s part) :
    Settled s (.sequence parts)
  | repeated {inner : Rule} (inside : Settled s inner) : Settled s (.repeated inner)
  | optional {inner : Rule} (inside : Settled s inner) : Settled s (.optional inner)
  | ref {name : String} (met : name ∈ s.met.references) : Settled s (.ref name)

theorem hasElement_iff {m : Met} :
    m.hasElement name = true ↔ ∃ t ∈ m.terminals, t.spec.name = name := by
  simp [Met.hasElement]

theorem Search.Step.front_settled (hstep : Step rules descend before after) :
    ∃ front rest, before.waiting = front :: rest ∧ Settled after front ∧ rest ⊆ after.waiting := by
  cases hstep with
  | again met => exact ⟨_, _, rfl, .terminal met, List.Subset.refl _⟩
  | terminal new =>
    refine ⟨_, _, rfl, .terminal (hasElement_iff.2 ?_), List.subset_append_right _ _⟩
    exact ⟨_, List.mem_append_right _ (List.mem_singleton_self _), rfl⟩
  | choice =>
    refine ⟨_, _, rfl, .choice fun part hpart => .waits ?_, List.subset_append_right _ _⟩
    exact List.mem_append_left _ hpart
  | sequence =>
    refine ⟨_, _, rfl, .sequence fun part hpart => .waits ?_, List.subset_append_right _ _⟩
    exact List.mem_append_left _ hpart
  | repeated => exact ⟨_, _, rfl, .repeated (.waits List.mem_cons_self), List.subset_cons_self _ _⟩
  | optional => exact ⟨_, _, rfl, .optional (.waits List.mem_cons_self), List.subset_cons_self _ _⟩
  | known met => exact ⟨_, _, rfl, .ref met, List.Subset.refl _⟩
  | follow new found => exact ⟨_, _, rfl, .ref List.mem_cons_self, List.subset_cons_self _ _⟩
  | dangling new missing => exact ⟨_, _, rfl, .ref List.mem_cons_self, List.Subset.refl _⟩

theorem Settled.step (h : Settled before rule) (hstep : Step rules descend before after) :
    Settled after rule := by
  induction h with
  | waits mem =>
    obtain ⟨front, rest, hwaiting, hfront, hrest⟩ := hstep.front_settled
    rcases List.mem_cons.1 (hwaiting ▸ mem) with rfl | hmem
    · exact hfront
    · exact .waits (hrest hmem)
  | terminal met =>
    obtain ⟨t, ht, hname⟩ := hasElement_iff.1 met
    exact .terminal (hasElement_iff.2 ⟨t, hstep.grows.2 ht, hname⟩)
  | choice _ ih => exact .choice ih
  | sequence _ ih => exact .sequence ih
  | repeated _ ih => exact .repeated ih
  | optional _ ih => exact .optional ih
  | ref met => exact .ref (hstep.grows.1 met)

/-- Where references that have been met lead is settled or is known to be missing, and the children
of terminals that have been met are settled, if the search descends into them. -/
structure Search.Closed (rules : Rules) (descend : Bool) (s : Search) : Prop where
  targets : ∀ name ∈ s.met.references, ∀ target, rules.get? name = some target → Settled s target
  dangling : ∀ name ∈ s.met.references, rules.get? name = none → name ∈ s.met.dangling
  children : descend = true → ∀ t ∈ s.met.terminals, ∀ children, t.children = some children →
    Settled s children

theorem Search.Closed.step (h : before.Closed rules descend)
    (hstep : Step rules descend before after) : after.Closed rules descend := by
  have htargets (name : String) (hname : name ∈ before.met.references) (target : Rule)
      (hfound : rules.get? name = some target) : Settled after target :=
    (h.targets name hname target hfound).step hstep
  have hchildren (hinner : descend = true) (t : Terminal) (ht : t ∈ before.met.terminals)
      (children : Rule) (hsome : t.children = some children) : Settled after children :=
    (h.children hinner t ht children hsome).step hstep
  cases hstep with
  | @terminal spec others rest m new =>
    refine ⟨htargets, h.dangling, fun hinner t ht children hsome => ?_⟩
    rcases List.mem_append.1 ht with ht | ht
    · exact hchildren hinner t ht children hsome
    · obtain rfl : t = ⟨spec, others⟩ := List.mem_singleton.1 ht
      obtain rfl : others = some children := hsome
      exact .waits (by simp [hinner])
  | @follow name target rest m new found =>
    refine ⟨fun other hother reached hreached => ?_, fun other hother hnone => ?_, hchildren⟩
    · rcases List.mem_cons.1 hother with rfl | hother
      · obtain rfl : target = reached := Option.some_inj.1 (found.symm.trans hreached)
        exact .waits List.mem_cons_self
      · exact htargets other hother reached hreached
    · rcases List.mem_cons.1 hother with rfl | hother
      · simp [found] at hnone
      · exact h.dangling other hother hnone
  | @dangling name rest m new missing =>
    refine ⟨fun other hother reached hreached => ?_, fun other hother hnone => ?_, hchildren⟩
    · rcases List.mem_cons.1 hother with rfl | hother
      · simp [missing] at hreached
      · exact htargets other hother reached hreached
    · refine List.mem_append.2 ?_
      rcases List.mem_cons.1 hother with rfl | hother
      · exact .inr (List.mem_singleton_self _)
      · exact .inl (h.dangling other hother hnone)
  | _ => exact ⟨htargets, h.dangling, hchildren⟩

/-- A search that begins with nothing met ends with a closed set, in which all that it began with is
settled. -/
theorem Search.Run.closed {first : List Rule} (hrun : Run rules descend ⟨first, .nothing⟩ after) :
    after.Closed rules descend ∧ ∀ rule ∈ first, Settled after rule := by
  refine hrun.induct (P := fun s => s.Closed rules descend ∧ ∀ rule ∈ first, Settled s rule)
    (fun s t hstep h => ⟨h.1.step hstep, fun rule hrule => (h.2 rule hrule).step hstep⟩) ⟨?_, ?_⟩
  · exact ⟨by simp [Met.nothing], by simp [Met.nothing], by simp [Met.nothing]⟩
  · exact fun rule hrule => .waits hrule

theorem Settled.hasElement {m : Met} (hclosed : Search.Closed rules descend ⟨[], m⟩)
    (h : Settled ⟨[], m⟩ rule) (hreach : rules.Reaches rule element) :
    m.hasElement element = true := by
  induction hreach with
  | terminal spec children =>
    cases h with
    | waits mem => simp at mem
    | terminal met => exact met
  | choice mem _ ih =>
    cases h with
    | waits mem => simp at mem
    | choice all => exact ih (all _ mem)
  | sequence mem _ ih =>
    cases h with
    | waits mem => simp at mem
    | sequence all => exact ih (all _ mem)
  | repeated _ ih =>
    cases h with
    | waits mem => simp at mem
    | repeated inside => exact ih inside
  | optional _ ih =>
    cases h with
    | waits mem => simp at mem
    | optional inside => exact ih inside
  | ref found _ ih =>
    cases h with
    | waits mem => simp at mem
    | ref met => exact ih (hclosed.targets _ met _ found)

/-- All rules that wait and all that have been met are among some rules. -/
structure Search.Among (rules : Rules) (Q : Rule → Prop) (s : Search) : Prop where
  waiting : ∀ rule ∈ s.waiting, Q rule
  terminals : ∀ t ∈ s.met.terminals, Q (.terminal t.spec t.children)
  dangling : ∀ name ∈ s.met.dangling, Q (.ref name) ∧ rules.get? name = none

/-- Rules such that each leads to others of them only. -/
structure Rules.Keeps (rules : Rules) (descend : Bool) (Q : Rule → Prop) : Prop where
  terminal : descend = true → ∀ spec children, Q (.terminal spec (some children)) → Q children
  choice : ∀ parts, Q (.choice parts) → ∀ part ∈ parts, Q part
  sequence : ∀ parts, Q (.sequence parts) → ∀ part ∈ parts, Q part
  repeated : ∀ inner, Q (.repeated inner) → Q inner
  optional : ∀ inner, Q (.optional inner) → Q inner
  ref : ∀ name target, Q (.ref name) → rules.get? name = some target → Q target

theorem Search.Among.step {Q : Rule → Prop} (hQ : rules.Keeps descend Q)
    (h : before.Among rules Q) (hstep : Step rules descend before after) :
    after.Among rules Q := by
  obtain ⟨hwaiting, hterminals, hdangling⟩ := h
  cases hstep with
  | again met | known met =>
    exact ⟨(List.forall_mem_cons.1 hwaiting).2, hterminals, hdangling⟩
  | @terminal spec children rest m new =>
    obtain ⟨hfirst, hrest⟩ := List.forall_mem_cons.1 hwaiting
    refine ⟨List.forall_mem_append.2 ⟨fun rule hrule => ?_, hrest⟩, ?_, hdangling⟩
    · cases descend with
      | false => simp at hrule
      | true =>
        obtain rfl : children = some rule := by simpa using hrule
        exact hQ.terminal rfl spec rule hfirst
    · exact List.forall_mem_append.2 ⟨hterminals, by simpa using hfirst⟩
  | choice =>
    obtain ⟨hfirst, hrest⟩ := List.forall_mem_cons.1 hwaiting
    exact ⟨List.forall_mem_append.2 ⟨hQ.choice _ hfirst, hrest⟩, hterminals, hdangling⟩
  | sequence =>
    obtain ⟨hfirst, hrest⟩ := List.forall_mem_cons.1 hwaiting
    exact ⟨List.forall_mem_append.2 ⟨hQ.sequence _ hfirst, hrest⟩, hterminals, hdangling⟩
  | repeated =>
    obtain ⟨hfirst, hrest⟩ := List.forall_mem_cons.1 hwaiting
    exact ⟨List.forall_mem_cons.2 ⟨hQ.repeated _ hfirst, hrest⟩, hterminals, hdangling⟩
  | optional =>
    obtain ⟨hfirst, hrest⟩ := List.forall_mem_cons.1 hwaiting
    exact ⟨List.forall_mem_cons.2 ⟨hQ.optional _ hfirst, hrest⟩, hterminals, hdangling⟩
  | follow new found =>
    obtain ⟨hfirst, hrest⟩ := List.forall_mem_cons.1 hwaiting
    exact ⟨List.forall_mem_cons.2 ⟨hQ.ref _ _ hfirst found, hrest⟩, hterminals, hdangling⟩
  | dangling new missing =>
    obtain ⟨hfirst, hrest⟩ := List.forall_mem_cons.1 hwaiting
    refine ⟨hrest, hterminals, List.forall_mem_append.2 ⟨hdangling, ?_⟩⟩
    simpa using ⟨hfirst, missing⟩

/-- A search that begins among some rules, each of which leads to others of them only, stays among
them. -/
theorem Search.Run.among {Q : Rule → Prop} {first : List Rule} (hQ : rules.Keeps descend Q)
    (hfirst : ∀ rule ∈ first, Q rule) (hrun : Run rules descend ⟨first, .nothing⟩ after) :
    after.Among rules Q :=
  hrun.induct (P := fun s => s.Among rules Q) (fun _ _ hstep h => h.step hQ hstep)
    ⟨hfirst, by simp [Met.nothing], by simp [Met.nothing]⟩

theorem Rules.keeps_reaches (rules : Rules) (root : Rule) :
    rules.Keeps false fun rule => ∀ element, rules.Reaches rule element →
      rules.Reaches root element where
  terminal := by simp
  choice _ h part hpart element hreach := h element (.choice hpart hreach)
  sequence _ h part hpart element hreach := h element (.sequence hpart hreach)
  repeated _ h element hreach := h element (.repeated hreach)
  optional _ h element hreach := h element (.optional hreach)
  ref _ _ h hfound element hreach := h element (.ref hfound hreach)

theorem Rule.Within.trans {part mid whole : Rule} (hpart : part.Within mid)
    (hmid : mid.Within whole) : part.Within whole := by
  induction hmid with
  | self => exact hpart
  | terminal _ ih => exact .terminal ih
  | choice hmem _ ih => exact .choice hmem ih
  | sequence hmem _ ih => exact .sequence hmem ih
  | repeated _ ih => exact .repeated ih
  | optional _ ih => exact .optional ih

theorem Rules.Holds.within {part whole : Rule} (h : rules.Holds whole) (hpart : part.Within whole) :
    rules.Holds part := by
  obtain ⟨named, hnamed, hwhole⟩ := h
  exact ⟨named, hnamed, hpart.trans hwhole⟩

theorem Rules.keeps_holds (rules : Rules) : rules.Keeps true rules.Holds where
  terminal _ _ _ h := h.within (.terminal .self)
  choice _ h _ hpart := h.within (.choice hpart .self)
  sequence _ h _ hpart := h.within (.sequence hpart .self)
  repeated _ h := h.within (.repeated .self)
  optional _ h := h.within (.optional .self)
  ref _ _ _ hfound := ⟨_, Rules.mem_of_get? hfound, .self⟩

/-- No element and no missing rule has been met twice. -/
structure Search.Distinct (s : Search) : Prop where
  elements : (s.met.terminals.map (·.spec.name)).Nodup
  dangling : s.met.dangling.Nodup
  met : s.met.dangling ⊆ s.met.references

theorem Search.Distinct.step (h : before.Distinct) (hstep : Step rules descend before after) :
    after.Distinct := by
  obtain ⟨helements, hdangling, hmet⟩ := h
  cases hstep with
  | @terminal spec children rest m new =>
    refine ⟨?_, hdangling, hmet⟩
    have hnew : spec.name ∉ m.terminals.map (·.spec.name) := by
      simpa [Met.hasElement] using new
    simp only [Met.addTerminal, List.map_append, List.map_cons, List.map_nil, List.nodup_append]
    refine ⟨helements, by simp, ?_⟩
    rintro a ha b hb rfl
    exact hnew (List.mem_singleton.1 hb ▸ ha)
  | follow new found =>
    exact ⟨helements, hdangling, fun _ hother => List.mem_cons_of_mem _ (hmet hother)⟩
  | @dangling name rest m new missing =>
    refine ⟨helements, ?_, fun other hother => ?_⟩
    · simp only [Met.addDangling, Met.addReference, List.nodup_append]
      refine ⟨hdangling, by simp, ?_⟩
      rintro a ha b hb rfl
      exact new (hmet (List.mem_singleton.1 hb ▸ ha))
    · rcases List.mem_append.1 hother with hother | hother
      · exact List.mem_cons_of_mem _ (hmet hother)
      · exact List.mem_singleton.1 hother ▸ List.mem_cons_self
  | _ => exact ⟨helements, hdangling, hmet⟩

theorem Search.Run.distinct {first : List Rule}
    (hrun : Run rules descend ⟨first, .nothing⟩ after) : after.Distinct :=
  hrun.induct (P := Search.Distinct) (fun _ _ hstep h => h.step hstep)
    ⟨by simp [Met.nothing], by simp [Met.nothing], by simp [Met.nothing]⟩

theorem Rules.mem_allowed_iff : element ∈ rules.allowed rule ↔ rules.Reaches rule element := by
  have hrun := rules.run_collect false rule .nothing []
  have hmem : element ∈ rules.allowed rule ↔
      (rules.collect false rule .nothing).hasElement element = true := by
    simp [Rules.allowed, Met.hasElement]
  rw [hmem]
  constructor
  · intro h
    obtain ⟨t, ht, rfl⟩ := hasElement_iff.1 h
    have hamong := hrun.among (rules.keeps_reaches rule) (by simp)
    exact hamong.terminals t ht t.spec.name (.terminal t.spec t.children)
  · intro h
    obtain ⟨hclosed, hsettled⟩ := hrun.closed
    exact (hsettled rule List.mem_cons_self).hasElement hclosed h

private theorem Rules.among_terminals (rules : Rules) :
    Search.Among rules rules.Holds ⟨[], rules.terminals⟩ := by
  refine rules.run_terminals.among rules.keeps_holds fun rule hrule => ?_
  obtain ⟨named, hnamed, rfl⟩ := List.mem_map.1 hrule
  exact ⟨named, hnamed, .self⟩

/-- Where equal names mean equal terminals, every rule that occurs somewhere is settled in the end:
the terminal that it stands in, if any, has been met with its own children. -/
theorem Rules.Consistent.settled (h : rules.Consistent) (hrule : rules.Holds rule) :
    Settled ⟨[], rules.terminals⟩ rule := by
  obtain ⟨hclosed, hfirst⟩ := rules.run_terminals.closed
  obtain ⟨named, hnamed, hwithin⟩ := hrule
  have hwhole : rules.Holds named.2 := ⟨named, hnamed, .self⟩
  have hsettled : Settled ⟨[], rules.terminals⟩ named.2 := hfirst _ (List.mem_map_of_mem hnamed)
  generalize named.2 = whole at hwithin hwhole hsettled
  induction hwithin with
  | self => exact hsettled
  | @terminal spec children inside ih =>
    cases hsettled with
    | waits mem => simp at mem
    | terminal met =>
      obtain ⟨t, ht, hname⟩ := hasElement_iff.1 met
      obtain rfl : t = ⟨spec, some children⟩ :=
        h t ⟨spec, some children⟩ (rules.among_terminals.terminals t ht) hwhole hname
      exact ih (hwhole.within (.terminal .self)) (hclosed.children rfl _ ht children rfl)
  | choice hmem _ ih =>
    cases hsettled with
    | waits mem => simp at mem
    | choice all => exact ih (hwhole.within (.choice hmem .self)) (all _ hmem)
  | sequence hmem _ ih =>
    cases hsettled with
    | waits mem => simp at mem
    | sequence all => exact ih (hwhole.within (.sequence hmem .self)) (all _ hmem)
  | repeated _ ih =>
    cases hsettled with
    | waits mem => simp at mem
    | repeated inner => exact ih (hwhole.within (.repeated .self)) inner
  | optional _ ih =>
    cases hsettled with
    | waits mem => simp at mem
    | optional inner => exact ih (hwhole.within (.optional .self)) inner

theorem Rules.Consistent.mem_terminals_iff (h : rules.Consistent) {t : Terminal} :
    t ∈ rules.terminals.terminals ↔ rules.Holds (.terminal t.spec t.children) := by
  refine ⟨fun ht => rules.among_terminals.terminals t ht, fun hholds => ?_⟩
  cases h.settled hholds with
  | waits mem => simp at mem
  | terminal met =>
    obtain ⟨u, hu, hname⟩ := hasElement_iff.1 met
    exact h u t (rules.among_terminals.terminals u hu) hholds hname ▸ hu

theorem Rules.Consistent.mem_dangling_iff (h : rules.Consistent) :
    name ∈ rules.terminals.dangling ↔ rules.Dangles name := by
  refine ⟨fun hname => rules.among_terminals.dangling name hname, fun ⟨hholds, hnone⟩ => ?_⟩
  cases h.settled hholds with
  | waits mem => simp at mem
  | ref met => exact rules.run_terminals.closed.1.dangling name met hnone

theorem count_unresolvedReference (rules : Rules) (name : String) :
    (ofRules rules).diagnostics.count (.unresolvedReference name) =
      rules.terminals.dangling.count name := by
  have hbad (t : Terminal) : Diagnostic.unresolvedReference name ∉ badPatterns t.spec := by
    simp only [badPatterns, List.mem_filterMap, not_exists, not_and]
    intro a _ h
    simp only [Option.bind_eq_bind, Option.bind_eq_some_iff] at h
    obtain ⟨pattern, -, h⟩ := h
    split at h <;> simp at h
  have hnames : (((repeatedNames [] (rules.map Prod.fst)).map Diagnostic.duplicateRule).count
      (.unresolvedReference name)) = 0 := by
    simp [List.count_eq_zero]
  have hpatterns : ((rules.terminals.terminals.flatMap fun t => badPatterns t.spec).count
      (.unresolvedReference name)) = 0 := by
    simp [List.count_eq_zero, hbad]
  have hinjective : Function.Injective Diagnostic.unresolvedReference := fun _ _ h =>
    Diagnostic.unresolvedReference.inj h
  rw [ofRules, List.count_append, List.count_append, hnames, hpatterns,
    List.count_map_of_injective _ _ hinjective]
  simp

theorem has_ofRules_iff :
    (ofRules rules).has element = true ↔
      ∃ t ∈ rules.terminals.terminals, t.spec.name = element := by
  simp only [has, entry?, ofRules, List.find?_isSome, List.mem_map, decide_eq_true_eq,
    exists_exists_and_eq_and]
  rfl

theorem entry?_ofRules {t : Terminal} (ht : t ∈ rules.terminals.terminals) :
    entry? (ofRules rules) t.spec.name = some (entryOf rules t) := by
  have hdistinct := rules.run_terminals.distinct.elements
  obtain ⟨e, he⟩ : ∃ e, entry? (ofRules rules) t.spec.name = some e :=
    Option.isSome_iff_exists.1 (has_ofRules_iff.2 ⟨t, ht, rfl⟩)
  have hfound := List.mem_of_find?_eq_some he
  have hname : e.spec.name = t.spec.name := by simpa using List.find?_some he
  obtain ⟨u, hu, rfl⟩ := List.mem_map.1 hfound
  rw [he, List.inj_on_of_nodup_map hdistinct hu ht hname]

theorem allows_ofRules_iff {type : String} :
    (ofRules rules).allows type element = true ↔
      ∃ t ∈ rules.terminals.terminals, typeOf t.spec.name = type ∧
        ∃ children, t.children = some children ∧ rules.Reaches children element := by
  simp only [allows, ofRules, List.any_eq_true, List.mem_map, exists_exists_and_eq_and,
    Bool.and_eq_true, decide_eq_true_eq, List.contains_iff_mem]
  refine exists_congr fun t => and_congr_right fun _ => and_congr_right fun _ => ?_
  simp only [entryOf]
  cases t.children <;> simp [Rules.mem_allowed_iff]

/-- The grammar of any rules, however they refer to themselves or to nothing: the searches for its
elements and for the children of each come to an end; an element may stand in those of a type
exactly if it can be reached from the rule for children of one of them, and then is an element of
the grammar itself. Where equal names mean equal terminals, its elements are those that occur
anywhere in the rules, and each missing rule is reported exactly once. -/
theorem ofRules_exact (rules : Rules) :
    (∀ descend, WellFounded (flip (Step rules descend))) ∧
    Run rules true ⟨rules.map Prod.snd, .nothing⟩ ⟨[], rules.terminals⟩ ∧
    (∀ children, Run rules false ⟨[children], .nothing⟩
      ⟨[], rules.collect false children .nothing⟩) ∧
    (∀ t ∈ rules.terminals.terminals,
      entry? (ofRules rules) t.spec.name = some (entryOf rules t)) ∧
    (∀ type element, (ofRules rules).allows type element = true ↔
      ∃ t ∈ rules.terminals.terminals, typeOf t.spec.name = type ∧
        ∃ children, t.children = some children ∧ rules.Reaches children element) ∧
    (∀ type element, (ofRules rules).allows type element = true →
      (ofRules rules).has element = true) ∧
    (rules.Consistent →
      (∀ element, (ofRules rules).has element = true ↔
        ∃ spec children, rules.Holds (.terminal spec children) ∧ spec.name = element) ∧
      ∀ name,
        (rules.Dangles name →
          (ofRules rules).diagnostics.count (.unresolvedReference name) = 1) ∧
        (¬ rules.Dangles name →
          (ofRules rules).diagnostics.count (.unresolvedReference name) = 0)) := by
  refine ⟨fun _ => Search.step_wellFounded, rules.run_terminals,
    fun children => rules.run_collect false children .nothing [], fun t => entry?_ofRules,
    fun _ _ => allows_ofRules_iff, fun type element h => ?_, fun hconsistent => ⟨?_, ?_⟩⟩
  · obtain ⟨t, ht, -, children, hchildren, hreach⟩ := allows_ofRules_iff.1 h
    have hclosed := rules.run_terminals.closed.1
    have hmet := (hclosed.children rfl t ht children hchildren).hasElement hclosed hreach
    exact has_ofRules_iff.2 (hasElement_iff.1 hmet)
  · intro element
    rw [has_ofRules_iff]
    constructor
    · rintro ⟨t, ht, hname⟩
      exact ⟨t.spec, t.children, hconsistent.mem_terminals_iff.1 ht, hname⟩
    · rintro ⟨spec, children, hholds, hname⟩
      exact ⟨⟨spec, children⟩, hconsistent.mem_terminals_iff.2 hholds, hname⟩
  · intro name
    rw [count_unresolvedReference, ← hconsistent.mem_dangling_iff]
    exact ⟨List.count_eq_one_of_mem rules.run_terminals.distinct.dangling, List.count_eq_zero.2⟩

/-- Sections that may stand in sections, a rule name given twice and a missing rule referred to
twice. -/
theorem ofRules_exact_sections :
    let spec (name : String) : ElementSpec := ⟨name, .block, .none, []⟩
    let inner : Rule := .repeated (.choice [.ref "section", .ref "item", .ref "gone"])
    let rules : Rules :=
      [("section", .terminal (spec "section") (some inner)),
        ("item", .optional (.terminal (spec "li") none)),
        ("section", .sequence [.ref "gone", .terminal (spec "p") none])]
    rules.Consistent ∧ (ofRules rules).allows "section" "section" = true ∧
      (ofRules rules).allows "section" "p" = false ∧ (ofRules rules).has "p" = true ∧
      (ofRules rules).diagnostics.count (.unresolvedReference "gone") = 1 := by
  intro spec inner rules
  let terminals : List Terminal :=
    [⟨spec "section", some inner⟩, ⟨spec "li", none⟩, ⟨spec "p", none⟩]
  have hall : ∀ t : Terminal, rules.Holds (.terminal t.spec t.children) → t ∈ terminals := by
    rintro ⟨own, children⟩ ⟨named, hnamed, hwithin⟩
    simp only [rules, List.mem_cons, List.not_mem_nil, or_false] at hnamed
    rcases hnamed with rfl | rfl | rfl
    · rcases hwithin with _ | inside
      · exact List.mem_cons_self
      · change Rule.Within _
          (.repeated (.choice [.ref "section", .ref "item", .ref "gone"])) at inside
        rcases inside with _ | _ | _ | _ | ⟨_ | _ | ⟨hmem, hpart⟩⟩
        simp only [List.mem_cons, List.not_mem_nil, or_false] at hmem
        rcases hmem with rfl | rfl | rfl <;> cases hpart
    · rcases hwithin with _ | _ | _ | _ | _ | inside
      cases inside
      exact List.mem_cons_of_mem _ List.mem_cons_self
    · rcases hwithin with _ | _ | _ | ⟨hmem, hpart⟩
      simp only [List.mem_cons, List.not_mem_nil, or_false] at hmem
      rcases hmem with rfl | rfl <;> cases hpart
      exact List.mem_cons_of_mem _ (List.mem_cons_of_mem _ List.mem_cons_self)
  have hconsistent : rules.Consistent := fun t u ht hu hname =>
    List.inj_on_of_nodup_map (f := (·.spec.name)) (by decide) (hall t ht) (hall u hu) hname
  obtain ⟨hhas, hcount⟩ := (ofRules_exact rules).2.2.2.2.2.2 hconsistent
  have hlast : ("section", .sequence [.ref "gone", .terminal (spec "p") none]) ∈ rules :=
    List.mem_cons_of_mem _ (List.mem_cons_of_mem _ List.mem_cons_self)
  refine ⟨hconsistent, by decide +kernel, by decide +kernel, ?_, ?_⟩
  · exact (hhas "p").2 ⟨spec "p", none, ⟨_, hlast, .sequence (by simp) .self⟩, rfl⟩
  · exact (hcount "gone").1 ⟨⟨_, hlast, .sequence List.mem_cons_self .self⟩, rfl⟩

end LiveDoc.Grammar
