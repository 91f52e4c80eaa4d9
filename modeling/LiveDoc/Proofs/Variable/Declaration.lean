import LiveDoc.Proofs.Forest.Traversal
import LiveDoc.Variable.Basic
import Mathlib.Data.List.Induction

/-!
# Declarations of variables

Of all occurrences of a name the first counts for where the variable is declared and the first
prompt for what is asked. The occurrences are those that walks with waiting nodes and waiting pieces
come to, in their order. Both passes over the occurrences are compared with this reading of the
occurrences as a whole.
-/

set_option autoImplicit false
set_option relaxedAutoImplicit false

namespace LiveDoc

theorem Inline.walk_eq_piecesOf (content : List Inline) : walk content = piecesOf content := by
  fun_induction walk content with
  | case1 => rfl
  | case2 item waiting ih =>
    rw [ih, piecesOf_append, piecesOf, pieces_eq, List.cons_append]

namespace Variable

/-- The occurrences are what a walk through the forest comes to, with a walk through the content of
each node on the way. -/
theorem occurrences_eq_walk (ns : Forest) :
    occurrences ns =
      (Forest.walk ns).flatMap fun n =>
        (Inline.walk n.content).filterMap (occurrence? n.id) := by
  simp only [occurrences, Forest.walk_eq_preorder, Inline.walk_eq_piecesOf]

def firstOfEach : List Occurrence → List Occurrence
  | [] => []
  | o :: rest => o :: (firstOfEach rest).filter (·.name ≠ o.name)

def firstPrompt? (name : String) (os : List Occurrence) : Option String :=
  os.findSome? fun o => if o.name = name then o.prompt else none

/-- The definition of the variable of an occurrence, by all occurrences. -/
def definitionOf (os : List Occurrence) (o : Occurrence) : Definition :=
  ⟨o.name, firstPrompt? o.name os, o.node⟩

/-- An occurrence departs if its prompt is not the first one of its name. -/
def Departs (os : List Occurrence) (o : Occurrence) : Prop :=
  o.prompt.isSome ∧ firstPrompt? o.name os ≠ o.prompt

instance (os : List Occurrence) : DecidablePred (Departs os) := fun _ =>
  inferInstanceAs (Decidable (_ ∧ _))

/-- The conflict of an occurrence with the first prompt of its name. -/
def conflictOf? (os : List Occurrence) (o : Occurrence) : Option Conflict := do
  let prompt ← o.prompt
  let first ← firstPrompt? o.name os
  some (conflict o prompt first)

variable {os : List Occurrence} {o : Occurrence} {name : String}

theorem firstOfEach_filter (p : String → Bool) (os : List Occurrence) :
    firstOfEach (os.filter fun o => p o.name) = (firstOfEach os).filter fun o => p o.name := by
  induction os with
  | nil => rfl
  | cons o rest ih =>
    by_cases hp : p o.name = true
    · simp only [List.filter_cons, hp, if_true, firstOfEach, ih, List.filter_filter,
        Bool.and_comm]
    · simp only [List.filter_cons, hp, Bool.false_eq_true, if_false, firstOfEach, ih,
        List.filter_filter]
      refine List.filter_congr fun other _ => ?_
      by_cases hname : other.name = o.name <;> simp [hname, hp]

theorem mem_firstOfEach_iff :
    name ∈ (firstOfEach os).map Occurrence.name ↔ name ∈ os.map Occurrence.name := by
  induction os with
  | nil => rfl
  | cons o rest ih =>
    by_cases hname : name = o.name
    · simp [firstOfEach, hname]
    · have hrest : name ∈ ((firstOfEach rest).filter (·.name ≠ o.name)).map Occurrence.name ↔
          name ∈ (firstOfEach rest).map Occurrence.name := by
        simp only [List.mem_map, List.mem_filter]
        constructor
        · rintro ⟨other, ⟨hother, -⟩, rfl⟩
          exact ⟨other, hother, rfl⟩
        · rintro ⟨other, hother, rfl⟩
          exact ⟨other, ⟨hother, by simpa using hname⟩, rfl⟩
      rw [firstOfEach, List.map_cons, List.mem_cons, hrest, ih, List.map_cons, List.mem_cons]

theorem find?_of_mem_firstOfEach (h : o ∈ firstOfEach os) :
    os.find? (·.name = o.name) = some o := by
  induction os with
  | nil => simp [firstOfEach] at h
  | cons first rest ih =>
    rcases List.mem_cons.1 h with rfl | h
    · simp
    · obtain ⟨h, hname⟩ := List.mem_filter.1 h
      have hfirst : first.name ≠ o.name := Ne.symm (by simpa using hname)
      rw [List.find?_cons_of_neg (by simpa using hfirst), ih h]

theorem nodup_firstOfEach (os : List Occurrence) :
    ((firstOfEach os).map Occurrence.name).Nodup := by
  induction os with
  | nil => simp [firstOfEach]
  | cons o rest ih =>
    rw [firstOfEach, List.map_cons, List.nodup_cons]
    exact ⟨by simp, (List.filter_sublist.map _).nodup ih⟩

theorem map_name_firstOfEach (os : List Occurrence) :
    (firstOfEach os).map Occurrence.name = (os.map Occurrence.name).eraseDups := by
  induction h : os.length using Nat.strongRecOn generalizing os with
  | ind k ih =>
    cases os with
    | nil => rfl
    | cons o rest =>
      have hlength : (rest.filter fun other => decide (other.name ≠ o.name)).length < k := by
        rw [← h, List.length_cons]
        exact Nat.lt_succ_of_le (List.length_filter_le _ _)
      rw [firstOfEach, ← firstOfEach_filter fun other => decide (other ≠ o.name), List.map_cons,
        ih _ hlength _ rfl, List.map_cons, List.eraseDups_cons, List.filter_map]
      congr 3
      refine List.filter_congr fun other _ => ?_
      rw [Function.comp_apply, Bool.eq_iff_iff]
      simp

theorem firstOfEach_append_singleton (os : List Occurrence) (o : Occurrence) :
    firstOfEach (os ++ [o]) =
      firstOfEach os ++ if o.name ∈ os.map Occurrence.name then [] else [o] := by
  induction os with
  | nil => simp [firstOfEach]
  | cons first rest ih =>
    rw [List.cons_append, firstOfEach, ih, List.filter_append, firstOfEach, List.cons_append]
    by_cases hname : o.name = first.name
    · by_cases hrest : first.name ∈ rest.map Occurrence.name <;> simp [hname]
    · by_cases hrest : o.name ∈ rest.map Occurrence.name
      · simp only [List.map_cons, List.mem_cons, hrest, or_true, if_true,
          List.filter_nil]
      · simp only [List.map_cons, List.mem_cons, hname, hrest, or_false, if_false]
        simp [hname]

theorem firstPrompt?_append (name : String) (os more : List Occurrence) :
    firstPrompt? name (os ++ more) = (firstPrompt? name os).or (firstPrompt? name more) :=
  List.findSome?_append

theorem firstPrompt?_singleton (name : String) (o : Occurrence) :
    firstPrompt? name [o] = if o.name = name then o.prompt else none := by
  simp only [firstPrompt?, List.findSome?_cons, List.findSome?_nil]
  split <;> simp_all

theorem exists_of_firstPrompt? {prompt : String} (h : firstPrompt? name os = some prompt) :
    ∃ o ∈ os, o.name = name ∧ o.prompt = some prompt := by
  obtain ⟨o, ho, hprompt⟩ := List.exists_of_findSome?_eq_some h
  split at hprompt
  · rename_i hname
    exact ⟨o, ho, hname, hprompt⟩
  · simp at hprompt

theorem isSome_firstPrompt? {prompt : String} (ho : o ∈ os) (h : o.prompt = some prompt) :
    (firstPrompt? o.name os).isSome := by
  rw [firstPrompt?, List.findSome?_isSome_iff]
  exact ⟨o, ho, by simp [h]⟩

theorem firstPrompt?_eq_none (h : name ∉ os.map Occurrence.name) : firstPrompt? name os = none := by
  rw [firstPrompt?, List.findSome?_eq_none_iff]
  intro o ho
  exact if_neg fun hname => h (List.mem_map.2 ⟨o, ho, hname⟩)

theorem define_of_mem {ds : List Definition} (hnodup : (ds.map Definition.name).Nodup)
    (h : o.name ∈ ds.map Definition.name) :
    define o ds =
      ds.map fun d => if d.name = o.name then { d with prompt := d.prompt.or o.prompt } else d := by
  induction ds with
  | nil => simp at h
  | cons d rest ih =>
    obtain ⟨hd, hnodup⟩ := List.nodup_cons.1 hnodup
    by_cases hname : d.name = o.name
    · have hrest : (rest.map fun d =>
          if d.name = o.name then { d with prompt := d.prompt.or o.prompt } else d) = rest := by
        refine (List.map_congr_left fun other hother => if_neg fun heq => hd ?_).trans
          (List.map_id' rest)
        exact List.mem_map.2 ⟨other, hother, heq.trans hname.symm⟩
      rw [define, if_pos hname, List.map_cons, if_pos hname, hrest]
    · have hmem : o.name ∈ rest.map Definition.name := by
        simpa [Ne.symm hname] using h
      rw [define, if_neg hname, List.map_cons, if_neg hname, ih hnodup hmem]

theorem define_of_not_mem {ds : List Definition} (h : o.name ∉ ds.map Definition.name) :
    define o ds = ds ++ [⟨o.name, o.prompt, o.node⟩] := by
  induction ds with
  | nil => rfl
  | cons d rest ih =>
    simp only [List.map_cons, List.mem_cons, not_or] at h
    rw [define, if_neg (Ne.symm h.1), ih h.2, List.cons_append]

theorem foldl_define_eq (os : List Occurrence) :
    os.foldl (fun ds o => define o ds) [] = (firstOfEach os).map (definitionOf os) := by
  -- From behind: the last occurrence meets the definitions of those before it.
  induction os using List.reverseRecOn with
  | nil => rfl
  | append_singleton os o ih =>
    have hnames : ((firstOfEach os).map (definitionOf os)).map Definition.name =
        (firstOfEach os).map Occurrence.name := by
      rw [List.map_map]
      rfl
    rw [List.foldl_append, ih, List.foldl_cons, List.foldl_nil, firstOfEach_append_singleton]
    by_cases hname : o.name ∈ os.map Occurrence.name
    · rw [define_of_mem (by rw [hnames]; exact nodup_firstOfEach os)
        (by rw [hnames]; exact mem_firstOfEach_iff.2 hname), if_pos hname, List.append_nil,
        List.map_map]
      refine List.map_congr_left fun first _ => ?_
      by_cases heq : first.name = o.name
      · simp [definitionOf, heq, firstPrompt?_append, firstPrompt?_singleton]
      · simp [definitionOf, heq, Ne.symm heq, firstPrompt?_append, firstPrompt?_singleton]
    · rw [define_of_not_mem (by rw [hnames]; exact fun h => hname (mem_firstOfEach_iff.1 h)),
        if_neg hname, List.map_append]
      congr 1
      · refine List.map_congr_left fun first hfirst => ?_
        have heq : o.name ≠ first.name := fun heq =>
          hname (heq ▸ mem_firstOfEach_iff.1 (List.mem_map_of_mem hfirst))
        simp [definitionOf, heq, firstPrompt?_append, firstPrompt?_singleton]
      · simp [definitionOf, firstPrompt?_append, firstPrompt?_singleton,
          firstPrompt?_eq_none hname]

theorem definitions_eq (ns : Forest) :
    definitions ns = (firstOfEach (occurrences ns)).map (definitionOf (occurrences ns)) :=
  foldl_define_eq _

/-- The table holds the first prompts of the names that occur before some place. -/
def Knows (first : List (String × String)) (before : List Occurrence) : Prop :=
  ∀ name, first.find? (·.1 = name) = (firstPrompt? name before).map (name, ·)

namespace Knows

variable {first : List (String × String)} {before : List Occurrence}

theorem unprompted (h : Knows first before) (hprompt : o.prompt = none) :
    Knows first (before ++ [o]) := by
  intro name
  rw [h, firstPrompt?_append, firstPrompt?_singleton, hprompt, ite_self, Option.or_none]

theorem prompted (h : Knows first before) {prompt : String} (hprompt : o.prompt = some prompt)
    (hnew : firstPrompt? o.name before = none) :
    Knows ((o.name, prompt) :: first) (before ++ [o]) := by
  intro name
  rw [firstPrompt?_append, firstPrompt?_singleton]
  by_cases hname : o.name = name
  · subst hname
    simp [hnew, hprompt]
  · simp [hname, h name]

theorem again (h : Knows first before) {known : String}
    (hknown : firstPrompt? o.name before = some known) : Knows first (before ++ [o]) := by
  intro name
  rw [h, firstPrompt?_append, firstPrompt?_singleton]
  by_cases hname : o.name = name
  · subst hname
    rw [hknown, Option.some_or]
  · rw [if_neg hname, Option.or_none]

end Knows

/-- With the first prompts of the names before `rest` known, those of `rest` that depart and are
not yet reported are reported, each name once. -/
theorem conflictsFrom_eq {before rest : List Occurrence} {first : List (String × String)}
    (hos : os = before ++ rest) (hfirst : Knows first before) (reported : List String) :
    conflictsFrom first reported rest =
      (firstOfEach (rest.filter fun o => Departs os o ∧ o.name ∉ reported)).filterMap
        (conflictOf? os) := by
  induction rest generalizing before first reported with
  | nil => simp [conflictsFrom, firstOfEach]
  | cons o rest ih =>
    have hos' : os = (before ++ [o]) ++ rest := by simp [hos]
    have hpassed (h : ¬(Departs os o ∧ o.name ∉ reported)) :
        ((o :: rest).filter fun o => Departs os o ∧ o.name ∉ reported) =
          rest.filter fun o => Departs os o ∧ o.name ∉ reported :=
      List.filter_cons_of_neg (by simpa using h)
    rw [conflictsFrom]
    cases hprompt : o.prompt with
    | none =>
      rw [hpassed (by simp [Departs, hprompt])]
      exact ih hos' (hfirst.unprompted hprompt) reported
    | some prompt =>
      cases hknown : firstPrompt? o.name before with
      | none =>
        have hnow : firstPrompt? o.name os = some prompt := by
          rw [hos', firstPrompt?_append, firstPrompt?_append, firstPrompt?_singleton, hknown,
            if_pos rfl, hprompt]
          rfl
        simp only [hfirst o.name, hknown, Option.map_none]
        rw [hpassed (by simp [Departs, hnow, hprompt])]
        exact ih hos' (hfirst.prompted hprompt hknown) reported
      | some known =>
        have hbefore : firstPrompt? o.name os = some known := by
          simp [hos, firstPrompt?_append, hknown]
        have hdeparts : Departs os o ↔ known ≠ prompt := by simp [Departs, hbefore, hprompt]
        simp only [hfirst o.name, hknown, Option.map_some]
        by_cases hnew : known ≠ prompt ∧ o.name ∉ reported
        · have hconflict : conflictOf? os o = some (conflict o prompt known) := by
            simp [conflictOf?, hprompt, hbefore]
          -- What is reported from here on is what departs with another name.
          have hrest : (rest.filter fun other => Departs os other ∧
                other.name ∉ o.name :: reported) =
              (rest.filter fun other => Departs os other ∧ other.name ∉ reported).filter
                fun other => decide (other.name ≠ o.name) := by
            rw [List.filter_filter]
            refine List.filter_congr fun other _ => ?_
            simp only [List.mem_cons, not_or, Bool.decide_and, Bool.and_left_comm]
          rw [if_pos hnew, List.filter_cons_of_pos (by simpa [hdeparts] using hnew), firstOfEach,
            List.filterMap_cons_some hconflict, ih hos' (hfirst.again hknown) (o.name :: reported),
            hrest, firstOfEach_filter fun other => decide (other ≠ o.name)]
        · rw [if_neg hnew, hpassed (by rwa [hdeparts])]
          exact ih hos' (hfirst.again hknown) reported

theorem conflicts_eq (ns : Forest) :
    conflicts ns =
      (firstOfEach ((occurrences ns).filter fun o => Departs (occurrences ns) o)).filterMap
      (conflictOf? (occurrences ns)) := by
  rw [conflicts, conflictsFrom_eq (List.nil_append (occurrences ns)).symm (fun _ => rfl) []]
  simp

theorem isSome_conflictOf? (ho : o ∈ os) (h : Departs os o) : (conflictOf? os o).isSome := by
  obtain ⟨prompt, hprompt⟩ := Option.isSome_iff_exists.1 h.1
  obtain ⟨first, hfirst⟩ := Option.isSome_iff_exists.1 (isSome_firstPrompt? ho hprompt)
  simp [conflictOf?, hprompt, hfirst]

theorem name_of_conflictOf? {c : Conflict} (h : conflictOf? os o = some c) : c.name = o.name := by
  simp only [conflictOf?, Option.bind_eq_bind, Option.bind_eq_some_iff, Option.some.injEq] at h
  obtain ⟨prompt, -, first, -, rfl⟩ := h
  rfl

theorem exists_departs_iff :
    (∃ o ∈ os, Departs os o ∧ o.name = name) ↔
      ∃ a ∈ os, ∃ b ∈ os, a.name = name ∧ b.name = name ∧
        a.prompt.isSome ∧ b.prompt.isSome ∧ a.prompt ≠ b.prompt := by
  constructor
  · rintro ⟨o, ho, ⟨hsome, hne⟩, rfl⟩
    obtain ⟨prompt, hprompt⟩ := Option.isSome_iff_exists.1 hsome
    obtain ⟨first, hfirst⟩ := Option.isSome_iff_exists.1 (isSome_firstPrompt? ho hprompt)
    obtain ⟨a, ha, haname, haprompt⟩ := exists_of_firstPrompt? hfirst
    exact ⟨a, ha, o, ho, haname, rfl, by simp [haprompt], hsome, by rwa [haprompt, ← hfirst]⟩
  · rintro ⟨a, ha, b, hb, rfl, hbname, hasome, hbsome, hne⟩
    by_cases hdeparts : firstPrompt? a.name os = a.prompt
    · exact ⟨b, hb, ⟨hbsome, by rwa [hbname, hdeparts]⟩, hbname⟩
    · exact ⟨a, ha, ⟨hasome, hdeparts⟩, rfl⟩

theorem map_name_filterMap_conflictOf? {departing : List Occurrence}
    (h : ∀ o ∈ departing, (conflictOf? os o).isSome) :
    (departing.filterMap (conflictOf? os)).map Conflict.name = departing.map Occurrence.name := by
  induction departing with
  | nil => rfl
  | cons o rest ih =>
    obtain ⟨c, hc⟩ := Option.isSome_iff_exists.1 (h o List.mem_cons_self)
    rw [List.filterMap_cons_some hc, List.map_cons, List.map_cons, name_of_conflictOf? hc,
      ih fun other hother => h other (List.mem_cons_of_mem o hother)]

theorem mem_occurrences_iff {ns : Forest} :
    o ∈ occurrences ns ↔ ∃ n ∈ Forest.preorder ns, ∃ prompt value,
      .var o.name prompt value ∈ Inline.piecesOf n.content ∧
        o = ⟨n.id, o.name, prompt.filter (!Text.isAllBlank ·)⟩ := by
  simp only [occurrences, List.mem_flatMap, List.mem_filterMap]
  constructor
  · rintro ⟨n, hn, piece, hpiece, h⟩
    cases piece with
    | var name prompt value =>
      obtain rfl := Option.some.inj h
      exact ⟨n, hn, prompt, value, hpiece, rfl⟩
    | text | mention | link | note => simp [occurrence?] at h
  · rintro ⟨n, hn, prompt, value, hpiece, h⟩
    exact ⟨n, hn, _, hpiece, by rw [occurrence?, ← h]⟩

theorem exists_definition {ns : Forest} (ho : o ∈ occurrences ns) :
    ∃ d ∈ definitions ns, d.name = o.name ∧ d.prompt = firstPrompt? o.name (occurrences ns) := by
  have hname : o.name ∈ (firstOfEach (occurrences ns)).map Occurrence.name :=
    mem_firstOfEach_iff.2 (List.mem_map_of_mem ho)
  obtain ⟨first, hfirst, hname⟩ := List.mem_map.1 hname
  rw [definitions_eq]
  exact ⟨_, List.mem_map_of_mem hfirst, hname, by rw [definitionOf, hname]⟩

theorem prompt_of_mem_definitions {ns : Forest} {d : Definition} (hd : d ∈ definitions ns) :
    d.prompt = firstPrompt? d.name (occurrences ns) := by
  rw [definitions_eq] at hd
  obtain ⟨first, -, rfl⟩ := List.mem_map.1 hd
  rfl

theorem map_name_conflicts (ns : Forest) :
    (conflicts ns).map Conflict.name =
      (((occurrences ns).filter fun o => Departs (occurrences ns) o).map
        Occurrence.name).eraseDups := by
  have hsome : ∀ o ∈ firstOfEach ((occurrences ns).filter fun o => Departs (occurrences ns) o),
      (conflictOf? (occurrences ns) o).isSome := by
    intro o ho
    have hmem := List.mem_filter.1 (List.mem_of_find?_eq_some (find?_of_mem_firstOfEach ho))
    exact isSome_conflictOf? hmem.1 (of_decide_eq_true hmem.2)
  rw [conflicts_eq, map_name_filterMap_conflictOf? hsome, map_name_firstOfEach]

theorem mem_map_name_conflicts_iff {ns : Forest} :
    name ∈ (conflicts ns).map Conflict.name ↔
      ∃ o ∈ occurrences ns, Departs (occurrences ns) o ∧ o.name = name := by
  rw [map_name_conflicts, List.mem_eraseDups]
  simp [and_assoc]

theorem conflicts_eq_nil_iff {ns : Forest} :
    conflicts ns = [] ↔ ∀ o ∈ occurrences ns, ¬Departs (occurrences ns) o := by
  constructor
  · intro h o ho hdeparts
    have hname := mem_map_name_conflicts_iff.2 ⟨o, ho, hdeparts, rfl⟩
    simp [h] at hname
  · intro h
    rw [← List.map_eq_nil_iff, List.eq_nil_iff_forall_not_mem]
    intro name hname
    obtain ⟨o, ho, hdeparts, -⟩ := mem_map_name_conflicts_iff.1 hname
    exact h o ho hdeparts

/-- The definitions and the conflicts of a forest, by all its occurrences: one definition for
each name, in the order of the first occurrences, with the node of the first one and the first
prompt; one conflict for each name with two prompts, in the order of the first departures. The
occurrences are those that walks with waiting nodes and waiting pieces come to. -/
theorem declarations_exact (ns : Forest) :
    occurrences ns = (Forest.walk ns).flatMap (fun n =>
      (Inline.walk n.content).filterMap (occurrence? n.id)) ∧
    (∀ o, o ∈ occurrences ns ↔ ∃ n ∈ Forest.preorder ns, ∃ prompt value,
      .var o.name prompt value ∈ Inline.piecesOf n.content ∧
        o = ⟨n.id, o.name, prompt.filter (!Text.isAllBlank ·)⟩) ∧
    (definitions ns).map Definition.name = ((occurrences ns).map Occurrence.name).eraseDups ∧
    (∀ d ∈ definitions ns, ∃ o, (occurrences ns).find? (·.name = d.name) = some o ∧
      d = ⟨o.name, firstPrompt? o.name (occurrences ns), o.node⟩) ∧
    (conflicts ns).map Conflict.name =
      (((occurrences ns).filter fun o => Departs (occurrences ns) o).map
        Occurrence.name).eraseDups ∧
    (∀ c ∈ conflicts ns, ∃ o prompt first,
      (occurrences ns).find? (fun o => o.name = c.name ∧ Departs (occurrences ns) o) = some o ∧
        o.prompt = some prompt ∧ firstPrompt? o.name (occurrences ns) = some first ∧
        c = conflict o prompt first) ∧
    (∀ name, name ∈ (conflicts ns).map Conflict.name ↔
      ∃ a ∈ occurrences ns, ∃ b ∈ occurrences ns, a.name = name ∧ b.name = name ∧
        a.prompt.isSome ∧ b.prompt.isSome ∧ a.prompt ≠ b.prompt) ∧
    (conflicts ns = [] ↔ ∀ o ∈ occurrences ns, ∀ prompt, o.prompt = some prompt →
      ∃ d ∈ definitions ns, d.name = o.name ∧ d.prompt = some prompt) := by
  refine ⟨occurrences_eq_walk ns, fun _ => mem_occurrences_iff, ?_, ?_, map_name_conflicts ns, ?_,
    fun _ => mem_map_name_conflicts_iff.trans exists_departs_iff, ?_⟩
  · rw [definitions_eq, List.map_map, ← map_name_firstOfEach]
    rfl
  · intro d hd
    rw [definitions_eq] at hd
    obtain ⟨o, ho, rfl⟩ := List.mem_map.1 hd
    exact ⟨o, find?_of_mem_firstOfEach ho, rfl⟩
  · intro c hc
    rw [conflicts_eq] at hc
    obtain ⟨o, ho, hc⟩ := List.mem_filterMap.1 hc
    have hfirst := find?_of_mem_firstOfEach ho
    rw [List.find?_filter] at hfirst
    have hname := name_of_conflictOf? hc
    simp only [conflictOf?, Option.bind_eq_bind, Option.bind_eq_some_iff, Option.some.injEq] at hc
    obtain ⟨prompt, hprompt, first, hknown, rfl⟩ := hc
    refine ⟨o, prompt, first, ?_, hprompt, hknown, rfl⟩
    simpa [hname, and_comm] using hfirst
  · rw [conflicts_eq_nil_iff]
    constructor
    · intro h o ho prompt hprompt
      have hfirst : firstPrompt? o.name (occurrences ns) = o.prompt :=
        not_not.1 fun hne => h o ho ⟨by simp [hprompt], hne⟩
      obtain ⟨d, hd, hname, hd_prompt⟩ := exists_definition ho
      exact ⟨d, hd, hname, by rw [hd_prompt, hfirst, hprompt]⟩
    · rintro h o ho ⟨hsome, hne⟩
      obtain ⟨prompt, hprompt⟩ := Option.isSome_iff_exists.1 hsome
      obtain ⟨d, hd, hname, hd_prompt⟩ := h o ho prompt hprompt
      exact hne (by rw [← hname, ← prompt_of_mem_definitions hd, hd_prompt, hprompt])

-- The prompt may come late, and only the first one that differs from it is reported.
example :
    conflictsFrom [] [] [⟨"a", "x", none⟩, ⟨"b", "x", some "1"⟩, ⟨"c", "x", some "2"⟩,
      ⟨"d", "x", some "3"⟩] = [conflict ⟨"c", "x", some "2"⟩ "2" "1"] := by
  decide

end Variable

end LiveDoc
