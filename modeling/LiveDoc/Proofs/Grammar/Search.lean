import LiveDoc.Grammar.Reach
import Mathlib.Data.Finset.Card
import Mathlib.Logic.Relation

/-!
# Collecting as a search

Collecting terminals, step by step: the first rule that waits gives way to the rules that it leads
to. No search goes on forever, and collecting from a rule is what the search that begins with it
comes to, so the bound on references one behind another is never met.
-/

set_option autoImplicit false
set_option relaxedAutoImplicit false

namespace LiveDoc.Grammar

/-- How far a search has come: the rules that wait, the next one in front, and what has been met. -/
structure Search where
  waiting : List Rule
  met : Met

namespace Search

/-- One step of a search. Terminals and references that have been met before lead to nothing, and
`descend` says whether a terminal leads to its children. -/
inductive Step (rules : Rules) (descend : Bool) : Search → Search → Prop
  | again {spec : ElementSpec} {children : Option Rule} {rest : List Rule} {m : Met}
    (met : m.hasElement spec.name = true) :
    Step rules descend ⟨.terminal spec children :: rest, m⟩ ⟨rest, m⟩
  | terminal {spec : ElementSpec} {children : Option Rule} {rest : List Rule} {m : Met}
    (new : m.hasElement spec.name = false) :
    Step rules descend ⟨.terminal spec children :: rest, m⟩
      ⟨(if descend then children.toList else []) ++ rest, m.addTerminal ⟨spec, children⟩⟩
  | choice {parts rest : List Rule} {m : Met} :
    Step rules descend ⟨.choice parts :: rest, m⟩ ⟨parts ++ rest, m⟩
  | sequence {parts rest : List Rule} {m : Met} :
    Step rules descend ⟨.sequence parts :: rest, m⟩ ⟨parts ++ rest, m⟩
  | repeated {inner : Rule} {rest : List Rule} {m : Met} :
    Step rules descend ⟨.repeated inner :: rest, m⟩ ⟨inner :: rest, m⟩
  | optional {inner : Rule} {rest : List Rule} {m : Met} :
    Step rules descend ⟨.optional inner :: rest, m⟩ ⟨inner :: rest, m⟩
  | known {name : String} {rest : List Rule} {m : Met} (met : name ∈ m.references) :
    Step rules descend ⟨.ref name :: rest, m⟩ ⟨rest, m⟩
  | follow {name : String} {target : Rule} {rest : List Rule} {m : Met}
    (new : name ∉ m.references) (found : rules.get? name = some target) :
    Step rules descend ⟨.ref name :: rest, m⟩ ⟨target :: rest, m.addReference name⟩
  | dangling {name : String} {rest : List Rule} {m : Met} (new : name ∉ m.references)
    (missing : rules.get? name = none) :
    Step rules descend ⟨.ref name :: rest, m⟩ ⟨rest, (m.addReference name).addDangling name⟩

/-- Steps of a search, one after the other. -/
abbrev Run (rules : Rules) (descend : Bool) : Search → Search → Prop :=
  Relation.ReflTransGen (Step rules descend)

end Search

variable {rules : Rules} {descend : Bool} {m : Met}

/-- How many rules have not been referred to yet. -/
def Rules.unvisited (rules : Rules) (m : Met) : Nat :=
  ((rules.map Prod.fst).toFinset \ m.references.toFinset).card

theorem Rules.unvisited_le_length : rules.unvisited m ≤ rules.length :=
  calc rules.unvisited m ≤ (rules.map Prod.fst).toFinset.card :=
        Finset.card_le_card Finset.sdiff_subset
    _ ≤ (rules.map Prod.fst).length := List.toFinset_card_le _
    _ = rules.length := List.length_map _

theorem Rules.unvisited_mono {after : Met} (h : m.references ⊆ after.references) :
    rules.unvisited after ≤ rules.unvisited m := by
  refine Finset.card_le_card (Finset.sdiff_subset_sdiff subset_rfl fun name hname => ?_)
  exact List.mem_toFinset.2 (h (List.mem_toFinset.1 hname))

theorem Rules.mem_of_get? {name : String} {target : Rule} (h : rules.get? name = some target) :
    (name, target) ∈ rules := by
  obtain ⟨⟨other, found⟩, hfind, rfl⟩ := Option.map_eq_some_iff.1 h
  obtain rfl : other = name := by simpa using List.find?_some hfind
  exact List.mem_of_find?_eq_some hfind

theorem Rules.unvisited_addReference {name : String} {target : Rule}
    (h : rules.get? name = some target) (hnew : name ∉ m.references) :
    rules.unvisited (m.addReference name) < rules.unvisited m := by
  have hname : name ∈ rules.map Prod.fst := List.mem_map_of_mem (Rules.mem_of_get? h)
  refine Finset.card_lt_card (Finset.ssubset_iff_of_subset ?_ |>.2 ⟨name, ?_, ?_⟩)
  · refine Finset.sdiff_subset_sdiff subset_rfl fun other hother => ?_
    exact List.mem_toFinset.2 (List.mem_cons_of_mem _ (List.mem_toFinset.1 hother))
  · simp [hname, hnew]
  · simp [Met.addReference]

namespace Search

variable {before after : Search}

theorem Step.grows (h : Step rules descend before after) :
    before.met.references ⊆ after.met.references ∧
      before.met.terminals ⊆ after.met.terminals := by
  cases h <;> simp [Met.addTerminal, Met.addReference, Met.addDangling]

private theorem sizeOf_append (parts rest : List Rule) :
    sizeOf (parts ++ rest) + 1 = sizeOf parts + sizeOf rest := by
  induction parts with
  | nil => simp [Nat.add_comm]
  | cons part parts ih => simp only [List.cons_append, List.cons.sizeOf_spec]; omega

theorem Step.decreases (h : Step rules descend before after) :
    rules.unvisited after.met < rules.unvisited before.met ∨
      sizeOf after.waiting < sizeOf before.waiting := by
  cases h with
  | @terminal spec children rest m new =>
    right
    have hchildren : sizeOf (if descend then children.toList else []) ≤ sizeOf children + 1 := by
      cases descend <;> cases children <;> simp
    have happend := sizeOf_append (if descend then children.toList else []) rest
    simp only [List.cons.sizeOf_spec, Rule.terminal.sizeOf_spec]
    omega
  | @choice parts rest m =>
    right
    have happend := sizeOf_append parts rest
    simp only [List.cons.sizeOf_spec, Rule.choice.sizeOf_spec]
    omega
  | @sequence parts rest m =>
    right
    have happend := sizeOf_append parts rest
    simp only [List.cons.sizeOf_spec, Rule.sequence.sizeOf_spec]
    omega
  | follow new found => exact .inl (Rules.unvisited_addReference found new)
  | _ => right; simp only [List.cons.sizeOf_spec, Rule.repeated.sizeOf_spec,
      Rule.optional.sizeOf_spec]; omega

theorem step_wellFounded : WellFounded (flip (Step rules descend)) := by
  let rank (s : Search) : Nat × Nat := (rules.unvisited s.met, sizeOf s.waiting)
  refine Subrelation.wf (fun {after before} hstep => ?_)
    (InvImage.wf rank (Prod.lex ⟨_, wellFounded_lt⟩ ⟨_, wellFounded_lt⟩).wf)
  change Step rules descend before after at hstep
  have hmono : rules.unvisited after.met ≤ rules.unvisited before.met :=
    Rules.unvisited_mono hstep.grows.1
  rcases hmono.lt_or_eq with hless | heq
  · exact .left _ _ hless
  · exact Prod.lex_def.2 (.inr ⟨heq, hstep.decreases.resolve_left heq.not_lt⟩)

theorem Run.induct {P : Search → Prop} (hrun : Run rules descend before after)
    (hstep : ∀ s t, Step rules descend s t → P s → P t) (h : P before) : P after := by
  induction hrun with
  | refl => exact h
  | tail _ hlast ih => exact hstep _ _ hlast ih

theorem Run.references_subset (hrun : Run rules descend before after) :
    before.met.references ⊆ after.met.references :=
  hrun.induct (P := fun s => before.met.references ⊆ s.met.references)
    (fun _ _ hstep h _ hname => hstep.grows.1 (h hname)) fun _ hname => hname

end Search

open Search (Run Step)

section Collect

variable {follow : Rule → Met → Met} {depth : Nat}

/-- Following a reference is a run, if fewer than `depth` rules have not been referred to. -/
private def Follows (rules : Rules) (descend : Bool) (depth : Nat) (follow : Rule → Met → Met) :
    Prop :=
  ∀ target m rest, rules.unvisited m < depth →
    Run rules descend ⟨target :: rest, m⟩ ⟨rest, follow target m⟩

mutual

private theorem run_rule (hfollow : Follows rules descend depth follow) : ∀ (rule : Rule) (m : Met)
    (rest : List Rule), rules.unvisited m < depth + 1 →
      Run rules descend ⟨rule :: rest, m⟩ ⟨rest, rule.collect rules descend follow m⟩
  | .terminal spec none, m, rest, hleft => by
    rw [Rule.collect]
    split
    · rename_i hmet
      exact .single (.again hmet)
    · rename_i hnew
      have hstep : Step rules descend ⟨.terminal spec none :: rest, m⟩ _ :=
        .terminal (Bool.eq_false_iff.2 hnew)
      simpa using Relation.ReflTransGen.single hstep
  | .terminal spec (some children), m, rest, hleft => by
    rw [Rule.collect]
    split
    · rename_i hmet
      exact .single (.again hmet)
    · rename_i hnew
      have hstep : Step rules descend ⟨.terminal spec (some children) :: rest, m⟩ _ :=
        .terminal (Bool.eq_false_iff.2 hnew)
      dsimp only
      split
      · rename_i hinner
        have hchildren := run_rule hfollow children (m.addTerminal ⟨spec, some children⟩) rest hleft
        exact .head (by simpa [hinner] using hstep) hchildren
      · rename_i houter
        exact .single (by simpa [houter] using hstep)
  | .choice parts, m, rest, hleft => .head .choice (run_rules hfollow parts m rest hleft)
  | .sequence parts, m, rest, hleft => .head .sequence (run_rules hfollow parts m rest hleft)
  | .repeated inner, m, rest, hleft => .head .repeated (run_rule hfollow inner m rest hleft)
  | .optional inner, m, rest, hleft => .head .optional (run_rule hfollow inner m rest hleft)
  | .ref name, m, rest, hleft => by
    rw [Rule.collect]
    split
    · rename_i hmet
      exact .single (.known hmet)
    · rename_i hnew
      split
      · rename_i target hfound
        have hless := Rules.unvisited_addReference hfound hnew
        exact .head (.follow hnew hfound) (hfollow target _ rest (by omega))
      · rename_i hmissing
        exact .single (.dangling hnew hmissing)

private theorem run_rules (hfollow : Follows rules descend depth follow) :
    ∀ (parts : List Rule) (m : Met) (rest : List Rule), rules.unvisited m < depth + 1 →
      Run rules descend ⟨parts ++ rest, m⟩ ⟨rest, Rule.collectAll rules descend follow parts m⟩
  | [], _, _, _ => .refl
  | part :: parts, m, rest, hleft => by
    have hfirst := run_rule hfollow part m (parts ++ rest) hleft
    have hfewer : rules.unvisited (part.collect rules descend follow m) ≤ rules.unvisited m :=
      Rules.unvisited_mono hfirst.references_subset
    exact hfirst.trans (run_rules hfollow parts _ rest (by omega))

end

end Collect

private theorem run_collectWithin (depth : Nat) :
    Follows rules descend depth (rules.collectWithin descend depth) := by
  induction depth with
  | zero => exact fun _ _ _ hleft => absurd hleft (Nat.not_lt_zero _)
  | succ depth ih => exact fun rule m rest hleft => run_rule ih rule m rest hleft

theorem Rules.run_collect (rules : Rules) (descend : Bool) (rule : Rule) (m : Met)
    (rest : List Rule) :
    Run rules descend ⟨rule :: rest, m⟩ ⟨rest, rules.collect descend rule m⟩ :=
  run_collectWithin _ rule m rest (Nat.lt_succ_of_le Rules.unvisited_le_length)

theorem Rules.run_terminals (rules : Rules) :
    Run rules true ⟨rules.map Prod.snd, .nothing⟩ ⟨[], rules.terminals⟩ := by
  have hfold (named : List (String × Rule)) (m : Met) :
      Run rules true ⟨named.map Prod.snd, m⟩
        ⟨[], named.foldl (fun m named => rules.collect true named.2 m) m⟩ := by
    induction named generalizing m with
    | nil => exact .refl
    | cons first named ih => exact (rules.run_collect true first.2 m _).trans (ih _)
  exact hfold rules .nothing

end LiveDoc.Grammar
