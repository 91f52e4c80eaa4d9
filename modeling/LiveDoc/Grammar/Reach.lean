import LiveDoc.Grammar.Rule

/-!
# Reachable terminals

Collecting the terminals that can be reached from a rule, in the order in which they are met. Every
element and every reference is followed only once, so rules may refer to themselves.
-/

set_option autoImplicit false
set_option relaxedAutoImplicit false

namespace LiveDoc.Grammar

/-- An element with the rule for its children. -/
structure Terminal where
  spec : ElementSpec
  children : Option Rule

/-- What has been met: terminals in order, references, and those of them that lead nowhere. -/
structure Met where
  terminals : List Terminal
  references : List String
  dangling : List String

namespace Met

def nothing : Met := ⟨[], [], []⟩

def hasElement (m : Met) (name : String) : Bool :=
  m.terminals.any (·.spec.name = name)

def addTerminal (m : Met) (t : Terminal) : Met :=
  { m with terminals := m.terminals ++ [t] }

def addReference (m : Met) (name : String) : Met :=
  { m with references := name :: m.references }

def addDangling (m : Met) (name : String) : Met :=
  { m with dangling := m.dangling ++ [name] }

end Met

mutual

/-- Collects from a rule. `descend` says whether the children of a terminal belong to it, and
`follow` collects from the rule behind a reference. -/
def Rule.collect (rules : Rules) (descend : Bool) (follow : Rule → Met → Met) : Rule → Met → Met
  | .terminal spec none, m =>
    if m.hasElement spec.name then m else m.addTerminal ⟨spec, none⟩
  | .terminal spec (some children), m =>
    if m.hasElement spec.name then m
    else
      let m := m.addTerminal ⟨spec, some children⟩
      if descend then children.collect rules descend follow m else m
  | .choice alternatives, m => Rule.collectAll rules descend follow alternatives m
  | .sequence parts, m => Rule.collectAll rules descend follow parts m
  | .repeated inner, m => inner.collect rules descend follow m
  | .optional inner, m => inner.collect rules descend follow m
  | .ref name, m =>
    if name ∈ m.references then m
    else
      match rules.get? name with
      | some target => follow target (m.addReference name)
      | none => (m.addReference name).addDangling name
termination_by structural rule => rule

def Rule.collectAll (rules : Rules) (descend : Bool) (follow : Rule → Met → Met) :
    List Rule → Met → Met
  | [], m => m
  | rule :: rest, m =>
    Rule.collectAll rules descend follow rest (rule.collect rules descend follow m)
termination_by structural rules => rules

end

/-- Collects through at most `depth` references one behind another. -/
def Rules.collectWithin (rules : Rules) (descend : Bool) : Nat → Rule → Met → Met
  | 0, _, m => m
  | depth + 1, rule, m => rule.collect rules descend (rules.collectWithin descend depth) m

/-- Collects from a rule. References one behind another have different names, so there are at most
as many of them as rules. -/
def Rules.collect (rules : Rules) (descend : Bool) (rule : Rule) (m : Met) : Met :=
  rules.collectWithin descend (rules.length + 1) rule m

/-- The terminals of all rules, those of the children of a terminal right behind it. -/
def Rules.terminals (rules : Rules) : Met :=
  rules.foldl (fun m named => rules.collect true named.2 m) .nothing

/-- The elements that a rule for children allows. -/
def Rules.allowed (rules : Rules) (children : Rule) : List String :=
  (rules.collect false children .nothing).terminals.map (·.spec.name)

end LiveDoc.Grammar
