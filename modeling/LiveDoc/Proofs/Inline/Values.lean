import LiveDoc.Proofs.Reading.InlineForm
import LiveDoc.Variable.Value

/-!
# Values of variables in inline content

Inline content with other values in its variables. A value that is written is read again as the text
that it is written as, so a value and its text are told apart neither in markup nor in plain text.
-/

set_option autoImplicit false
set_option relaxedAutoImplicit false

namespace LiveDoc.Inline

mutual

/-- A piece with other values in its variables, by their names and the values they have. -/
def mapValues (f : String → Option Json → Option Json) : Inline → Inline
  | .text chars styles => .text chars styles
  | .var name prompt value => .var name prompt (f name value)
  | .mention kind ident label => .mention kind ident label
  | .link href content => .link href (mapValuesAll f content)
  | .note title comment content => .note title comment (mapValuesAll f content)
termination_by structural i => i

def mapValuesAll (f : String → Option Json → Option Json) : List Inline → List Inline
  | [] => []
  | item :: rest => item.mapValues f :: mapValuesAll f rest
termination_by structural items => items

end

/-- The value from a table under the name of a variable, else the one that the variable has. -/
def given (values : Table Json) (name : String) (own : Option Json) : Option Json :=
  (values.get? name).or own

/-- The text of the value of a variable in place of the value. -/
def asText (_ : String) (own : Option Json) : Option Json :=
  own.map fun value => .str value.plainText

variable {f f' : String → Option Json → Option Json} {item : Inline} {rest content : List Inline}

theorem plainText_asText (name : String) (own : Option Json) :
    (asText name own).map Json.plainText = own.map Json.plainText := by
  cases own <;> rfl

theorem eq_str_of_mem_asText {name : String} {own : Option Json} :
    ∀ value ∈ asText name own, ∃ s, value = .str s := by
  cases own with
  | none => simp [asText]
  | some value => simp [asText]

mutual

private theorem withValues_eq (values : Table Json) : ∀ item : Inline,
    item.withValues values = item.mapValues (given values)
  | .text .. => rfl
  | .var .. => rfl
  | .mention .. => rfl
  | .link href content => congrArg (link href) (withValuesAll_eq values content)
  | .note title comment content => congrArg (note title comment) (withValuesAll_eq values content)
termination_by structural item => item

theorem withValuesAll_eq (values : Table Json) : ∀ content : List Inline,
    withValuesAll values content = mapValuesAll (given values) content
  | [] => rfl
  | item :: rest => congrArg₂ List.cons (withValues_eq values item) (withValuesAll_eq values rest)
termination_by structural content => content

end

mutual

private theorem mapValues_mapValues : ∀ item : Inline,
    (item.mapValues f).mapValues f' = item.mapValues fun name own => f' name (f name own)
  | .text .. => rfl
  | .var .. => rfl
  | .mention .. => rfl
  | .link href content => congrArg (link href) (mapValuesAll_mapValuesAll content)
  | .note title comment content => congrArg (note title comment) (mapValuesAll_mapValuesAll content)
termination_by structural item => item

theorem mapValuesAll_mapValuesAll : ∀ content : List Inline,
    mapValuesAll f' (mapValuesAll f content) =
      mapValuesAll (fun name own => f' name (f name own)) content
  | [] => rfl
  | item :: rest => congrArg₂ List.cons (mapValues_mapValues item) (mapValuesAll_mapValuesAll rest)
termination_by structural content => content

end

mutual

private theorem pieces_mapValues : ∀ item : Inline,
    (item.mapValues f).pieces = item.pieces.map (mapValues f)
  | .text .. => rfl
  | .var .. => rfl
  | .mention .. => rfl
  | .link _ content => congrArg (_ :: ·) (piecesOf_mapValuesAll content)
  | .note _ _ content => congrArg (_ :: ·) (piecesOf_mapValuesAll content)
termination_by structural item => item

theorem piecesOf_mapValuesAll : ∀ content : List Inline,
    piecesOf (mapValuesAll f content) = (piecesOf content).map (mapValues f)
  | [] => rfl
  | item :: rest => by
    rw [mapValuesAll, piecesOf, pieces_mapValues item, piecesOf_mapValuesAll rest, piecesOf,
      List.map_append]
termination_by structural content => content

end

theorem isEmpty_mapValuesAll (content : List Inline) :
    (mapValuesAll f content).isEmpty = content.isEmpty := by
  cases content <;> rfl

mutual

private theorem print_mapValues
    (hf : ∀ name own, (f name own).map Json.plainText = own.map Json.plainText) :
    ∀ item : Inline, (item.mapValues f).print = item.print
  | .text .. => rfl
  | .var name prompt value => by rw [mapValues, print, hf, print]
  | .mention .. => rfl
  | .link href content => by rw [mapValues, print, print_mapValuesAll hf content, print]
  | .note title comment content => by rw [mapValues, print, print_mapValuesAll hf content, print]
termination_by structural item => item

theorem print_mapValuesAll
    (hf : ∀ name own, (f name own).map Json.plainText = own.map Json.plainText) :
    ∀ content : List Inline, printAll (mapValuesAll f content) = printAll content
  | [] => rfl
  | item :: rest => by
    rw [mapValuesAll, printAll, print_mapValues hf item, print_mapValuesAll hf rest, printAll]
termination_by structural content => content

end

mutual

private theorem plainWith_mapValues (shown : String → Option Json → String) : ∀ item : Inline,
    (item.mapValues f).plainWith shown = item.plainWith fun name own => shown name (f name own)
  | .text .. => rfl
  | .var .. => rfl
  | .mention .. => rfl
  | .link _ content => plainWithAll_mapValuesAll shown content
  | .note _ _ content => plainWithAll_mapValuesAll shown content
termination_by structural item => item

theorem plainWithAll_mapValuesAll (shown : String → Option Json → String) :
    ∀ content : List Inline, plainWithAll shown (mapValuesAll f content) =
      plainWithAll (fun name own => shown name (f name own)) content
  | [] => rfl
  | item :: rest =>
    congrArg₂ (· ++ ·) (plainWith_mapValues shown item) (plainWithAll_mapValuesAll shown rest)
termination_by structural content => content

end

theorem interpolate_asText (values : Table Json) (content : List Inline) :
    interpolate values (mapValuesAll asText content) = interpolate values content := by
  rw [interpolate, interpolate, plainWithAll_mapValuesAll]
  congr 1
  funext name own
  cases values.get? name with
  | some value => rfl
  | none => cases own <;> rfl

theorem joins_mapValues : joins (item.mapValues f) (mapValuesAll f rest) = joins item rest := by
  cases rest with
  | nil => cases item <;> rfl
  | cons next after => cases item <;> cases next <;> rfl

section Canonical

variable {g : Grammar}

private theorem checkAttributes_var (hg : g.Printable) {name : String} {prompt : Option String}
    {value : Option Json}
    (h : g.checkAttributes "variable" (Inline.var name prompt value).attributes = [])
    (other : Option Json) :
    g.checkAttributes "variable" (Inline.var name prompt other).attributes = [] := by
  have hmem : ("variable", ["name"]) ∈ Grammar.writtenInlines := by decide
  refine Reading.checkAttributes_written hg hmem (by decide) (hg.inline_type _ hmem) h ?_
  simp [attributes, Markup.value?_cons_self]

mutual

private theorem Canonical.mapValues (hg : g.Printable)
    (hf : ∀ name own, ∀ j ∈ f name own, ∃ s, j = .str s) :
    ∀ {item : Inline}, item.Canonical g → (item.mapValues f).Canonical g
  | _, .text ne known => .text ne known
  | _, .var checked prompted _ => .var (checkAttributes_var hg checked _) prompted (hf _ _)
  | _, .mention checked => .mention checked
  | _, .link checked inside => .link checked (inside.mapValuesAll hg hf)
  | _, .note checked inside => .note checked (inside.mapValuesAll hg hf)

theorem CanonicalAll.mapValuesAll (hg : g.Printable)
    (hf : ∀ name own, ∀ j ∈ f name own, ∃ s, j = .str s) :
    ∀ {content : List Inline}, CanonicalAll g content →
      CanonicalAll g (Inline.mapValuesAll f content)
  | _, .nil => .nil
  | _, .cons first apart after =>
    .cons (first.mapValues hg hf) (joins_mapValues.trans apart) (after.mapValuesAll hg hf)

end

end Canonical

end LiveDoc.Inline
