import LiveDoc.Markup.Event
import LiveDoc.Markup.Layout
import LiveDoc.Proofs.Outcome

/-!
# Writing and reading tags

Escaped text is read as the text, and the attributes of a tag as the ones that were written, if
their names are such that they end where they should.
-/

set_option autoImplicit false
set_option relaxedAutoImplicit false

namespace LiveDoc.Markup

section Escape

theorem unescapeFrom?_append {mode : Option (List Char)} {first plain : List Char}
    (h : unescapeFrom? mode first = some plain) (second : List Char) :
    unescapeFrom? mode (first ++ second) = (unescapeChars? second).map (plain ++ ·) := by
  induction first generalizing mode plain with
  | nil =>
    cases mode with
    | none =>
      obtain rfl : plain = [] := by simpa [unescapeFrom?] using h.symm
      simp [unescapeChars?]
    | some name => simp [unescapeFrom?] at h
  | cons c rest ih =>
    cases mode with
    | none =>
      simp only [List.cons_append, unescapeFrom?] at h ⊢
      split at h
      · rename_i hc
        rw [if_pos hc]
        exact ih h
      · rename_i hc
        obtain ⟨after, hafter, rfl⟩ := Option.map_eq_some_iff.1 h
        rw [if_neg hc, ih hafter]
        cases unescapeChars? second <;> simp
    | some name =>
      simp only [List.cons_append, unescapeFrom?] at h ⊢
      split at h
      · rename_i hc
        simp only [Option.bind_eq_bind, Option.bind_eq_some_iff, Option.some_inj] at h
        obtain ⟨meant, hmeant, after, hafter, rfl⟩ := h
        rw [if_pos hc, hmeant, Option.bind_eq_bind, Option.bind_some, ih hafter]
        cases unescapeChars? second <;> simp
      · rename_i hc
        split at h
        · simp at h
        · rename_i hamp
          rw [if_neg hc, if_neg hamp]
          exact ih h

theorem unescapeChars?_append {first plain : List Char} (h : unescapeChars? first = some plain)
    (second : List Char) :
    unescapeChars? (first ++ second) = (unescapeChars? second).map (plain ++ ·) :=
  unescapeFrom?_append h second

theorem unescapeChars?_escapeChar (c : Char) : unescapeChars? (escapeChar c) = some [c] := by
  unfold escapeChar
  repeat' split
  all_goals first | (subst_vars; decide) | simp_all [unescapeChars?, unescapeFrom?]

theorem unescapeChars?_escapeChars (cs : List Char) :
    unescapeChars? (escapeChars cs) = some cs := by
  induction cs with
  | nil => rfl
  | cons c rest ih =>
    have hcons : escapeChars (c :: rest) = escapeChar c ++ escapeChars rest := rfl
    rw [hcons, unescapeChars?_append (unescapeChars?_escapeChar c), ih]
    rfl

/-- A character that neither begins or ends a tag nor is a quote. -/
def isPlain (c : Char) : Bool := c ≠ '<' && c ≠ '>' && c ≠ '"' && c ≠ '\''

theorem isPlain_of_mem_escapeChars {cs : List Char} {c : Char} (h : c ∈ escapeChars cs) :
    isPlain c = true := by
  obtain ⟨d, -, hd⟩ := List.mem_flatMap.1 h
  have hplain : ∀ c ∈ escapeChar d, isPlain c = true := by
    unfold escapeChar
    repeat' split
    all_goals simp_all [isPlain]
  exact hplain c hd

theorem escapeChars_of_blank {cs : List Char} (h : ∀ c ∈ cs, Text.isBlank c = true) :
    escapeChars cs = cs := by
  induction cs with
  | nil => rfl
  | cons c rest ih =>
    simp only [List.mem_cons, forall_eq_or_imp] at h
    have hchar : escapeChar c = [c] := by
      unfold escapeChar
      repeat' split
      all_goals first | (subst_vars; exact absurd h.1 (by decide)) | rfl
    rw [escapeChars, List.flatMap_cons, hchar]
    exact congrArg (c :: ·) (ih h.2)

end Escape

section Attributes

def isInner (c : Char) : Bool := c ≠ '>' && c ≠ '"' && c ≠ '\''

/-- A name that is read as the name of an attribute and ends at its sign. -/
def isAttributeName (name : String) : Bool :=
  match name.toList with
  | [] => false
  | c :: rest =>
    !isSpace c && rest.all (fun d => !isSpace d && d ≠ '=') && (c :: rest).all isInner

def attributeChars (attributes : List (String × String)) : List Char :=
  attributes.flatMap fun a =>
    ' ' :: (a.1.toList ++ '=' :: '"' :: (escapeChars a.2.toList ++ ['"']))

namespace Attribute

variable {done : List (String × String)} {rest : List Char}

private theorem readFrom_name {name : String} {seen cs : List Char}
    (hcs : ∀ d ∈ cs, isSpace d = false ∧ d ≠ '=')
    (hname : name = String.ofList (seen.reverse ++ cs))
    (hnew : taken name done = false) :
    readFrom (.name seen) done (cs ++ '=' :: rest) = readFrom (.signed name) done rest := by
  induction cs generalizing seen with
  | nil => simp_all [readFrom]
  | cons c cs ih =>
    simp only [List.mem_cons, forall_eq_or_imp] at hcs
    rw [List.cons_append, readFrom, if_neg hcs.1.2, if_neg (by simp [hcs.1.1])]
    exact ih hcs.2 (by simp [hname])

private theorem readFrom_value {name : String} {seen cs : List Char} (hcs : ∀ d ∈ cs, d ≠ '"') :
    readFrom (.value name '"' seen) done (cs ++ '"' :: rest) =
      readFrom (.value name '"' (cs.reverse ++ seen)) done ('"' :: rest) := by
  induction cs generalizing seen with
  | nil => rfl
  | cons c cs ih =>
    simp only [List.mem_cons, forall_eq_or_imp] at hcs
    rw [List.cons_append, readFrom, if_neg hcs.1, ih hcs.2]
    simp

private theorem readFrom_attribute {name value : String} (hname : isAttributeName name = true)
    (hnew : taken name done = false) :
    readFrom .before done
        (' ' :: (name.toList ++ '=' :: '"' :: (escapeChars value.toList ++ '"' :: rest))) =
      readFrom .before ((name, value) :: done) rest := by
  have hquote (d : Char) (hd : d ∈ escapeChars value.toList) : d ≠ '"' := by
    have hplain := isPlain_of_mem_escapeChars hd
    simp only [isPlain, Bool.and_eq_true, decide_eq_true_eq] at hplain
    exact hplain.1.2
  unfold isAttributeName at hname
  split at hname
  · simp at hname
  · rename_i c cs hcs
    simp only [Bool.and_eq_true, Bool.not_eq_true', List.all_eq_true, decide_eq_true_eq] at hname
    obtain ⟨⟨hfirst, hlater⟩, -⟩ := hname
    have hofList : name = String.ofList ([c].reverse ++ cs) := by simp [← hcs]
    rw [hcs, readFrom, if_pos (by decide), List.cons_append, readFrom, if_neg (by simp [hfirst]),
      readFrom_name hlater hofList hnew, readFrom, if_neg (by decide), if_pos (by decide),
      readFrom_value hquote, readFrom, if_pos rfl]
    simp [unescapeChars?_escapeChars]

private theorem readFrom_attributeChars {attributes : List (String × String)}
    (hnames : ∀ a ∈ attributes, isAttributeName a.1 = true)
    (hnodup : (done.map Prod.fst ++ attributes.map Prod.fst).Nodup) :
    readFrom .before done (attributeChars attributes) = .ok (done.reverse ++ attributes) := by
  induction attributes generalizing done with
  | nil => simp [attributeChars, readFrom]
  | cons a attributes ih =>
    obtain ⟨name, value⟩ := a
    simp only [List.mem_cons, forall_eq_or_imp] at hnames
    have hchars : attributeChars ((name, value) :: attributes) =
        ' ' :: (name.toList ++ '=' :: '"' ::
          (escapeChars value.toList ++ '"' :: attributeChars attributes)) := by
      simp [attributeChars]
    have hnew : taken name done = false := by
      simp only [taken, List.any_eq_false, decide_eq_true_eq]
      rintro other hother rfl
      rw [List.map_cons, List.nodup_append] at hnodup
      exact hnodup.2.2 _ (List.mem_map_of_mem hother) _ List.mem_cons_self rfl
    have hrest : (((name, value) :: done).map Prod.fst ++ attributes.map Prod.fst).Nodup := by
      refine List.Perm.nodup ?_ hnodup
      simp
    rw [hchars, readFrom_attribute hnames.1 hnew, ih hnames.2 hrest]
    simp

theorem read_attributeChars {attributes : List (String × String)}
    (hnames : ∀ a ∈ attributes, isAttributeName a.1 = true)
    (hnodup : (attributes.map Prod.fst).Nodup) :
    read (attributeChars attributes) = .ok attributes :=
  readFrom_attributeChars hnames (by simpa using hnodup)

end Attribute

end Attributes

section Tags

def isTagName (name : String) : Bool :=
  !name.isEmpty && name.toList.all fun c => c.isAlphanum || c = ':'

/-- The characters of a tag between its brackets, without the slash of an empty one. -/
def tagChars (name : String) (attributes : List (String × String)) : List Char :=
  name.toList ++ attributeChars attributes

/-- A tag that is read as it is written: its name and those of its attributes end where they should,
and no attribute is given twice. -/
structure Writable (name : String) (attributes : List (String × String)) : Prop where
  tag : isTagName name = true
  names : ∀ a ∈ attributes, isAttributeName a.1 = true
  nodup : (attributes.map Prod.fst).Nodup

variable {name : String} {attributes : List (String × String)}

theorem isTagName_char (h : isTagName name = true) {c : Char} (hc : c ∈ name.toList) :
    isSpace c = false ∧ isInner c = true ∧ c ≠ '/' ∧ c ≠ '!' ∧ c ≠ '?' := by
  simp only [isTagName, Bool.and_eq_true, List.all_eq_true] at h
  have hword := h.2 c hc
  refine ⟨?_, ?_, ?_, ?_, ?_⟩
  · cases hspace : isSpace c with
    | false => rfl
    | true =>
      simp only [isSpace, Bool.or_eq_true, decide_eq_true_eq] at hspace
      rcases hspace with ((rfl | rfl) | rfl) | rfl <;> exact absurd hword (by decide)
  · simp only [isInner, Bool.and_eq_true, decide_eq_true_eq]
    refine ⟨⟨?_, ?_⟩, ?_⟩ <;> rintro rfl <;> exact absurd hword (by decide)
  all_goals rintro rfl; exact absurd hword (by decide)

theorem Event.ofTag_tagChars (h : Writable name attributes) (single : Bool) (start : Nat) :
    Event.ofTag (tagChars name attributes) single start =
      .ok (if single then .empty name attributes else .opens name attributes) := by
  have hname (c : Char) (hc : c ∈ name.toList) : (!isSpace c) = true := by
    simp [(isTagName_char h.tag hc).1]
  have hfirst : (attributeChars attributes).takeWhile (!isSpace ·) = [] ∧
      (attributeChars attributes).dropWhile (!isSpace ·) = attributeChars attributes := by
    cases attributes with
    | nil => simp [attributeChars]
    | cons a rest => simp [attributeChars, isSpace]
  rw [Event.ofTag, tagChars, List.takeWhile_append_of_pos hname, List.dropWhile_append_of_pos hname,
    hfirst.1, hfirst.2, Attribute.read_attributeChars h.names h.nodup]
  simp

end Tags

end LiveDoc.Markup
