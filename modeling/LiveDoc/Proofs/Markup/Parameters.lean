import LiveDoc.Json.Printer
import LiveDoc.Proofs.Markup.Written

/-!
# Parameters in sections

Text that is written in sections is read as these sections, each up to the first end of one, with
nothing between them, wherever it stands. So the JSON text of parameters comes out of the element in
which it is written as it is.
-/

set_option autoImplicit false
set_option relaxedAutoImplicit false

namespace LiveDoc.Markup

open Token (Endless sectionEnd scan)

/-- Tokens in front of what follows them. -/
def Token.Cut.after (tokens : List (Placed Token)) (rest : Cut) : Cut :=
  { rest with tokens := tokens ++ rest.tokens }

def sectionChars (inside : List Char) : List Char :=
  '<' :: ("![CDATA[".toList ++ (inside ++ sectionEnd))

private theorem flatMap_between (opening ending first : List Char) (parts : List (List Char)) :
    opening ++ (first ++ parts.flatMap (ending ++ opening ++ ·) ++ ending) =
      (first :: parts).flatMap fun part => opening ++ (part ++ ending) := by
  rw [List.flatMap_cons]
  induction parts generalizing first with
  | nil => simp
  | cons part parts ih =>
    rw [List.flatMap_cons, List.flatMap_cons, ← ih part]
    simp

theorem toList_sections (chars : String) :
    (sections chars).toList = ((sectionParts chars).map String.toList).flatMap sectionChars := by
  obtain ⟨first, parts, hcut, hsplit, -⟩ := cutEnds_eq chars.toList
  have hparts : (sectionParts chars).map String.toList = first :: parts := by
    simp [sectionParts, hcut, Function.comp_def]
  rw [hparts]
  have hrow := flatMap_between "<![CDATA[".toList sectionEnd first parts
  rw [← hsplit] at hrow
  have hend : "]]>".toList = sectionEnd := by decide
  have hopen (inside : List Char) :
      "<![CDATA[".toList ++ (inside ++ sectionEnd) = sectionChars inside := rfl
  rw [sections, String.toList_append, String.toList_append, hend, List.append_assoc,
    @String.toList_ofList (splitEnds chars.toList)]
  exact hrow

theorem sections_eq_join (chars : String) :
    sections chars =
      String.join ((sectionParts chars).map fun part => "<![CDATA[" ++ part ++ "]]>") := by
  have hchars (part : String) :
      ("<![CDATA[" ++ part ++ "]]>").toList = sectionChars part.toList := by
    rw [String.toList_append, String.toList_append, List.append_assoc]
    rfl
  rw [← String.toList_inj, toList_sections, String.toList_join, List.flatMap_map, List.flatMap_map]
  simp only [hchars]

theorem endless_of_mem_sectionParts {chars part : String} (h : part ∈ sectionParts chars) :
    Endless part.toList := by
  obtain ⟨first, parts, hcut, -, -, hfirst, hparts⟩ := cutEnds_eq chars.toList
  rw [sectionParts, hcut, List.mem_map] at h
  obtain ⟨inside, hinside, rfl⟩ := h
  rw [String.toList_ofList]
  rcases List.mem_cons.1 hinside with rfl | hinside
  · exact hfirst
  · exact hparts inside hinside

private theorem scan_bracket (start : Nat) (rest : List Char) :
    scan start start (.text []) ('<' :: rest) = scan start (start + '<'.utf8Size) .opened rest := by
  rw [scan, if_pos rfl, if_pos (by rfl)]

private theorem scan_row {parts : List (List Char)} (hparts : ∀ part ∈ parts, Endless part)
    (start : Nat) (rest : List Char) : ∃ (tokens : List (Placed Token)) (next : Nat),
      tokens.map Placed.value = parts.map .literal ∧
        scan start start (.text []) (parts.flatMap sectionChars ++ rest) =
          .after tokens (scan next next (.text []) rest) := by
  have hnone (cut : Token.Cut) : .after [] cut = cut := rfl
  induction parts generalizing start with
  | nil => exact ⟨[], start, rfl, by rw [List.flatMap_nil, List.nil_append, hnone]⟩
  | cons part parts ih =>
    rw [List.forall_mem_cons] at hparts
    obtain ⟨mid, hmid⟩ := Token.scan_section start (start + '<'.utf8Size)
      (parts.flatMap sectionChars ++ rest) hparts.1
    obtain ⟨tokens, next, hvalues, hscan⟩ := ih hparts.2 mid
    refine ⟨⟨.literal part, start, mid⟩ :: tokens, next,
      congrArg (Token.literal part :: ·) hvalues, ?_⟩
    have hchars : (part :: parts).flatMap sectionChars ++ rest = '<' :: ("![CDATA[".toList ++
        (part ++ sectionEnd ++ (parts.flatMap sectionChars ++ rest))) := by
      rw [List.flatMap_cons, sectionChars, List.append_assoc, List.cons_append, List.append_assoc]
    rw [hchars, scan_bracket, hmid, hscan]
    rfl

theorem scan_sections (chars : String) (start : Nat) (rest : List Char) :
    ∃ (tokens : List (Placed Token)) (next : Nat),
      tokens.map Placed.value = (sectionParts chars).map (fun part => .literal part.toList) ∧
        scan start start (.text []) ((sections chars).toList ++ rest) =
          .after tokens (scan next next (.text []) rest) := by
  have hparts : ∀ part ∈ (sectionParts chars).map String.toList, Endless part := by
    rw [List.forall_mem_map]
    exact fun part hpart => endless_of_mem_sectionParts hpart
  obtain ⟨tokens, next, hvalues, hscan⟩ := scan_row hparts start rest
  exact ⟨tokens, next, hvalues.trans (List.map_map ..), by rw [toList_sections, hscan]⟩

theorem Reads.row {parts : List String} {tokens : List (Placed Token)} {cut : Token.Cut}
    {e : OpenElement} {outer : List OpenElement} {root : Option Element} {built : Building}
    (hvalues : tokens.map Placed.value = parts.map fun part => .literal part.toList)
    (h : Reads ⟨e.push (parts.map .literal) :: outer, root⟩ cut built) :
    Reads ⟨e :: outer, root⟩ (.after tokens cut) built := by
  induction parts generalizing tokens e with
  | nil =>
    obtain rfl := List.map_eq_nil_iff.1 hvalues
    exact h
  | cons part parts ih =>
    obtain ⟨token, tokens, rfl, htoken, htokens⟩ := List.map_eq_cons_iff.1 hvalues
    have hevent : Event.ofToken token.start token.value = .ok (.literal part) := by
      rw [htoken, Event.ofToken, String.ofList_toList]
    rw [List.map_cons, OpenElement.push_cons] at h
    exact Reads.cons hevent rfl (ih htokens h)

theorem ofText_of_reads {text : String} {e : Element}
    (h : Reads .start (Token.ofText text) ⟨[], some e⟩) : Element.ofText text = .ok e := by
  obtain ⟨events, hevents, hbuilt⟩ := h
  simp only [Element.ofText, Element.ofEvents, hevents, hbuilt, bind, Except.bind, Building.finish]

theorem ofText_sections {name written : String} {attributes : List (String × String)}
    (h : Writable name attributes) (hwritten : written.toList = attributeChars attributes)
    (chars : String) :
    Element.ofText ("<" ++ name ++ written ++ ">" ++ sections chars ++ closingTag name) =
      .ok ⟨name, attributes, (sectionParts chars).map .literal⟩ := by
  apply ofText_of_reads
  have hchars : ("<" ++ name ++ written ++ ">" ++ sections chars ++ closingTag name).toList =
      '<' :: (tagChars name attributes ++ '>' ::
        ((sections chars).toList ++ '<' :: '/' :: (name.toList ++ ['>']))) := by
    simp [tagChars, hwritten, closingTag]
  have hmark (cs : List Char) : Token.withoutMark ('<' :: cs) = '<' :: cs := rfl
  rw [Token.ofText, hchars, hmark, scan_bracket]
  obtain ⟨inner, hinner⟩ := Token.scan_opening 0 (0 + '<'.utf8Size)
    ((sections chars).toList ++ '<' :: '/' :: (name.toList ++ ['>'])) h
  have hopens : Event.ofToken 0 (.tag (tagChars name attributes) false) =
      .ok (.opens name attributes) := by
    rw [Event.ofToken, Event.ofTag_tagChars h, if_neg (by simp)]
  obtain ⟨tokens, outer, hvalues, hrow⟩ :=
    scan_sections chars inner ('<' :: '/' :: (name.toList ++ ['>']))
  rw [hinner, hrow]
  refine Reads.cons hopens rfl (Reads.row hvalues ?_)
  obtain ⟨last, hlast⟩ := Token.scan_end outer (outer + '<'.utf8Size) [] h.tag
  have hcloses : Event.ofToken outer (.closing name.toList) = .ok (.closes name) := by
    rw [Event.ofToken, String.ofList_toList]
  rw [scan_bracket, hlast]
  refine Reads.cons hcloses ?_ ⟨[], rfl, rfl⟩
  simp [Building.step, OpenElement.push, OpenElement.close, Building.attach, Building.add,
    Building.start]

theorem text_sectionParts (name : String) (attributes : List (String × String)) (chars : String) :
    (⟨name, attributes, (sectionParts chars).map .literal⟩ : Element).text = chars := by
  rw [Element.text, List.map_map, Function.comp_def, List.map_id']
  exact join_sectionParts chars

/-- Parameters are written as a row of sections with nothing between them. In every place this row
is read as these sections, each of them up to the first end of a section, and put together they are
the JSON text of the parameters: so it is in both kinds of element that hold parameters. -/
theorem parameter_sections_exact (parameters : Table Json) : ∃ parts : List String,
    sections (Json.obj parameters).text =
      String.join (parts.map fun part => "<![CDATA[" ++ part ++ "]]>") ∧
    (∀ part ∈ parts, Endless part.toList) ∧
    String.join parts = (Json.obj parameters).text ∧
    (∀ (start : Nat) (rest : List Char), ∃ (tokens : List (Placed Token)) (next : Nat),
      tokens.map Placed.value = parts.map (fun part => .literal part.toList) ∧
        scan start start (.text []) ((sections (Json.obj parameters).text).toList ++ rest) =
          .after tokens (scan next next (.text []) rest)) ∧
    Element.ofText ("<params>" ++ sections (Json.obj parameters).text ++ "</params>") =
      .ok ⟨"params", [], parts.map .literal⟩ ∧
    (∀ block : String, Element.ofText ("<edit:params" ++ attr "blockId" block ++ ">" ++
        sections (Json.obj parameters).text ++ "</edit:params>") =
      .ok ⟨"edit:params", [("blockId", block)], parts.map .literal⟩) ∧
    ∀ (name : String) (attributes : List (String × String)),
      (⟨name, attributes, parts.map .literal⟩ : Element).text = (Json.obj parameters).text := by
  generalize (Json.obj parameters).text = written
  have hopen : Writable "params" [] := ⟨by decide, by simp, by simp⟩
  have hedit (block : String) : Writable "edit:params" [("blockId", block)] :=
    ⟨by decide, by simp only [List.forall_mem_singleton]; decide, by simp⟩
  have hread := ofText_sections hopen (rfl : "".toList = attributeChars []) written
  have hreads (block : String) :=
    ofText_sections (hedit block) (toList_attr "blockId" block) written
  have hopening : "<" ++ "params" ++ "" ++ ">" = "<params>" := by decide
  have hediting : "<" ++ "edit:params" = "<edit:params" := by decide
  have hclosing : closingTag "params" = "</params>" := by decide
  have hedited : closingTag "edit:params" = "</edit:params>" := by decide
  rw [hopening, hclosing] at hread
  simp only [hediting, hedited] at hreads
  exact ⟨sectionParts written, sections_eq_join written, fun part => endless_of_mem_sectionParts,
    join_sectionParts written, scan_sections written, hread, hreads,
    fun name attributes => text_sectionParts name attributes written⟩

example : sectionParts "a]]>]]>b]]" = ["a]]", ">]]", ">b]]"] := by decide

end LiveDoc.Markup
