import LiveDoc.Proofs.Markup.Spelling

/-!
# Sections of unescaped text

Unescaped text is written in as many sections as there are ends of a section among its characters,
and one more; put together, what stands in them is the text.
-/

set_option autoImplicit false
set_option relaxedAutoImplicit false

namespace LiveDoc.Markup

open Token (Endless sectionEnd)

theorem endless_cons {c : Char} {cs : List Char} (hcs : Endless cs)
    (hc : ¬ sectionEnd <+: c :: cs) : Endless (c :: cs) := by
  intro hend
  rcases List.infix_cons_iff.1 hend with hstart | hinner
  · exact hc hstart
  · exact hcs hinner

def pushFirst (c : Char) : List (List Char) → List (List Char)
  | [] => [[c]]
  | part :: parts => (c :: part) :: parts

def cutEnds : List Char → List (List Char)
  | ']' :: ']' :: '>' :: rest => [']', ']'] :: pushFirst '>' (cutEnds rest)
  | c :: rest => pushFirst c (cutEnds rest)
  | [] => [[]]

/-- Text in sections consists of its parts, which hold no end of a section, between the ends and
beginnings of sections; they are the text. -/
theorem cutEnds_eq (cs : List Char) : ∃ (first : List Char) (parts : List (List Char)),
    cutEnds cs = first :: parts ∧
      splitEnds cs = first ++ parts.flatMap (sectionEnd ++ "<![CDATA[".toList ++ ·) ∧
      first ++ parts.flatten = cs ∧ Endless first ∧ ∀ part ∈ parts, Endless part := by
  fun_induction splitEnds cs with
  | case1 rest ih =>
    obtain ⟨first, parts, hcut, hsplit, hflatten, hfirst, hparts⟩ := ih
    refine ⟨[']', ']'], ('>' :: first) :: parts, ?_, ?_, ?_, ?_, ?_⟩
    · rw [cutEnds, hcut, pushFirst]
    · rw [hsplit]
      rfl
    · rw [← hflatten]
      rfl
    · intro hend
      exact absurd hend.length_le (by decide)
    · rw [List.forall_mem_cons]
      refine ⟨endless_cons hfirst fun hstart => ?_, hparts⟩
      exact absurd (List.cons_prefix_cons.1 hstart).1 (by decide)
  | case2 c rest hno ih =>
    obtain ⟨first, parts, hcut, hsplit, hflatten, hfirst, hparts⟩ := ih
    refine ⟨c :: first, parts, ?_, by rw [hsplit]; rfl, by rw [← hflatten]; rfl, ?_, hparts⟩
    · rw [cutEnds, hcut, pushFirst]
      exact hno
    · refine endless_cons hfirst fun hstart => ?_
      have hwhole : c :: first <+: c :: rest := ⟨parts.flatten, by rw [← hflatten]; rfl⟩
      obtain ⟨tail, htail⟩ := hstart.trans hwhole
      obtain ⟨hc, hrest⟩ := List.cons.inj htail
      exact hno tail hc.symm hrest.symm
  | case3 =>
    exact ⟨[], [], rfl, rfl, rfl, fun hend => absurd hend.length_le (by decide), by simp⟩

private theorem spells_parts {first : List Char} {parts : List (List Char)}
    (hfirst : Endless first) (hparts : ∀ part ∈ parts, Endless part) :
    Spells ((first :: parts).map fun part => .literal (String.ofList part))
      ("<![CDATA[".toList ++
        (first ++ parts.flatMap (sectionEnd ++ "<![CDATA[".toList ++ ·) ++ sectionEnd)) := by
  induction parts generalizing first with
  | nil =>
    have hends : Endless (String.ofList first).toList := by simpa using hfirst
    have hlast := Spells.literal hends .nil
    simpa using hlast
  | cons part parts ih =>
    rw [List.forall_mem_cons] at hparts
    have hends : Endless (String.ofList first).toList := by simpa using hfirst
    have hmore := Spells.literal hends (ih hparts.1 hparts.2)
    simpa using hmore

def sectionParts (chars : String) : List String := (cutEnds chars.toList).map String.ofList

theorem join_sectionParts (chars : String) : String.join (sectionParts chars) = chars := by
  obtain ⟨first, parts, hcut, -, hflatten, -⟩ := cutEnds_eq chars.toList
  have hparts : (parts.map String.ofList).flatMap String.toList = parts.flatten := by
    simp [List.flatMap_def]
  rw [← String.toList_inj, ← hflatten, sectionParts, hcut]
  simpa using hparts

theorem spells_sections (chars : String) :
    Spells ((sectionParts chars).map .literal) (sections chars).toList := by
  obtain ⟨first, parts, hcut, hsplit, -, hfirst, hparts⟩ := cutEnds_eq chars.toList
  have hchars : (sections chars).toList = "<![CDATA[".toList ++
      (first ++ parts.flatMap (sectionEnd ++ "<![CDATA[".toList ++ ·) ++ sectionEnd) := by
    rw [← hsplit]
    simp [sections, sectionEnd]
  rw [hchars, sectionParts, hcut, List.map_map]
  exact spells_parts hfirst hparts

end LiveDoc.Markup
