import LiveDoc.Edit.Reader
import Mathlib.Data.List.DropRight

/-!
# Lists between commas

The parts of a text between its commas, written with commas between them again, are the parts of
what has been written.
-/

set_option autoImplicit false
set_option relaxedAutoImplicit false

namespace LiveDoc.Text

section Pieces

variable {separates : Char → Bool} {piece cs : List Char} {c : Char}

theorem pieces_append_cons (h : ∀ d ∈ piece, separates d = false) (hc : separates c = true) :
    pieces separates (piece ++ c :: cs) = piece :: pieces separates cs := by
  induction piece with
  | nil =>
    rw [List.nil_append, pieces]
    split
    · rename_i hnil
      exact absurd hnil (pieces_ne_nil separates cs)
    · rename_i first more hcons
      rw [if_pos hc, hcons]
  | cons d piece ih =>
    rw [List.forall_mem_cons] at h
    rw [List.cons_append, pieces, ih h.2]
    simp [h.1]

theorem pieces_eq_singleton (h : ∀ d ∈ piece, separates d = false) :
    pieces separates piece = [piece] := by
  induction piece with
  | nil => rfl
  | cons d piece ih =>
    rw [List.forall_mem_cons] at h
    rw [pieces, ih h.2]
    simp [h.1]

theorem separates_of_mem_pieces (h : piece ∈ pieces separates cs) :
    ∀ d ∈ piece, separates d = false := by
  induction cs generalizing piece with
  | nil => simp_all [pieces]
  | cons c rest ih =>
    obtain ⟨first, more, hcons⟩ := List.exists_cons_of_ne_nil (pieces_ne_nil separates rest)
    simp only [pieces, hcons] at h ih
    have hfirst : ∀ d ∈ first, separates d = false := ih List.mem_cons_self
    split at h
    · rcases List.mem_cons.1 h with rfl | h
      · simp
      · exact ih h
    · rename_i hc
      rcases List.mem_cons.1 h with rfl | h
      · exact List.forall_mem_cons.2 ⟨by simpa using hc, hfirst⟩
      · exact ih (List.mem_cons_of_mem _ h)

theorem pieces_intercalate {all : List (List Char)} (hne : all ≠ [])
    (h : ∀ piece ∈ all, ∀ d ∈ piece, separates d = false) (hc : separates c = true) :
    pieces separates ([c].intercalate all) = all := by
  induction all with
  | nil => exact absurd rfl hne
  | cons piece rest ih =>
    rw [List.forall_mem_cons] at h
    cases rest with
    | nil => simpa using pieces_eq_singleton h.1
    | cons next rest =>
      have hrest := ih (by simp) h.2
      rw [List.intercalate_cons_cons, List.append_assoc, List.singleton_append,
        pieces_append_cons h.1 hc, hrest]

end Pieces

section Trimming

private theorem trimChars_eq (cs : List Char) :
    trimChars cs = (cs.dropWhile isBlank).rdropWhile isBlank := rfl

theorem mem_of_mem_trimChars {c : Char} {cs : List Char} (h : c ∈ trimChars cs) : c ∈ cs :=
  (List.dropWhile_sublist _).subset ((List.rdropWhile_prefix isBlank _).subset h)

theorem trimChars_trimChars (cs : List Char) : trimChars (trimChars cs) = trimChars cs := by
  have hfront : (trimChars cs).dropWhile isBlank = trimChars cs := by
    rw [List.dropWhile_eq_self_iff]
    intro hpos hblank
    have hstarts : trimChars cs <+: cs.dropWhile isBlank := List.rdropWhile_prefix isBlank _
    have hne : cs.dropWhile isBlank ≠ [] := by
      intro hnil
      rw [hnil, List.prefix_nil] at hstarts
      simp [hstarts] at hpos
    have hhead := List.head_dropWhile_not isBlank hne
    obtain ⟨rest, hrest⟩ := hstarts
    have hsame : (cs.dropWhile isBlank).head hne = (trimChars cs)[0] := by
      simp only [← hrest, List.head_eq_getElem]
      exact List.getElem_append_left hpos
    rw [hsame, hblank] at hhead
    simp at hhead
  rw [trimChars_eq (trimChars cs), hfront, trimChars_eq, List.rdropWhile_idempotent]

end Trimming

theorem commaParts_intercalate (s : String) :
    commaParts (String.intercalate "," (commaParts s)) = commaParts s := by
  generalize hparts : (pieces (· == ',') s.toList).map trimChars = parts
  have hcommas : ∀ part ∈ parts, ∀ d ∈ part, (d == ',') = false := by
    intro part hpart d hd
    rw [← hparts] at hpart
    obtain ⟨piece, hpiece, rfl⟩ := List.mem_map.1 hpart
    exact separates_of_mem_pieces hpiece d (mem_of_mem_trimChars hd)
  have htrimmed : parts.map trimChars = parts := by
    rw [← hparts, List.map_map]
    exact List.map_congr_left fun piece _ => trimChars_trimChars piece
  have hne : parts ≠ [] := by
    simp [← hparts, pieces_ne_nil]
  have hlist : commaParts s = parts.map String.ofList := by
    rw [← hparts, List.map_map]
    rfl
  have hchars : (String.intercalate "," (parts.map String.ofList)).toList =
      [','].intercalate parts := by
    rw [String.toList_intercalate, List.map_map]
    simp [Function.comp_def]
  have hpieces := pieces_intercalate (c := ',') hne hcommas (by decide)
  rw [hlist, commaParts, hchars, hpieces]
  simpa [Function.comp_def] using congrArg (List.map String.ofList) htrimmed

end LiveDoc.Text

namespace LiveDoc.Reading

def IsIdList (written : String) : Prop := ∀ ident ∈ Text.commaParts written, ident.isEmpty = false

namespace IsIdList

variable {written : String}

theorem idList_eq (h : IsIdList written) : idList written = Text.commaParts written := by
  rw [idList, List.filter_eq_self]
  exact fun ident hident => by simp [h ident hident]

theorem intercalate (h : IsIdList written) :
    IsIdList (String.intercalate "," (idList written)) := by
  rwa [IsIdList, h.idList_eq, Text.commaParts_intercalate]

theorem idList_intercalate (h : IsIdList written) :
    idList (String.intercalate "," (idList written)) = idList written := by
  rw [h.intercalate.idList_eq, h.idList_eq, Text.commaParts_intercalate]

end IsIdList

end LiveDoc.Reading
