import LiveDoc.Grammar.Standard
import LiveDoc.IdSupply
import LiveDoc.Proofs.Text.NamePattern

/-!
# Ids of the standard grammar

The ids that the standard grammar takes, and that those made up for elements without one are among
them.
-/

set_option autoImplicit false
set_option relaxedAutoImplicit false

namespace LiveDoc.Grammar.Standard

open Text (CharSet Pattern)

def idFirst : CharSet := .ofRanges [('A', 'Z'), ('a', 'z'), ('0', '9'), ('_', '_')]

def idLater : CharSet :=
  .ofRanges [('A', 'Z'), ('a', 'z'), ('0', '9'), ('_', '_'), ('.', '.'), (':', ':'), ('-', '-')]

def isId (s : String) : Bool := (Pattern.named idFirst idLater).occursIn s

/-- Whether a text follows the pattern of ids. -/
def followsIdPattern (s : String) : Bool := (Pattern.whole? idPattern).any (·.occursIn s)

theorem isId_eq_followsIdPattern : isId = followsIdPattern := by
  have hpattern : Pattern.whole? idPattern = some (.named idFirst idLater) := by decide +kernel
  funext s
  rw [followsIdPattern, hpattern, Option.any_some, isId]

private theorem isId_append {s t : String} (hs : isId s = true)
    (ht : ∀ c ∈ t.toList, idLater.has c = true) : isId (s ++ t) = true := by
  simp only [isId, Pattern.occursIn_named, String.toList_append] at hs ⊢
  cases hchars : s.toList with
  | nil => simp [hchars] at hs
  | cons c cs =>
    simp only [hchars, Bool.and_eq_true, List.all_eq_true] at hs
    simp only [List.cons_append, Bool.and_eq_true, List.all_eq_true, List.mem_append]
    refine ⟨hs.1, fun d hd => ?_⟩
    rcases hd with hd | hd
    · exact hs.2 d hd
    · exact ht d hd

private theorem idLater_of_isDigit {c : Char} (h : c.isDigit = true) : idLater.has c = true := by
  have hrange : '0' ≤ c ∧ c ≤ '9' := by
    simpa [Char.isDigit, Char.le_def] using h
  simp [idLater, CharSet.ofRanges, CharSet.unions, CharSet.has, hrange]

theorem isId_name {seed : String} (h : isId seed = true) (n : Nat) :
    isId (IdSupply.name seed n) = true := by
  have hdash : isId (seed ++ "-") = true := isId_append h (List.all_eq_true.1 (by decide))
  refine isId_append hdash fun c hc => ?_
  rw [Nat.toString_eq_ofList_toDigits, String.toList_ofList] at hc
  exact idLater_of_isDigit (Nat.isDigit_of_mem_toDigits (by omega) (by omega) hc)

theorem isId_of_isId_name {seed : String} {n : Nat} (h : isId (IdSupply.name seed n) = true) :
    isId seed = true := by
  simp only [isId, Pattern.occursIn_named, IdSupply.name, String.toList_append] at h ⊢
  cases hchars : seed.toList with
  | nil =>
    have hdash : idFirst.has '-' = false := by decide
    simp [hchars, hdash] at h
  | cons c cs =>
    simp only [hchars, List.cons_append, List.all_append, Bool.and_eq_true] at h
    simp [h]

private theorem idLater_of_mem_toDigits (n : Nat) : ∀ c ∈ Nat.toDigits 16 n,
    idLater.has c = true := by
  have hdigit (d : Nat) (hd : d < 16) : idLater.has d.digitChar = true := by
    have hall : ∀ d < 16, idLater.has (Nat.digitChar d) = true := by decide +kernel
    exact hall d hd
  induction n using Nat.strongRecOn with
  | _ n ih =>
    rw [Nat.toDigits_eq_if (by omega)]
    split
    · rename_i hn
      simpa using hdigit n hn
    · intro c hc
      rcases List.mem_append.1 hc with hc | hc
      · exact ih (n / 16) (by omega) c hc
      · obtain rfl := List.mem_singleton.1 hc
        exact hdigit (n % 16) (Nat.mod_lt n (by omega))

theorem isId_documentId (text : String) : isId (documentId text) = true := by
  have hfront : isId "doc-" = true := by decide +kernel
  refine isId_append hfront fun c hc => ?_
  rw [Text.Checksum.hex, String.toList_ofList] at hc
  exact idLater_of_mem_toDigits _ c hc

end LiveDoc.Grammar.Standard
