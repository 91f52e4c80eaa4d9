import LiveDoc.Inline.Style
import LiveDoc.Text.Blank
import Mathlib.Data.List.Destutter
import Mathlib.Data.List.Sort
import Mathlib.Data.List.Sublists

/-!
# Canonical styles

The order of styles is strict and total, and a list in this order is known by the styles that it
holds. The canonical form is the one list in order with the styles of a list, so nothing but the set
of styles shows in it. Of known styles it is a part of the list of them, and is read from its words.
-/

set_option autoImplicit false
set_option relaxedAutoImplicit false

namespace LiveDoc.Style

variable {style other : String} {styles more : List String}

theorem before_iff {a b : String} :
    before a b = true ↔ rank a < rank b ∨ rank a = rank b ∧ a < b := by
  simp [before]

theorem before_irrefl (a : String) : ¬ before a a = true := by
  simp [before_iff]

theorem before_trans {a b c : String} (hab : before a b = true) (hbc : before b c = true) :
    before a c = true := by
  rw [before_iff] at *
  rcases hab with hab | ⟨hab, hlt⟩ <;> rcases hbc with hbc | ⟨hbc, hlt'⟩
  · exact .inl (Nat.lt_trans hab hbc)
  · exact .inl (hbc ▸ hab)
  · exact .inl (hab ▸ hbc)
  · exact .inr ⟨hab.trans hbc, String.lt_trans hlt hlt'⟩

theorem before_asymm {a b : String} (hab : before a b = true) : ¬ before b a = true :=
  fun hba => before_irrefl a (before_trans hab hba)

theorem before_of_not_before {a b : String} (hne : a ≠ b) (h : ¬ before a b = true) :
    before b a = true := by
  simp only [before_iff, not_or, not_and] at h ⊢
  rcases Nat.lt_trichotomy (rank a) (rank b) with hlt | heq | hlt
  · exact absurd hlt h.1
  · exact .inr ⟨heq.symm, Std.lt_of_le_of_ne (String.not_lt.1 (h.2 heq)) hne.symm⟩
  · exact .inl hlt

theorem rank_lt_iff : rank style < known.length ↔ style ∈ known :=
  List.idxOf_lt_length_iff

theorem rank_of_notMem (h : style ∉ known) : rank style = known.length :=
  List.idxOf_eq_length h

theorem before_of_mem_known (h : style ∈ known) (hother : other ∉ known) :
    before style other = true := by
  rw [before_iff, rank_of_notMem hother]
  exact .inl (rank_lt_iff.2 h)

theorem lt_of_before (h : style ∉ known) (hother : other ∉ known)
    (hbefore : before style other = true) : style < other := by
  rw [before_iff, rank_of_notMem h, rank_of_notMem hother] at hbefore
  exact (hbefore.resolve_left (Nat.lt_irrefl _)).2

/-- Whether styles stand in their order, each of them once. -/
def Ordered (styles : List String) : Prop :=
  styles.Pairwise fun a b => before a b = true

theorem ordered_known : Ordered known := by
  unfold Ordered
  decide +kernel

theorem Ordered.nodup (h : Ordered styles) : styles.Nodup := by
  refine List.Pairwise.imp ?_ h
  intro a b hbefore heq
  exact before_irrefl b (heq ▸ hbefore)

theorem Ordered.eq_of_mem_iff (h : Ordered styles) (hmore : Ordered more)
    (hmem : ∀ style, style ∈ styles ↔ style ∈ more) : styles = more := by
  have hirrefl : Std.Irrefl fun a b => before a b = true := ⟨before_irrefl⟩
  have hantisymm : Std.Antisymm fun a b => before a b = true :=
    ⟨fun a b hab hba => absurd hba (before_asymm hab)⟩
  exact List.Pairwise.eq_of_mem_iff h hmore hmem

theorem mem_insert : style ∈ insert other styles ↔ style = other ∨ style ∈ styles := by
  induction styles with
  | nil => simp [insert]
  | cons first rest ih =>
    rw [insert]
    split
    · simp_all
    · split
      · simp
      · simp only [List.mem_cons, ih]
        exact or_left_comm

theorem Ordered.insert (h : Ordered styles) (style : String) : Ordered (insert style styles) := by
  induction styles with
  | nil => exact List.pairwise_singleton _ _
  | cons first rest ih =>
    obtain ⟨hfirst, hrest⟩ := List.pairwise_cons.1 h
    rw [Style.insert]
    split
    · exact h
    · rename_i hne
      split
      · rename_i hbefore
        refine List.pairwise_cons.2 ⟨fun other hother => ?_, h⟩
        rcases List.mem_cons.1 hother with rfl | hother
        · exact hbefore
        · exact before_trans hbefore (hfirst other hother)
      · rename_i hbefore
        refine List.pairwise_cons.2 ⟨fun other hother => ?_, ih hrest⟩
        rcases mem_insert.1 hother with rfl | hother
        · exact before_of_not_before hne hbefore
        · exact hfirst other hother

theorem mem_canonical : style ∈ canonical styles ↔ style ∈ styles := by
  induction styles with
  | nil => rfl
  | cons first rest ih =>
    have hcons : canonical (first :: rest) = insert first (canonical rest) := rfl
    rw [hcons, mem_insert, ih, List.mem_cons]

theorem ordered_canonical (styles : List String) : Ordered (canonical styles) := by
  induction styles with
  | nil => exact .nil
  | cons first rest ih => exact ih.insert first

theorem Ordered.eq_canonical (h : Ordered styles)
    (hmem : ∀ style, style ∈ styles ↔ style ∈ more) : styles = canonical more :=
  h.eq_of_mem_iff (ordered_canonical more) fun style => (hmem style).trans mem_canonical.symm

theorem canonical_congr (hmem : ∀ style, style ∈ styles ↔ style ∈ more) :
    canonical styles = canonical more :=
  (ordered_canonical styles).eq_canonical fun style => mem_canonical.trans (hmem style)

theorem canonical_append (styles more : List String) :
    canonical (canonical styles ++ more) = canonical (styles ++ more) := by
  refine canonical_congr fun style => ?_
  rw [List.mem_append, mem_canonical, List.mem_append]

theorem canonical_eq_append (styles : List String) :
    canonical styles = known.filter (· ∈ styles) ++ (canonical styles).filter (· ∉ known) := by
  have hordered : Ordered (known.filter (· ∈ styles) ++ (canonical styles).filter (· ∉ known)) := by
    refine List.pairwise_append.2 ⟨?_, ?_, fun style hstyle other hother => ?_⟩
    · exact ordered_known.filter _
    · exact (ordered_canonical styles).filter _
    · have hunknown := (List.mem_filter.1 hother).2
      exact before_of_mem_known (List.mem_of_mem_filter hstyle) (of_decide_eq_true hunknown)
  refine (hordered.eq_canonical fun style => ?_).symm
  by_cases hknown : style ∈ known <;> simp [hknown, mem_canonical]

theorem pairwise_unknown (styles : List String) :
    ((canonical styles).filter (· ∉ known)).Pairwise (· < ·) := by
  refine ((ordered_canonical styles).filter _).imp_of_mem ?_
  intro style other hstyle hother hbefore
  exact lt_of_before (of_decide_eq_true (List.mem_filter.1 hstyle).2)
    (of_decide_eq_true (List.mem_filter.1 hother).2) hbefore

theorem canonical_eq_filter (h : ∀ style ∈ styles, style ∈ known) :
    canonical styles = known.filter (· ∈ styles) := by
  have hnone : (canonical styles).filter (· ∉ known) = [] := by
    simpa [mem_canonical] using h
  rw [canonical_eq_append, hnone, List.append_nil]

theorem sublist_canonical (h : ∀ style ∈ styles, style ∈ known) :
    (canonical styles).Sublist known := by
  rw [canonical_eq_filter h]
  exact List.filter_sublist

theorem canonical_eq_self (h : styles.Sublist known) : canonical styles = styles :=
  (Ordered.eq_canonical (List.Pairwise.sublist h ordered_known) fun _ => Iff.rfl).symm

theorem words_intercalate (h : styles.Sublist known) :
    Text.words (String.intercalate " " styles) = styles := by
  have hall : ∀ styles ∈ known.sublists,
      Text.words (String.intercalate " " styles) = styles := by
    decide +kernel
  exact hall styles (List.mem_sublists.2 h)

def mayPrecede (a b : String) : Bool := !before b a

/-- Styles sorted, with one of each row of equal neighbours. -/
def sorted (styles : List String) : List String :=
  (styles.mergeSort mayPrecede).destutter (· ≠ ·)

theorem mayPrecede_iff {a b : String} : mayPrecede a b = true ↔ a = b ∨ before a b = true := by
  rw [mayPrecede, Bool.not_eq_true', Bool.eq_false_iff]
  constructor
  · intro h
    by_cases heq : a = b
    · exact .inl heq
    · exact .inr (before_of_not_before (Ne.symm heq) h)
  · rintro (rfl | h)
    · exact before_irrefl a
    · exact before_asymm h

theorem mayPrecede_trans {a b c : String} (hab : mayPrecede a b = true)
    (hbc : mayPrecede b c = true) : mayPrecede a c = true := by
  rw [mayPrecede_iff] at *
  rcases hab with rfl | hab
  · exact hbc
  · rcases hbc with rfl | hbc
    · exact .inr hab
    · exact .inr (before_trans hab hbc)

theorem mayPrecede_total (a b : String) : (mayPrecede a b || mayPrecede b a) = true := by
  rw [Bool.or_eq_true, mayPrecede_iff, mayPrecede_iff]
  by_cases heq : a = b
  · exact .inl (.inl heq)
  · by_cases hbefore : before a b = true
    · exact .inl (.inr hbefore)
    · exact .inr (.inr (before_of_not_before heq hbefore))

theorem mayPrecede_antisymm {a b : String} (hab : mayPrecede a b = true)
    (hba : mayPrecede b a = true) : a = b := by
  rw [mayPrecede_iff] at hab hba
  rcases hab with heq | hab
  · exact heq
  · exact hba.elim Eq.symm fun hba => absurd hba (before_asymm hab)

/-- Equal styles stand together once they are sorted, so it is enough to look at neighbours. -/
theorem sorted_eq_canonical (styles : List String) : sorted styles = canonical styles := by
  have hsorted : (styles.mergeSort mayPrecede).Pairwise fun a b => mayPrecede a b = true :=
    @List.pairwise_mergeSort _ mayPrecede (fun _ _ _ => mayPrecede_trans) mayPrecede_total styles
  have hantisymm : Std.Antisymm fun a b => mayPrecede a b = true :=
    ⟨fun _ _ => mayPrecede_antisymm⟩
  have hdedup : sorted styles = (styles.mergeSort mayPrecede).dedup :=
    List.Pairwise.destutter_eq_dedup hsorted
  have hordered : Ordered (styles.mergeSort mayPrecede).dedup := by
    have hboth := (hsorted.sublist (List.dedup_sublist _)).and (List.nodup_dedup _)
    exact hboth.imp fun ⟨hle, hne⟩ => (mayPrecede_iff.1 hle).resolve_left hne
  rw [hdedup]
  exact hordered.eq_canonical fun style => by simp [List.mem_dedup, List.mem_mergeSort]

/-- The canonical form is a normal form of sets of styles. Two lists have the same one exactly if
they hold the same styles; it holds these styles, each once, the known ones first in their order and
the others behind them by name; and it can be taken step by step. It is what sorting makes of a list
if one of equal neighbours is kept. -/
theorem canonical_exact (styles more : List String) :
    (canonical styles = canonical more ↔ ∀ style, style ∈ styles ↔ style ∈ more) ∧
    (∀ style, style ∈ canonical styles ↔ style ∈ styles) ∧
    (canonical styles).Nodup ∧
    (∃ others, canonical styles = known.filter (· ∈ styles) ++ others ∧
      (∀ style ∈ others, style ∉ known) ∧ others.Pairwise (· < ·)) ∧
    canonical (canonical styles ++ more) = canonical (styles ++ more) ∧
    canonical styles = sorted styles := by
  refine ⟨⟨fun heq style => ?_, canonical_congr⟩, fun _ => mem_canonical,
    (ordered_canonical styles).nodup, ?_, canonical_append styles more,
    (sorted_eq_canonical styles).symm⟩
  · rw [← mem_canonical, heq, mem_canonical]
  · refine ⟨_, canonical_eq_append styles, fun style hstyle => ?_, pairwise_unknown styles⟩
    exact of_decide_eq_true (List.mem_filter.1 hstyle).2

example : canonical ["zeta", "code", "alpha", "italic", "zeta", "bold", "italic"] =
    ["bold", "italic", "code", "alpha", "zeta"] := by decide +kernel

end LiveDoc.Style
