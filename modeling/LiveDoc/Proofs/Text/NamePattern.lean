import LiveDoc.Text.Pattern.Basic

/-!
# Patterns of names

Patterns for a whole text that give the characters that may come first and those that may follow,
for one name or for two with a mark between them, and what they say of a text.
-/

set_option autoImplicit false
set_option relaxedAutoImplicit false

namespace LiveDoc.Text.Pattern

/-- The pattern of a whole text of one character of a set and any number of another one behind
it. -/
def named (first later : CharSet) : Pattern :=
  .seq (.look .start) (.seq (.seq (.one first) (.times (.one later) 0 none)) (.look .finish))

section Named

variable {first later : CharSet}

private def tail (later : CharSet) : Pattern :=
  .seq (.times (.one later) 0 none) (.look .finish)

private theorem rests_named (before : Option Char) (c : Char) :
    (named first later).rests before c =
      if before.isNone && first.has c then [tail later] else [] := by
  cases before <;> by_cases hc : first.has c = true <;>
    simp [named, rests, nullable, Look.holds, join, tail, hc]

private theorem rests_tail (before : Option Char) (c : Char) :
    (tail later).rests before c = if later.has c then [tail later] else [] := by
  by_cases hc : later.has c = true <;> simp [tail, rests, nullable, join, hc]

private theorem nullable_named (before after : Option Char) :
    (named first later).nullable before after = false := by
  simp [named, nullable]

private theorem nullable_tail (before after : Option Char) :
    (tail later).nullable before after = after.isNone := by
  simp [tail, nullable, Look.holds]

private theorem occursFrom_failed (b : Char) (cs : List Char) :
    (named first later).occursFrom (some b) [] cs = false := by
  induction cs generalizing b with
  | nil => simp [occursFrom, nullable_named]
  | cons c cs ih => simp [occursFrom, nullable_named, advance, rests_named, ih]

private theorem occursFrom_tail (b : Char) (cs : List Char) :
    (named first later).occursFrom (some b) [tail later] cs = cs.all later.has := by
  induction cs generalizing b with
  | nil => simp [occursFrom, nullable_named, nullable_tail]
  | cons c cs ih =>
    by_cases hc : later.has c = true
    · simp [occursFrom, nullable_named, nullable_tail, advance, rests_named, rests_tail, hc, ih,
        List.eraseDups_cons]
    · simp [occursFrom, nullable_named, nullable_tail, advance, rests_named, rests_tail, hc,
        occursFrom_failed]

theorem occursIn_named (s : String) :
    (named first later).occursIn s =
      match s.toList with
      | [] => false
      | c :: cs => first.has c && cs.all later.has := by
  unfold occursIn
  cases s.toList with
  | nil => simp [occursFrom, nullable_named]
  | cons c cs =>
    by_cases hc : first.has c = true
    · simp [occursFrom, nullable_named, advance, rests_named, hc, occursFrom_tail,
        List.eraseDups_cons]
    · simp [occursFrom, nullable_named, advance, rests_named, hc, occursFrom_failed]

end Named

/-- The characters of a name: the first belongs to one set and all later ones to another. -/
def Names (first later : CharSet) : List Char → Prop
  | [] => False
  | c :: cs => first.has c = true ∧ ∀ d ∈ cs, later.has d = true

/-- A pattern that can match nothing behind the beginning of a text. -/
private structure Anchored (p : Pattern) : Prop where
  rests : ∀ b c, p.rests (some b) c = []
  nullable : ∀ b after, p.nullable (some b) after = false

namespace Anchored

variable {p : Pattern}

private theorem occursFrom_iff (h : Anchored p) (b : Char) (ps : List Pattern) (cs : List Char) :
    p.occursFrom (some b) ps cs = true ↔ ∃ q ∈ ps, p.occursFrom (some b) [q] cs = true := by
  induction cs generalizing b ps with
  | nil => simp [occursFrom, h.nullable]
  | cons c cs ih =>
    have hstep (qs : List Pattern) :
        p.occursFrom (some c) (advance (some b) c (p :: qs)) cs = true ↔
          ∃ q ∈ qs, ∃ r ∈ q.rests (some b) c, p.occursFrom (some c) [r] cs = true := by
      rw [ih, advance]
      simp only [List.mem_eraseDups, List.flatMap_cons, h.rests, List.nil_append, List.mem_flatMap]
      constructor
      · rintro ⟨r, ⟨q, hq, hr⟩, hoccurs⟩
        exact ⟨q, hq, r, hr, hoccurs⟩
      · rintro ⟨q, hq, r, hr, hoccurs⟩
        exact ⟨r, ⟨q, hq, hr⟩, hoccurs⟩
    simp only [occursFrom, Bool.or_eq_true, hstep, List.any_cons, h.nullable, Bool.false_or,
      List.any_eq_true, List.any_nil, Bool.or_false, List.mem_singleton, exists_eq_left,
      and_or_left,
      exists_or]

private theorem occursFrom_nil_iff (h : Anchored p) (b : Char) (q : Pattern) :
    p.occursFrom (some b) [q] [] = true ↔ q.nullable (some b) none = true := by
  simp [occursFrom, h.nullable]

private theorem occursFrom_cons_iff (h : Anchored p) (b c : Char) (q : Pattern) (cs : List Char)
    (hq : q.nullable (some b) (some c) = false) :
    p.occursFrom (some b) [q] (c :: cs) = true ↔
      ∃ r ∈ q.rests (some b) c, p.occursFrom (some c) [r] cs = true := by
  simp only [occursFrom, List.any_cons, h.nullable, hq, List.any_nil, Bool.or_false, advance,
    List.flatMap_cons, h.rests, List.flatMap_nil, List.nil_append, List.append_nil, Bool.false_or]
  rw [h.occursFrom_iff]
  simp only [List.mem_eraseDups]

end Anchored

section Qualified

variable (first outer mark later : CharSet)

/-- The pattern of a name and a mark behind it, at most some number of times. -/
def lead (most : Nat) : Pattern :=
  .times (.seq (.one first) (.seq (.times (.one outer) 0 none) (.one mark))) 0 (some most)

/-- The pattern of a whole text of a name, in front of which another one with a mark may stand. -/
def qualified : Pattern :=
  .seq (.look .start)
    (.seq
      (.seq (lead first outer mark 1) (.seq (.one first) (.times (.one later) 0 none)))
      (.look .finish))

private def front : Pattern :=
  .seq
    (.seq (.seq (.seq (.times (.one outer) 0 none) (.one mark)) (lead first outer mark 0))
      (.seq (.one first) (.times (.one later) 0 none)))
    (.look .finish)

/-- What is left of such a pattern behind the mark. -/
private def inner : Pattern :=
  .seq (.seq (lead first outer mark 0) (.seq (.one first) (.times (.one later) 0 none)))
    (.look .finish)

variable {first outer mark later}

private theorem anchored_qualified : Anchored (qualified first outer mark later) where
  rests b c := by simp [qualified, rests, nullable, Look.holds]
  nullable b after := by simp [qualified, nullable]

private theorem rests_qualified (c : Char) :
    (qualified first outer mark later).rests none c =
      if first.has c then [front first outer mark later, tail later] else [] := by
  by_cases hc : first.has c = true <;>
    simp [qualified, rests, nullable, Look.holds, join, front, lead, tail, hc]

private theorem rests_front (before : Option Char) (c : Char) :
    (front first outer mark later).rests before c =
      (if outer.has c then [front first outer mark later] else []) ++
        if mark.has c then [inner first outer mark later] else [] := by
  by_cases hc : outer.has c = true <;> by_cases hm : mark.has c = true <;>
    simp [front, inner, lead, rests, nullable, join, hc, hm]

private theorem rests_inner (before : Option Char) (c : Char) :
    (inner first outer mark later).rests before c = if first.has c then [tail later] else [] := by
  by_cases hc : first.has c = true <;> simp [inner, lead, rests, nullable, join, tail, hc]

private theorem nullable_front (before after : Option Char) :
    (front first outer mark later).nullable before after = false := by
  simp [front, nullable]

private theorem nullable_inner (before after : Option Char) :
    (inner first outer mark later).nullable before after = false := by
  simp [inner, nullable]

private theorem occursFrom_tail_iff (b : Char) (cs : List Char) :
    (qualified first outer mark later).occursFrom (some b) [tail later] cs = true ↔
      ∀ d ∈ cs, later.has d = true := by
  induction cs generalizing b with
  | nil => simp [anchored_qualified.occursFrom_nil_iff, nullable_tail]
  | cons c cs ih =>
    rw [anchored_qualified.occursFrom_cons_iff _ _ _ _ (by simp [nullable_tail]), rests_tail]
    by_cases hc : later.has c = true <;> simp [hc, ih]

private theorem occursFrom_inner_iff (b : Char) (cs : List Char) :
    (qualified first outer mark later).occursFrom (some b)
      [inner first outer mark later] cs = true ↔
      Names first later cs := by
  cases cs with
  | nil => simp [anchored_qualified.occursFrom_nil_iff, nullable_inner, Names]
  | cons c cs =>
    rw [anchored_qualified.occursFrom_cons_iff _ _ _ _ (nullable_inner _ _), rests_inner, Names]
    by_cases hc : first.has c = true <;> simp [hc, occursFrom_tail_iff]

private theorem occursFrom_front_iff (b : Char) (cs : List Char) :
    (qualified first outer mark later).occursFrom (some b)
      [front first outer mark later] cs = true ↔
      ∃ ds d es, cs = ds ++ d :: es ∧ (∀ d ∈ ds, outer.has d = true) ∧ mark.has d = true ∧
        Names first later es := by
  induction cs generalizing b with
  | nil => simp [anchored_qualified.occursFrom_nil_iff, nullable_front]
  | cons c cs ih =>
    rw [anchored_qualified.occursFrom_cons_iff _ _ _ _ (nullable_front _ _), rests_front]
    constructor
    · rintro ⟨r, hr, hoccurs⟩
      rcases List.mem_append.1 hr with hr | hr
      · split at hr
        · rename_i hc
          obtain rfl := List.mem_singleton.1 hr
          obtain ⟨ds, d, es, rfl, hds, hd, hes⟩ := (ih c).1 hoccurs
          exact ⟨c :: ds, d, es, rfl, List.forall_mem_cons.2 ⟨hc, hds⟩, hd, hes⟩
        · simp at hr
      · split at hr
        · rename_i hc
          obtain rfl := List.mem_singleton.1 hr
          exact ⟨[], c, cs, rfl, by simp, hc, (occursFrom_inner_iff c cs).1 hoccurs⟩
        · simp at hr
    · rintro ⟨ds, d, es, heq, hds, hd, hes⟩
      cases ds with
      | nil =>
        obtain ⟨rfl, rfl⟩ := List.cons.inj heq
        exact ⟨inner first outer mark later, by simp [hd], (occursFrom_inner_iff c cs).2 hes⟩
      | cons x ds =>
        obtain ⟨rfl, rfl⟩ := List.cons.inj heq
        obtain ⟨hc, hds⟩ := List.forall_mem_cons.1 hds
        exact ⟨front first outer mark later, by simp [hc], (ih c).2 ⟨ds, d, es, rfl, hds, hd, hes⟩⟩

theorem occursIn_qualified_iff (s : String) :
    (qualified first outer mark later).occursIn s = true ↔
      Names first later s.toList ∨
        ∃ ds d es, s.toList = ds ++ d :: es ∧ Names first outer ds ∧ mark.has d = true ∧
          Names first later es := by
  unfold occursIn
  cases s.toList with
  | nil => simp [occursFrom, qualified, nullable, Names]
  | cons c cs =>
    have hnullable : (qualified first outer mark later).nullable none (some c) = false := by
      simp [qualified, nullable]
    have hfirst : (qualified first outer mark later).occursFrom none [] (c :: cs) = true ↔
        first.has c = true ∧ ((∀ d ∈ cs, later.has d = true) ∨
          ∃ ds d es, cs = ds ++ d :: es ∧ (∀ d ∈ ds, outer.has d = true) ∧ mark.has d = true ∧
            Names first later es) := by
      simp only [occursFrom, List.any_cons, hnullable, List.any_nil, Bool.or_false, Bool.false_or,
        advance, List.flatMap_cons, List.flatMap_nil, List.append_nil, rests_qualified]
      rw [anchored_qualified.occursFrom_iff,
        ← @occursFrom_tail_iff first outer mark later c, ← occursFrom_front_iff c]
      by_cases hc : first.has c = true <;> simp [hc, or_comm]
    rw [hfirst, and_or_left, Names]
    refine or_congr_right ⟨?_, ?_⟩
    · rintro ⟨hc, ds, d, es, rfl, hds, hd, hes⟩
      exact ⟨c :: ds, d, es, rfl, ⟨hc, hds⟩, hd, hes⟩
    · rintro ⟨ds, d, es, heq, hds, hd, hes⟩
      cases ds with
      | nil => exact hds.elim
      | cons x ds =>
        obtain ⟨rfl, rfl⟩ := List.cons.inj heq
        exact ⟨hds.1, ds, d, es, rfl, hds.2, hd, hes⟩

end Qualified

end LiveDoc.Text.Pattern
