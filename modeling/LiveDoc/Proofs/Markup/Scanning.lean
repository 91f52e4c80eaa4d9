import LiveDoc.Proofs.Markup.Tags

/-!
# Scanning written markup

What the scanner makes of written text, tags and sections: it takes each of them as a whole and goes
on behind it.
-/

set_option autoImplicit false
set_option relaxedAutoImplicit false

namespace LiveDoc.Markup.Token

variable (start here : Nat) (rest : List Char)

theorem scan_text (seen : List Char) {cs : List Char} (hcs : ∀ c ∈ cs, c ≠ '<') :
    ∃ next, scan start here (.text seen) (cs ++ rest) =
      scan start next (.text (cs.reverse ++ seen)) rest := by
  induction cs generalizing here seen with
  | nil => exact ⟨here, rfl⟩
  | cons c cs ih =>
    simp only [List.mem_cons, forall_eq_or_imp] at hcs
    obtain ⟨next, hnext⟩ := ih (here + c.utf8Size) (c :: seen) hcs.2
    refine ⟨next, ?_⟩
    rw [List.cons_append, scan, if_neg hcs.1, hnext]
    simp

/-- In which quotes the scanner stands behind characters of a tag; none if the tag ends among
them. -/
def marksAfter? (mark : Option Char) : List Char → Option (Option Char)
  | [] => some mark
  | c :: rest => if mark.isNone ∧ c = '>' then none else marksAfter? (nextMark mark c) rest

theorem marksAfter?_append {mark : Option Char} {first : List Char} (second : List Char) :
    marksAfter? mark (first ++ second) = (marksAfter? mark first).bind (marksAfter? · second) := by
  induction first generalizing mark with
  | nil => rfl
  | cons c first ih =>
    rw [List.cons_append, marksAfter?, marksAfter?]
    split
    · rfl
    · exact ih

theorem marksAfter?_inner {cs : List Char} (h : ∀ c ∈ cs, isInner c = true) :
    marksAfter? none cs = some none := by
  induction cs with
  | nil => rfl
  | cons c cs ih =>
    simp only [List.mem_cons, forall_eq_or_imp, isInner, Bool.and_eq_true, decide_eq_true_eq] at h
    have hmark : nextMark none c = none := by simp [nextMark, h.1]
    rw [marksAfter?, if_neg (by simp [h.1]), hmark]
    exact ih (by simpa [isInner] using h.2)

private theorem marksAfter?_quoted {cs : List Char} (h : ∀ c ∈ cs, c ≠ '"') :
    marksAfter? (some '"') (cs ++ ['"']) = some none := by
  induction cs with
  | nil => decide
  | cons c cs ih =>
    simp only [List.mem_cons, forall_eq_or_imp] at h
    have hmark : nextMark (some '"') c = some '"' := by simp [nextMark, h.1]
    rw [List.cons_append, marksAfter?, if_neg (by simp), hmark]
    exact ih h.2

private theorem marksAfter?_attributeChars {attributes : List (String × String)}
    (hnames : ∀ a ∈ attributes, isAttributeName a.1 = true) :
    marksAfter? none (attributeChars attributes) = some none := by
  induction attributes with
  | nil => rfl
  | cons a attributes ih =>
    simp only [List.mem_cons, forall_eq_or_imp] at hnames
    have hname (c : Char) (hc : c ∈ a.1.toList) : isInner c = true := by
      have hname := hnames.1
      unfold isAttributeName at hname
      split at hname
      · simp at hname
      · rename_i d ds hds
        simp only [Bool.and_eq_true, List.all_eq_true] at hname
        exact hname.2 c (hds ▸ hc)
    have hvalue (c : Char) (hc : c ∈ escapeChars a.2.toList) : c ≠ '"' := by
      have hplain := isPlain_of_mem_escapeChars hc
      simp only [isPlain, Bool.and_eq_true, decide_eq_true_eq] at hplain
      exact hplain.1.2
    have hchars : attributeChars (a :: attributes) =
        (' ' :: (a.1.toList ++ ['='])) ++ (['"'] ++ ((escapeChars a.2.toList ++ ['"']) ++
          attributeChars attributes)) := by
      simp [attributeChars]
    have hinner : marksAfter? none (' ' :: (a.1.toList ++ ['='])) = some none := by
      apply marksAfter?_inner
      simp only [List.mem_cons, List.mem_append, List.not_mem_nil, or_false]
      rintro c (rfl | hc | rfl)
      · decide
      · exact hname c hc
      · decide
    have hquote : marksAfter? none ['"'] = some (some '"') := by decide
    rw [hchars, marksAfter?_append, hinner, Option.bind_some, marksAfter?_append, hquote,
      Option.bind_some, marksAfter?_append, marksAfter?_quoted hvalue, Option.bind_some]
    exact ih hnames.2

theorem marksAfter?_tagChars {name : String} {attributes : List (String × String)}
    (h : Writable name attributes) : marksAfter? none (tagChars name attributes) = some none := by
  rw [tagChars, marksAfter?_append, marksAfter?_inner fun c hc => (isTagName_char h.tag hc).2.1]
  exact marksAfter?_attributeChars h.names

private theorem scan_tag (seen : List Char) {cs : List Char} {mark after : Option Char}
    (h : marksAfter? mark cs = some after) :
    ∃ next, scan start here (.tag seen mark) (cs ++ rest) =
      scan start next (.tag (cs.reverse ++ seen) after) rest := by
  induction cs generalizing here seen mark with
  | nil => exact ⟨here, by rw [Option.some_inj.1 h]; rfl⟩
  | cons c cs ih =>
    rw [marksAfter?] at h
    split at h
    · simp at h
    · rename_i hinside
      obtain ⟨next, hnext⟩ := ih (here + c.utf8Size) (c :: seen) h
      refine ⟨next, ?_⟩
      rw [List.cons_append, scan, if_neg hinside, hnext]
      simp

private theorem tagChars_eq_cons {name : String} {attributes : List (String × String)}
    (h : Writable name attributes) : ∃ c cs, tagChars name attributes = c :: cs ∧
      c ≠ '!' ∧ c ≠ '/' ∧ c ≠ '?' ∧ c ≠ '>' := by
  cases hname : name.toList with
  | nil =>
    have htag := h.tag
    simp only [isTagName, Bool.and_eq_true, Bool.not_eq_true'] at htag
    have hempty : name = "" := String.toList_eq_nil_iff.1 hname
    simp [hempty] at htag
  | cons c cs =>
    obtain ⟨-, hinner, hslash, hbang, hmark⟩ :=
      isTagName_char h.tag (hname ▸ List.mem_cons_self : c ∈ name.toList)
    simp only [isInner, Bool.and_eq_true, decide_eq_true_eq] at hinner
    exact ⟨c, cs ++ attributeChars attributes, by simp [tagChars, hname], hbang, hslash, hmark,
      hinner.1.1⟩

private theorem scan_opened {cs : List Char} {c : Char}
    (hc : c ≠ '!' ∧ c ≠ '/' ∧ c ≠ '?' ∧ c ≠ '>') (h : marksAfter? none (c :: cs) = some none) :
    ∃ next, scan start here .opened (c :: cs ++ '>' :: rest) =
      .cons (ofTag (c :: cs).reverse) start next (scan next next (.text []) rest) := by
  rw [marksAfter?, if_neg (by simp [hc])] at h
  obtain ⟨mid, hmid⟩ := scan_tag start (here + c.utf8Size) ('>' :: rest) [c] h
  refine ⟨mid + '>'.utf8Size, ?_⟩
  rw [List.cons_append, scan, if_neg hc.1, if_neg hc.2.1, if_neg hc.2.2.1, if_neg hc.2.2.2, hmid,
    scan, if_pos (by simp)]
  simp

private theorem ofTag_tagChars {name : String} {attributes : List (String × String)}
    (h : Writable name attributes) :
    ofTag (tagChars name attributes).reverse = .tag (tagChars name attributes) false := by
  obtain ⟨c, cs, hcs, hc⟩ : ∃ c cs, (tagChars name attributes).reverse = c :: cs ∧ c ≠ '/' := by
    rcases List.eq_nil_or_concat attributes with rfl | ⟨front, a, rfl⟩
    · obtain ⟨c, cs, hcs⟩ := tagChars_eq_cons h
      have hne : (tagChars name []).reverse ≠ [] := by simp [hcs.1]
      obtain ⟨d, ds, hds⟩ := List.exists_cons_of_ne_nil hne
      have hd : d ∈ name.toList := by
        have hmem : d ∈ (tagChars name []).reverse := hds ▸ List.mem_cons_self
        simpa [tagChars, attributeChars] using hmem
      exact ⟨d, ds, hds, (isTagName_char h.tag hd).2.2.1⟩
    · exact ⟨'"', _, by simp [tagChars, attributeChars, List.flatMap_append]; rfl, by decide⟩
  have hslash : ofTag (c :: cs) = .tag (c :: cs).reverse false := by
    unfold ofTag
    split
    · rename_i heq
      exact absurd (List.cons.inj heq).1 hc
    · rfl
  rw [hcs, hslash, ← hcs, List.reverse_reverse]

theorem scan_opening {name : String} {attributes : List (String × String)}
    (h : Writable name attributes) :
    ∃ next, scan start here .opened (tagChars name attributes ++ '>' :: rest) =
      .cons (.tag (tagChars name attributes) false) start next
        (scan next next (.text []) rest) := by
  obtain ⟨c, cs, hcs, hc⟩ := tagChars_eq_cons h
  have hmarks := marksAfter?_tagChars h
  have htag := ofTag_tagChars h
  rw [hcs] at hmarks htag ⊢
  rw [← htag]
  exact scan_opened start here rest hc hmarks

theorem scan_single {name : String} {attributes : List (String × String)}
    (h : Writable name attributes) :
    ∃ next, scan start here .opened (tagChars name attributes ++ '/' :: '>' :: rest) =
      .cons (.tag (tagChars name attributes) true) start next
        (scan next next (.text []) rest) := by
  obtain ⟨c, cs, hcs, hc⟩ := tagChars_eq_cons h
  have hmarks : marksAfter? none (c :: (cs ++ ['/'])) = some none := by
    have hslash : marksAfter? none ['/'] = some none := by decide
    rw [← List.cons_append, ← hcs, marksAfter?_append, marksAfter?_tagChars h, Option.bind_some,
      hslash]
  obtain ⟨next, hnext⟩ := scan_opened start here rest hc hmarks
  refine ⟨next, ?_⟩
  rw [hcs]
  simpa [ofTag] using hnext

private theorem scan_closing (seen : List Char) {cs : List Char}
    (hcs : ∀ c ∈ cs, isInner c = true) :
    ∃ next, scan start here (.closing seen none) (cs ++ '>' :: rest) =
      .cons (ofClosing (cs.reverse ++ seen)) start next (scan next next (.text []) rest) := by
  induction cs generalizing here seen with
  | nil => exact ⟨_, by rw [List.nil_append, scan, if_pos (by simp)]; rfl⟩
  | cons c cs ih =>
    simp only [List.mem_cons, forall_eq_or_imp, isInner, Bool.and_eq_true, decide_eq_true_eq] at hcs
    have hmark : nextMark none c = none := by simp [nextMark, hcs.1]
    obtain ⟨next, hnext⟩ := ih (here + c.utf8Size) (c :: seen)
      (by simpa [isInner] using hcs.2)
    refine ⟨next, ?_⟩
    rw [List.cons_append, scan, if_neg (by simp [hcs.1]), hmark, hnext]
    simp

theorem scan_end {name : String} (h : isTagName name = true) :
    ∃ next, scan start here .opened ('/' :: (name.toList ++ '>' :: rest)) =
      .cons (.closing name.toList) start next (scan next next (.text []) rest) := by
  obtain ⟨next, hnext⟩ := scan_closing start (here + '/'.utf8Size) rest []
    fun c hc => (isTagName_char h hc).2.1
  refine ⟨next, ?_⟩
  have hname : ofClosing (name.toList.reverse ++ []) = .closing name.toList := by
    have hspace (c : Char) (hc : c ∈ name.toList.reverse) : isSpace c = false :=
      (isTagName_char h (List.mem_reverse.1 hc)).1
    have hkeep : name.toList.reverse.dropWhile isSpace = name.toList.reverse := by
      cases hrev : name.toList.reverse with
      | nil => rfl
      | cons c cs => simp [hspace c (hrev ▸ List.mem_cons_self)]
    rw [List.append_nil, ofClosing, hkeep, List.reverse_reverse]
  rw [scan, if_neg (by decide), if_pos rfl, hnext, hname]

def sectionEnd : List Char := [']', ']', '>']

/-- Characters among which no section ends. -/
def Endless (cs : List Char) : Prop := ¬ sectionEnd <:+: cs

private theorem scan_literal (front cs : List Char) (hends : Endless (front ++ cs)) :
    ∃ next, scan start here (.literal (front.reverse ++ "![CDATA[".toList.reverse))
        (cs ++ sectionEnd ++ rest) =
      .cons (.literal (front ++ cs)) start next (scan next next (.text []) rest) := by
  induction cs generalizing here front with
  | nil =>
    refine ⟨here + ']'.utf8Size + ']'.utf8Size + '>'.utf8Size, ?_⟩
    have hdone : ofLiteral? (']' :: ']' :: (front.reverse ++ "![CDATA[".toList.reverse)) =
        some (.literal (front ++ [])) := by
      simp [ofLiteral?]
    have hbracket : ¬ (']' : Char) = '>' := by decide
    rw [List.nil_append, sectionEnd, List.cons_append, scan, if_neg (hbracket ·.1),
      List.cons_append, scan, if_neg (hbracket ·.1), List.cons_append, scan,
      if_pos (by simp [endsLiteral]), hdone]
    simp
  | cons c cs ih =>
    have hgoes : ¬ (c = '>' ∧
        endsLiteral (front.reverse ++ "![CDATA[".toList.reverse) = true) := by
      rintro ⟨rfl, hend⟩
      -- The two brackets in front stand in the section itself, as its beginning has none like them.
      obtain ⟨before, hbefore⟩ : ∃ before, front = before ++ [']', ']'] := by
        rcases List.eq_nil_or_concat front with rfl | ⟨init, a, rfl⟩
        · exact absurd hend (by decide)
        · rcases List.eq_nil_or_concat init with rfl | ⟨init, b, rfl⟩
          · simp [endsLiteral] at hend
          · rw [List.concat_eq_append, List.reverse_concat, List.concat_eq_append,
              List.reverse_concat, List.cons_append, List.cons_append] at hend
            unfold endsLiteral at hend
            split at hend
            · rename_i heq
              obtain ⟨ha, hrest⟩ := List.cons.inj heq
              exact ⟨init, by simp [ha, (List.cons.inj hrest).1]⟩
            · simp at hend
      exact hends ⟨before, cs, by simp [hbefore, sectionEnd]⟩
    obtain ⟨next, hnext⟩ := ih (here + c.utf8Size) (front ++ [c]) (by simpa using hends)
    refine ⟨next, ?_⟩
    rw [List.cons_append, List.cons_append, scan, if_neg hgoes]
    simpa using hnext

theorem scan_section {cs : List Char} (h : Endless cs) :
    ∃ next, scan start here .opened ("![CDATA[".toList ++ (cs ++ sectionEnd ++ rest)) =
      .cons (.literal cs) start next (scan next next (.text []) rest) := by
  have hname (here : Nat) (tail : List Char) : ∃ next,
      scan start here (.literal ['[', '!']) ("CDATA[".toList ++ tail) =
        scan start next (.literal "![CDATA[".toList.reverse) tail := by
    refine ⟨here + 'C'.utf8Size + 'D'.utf8Size + 'A'.utf8Size + 'T'.utf8Size + 'A'.utf8Size +
      '['.utf8Size, ?_⟩
    simp [scan]
  obtain ⟨mid, hmid⟩ := hname (here + '!'.utf8Size + '['.utf8Size) (cs ++ sectionEnd ++ rest)
  obtain ⟨next, hnext⟩ := scan_literal start mid rest [] cs h
  refine ⟨next, ?_⟩
  have hopen : "![CDATA[".toList ++ (cs ++ sectionEnd ++ rest) =
      '!' :: '[' :: ("CDATA[".toList ++ (cs ++ sectionEnd ++ rest)) := rfl
  rw [hopen, scan, if_pos rfl, scan, if_pos rfl, hmid]
  exact hnext

end LiveDoc.Markup.Token
