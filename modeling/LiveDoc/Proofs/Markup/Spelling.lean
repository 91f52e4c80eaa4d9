import LiveDoc.Proofs.Markup.Joined
import LiveDoc.Proofs.Markup.Scanning

/-!
# Spelling of elements

When characters spell an element, and that a text which does is read as this element, but for how
its character data is cut into pieces.
-/

set_option autoImplicit false
set_option relaxedAutoImplicit false

namespace LiveDoc.Markup

open Element (joinItems glueText)
open Token (scan sectionEnd Endless)

mutual

/-- Characters spell items: text is escaped, sections are not and hold no end of a section. -/
inductive Spells : List (Item Element) → List Char → Prop
  | nil : Spells [] []
  | text {chars : String} {rest : List (Item Element)} {cs : List Char} (after : Spells rest cs) :
    Spells (.text chars :: rest) (escapeChars chars.toList ++ cs)
  | literal {chars : String} {rest : List (Item Element)} {cs : List Char}
    (endless : Endless chars.toList) (after : Spells rest cs) :
    Spells (.literal chars :: rest)
      ('<' :: ("![CDATA[".toList ++ (chars.toList ++ sectionEnd ++ cs)))
  | element {e : Element} {rest : List (Item Element)} {spelled cs : List Char}
    (inside : SpellsElement e spelled) (after : Spells rest cs) :
    Spells (.element e :: rest) ('<' :: (spelled ++ cs))

/-- Characters spell an element behind its first bracket: an empty tag, or a pair of tags around
what spells its items. -/
inductive SpellsElement : Element → List Char → Prop
  | single {name : String} {attributes : List (String × String)} (tag : Writable name attributes) :
    SpellsElement ⟨name, attributes, []⟩ (tagChars name attributes ++ ['/', '>'])
  | pair {name : String} {attributes : List (String × String)} {items : List (Item Element)}
    {cs : List Char} (tag : Writable name attributes) (inside : Spells items cs) :
    SpellsElement ⟨name, attributes, items⟩
      (tagChars name attributes ++ '>' :: (cs ++ '<' :: '/' :: (name.toList ++ ['>'])))

end

/-- Building goes from one state to another over a cut text, without a fault. -/
def Reads (b : Building) (cut : Token.Cut) (built : Building) : Prop :=
  ∃ events, Event.ofTokens cut.fault cut.tokens = ⟨events, none⟩ ∧
    events.foldlM Building.step b = .ok built

def OpenElement.push (e : OpenElement) (items : List (Item Element)) : OpenElement :=
  { e with items := items.reverse ++ e.items }

section Steps

variable {b mid built : Building} {cut : Token.Cut} {start stop here : Nat} {rest : List Char}
  {e : OpenElement} {outer : List OpenElement} {root : Option Element}

theorem Reads.cons {token : Token} {event : Event} (hevent : Event.ofToken start token = .ok event)
    (hstep : b.step ⟨event, start, stop⟩ = .ok mid) (h : Reads mid cut built) :
    Reads b (.cons token start stop cut) built := by
  obtain ⟨events, hevents, hbuilt⟩ := h
  refine ⟨⟨event, start, stop⟩ :: events, ?_, ?_⟩
  · simp [Token.Cut.cons, Event.ofTokens, hevent, hevents]
  · rw [List.foldlM_cons, hstep]
    exact hbuilt

theorem OpenElement.push_append (e : OpenElement) (first second : List (Item Element)) :
    e.push (first ++ second) = (e.push first).push second := by
  simp [push]

theorem OpenElement.push_cons (e : OpenElement) (item : Item Element)
    (items : List (Item Element)) : e.push (item :: items) = (e.push [item]).push items :=
  e.push_append [item] items

theorem exists_flushed (start here : Nat) (rest : List Char) {seen plain : List Char}
    (h : unescapeChars? seen.reverse = some plain) :
    ∃ (done : List (Item Element)) (next : Nat),
      (∀ more, joinItems (done ++ more) = joinItems (.text (String.ofList plain) :: more)) ∧
      ∀ (e : OpenElement) (outer : List OpenElement) (root : Option Element) (built : Building),
        Reads ⟨e.push done :: outer, root⟩ (scan here next .opened rest) built →
          Reads ⟨e :: outer, root⟩ (scan start here (.text seen) ('<' :: rest)) built := by
  cases seen with
  | nil =>
    obtain rfl : plain = [] := by simpa [unescapeChars?, unescapeFrom?] using h.symm
    refine ⟨[], here + '<'.utf8Size, fun more => by simp [joinItems],
      fun e outer root built h => ?_⟩
    rw [scan, if_pos rfl, if_pos (by rfl)]
    exact h
  | cons c seen =>
    refine ⟨[.text (String.ofList plain)], here + '<'.utf8Size, fun more => rfl,
      fun e outer root built hreads => ?_⟩
    rw [scan, if_pos rfl, if_neg (by simp)]
    have hevent : Event.ofToken start (.text (c :: seen).reverse) =
        .ok (.text (String.ofList plain)) := by
      simp only [Event.ofToken, h]
    exact hreads.cons hevent rfl

end Steps

/-- Behind a bracket an element is read as itself, but for its character data, and put where it
belongs. -/
def TakesElement (e : Element) (cs : List Char) : Prop :=
  ∀ (start here : Nat) (rest : List Char), ∃ (found : Element) (place next : Nat),
    found.joined = e.joined ∧ ∀ b mid built : Building, b.attach found place = .ok mid →
      Reads mid (scan next next (.text []) rest) built →
        Reads b (scan start here .opened (cs ++ rest)) built

/-- In an open element items are read as themselves, but for their character data. What has been
seen before and is seen behind them of text, stands around them. -/
def Takes (items : List (Item Element)) (cs : List Char) : Prop :=
  ∀ (start here : Nat) (seen plain rest : List Char), unescapeChars? seen.reverse = some plain →
    ∃ (done : List (Item Element)) (start' here' : Nat) (seen' plain' : List Char),
      unescapeChars? seen'.reverse = some plain' ∧
      (∀ more, joinItems (done ++ .text (String.ofList plain') :: more) =
        joinItems (.text (String.ofList plain) :: (items ++ more))) ∧
      ∀ (e : OpenElement) (outer : List OpenElement) (root : Option Element) (built : Building),
        Reads ⟨e.push done :: outer, root⟩ (scan start' here' (.text seen') rest) built →
          Reads ⟨e :: outer, root⟩ (scan start here (.text seen) (cs ++ rest)) built

namespace Takes

variable {items rest : List (Item Element)} {cs : List Char}

theorem nil : Takes [] [] := by
  intro start here seen plain tail hseen
  refine ⟨[], start, here, seen, plain, hseen, fun more => rfl, fun e outer root built h => ?_⟩
  simpa [OpenElement.push] using h

theorem text {chars : String} (hrest : Takes rest cs) :
    Takes (.text chars :: rest) (escapeChars chars.toList ++ cs) := by
  intro start here seen plain tail hseen
  have hplain (c : Char) (hc : c ∈ escapeChars chars.toList) : c ≠ '<' := by
    have := isPlain_of_mem_escapeChars hc
    simp only [isPlain, Bool.and_eq_true, decide_eq_true_eq] at this
    exact this.1.1.1
  obtain ⟨next, hnext⟩ := Token.scan_text start here (cs ++ tail) seen hplain
  have hseen' : unescapeChars? ((escapeChars chars.toList).reverse ++ seen).reverse =
      some (plain ++ chars.toList) := by
    rw [List.reverse_append, List.reverse_reverse, unescapeChars?_append hseen,
      unescapeChars?_escapeChars, Option.map_some]
  obtain ⟨done, start', here', seen', plain', hseen', hjoin, hreads⟩ :=
    hrest start next _ _ tail hseen'
  refine ⟨done, start', here', seen', plain', hseen', fun more => ?_,
    fun e outer root built h => ?_⟩
  · rw [hjoin, joinItems, String.ofList_append, String.ofList_toList, List.cons_append, joinItems,
      joinItems, Element.glueText_glueText]
  · rw [List.append_assoc, hnext]
    exact hreads e outer root built h

theorem literal {chars : String} (hendless : Endless chars.toList) (hrest : Takes rest cs) :
    Takes (.literal chars :: rest)
      ('<' :: ("![CDATA[".toList ++ (chars.toList ++ sectionEnd ++ cs))) := by
  intro start here seen plain tail hseen
  obtain ⟨flushed, mid, hflushed, hflush⟩ := exists_flushed start here
    ("![CDATA[".toList ++ (chars.toList ++ sectionEnd ++ (cs ++ tail))) hseen
  obtain ⟨next, hnext⟩ := Token.scan_section here mid (cs ++ tail) hendless
  obtain ⟨done, start', here', seen', plain', hseen', hjoin, hreads⟩ :=
    hrest next next [] [] tail (by rfl)
  refine ⟨flushed ++ .literal chars :: done, start', here', seen', plain', hseen', fun more => ?_,
    fun e outer root built h => ?_⟩
  · rw [List.append_assoc, hflushed]
    simp only [List.cons_append, joinItems, hjoin, String.ofList_nil, Element.glueText_empty]
  · have hcs : '<' :: ("![CDATA[".toList ++ (chars.toList ++ sectionEnd ++ cs)) ++ tail =
        '<' :: ("![CDATA[".toList ++ (chars.toList ++ sectionEnd ++ (cs ++ tail))) := by
      simp only [List.cons_append, List.append_assoc]
    rw [hcs]
    refine hflush e outer root built ?_
    rw [hnext]
    have hevent : Event.ofToken here (.literal chars.toList) = .ok (.literal chars) := by
      simp [Event.ofToken]
    refine Reads.cons hevent rfl ?_
    rw [OpenElement.push_append, OpenElement.push_cons] at h
    exact hreads (e.push flushed |>.push [.literal chars]) outer root built h

theorem element {e : Element} {spelled : List Char} (hinside : TakesElement e spelled)
    (hrest : Takes rest cs) : Takes (.element e :: rest) ('<' :: (spelled ++ cs)) := by
  intro start here seen plain tail hseen
  obtain ⟨flushed, mid, hflushed, hflush⟩ := exists_flushed start here
    (spelled ++ (cs ++ tail)) hseen
  obtain ⟨found, place, next, hfound, hattach⟩ := hinside here mid (cs ++ tail)
  obtain ⟨done, start', here', seen', plain', hseen', hjoin, hreads⟩ :=
    hrest next next [] [] tail (by rfl)
  refine ⟨flushed ++ .element found :: done, start', here', seen', plain', hseen', fun more => ?_,
    fun o outer root built h => ?_⟩
  · rw [List.append_assoc, hflushed]
    simp only [List.cons_append, joinItems, hjoin, String.ofList_nil, Element.glueText_empty,
      hfound]
  · rw [List.cons_append, List.append_assoc]
    refine hflush o outer root built (hattach _ _ built rfl ?_)
    rw [OpenElement.push_append, OpenElement.push_cons] at h
    exact hreads (o.push flushed |>.push [.element found]) outer root built h

end Takes

namespace TakesElement

variable {name : String} {attributes : List (String × String)}

theorem single (tag : Writable name attributes) :
    TakesElement ⟨name, attributes, []⟩ (tagChars name attributes ++ ['/', '>']) := by
  intro start here rest
  obtain ⟨next, hnext⟩ := Token.scan_single start here rest tag
  refine ⟨⟨name, attributes, []⟩, start, next, rfl, fun b mid built hattach h => ?_⟩
  rw [List.append_assoc, List.cons_append, List.cons_append, List.nil_append, hnext]
  have hevent : Event.ofToken start (.tag (tagChars name attributes) true) =
      .ok (.empty name attributes) := by
    rw [Event.ofToken, Event.ofTag_tagChars tag, if_pos rfl]
  exact Reads.cons hevent hattach h

theorem pair {items : List (Item Element)} {cs : List Char} (tag : Writable name attributes)
    (hitems : Takes items cs) :
    TakesElement ⟨name, attributes, items⟩
      (tagChars name attributes ++ '>' :: (cs ++ '<' :: '/' :: (name.toList ++ ['>']))) := by
  intro start here rest
  obtain ⟨inner, hinner⟩ := Token.scan_opening start here
    (cs ++ '<' :: '/' :: (name.toList ++ '>' :: rest)) tag
  obtain ⟨done, start', here', seen, plain, hseen, hjoin, hreads⟩ :=
    hitems inner inner [] [] ('<' :: '/' :: (name.toList ++ '>' :: rest)) (by rfl)
  obtain ⟨flushed, mid, hflushed, hflush⟩ := exists_flushed start' here'
    ('/' :: (name.toList ++ '>' :: rest)) hseen
  obtain ⟨next, hnext⟩ := Token.scan_end here' mid rest tag.tag
  refine ⟨⟨name, attributes, done ++ flushed⟩, here', next, ?_,
    fun b mid built hattach h => ?_⟩
  · have hnil : joinItems flushed = joinItems [.text (String.ofList plain)] := by
      simpa using hflushed []
    rw [Element.joined, Element.joinItems_append hnil, hjoin, String.ofList_nil, joinItems,
      Element.glueText_empty, List.append_nil, Element.joined]
  · have hcs : tagChars name attributes ++ '>' :: (cs ++ '<' :: '/' :: (name.toList ++ ['>'])) ++
        rest = tagChars name attributes ++
          '>' :: (cs ++ '<' :: '/' :: (name.toList ++ '>' :: rest)) := by
      simp
    rw [hcs, hinner]
    have hopens : Event.ofToken start (.tag (tagChars name attributes) false) =
        .ok (.opens name attributes) := by
      rw [Event.ofToken, Event.ofTag_tagChars tag, if_neg (by simp)]
    refine Reads.cons hopens rfl ?_
    refine hreads _ _ _ _ (hflush _ _ _ _ ?_)
    rw [hnext]
    have hcloses : Event.ofToken here' (.closing name.toList) = .ok (.closes name) := by
      simp [Event.ofToken]
    refine Reads.cons hcloses ?_ h
    rw [← OpenElement.push_append]
    have hclose : (OpenElement.push ⟨name, attributes, []⟩ (done ++ flushed)).close =
        ⟨name, attributes, done ++ flushed⟩ := by
      simp [OpenElement.push, OpenElement.close]
    have hname : (OpenElement.push ⟨name, attributes, []⟩ (done ++ flushed)).name = name := rfl
    simp only [Building.step, hname, if_true, hclose]
    exact hattach

end TakesElement

mutual

theorem Spells.takes : ∀ {items : List (Item Element)} {cs : List Char},
    Spells items cs → Takes items cs
  | _, _, .nil => .nil
  | _, _, .text after => .text after.takes
  | _, _, .literal endless after => .literal endless after.takes
  | _, _, .element inside after => .element inside.takes after.takes

theorem SpellsElement.takes : ∀ {e : Element} {cs : List Char},
    SpellsElement e cs → TakesElement e cs
  | _, _, .single tag => .single tag
  | _, _, .pair tag inside => .pair tag inside.takes

end

/-- A text that spells an element, with blanks behind it, is read as this element but for how its
character data is cut into pieces. -/
theorem ofText_of_spells {root : Element} {cs tail : List Char} (h : SpellsElement root cs)
    (htail : ∀ c ∈ tail, Text.isBlank c = true) :
    ∃ found, Element.ofText (String.ofList ('<' :: (cs ++ tail))) = .ok found ∧
      found.joined = root.joined := by
  obtain ⟨found, place, next, hfound, hattach⟩ := h.takes 0 (0 + '<'.utf8Size) tail
  have hescape := escapeChars_of_blank htail
  have hend : Reads ⟨[], some found⟩ (scan next next (.text []) tail) ⟨[], some found⟩ := by
    have hplain (c : Char) (hc : c ∈ tail) : c ≠ '<' := by
      have hmem := isPlain_of_mem_escapeChars (hescape.symm ▸ hc : c ∈ escapeChars tail)
      simp only [isPlain, Bool.and_eq_true, decide_eq_true_eq] at hmem
      exact hmem.1.1.1
    obtain ⟨last, hlast⟩ := Token.scan_text next next [] [] hplain
    rw [List.append_nil, List.append_nil] at hlast
    rw [hlast]
    cases hrev : tail.reverse with
    | nil => exact ⟨[], rfl, rfl⟩
    | cons c cs =>
      have hunescape : unescapeChars? (c :: cs).reverse = some tail := by
        have hread := unescapeChars?_escapeChars tail
        rw [hescape] at hread
        rw [← hrev, List.reverse_reverse, hread]
      refine ⟨[⟨.text (String.ofList tail), next, last⟩], ?_, ?_⟩
      · rw [scan]
        · simp only [Event.ofTokens, Event.ofToken, hunescape]
        · simp
      · have hblank : Text.isAllBlank (String.ofList tail) = true := by
          simpa [Text.isAllBlank] using htail
        simp [Building.step, Building.add, hblank, pure, Except.pure, bind, Except.bind]
  obtain ⟨events, hevents, hbuilt⟩ := hattach .start ⟨[], some found⟩ ⟨[], some found⟩ rfl hend
  have hscan : Token.ofText (String.ofList ('<' :: (cs ++ tail))) =
      scan 0 (0 + '<'.utf8Size) .opened (cs ++ tail) := by
    have hmark : Token.withoutMark ('<' :: (cs ++ tail)) = '<' :: (cs ++ tail) := by
      unfold Token.withoutMark
      split
      · rename_i heq
        exact absurd (List.cons.inj heq).1 (by decide)
      · rfl
    rw [Token.ofText, String.toList_ofList, hmark, scan, if_pos rfl, if_pos (by rfl)]
  refine ⟨found, ?_, hfound⟩
  simp only [Element.ofText, Element.ofEvents, hscan, hevents, hbuilt, bind, Except.bind,
    Building.finish]

end LiveDoc.Markup
