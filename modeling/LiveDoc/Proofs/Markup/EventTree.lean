import LiveDoc.Proofs.Markup.Spelling
import LiveDoc.Proofs.Outcome

/-!
# Trees and their events

Events describe a tree exactly if what they tell, one after the other, are the events of this tree
in order. What has been read at any time is what the open elements and the root stand for; and
whatever is open, the events of an element put it where it belongs.
-/

set_option autoImplicit false
set_option relaxedAutoImplicit false

namespace LiveDoc.Markup

open Element (eventsOfItems)

namespace Event

/-- How many elements are open behind an event, with `depth` of them open in front of it. -/
def depthAfter (depth : Nat) : Event → Nat
  | opens _ _ => depth + 1
  | closes _ => depth - 1
  | empty _ _ | text _ | literal _ | skipped => depth

/-- What an event tells about a tree where `depth` elements are open. Blank text outside of all
elements tells nothing, and an empty tag tells what a pair of tags does. -/
def tells (depth : Nat) : Event → List Event
  | opens name attributes => [opens name attributes]
  | empty name attributes => [opens name attributes, closes name]
  | closes name => [closes name]
  | text chars => if depth = 0 ∧ Text.isAllBlank chars = true then [] else [text chars]
  | literal chars => [literal chars]
  | skipped => []

/-- What events tell about a tree, the first of them where `depth` elements are open. -/
def told (depth : Nat) : List Event → List Event
  | [] => []
  | e :: rest => e.tells depth ++ told (e.depthAfter depth) rest

/-- The events of a text, up to the first fault. -/
def ofText (s : String) : Sequence :=
  ofTokens (Token.ofText s).fault (Token.ofText s).tokens

end Event

theorem Element.eventsOfItems_append (first second : List (Item Element)) :
    eventsOfItems (first ++ second) = eventsOfItems first ++ eventsOfItems second := by
  induction first with
  | nil => rfl
  | cons item rest ih => cases item <;> simp [eventsOfItems, ih]

namespace Building

variable {b built : Building} {placed : List (Placed Event)}

/-- The events that have opened and filled some elements, the innermost first. -/
def openEvents : List OpenElement → List Event
  | [] => []
  | e :: outer =>
    openEvents outer ++ .opens e.name e.attributes :: eventsOfItems e.items.reverse

/-- The events for which the root and the open elements stand. -/
def events (b : Building) : List Event :=
  (b.root.map Element.events).getD [] ++ openEvents b.stack

private theorem events_add (item : Item Element) (e : OpenElement) (outer : List OpenElement)
    (root : Option Element) :
    events ⟨{ e with items := item :: e.items } :: outer, root⟩ =
      events ⟨e :: outer, root⟩ ++ eventsOfItems [item] := by
  simp [events, openEvents, Element.eventsOfItems_append]

theorem events_attach {e : Element} {place : Nat} (h : b.attach e place = .ok built) :
    built.events = b.events ++ e.events ∧ built.stack.length = b.stack.length := by
  obtain ⟨stack, root⟩ := b
  cases stack with
  | nil =>
    cases root with
    | none =>
      obtain rfl := Except.ok.inj h
      simp [events, openEvents]
    | some root => simp [attach, add] at h
  | cons o outer =>
    obtain rfl := Except.ok.inj h
    exact ⟨by simpa [eventsOfItems] using events_add (.element e) o outer root, rfl⟩

theorem events_step {event : Placed Event} (h : b.step event = .ok built) :
    built.events = b.events ++ event.value.tells b.stack.length ∧
      built.stack.length = event.value.depthAfter b.stack.length := by
  obtain ⟨stack, root⟩ := b
  obtain ⟨event, start, stop⟩ := event
  cases event with
  | opens name attributes =>
    obtain rfl := Except.ok.inj h
    simp [events, openEvents, eventsOfItems, Event.tells, Event.depthAfter]
  | empty name attributes =>
    simpa [Element.events, eventsOfItems, Event.tells, Event.depthAfter] using events_attach h
  | closes name =>
    cases stack with
    | nil => simp [step] at h
    | cons e outer =>
      simp only [step] at h
      split at h
      · rename_i hname
        obtain ⟨hevents, hlength⟩ := events_attach h
        refine ⟨?_, hlength⟩
        rw [hevents, ← hname]
        simp [events, openEvents, OpenElement.close, Element.events, Event.tells]
      · simp at h
  | text chars =>
    cases stack with
    | nil =>
      simp only [step, add] at h
      split at h
      · rename_i hblank
        obtain rfl := Except.ok.inj h
        simp [Event.tells, Event.depthAfter, hblank]
      · simp at h
    | cons e outer =>
      obtain rfl := Except.ok.inj h
      exact ⟨by simpa [eventsOfItems, Event.tells] using events_add (.text chars) e outer root, rfl⟩
  | literal chars =>
    cases stack with
    | nil => simp [step, add] at h
    | cons e outer =>
      obtain rfl := Except.ok.inj h
      exact ⟨by simpa [eventsOfItems, Event.tells] using events_add (.literal chars) e outer root,
        rfl⟩
  | skipped =>
    obtain rfl := Except.ok.inj h
    simp [Event.tells, Event.depthAfter]

theorem events_foldlM (h : placed.foldlM step b = .ok built) :
    built.events = b.events ++ Event.told b.stack.length (placed.map Placed.value) := by
  induction placed generalizing b with
  | nil =>
    obtain rfl := Except.ok.inj h
    simp [Event.told]
  | cons first rest ih =>
    rw [List.foldlM_cons, bind_eq_ok_iff] at h
    obtain ⟨mid, hmid, hrest⟩ := h
    obtain ⟨hevents, hlength⟩ := events_step hmid
    rw [ih hrest, hevents, hlength, List.map_cons, Event.told, List.append_assoc]

/-- The state behind some events, if there is no fault among them; their places do not matter. -/
def run? (b : Building) (events : List Event) : Option Building :=
  events.foldlM (fun b e => (b.step ⟨e, 0, 0⟩).toOption) b

/-- The state with an element put where it belongs, if it belongs anywhere. -/
def attach? (b : Building) (e : Element) : Option Building :=
  (b.attach e 0).toOption

theorem run?_append (b : Building) (first second : List Event) :
    b.run? (first ++ second) = (b.run? first).bind (·.run? second) := by
  simp [run?]

private theorem toOption_attach (b : Building) (e : Element) (place : Nat) :
    (b.attach e place).toOption = b.attach? e := by
  unfold attach? attach
  split <;> rfl

private theorem run?_closes (e : OpenElement) (outer : List OpenElement) (root : Option Element) :
    run? ⟨e :: outer, root⟩ [.closes e.name] = attach? ⟨outer, root⟩ e.close := by
  simp [run?, step, toOption_attach]

theorem run?_tells (b : Building) (event : Placed Event) :
    b.run? (event.value.tells b.stack.length) = (b.step event).toOption := by
  obtain ⟨stack, root⟩ := b
  obtain ⟨event, start, stop⟩ := event
  cases event with
  | opens name attributes => rfl
  | empty name attributes =>
    show run? ⟨⟨name, attributes, []⟩ :: stack, root⟩ [.closes name] = _
    rw [run?_closes ⟨name, attributes, []⟩]
    simp [step, toOption_attach, OpenElement.close]
  | closes name =>
    cases stack with
    | nil => rfl
    | cons e outer =>
      simp only [Event.tells, run?, List.foldlM_cons, List.foldlM_nil, step]
      split
      · simp [toOption_attach]
      · rfl
  | text chars =>
    cases stack with
    | nil =>
      by_cases hblank : Text.isAllBlank chars = true
      · simp [Event.tells, run?, step, add, hblank, Except.toOption]
      · simp [Event.tells, run?, step, add, hblank, Except.toOption]
    | cons e outer => rfl
  | literal chars => cases stack <;> rfl
  | skipped => rfl

theorem run?_told (b : Building) (placed : List (Placed Event)) :
    b.run? (Event.told b.stack.length (placed.map Placed.value)) =
      (placed.foldlM step b).toOption := by
  induction placed generalizing b with
  | nil => rfl
  | cons first rest ih =>
    rw [List.map_cons, Event.told, run?_append, run?_tells, List.foldlM_cons]
    cases hstep : b.step first with
    | error fault => rfl
    | ok mid =>
      rw [← (events_step hstep).2]
      exact ih mid

theorem run?_events : ∀ (e : Element) (b : Building), b.run? e.events = b.attach? e := by
  refine Element.induct (Q := fun items => ∀ (o : OpenElement) (outer : List OpenElement)
      (root : Option Element),
      run? ⟨o :: outer, root⟩ (eventsOfItems items) = some ⟨o.push items :: outer, root⟩)
    ?mk ?nil ?text ?literal ?element
  case mk =>
    intro name attributes items hitems b
    have hopened : b.run? (.opens name attributes :: (eventsOfItems items ++ [.closes name])) =
        run? ⟨⟨name, attributes, []⟩ :: b.stack, b.root⟩
          (eventsOfItems items ++ [.closes name]) := rfl
    rw [Element.events, hopened, run?_append, hitems, Option.bind_some]
    simpa [OpenElement.push, OpenElement.close] using
      run?_closes (OpenElement.push ⟨name, attributes, []⟩ items) b.stack b.root
  case nil => exact fun o outer root => rfl
  case text =>
    intro chars rest ih o outer root
    rw [o.push_cons, ← ih]
    rfl
  case literal =>
    intro chars rest ih o outer root
    rw [o.push_cons, ← ih]
    rfl
  case element =>
    intro inner rest hinner ih o outer root
    rw [eventsOfItems, run?_append, hinner, o.push_cons, ← ih]
    rfl

end Building

namespace Element

open Building

private theorem ofEvents_eq_ok_iff_foldlM {placed : List (Placed Event)} {stop : Nat}
    {e : Element} :
    ofEvents ⟨placed, none⟩ stop = .ok e ↔
      placed.foldlM Building.step Building.start = .ok ⟨[], some e⟩ := by
  simp only [ofEvents, bind_eq_ok_iff]
  constructor
  · rintro ⟨⟨stack, root⟩, hbuilt, hfinish⟩
    cases stack with
    | nil =>
      cases root with
      | none => simp [finish] at hfinish
      | some root =>
        obtain rfl := Except.ok.inj hfinish
        exact hbuilt
    | cons o outer => simp [finish] at hfinish
  · exact fun hbuilt => ⟨_, hbuilt, rfl⟩

theorem ofEvents_eq_ok_iff {placed : List (Placed Event)} {stop : Nat} {e : Element} :
    ofEvents ⟨placed, none⟩ stop = .ok e ↔ Event.told 0 (placed.map Placed.value) = e.events := by
  rw [ofEvents_eq_ok_iff_foldlM]
  constructor
  · intro hbuilt
    simpa [Building.events, openEvents, start] using (events_foldlM hbuilt).symm
  · intro htold
    have hrun := run?_told start placed
    rw [start, List.length_nil, htold, run?_events] at hrun
    exact toOption_eq_some_iff.1 hrun.symm

/-- Events describe an element exactly if they end without a fault and tell those of the element;
all other events are refused. -/
theorem ofEvents_exact :
    (∀ (placed : List (Placed Event)) (stop : Nat) (e : Element),
      ofEvents ⟨placed, none⟩ stop = .ok e ↔
        Event.told 0 (placed.map Placed.value) = e.events) ∧
    (∀ (placed : List (Placed Event)) (stop : Nat),
      (∃ fault, ofEvents ⟨placed, none⟩ stop = .error fault) ↔
        ∀ e : Element, Event.told 0 (placed.map Placed.value) ≠ e.events) ∧
    ∀ (text : String) (e : Element), ofText text = .ok e ↔ (Event.ofText text).fault = none ∧
      Event.told 0 ((Event.ofText text).events.map Placed.value) = e.events := by
  refine ⟨fun placed stop e => ofEvents_eq_ok_iff, fun placed stop => ?_, fun text e => ?_⟩
  · have hiff (e : Element) : ofEvents ⟨placed, none⟩ stop = .ok e ↔ _ := ofEvents_eq_ok_iff
    simp only [ne_eq, ← hiff]
    cases ofEvents ⟨placed, none⟩ stop <;> simp
  · rw [ofText]
    generalize hstop : ((Token.ofText text).tokens.getLast?.map Placed.stop).getD 0 = stop
    show ofEvents (Event.ofText text) stop = .ok e ↔ _
    obtain ⟨events, fault⟩ := Event.ofText text
    cases fault with
    | none => simpa using ofEvents_eq_ok_iff
    | some fault => simp [ofEvents, bind_eq_ok_iff]

end Element

end LiveDoc.Markup
