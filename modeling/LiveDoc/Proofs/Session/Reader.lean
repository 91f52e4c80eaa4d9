import LiveDoc.Proofs.Reading.Steps
import LiveDoc.Session.Reader

/-!
# What a reader does

A reader that remembers its way does what is done with the place handed down: it ends in the same
way, comes back to where it was even from a fault, and has given the same ids. So what it finds in a
text does not depend on what it has read before.
-/

set_option autoImplicit false
set_option relaxedAutoImplicit false

namespace LiveDoc.Session

open Markup (Element Item)
open Reading (Read)

variable {α β : Type} {path : Path}

def Reader.ofPath (path : Path) (supply : IdSupply) : Reader :=
  ⟨.only path.root :: path.steps, supply⟩

theorem Reader.place_ofPath (path : Path) (supply : IdSupply) : (ofPath path supply).place = path :=
  rfl

theorem bind_run (work : Work α) (more : α → Work β) (r : Reader) :
    (work >>= more) r = match work r with
      | (.ok a, after) => more a after
      | (.error fault, after) => (.error fault, after) := by
  show StateT.bind work (ExceptT.bindCont more) r = _
  simp only [StateT.bind, bind]
  rcases work r with ⟨outcome, after⟩
  cases outcome <;> rfl

theorem here_run (say : Path → Except Fault α) (r : Reader) : here say r = (say r.place, r) := by
  unfold here
  rw [bind_run]
  show (liftM (say r.place) : Work α) r = _
  cases say r.place <;> rfl

/-- A reader ends as a reading with a supply does: it is back at its path, with what is left of the
supply if there is no fault. -/
inductive Ends (path : Path) : Except Fault (α × IdSupply) → Except Fault α × Reader → Prop
  | value (a : α) (supply : IdSupply) :
    Ends path (.ok (a, supply)) (.ok a, Reader.ofPath path supply)
  | fault (fault : Fault) (supply : IdSupply) :
    Ends path (.error fault) (.error fault, Reader.ofPath path supply)

theorem Ends.outcome {expected : Except Fault (α × IdSupply)} {actual : Except Fault α × Reader}
    (h : Ends path expected actual) : actual.1 = expected.map Prod.fst := by
  cases h <;> rfl

def Follows (path : Path) (work : Work α) (read : Read α) : Prop :=
  ∀ supply : IdSupply, Ends path (read supply) (work (Reader.ofPath path supply))

namespace Follows

theorem pure (a : α) : Follows path (pure a) (pure a) := .value a

theorem bind {work : Work α} {more : α → Work β} {read : Read α} {further : α → Read β}
    (h : Follows path work read) (hmore : ∀ a, Follows path (more a) (further a)) :
    Follows path (work >>= more) (read >>= further) := by
  intro supply
  have hwork := h supply
  rw [bind_run]
  show Ends path ((read supply).bind fun found => further found.1 found.2) _
  generalize read supply = expected at hwork ⊢
  generalize work (Reader.ofPath path supply) = actual at hwork ⊢
  cases hwork with
  | value a supply => exact hmore a supply
  | fault fault supply => exact .fault fault supply

theorem here (say : Path → Except Fault α) :
    Follows path (Session.here say) (liftM (say path)) := by
  intro supply
  rw [here_run, Reader.place_ofPath]
  cases say path with
  | ok a => exact .value a supply
  | error fault => exact .fault fault supply

theorem within {work : Work α} {read : Read α} (step : Path.Step)
    (h : Follows (path.down step) work read) : Follows path (Session.within step work) read := by
  intro supply
  have hwork := h supply
  have hback (supply : IdSupply) :
      { Reader.ofPath (path.down step) supply with
        path := (Reader.ofPath (path.down step) supply).path.dropLast } =
        Reader.ofPath path supply := by
    rw [Reader.ofPath, Path.down, ← List.cons_append, List.dropLast_concat]
    rfl
  have hrun : Session.within step work (Reader.ofPath path supply) =
      let (outcome, after) := work (Reader.ofPath (path.down step) supply)
      (outcome, { after with path := after.path.dropLast }) := rfl
  rw [hrun]
  generalize read supply = expected at hwork ⊢
  generalize work (Reader.ofPath (path.down step) supply) = actual at hwork ⊢
  cases hwork with
  | value a supply =>
    show Ends path _ (_, _)
    rw [hback]
    exact .value a supply
  | fault fault supply =>
    show Ends path _ (_, _)
    rw [hback]
    exact .fault fault supply

theorem freshId : Follows path Session.freshId Reading.freshId :=
  fun _ => .value _ _

theorem nodeId (e : Element) : Follows path (Session.nodeId e) (Reading.nodeId e) := by
  unfold Session.nodeId Reading.nodeId
  cases e.attr? "id" with
  | some ident => exact pure ident
  | none => exact freshId

variable {g : Grammar}

private theorem lift_bind (x : Except Fault α) (f : α → Except Fault β) :
    (liftM (x >>= f) : Read β) = liftM x >>= fun a => liftM (f a) := by
  cases x <;> rfl

theorem callParts (name type : String) (parts : Reading.CallParts) (items : List (Item Element)) :
    Follows path (Session.callParts g name type parts items)
      (liftM (Reading.callParts g path name type parts items)) := by
  induction items generalizing parts with
  | nil => exact pure parts
  | cons item rest ih =>
    cases item with
    | text chars | literal chars =>
      simp only [Session.callParts, Reading.callParts]
      split
      · exact ih parts
      · exact here _
    | element inner =>
      simp only [Session.callParts, Reading.callParts, lift_bind]
      refine bind (here _) fun _ => ?_
      split
      · rw [lift_bind]
        exact bind (within _ (here _)) fun parameters => ih _
      · split
        · rw [← bind_assoc, lift_bind, lift_bind]
          refine bind (within _ (bind (here _) fun innerType => here _)) fun instructions => ih _
        · exact here _

theorem call (e : Element) : Follows path (Session.call g e) (Reading.call g path e) := by
  refine bind (here _) fun type => ?_
  refine bind (nodeId e) fun ident => ?_
  exact bind (callParts e.name type ⟨none, none⟩ e.items) fun parts => pure _

private def Inside (g : Grammar) (items : List (Item Element)) : Prop :=
  ∀ inner, .element inner ∈ items → ∀ path : Path,
    Follows path (Session.node g inner) (Reading.node g path inner)

private theorem Inside.tail {item : Item Element} {rest : List (Item Element)}
    (h : Inside g (item :: rest)) : Inside g rest :=
  fun inner hinner => h inner (List.mem_cons_of_mem _ hinner)

private theorem blocks_of_inside {items : List (Item Element)} (h : Inside g items)
    (parent type : String) (index : Nat) :
    Follows path (Session.blocks g parent type index items)
      (Reading.blocks g path parent type index items) := by
  induction items generalizing index with
  | nil => exact pure []
  | cons item rest ih =>
    cases item with
    | text chars | literal chars =>
      simp only [Session.blocks, Reading.blocks]
      split
      · exact ih h.tail index
      · exact here _
    | element inner =>
      refine bind (here _) fun _ => ?_
      refine bind (within _ (h inner List.mem_cons_self _)) fun first => ?_
      exact bind (ih h.tail (index + 1)) fun others => pure _

private theorem mixed_of_inside {items : List (Item Element)} (h : Inside g items)
    (parent type : String) (index : Nat) :
    Follows path (Session.mixed g parent type index items)
      (Reading.mixed g path parent type index items) := by
  induction items generalizing index with
  | nil => exact pure ([], [])
  | cons item rest ih =>
    cases item with
    | text chars | literal chars => exact bind (ih h.tail index) fun found => pure _
    | element inner =>
      simp only [Session.mixed, Reading.mixed]
      refine bind (here _) fun _ => ?_
      split
      · refine bind (here _) fun found => ?_
        exact bind (ih h.tail index) fun others => pure _
      · refine bind (within _ (h inner List.mem_cons_self _)) fun first => ?_
        exact bind (ih h.tail (index + 1)) fun others => pure _

private theorem node_of_inside {items : List (Item Element)} (h : Inside g items) (name : String)
    (attributes : List (String × String)) (path : Path) :
    Follows path (Session.node g ⟨name, attributes, items⟩)
      (Reading.node g path ⟨name, attributes, items⟩) := by
  simp only [Session.node, Reading.node]
  refine bind (here _) fun _ => ?_
  cases (g.spec? name).map ElementSpec.kind with
  | none => exact here _
  | some kind =>
    cases kind with
    | executable => exact bind (call _) fun c => pure _
    | block =>
      refine bind (here _) fun type => ?_
      refine bind (nodeId _) fun ident => ?_
      cases (g.model? name).getD .none with
      | rich => exact bind (mixed_of_inside h name type 0) fun found => pure _
      | text =>
        cases Element.firstChild? ⟨name, attributes, items⟩ with
        | some child => exact here _
        | none => exact pure _
      | json | none =>
        simp only
        split
        · exact bind (blocks_of_inside h name type 0) fun children => pure _
        · exact bind (here _) fun _ => pure _
    | inline | structural | operation => exact here _

theorem node : ∀ (e : Element) (path : Path),
    Follows path (Session.node g e) (Reading.node g path e) := by
  refine Element.induct (Q := Inside g)
    (fun name attributes items h => node_of_inside h name attributes) ?nil ?text ?literal ?element
  case nil => exact fun inner hinner => absurd hinner List.not_mem_nil
  case text | literal =>
    intro chars rest h inner hinner
    exact h inner (by simpa using hinner)
  case element =>
    intro first rest hfirst h inner hinner
    rcases List.mem_cons.1 hinner with hsame | hrest
    · exact Item.element.inj hsame ▸ hfirst
    · exact h inner hrest

theorem blocks (parent type : String) (index : Nat) (items : List (Item Element)) :
    Follows path (Session.blocks g parent type index items)
      (Reading.blocks g path parent type index items) :=
  blocks_of_inside (fun inner _ => node inner) parent type index

theorem operation (e : Element) :
    Follows path (Session.operation g e) (Reading.operation g path e) := by
  unfold Session.operation Reading.operation
  refine bind (here _) fun _ => ?_
  refine bind (here _) fun type => ?_
  dsimp only
  -- By the name and not by the form of either reader, so that both take the same way.
  by_cases hname : e.name ∈ ["edit:attr", "edit:content", "edit:params", "edit:id", "insert",
    "delete", "replace", "move"]
  · simp only [List.mem_cons, List.not_mem_nil, or_false] at hname
    rcases hname with hname | hname | hname | hname | hname | hname | hname | hname <;>
      simp only [hname]
    · exact pure _
    · exact bind (here _) fun content => pure _
    · exact bind (here _) fun parameters => pure _
    · exact pure _
    · exact bind (blocks _ type 0 e.items) fun nodes => pure _
    · exact pure _
    · exact bind (blocks _ type 0 e.items) fun nodes => pure _
    · exact pure _
  · simp only [List.mem_cons, List.not_mem_nil, or_false, not_or] at hname
    simp only [hname, imp_self]
    exact here _

theorem operations (parent type : String) (index : Nat) (items : List (Item Element)) :
    Follows path (Session.operations g parent type index items)
      (Reading.operations g path parent type index items) := by
  induction items generalizing index with
  | nil => exact pure []
  | cons item rest ih =>
    cases item with
    | text chars | literal chars =>
      simp only [Session.operations, Reading.operations]
      split
      · exact ih index
      · exact here _
    | element inner =>
      refine bind (here _) fun _ => ?_
      refine bind (within _ (operation inner)) fun first => ?_
      exact bind (ih (index + 1)) fun others => pure _

section Roots

variable {root : Element} (hroot : path = ⟨root.name, []⟩)

include hroot

theorem document (ident : String) (besides : List String) :
    Follows path (Session.document g root ident besides)
      (Reading.document g root ident besides) := by
  subst hroot
  refine bind (here _) fun _ => ?_
  refine bind (here _) fun type => ?_
  exact bind (blocks root.name type 0 root.items) fun nodes => pure _

theorem diff : Follows path (Session.diff g root) (Reading.diff g root) := by
  subst hroot
  refine bind (here _) fun _ => ?_
  refine bind (here _) fun type => ?_
  exact bind (operations root.name type 0 root.items) fun operations => pure _

theorem source (ident : String) :
    Follows path (Session.source g root ident) (Reading.source g root ident) := by
  unfold Session.source Reading.source
  by_cases hname : root.name ∈ ["document", "agent", "diff"]
  · simp only [List.mem_cons, List.not_mem_nil, or_false] at hname
    rcases hname with hname | hname | hname
    · simp only [hname]
      exact bind (document hroot ident _) fun d => pure _
    · simp only [hname, Reading.agent, bind_assoc]
      exact bind (document hroot ident _) fun d => pure _
    · simp only [hname]
      exact bind (diff hroot) fun d => pure _
  · simp only [List.mem_cons, List.not_mem_nil, or_false, not_or] at hname
    subst hroot
    simp only [hname, imp_self]
    exact here _

end Roots

end Follows

namespace Reader

variable (g : Grammar)

theorem take_fst (r : Reader) (text : String) : (r.take g text).1 = Source.read g text := by
  rw [take, Session.read, Source.read, Source.readWithSupply]
  cases Element.ofText text with
  | error fault => rfl
  | ok root =>
    let ident := (root.attr? "id").getD (documentId text)
    have hsource : Follows ⟨root.name, []⟩ (source g root ident) (Reading.source g root ident) :=
      .source rfl ident
    exact (hsource (.ofSeed ident root.ids)).outcome

theorem takeAll_eq (r : Reader) (texts : List String) :
    r.takeAll g texts = texts.map (Source.read g) := by
  induction texts generalizing r with
  | nil => rfl
  | cons text rest ih =>
    show (r.take g text).1 :: (r.take g text).2.takeAll g rest = _
    rw [take_fst, ih, List.map_cons]

end Reader

end LiveDoc.Session
