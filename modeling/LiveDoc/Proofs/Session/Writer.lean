import LiveDoc.Proofs.Forest.Traversal
import LiveDoc.Proofs.Session.Reader
import LiveDoc.Session.Writer

/-!
# What a writer does

A writer adds to its text what is printed in its layout, and has that layout again behind it. So
what it makes on request does not depend on what it has made before, as what a reader finds does not
depend on what it has read.
-/

set_option autoImplicit false
set_option relaxedAutoImplicit false

namespace LiveDoc.Session

open Edit (Operation)
open Markup (Layout closingTag)

/-- Writing that adds to the text what a function of the layout says, and leaves the layout. -/
def Writes (x : Writing) (f : Layout → String) : Prop :=
  ∀ w : Writer, x w = ((), { w with output := w.output ++ f w.layout })

namespace Writes

variable {x y : Writing} {f f' : Layout → String}

theorem congr (h : Writes x f) (hf : ∀ l, f l = f' l) : Writes x f' :=
  funext hf ▸ h

theorem nothing : Writes (pure ()) fun _ => "" := by
  intro w
  rw [String.append_empty]
  rfl

theorem put (chars : String) : Writes (Session.put chars) fun _ => chars :=
  fun _ => rfl

theorem margin : Writes putMargin Layout.margin :=
  fun _ => rfl

theorem lineEnd : Writes putLineEnd Layout.lineEnd :=
  fun _ => rfl

theorem seq (hx : Writes x f) (hy : Writes y f') :
    Writes (x >>= fun _ => y) fun l => f l ++ f' l := by
  intro w
  show y (x w).2 = _
  rw [hx w, hy, String.append_assoc]

theorem ite {c : Prop} [Decidable c] (hx : Writes x f) (hy : Writes y f') :
    Writes (if c then x else y) fun l => if c then f l else f' l := by
  split <;> assumption

theorem unlessAbsent {absent : Bool} (h : Writes x f) :
    Writes (Session.unlessAbsent absent x) fun l => if absent then "" else f l :=
  nothing.ite h

theorem deeper (h : Writes x f) : Writes (Session.deeper x) fun l => f l.deeper := by
  intro w
  have hrun : Session.deeper x w =
      let after := (x { w with layout := w.layout.deeper }).2
      ((), { after with layout.level := after.layout.level - 1 }) := rfl
  rw [hrun, h]
  rfl

theorem onOneLine (h : Writes x f) : Writes (Session.onOneLine x) fun l => f l.onOneLine := by
  intro w
  have hrun : Session.onOneLine x w =
      let after := (x { w with layout := w.layout.onOneLine }).2
      ((), { after with layout.compact := w.layout.compact }) := rfl
  rw [hrun, h]
  rfl

theorem inside {b : Block} {childless : Bool} (h : Writes x f)
    (hnone : childless = true → ∀ l, f l = "") :
    Writes (writeInside b childless x) fun l =>
      match b.model with
      | .text => b.plainText
      | .rich => Inline.printAll b.content ++ f (b.childLayout l)
      | .json | .none => l.lineEnd ++ f (b.childLayout l) ++ l.margin := by
  unfold writeInside Block.childLayout
  cases b.model with
  | text => exact put _
  | rich =>
    refine (seq (put _) (unlessAbsent (onOneLine h))).congr fun l => ?_
    cases childless with
    | true => simp [hnone rfl]
    | false => rfl
  | json | none =>
    refine (seq lineEnd (seq (deeper h) margin)).congr fun l => ?_
    rw [String.append_assoc]

theorem block {b : Block} {childless : Bool} (h : Writes x f)
    (hnone : childless = true → ∀ l, f l = "") :
    Writes (writeBlock b childless x) fun l => b.print l childless (f (b.childLayout l)) := by
  refine (seq margin (seq (put _) (ite (seq (put _) lineEnd)
    (seq (put _) (seq (inside h hnone) (seq (put _) lineEnd)))))).congr fun l => ?_
  simp only [Block.print]
  split
  · simp only [String.append_assoc]
  · cases b.model <;> simp only [String.append_assoc]

theorem line (name chars : String) :
    Writes (writeLine name chars) fun l => Call.line l name chars := by
  refine (seq margin (seq (put _) (seq (put _) (seq (put _) lineEnd)))).congr fun l => ?_
  simp only [Call.line, String.append_assoc]

theorem call (c : Call) : Writes (writeCall c) c.print := by
  refine (seq margin (seq (put _) (ite (seq (put _) lineEnd)
    (seq (put _) (seq lineEnd (seq
      (deeper (seq (unlessAbsent (line _ _)) (unlessAbsent (line _ _))))
      (seq margin (seq (put _) lineEnd)))))))).congr fun l => ?_
  simp only [Call.print]
  split <;> simp only [String.append_assoc]

theorem nodes (ns : Forest) : Writes (writeNodes ns) fun l => Forest.print l ns := by
  induction ns using Forest.induct with
  | nil => exact nothing
  | leaf head rest ih =>
    refine (seq (block nothing fun _ _ => rfl) ih).congr fun l => ?_
    rw [Forest.print, Node.print]
  | inner head children rest ihchildren ihrest =>
    have hnone (hempty : children.isEmpty = true) (l : Layout) : Forest.print l children = "" := by
      rw [List.isEmpty_iff.1 hempty, Forest.print]
    refine (seq (block ihchildren hnone) ihrest).congr fun l => ?_
    rw [Forest.print, Node.print]
  | call c rest ih =>
    refine (seq (call c) ih).congr fun l => ?_
    rw [Forest.print, Node.print]

theorem root (d : Document) (element identity : String) :
    Writes (writeRoot d element identity) fun l => d.printAs l element identity := by
  refine (seq (put _) (ite (put _) (seq (put _) (seq (deeper (nodes d.nodes)) (put _))))).congr
    fun l => ?_
  simp only [Document.printAs]
  split <;> simp only [String.append_assoc]

theorem carried (element : String) (ns : Forest) :
    Writes (writeCarried element ns) fun l => Edit.printNodes l element ns := by
  refine (ite (put _) (seq (put _) (seq (deeper (nodes ns)) (seq margin (put _))))).congr
    fun l => ?_
  simp only [Edit.printNodes, String.append_assoc]

theorem rest (o : Operation) : Writes (writeRest o) fun l => o.printRest l := by
  cases o with
  | setProp block name value => exact seq (put _) (put _)
  | setContent block content =>
    refine (seq (put _) (seq (put _) (put _))).congr fun l => ?_
    simp only [Operation.printRest, String.append_assoc]
  | setParameters block parameters =>
    refine (seq (put _) (ite (put _) (seq (put _) (seq (put _) (put _))))).congr fun l => ?_
    simp only [Operation.printRest, String.append_assoc]
  | rename block new => exact seq (put _) (put _)
  | delete block => exact seq (put _) (put _)
  | insert place ns => exact seq (put _) (carried _ ns)
  | replace block ns => exact seq (put _) (carried _ ns)
  | move targets place => exact seq (put _) (put _)

theorem operation (o : Operation) : Writes (writeOperation o) fun l => o.print l := by
  refine (seq margin (seq (put _) (seq (rest o) (put _)))).congr fun l => ?_
  simp only [Operation.print, String.append_assoc]

theorem operations (os : List Operation) :
    Writes (writeOperations os) fun l => String.join (os.map (Operation.print l)) := by
  induction os with
  | nil => exact nothing
  | cons o others ih =>
    refine (seq (operation o) ih).congr fun l => ?_
    rw [List.map_cons, String.join_cons]

theorem diff (d : Diff) : Writes (writeDiff d) d.print := by
  refine (seq (put _) (ite (put _) (seq (put _) (seq (deeper (operations d.operations))
    (put _))))).congr fun l => ?_
  simp only [Diff.print]
  split <;> simp only [String.append_assoc]

theorem request (r : Request) : Writes r.write fun l => r.print l := by
  cases r with
  | source s =>
    cases s with
    | document d => exact root d "document" ""
    | agent a => exact root a.document "agent" _
    | diff d => exact diff d
  | document d => exact root d "document" ""
  | nodes ns => exact nodes ns

end Writes

namespace Writer

theorem make_eq (w : Writer) (r : Request) :
    w.make r = (r.print w.layout, ⟨w.layout, r.print w.layout⟩) := by
  have hrun := Writes.request r { w with output := "" }
  rw [String.empty_append] at hrun
  have hmake : w.make r =
      let after := (r.write { w with output := "" }).2
      (after.output, after) := rfl
  rw [hmake, hrun]

theorem makeAll_eq (w : Writer) (requests : List Request) :
    w.makeAll requests = requests.map fun r => r.print w.layout := by
  induction requests generalizing w with
  | nil => rfl
  | cons r others ih =>
    rw [makeAll, make_eq, List.map_cons]
    show _ :: makeAll _ others = _
    rw [ih]

end Writer

/-- Readers and writers have no memory. Whatever a reader has been through, a fault half way down
too, it finds in each of some texts what a new one finds in it, and each text that a writer makes in
a row is the one that a new writer with the same indentation makes; what the new ones give is what
the text holds and what is printed. -/
theorem reuse_leaves_no_trace (g : Grammar) :
    (∀ (r : Reader) (texts : List String),
      r.takeAll g texts = texts.map fun text => (Reader.new.take g text).1) ∧
    (∀ (indent : String) (requests : List Request),
      (Writer.new indent).makeAll requests =
        requests.map fun request => ((Writer.new indent).make request).1) ∧
    (∀ text : String, (Reader.new.take g text).1 = Source.read g text) ∧
    (∀ (indent : String) (request : Request),
      ((Writer.new indent).make request).1 = request.print { indent }) := by
  have hfound (text : String) : (Reader.new.take g text).1 = Source.read g text :=
    Reader.take_fst g Reader.new text
  have hmade (indent : String) (request : Request) :
      ((Writer.new indent).make request).1 = request.print { indent } := by
    rw [Writer.make_eq, Writer.new]
  refine ⟨fun r texts => ?_, fun indent requests => ?_, hfound, hmade⟩
  · rw [Reader.takeAll_eq]
    exact List.map_congr_left fun text _ => (hfound text).symm
  · rw [Writer.makeAll_eq]
    exact List.map_congr_left fun request _ => (hmade indent request).symm

end LiveDoc.Session
