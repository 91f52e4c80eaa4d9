import LiveDoc.Proofs.Forest.Check
import LiveDoc.Proofs.Forest.Siblings
import LiveDoc.Proofs.Text.NamePattern
import Mathlib.Data.Char

/-!
# What the check of a forest finds

The places of all nodes of a forest, and what is wrong at each of them as it can be read off the
forest as a whole. The check, which goes through the nodes once and remembers ids, finds just that.
-/

set_option autoImplicit false
set_option relaxedAutoImplicit false

namespace LiveDoc

open Text (CharSet)
open Text.Pattern (Names)

/-- The characters that the name of a function or module begins with. -/
def functionFirst : CharSet := .ofRanges [('A', 'Z'), ('a', 'z'), ('_', '_')]

def functionLater : CharSet :=
  .ofRanges [('A', 'Z'), ('a', 'z'), ('0', '9'), ('_', '_'), ('-', '-')]

def moduleLater : CharSet :=
  .ofRanges [('A', 'Z'), ('a', 'z'), ('0', '9'), ('_', '_'), ('.', '.'), ('-', '-')]

/-- A text names a function, alone or behind its module and a colon. -/
def NamesFunction (s : String) : Prop :=
  Names functionFirst functionLater s.toList ∨
    ∃ module name, s.toList = module ++ ':' :: name ∧ Names functionFirst moduleLater module ∧
      Names functionFirst functionLater name

theorem isFunctionName_iff {s : String} : isFunctionName s = true ↔ NamesFunction s := by
  have hpattern : functionNames =
      some (.qualified functionFirst moduleLater (.single ':') functionLater) := by
    decide +kernel
  have hcolon (d : Char) : (CharSet.single ':').has d = true ↔ d = ':' := by
    simpa [CharSet.single, CharSet.has, ← le_antisymm_iff] using eq_comm
  rw [isFunctionName, hpattern, Option.any_some, Text.Pattern.occursIn_qualified_iff, NamesFunction]
  simp only [hcolon]
  refine or_congr_right ⟨?_, ?_⟩
  · rintro ⟨module, _, name, hs, hmodule, rfl, hname⟩
    exact ⟨module, name, hs, hmodule, hname⟩
  · rintro ⟨module, name, hs, hmodule, hname⟩
    exact ⟨module, ':', name, hs, hmodule, rfl, hname⟩

instance : DecidablePred NamesFunction := fun _ => decidable_of_iff _ isFunctionName_iff

namespace Forest

section Places

variable {ns : Forest} {path up : List Nat} {n : Node} {index : Nat}

@[simp] theorem at?_nil (path : List Nat) : at? path [] = none := by
  match path with
  | [] => rfl
  | [i] => rfl
  | i :: j :: path => rfl

theorem at?_singleton (i : Nat) (ns : Forest) : at? [i] ns = ns[i]? := rfl

theorem at?_zero_cons (i : Nat) (below : List Nat) (n : Node) (rest : Forest) :
    at? (0 :: i :: below) (n :: rest) = at? (i :: below) (n.children?.getD []) := by
  rw [at?]
  · cases h : n.children? <;> simp [h]
  · simp

theorem at?_succ_cons (i : Nat) (below : List Nat) (n : Node) (rest : Forest) :
    at? ((i + 1) :: below) (n :: rest) = at? (i :: below) rest := by
  cases below with
  | nil => rfl
  | cons j below => rfl

theorem mem_placedFrom_iff :
    (path, n) ∈ placedFrom up index ns ↔
      ∃ i below, path = up ++ (index + i) :: below ∧ at? (i :: below) ns = some n := by
  induction ns using induct_cons generalizing up index with
  | nil => simp [placedFrom]
  | cons m rest ihc ih =>
    rw [placedFrom_cons, List.cons_append, List.mem_cons, List.mem_append, ihc, ih]
    constructor
    · rintro (h | ⟨i, below, rfl, hn⟩ | ⟨i, below, rfl, hn⟩)
      · obtain ⟨rfl, rfl⟩ := Prod.mk.inj h
        exact ⟨0, [], rfl, rfl⟩
      · exact ⟨0, i :: below, by simp, by rwa [at?_zero_cons]⟩
      · exact ⟨i + 1, below, by rw [Nat.add_right_comm, Nat.add_assoc], by rwa [at?_succ_cons]⟩
    · rintro ⟨i, below, rfl, hn⟩
      cases i with
      | zero =>
        cases below with
        | nil => exact .inl (by simpa [at?_singleton] using hn.symm)
        | cons i below => exact .inr (.inl ⟨i, below, by simp, by rwa [at?_zero_cons] at hn⟩)
      | succ i =>
        refine .inr (.inr ⟨i, below, ?_, by rwa [at?_succ_cons] at hn⟩)
        rw [Nat.add_right_comm, Nat.add_assoc]

theorem mem_placed_iff : (path, n) ∈ ns.placed ↔ ns.at? path = some n := by
  rw [placed, mem_placedFrom_iff]
  constructor
  · rintro ⟨i, below, rfl, hn⟩
    simpa using hn
  · intro hn
    cases path with
    | nil => simp [at?] at hn
    | cons i below => exact ⟨i, below, by simp, hn⟩

theorem pairwise_placedFrom (up : List Nat) (index : Nat) (ns : Forest) :
    (placedFrom up index ns).Pairwise fun p q => p.1 < q.1 := by
  induction ns using induct_cons generalizing up index with
  | nil => exact .nil
  | cons n rest ihc ih =>
    have hlater (below path : List Nat) (i : Nat) :
        up ++ index :: below < up ++ (index + 1 + i) :: path :=
      List.append_left_lt (List.cons_lt_cons_iff.2 (.inl (by omega)))
    rw [placedFrom_cons, List.cons_append, List.pairwise_cons, List.pairwise_append]
    refine ⟨fun p hp => ?_, ihc _ _, ih _ _, fun p hp q hq => ?_⟩
    · rcases List.mem_append.1 hp with hp | hp
      · obtain ⟨i, below, hpath, -⟩ := mem_placedFrom_iff.1 hp
        rw [hpath, List.append_assoc]
        exact List.append_left_lt (List.cons_lt_cons_iff.2 (.inr ⟨rfl, List.nil_lt_cons _ _⟩))
      · obtain ⟨i, below, hpath, -⟩ := mem_placedFrom_iff.1 hp
        rw [hpath]
        exact hlater [] below i
    · obtain ⟨i, below, hp, -⟩ := mem_placedFrom_iff.1 hp
      obtain ⟨j, path, hq, -⟩ := mem_placedFrom_iff.1 hq
      rw [hp, hq, List.append_assoc]
      exact hlater _ path j

end Places

def firstPlace? (ident : String) (ns : Forest) : Option (List Nat) :=
  (ns.placed.find? (·.2.id = ident)).map Prod.fst

/-- What is wrong with the id of a node at a place: it is blank, or a node before has it. -/
def idFinding? (ns : Forest) (path : List Nat) (n : Node) : Option Finding :=
  if Text.isAllBlank n.id then some ⟨.emptyId, placeText path, "Node id must not be empty"⟩
  else do
    let first ← ns.firstPlace? n.id
    if first < path then
      some ⟨.duplicateId, placeText path,
        "Duplicate node id '" ++ n.id ++ "' (first used at " ++ placeText first ++ ")"⟩
    else none

/-- What is wrong with the function that a node at a place calls. -/
def functionFinding? (path : List Nat) (n : Node) : Option Finding := do
  let c ← n.call?
  if NamesFunction c.function then none
  else
    some ⟨.invalidFunctionName, placeText path,
      "Invalid function name '" ++ c.function ++ "': expected (module:)?name"⟩

/-- Everything wrong with a node at a place, its id first. -/
def findingsAt (ns : Forest) (path : List Nat) (n : Node) : List Finding :=
  (ns.idFinding? path n).toList ++ (functionFinding? path n).toList

section Findings

variable {ns : Forest} {before after : List (List Nat × Node)} {path : List Nat} {n : Node}

theorem checkFunction_eq (path : List Nat) (n : Node) :
    checkFunction path n = (functionFinding? path n).toList := by
  cases n with
  | block head children => rfl
  | call c =>
    by_cases hname : NamesFunction c.function
    · simp [checkFunction, functionFinding?, Node.call?, hname, isFunctionName_iff.2 hname]
    · simp [checkFunction, functionFinding?, Node.call?, hname, isFunctionName_iff]

theorem checkId_eq (h : ns.placed = before ++ (path, n) :: after) :
    checkId (before.map fun p => (p.2.id, p.1)) path n.id = (ns.idFinding? path n).toList := by
  have hsorted : (before ++ (path, n) :: after).Pairwise fun p q => p.1 < q.1 :=
    h ▸ pairwise_placedFrom [] 0 ns
  have hfirst : ns.firstPlace? n.id =
      ((before.find? (·.2.id = n.id)).map Prod.fst).or (some path) := by
    rw [firstPlace?, h, List.find?_append, List.find?_cons_of_pos (by simp), Option.map_or]
    rfl
  have hseen : (before.map fun p => (p.2.id, p.1)).find? (·.1 = n.id) =
      (before.find? (·.2.id = n.id)).map fun p => (p.2.id, p.1) := by
    rw [List.find?_map]
    rfl
  unfold checkId idFinding?
  split
  · rfl
  rw [hseen, hfirst]
  cases hfound : before.find? (·.2.id = n.id) with
  | none => simp
  | some p =>
    have hlt : p.1 < path := (List.pairwise_append.1 hsorted).2.2 p
      (List.mem_of_find?_eq_some hfound) (path, n) List.mem_cons_self
    simp [hlt]

theorem checkFrom_eq (h : ns.placed = before ++ after) :
    checkFrom (before.map fun p => (p.2.id, p.1)) after =
      after.flatMap fun p => ns.findingsAt p.1 p.2 := by
  induction after generalizing before with
  | nil => rfl
  | cons p rest ih =>
    have hplaced : ns.placed = (before ++ [p]) ++ rest := by simpa using h
    have hrest := ih hplaced
    rw [List.map_append, List.map_singleton] at hrest
    rw [checkFrom, checkId_eq h, checkFunction_eq, hrest, List.flatMap_cons, findingsAt]

theorem place_of_mem_findingsAt {f : Finding} (h : f ∈ ns.findingsAt path n) :
    f.place = placeText path := by
  rw [findingsAt, List.mem_append, Option.mem_toList, Option.mem_toList] at h
  rcases h with h | h
  · unfold idFinding? at h
    split at h
    · obtain rfl := Option.some_inj.1 h
      rfl
    · obtain ⟨first, -, h⟩ := Option.bind_eq_some_iff.1 h
      split at h
      · obtain rfl := Option.some_inj.1 h
        rfl
      · simp at h
  · obtain ⟨c, -, h⟩ := Option.bind_eq_some_iff.1 h
    split at h
    · simp at h
    · obtain rfl := Option.some_inj.1 h
      rfl

end Findings

private theorem numbered_inj {front s t : String} {i j : Nat}
    (h : front ++ toString i ++ "]" ++ s = front ++ toString j ++ "]" ++ t) : i = j ∧ s = t := by
  have htake (k : Nat) (s : String) :
      ((Nat.toDigits 10 k) ++ ']' :: s.toList).takeWhile Char.isDigit = Nat.toDigits 10 k := by
    have hdigits (c : Char) (hc : c ∈ Nat.toDigits 10 k) : c.isDigit = true :=
      Nat.isDigit_of_mem_toDigits (by omega) (by omega) hc
    rw [List.takeWhile_append_of_pos hdigits, List.takeWhile_cons_of_neg (by decide),
      List.append_nil]
  have hchars : Nat.toDigits 10 i ++ ']' :: s.toList = Nat.toDigits 10 j ++ ']' :: t.toList := by
    have hlist := congrArg String.toList h
    simpa [Nat.toString_eq_ofList_toDigits] using hlist
  have hdigits : Nat.toDigits 10 i = Nat.toDigits 10 j := by rw [← htake i s, hchars, htake]
  rw [hdigits, List.append_cancel_left_eq] at hchars
  refine ⟨?_, String.toList_inj.1 (List.cons.inj hchars).2⟩
  rw [← Nat.ofDigitChars_ten_toDigits (n := i), hdigits, Nat.ofDigitChars_ten_toDigits]

theorem placeText_injective : Function.Injective placeText := by
  let below (path : List Nat) : String :=
    String.join (path.map fun index => ".children[" ++ toString index ++ "]")
  have hcons (i : Nat) (path : List Nat) :
      below (i :: path) = ".children[" ++ toString i ++ "]" ++ below path := by
    simp [below, String.join_cons]
  have hbelow : Function.Injective below := by
    intro path
    induction path with
    | nil =>
      intro other h
      cases other with
      | nil => rfl
      | cons j other =>
        have hchars := congrArg String.toList h
        simp [below] at hchars
    | cons i path ih =>
      intro other h
      cases other with
      | nil =>
        have hchars := congrArg String.toList h
        simp [below] at hchars
      | cons j other =>
        rw [hcons, hcons] at h
        obtain ⟨rfl, hrest⟩ := numbered_inj h
        rw [ih hrest]
  intro path other h
  match path, other with
  | [], [] => rfl
  | [], j :: other | j :: other, [] =>
    have hchars := congrArg String.toList h
    simp [placeText] at hchars
  | i :: path, j :: other =>
    obtain ⟨rfl, hrest⟩ := numbered_inj h
    rw [hbelow hrest]

/-- Checking a forest finds, at each node in document order, that its id is blank or stands at an
earlier place first, and then that it calls something that is no name of a function; and nothing
else. The places that are told lead to the nodes. -/
theorem check_exact (ns : Forest) :
    (ns.check = ns.placed.flatMap fun p => ns.findingsAt p.1 p.2) ∧
      ns.placed.map Prod.snd = preorder ns ∧
      (∀ path n, (path, n) ∈ ns.placed ↔ ns.at? path = some n) ∧
      (ns.placed.Pairwise fun p q => p.1 < q.1) ∧
      (∀ f ∈ ns.check, ∃ path n, ns.at? path = some n ∧ f ∈ ns.findingsAt path n ∧
        ∀ other, placeText other = f.place ↔ other = path) ∧
      (ns.check = [] ↔ (∀ ident ∈ ids ns, Text.isAllBlank ident = false) ∧ (ids ns).Nodup ∧
        ∀ c ∈ calls ns, NamesFunction c.function) := by
  have hcheck : ns.check = ns.placed.flatMap fun p => ns.findingsAt p.1 p.2 :=
    checkFrom_eq (List.nil_append ns.placed).symm
  refine ⟨hcheck, map_snd_placedFrom [] 0 ns, fun _ _ => mem_placed_iff,
    pairwise_placedFrom [] 0 ns, fun f hf => ?_, ?_⟩
  · rw [hcheck, List.mem_flatMap] at hf
    obtain ⟨⟨path, n⟩, hplaced, hf⟩ := hf
    have hplace : f.place = placeText path := place_of_mem_findingsAt hf
    refine ⟨path, n, mem_placed_iff.1 hplaced, hf, fun other => ?_⟩
    rw [hplace, placeText_injective.eq_iff]
  · rw [check_eq_nil_iff, functionsNamed_iff_calls]
    simp only [isFunctionName_iff]
    exact ⟨fun ⟨⟨hblank, hnodup⟩, hnamed⟩ => ⟨hblank, hnodup, hnamed⟩,
      fun ⟨hblank, hnodup, hnamed⟩ => ⟨⟨hblank, hnodup⟩, hnamed⟩⟩

-- A blank id is not a repeated one, and a node may have two faults.
example :
    (check [.paragraph " " "x", .block ⟨"l", "bullet_list", [], []⟩
        (some [.call (Node.invoke "l" .invocation "a b"), .paragraph " " "y"])]).map
      (fun f => (f.kind, f.place)) =
      [(.emptyId, "nodes[0]"), (.duplicateId, "nodes[1].children[0]"),
        (.invalidFunctionName, "nodes[1].children[0]"), (.emptyId, "nodes[1].children[1]")] := by
  decide +kernel

end Forest

end LiveDoc
