import Reparse.Grammar.Script
import Reparse.Proofs.Document.KeptUp
import Reparse.Proofs.Node.Veils
import Reparse.Proofs.Workspace.Walks

/-!
# Going to the first child behind a byte

In a tree that was parsed from a whole text, a cursor that is sent to the first child behind a byte goes
there, and stays where it is if no child ends behind the byte (`Cursor.GoesPast`). There is one case in
which it stays although there is such a child: a hidden node, all of whose shown nodes end before the
byte, ends behind it with a hidden token (`Document.search_misses_child`).
-/

namespace Reparse

open DocumentCursor (Move)

variable {tree : Tree} {text : Text} {start : Node} {cursor : Cursor} {goal : Nat}

/-- In a tree that a text measures, places behind the first byte are behind the first point. -/
theorem Tree.Measured.upright (measured : tree.Measured text 0) (laid : tree.Laid) :
    tree.Upright where
  laid
  ends node lies behind := by
    rw [(Node.measured_of_resolve laid measured lies).stop_eq]
    exact Text.zero_before_place behind

namespace Cursor

/-- Sent to the first child behind a byte, the cursor goes there and answers its number, unless that
child is veiled. It stays where it is if no child ends behind the byte. -/
structure GoesPast (goal : Nat) (cursor : Cursor) : Prop where
  goes : ∀ before shown after, cursor.node.children = before ++ shown :: after →
    (∀ child ∈ before, child.node.stop.bytes ≤ goal) → goal < shown.node.stop.bytes →
      ¬cursor.node.IsVeiled goal → ∃ next : Cursor, next.here = shown ∧
        (Move.childPastByte goal).perform cursor = (.child (some before.length), next)
  stays : (∀ child ∈ cursor.node.children, child.node.stop.bytes ≤ goal) ∨
    cursor.node.IsVeiled goal → (Move.childPastByte goal).perform cursor = (.child none, cursor)

/-- There is only one first child that ends behind a byte. -/
theorem first_behind_unique {before after front back : List Child} {one other : Child}
    (split : before ++ one :: after = front ++ other :: back)
    (early : ∀ child ∈ before, child.node.stop.bytes ≤ goal) (behind : goal < one.node.stop.bytes)
    (otherEarly : ∀ child ∈ front, child.node.stop.bytes ≤ goal)
    (otherBehind : goal < other.node.stop.bytes) : before = front ∧ one = other := by
  induction before generalizing front with
  | nil =>
      cases front with
      | nil => exact ⟨rfl, (List.cons.inj split).1⟩
      | cons first front =>
          have same := (List.cons.inj split).1
          have soon := otherEarly first List.mem_cons_self
          rw [← same] at soon
          exact absurd behind (Nat.not_lt_of_le soon)
  | cons first before ih =>
      rcases List.forall_mem_cons.mp early with ⟨soon, early⟩
      cases front with
      | nil =>
          rw [(List.cons.inj split).1] at soon
          exact absurd otherBehind (Nat.not_lt_of_le soon)
      | cons next front =>
          rcases List.cons.inj split with ⟨rfl, rest⟩
          rcases ih rest early (List.forall_mem_cons.mp otherEarly).2 with ⟨rfl, same⟩
          exact ⟨rfl, same⟩

theorem Walks.goesPast (walks : cursor.Walks tree start) (upright : tree.Upright) (goal : Nat) :
    cursor.GoesPast goal := by
  have sought : Sought goal cursor.node _ 0 (cursor.childPastByte? goal) :=
    seek_sought upright cursor walks.lies 0 cursor.node.tree rfl walks.countedNode
  have misses : cursor.childPastByte? goal = none ↔ _ :=
    seek_eq_none_iff upright walks.counted walks.lies 0
  rw [shown_of_isParent walks.isParent] at sought misses
  constructor
  · intro before shown after split early behind clear
    rw [Move.perform]
    cases search : cursor.childPastByte? goal with
    | none =>
        rcases misses.mp search with all | veiled
        · have last := all shown (split ▸ List.mem_append_right _ List.mem_cons_self)
          exact absurd behind (Nat.not_lt_of_le last)
        · exact absurd veiled clear
    | some found =>
        rw [search] at sought
        cases sought with
        | @found front back next again frontEarly nextBehind =>
            rcases first_behind_unique (split.symm.trans again) early behind frontEarly nextBehind with
              ⟨rfl, same⟩
            rw [Nat.zero_add]
            exact ⟨next, same.symm, rfl⟩
  · intro none_
    rw [Move.perform, misses.mpr none_]
    rfl

end Cursor

namespace Document

/-- In the tree of a whole text, a cursor that is sent to the first child behind a byte of whatever
visible node it has come to goes there, unless the child is veiled, and stays if there is none. The
parse may have taken over subtrees from a document that was kept up with the text. -/
theorem cursor_goesPast {parser : Parser} {language : Language} {text : Text}
    {old : Option Document} {result : Parsed} (everything : parser.spans = [])
    (short : text.size < maxOffset) (byInterface : Parsing.ByInterface language.grammar)
    (keeps : language.grammar.KeepsHandles (parser.begun language text old))
    (older : ∀ document, old = some document → document.Obtained)
    (upheld : ∀ document, old = some document →
      (parser.reusableTree language old).isSome = true → document.KeptUp text)
    (run : parser.parseIn language text old = .ok result) {start : Node}
    (lies : start.LiesIn result.document.tree) (shown : start.isVisible = true)
    (moves : List Move) (goal : Nat) : ((Cursor.new start).afterMoves moves).GoesPast goal := by
  have obtained : result.document.Obtained := .parsed byInterface older run
  have measured := Parser.measured_parseIn_of_keptUp everything short keeps older upheld run
  have walks := (Cursor.walks_new obtained.counted lies shown).afterMoves moves
  exact walks.goesPast (measured.upright obtained.sound.laid) goal

/-- To `1+2` another number is added, and the text is parsed again with the older document at hand. In
the sum of the new tree a cursor is sent behind byte 2. -/
theorem cursor_goesPast_reparsed :
    let text : Text := #[49, 43, 50]
    let edit : Edit := ⟨⟨3, 0, 3⟩, ⟨3, 0, 3⟩, ⟨5, 0, 5⟩⟩
    let later : Text := edit.apply text #[43, 51]
    ∃ first second : Parsed,
      Parser.new.parseIn (Language.arithmetic 0) text none = .ok first ∧
      (first.document.edit edit).KeptUp later ∧
      Parser.new.parseIn (Language.arithmetic 0) later (some (first.document.edit edit)) =
        .ok second ∧
      (Node.root second.document.tree).LiesIn second.document.tree ∧
      (Node.root second.document.tree).isVisible = true ∧
      ((Cursor.new (Node.root second.document.tree)).afterMoves [.firstChild]).GoesPast 2 := by
  intro text edit later
  have facts : (match Parser.new.parseIn (Language.arithmetic 0) text none with
      | .ok first =>
        (Parser.new.parseIn (Language.arithmetic 0) later (some (first.document.edit edit))).isOk
      | .error _ => false) = true := by decide +kernel
  cases firstRun : Parser.new.parseIn (Language.arithmetic 0) text none with
  | error fault => simp [firstRun] at facts
  | ok first =>
      rw [firstRun] at facts
      rcases exists_ok_of_isOk facts with ⟨second, secondRun⟩
      have fits : edit.Fits text #[43, 51] := ⟨by decide, by decide, by decide⟩
      have parsed : first.document.KeptUp text :=
        .parsed rfl (by decide) Arithmetic.byInterface_grammar
          (Arithmetic.keepsHandles rfl 0 text none) nofun nofun firstRun
      have kept : (first.document.edit edit).KeptUp later := .edited parsed fits
      have lies := Node.liesIn_root second.document.tree
      refine ⟨first, second, rfl, kept, secondRun, lies, rfl, ?_⟩
      refine cursor_goesPast rfl (by decide) Arithmetic.byInterface_grammar
        (Arithmetic.keepsHandles rfl 0 later _) ?_ ?_ secondRun lies rfl [.firstChild] 2
      · rintro document ⟨⟩
        exact kept.obtained
      · rintro document ⟨⟩ _
        exact kept

end Document

/-! ## A child that is not found -/

/-- Wraps two tokens in a node, and this node and a third token in the root. -/
def listedRules : Script.Rules :=
  [("main", [.start "m", .start "h", .bump, .bump, .complete "h" 4 none, .bump,
    .complete "m" 5 none])]

/-- A language of the text `a,b`, in which the comma is hidden, as is the node around `a` and the
comma. -/
def Language.listed : Language where
  identity := 1
  vocabulary :=
    { name := "listed"
      version := newestVersion
      symbols := #["end", "a", ",", "b", "item", "root"]
      kinds := #[.auxiliary, .regular, .auxiliary, .regular, .auxiliary, .regular]
      fields := #[""]
      extras := []
      nodeTypes := [] }
  program := Script.program #[⟨some ['a'], none, none, false, [], [], 1⟩,
    ⟨some [','], none, none, false, [], [], 2⟩, ⟨some ['b'], none, none, false, [], [], 3⟩]
  grammar := Script.grammar listedRules

/-- The comma of `a,b` ends behind byte 1, and so does the hidden node around it, but not the `a` that
this node shows. A cursor that is sent behind byte 1 goes into the hidden node, finds nothing and
stays, although the `b` ends behind the byte. -/
theorem Document.search_misses_child :
    ∃ result : Parsed, Parser.new.parseIn Language.listed #[97, 44, 98] none = .ok result ∧
      result.document.Obtained ∧
      ∃ child, (Node.root result.document.tree).children[1]? = some child ∧
        1 < child.node.stop.bytes ∧
        (Move.childPastByte 1).perform (Cursor.new (Node.root result.document.tree)) =
          (.child none, Cursor.new (Node.root result.document.tree)) := by
  have facts : (match Parser.new.parseIn Language.listed #[97, 44, 98] none with
      | .ok result =>
        let root := Node.root result.document.tree
        root.children[1]?.any (fun child => decide (1 < child.node.stop.bytes)) &&
          ((Cursor.new root).childPastByte? 1).isNone
      | .error _ => false) = true := by decide +kernel
  cases run : Parser.new.parseIn Language.listed #[97, 44, 98] none with
  | error fault => simp [run] at facts
  | ok result =>
      simp only [run, Option.any_eq_true, Bool.and_eq_true, decide_eq_true_eq,
        Option.isNone_iff_eq_none] at facts
      rcases facts with ⟨⟨child, second, behind⟩, none_⟩
      refine ⟨result, rfl, .fresh (Script.byInterface_grammar listedRules) run, child, second, behind,
        ?_⟩
      rw [Move.perform, none_]
      rfl

end Reparse
