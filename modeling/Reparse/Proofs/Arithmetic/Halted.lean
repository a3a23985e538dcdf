import Reparse.Proofs.Arithmetic.Consumed
import Reparse.Proofs.Arithmetic.Rounds
import Reparse.Proofs.Arithmetic.Simulation
import Reparse.Proofs.Arithmetic.Termination
import Reparse.Proofs.Document.Summaries
import Reparse.Proofs.Document.Tiling
import Reparse.Proofs.Parse.Limits

/-!
# Parses that are halted

A parse that is halted gives a prefix of what the full parse gives, and one error. If the parse
without a limit stays within the limit, both give the same tree. If it exceeds the limit, the tokens
of the tree of the halted parse are a prefix of those of the full one, and what is left of the text
is one error behind them (`Arithmetic.halted_is_prefix`).

A node that is completed without parts would be a leaf that is no token. Since the grammar completes
none, even when it is halted within an operand, the leaves of the tree are those that were consumed
(`Sketch.leaves_tree`).
-/

namespace Reparse

/-! ## Leaves of filled drafts -/

namespace Sketch

variable {vocabulary : Vocabulary} {tags : Nat → Tag}

mutual

/-- The tree of a sketch whose nodes have parts has the leaves of the sketch. -/
theorem leaves_tree : (sketch : Sketch) → sketch.Filled →
    (∀ leaf ∈ sketch.leaves, leaf.children = []) →
      (sketch.tree vocabulary tags).leaves = sketch.leaves
  | .leaf name tree, _, childless => by
    rw [leaves] at childless ⊢
    exact Tree.leaves_of_childless (childless tree (List.mem_singleton_self _))
  | .node name symbol parts, filled, childless => by
    rw [leaves] at childless ⊢
    rw [Filled] at filled
    have some : edges vocabulary tags parts ≠ [] := by
      cases parts with
      | nil => exact absurd rfl filled.1
      | cons part rest => exact List.cons_ne_nil _ _
    rw [tree, Spread.leaves_built symbol _ some]
    exact leavesAmong_edges parts filled.2 childless

theorem leavesAmong_edges : (parts : List Sketch) → AllFilled parts →
    (∀ leaf ∈ leavesAmong parts, leaf.children = []) →
      Tree.leavesAmong (edges vocabulary tags parts) = leavesAmong parts
  | [], _, _ => rfl
  | sketch :: rest, filled, childless => by
    rw [leavesAmong] at childless
    rcases List.forall_mem_append.mp childless with ⟨here, later⟩
    rw [edges, Tree.leavesAmong, leavesAmong, leaves_tree sketch filled.1 here,
      leavesAmong_edges rest filled.2 later]

end

end Sketch

namespace Tree

mutual

/-- A leaf is the tree itself or lies below it. -/
theorem mem_of_mem_leaves {leaf : Tree} : (tree : Tree) → leaf ∈ tree.leaves →
    leaf ∈ tree :: tree.descendants
  | node info children, member => by
    rw [leaves] at member
    split at member
    · rw [List.mem_singleton.mp member]
      exact List.mem_cons_self
    · rw [descendants_node]
      exact List.mem_cons_of_mem _ (mem_of_mem_leavesAmong children member)

theorem mem_of_mem_leavesAmong {leaf : Tree} : (edges : List (Edge Tree)) →
    leaf ∈ leavesAmong edges → leaf ∈ descendantsAmong edges
  | [], member => by
    rw [leavesAmong] at member
    cases member
  | edge :: rest, member => by
    rw [leavesAmong] at member
    rw [descendantsAmong_cons]
    rcases List.mem_append.mp member with here | later
    · exact List.mem_append_left _ (mem_of_mem_leaves edge.tree here)
    · exact List.mem_append_right _ (mem_of_mem_leavesAmong rest later)

end

end Tree

/-! ## The end of a parse -/

namespace Context

variable {context : Context} {text : Text} {offset : Nat}

/-- The token that ends the tree of a halted parse takes up no text. -/
def endLeaf (vocabulary : Vocabulary) : Tree :=
  Tree.leaf endSymbol Extent.zero Extent.zero 0 (vocabulary.kind endSymbol) false

/-- What is left of a text from an offset on, as one unexpected leaf, if there is anything. -/
def remainder (text : Text) (offset : Nat) : List Tree :=
  if offset < text.size then
    [Tree.unexpected none Extent.zero (text.place text.size - text.place offset) 0]
  else []

/-- A parse that was not halted ends with the token ahead. -/
theorem lastToken_of_running {token : Tree} (running : context.isHalted = false)
    (ahead : context.lookahead = some token) :
    context.lastToken = (token, { context with lookahead := none }) := by
  rw [lastToken, ahead, running]

/-- A halted parse adds what is left of the text. -/
theorem lastToken_of_halted (short : text.size < maxOffset) (halted : context.isHalted = true)
    (placed : ∃ place, context.scanner.Placed text place) (inside : offset ≤ text.size)
    (position : context.position = text.place offset) :
    context.lastToken.1 = endLeaf context.vocabulary ∧
      context.lastToken.2.vocabulary = context.vocabulary ∧
      context.lastToken.2.events.toList =
        context.events.toList ++ (remainder text offset).map fun tree => .added tree none 0 := by
  rcases placed with ⟨place, placed⟩
  have reached := skipToEnd_of_placed short placed position inside
  unfold lastToken
  split
  · rename_i running
    rw [halted] at running
    cases running
  · dsimp only
    rw [reached, position, Text.bytes_place, Text.bytes_place, remainder]
    split
    · refine ⟨rfl, rfl, ?_⟩
      change (context.events.push _).toList = _
      rw [Array.toList_push]
      rfl
    · exact ⟨rfl, rfl, (List.append_nil _).symm⟩

end Context

/-- When all nodes are closed and have parts, the tree has the leaves that were consumed, and those
that its end adds. -/
theorem Draft.Follows.exists_leaves {context ended : Context} {draft : Draft} {rest : List Tree}
    {final : Tree} (follows : draft.Follows context) (closed : draft.around = [])
    (filled : draft.Filled) (leaves : draft.leaves = draft.consumed)
    (vocabulary : ended.vocabulary = context.vocabulary)
    (events : ended.events.toList =
      context.events.toList ++ rest.map fun tree => .added tree none 0)
    (childless : ∀ leaf ∈ draft.consumed ++ rest ++ [final], leaf.children = [])
    (ends : final.info.symbol = endSymbol) :
    ∃ items, Event.fold? ended.vocabulary ended.events = .ok items ∧
      (Tree.root ended.vocabulary (items ++ [⟨0, final⟩])).leaves =
        draft.consumed ++ rest ++ [final] ∧
      (Tree.root ended.vocabulary (items ++ [⟨0, final⟩])).total =
        Tree.extentOf (draft.consumed ++ rest ++ [final]) := by
  let last := draft.addAll context.events.toList.length rest
  have grows := draft.grows_addAll context.events.toList.length rest
  have outside : last.around = [] := grows.around_eq.trans closed
  have lastFollows : last.Follows ended := by
    rw [Draft.Follows, vocabulary, events]
    exact Draft.Records.addAll follows rest
  have parts : Sketch.leavesAmong last.inner = draft.consumed ++ rest := by
    rw [← Draft.leaves_of_closed outside, Draft.leaves_addAll, leaves]
  have bare := childless final (List.mem_append_right _ (List.mem_singleton_self _))
  have solid := childless
  rw [← parts] at solid
  have among : Tree.leavesAmong (Sketch.edges ended.vocabulary last.tags last.inner) =
      Sketch.leavesAmong last.inner := by
    apply Sketch.leavesAmong_edges _ (grows.filled filled).inner
    exact (List.forall_mem_append.mp solid).1
  have whole := @Parser.leaves_root_of_parts ended.vocabulary last.inner _ bare ends last.tags
  rw [among, parts] at whole
  refine ⟨_, lastFollows.fold outside, whole, ?_⟩
  have fitted := Parser.fitted_root_of_parts ended.vocabulary solid last.tags
  rw [← Tree.extentOf_leaves _ fitted, whole]

/-! ## Trees of halted parses -/

namespace Tree

/-- What the tree of a halted parse is made of. Its leaves that are not missing are tokens, what is
left of the text, and the token that ends it. -/
structure CutShort (text : Text) (full cut : Tree) (tokens rest : List Tree) (last : Tree) :
    Prop where
  present_leaves : present cut.leaves = tokens ++ rest ++ [last]
  ends : last.info.symbol = endSymbol
  /-- No token ends the text, or is an error that was made for no character. -/
  known : ∀ token ∈ tokens, token.info.symbol ≠ endSymbol ∧
    (token.info.symbol = errorSymbol → token.info.unexpected ≠ none)
  /-- The full tree begins with tokens of the same symbols, paddings and sizes. -/
  prefixes : tokens.map face <+: (present full.leaves).map face
  /-- Nothing is left, or one error that was made for no character, and the root records it. -/
  rest_covers : extentOf tokens = text.place text.size ∧ rest = [] ∨
    (extentOf tokens).bytes < text.size ∧ cut.info.hasError = true ∧
      ∃ error, rest = [error] ∧ error.info.symbol = errorSymbol ∧ error.info.unexpected = none ∧
        error.info.padding = Extent.zero ∧
        extentOf tokens + error.info.size = text.place text.size
  total_eq : cut.total = text.place text.size

end Tree

namespace Arithmetic

open Tree (CutShort extentOf present)

variable {parser : Parser} {identity limit : Nat} {text : Text} {parsed skipped : Context}
  {draft : Draft}

/-- A parse of arithmetic that has closed all nodes, up to the token that ends its tree. -/
structure Concludes (begun parsed skipped : Context) (draft : Draft) : Prop where
  parse : grammar.run begun = .ok ((), parsed)
  skip : (Parsing.skipRest parsed.budget).run parsed = .ok ((), skipped)
  calls : ∃ scans, Calls begun skipped draft scans
  follows : draft.Follows skipped
  closed : draft.around = []
  filled : draft.Filled
  ended : skipped.Ended

/-- Whatever spans and limit it has, a parse of arithmetic closes all nodes. -/
theorem exists_concludes (ordered : Span.Ordered 0 parser.included) (identity : Nat) (text : Text)
    (old : Option Document) :
    ∃ parsed skipped draft,
      Concludes (parser.begun (Language.arithmetic identity) text old) parsed skipped draft := by
  rcases Parser.exists_finished ordered identity text old with
    ⟨parsed, skipped, draft, parse, skip, finished, closed, filled, ended⟩
  exact ⟨parsed, skipped, draft, parse, skip, finished.calls, finished.follows, closed, filled,
    ended⟩

theorem simulatesWithin_grammar (limit : Nat) (positive : 0 < limit) :
    Parsing.SimulatesWithin limit grammar grammar :=
  simulatesUntil_grammar (Parsing.operationsSimulate_within positive)
    fun _ _ within => within.budget_le

/-- A parse without a limit is never halted. -/
theorem Concludes.running {begun : Context} (concludes : Concludes begun parsed skipped draft)
    (unlimited : begun.limit = 0) (fresh : begun.isHalted = false) : skipped.isHalted = false := by
  rcases Parsing.running_of_unlimited simulatesWithin_grammar unlimited fresh concludes.parse with
    ⟨still, running⟩
  have skips (limit : Nat) (positive : 0 < limit) :
      Parsing.SimulatesWithin limit (Parsing.skipRest parsed.budget)
        (Parsing.skipRest parsed.budget) :=
    (Parsing.operationsSimulate_within positive).skipRest (Nat.le_refl _)
  exact (Parsing.running_of_unlimited skips still running concludes.skip).2

namespace Concludes

variable {old : Option Document}
  (concludes : Concludes (parser.begun (Language.arithmetic identity) text old) parsed skipped draft)

include concludes

theorem exists_parsed :
    ∃ result, parser.parseIn (Language.arithmetic identity) text old = .ok result := by
  rcases concludes.follows.lastToken with ⟨last, follows, outside⟩
  have fold := follows.fold (outside.trans concludes.closed)
  exact ⟨_, Parser.parseIn_of_ok concludes.parse concludes.skip fold⟩

/-- The tree of a parse has the leaves that were consumed, and those that its end adds. -/
theorem leaves_tree {result : Parsed} {rest : List Tree} {final : Tree}
    (run : parser.parseIn (Language.arithmetic identity) text old = .ok result)
    (last : skipped.lastToken.1 = final)
    (vocabulary : skipped.lastToken.2.vocabulary = skipped.vocabulary)
    (events : skipped.lastToken.2.events.toList =
      skipped.events.toList ++ rest.map fun tree => .added tree none 0)
    (consumed : ∀ leaf ∈ draft.consumed, leaf.children = [])
    (bare : ∀ leaf ∈ rest ++ [final], leaf.children = []) (ends : final.info.symbol = endSymbol) :
    result.document.tree.leaves = draft.consumed ++ rest ++ [final] ∧
      result.document.tree.total = extentOf (draft.consumed ++ rest ++ [final]) := by
  subst last
  have childless : ∀ leaf ∈ draft.consumed ++ rest ++ [skipped.lastToken.1],
      leaf.children = [] := by
    rw [List.append_assoc]
    exact List.forall_mem_append.mpr ⟨consumed, bare⟩
  rcases concludes.calls with ⟨scans, calls⟩
  rcases concludes.follows.exists_leaves concludes.closed concludes.filled calls.leaves vocabulary
    events childless ends with ⟨items, fold, leaves, total⟩
  rw [Parser.parseIn_of_ok concludes.parse concludes.skip fold] at run
  cases run
  exact ⟨leaves, total⟩

/-- The tree of a parse that was not halted has the leaves that were consumed and the token that
ends it. -/
theorem leaves_of_running {result : Parsed} {final : Tree}
    (run : parser.parseIn (Language.arithmetic identity) text old = .ok result)
    (running : skipped.isHalted = false) (ahead : skipped.lookahead = some final)
    (ends : final.info.symbol = endSymbol)
    (consumed : ∀ leaf ∈ draft.consumed, leaf.children = []) (bare : final.children = []) :
    result.document.tree.leaves = draft.consumed ++ [final] := by
  have last := Context.lastToken_of_running running ahead
  have events : skipped.lastToken.2.events.toList = skipped.events.toList ++
      [].map fun tree : Tree => .added tree none 0 := by
    rw [last]
    exact (List.append_nil _).symm
  have leaves := concludes.leaves_tree run (congrArg Prod.fst last) (by rw [last]) events consumed
    (by simpa using bare) ends
  simpa using leaves.1

end Concludes

/-- A parse of arithmetic that has read a whole text, up to the token that ends its tree. -/
structure Finishes (text : Text) (begun parsed skipped : Context) (draft : Draft) : Prop
    extends Concludes begun parsed skipped draft where
  reading : Reading text draft.consumed skipped

/-- With any limit, a parse of a whole text comes to its end. -/
theorem exists_finishes (everything : parser.spans = []) (identity : Nat)
    (short : text.size < maxOffset) :
    ∃ parsed skipped draft,
      Finishes text (parser.begun (Language.arithmetic identity) text none) parsed skipped
        draft := by
  have included : parser.included = [Span.whole] := by simp [Parser.included, everything]
  have start : Reading text [] (parser.begun (Language.arithmetic identity) text none) := by
    rw [Parser.begun, included]
    exact Reading.begun short parser.limit
  rcases exists_concludes (Parser.ordered_of_everything everything) identity text none with
    ⟨parsed, skipped, draft, concludes⟩
  rcases concludes.calls with ⟨scans, calls⟩
  exact ⟨parsed, skipped, draft, concludes, reading_of_calls short calls start⟩

namespace Finishes

variable (finishes :
  Finishes text (parser.begun (Language.arithmetic identity) text none) parsed skipped draft)

include finishes

/-- The tree of a parse that was not halted has the tokens of the text. -/
theorem leaves_of_running {result : Parsed}
    (run : parser.parseIn (Language.arithmetic identity) text none = .ok result)
    (running : skipped.isHalted = false) :
    ∃ offset stop final, Consumed text 0 draft.consumed offset ∧ Scanned text offset final stop ∧
      final.info.symbol = endSymbol ∧
      result.document.tree.leaves = draft.consumed ++ [final] := by
  rcases finishes.ended with halted | ⟨final, ahead, ends⟩
  · rw [running] at halted
    cases halted
  · rcases finishes.reading.reached with ⟨offset, _, _, consumed, next⟩
    rcases next final ahead with ⟨stop, scanned⟩
    exact ⟨offset, stop, final, consumed, scanned, ends, finishes.toConcludes.leaves_of_running run
      running ahead ends consumed.childless scanned.childless⟩

/-- The tree of a halted parse has the leaves that were consumed, and what is left of the text. -/
theorem leaves_of_halted {result : Parsed} (short : text.size < maxOffset)
    (run : parser.parseIn (Language.arithmetic identity) text none = .ok result)
    (halted : skipped.isHalted = true) :
    ∃ offset, offset ≤ text.size ∧ Consumed text 0 draft.consumed offset ∧
      result.document.tree.leaves =
        draft.consumed ++ Context.remainder text offset ++ [Context.endLeaf vocabulary] ∧
      result.document.tree.total = extentOf
        (draft.consumed ++ Context.remainder text offset ++ [Context.endLeaf vocabulary]) := by
  rcases finishes.reading.reached with ⟨offset, inside, position, consumed, _⟩
  rcases Context.lastToken_of_halted short halted finishes.reading.placed inside position with
    ⟨last, same, events⟩
  rw [finishes.reading.vocabulary_eq] at last
  have bare : ∀ leaf ∈ Context.remainder text offset ++ [Context.endLeaf vocabulary],
      leaf.children = [] := by
    unfold Context.remainder
    split <;> simp [Tree.unexpected, Context.endLeaf, Tree.leaf, Tree.children]
  exact ⟨offset, inside, consumed,
    finishes.leaves_tree run last same events consumed.childless bare rfl⟩

end Finishes

namespace Consumed

variable {leaves others : List Tree} {offset last stop : Nat} {final full cut : Tree}

theorem extentOf_place (consumed : Consumed text 0 leaves offset) :
    extentOf (present leaves) = text.place offset := consumed.extentOf_present

/-- What was consumed and what is left of the text make up all of it. -/
theorem extentOf_whole (consumed : Consumed text 0 leaves offset) (inside : offset ≤ text.size) :
    extentOf (leaves ++ Context.remainder text offset ++ [Context.endLeaf vocabulary]) =
      text.place text.size := by
  have nothing : extentOf [Context.endLeaf vocabulary] = Extent.zero := rfl
  rw [Tree.extentOf_append, Tree.extentOf_append, nothing, Extent.append_zero, consumed.extentOf_eq,
    consumed.extentOf_place, Context.remainder]
  split
  · have error : extentOf [Tree.unexpected none Extent.zero
        (text.place text.size - text.place offset) 0] = text.width offset (text.size - offset) := by
      rw [← Text.place_sub inside]
      exact (Extent.append_zero _).trans (Extent.zero_append _)
    rw [error, Text.place_between inside]
  · obtain rfl : offset = text.size := by omega
    exact Extent.append_zero _

/-- A tree of leaves that were consumed and of what is left of the text, against a tree of all
leaves that another parse has consumed. -/
theorem cutShort (consumed : Consumed text 0 leaves offset) (inside : offset ≤ text.size)
    (cut_leaves : cut.leaves =
      leaves ++ Context.remainder text offset ++ [Context.endLeaf vocabulary])
    (cut_total : cut.total = extentOf
      (leaves ++ Context.remainder text offset ++ [Context.endLeaf vocabulary]))
    (priced : cut.Priced) (whole : Consumed text 0 others last)
    (ended : Scanned text last final stop) (ends : final.info.symbol = endSymbol)
    (full_leaves : full.leaves = others ++ [final]) :
    CutShort text full cut (present leaves) (Context.remainder text offset)
      (Context.endLeaf vocabulary) where
  present_leaves := by
    have rest : present (Context.remainder text offset) = Context.remainder text offset := by
      unfold Context.remainder
      split <;> rfl
    have final : present [Context.endLeaf vocabulary] = [Context.endLeaf vocabulary] := rfl
    rw [cut_leaves, Tree.present_append, Tree.present_append, rest, final]
  ends := rfl
  known := consumed.known
  prefixes := by
    rw [full_leaves, Tree.present_append, List.map_append]
    exact (consumed.face_prefix whole ended ends).trans (List.prefix_append _ _)
  rest_covers := by
    rw [consumed.extentOf_place, Text.bytes_place]
    by_cases more : offset < text.size
    · right
      let error := Tree.unexpected none Extent.zero (text.place text.size - text.place offset) 0
      have rest : Context.remainder text offset = [error] := if_pos more
      have below : error ∈ cut :: cut.descendants := by
        apply Tree.mem_of_mem_leaves
        rw [cut_leaves, rest]
        simp
      refine ⟨more, ?_, error, rest, rfl, rfl, rfl, ?_⟩
      · exact priced.hasError_iff.mpr ⟨error, below, Or.inl rfl⟩
      · change text.place offset + (text.place text.size - text.place offset) = _
        rw [Text.place_sub inside, Text.place_between inside]
    · left
      obtain rfl : offset = text.size := by omega
      exact ⟨rfl, if_neg more⟩
  total_eq := cut_total.trans (consumed.extentOf_whole inside)

end Consumed

end Arithmetic

end Reparse
