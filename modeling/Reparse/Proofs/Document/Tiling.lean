import Reparse.Grammar.Arithmetic
import Reparse.Parser
import Reparse.Proofs.Parse.Spread
import Reparse.Proofs.Tree.Leaves

/-!
# A parse loses no text

The leaves of a parsed tree lie end to end over the whole text, whatever the grammar does and
whenever the parse is halted, and every token that was scanned stands in the tree where the scanner
said that it starts and ends (`Parser.tile_parseIn`).
-/

namespace Reparse

/-! ## The trees of a draft -/

namespace Spread

variable {text : Text} {first last : Nat} {leaves : List Tree} {scans : List Scan}
  {vocabulary : Vocabulary} {tags : Nat → Tag}

theorem childless (spread : Spread text first leaves scans last) :
    ∀ leaf ∈ leaves, leaf.children = [] := by
  induction spread with
  | nil => exact List.forall_mem_nil _
  | scanned takes _ ih => exact List.forall_mem_cons.mpr ⟨takes.childless, ih⟩
  | unscanned childless _ _ _ ih => exact List.forall_mem_cons.mpr ⟨childless, ih⟩

/-- A node without children takes up no text. -/
theorem built_nil (symbol state : Nat) :
    Spread text first (Event.built vocabulary symbol state []).leaves [] first := by
  unfold Event.built
  split
  · exact Spread.empty rfl rfl rfl rfl
  · exact Spread.empty rfl rfl rfl rfl

theorem leaves_built (symbol state : Nat) {edges : List (Edge Tree)} (some : edges ≠ []) :
    (Event.built vocabulary symbol state edges).leaves = Tree.leavesAmong edges := by
  unfold Event.built
  split
  · exact Tree.leaves_error some
  · exact Tree.leaves_branch _ _ _ some

mutual

/-- The tree of a sketch takes up the text that the leaves of the sketch take up. -/
theorem tree : (sketch : Sketch) → ∀ {first last : Nat} {scans : List Scan},
    Spread text first sketch.leaves scans last →
      Spread text first (sketch.tree vocabulary tags).leaves scans last
  | .leaf name tree, first, last, scans, spread => by
    rw [Sketch.leaves] at spread
    rw [Sketch.tree, Tree.leaves_of_childless (spread.childless tree (List.mem_singleton_self _))]
    exact spread
  | .node name symbol parts, first, last, scans, spread => by
    rw [Sketch.leaves] at spread
    rw [Sketch.tree]
    cases parts with
    | nil =>
        rw [Sketch.leavesAmong] at spread
        cases spread
        exact built_nil symbol _
    | cons part rest =>
        rw [leaves_built symbol _ (by rw [Sketch.edges]; exact List.cons_ne_nil _ _)]
        exact edges (part :: rest) spread

theorem edges : (parts : List Sketch) → ∀ {first last : Nat} {scans : List Scan},
    Spread text first (Sketch.leavesAmong parts) scans last →
      Spread text first (Tree.leavesAmong (Sketch.edges vocabulary tags parts)) scans last
  | [], first, last, scans, spread => spread
  | sketch :: rest, first, last, scans, spread => by
    rw [Sketch.leavesAmong] at spread
    rcases spread.of_append with ⟨middle, before, behind, rfl, here, later⟩
    rw [Sketch.edges, Tree.leavesAmong]
    exact (tree sketch here).append (edges rest later)

end

mutual

theorem fitted_tree : (sketch : Sketch) → (∀ leaf ∈ sketch.leaves, leaf.children = []) →
    (sketch.tree vocabulary tags).Fitted
  | .leaf name tree, childless => by
    rw [Sketch.leaves] at childless
    rcases tree with ⟨info, children⟩
    obtain rfl : children = [] := childless _ (List.mem_singleton_self _)
    exact Tree.fitted_of_childless info
  | .node name symbol parts, childless => by
    rw [Sketch.leaves] at childless
    have among := fitted_edges parts childless
    rw [Sketch.tree, Event.built]
    split
    · exact Tree.isFamily_fitted.error among
    · exact Tree.isFamily_fitted.branch among

theorem fitted_edges : (parts : List Sketch) →
    (∀ leaf ∈ Sketch.leavesAmong parts, leaf.children = []) →
      Tree.Among Tree.Fitted (Sketch.edges vocabulary tags parts)
  | [], _ => Tree.among_nil
  | sketch :: rest, childless => by
    rw [Sketch.leavesAmong] at childless
    rcases List.forall_mem_append.mp childless with ⟨here, later⟩
    exact Tree.among_cons.mpr ⟨fitted_tree sketch here, fitted_edges rest later⟩

end

/-- The leaves have the extent of the text that they take up. -/
theorem extentOf_eq (spread : Spread text first leaves scans last) :
    Tree.extentOf leaves = text.width first (last - first) ∧ first ≤ last := by
  induction spread with
  | nil => exact ⟨by rw [Nat.sub_self]; rfl, Nat.le_refl _⟩
  | scanned takes _ ih =>
      rcases takes.covers with ⟨_, covers, _⟩
      rw [Tree.extentOf, covers.total_eq, ih.1, Text.width_between covers.le ih.2]
      exact ⟨rfl, Nat.le_trans covers.le ih.2⟩
  | unscanned _ _ covers _ ih =>
      rw [Tree.extentOf, covers.total_eq, ih.1, Text.width_between covers.le ih.2]
      exact ⟨rfl, Nat.le_trans covers.le ih.2⟩

end Spread

/-! ## The nodes of a tree -/

namespace Node

/-- Nodes that lie end to end from one offset to another, each with its padding in front. -/
def Tile (first : Nat) : List Node → Nat → Prop
  | [], last => first = last
  | node :: rest, last =>
    node.start.bytes = first + node.info.padding.bytes ∧ Tile node.stop.bytes rest last

/-- Whether a leaf was scanned. The scan of a token depends on text behind it. A missing token, a
node without children, and what a halted parse adds depend on none. -/
def wasScanned (leaf : Node) : Bool := decide (0 < leaf.info.lookahead)

theorem tile_cons {text : Text} {first place middle last : Nat} {leaf : Tree} {node : Node}
    {nodes : List Node} (covers : leaf.Covers text first place middle) (same : node.tree = leaf)
    (span : node.span = ⟨text.place place, text.place middle⟩) (rest : Tile middle nodes last) :
    Tile first (node :: nodes) last := by
  have start : node.start = text.place place := congrArg Span.start span
  have stop : node.stop = text.place middle := congrArg Span.stop span
  have padding : node.info.padding = text.width first (place - first) := by
    rw [Node.info, same]
    exact covers.padding_eq
  refine ⟨?_, ?_⟩
  · rw [start, padding, Text.bytes_place, Text.bytes_width, Nat.add_sub_cancel' covers.begun]
  · rw [stop, Text.bytes_place]
    exact rest

/-- Where a leaf that takes up a text is laid out. -/
theorem laidOut_cons {text : Text} {first place middle : Nat} {leaf : Tree}
    (covers : leaf.Covers text first place middle) (rest : List Tree) :
    Tree.laidOut (text.place first) (leaf :: rest) =
      (leaf, ⟨text.place place, text.place middle⟩) :: Tree.laidOut (text.place middle) rest := by
  rw [Tree.laidOut, covers.place_add, covers.padding_eq, Text.place_between covers.begun]

/-- Leaves that take up a text lie end to end, and those that were scanned lie where the scanner
said. -/
theorem tile_of_spread {text : Text} {first last : Nat} {leaves : List Tree} {scans : List Scan}
    {nodes : List Node} (spread : Spread text first leaves scans last)
    (spans : nodes.map (fun node => (node.tree, node.span)) =
      Tree.laidOut (text.place first) leaves) :
    Tile first nodes last ∧
      (nodes.filter wasScanned).map (fun node => (node.tree, node.span)) =
        scans.map fun scan => (scan.token, scan.span) := by
  induction spread generalizing nodes with
  | nil =>
      obtain rfl : nodes = [] := List.map_eq_nil_iff.mp spans
      exact ⟨rfl, rfl⟩
  | scanned takes _ ih =>
      rcases takes.covers with ⟨place, covers, said⟩
      rw [laidOut_cons covers] at spans
      rcases List.map_eq_cons_iff.mp spans with ⟨node, rest, rfl, here, later⟩
      rw [Prod.mk.injEq] at here
      rcases ih later with ⟨tile, kept⟩
      have seen : wasScanned node = true := by
        rw [wasScanned, Node.info, here.1]
        exact decide_eq_true takes.looks
      refine ⟨tile_cons covers here.1 here.2 tile, ?_⟩
      rw [List.filter_cons_of_pos seen, List.map_cons, List.map_cons, kept, here.1, here.2, said]
  | unscanned _ blind covers _ ih =>
      rw [laidOut_cons covers] at spans
      rcases List.map_eq_cons_iff.mp spans with ⟨node, rest, rfl, here, later⟩
      rw [Prod.mk.injEq] at here
      rcases ih later with ⟨tile, kept⟩
      have unseen : ¬wasScanned node = true := by
        rw [wasScanned, Node.info, here.1, blind]
        decide
      refine ⟨tile_cons covers here.1 here.2 tile, ?_⟩
      rw [List.filter_cons_of_neg unseen, kept]

end Node

/-! ## The end of a parse -/

namespace Context

variable {context : Context} {text : Text} {draft : Draft} {scans : List Scan}

/-- The token that ends the tree takes up what is left of the text. A halted parse takes in the rest
of the text first, and drops a token that it scanned and did not consume. -/
theorem Lays.lastToken (short : text.size < maxOffset)
    (lays : context.Lays text draft.consumed scans) (follows : draft.Follows context)
    (leaves : draft.leaves = draft.consumed) (ended : context.ahead = endSymbol) :
    ∃ (last : Draft) (kept dropped : List Scan),
      last.Follows context.lastToken.2 ∧ last.leaves = last.consumed ∧
      last.around = draft.around ∧
      Spread text 0 (last.consumed ++ [context.lastToken.1]) kept text.size ∧
      context.lastToken.1.info.symbol = endSymbol ∧
      scans = kept ++ dropped ∧ dropped.length ≤ 1 ∧
      (context.isHalted = false → dropped = []) := by
  rcases lays.reached with ⟨offset, kept, waiting, inside, position, spread, split, awaits⟩
  unfold Context.lastToken
  split
  · rename_i token ahead running
    rcases (awaits_some running ahead).mp awaits with ⟨span, stop, rfl, takes⟩
    have symbol : token.info.symbol = endSymbol := by
      simpa [Context.ahead, running, ahead] using ended
    have whole := spread.append (Spread.single takes)
    rw [takes.final symbol] at whole
    exact ⟨draft, scans, [], follows, leaves, rfl, split ▸ whole, symbol,
      (List.append_nil _).symm, Nat.zero_le _, fun _ => rfl⟩
  · rename_i idle
    have none_dropped : context.isHalted = false → waiting = [] := by
      intro running
      cases ahead : context.lookahead with
      | none => exact (awaits_none running ahead).mp awaits
      | some token => exact (idle token ahead running).elim
    rcases lays.placed with ⟨here, placed⟩
    have reached := skipToEnd_of_placed short placed position inside
    have final : Spread text text.size [Tree.leaf endSymbol Extent.zero Extent.zero 0
        (context.vocabulary.kind endSymbol) false] [] text.size :=
      Spread.empty rfl rfl rfl rfl
    dsimp only
    rw [reached, position, Text.bytes_place, Text.bytes_place]
    split
    · let rest := Tree.unexpected none Extent.zero (text.place text.size - text.place offset) 0
      have covers : rest.Covers text offset offset text.size := by
        refine ⟨Nat.le_refl _, inside, ?_, Text.place_sub inside⟩
        rw [Nat.sub_self]
        rfl
      have whole := spread.append ((Spread.bare rfl rfl covers).append final)
      rw [List.append_nil, List.append_nil, ← List.append_assoc] at whole
      have added := Draft.Records.add follows rest
      rw [Array.length_toList, ← Array.toList_push] at added
      refine ⟨draft.add context.events.size rest, kept, waiting, added, ?_, rfl, whole, rfl, split,
        awaits.length_le, none_dropped⟩
      rw [Draft.leaves_add, Draft.consumed_add, leaves]
    · rename_i nothing
      obtain rfl : offset = text.size := by omega
      have whole := spread.append final
      rw [List.append_nil] at whole
      exact ⟨draft, kept, waiting, follows, leaves, rfl, whole, rfl, split, awaits.length_le,
        none_dropped⟩

/-- A parse of a whole text that has not begun has consumed nothing. -/
theorem lays_new {vocabulary : Vocabulary} {program : ScanProgram} {limit : Nat}
    (short : text.size < maxOffset) (spares : program.SparesEnd) :
    ((Context.new vocabulary program text [Span.whole] none limit).report .began).Lays text []
      [] where
  older_eq := rfl
  spares := spares
  placed := placed_new short
  reached := by
    let fresh := (Context.new vocabulary program text [Span.whole] none limit).report .began
    have running : fresh.isHalted = false := rfl
    exact ⟨0, [], [], Nat.zero_le _, rfl, .nil, rfl, (awaits_none running rfl).mpr rfl⟩

end Context

namespace Arithmetic

theorem names_loopBlock (belongs : Char → Bool → Bool) (label : Nat) {symbol : Nat}
    (real : symbol ≠ endSymbol) : (loopBlock belongs label symbol).Names False := by
  intro char atEnd
  exact .ite trivial fun _ => real

theorem names_single {symbol : Nat} (real : symbol ≠ endSymbol) : (single symbol).Names False :=
  fun _ => real

theorem names_tokenBlock (char : Char) : (tokenBlock char).Names False := by
  refine .ite (names_single (by decide)) (.ite (names_single (by decide))
    (.ite (names_single (by decide)) (.ite trivial (.ite trivial (.ite ?_ (Block.names_fail _))))))
  intro next atEnd
  exact .ite trivial (Block.names_fail _)

/-- The arithmetic language never takes a token for the end. -/
theorem sparesEnd_program : program.SparesEnd := by
  refine ScanProgram.sparesEnd_of_names fun label => ?_
  match label with
  | 0 =>
      intro char atEnd
      exact .ite (Block.names_fail _) (.ite trivial (names_tokenBlock char))
  | 1 => exact names_loopBlock _ _ (by decide)
  | 2 => exact names_loopBlock _ _ (by decide)
  | _ + 3 => exact names_loopBlock _ _ (by decide)

end Arithmetic

namespace Parser

section Root

variable (vocabulary : Vocabulary) {parts : List Sketch} {last : Tree}

/-- The root has the leaves of its parts and the token that ends it. -/
theorem leaves_root_of_parts (bare : last.children = []) (ended : last.info.symbol = endSymbol)
    (tags : Nat → Tag) :
    (Tree.root vocabulary (Sketch.edges vocabulary tags parts ++ [⟨0, last⟩])).leaves =
      Tree.leavesAmong (Sketch.edges vocabulary tags parts) ++ [last] := by
  have final : Tree.leavesAmong [⟨0, last⟩] = [last] := by
    rw [Tree.leavesAmong, Tree.leaves_of_childless bare]
    rfl
  rw [Tree.leaves_root, Tree.leavesAmong_append, final]
  refine ⟨⟨0, last⟩, ?_, ?_⟩
  · exact List.mem_append_right _ (List.mem_singleton_self _)
  · simp [Tree.isPrincipal, Info.isEnd, ended]

theorem fitted_root_of_parts
    (childless : ∀ leaf ∈ Sketch.leavesAmong parts ++ [last], leaf.children = [])
    (tags : Nat → Tag) :
    (Tree.root vocabulary (Sketch.edges vocabulary tags parts ++ [⟨0, last⟩])).Fitted := by
  rcases List.forall_mem_append.mp childless with ⟨inner, final⟩
  have bare := final last (List.mem_singleton_self _)
  refine Tree.isFamily_fitted.root vocabulary (Tree.among_append.mpr
    ⟨Spread.fitted_edges parts inner, Tree.among_cons.mpr ⟨?_, Tree.among_nil⟩⟩)
  rcases last with ⟨info, children⟩
  obtain rfl : children = [] := bare
  exact Tree.fitted_of_childless info

/-- The nodes of the root made of parts that take up the text, and of the token that ends it. -/
theorem tile_root {text : Text} {kept : List Scan}
    (spread : Spread text 0 (Sketch.leavesAmong parts ++ [last]) kept text.size)
    (ended : last.info.symbol = endSymbol) (tags : Nat → Tag) :
    let tree := Tree.root vocabulary (Sketch.edges vocabulary tags parts ++ [⟨0, last⟩])
    Node.Tile 0 (Node.root tree).leaves text.size ∧
      ((Node.root tree).leaves.filter Node.wasScanned).map (fun leaf => (leaf.tree, leaf.span)) =
        kept.map (fun scan => (scan.token, scan.span)) ∧
      tree.total = text.place text.size := by
  intro tree
  have bare := spread.childless last (List.mem_append_right _ (List.mem_singleton_self _))
  have fitted : tree.Fitted := fitted_root_of_parts vocabulary spread.childless tags
  have whole : Spread text 0 tree.leaves kept text.size := by
    rcases spread.of_append with ⟨middle, before, behind, rfl, first, final⟩
    rw [leaves_root_of_parts vocabulary bare ended]
    exact (Spread.edges parts first).append final
  have spans := Node.spans_leaves fitted
  rcases Node.tile_of_spread whole spans with ⟨tile, scanned⟩
  refine ⟨tile, scanned, ?_⟩
  rw [← Tree.extentOf_leaves tree fitted, whole.extentOf_eq.1, Nat.sub_zero]
  rfl

end Root

/-- A parse that ends loses no text and has none twice, whatever calls the grammar made in order: the
leaves of its tree lie end to end over the whole text. Those that were scanned are the tokens that
were scanned in the run, each over what the scanner said, but for one that is dropped when the parse
is halted. -/
theorem tile_parseIn (parser : Parser) (language : Language) {text : Text} {parsed : Context}
    {draft : Draft} {scans : List Scan} (everything : parser.spans = [])
    (short : text.size < maxOffset) (spares : language.program.SparesEnd)
    (run : language.grammar.run (parser.begun language text none) = .ok ((), parsed))
    (calls : Calls (parser.begun language text none) parsed draft scans) (closed : draft.around = [])
    (ends : parser.parseIn language text none ≠ .error .endless) :
    ∃ result skipped last all kept dropped,
      parser.parseIn language text none = .ok result ∧
      (Parsing.skipRest parsed.budget).run parsed = .ok ((), skipped) ∧
      Calls (parser.begun language text none) skipped last all ∧
      all = kept ++ dropped ∧ dropped.length ≤ 1 ∧ (skipped.isHalted = false → dropped = []) ∧
      Node.Tile 0 result.document.root.leaves text.size ∧
      (result.document.root.leaves.filter Node.wasScanned).map
          (fun leaf => (leaf.tree, leaf.span)) =
        kept.map (fun scan => (scan.token, scan.span)) ∧
      result.document.tree.total = text.place text.size := by
  have included : parser.included = [Span.whole] := by simp [Parser.included, everything]
  have start : (parser.begun language text none).Lays text [] [] := by
    rw [begun, included]
    exact Context.lays_new short spares
  rcases calls.skipRest rfl parsed.budget with
    endless | ⟨skipped, last, all, skip, further, around, ended⟩
  · exact absurd (parseIn_endless run endless) ends
  · rcases (further.lays short start).lastToken short (further.follows rfl) further.leaves ended
      with ⟨final, kept, dropped, follows, leaves, same, spread, symbol, split, few, none⟩
    have outside : final.around = [] := by rw [same, around, closed]
    have whole := parseIn_of_ok run skip (follows.fold outside)
    rw [← leaves, Draft.leaves_of_closed outside] at spread
    rcases tile_root skipped.lastToken.2.vocabulary spread symbol final.tags with
      ⟨tile, kept_eq, total⟩
    exact ⟨_, skipped, last, all, kept, dropped, whole, skip, further, split, few, none, tile,
      kept_eq, total⟩

/-- A language whose grammar makes a sum of the first token. -/
def firstToken : Language where
  identity := 0
  vocabulary := Arithmetic.vocabulary
  program := Arithmetic.program
  grammar := do
    let node ← Parsing.start
    Parsing.bump
    discard <| Parsing.complete node Arithmetic.sum

/-- Behind a byte order mark and a blank stand a malformed byte, which becomes the sum, and two more
tokens, at the first of which the parse is halted. -/
theorem tile_parseIn_halted :
    let parser : Parser := { Parser.new with limit := 2 }
    let text : Text := #[239, 187, 191, 32, 195, 40, 49]
    ∃ parsed draft scans,
      parser.spans = [] ∧ text.size < maxOffset ∧ firstToken.program.SparesEnd ∧
      firstToken.grammar.run (parser.begun firstToken text none) = .ok ((), parsed) ∧
      Calls (parser.begun firstToken text none) parsed draft scans ∧ draft.around = [] ∧
      parser.parseIn firstToken text none ≠ .error .endless ∧
      ∃ result skipped last all kept dropped,
        parser.parseIn firstToken text none = .ok result ∧
        (Parsing.skipRest parsed.budget).run parsed = .ok ((), skipped) ∧
        Calls (parser.begun firstToken text none) skipped last all ∧
        all = kept ++ dropped ∧ dropped.length ≤ 1 ∧ (skipped.isHalted = false → dropped = []) ∧
        Node.Tile 0 result.document.root.leaves text.size ∧
        (result.document.root.leaves.filter Node.wasScanned).map
            (fun leaf => (leaf.tree, leaf.span)) =
          kept.map (fun scan => (scan.token, scan.span)) ∧
        result.document.tree.total = text.place text.size := by
  intro parser text
  have ends : (match parser.parseIn firstToken text none with
      | .ok _ => true
      | .error _ => false) = true := by decide +kernel
  have done : (match firstToken.grammar.run (parser.begun firstToken text none) with
      | .ok _ => true
      | .error _ => false) = true := by decide +kernel
  have finite : parser.parseIn firstToken text none ≠ .error .endless := by
    intro endless
    rw [endless] at ends
    cases ends
  cases run : firstToken.grammar.run (parser.begun firstToken text none) with
  | error fault =>
      rw [run] at done
      cases done
  | ok produced =>
      rcases produced with ⟨_, parsed⟩
      rcases Parsing.run_bind_ok run with ⟨node, opened, start, rest⟩
      rcases Parsing.run_bind_ok rest with ⟨_, bumped, bump, rest⟩
      rcases Parsing.run_discard_ok rest with ⟨completed, complete⟩
      have one := @Calls.call _ _ _ _ _ .start _ .begin trivial (run_map_of_ok _ start)
      have two := @Calls.call _ _ _ _ _ .bump _ one trivial (run_map_of_ok _ bump)
      have opened_ : ((Draft.empty.after (parser.begun firstToken text none) .start
          (.opened node)).after opened .bump .none).around = [⟨node.place, none, []⟩] :=
        Calls.around_addAll _ _ _
      have three := @Calls.call _ _ _ _ _ (.complete node Arithmetic.sum) _ two
        ⟨_, _, opened_, rfl⟩ (run_map_of_ok _ complete)
      have closed := Calls.around_complete opened_ Arithmetic.sum
      exact ⟨parsed, _, _, rfl, by decide, Arithmetic.sparesEnd_program, rfl, three, closed, finite,
        tile_parseIn parser firstToken rfl (by decide) Arithmetic.sparesEnd_program run three closed
          finite⟩

end Parser

end Reparse
