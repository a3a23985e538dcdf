import Reparse.Proofs.Arithmetic.Recorded

/-!
# The grammar keeps to the node types

Whatever the text, the included spans and the limit are, and whatever is taken over from an older
tree that keeps to the node types, what a run of the arithmetic grammar records comes to trees that
keep to them (`Arithmetic.typed_wholeTree`). Each rule of the grammar says with what labels it
records trees, if it ends.
-/

namespace Reparse

namespace Arithmetic

open Parsing
open Event (Yields blank wrapped)
open Tree (Among)

variable {context after : Context} {record block front back : List Event} {top : Event}
  {labels : List (Nat × Nat)} {allowed : Nat × Nat → Prop}

/-! ## The rules of the grammar -/

/-- Trees with allowed labels were recorded behind a record. -/
def Adds (allowed : Nat × Nat → Prop) (record : List Event) (context : Context) : Prop :=
  ∃ block, Pieces allowed block ∧ Recorded (record ++ block) context

theorem Adds.behind (pieces : Pieces allowed block)
    (adds : Adds allowed (record ++ block) context) : Adds allowed record context := by
  rcases adds with ⟨later, more, recorded⟩
  rw [List.append_assoc] at recorded
  exact ⟨_, pieces.append more, recorded⟩

theorem Adds.mono {wider : Nat × Nat → Prop} (adds : Adds allowed record context)
    (weaken : ∀ label, allowed label → wider label) : Adds wider record context := by
  rcases adds with ⟨block, pieces, recorded⟩
  exact ⟨block, pieces.mono weaken, recorded⟩

namespace Recorded

theorem missingOperand (recorded : Recorded record context) :
    Ensures missingOperand context fun node after =>
      node = ⟨record.length⟩ ∧ Recorded (record ++ missingTop :: missingBack) after := by
  refine recorded.start.bind fun node opened ⟨named, _, begun⟩ => ?_
  subst named
  refine (begun.missing number).bind fun _ filled between => ?_
  rw [List.append_assoc, List.singleton_append] at between
  exact between.complete expressionSymbol

/-- A group is closed by its parenthesis or by a missing one. -/
theorem expect (recorded : Recorded record context) :
    Ensures (Parsing.expect rightParenthesis) context fun _ after =>
      Adds IsPart record after := by
  have ate : Ensures (eat rightParenthesis) context fun _ after => Adds IsPart record after := by
    refine (recorded.at? _).bind fun answer between ⟨seen, block, comments, reached⟩ => ?_
    have pieces : Pieces IsPart block := comments.pieces isPart_comment
    cases answer with
    | true =>
        have ahead := seen.mp rfl
        refine (reached.bump (by rw [ahead]; decide)).bind fun _ after ⟨token, piece, last⟩ =>
          .pure (Adds.behind pieces ⟨token, piece.single ?_, last⟩)
        rw [ahead]
        exact isPart_of_listed (by decide)
    | false => exact .pure ⟨block, pieces, reached⟩
  refine ate.bind fun found between ⟨block, pieces, reached⟩ => ?_
  cases found with
  | true => exact .pure ⟨block, pieces, reached⟩
  | false =>
      have absent := piece_missing (by decide : rightParenthesis < comment)
      exact (reached.missing _).bind fun _ after last => .pure (Adds.behind pieces
        ⟨_, absent.single (isPart_of_listed (by decide)), last⟩)

theorem finishOperand (parts : Pieces IsPart back)
    (recorded : Recorded (front ++ blank :: back) context) :
    Ensures (operand.finishOperand ⟨front.length⟩) context fun found after =>
      found = some ⟨front.length⟩ ∧ ∃ top back, ExpressionStem [] top back ∧
        Recorded (front ++ top :: back) after := by
  refine (recorded.complete expressionSymbol).bind fun done completed ⟨same, reached⟩ => ?_
  subst same
  refine (reached.setState operandState).bind fun _ after last => .pure ⟨rfl, _, _, ?_, last⟩
  exact parts.expressionStem operandState

end Recorded

/-- What `operand` finds behind a record: comments, and perhaps an operand behind them. -/
inductive OperandFound (record : List Event) : Option CompleteNode → Context → Prop where
  | nothing {block : List Event} {after : Context} (comments : Comments block)
      (recorded : Recorded (record ++ block) after) : OperandFound record none after
  | operand {block back : List Event} {top : Event} {after : Context} (comments : Comments block)
      (expression : ExpressionStem [] top back)
      (recorded : Recorded (record ++ block ++ top :: back) after) :
      OperandFound record (some ⟨(record ++ block).length⟩) after

/-- A group holds the expression behind its parenthesis, or a missing number. -/
theorem Adds.closeGroup {found : Option CompleteNode}
    (opening : Pieces IsPart block) (adds : Adds IsItem (front ++ blank :: block) context) :
    Ensures (do
        if found.isNone then
          discard Arithmetic.missingOperand
        discard <| Parsing.expect rightParenthesis
        operand.finishOperand ⟨front.length⟩ : Parsing (Option CompleteNode)) context
      fun found after => found = some ⟨front.length⟩ ∧ ∃ top back, ExpressionStem [] top back ∧
        Recorded (front ++ top :: back) after := by
  have close {context : Context} (adds : Adds IsPart (front ++ blank :: block) context) :
      Ensures (do
          discard <| Parsing.expect rightParenthesis
          operand.finishOperand ⟨front.length⟩ : Parsing (Option CompleteNode)) context
        fun found after => found = some ⟨front.length⟩ ∧ ∃ top back, ExpressionStem [] top back ∧
          Recorded (front ++ top :: back) after := by
    rcases adds with ⟨inner, pieces, recorded⟩
    have closed : Ensures (discard <| Parsing.expect rightParenthesis) context fun _ after =>
        Adds IsPart (front ++ blank :: block) after :=
      recorded.expect.discard fun _ _ more => more.behind pieces
    refine closed.bind fun _ after ⟨parts, all, reached⟩ => ?_
    rw [List.append_assoc, List.cons_append] at reached
    exact reached.finishOperand (opening.append all)
  split
  · rcases adds with ⟨inner, pieces, recorded⟩
    have filled : Ensures (discard Arithmetic.missingOperand) context fun _ after =>
        Adds IsPart (front ++ blank :: block) after :=
      recorded.missingOperand.discard fun _ after ⟨_, missing⟩ =>
        Adds.behind (pieces.mono fun _ => IsItem.isPart)
          ⟨_, expressionStem_missing.piece_plain.single (isPart_of_listed (by decide)), missing⟩
    exact filled.bind fun _ after all => close all
  · exact close (adds.mono fun _ => IsItem.isPart)

/-- The right operand of a sum is what is found or a missing number. -/
theorem ensures_addend {α : Type} {fuel : Nat} {rest : CompleteNode → Parsing α}
    {wanted : α → Context → Prop} (finds : Ensures (operand fuel) context (OperandFound record))
    (goes : ∀ block top back after, Comments block → ExpressionStem [] top back →
      Recorded (record ++ block ++ top :: back) after →
        Ensures (rest ⟨(record ++ block).length⟩) after wanted) :
    Ensures (do
        let right ← do
          match ← operand fuel with
          | some right => pure right
          | none => Arithmetic.missingOperand
        rest right : Parsing α) context wanted := by
  refine finds.bind fun found between found => ?_
  cases found with
  | operand comments expression reached =>
      exact .step rfl (goes _ _ _ _ comments expression reached)
  | nothing comments reached =>
      refine reached.missingOperand.bind fun node after ⟨named, filled⟩ => ?_
      subst named
      exact goes _ _ _ _ comments expressionStem_missing filled

/-- What is completed as a sum and wrapped in an expression is an expression. -/
theorem Recorded.closeSum {α : Type} {outer mid inner : List Event} {count : Nat}
    (left : ExpressionStem front top back) (between : Comments mid)
    (addend : Piece inner ((0, plus) ::
      (List.replicate count (0, comment) ++ [(rightField, expressionSymbol)])))
    (same : outer = record ++
      (front ++ wrapped (some (back.length + 1 + mid.length)) leftField top :: back ++ mid))
    (recorded : Recorded (outer ++ blank :: inner) context) {rest : CompleteNode → Parsing α}
    {wanted : α → Context → Prop}
    (goes : ∀ front top back after, ExpressionStem front top back →
      Recorded (record ++ (front ++ top :: back)) after →
        Ensures (rest ⟨(record ++ front).length⟩) after wanted) :
    Ensures (do
        let whole ← Parsing.complete ⟨outer.length⟩ sum
        let wrapper ← Parsing.precede whole
        rest (← Parsing.complete wrapper expressionSymbol) : Parsing α) context wanted := by
  refine (recorded.complete sum).bind fun whole first ⟨here, completed⟩ => ?_
  subst here
  have completed : Recorded (outer ++
      wrapped none 0 (.opening (some sum) none 0 noState) :: (inner ++ [.closing])) first :=
    completed
  refine (completed.precede (isTop_opening (some sum) noState).1).bind
    fun wrapper second ⟨here, _, preceded⟩ => ?_
  subst here
  have shape : outer ++ wrapped (some ((inner ++ [Event.closing]).length + 1)) 0
        (.opening (some sum) none 0 noState) :: (inner ++ [.closing] ++ [blank]) =
      (outer ++ wrapped (some ((inner ++ [Event.closing]).length + 1)) 0
        (.opening (some sum) none 0 noState) :: (inner ++ [.closing])) ++ blank :: [] := by simp
  rw [shape] at preceded
  refine (preceded.complete expressionSymbol).bind fun node third ⟨here, reached⟩ => ?_
  subst here
  rw [same, List.append_assoc] at reached ⊢
  exact goes _ _ _ third (left.sum between addend)
    (by simpa only [List.append_assoc, List.nil_append] using reached)

mutual

theorem ensures_operand {record : List Event} {context : Context} :
    (fuel : Nat) → Recorded record context → Ensures (operand fuel) context (OperandFound record)
  | 0, _ => .fault _
  | fuel + 1, recorded => by
    rw [operand]
    refine recorded.reuse.bind fun found between reused => ?_
    rcases reused with ⟨rfl, rfl⟩ | ⟨tree, rfl, expression, reached⟩
    · refine recorded.peek.bind fun kind peeked ⟨ahead, block, comments, sees⟩ => ?_
      refine sees.start.bind fun node opened ⟨named, same, begun⟩ => ?_
      subst named
      rw [ahead] at same
      have finds {found : Option CompleteNode} {after : Context}
          (operand : found = some ⟨(record ++ block).length⟩ ∧
            ∃ top back, ExpressionStem [] top back ∧ Recorded (record ++ block ++ top :: back) after) :
          OperandFound record found after := by
        rcases operand with ⟨rfl, top, back, expression, last⟩
        exact .operand comments expression last
      split
      · rename_i single
        have more : opened.ahead ≠ endSymbol := by
          rw [same]
          rcases single with rfl | rfl <;> decide
        refine (begun.bump more).bind fun _ bumped ⟨token, piece, reached⟩ => ?_
        rw [same] at piece
        rw [List.append_assoc, List.singleton_append] at reached
        refine (reached.finishOperand (piece.single ?_)).mono fun _ _ => finds
        rcases single with rfl | rfl <;> exact isPart_of_listed (by decide)
      · split
        · rename_i opens
          refine (begun.bump (by rw [same, opens]; decide)).bind
            fun _ bumped ⟨token, piece, reached⟩ => ?_
          rw [same, opens] at piece
          rw [List.append_assoc, List.singleton_append] at reached
          refine (ensures_expression fuel reached).bind fun inner after adds => ?_
          exact (adds.closeGroup (piece.single (isPart_of_listed (by decide)))).mono fun _ _ => finds
        · exact begun.abandon.bind fun _ after last => .pure (.nothing comments last)
    · have taken := @OperandFound.operand record [] [] _ between ⟨0, piece_nil⟩ expression
        (by simpa using reached)
      simp only [List.append_nil] at taken
      exact .pure taken

theorem ensures_expression {record : List Event} {context : Context} :
    (fuel : Nat) → Recorded record context →
      Ensures (expression fuel) context fun _ after => Adds IsItem record after
  | 0, _ => .fault _
  | fuel + 1, recorded => by
    rw [expression]
    refine (ensures_operand fuel recorded).bind fun found between finds => ?_
    cases finds with
    | nothing comments reached => exact .pure ⟨_, comments.pieces (.inr (.inl rfl)), reached⟩
    | operand comments expression reached =>
        have before := comments.pieces (show IsItem (0, comment) from .inr (.inl rfl))
        have summed := ensures_sums [] fuel expression reached
        rw [List.append_nil] at summed
        exact summed.bind fun _ after adds => .pure (adds.behind before)

theorem ensures_sums {record back : List Event} {top : Event} {context : Context}
    (front : List Event) : (fuel : Nat) → ExpressionStem front top back →
      Recorded (record ++ (front ++ top :: back)) context →
        Ensures (sums fuel ⟨(record ++ front).length⟩) context fun _ after =>
          Adds IsItem record after
  | 0, _, _ => .fault _
  | fuel + 1, left, recorded => by
    rw [sums]
    refine (recorded.at? plus).bind fun answer peeked ⟨seen, mid, between, sees⟩ => ?_
    split
    · rename_i adds
      have shape : record ++ (front ++ top :: back) ++ mid =
          (record ++ front) ++ wrapped none 0 top :: (back ++ mid) := by
        rw [left.1.2]
        simp
      rw [shape] at sees
      refine (sees.setField left.1.1 leftField).bind fun _ first ⟨same, fielded⟩ => ?_
      refine (fielded.precede left.1.1).bind fun node second ⟨named, still, preceded⟩ => ?_
      subst named
      have ahead : second.ahead = plus := by rw [still, same, seen.mp adds]
      refine (preceded.bump (by rw [ahead]; decide)).bind fun _ third ⟨sign, piece, begun⟩ => ?_
      rw [ahead] at piece
      refine ensures_addend (ensures_operand fuel begun)
        fun gap addend behind fourth comments expression added => ?_
      rw [← expression.1.2] at added
      refine (added.setField expression.1.1 rightField).bind fun _ fifth ⟨_, reached⟩ => ?_
      rcases comments with ⟨count, spaces⟩
      have all := piece.append (spaces.append (expression.piece rightField))
      have shape : record ++ front ++
            wrapped (some ((back ++ mid).length + 1)) leftField top :: (back ++ mid) =
          record ++ (front ++ wrapped (some (back.length + 1 + mid.length)) leftField top :: back ++
            mid) := by
        rw [List.length_append, Nat.add_right_comm]
        simp
      refine Recorded.closeSum left between all shape ?_ fun front top back after whole last =>
        ensures_sums front fuel whole last
      simpa using reached
    · exact .pure ⟨_, (left.piece_plain.single (.inr (.inr rfl))).append
        (between.pieces (.inr (.inl rfl))), by simpa using sees⟩

end

/-! ## Whole texts -/

theorem isItem_comment : IsItem (0, comment) := .inr (.inl rfl)

/-- What is completed as an error is one. -/
theorem Piece.error (piece : Piece block labels) :
    Piece (.opening (some errorSymbol) none 0 noState :: (block ++ [.closing]))
      [(0, errorSymbol)] := by
  rcases piece with ⟨items, yields, typed, rfl⟩
  have stem := Event.stem_opening errorSymbol noState yields
  exact ⟨_, stem.yields 0, Tree.among_cons.mpr ⟨typed_error typed, Tree.among_nil⟩, rfl⟩

/-- A token that is skipped is recorded as an error. -/
theorem Recorded.skipToken (recorded : Recorded record context) :
    Ensures Parsing.skipToken context fun _ after => Adds IsItem record after := by
  refine recorded.peek.bind fun symbol peeked ⟨ahead, block, comments, sees⟩ => ?_
  have before : Pieces IsItem block := comments.pieces isItem_comment
  split
  · rename_i more
    refine .step rfl (.step rfl ?_)
    have reported := sees.of_sameView (.report peeked
      (.skipped (peeked.vocabulary.symbolName symbol))) sees.events_eq
    refine reported.start.bind fun node opened ⟨named, same, begun⟩ => ?_
    subst named
    have ahead : opened.ahead ≠ endSymbol := by
      rw [same]
      exact ahead ▸ more
    refine (begun.bump ahead).bind fun _ bumped ⟨token, piece, between⟩ => ?_
    rw [List.append_assoc, List.singleton_append] at between
    exact (between.complete errorSymbol).discard fun _ after ⟨_, last⟩ =>
      Adds.behind before ⟨_, piece.error.single (.inl rfl), last⟩
  · exact .pure ⟨block, before, sees⟩

theorem ensures_expressions (fuel : Nat) {turns : Nat} (recorded : Recorded record context) :
    Ensures (expressions fuel turns) context fun _ after => Adds IsItem record after := by
  induction turns generalizing record context with
  | zero => exact .fault _
  | succ turns ih =>
      rw [expressions]
      refine (recorded.at? endSymbol).bind fun ended peeked looked => ?_
      rcases looked with ⟨_, block, comments, sees⟩
      have before : Pieces IsItem block := comments.pieces isItem_comment
      split
      · refine (ensures_expression fuel sees).bind fun found between adds => ?_
        rcases adds with ⟨_, pieces, reached⟩
        have later {context : Context} {more : List Event} (others : Pieces IsItem more)
            (last : Recorded (record ++ block ++ more) context) :
            Ensures (expressions fuel turns) context fun _ after => Adds IsItem record after :=
          (ih last).mono fun _ _ adds => (adds.behind others).behind before
        split
        · refine reached.skipToken.bind fun _ skipped skips => ?_
          rcases skips with ⟨_, error, last⟩
          rw [List.append_assoc] at last
          exact later (pieces.append error) last
        · exact later pieces reached
      · exact .pure ⟨block, before, sees⟩

theorem Recorded.skipRest {turns : Nat} (recorded : Recorded record context) :
    Ensures (Parsing.skipRest turns) context fun _ after =>
      after.ahead = endSymbol ∧ Adds IsItem record after := by
  induction turns generalizing record context with
  | zero => exact .fault _
  | succ turns ih =>
      rw [Parsing.skipRest]
      refine (recorded.at? endSymbol).bind fun ended peeked looked => ?_
      rcases looked with ⟨ends, block, comments, sees⟩
      have before : Pieces IsItem block := comments.pieces isItem_comment
      split
      · refine sees.skipToken.bind fun _ skipped skips => ?_
        rcases skips with ⟨_, error, last⟩
        refine (ih last).mono fun _ _ rest => ?_
        exact ⟨rest.1, (rest.2.behind error).behind before⟩
      · rename_i ended
        exact .pure ⟨ends.mp (by simpa using ended), block, before, sees⟩

/-- A parse ends with the token that ends the input, behind what is left of the text if it was
halted. -/
theorem Recorded.lastToken (recorded : Recorded record context)
    (ended : context.ahead = endSymbol) :
    context.lastToken.1.info.symbol = endSymbol ∧ Typed context.lastToken.1 ∧
      Adds IsItem record context.lastToken.2 := by
  have nothing {reached : Context} (same : Recorded record reached) :
      Adds IsItem record reached := ⟨[], ⟨[], piece_nil, nofun⟩, by simpa using same⟩
  have dropped (scanner : Scanner) : Recorded record { context with scanner, lookahead := none } :=
    ⟨recorded.vocabulary_eq, recorded.program_eq, recorded.events_eq, nofun, recorded.older⟩
  unfold Context.lastToken
  split
  · rename_i token ahead running
    rw [Context.symbol_of_ahead running ahead] at ended
    exact ⟨ended, recorded.ahead token ahead, nothing (dropped context.scanner)⟩
  · have ends {reached : Context} (adds : Adds IsItem record reached) :
        Typed (Tree.leaf endSymbol Extent.zero Extent.zero 0 (reached.vocabulary.kind endSymbol)
          false) ∧ Adds IsItem record reached := by
      rcases adds with ⟨block, pieces, final⟩
      rw [final.vocabulary_eq]
      exact ⟨typed_end, block, pieces, final⟩
    refine ⟨rfl, ends ?_⟩
    split
    · exact ⟨_, (piece_added (typed_unexpected _ _ _ _)).single (.inl rfl), (dropped _).consume⟩
    · exact nothing (dropped _)

/-- What stands outside of all expressions and could be the root is an expression. -/
theorem IsItem.symbol_eq {edge : Edge Tree} (item : IsItem edge.label) (typed : Typed edge.tree)
    (principal : edge.tree.isPrincipal = true) : edge.tree.info.symbol = expressionSymbol := by
  simp only [Tree.isPrincipal, Bool.and_eq_true, Bool.not_eq_true'] at principal
  rcases item with error | isComment | own
  · have same : edge.tree.info.isError = true := beq_iff_eq.mpr error
    rw [same] at principal
    cases principal.1.2
  · have extra := typed.info.extra.mpr (congrArg Prod.snd isComment)
    rw [extra] at principal
    cases principal.1.1
  · exact congrArg Prod.snd own

/-- Whatever the grammar records, the tree keeps to the node types. -/
theorem typed_wholeTree {tree : Tree} (recorded : Recorded [] context)
    (run : (wholeTree grammar).run context = .ok (tree, after)) : Typed tree := by
  rcases run_wholeTree_ok run with ⟨parsed, skipped, items, parse, skip, fold, rfl, _⟩
  have begun : Recorded [] (context.report .began) :=
    recorded.of_sameView (.report _ _) recorded.events_eq
  have grammarAdds : Ensures grammar (context.report .began) fun _ after => Adds IsItem [] after :=
    .step rfl (ensures_expressions _ begun)
  rcases grammarAdds parse with ⟨first, firstPieces, reached⟩
  rcases reached.skipRest skip with ⟨ended, second, secondPieces, rested⟩
  rcases rested.lastToken ended with ⟨isEnd, typedLast, third, thirdPieces, final⟩
  rcases (firstPieces.append secondPieces).append thirdPieces with
    ⟨_, ⟨trees, yields, typed, rfl⟩, fine⟩
  rw [List.nil_append] at final
  rw [← final.events_eq] at yields
  rw [final.vocabulary_eq, yields.fold, Except.ok.injEq] at fold
  subst fold
  rw [final.vocabulary_eq]
  refine typed_root (Tree.among_append.mpr ⟨typed, Tree.among_cons.mpr ⟨typedLast,
    Tree.among_nil⟩⟩) fun edge member principal => ?_
  rcases List.mem_append.mp member with among | last
  · exact (List.forall_mem_map.mp fine edge among).symbol_eq (typed edge among) principal
  · rw [List.mem_singleton.mp last] at principal
    have same : skipped.lastToken.1.info.isEnd = true := beq_iff_eq.mpr isEnd
    simp [Tree.isPrincipal, same] at principal

end Arithmetic

end Reparse
