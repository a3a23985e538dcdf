import Reparse.Proofs.Arithmetic.Transport

/-!
# Sentences of the arithmetic language

`Arithmetic.IsExpression` says which sequences of tokens are sentences of the grammar

    expression := operand ('+' operand)*
    operand    := number | variable | '(' expression ')'

and gives each of them its outline, in which sums associate to the left. The derivation of a text
without an error in it is the one of a sentence: the tokens between its comments are the sentence,
and the tree without its comments is the outline (`Arithmetic.Operand.sentence`). Every sentence that
stands in a text has such a derivation (`Arithmetic.IsOperand.derivation`).
-/

namespace Reparse

/-- What is left of a tree when its extras and the token that ends the input are taken out. -/
inductive Outline where
  | token (token : Tree)
  | node (symbol : Nat) (children : List (Edge Outline))

namespace Tree

mutual

def outline : Tree → Outline
  | node info children =>
    if children.isEmpty then .token (bare (node info children))
    else .node info.symbol (outlineAll children)

/-- The outlines of the children that are neither extras nor the end of the input. -/
def outlineAll : List (Edge Tree) → List (Edge Outline)
  | [] => []
  | edge :: rest =>
    if edge.tree.info.extra || edge.tree.info.isEnd then outlineAll rest
    else ⟨edge.field, edge.tree.outline⟩ :: outlineAll rest

end

@[simp]
theorem outlineAll_nil : outlineAll [] = [] := by simp [outlineAll]

theorem outlineAll_cons_solid {edge : Edge Tree} (solid : edge.tree.info.extra = false)
    (more : edge.tree.info.symbol ≠ endSymbol) (rest : List (Edge Tree)) :
    outlineAll (edge :: rest) = ⟨edge.field, edge.tree.outline⟩ :: outlineAll rest := by
  simp [outlineAll, solid, more, Info.isEnd]

@[simp]
theorem outlineAll_append (left right : List (Edge Tree)) :
    outlineAll (left ++ right) = outlineAll left ++ outlineAll right := by
  induction left with
  | nil => simp
  | cons edge rest ih =>
      simp only [List.cons_append, outlineAll, ih]
      split <;> simp

theorem outline_of_childless {tree : Tree} (childless : tree.children = []) :
    tree.outline = .token tree.bare := by
  cases tree with
  | node info children =>
      rw [children_node] at childless
      simp [outline, childless]

theorem outline_branch {symbol state : Nat} {kind : SymbolKind} {items : List (Edge Tree)}
    (inhabited : items ≠ []) :
    (branch symbol state kind items).outline = .node symbol (outlineAll items) := by
  simp [branch, outline, inhabited, Info.plain]

mutual

theorem outline_bare : (tree : Tree) → tree.bare.outline = tree.outline
  | node info children => by
    simp only [bare, outline, isEmpty_bareAll, bareAll_bareAll, outlineAll_bareAll children]

theorem outlineAll_bareAll : (children : List (Edge Tree)) →
    outlineAll (bareAll children) = outlineAll children
  | [] => by simp
  | edge :: rest => by
    simp only [bareAll_cons, outlineAll, info_bare, outline_bare edge.tree, outlineAll_bareAll rest]
    rfl

end

end Tree

namespace Arithmetic

/-! ## The grammar -/

/-- The outline of a complete operand around its parts. -/
def operandOutline (parts : List Outline) : Outline :=
  .node expressionSymbol (parts.map fun part => ⟨0, part⟩)

/-- The outline of a sum in its expression. -/
def sumOutline (left : Outline) (token : Tree) (right : Outline) : Outline :=
  operandOutline
    [.node sum [⟨leftField, left⟩, ⟨0, .token token⟩, ⟨rightField, right⟩]]

mutual

/-- The tokens are an operand with the outline. -/
inductive IsOperand : List Tree → Outline → Prop where
  | token {token : Tree}
      (single : token.info.symbol = number ∨ token.info.symbol = variableName) :
      IsOperand [token] (operandOutline [.token token])
  | group {opening closing : Tree} {tokens : List Tree} {inner : Outline}
      (opens : opening.info.symbol = leftParenthesis) (inside : IsExpression tokens inner)
      (closes : closing.info.symbol = rightParenthesis) :
      IsOperand (opening :: (tokens ++ [closing]))
        (operandOutline [.token opening, inner, .token closing])

/-- The tokens are an expression with the outline: an operand and those that are added to it. -/
inductive IsExpression : List Tree → Outline → Prop where
  | operands {tokens others : List Tree} {first whole : Outline} (operand : IsOperand tokens first)
      (addends : Addends first others whole) : IsExpression (tokens ++ others) whole

/-- The tokens add operands to an expression, one after the other from the left. -/
inductive Addends : Outline → List Tree → Outline → Prop where
  | done {left : Outline} : Addends left [] left
  | more {left right whole : Outline} {token : Tree} {tokens others : List Tree}
      (adds : token.info.symbol = plus) (operand : IsOperand tokens right)
      (rest : Addends (sumOutline left token right) others whole) :
      Addends left (token :: (tokens ++ others)) whole

end

theorem IsOperand.inhabited {tokens : List Tree} {outline : Outline}
    (operand : IsOperand tokens outline) : tokens ≠ [] := by
  cases operand <;> simp

/-! ## Tokens between comments -/

/-- The tokens that are neither comments nor the end of the input, from an offset up to the stop of
the last one. -/
inductive Solids (text : Text) : Nat → List Tree → Nat → Prop where
  | done {offset : Nat} : Solids text offset [] offset
  | more {offset start next stop : Nat} {comments : List (Edge Tree)} {token : Tree}
      {tokens : List Tree} (extras : Extras text offset comments start)
      (scanned : Scanned text start token next) (solid : token.info.extra = false)
      (more : token.info.symbol ≠ endSymbol) (rest : Solids text next tokens stop) :
      Solids text offset (token.bare :: tokens) stop

section Solids

variable {text : Text} {offset start middle stop : Nat} {comments : List (Edge Tree)}
  {tokens others : List Tree}

theorem Solids.append (left : Solids text offset tokens middle)
    (right : Solids text middle others stop) : Solids text offset (tokens ++ others) stop := by
  induction left with
  | done => exact right
  | more extras scanned solid more _ ih => exact .more extras scanned solid more (ih right)

/-- Tokens in two groups stand in two stretches. -/
theorem Solids.split (solids : Solids text offset (tokens ++ others) stop) :
    ∃ middle, Solids text offset tokens middle ∧ Solids text middle others stop := by
  induction tokens generalizing offset with
  | nil => exact ⟨offset, .done, solids⟩
  | cons token rest ih =>
      cases solids with
      | more extras scanned solid more later =>
          rcases ih later with ⟨middle, first, second⟩
          exact ⟨middle, .more extras scanned solid more first, second⟩

theorem Extras.trans {left right : List (Edge Tree)} (first : Extras text offset left middle)
    (second : Extras text middle right stop) : Extras text offset (left ++ right) stop := by
  induction first with
  | done => exact second
  | more scanned extra _ ih => exact .more scanned extra (ih second)

/-- Comments in front of tokens are passed over. -/
theorem Solids.after (extras : Extras text offset comments start)
    (solids : Solids text start tokens stop) (some : tokens ≠ []) :
    Solids text offset tokens stop := by
  cases solids with
  | done => exact absurd rfl some
  | more between scanned solid more rest =>
      exact .more (extras.trans between) scanned solid more rest

theorem Scanned.solids {token : Tree} (scanned : Scanned text offset token stop)
    (other : token.info.symbol ≠ comment) (more : token.info.symbol ≠ endSymbol) :
    Solids text offset [token.bare] stop :=
  .more .done scanned (scanned.solid other) more .done

/-- The first of some tokens stands behind comments. -/
theorem Solids.first {token : Tree} (solids : Solids text offset (token :: tokens) stop) :
    ∃ comments start scanned next, Extras text offset comments start ∧
      Scanned text start scanned next ∧ scanned.bare = token ∧ scanned.info.extra = false ∧
      scanned.info.symbol ≠ endSymbol ∧ Solids text next tokens stop := by
  cases solids with
  | more extras scanned solid more rest =>
      exact ⟨_, _, _, _, extras, scanned, rfl, solid, more, rest⟩

theorem Solids.single {token : Tree} (solids : Solids text offset [token] stop) :
    ∃ comments start scanned, Extras text offset comments start ∧
      Scanned text start scanned stop ∧ scanned.bare = token := by
  rcases solids.first with ⟨comments, start, scanned, next, extras, found, same, _, _, rest⟩
  cases rest
  exact ⟨comments, start, scanned, extras, found, same⟩

theorem Extras.outlineAll (extras : Extras text offset comments stop) :
    Tree.outlineAll comments = [] := by
  induction extras with
  | done => simp
  | more _ extra _ ih => simp [Tree.outlineAll, extra, ih]

theorem Scanned.outline {token : Tree} (scanned : Scanned text offset token stop) :
    token.outline = .token token.bare := Tree.outline_of_childless scanned.childless

end Solids

/-! ## Complete expressions -/

/-- A tree is an expression around some parts. -/
def IsBuilt (tree : Tree) : Prop :=
  ∃ state items, items ≠ [] ∧
    tree = Tree.branch expressionSymbol state (vocabulary.kind expressionSymbol) items

theorem isBuilt_operandTree {items : List (Edge Tree)} (inhabited : items ≠ []) :
    IsBuilt (operandTree items) := ⟨operandState, items, inhabited, rfl⟩

theorem isBuilt_sumTree (items : List (Edge Tree)) : IsBuilt (sumTree items) :=
  ⟨noState, _, by simp, rfl⟩

section Built

variable {tree : Tree}

theorem IsBuilt.symbol (built : IsBuilt tree) : tree.info.symbol = expressionSymbol := by
  rcases built with ⟨_, _, _, rfl⟩
  rfl

theorem IsBuilt.solid (built : IsBuilt tree) : tree.info.extra = false := by
  rcases built with ⟨_, _, _, rfl⟩
  rfl

theorem IsBuilt.isPrincipal (built : IsBuilt tree) : tree.isPrincipal = true := by
  simp only [Tree.isPrincipal, Info.isError, Info.isEnd, built.solid, built.symbol]
  decide

theorem IsBuilt.inhabited (built : IsBuilt tree) : tree.children ≠ [] := by
  rcases built with ⟨_, _, inhabited, rfl⟩
  exact inhabited

theorem IsBuilt.outlineAll (built : IsBuilt tree) (field : Nat) (rest : List (Edge Tree)) :
    Tree.outlineAll (⟨field, tree⟩ :: rest) = ⟨field, tree.outline⟩ :: Tree.outlineAll rest := by
  apply Tree.outlineAll_cons_solid
  · exact built.solid
  · dsimp only
    rw [built.symbol]
    decide

theorem IsBuilt.outline (built : IsBuilt tree) :
    tree.outline = .node expressionSymbol (Tree.outlineAll tree.children) := by
  rcases built with ⟨_, _, inhabited, rfl⟩
  exact Tree.outline_branch inhabited

theorem cost_branch {symbol state : Nat} {kind : SymbolKind} {items : List (Edge Tree)}
    (regular : symbol ≠ errorSymbol) (clean : Costless items) :
    (Tree.branch symbol state kind items).info.cost = 0 := by
  simp only [Tree.branch, Tree.info_node, regular, if_false, Tree.sumOf]
  induction items with
  | nil => rfl
  | cons edge rest ih =>
      rcases costless_cons.mp clean with ⟨first, others⟩
      rw [List.foldl_cons, first]
      exact ih others

theorem cost_sumTree {items : List (Edge Tree)} (clean : Costless items) :
    (sumTree items).info.cost = 0 :=
  cost_branch (by decide) (costless_cons.mpr ⟨cost_branch (by decide) clean, nofun⟩)

theorem IsBuilt.cost (built : IsBuilt tree) (clean : Costless tree.children) :
    tree.info.cost = 0 := by
  rcases built with ⟨_, _, _, rfl⟩
  exact cost_branch (by decide) clean

theorem Operand.isBuilt {text : Text} {offset stop : Nat}
    (operand : Operand text offset tree stop) :
    IsBuilt tree := by
  cases operand with
  | token => exact isBuilt_operandTree (by simp)
  | group => exact isBuilt_operandTree (by simp)

end Built

section Outlines

variable {text : Text} {offset start stop : Nat} {comments : List (Edge Tree)} {token : Tree}

theorem outline_operandTree_token (scanned : Scanned text offset token stop)
    (single : token.info.symbol = number ∨ token.info.symbol = variableName) :
    (operandTree [⟨0, token⟩]).outline = operandOutline [.token token.bare] := by
  have solid : token.info.extra = false := by
    apply scanned.solid
    rcases single with same | same <;> rw [same] <;> decide
  have more : token.info.symbol ≠ endSymbol := by
    rcases single with same | same <;> rw [same] <;> decide
  rw [operandTree, Tree.outline_branch (by simp), Tree.outlineAll_cons_solid solid more]
  simp [scanned.outline, operandOutline]

theorem outline_operandTree_group {opening closing : Tree} {items : List (Edge Tree)}
    {whole : Outline} {middle last : Nat} (opened : Scanned text offset opening start)
    (opens : opening.info.symbol = leftParenthesis) (inside : Tree.outlineAll items = [⟨0, whole⟩])
    (scanned : Scanned text middle closing last)
    (closes : closing.info.symbol = rightParenthesis) :
    (operandTree (⟨0, opening⟩ :: (items ++ [⟨0, closing⟩]))).outline =
      operandOutline [.token opening.bare, whole, .token closing.bare] := by
  have first : opening.info.extra = false := opened.solid (by rw [opens]; decide)
  have last : closing.info.extra = false := scanned.solid (by rw [closes]; decide)
  rw [operandTree, Tree.outline_branch (by simp),
    Tree.outlineAll_cons_solid first (by rw [opens]; decide), Tree.outlineAll_append, inside,
    Tree.outlineAll_cons_solid last (by rw [closes]; decide)]
  simp [opened.outline, scanned.outline, operandOutline]

theorem outline_sumTree {left right : Tree} {between : List (Edge Tree)}
    (builtLeft : IsBuilt left) (extras : Extras text offset comments start)
    (scanned : Scanned text start token stop) (adds : token.info.symbol = plus)
    (further : Tree.outlineAll between = []) (builtRight : IsBuilt right) :
    (sumTree (⟨leftField, left⟩ ::
      (comments ++ ⟨0, token⟩ :: (between ++ [⟨rightField, right⟩])))).outline =
        sumOutline left.outline token.bare right.outline := by
  have solid : token.info.extra = false := scanned.solid (by rw [adds]; decide)
  have more : token.info.symbol ≠ endSymbol := by rw [adds]; decide
  have inner {items : List (Edge Tree)} :
      (Tree.branch sum noState (vocabulary.kind sum) items).info.symbol ≠ endSymbol :=
    show sum ≠ endSymbol by decide
  rw [sumTree, Tree.outline_branch (by simp), Tree.outlineAll_cons_solid rfl inner,
    Tree.outline_branch (by simp), builtLeft.outlineAll, Tree.outlineAll_append, extras.outlineAll,
    Tree.outlineAll_cons_solid solid more, Tree.outlineAll_append, further, builtRight.outlineAll]
  simp [scanned.outline, sumOutline, operandOutline]

end Outlines

/-! ## A derivation without an error is one of a sentence -/

section Sentence

variable {text : Text}

/-- A complete expression with the comments behind it. -/
theorem Sums.summit {offset stop : Nat} {left : Tree} {items : List (Edge Tree)} :
    Sums text left offset items stop → IsBuilt left →
      ∃ tree middle comments, items = ⟨0, tree⟩ :: comments ∧ IsBuilt tree ∧
        Extras text middle comments stop
  | .done extras _ _, built => ⟨_, _, _, rfl, built, extras⟩
  | .more _ _ _ _ rest, _ => rest.summit (isBuilt_sumTree _)
termination_by structural sums => sums

mutual

theorem Operand.sentence {offset stop : Nat} {tree : Tree} :
    Operand text offset tree stop → tree.info.cost = 0 →
      ∃ tokens, Solids text offset tokens stop ∧ IsOperand tokens tree.outline
  | .token scanned single, _ => by
    refine ⟨_, scanned.solids ?_ ?_, ?_⟩
    · rcases single with same | same <;> rw [same] <;> decide
    · rcases single with same | same <;> rw [same] <;> decide
    · rw [outline_operandTree_token scanned single]
      apply IsOperand.token
      simpa using single
  | .group opened opens inside closes, clean => by
    have costless := costless_of_branch (by decide) clean
    rw [costless_cons, costless_append, costless_cons] at costless
    rcases inside.sentence costless.2.1 with
      ⟨tokens, whole, middle, comments, solids, extras, expression, outline⟩
    cases closes with
    | found scanned closes =>
        have first := opened.solids (by rw [opens]; decide) (by rw [opens]; decide)
        have last := scanned.solids (by rw [closes]; decide) (by rw [closes]; decide)
        refine ⟨_ :: (tokens ++ [_]),
          first.append (solids.append (last.after extras (by simp))), ?_⟩
        rw [outline_operandTree_group opened opens outline scanned closes]
        exact .group (by simpa using opens) expression (by simpa using closes)
    | missing => exact absurd costless.2.2.1 (by decide)
termination_by structural operand => operand

theorem Inside.sentence {offset stop : Nat} {items : List (Edge Tree)} :
    Inside text offset items stop → Costless items →
      ∃ tokens whole middle comments, Solids text offset tokens middle ∧
        Extras text middle comments stop ∧ IsExpression tokens whole ∧
        Tree.outlineAll items = [⟨0, whole⟩]
  | .filled extras first sums, clean => by
    have costless := (costless_append.mp clean).2
    rcases first.sentence (sums.clean_left costless) with ⟨tokens, solids, operand⟩
    rcases sums.sentence first.isBuilt costless with
      ⟨others, tree, middle, comments, further, behind, addends, rfl, built⟩
    refine ⟨_, tree.outline, middle, comments,
      (solids.after extras operand.inhabited).append further, behind, .operands operand addends, ?_⟩
    rw [Tree.outlineAll_append, extras.outlineAll, built.outlineAll, behind.outlineAll]
    rfl
  | .empty _ _, clean => by
    have costless := (costless_append.mp clean).2
    exact absurd (costless _ (List.mem_singleton_self _)) cost_missingTree
termination_by structural inside => inside

theorem Sums.sentence {offset stop : Nat} {left : Tree} {items : List (Edge Tree)} :
    Sums text left offset items stop → IsBuilt left → Costless items →
      ∃ tokens tree middle comments, Solids text offset tokens middle ∧
        Extras text middle comments stop ∧ Addends left.outline tokens tree.outline ∧
        items = ⟨0, tree⟩ :: comments ∧ IsBuilt tree
  | .done extras _ _, built, _ => ⟨[], _, _, _, .done, extras, .done, rfl, built⟩
  | .more extras scanned adds right rest, built, clean => by
    have costless := (costless_cons.mp (costless_of_sumTree (rest.clean_left clean))).2
    have addend := (costless_cons.mp (costless_append.mp costless).2).2
    rcases rest.sentence (isBuilt_sumTree _) clean with
      ⟨others, whole, middle, comments, later, behind, addends, same, builtWhole⟩
    rcases right.sentence addend with
      ⟨tokens, tree, between, further, rfl, builtRight, solids, operand⟩
    have plusSolids := scanned.solids (by rw [adds]; decide) (by rw [adds]; decide)
    rw [outline_sumTree built extras scanned adds further builtRight] at addends
    refine ⟨_ :: (tokens ++ others), whole, middle, comments,
      (plusSolids.after extras (by simp)).append (solids.append later), behind, ?_, same,
      builtWhole⟩
    exact .more (by simpa using adds) operand addends
termination_by structural sums => sums

theorem Right.sentence {offset stop : Nat} {items : List (Edge Tree)} :
    Right text offset items stop → Costless items →
      ∃ tokens tree comments, Tree.outlineAll comments = [] ∧
        items = comments ++ [⟨rightField, tree⟩] ∧ IsBuilt tree ∧
        Solids text offset tokens stop ∧ IsOperand tokens tree.outline
  | .found extras operand, clean => by
    have costless := (costless_append.mp clean).2
    rcases operand.sentence (costless _ (List.mem_singleton_self _)) with ⟨tokens, solids, is⟩
    exact ⟨tokens, _, _, extras.outlineAll, rfl, operand.isBuilt,
      solids.after extras is.inhabited, is⟩
  | .missing _ _, clean => by
    have costless := (costless_append.mp clean).2
    exact absurd (costless _ (List.mem_singleton_self _)) cost_missingTree
termination_by structural right => right

end

end Sentence

/-! ## A sentence has a derivation without an error -/

section Derivation

variable {text : Text}

theorem Scanned.cost {offset stop : Nat} {token : Tree} (scanned : Scanned text offset token stop)
    (known : token.info.symbol ≠ errorSymbol) : token.info.cost = 0 := by
  cases scanned with
  | found => rfl
  | ended => rfl
  | unexpected => exact absurd rfl known

theorem Extras.costless {offset stop : Nat} {comments : List (Edge Tree)}
    (extras : Extras text offset comments stop) : Costless comments := by
  induction extras with
  | done => simp [Costless]
  | more scanned extra _ ih =>
      exact costless_cons.mpr ⟨scanned.cost (by rw [scanned.of_extra extra]; decide), ih⟩

mutual

theorem IsOperand.derivation {offset stop : Nat} {tokens : List Tree} {outline : Outline} :
    IsOperand tokens outline → Solids text offset tokens stop →
      ∃ comments start tree, Extras text offset comments start ∧ Operand text start tree stop ∧
        tree.info.cost = 0 ∧ tree.outline = outline
  | .token single, solids => by
    rcases solids.single with ⟨comments, start, token, extras, scanned, rfl⟩
    simp only [Tree.info_bare] at single
    have regular : token.info.symbol ≠ errorSymbol := by
      rcases single with same | same <;> rw [same] <;> decide
    refine ⟨comments, start, _, extras, .token scanned single, ?_,
      outline_operandTree_token scanned single⟩
    exact cost_branch (by decide) (costless_cons.mpr ⟨scanned.cost regular, nofun⟩)
  | .group opens inside closes, solids => by
    rcases solids.first with ⟨_, _, opening, _, extras, opened, rfl, _, _, rest⟩
    rcases rest.split with ⟨middle, tokens, closing⟩
    rcases closing.single with ⟨between, last, closing, behind, scanned, rfl⟩
    simp only [Tree.info_bare] at opens closes
    have ahead := scanned.ahead (by rw [closes]; decide)
    rcases inside.derivation tokens behind ahead (by rw [closes]; decide) with
      ⟨before, start, left, place, tree, front, first, sums, built, clean, rfl⟩
    refine ⟨_, _, _, extras,
      .group opened opens (.filled front first sums) (.found scanned closes), ?_, ?_⟩
    · apply cost_branch (by decide)
      simp only [costless_cons, costless_append]
      exact ⟨opened.cost (by rw [opens]; decide), ⟨front.costless, clean, behind.costless⟩,
        scanned.cost (by rw [closes]; decide), nofun⟩
    · apply outline_operandTree_group opened opens _ scanned closes
      rw [Tree.outlineAll_append, front.outlineAll, built.outlineAll, behind.outlineAll]
      rfl
termination_by structural operand => operand

theorem IsExpression.derivation {offset middle stop symbol : Nat} {tokens : List Tree}
    {whole : Outline} {comments : List (Edge Tree)} :
    IsExpression tokens whole → Solids text offset tokens middle →
      Extras text middle comments stop → Ahead text stop symbol → symbol ≠ plus →
        ∃ before start left place tree, Extras text offset before start ∧
          Operand text start left place ∧ Sums text left place (⟨0, tree⟩ :: comments) stop ∧
          IsBuilt tree ∧ tree.info.cost = 0 ∧ tree.outline = whole
  | .operands operand addends, solids, extras, ahead, other => by
    rcases solids.split with ⟨place, tokens, others⟩
    rcases operand.derivation tokens with ⟨before, start, left, front, first, clean, same⟩
    rcases addends.derivation first.isBuilt clean same others extras ahead other with
      ⟨tree, sums, built, clean, same⟩
    exact ⟨before, start, left, place, tree, front, first, sums, built, clean, same⟩
termination_by structural expression => expression

theorem Addends.derivation {offset middle stop symbol : Nat} {left : Tree} {outline whole : Outline}
    {tokens : List Tree} {comments : List (Edge Tree)} :
    Addends outline tokens whole → IsBuilt left → left.info.cost = 0 → left.outline = outline →
      Solids text offset tokens middle → Extras text middle comments stop →
        Ahead text stop symbol → symbol ≠ plus →
          ∃ tree, Sums text left offset (⟨0, tree⟩ :: comments) stop ∧ IsBuilt tree ∧
            tree.info.cost = 0 ∧ tree.outline = whole
  | .done, built, clean, same, solids, extras, ahead, other => by
    cases solids
    exact ⟨left, .done extras ahead other, built, clean, same⟩
  | .more adds operand rest, built, clean, same, solids, extras, ahead, other => by
    rcases solids.first with ⟨gap, _, token, _, behind, scanned, sameToken, _, _, later⟩
    rcases later.split with ⟨place, tokens, others⟩
    rcases operand.derivation tokens with
      ⟨between, start, right, front, second, cleanRight, sameRight⟩
    rw [← sameToken, Tree.info_bare] at adds
    have costless : Costless
        (⟨leftField, left⟩ :: (gap ++ ⟨0, token⟩ :: (between ++ [⟨rightField, right⟩]))) := by
      simp only [costless_cons, costless_append]
      exact ⟨clean, behind.costless, scanned.cost (by rw [adds]; decide), front.costless,
        cleanRight, nofun⟩
    have sameSum := outline_sumTree built behind scanned adds front.outlineAll second.isBuilt
    rw [same, sameToken, sameRight] at sameSum
    rcases rest.derivation (isBuilt_sumTree _) (cost_sumTree costless) sameSum others extras ahead
      other with ⟨tree, sums, built, clean, same⟩
    exact ⟨tree, .more behind scanned adds (.found front second) sums, built, clean, same⟩
termination_by structural addends => addends

end

end Derivation

end Arithmetic

end Reparse
