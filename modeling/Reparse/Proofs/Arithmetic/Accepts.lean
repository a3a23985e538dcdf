import Reparse.Proofs.Arithmetic.Rounds
import Reparse.Proofs.Arithmetic.Sentence

/-!
# The language that the arithmetic parser accepts

A parse from scratch has no error exactly if the tokens of the text, comments aside, are a sentence
of the grammar, and then its tree is the outline of that sentence
(`Arithmetic.hasError_eq_false_iff`). The tokens are those that scans of the text give one after the
other (`Arithmetic.tokens`).
-/

namespace Reparse

/-! ## Roots without an error -/

namespace Tree

theorem rootChildren_append (left right : List (Edge Tree)) :
    rootChildren (left ++ right) = rootChildren left ++ rootChildren right := by
  induction left with
  | nil => rfl
  | cons edge rest ih =>
      simp only [List.cons_append, rootChildren, ih]
      split <;> simp

theorem cost_error (items : List (Edge Tree)) : (error items).info.cost ≠ 0 := by
  simp only [error, branch, info_node, if_true, errorCost, recoveryCost]
  omega

/-- The root without an error is the only principal tree, which takes in all the others. -/
theorem root_of_clean {vocabulary : Vocabulary} {items : List (Edge Tree)}
    (clean : (root vocabulary items).info.cost = 0) :
    ∃ principal, items.filter (fun edge => edge.tree.isPrincipal) = [principal] ∧
      root vocabulary items = branch principal.tree.info.symbol noState
        (vocabulary.kind principal.tree.info.symbol) (rootChildren items) := by
  unfold root at clean ⊢
  cases only : items.filter fun edge => edge.tree.isPrincipal with
  | nil =>
      rw [only] at clean
      exact absurd clean (cost_error items)
  | cons principal others =>
      cases others with
      | cons other rest =>
          rw [only] at clean
          exact absurd clean (cost_error items)
      | nil =>
          simp only [only] at clean ⊢
          split at clean
          · exact absurd clean (cost_error items)
          · rename_i inhabited
            exact ⟨principal, rfl, by rw [if_neg inhabited]⟩

end Tree

namespace Arithmetic

section Root

variable {text : Text} {offset start stop : Nat} {comments : List (Edge Tree)}

theorem Extras.filter_principal (extras : Extras text offset comments stop) :
    comments.filter (fun edge => edge.tree.isPrincipal) = [] := by
  induction extras with
  | done => rfl
  | more _ extra _ ih => rw [List.filter_cons_of_neg (by simp [Tree.isPrincipal, extra]), ih]

theorem Extras.rootChildren (extras : Extras text offset comments stop) :
    Tree.rootChildren comments = comments := by
  induction extras with
  | done => rfl
  | more _ extra _ ih => simp [Tree.rootChildren, Tree.isPrincipal, extra, ih]

theorem IsBuilt.rootChildren {tree : Tree} (built : IsBuilt tree) (field : Nat)
    (rest : List (Edge Tree)) :
    Tree.rootChildren (⟨field, tree⟩ :: rest) = tree.children ++ Tree.rootChildren rest := by
  simp [Tree.rootChildren, built.isPrincipal]

theorem not_isPrincipal_end {token : Tree} (ends : token.info.symbol = endSymbol) :
    token.isPrincipal = false := by
  simp [Tree.isPrincipal, Info.isEnd, ends]

/-- The root around one expression, with comments on both sides of it. -/
theorem root_of_expression {before behind : List (Edge Tree)} {tree token : Tree}
    {middle last : Nat}
    (front : Extras text offset before start) (built : IsBuilt tree)
    (back : Extras text middle behind last) (ends : token.info.symbol = endSymbol) :
    Tree.root vocabulary (before ++ ⟨0, tree⟩ :: (behind ++ [⟨0, token⟩])) =
      Tree.branch expressionSymbol noState (vocabulary.kind expressionSymbol)
        (before ++ (tree.children ++ (behind ++ [⟨0, token⟩]))) := by
  have last := not_isPrincipal_end ends
  have only : List.filter (fun edge => edge.tree.isPrincipal)
      (before ++ ⟨0, tree⟩ :: (behind ++ [⟨0, token⟩])) = [⟨0, tree⟩] := by
    simp [front.filter_principal, back.filter_principal, built.isPrincipal, last]
  have children : Tree.rootChildren (before ++ ⟨0, tree⟩ :: (behind ++ [⟨0, token⟩])) =
      before ++ (tree.children ++ (behind ++ [⟨0, token⟩])) := by
    rw [Tree.rootChildren_append, front.rootChildren, built.rootChildren, Tree.rootChildren_append,
      back.rootChildren]
    simp [Tree.rootChildren, last]
  unfold Tree.root
  rw [only, children]
  simp [built.inhabited, built.symbol]

theorem outline_root_of_expression {before behind : List (Edge Tree)} {tree token : Tree}
    {middle last : Nat} (front : Extras text offset before start) (built : IsBuilt tree)
    (back : Extras text middle behind last) (ends : token.info.symbol = endSymbol) :
    (Tree.root vocabulary (before ++ ⟨0, tree⟩ :: (behind ++ [⟨0, token⟩]))).outline =
      tree.outline := by
  rw [root_of_expression front built back ends, Tree.outline_branch (by simp), built.outline]
  simp [front.outlineAll, back.outlineAll, Tree.outlineAll, Info.isEnd, ends]

end Root

/-! ## The tokens of a whole text -/

/-- The tokens from an offset up to the end of the text, comments aside. -/
def Spells (text : Text) (offset : Nat) (tokens : List Tree) : Prop :=
  ∃ middle comments start token stop, Solids text offset tokens middle ∧
    Extras text middle comments start ∧ Scanned text start token stop ∧
    token.info.symbol = endSymbol

section Spells

variable {text : Text} {offset : Nat} {tokens others : List Tree}

theorem Spells.unique (spells : Spells text offset tokens) (again : Spells text offset others) :
    tokens = others := by
  induction tokens generalizing offset others with
  | nil =>
      rcases spells with ⟨_, _, _, _, _, solids, extras, scanned, ends⟩
      rcases again with ⟨_, _, _, _, _, solidsAgain, _⟩
      cases solids
      have ahead := scanned.ahead (by rw [ends]; decide)
      cases others with
      | nil => rfl
      | cons token rest =>
          rcases solidsAgain.first with ⟨_, _, _, _, behind, first, _, solid, more, _⟩
          rcases extras.unique ahead behind ⟨_, _, first, rfl, solid⟩ with ⟨_, rfl⟩
          rw [← (scanned.unique_symbol first).1] at more
          exact absurd ends more
  | cons token rest ih =>
      rcases spells with ⟨_, _, _, _, _, solids, ended⟩
      rcases again with ⟨_, _, _, _, _, solidsAgain, endedAgain⟩
      rcases solids.first with ⟨_, _, _, _, extras, scanned, rfl, solid, more, later⟩
      have ahead : Ahead text _ _ := ⟨_, _, scanned, rfl, solid⟩
      cases others with
      | nil =>
          cases solidsAgain
          rcases endedAgain with ⟨behind, last, ends⟩
          rcases extras.unique ahead behind (last.ahead (by rw [ends]; decide)) with ⟨_, rfl⟩
          rw [(scanned.unique_symbol last).1] at more
          exact absurd ends more
      | cons other rest =>
          rcases solidsAgain.first with ⟨_, _, _, _, behind, again, rfl, solidAgain, _, laterAgain⟩
          rcases extras.unique ahead behind ⟨_, _, again, rfl, solidAgain⟩ with ⟨_, rfl⟩
          rcases scanned.unique again with ⟨same, rfl⟩
          rw [same, ih ⟨_, _, _, _, _, later, ended⟩ ⟨_, _, _, _, _, laterAgain, endedAgain⟩]

/-- A derivation whose root has no error is one of a sentence. -/
theorem Expressions.sentence {items : List (Edge Tree)}
    (expressions : Expressions text offset items)
    (clean : (Tree.root vocabulary items).info.cost = 0) :
    ∃ tokens, Spells text offset tokens ∧
      IsExpression tokens (Tree.root vocabulary items).outline := by
  rcases Tree.root_of_clean clean with ⟨principal, only, same⟩
  have regular : principal.tree.info.symbol ≠ errorSymbol := by
    have member : principal ∈ items.filter fun edge => edge.tree.isPrincipal := by simp [only]
    have := (List.mem_filter.mp member).2
    simp [Tree.isPrincipal, Info.isError] at this
    exact this.1.2
  rw [same] at clean
  have costless := costless_of_branch regular clean
  have skips (rest : List (Edge Tree)) (token : Tree) :
      ¬Costless (Tree.rootChildren (⟨0, Tree.error [⟨0, token⟩]⟩ :: rest)) := by
    intro clean
    rw [Tree.rootChildren, if_neg (by simp [Tree.isPrincipal, Tree.error, Tree.branch, Info.isError,
      Info.plain])] at clean
    exact Tree.cost_error _ (costless_cons.mp clean).1
  cases expressions with
  | ended extras _ ends =>
      simp [extras.filter_principal, not_isPrincipal_end ends] at only
  | skipped extras =>
      rw [Tree.rootChildren_append, costless_append] at costless
      exact absurd costless.2 (skips _ _)
  | @expression _ _ _ _ comments _ rest _ extras first sums later =>
      rcases sums.summit first.isBuilt with ⟨tree, middle, behind, rfl, built, back⟩
      rw [List.cons_append, Tree.rootChildren_append, built.rootChildren, Tree.rootChildren_append,
        back.rootChildren] at costless
      simp only [costless_append] at costless
      rcases costless with ⟨_, inner, backClean, restClean⟩
      have whole : Costless (⟨0, tree⟩ :: behind) := costless_cons.mpr ⟨built.cost inner, backClean⟩
      cases later with
      | ended further scanned ends =>
          rcases first.sentence (sums.clean_left whole) with ⟨tokens, solids, operand⟩
          rcases sums.sentence first.isBuilt whole with
            ⟨others, summit, place, gap, more, between, addends, same, _⟩
          rw [List.cons.injEq, Edge.mk.injEq] at same
          rcases same with ⟨⟨_, rfl⟩, rfl⟩
          have outline := outline_root_of_expression extras built (between.trans further) ends
          rw [List.append_assoc] at outline
          refine ⟨tokens ++ others, ⟨_, _, _, _, _,
            (solids.after extras operand.inhabited).append more, between.trans further, scanned,
            ends⟩, ?_⟩
          rw [List.cons_append, outline]
          exact .operands operand addends
      | skipped further =>
          rw [Tree.rootChildren_append, costless_append] at restClean
          exact absurd restClean.2 (skips _ _)
      | expression further second sumsAgain =>
          rcases sumsAgain.summit second.isBuilt with ⟨other, _, _, rfl, builtOther, _⟩
          simp [extras.filter_principal, built.isPrincipal, back.filter_principal,
            further.filter_principal, builtOther.isPrincipal] at only

/-- A sentence has a derivation whose root has no error. -/
theorem IsExpression.expressions {whole : Outline} (sentence : IsExpression tokens whole)
    (spells : Spells text offset tokens) :
    ∃ items, Expressions text offset items ∧ (Tree.root vocabulary items).info.cost = 0 ∧
      (Tree.root vocabulary items).outline = whole := by
  rcases spells with ⟨middle, comments, start, token, stop, solids, extras, scanned, ends⟩
  have ahead := scanned.ahead (by rw [ends]; decide)
  rcases sentence.derivation solids extras ahead (by rw [ends]; decide) with
    ⟨before, place, left, inner, tree, front, first, sums, built, clean, outline⟩
  refine ⟨before ++ ((⟨0, tree⟩ :: comments) ++ ([] ++ [⟨0, token⟩])),
    .expression front first sums (.ended .done scanned ends), ?_, ?_⟩
  · rw [List.nil_append, List.cons_append, root_of_expression front built extras ends]
    apply cost_branch (by decide)
    rcases built with ⟨_, items, _, rfl⟩
    have inner : Costless items := costless_of_branch (by decide) clean
    simp only [costless_append, costless_cons]
    exact ⟨front.costless, inner, extras.costless, scanned.cost (by rw [ends]; decide),
      costless_nil⟩
  · rw [List.nil_append, List.cons_append, outline_root_of_expression front built extras ends]
    exact outline

end Spells

end Arithmetic

/-- The tokens that are scanned one after the other up to the end of the input, in at most `fuel`
scans and without the record of what was looked at. -/
def Context.tokens (context : Context) : Nat → Option (List Tree)
  | 0 => none
  | fuel + 1 =>
    match context.scanToken with
    | none => none
    | some (token, context) =>
      if token.info.isEnd then some []
      else ((context.consume token).tokens fuel).map (token.bare :: ·)

namespace Arithmetic

/-- The tokens of a text. -/
def tokens (text : Text) : Option (List Tree) :=
  (Context.new vocabulary program text [Span.whole] none 0).tokens (text.size + 1)

/-- The tokens that are no comments. -/
def solidTokens (tokens : List Tree) : List Tree := tokens.filter fun token => !token.info.extra

variable {text : Text}

/-- Scans from an offset on come to the end of the text and give its tokens. -/
theorem Stands.exists_tokens {older : Option Tree} {offset fuel : Nat} {record : List Event}
    {context : Context} (short : text.size < maxOffset)
    (stands : Stands text older offset none record context) (enough : text.size < fuel + offset) :
    ∃ tokens, context.tokens fuel = some tokens ∧ Spells text offset (solidTokens tokens) := by
  induction fuel generalizing offset record context with
  | zero =>
      have := stands.inside
      omega
  | succ fuel ih =>
      rcases stands.scanToken short with ⟨token, stop, scanner, operations, scanned, scan, at_⟩
      rw [Context.tokens, scan]
      dsimp only
      by_cases ends : token.info.symbol = endSymbol
      · refine ⟨[], by simp [Info.isEnd, ends], offset, [], offset, token, stop, ?_⟩
        exact ⟨.done, .done, scanned, ends⟩
      · have next : Stands text older offset none record { context with scanner, operations } :=
          ⟨stands.vocabulary_eq, stands.program_eq, stands.older_eq, stands.limit_eq,
            stands.running, stands.position_eq, stands.inside, ⟨stop, at_⟩, stands.lookahead_eq,
            stands.events_eq, by simp⟩
        have further := scanned.lt ends
        rcases ih (next.consume scanned) (by omega) with ⟨tokens, same, spells⟩
        refine ⟨token.bare :: tokens, by simp [Info.isEnd, ends, same], ?_⟩
        rcases spells with ⟨middle, comments, start, last, ending, solids, extras, ended⟩
        cases extra : token.info.extra with
        | false =>
            rw [solidTokens, List.filter_cons_of_pos (by simp [extra])]
            exact ⟨middle, comments, start, last, ending, .more .done scanned extra ends solids,
              extras, ended⟩
        | true =>
            rw [solidTokens, List.filter_cons_of_neg (by simp [extra])]
            cases found : tokens.filter fun token => !token.info.extra with
            | nil =>
                rw [solidTokens, found] at solids
                cases solids
                exact ⟨offset, _, start, last, ending, .done, .more scanned extra extras, ended⟩
            | cons first rest =>
                rw [solidTokens, found] at solids
                exact ⟨middle, comments, start, last, ending,
                  solids.after (.more scanned extra .done) (by simp), extras, ended⟩

mutual

theorem IsOperand.known {tokens : List Tree} {outline : Outline} :
    IsOperand tokens outline → ∀ token ∈ tokens, token.info.isError = false
  | .token single => by
    intro token member
    obtain rfl := List.mem_singleton.mp member
    rcases single with same | same <;> simp [Info.isError, same] <;> decide
  | .group opens inside closes => by
    simp only [List.forall_mem_cons, List.forall_mem_append]
    refine ⟨?_, inside.known, ?_⟩
    · simp [Info.isError, opens]
      decide
    · simp [Info.isError, closes]
      decide

theorem IsExpression.known {tokens : List Tree} {outline : Outline} :
    IsExpression tokens outline → ∀ token ∈ tokens, token.info.isError = false
  | .operands operand addends =>
    List.forall_mem_append.mpr ⟨operand.known, addends.known⟩

theorem Addends.known {left whole : Outline} {tokens : List Tree} :
    Addends left tokens whole → ∀ token ∈ tokens, token.info.isError = false
  | .done => by simp
  | .more adds operand rest => by
    refine List.forall_mem_cons.mpr ⟨?_, List.forall_mem_append.mpr ⟨operand.known, rest.known⟩⟩
    simp [Info.isError, adds]
    decide

end

/-- A parse from scratch has no error exactly if the tokens of the text, comments aside, are known
and make a sentence of the grammar. Its tree, without comments and the token that ends the input, is
then the outline of the sentence, in which sums associate to the left. -/
theorem hasError_eq_false_iff {parser : Parser} {identity : Nat} (unconfined : parser.Unconfined)
    (short : text.size < maxOffset) :
    ∃ parsed scanned,
      parser.parseIn (Language.arithmetic identity) text none = .ok parsed ∧
      tokens text = some scanned ∧
      (parsed.document.tree.info.hasError = false ↔
        (∀ token ∈ solidTokens scanned, token.info.isError = false) ∧
          ∃ outline, IsExpression (solidTokens scanned) outline) ∧
      ∀ outline, IsExpression (solidTokens scanned) outline →
        parsed.document.tree.outline = outline := by
  rcases @exists_derives_of_scratch parser identity text unconfined short with
    ⟨parsed, run, items, expressions, treeEq⟩
  rcases (stands_new short none).exists_tokens short (Nat.lt_succ_self text.size) with
    ⟨scanned, scan, spells⟩
  have clean : parsed.document.tree.info.hasError = false ↔
      (Tree.root vocabulary items).info.cost = 0 := by
    rw [treeEq]
    simp [Info.hasError]
  have sentence {outline : Outline} (sentence : IsExpression (solidTokens scanned) outline) :
      (Tree.root vocabulary items).info.cost = 0 ∧
        (Tree.root vocabulary items).outline = outline := by
    rcases sentence.expressions spells with ⟨others, again, costless, same⟩
    have alike : (Tree.root vocabulary items).bare = (Tree.root vocabulary others).bare := by
      rw [← Tree.bare_root, expressions.unique again, Tree.bare_root]
    constructor
    · have cost := congrArg (·.info.cost) alike
      simpa [costless] using cost
    · rw [← Tree.outline_bare, alike, Tree.outline_bare, same]
  refine ⟨parsed, scanned, run, scan, ?_, ?_⟩
  · rw [clean]
    constructor
    · intro costless
      rcases expressions.sentence costless with ⟨tokens, again, expression⟩
      rw [again.unique spells] at expression
      exact ⟨expression.known, _, expression⟩
    · rintro ⟨_, outline, expression⟩
      exact (sentence expression).1
  · intro outline expression
    rw [treeEq]
    exact (sentence expression).2

/-- The sum `(1+a)` with a comment behind it has six tokens, five of which are a sentence. -/
theorem hasError_eq_false_iff_sum :
    ∃ parsed scanned outline,
      Parser.new.parseIn (Language.arithmetic 0) #[40, 49, 43, 97, 41, 47, 47, 98] none =
        .ok parsed ∧
      tokens #[40, 49, 43, 97, 41, 47, 47, 98] = some scanned ∧ scanned.length = 6 ∧
      (solidTokens scanned).length = 5 ∧ parsed.document.tree.info.hasError = false ∧
      IsExpression (solidTokens scanned) outline ∧ parsed.document.tree.outline = outline := by
  have clean : (match Parser.new.parseIn (Language.arithmetic 0)
      #[40, 49, 43, 97, 41, 47, 47, 98] none with
    | .ok parsed => parsed.document.tree.info.hasError
    | .error _ => true) = false := by decide +kernel
  have lengths : (tokens #[40, 49, 43, 97, 41, 47, 47, 98]).map
      (fun scanned => (scanned.length, (solidTokens scanned).length)) = some (6, 5) := by
    decide +kernel
  rcases @hasError_eq_false_iff #[40, 49, 43, 97, 41, 47, 47, 98] Parser.new 0 ⟨rfl, rfl⟩
    (by decide) with ⟨parsed, scanned, run, scan, accepts, unique⟩
  rw [run] at clean
  simp only [scan, Option.map_some, Option.some.injEq, Prod.mk.injEq] at lengths
  rcases (accepts.mp clean).2 with ⟨outline, expression⟩
  exact ⟨parsed, scanned, outline, run, scan, lengths.1, lengths.2, clean, expression,
    unique outline expression⟩

end Arithmetic

end Reparse
