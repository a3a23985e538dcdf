import Reparse.Proofs.Arithmetic.Token

/-!
# The trees of the arithmetic language

`Arithmetic.Operand` says which trees are operands of a text, where they begin and where they end,
and `Arithmetic.Expressions` which trees a whole text consists of. Both follow the grammar, the
repair of what is missing included, but know nothing of the state of a parse: a text has one
derivation, whichever subtrees were taken over from another tree
(`Arithmetic.Expressions.unique`).
-/

namespace Reparse

namespace Tree

theorem bare_branch_congr {symbol state : Nat} {kind : SymbolKind} {items others : List (Edge Tree)}
    (same : bareAll items = bareAll others) :
    (branch symbol state kind items).bare = (branch symbol state kind others).bare := by
  rw [← bare_branch, same, bare_branch]

theorem bare_error_congr {tree other : Tree} (same : tree.bare = other.bare) :
    (error [⟨0, tree⟩]).bare = (error [⟨0, other⟩]).bare := by
  have alike : bareAll [⟨0, tree⟩] = bareAll [⟨0, other⟩] := by simp [same]
  rw [← isErasure_bare.error bare_branch, alike, isErasure_bare.error bare_branch]

end Tree

namespace Arithmetic

/-! ## The trees of the grammar -/

/-- A complete operand around its parts. -/
def operandTree (items : List (Edge Tree)) : Tree :=
  Tree.branch expressionSymbol operandState (vocabulary.kind expressionSymbol) items

/-- A sum in its expression. -/
def sumTree (items : List (Edge Tree)) : Tree :=
  Tree.branch expressionSymbol noState (vocabulary.kind expressionSymbol)
    [⟨0, Tree.branch sum noState (vocabulary.kind sum) items⟩]

theorem bare_sumTree_congr {items others : List (Edge Tree)}
    (same : Tree.bareAll items = Tree.bareAll others) : (sumTree items).bare = (sumTree others).bare := by
  apply Tree.bare_branch_congr
  simp only [Tree.bareAll_cons, Tree.bareAll_nil]
  rw [Tree.bare_branch_congr same]

/-- An expression that is only a missing number. -/
def missingTree : Tree :=
  Tree.branch expressionSymbol noState (vocabulary.kind expressionSymbol)
    [⟨0, Tree.missing number (vocabulary.kind number)⟩]

/-- Whether an operand begins with a token of the symbol. -/
def OpensOperand (symbol : Nat) : Prop :=
  symbol = number ∨ symbol = variableName ∨ symbol = leftParenthesis

/-- No operand begins at an offset. -/
def NoOperand (text : Text) (offset : Nat) : Prop :=
  ∃ symbol, Ahead text offset symbol ∧ ¬OpensOperand symbol

/-- The parenthesis that ends a group, which may be missing. -/
inductive Closes (text : Text) (offset : Nat) : Tree → Nat → Prop where
  | found {token : Tree} {stop : Nat} (scanned : Scanned text offset token stop)
      (closes : token.info.symbol = rightParenthesis) : Closes text offset token stop
  | missing {symbol : Nat} (ahead : Ahead text offset symbol) (other : symbol ≠ rightParenthesis) :
      Closes text offset
        (Tree.missing rightParenthesis (vocabulary.kind rightParenthesis)) offset

mutual

/-- An operand stands from an offset up to a stop. -/
inductive Operand (text : Text) : Nat → Tree → Nat → Prop where
  | token {offset stop : Nat} {token : Tree} (scanned : Scanned text offset token stop)
      (single : token.info.symbol = number ∨ token.info.symbol = variableName) :
      Operand text offset (operandTree [⟨0, token⟩]) stop
  | group {offset inner last stop : Nat} {opening closing : Tree} {items : List (Edge Tree)}
      (opened : Scanned text offset opening inner)
      (opens : opening.info.symbol = leftParenthesis) (inside : Inside text inner items last)
      (closes : Closes text last closing stop) :
      Operand text offset (operandTree (⟨0, opening⟩ :: (items ++ [⟨0, closing⟩]))) stop

/-- What stands inside a group. -/
inductive Inside (text : Text) : Nat → List (Edge Tree) → Nat → Prop where
  | filled {offset start middle stop : Nat} {comments items : List (Edge Tree)} {left : Tree}
      (extras : Extras text offset comments start) (first : Operand text start left middle)
      (sums : Sums text left middle items stop) : Inside text offset (comments ++ items) stop
  | empty {offset start : Nat} {comments : List (Edge Tree)}
      (extras : Extras text offset comments start) (nothing : NoOperand text start) :
      Inside text offset (comments ++ [⟨0, missingTree⟩]) start

/-- What the operands after a complete expression, which ends at an offset, make of it. -/
inductive Sums (text : Text) : Tree → Nat → List (Edge Tree) → Nat → Prop where
  | done {offset stop symbol : Nat} {left : Tree} {comments : List (Edge Tree)}
      (extras : Extras text offset comments stop) (ahead : Ahead text stop symbol)
      (other : symbol ≠ plus) : Sums text left offset (⟨0, left⟩ :: comments) stop
  | more {offset start inner middle stop : Nat} {left token : Tree}
      {comments addend items : List (Edge Tree)} (extras : Extras text offset comments start)
      (scanned : Scanned text start token inner) (adds : token.info.symbol = plus)
      (right : Right text inner addend middle)
      (rest : Sums text (sumTree (⟨leftField, left⟩ :: (comments ++ ⟨0, token⟩ :: addend))) middle
        items stop) : Sums text left offset items stop

/-- The operand that is added, which may be missing. -/
inductive Right (text : Text) : Nat → List (Edge Tree) → Nat → Prop where
  | found {offset start stop : Nat} {comments : List (Edge Tree)} {tree : Tree}
      (extras : Extras text offset comments start) (operand : Operand text start tree stop) :
      Right text offset (comments ++ [⟨rightField, tree⟩]) stop
  | missing {offset start : Nat} {comments : List (Edge Tree)}
      (extras : Extras text offset comments start) (nothing : NoOperand text start) :
      Right text offset (comments ++ [⟨rightField, missingTree⟩]) start

end

/-- The trees from an offset up to the end of a text, with the token that ends it. -/
inductive Expressions (text : Text) : Nat → List (Edge Tree) → Prop where
  | ended {offset start stop : Nat} {comments : List (Edge Tree)} {token : Tree}
      (extras : Extras text offset comments start) (scanned : Scanned text start token stop)
      (ends : token.info.symbol = endSymbol) : Expressions text offset (comments ++ [⟨0, token⟩])
  | expression {offset start middle next : Nat} {comments items rest : List (Edge Tree)}
      {left : Tree} (extras : Extras text offset comments start)
      (first : Operand text start left middle) (sums : Sums text left middle items next)
      (later : Expressions text next rest) :
      Expressions text offset (comments ++ (items ++ rest))
  | skipped {offset start next : Nat} {comments rest : List (Edge Tree)} {token : Tree}
      (extras : Extras text offset comments start) (scanned : Scanned text start token next)
      (solid : token.info.extra = false) (more : token.info.symbol ≠ endSymbol)
      (other : ¬OpensOperand token.info.symbol) (later : Expressions text next rest) :
      Expressions text offset (comments ++ ⟨0, Tree.error [⟨0, token⟩]⟩ :: rest)

/-! ## Where operands begin and end -/

section Ends

variable {text : Text} {offset stop : Nat}

/-- A token of another symbol than a comment's is no extra. -/
theorem Scanned.solid {token : Tree} (scanned : Scanned text offset token stop)
    (other : token.info.symbol ≠ comment) : token.info.extra = false := by
  cases extra : token.info.extra with
  | false => rfl
  | true => exact absurd (scanned.of_extra extra) other

theorem Scanned.ahead {token : Tree} (scanned : Scanned text offset token stop)
    (other : token.info.symbol ≠ comment) : Ahead text offset token.info.symbol :=
  ⟨token, stop, scanned, rfl, scanned.solid other⟩

theorem Closes.le {closing : Tree} (closes : Closes text offset closing stop) : offset ≤ stop := by
  cases closes with
  | found scanned => exact scanned.le
  | missing => exact Nat.le_refl _

mutual

theorem Operand.lt {offset stop : Nat} {tree : Tree} :
    Operand text offset tree stop → offset < stop
  | .token scanned single => scanned.lt (by rcases single with same | same <;> rw [same] <;> decide)
  | .group opened opens inside closes => by
    have first := opened.lt (by rw [opens]; decide)
    have second := inside.le
    have third := closes.le
    omega
termination_by structural operand => operand

theorem Inside.le {offset stop : Nat} {items : List (Edge Tree)} :
    Inside text offset items stop → offset ≤ stop
  | .filled extras first sums =>
    Nat.le_trans extras.le (Nat.le_trans (Nat.le_of_lt first.lt) sums.le)
  | .empty extras _ => extras.le
termination_by structural inside => inside

theorem Sums.le {offset stop : Nat} {left : Tree} {items : List (Edge Tree)} :
    Sums text left offset items stop → offset ≤ stop
  | .done extras _ _ => extras.le
  | .more extras scanned _ right rest =>
    Nat.le_trans extras.le (Nat.le_trans scanned.le (Nat.le_trans right.le rest.le))
termination_by structural sums => sums

theorem Right.le {offset stop : Nat} {items : List (Edge Tree)} :
    Right text offset items stop → offset ≤ stop
  | .found extras operand => Nat.le_trans extras.le (Nat.le_of_lt operand.lt)
  | .missing extras _ => extras.le
termination_by structural right => right

end

/-- An operand begins with a token that opens one and is no extra. Its padding is that token's. -/
theorem Operand.first {tree : Tree} (operand : Operand text offset tree stop) :
    ∃ token inner, Scanned text offset token inner ∧ inner ≤ stop ∧
      OpensOperand token.info.symbol ∧ token.info.extra = false ∧
      tree.info.padding = token.info.padding := by
  cases operand with
  | @token _ _ token scanned single =>
      refine ⟨token, stop, scanned, Nat.le_refl _, ?_, scanned.solid ?_, rfl⟩
      · rcases single with same | same
        · exact Or.inl same
        · exact Or.inr (Or.inl same)
      · rcases single with same | same <;> rw [same] <;> decide
  | @group _ inner last _ opening _ _ opened opens inside closes =>
      refine ⟨opening, inner, opened, Nat.le_trans inside.le closes.le, Or.inr (Or.inr opens),
        opened.solid ?_, rfl⟩
      rw [opens]
      decide

theorem Operand.ahead {tree : Tree} (operand : Operand text offset tree stop) :
    ∃ symbol, Ahead text offset symbol ∧ OpensOperand symbol := by
  rcases operand.first with ⟨token, inner, scanned, _, opens, solid, _⟩
  exact ⟨_, ⟨token, inner, scanned, rfl, solid⟩, opens⟩

theorem known_of_opensOperand {symbol : Nat} (opens : OpensOperand symbol) :
    1 ≤ symbol ∧ symbol ≤ 6 := by
  rcases opens with same | same | same <;> rw [same] <;> decide

theorem known_of_single {symbol : Nat} (single : symbol = number ∨ symbol = variableName) :
    1 ≤ symbol ∧ symbol ≤ 6 := by
  rcases single with same | same <;> rw [same] <;> decide

theorem NoOperand.not_ahead (nothing : NoOperand text offset) {symbol : Nat}
    (ahead : Ahead text offset symbol) (opens : OpensOperand symbol) : False := by
  rcases nothing with ⟨other, aheadOther, closed⟩
  rw [ahead.unique aheadOther] at opens
  exact closed opens

end Ends

/-! ## Alike texts have alike derivations -/

section Alike

variable {text other : Text} {source target bound last start otherStart stop otherStop : Nat}
  {comments others : List (Edge Tree)} {tree again : Tree}

theorem Extras.alike_operand (extras : Extras text source comments start)
    (operand : Operand text start tree stop)
    (along : Alongside text other source target bound last) (back : target = 0 → source = 0)
    (inside : start ≤ bound) (extrasAgain : Extras other target others otherStart)
    (operandAgain : Operand other otherStart again otherStop) (insideAgain : otherStart ≤ last) :
    Tree.bareAll comments = Tree.bareAll others ∧ otherStart + source = start + target := by
  rcases operand.ahead with ⟨_, ahead, _⟩
  rcases operandAgain.ahead with ⟨_, aheadAgain, _⟩
  exact extras.alike along back ahead inside extrasAgain aheadAgain insideAgain

theorem Extras.alike_noOperand (extras : Extras text source comments start)
    (nothing : NoOperand text start) (along : Alongside text other source target bound last)
    (back : target = 0 → source = 0) (inside : start ≤ bound)
    (extrasAgain : Extras other target others otherStart)
    (nothingAgain : NoOperand other otherStart) (insideAgain : otherStart ≤ last) :
    Tree.bareAll comments = Tree.bareAll others ∧ otherStart + source = start + target := by
  rcases nothing with ⟨_, ahead, _⟩
  rcases nothingAgain with ⟨_, aheadAgain, _⟩
  exact extras.alike along back ahead inside extrasAgain aheadAgain insideAgain

/-- Behind the same extras there is an operand in both texts or in none. -/
theorem Extras.not_both_alongside (extras : Extras text source comments start)
    (operand : Operand text start tree stop)
    (along : Alongside text other source target bound last) (back : target = 0 → source = 0)
    (inside : stop ≤ bound) (extrasAgain : Extras other target others otherStart)
    (nothing : NoOperand other otherStart) (insideAgain : otherStart ≤ last) : False := by
  rcases operand.first with ⟨token, inner, scanned, within, opens, solid, _⟩
  have again := nothing
  rcases again with ⟨_, aheadAgain, _⟩
  have near := Nat.le_trans scanned.le (Nat.le_trans within inside)
  rcases extras.alike along back ⟨token, inner, scanned, rfl, solid⟩ near extrasAgain aheadAgain
    insideAgain with ⟨_, moved⟩
  rcases scanned.alongside (along.later extras.le moved) (known_of_opensOperand opens)
    (Nat.le_trans within inside) with ⟨image, _, there⟩
  exact nothing.not_ahead ⟨token, image, there, rfl, solid⟩ opens

theorem Closes.alike {closing closingAgain : Tree} (closes : Closes text source closing stop)
    (along : Alongside text other source target bound last) (back : target = 0 → source = 0)
    (inside : stop ≤ bound) (closesAgain : Closes other target closingAgain otherStop)
    (insideAgain : otherStop ≤ last) :
    closing.bare = closingAgain.bare ∧ otherStop + source = stop + target := by
  cases closes with
  | found scanned closes =>
      have known : 1 ≤ closing.info.symbol ∧ closing.info.symbol ≤ 6 := by
        rw [closes]
        decide
      cases closesAgain with
      | found scannedAgain => exact scanned.alike along known inside scannedAgain
      | missing ahead other =>
          rcases scanned.alongside along known inside with ⟨_, _, there⟩
          have here := there.ahead (by rw [closes]; decide)
          rw [closes] at here
          exact absurd (ahead.unique here) other
  | missing ahead other =>
      cases closesAgain with
      | found scanned closes =>
          rcases scanned.alongside (along.symm back) (by rw [closes]; decide) insideAgain with
            ⟨_, _, there⟩
          have here := there.ahead (by rw [closes]; decide)
          rw [closes] at here
          exact absurd (ahead.unique here) other
      | missing => exact ⟨rfl, Nat.add_comm _ _⟩

theorem Scanned.symbol_alongside {token opening : Tree} {inner : Nat}
    (along : Alongside text other source target bound last) (scanned : Scanned text source token stop)
    (known : 1 ≤ token.info.symbol ∧ token.info.symbol ≤ 6) (inside : stop ≤ bound)
    (opened : Scanned other target opening inner) :
    token.info.symbol = opening.info.symbol := by
  rcases scanned.alongside along known inside with ⟨_, _, there⟩
  exact (there.unique_symbol opened).1

mutual

/-- Where two texts read alike they have the same operands. -/
theorem Operand.alike {source target stop otherStop : Nat} {tree again : Tree} :
    Operand text source tree stop → Alongside text other source target bound last → stop ≤ bound →
      Operand other target again otherStop → otherStop ≤ last →
        tree.bare = again.bare ∧ otherStop + source = stop + target
  | .token scanned single, along, inside, .token scannedAgain _, _ => by
    rcases scanned.alike along (known_of_single single) inside scannedAgain with ⟨same, moved⟩
    exact ⟨Tree.bare_branch_congr (by simp [same]), moved⟩
  | .token scanned single, along, inside, .group opened opens _ _, _ => by
    rw [scanned.symbol_alongside along (known_of_single single) inside opened, opens] at single
    exact absurd single (by decide)
  | .group opened opens content closes, along, inside, .token scanned single, _ => by
    have near := Nat.le_trans content.le (Nat.le_trans closes.le inside)
    rw [← opened.symbol_alongside along (by rw [opens]; decide) near scanned, opens] at single
    exact absurd single (by decide)
  | .group opened opens content closes, along, inside,
      .group openedAgain _ contentAgain closesAgain, insideAgain => by
    have before := Nat.le_trans closes.le inside
    have beforeAgain := Nat.le_trans closesAgain.le insideAgain
    have wide := opened.lt (by rw [opens]; decide)
    rcases opened.alike along (by rw [opens]; decide) (Nat.le_trans content.le before)
      openedAgain with ⟨sameOpening, innerMoved⟩
    rcases content.alike (along.later opened.le innerMoved) (fun zero => by omega) before
      contentAgain beforeAgain with ⟨sameItems, lastMoved⟩
    have along := (along.later opened.le innerMoved).later content.le lastMoved
    have later := content.le
    rcases closes.alike along (fun zero => by omega) inside closesAgain insideAgain with
      ⟨sameClosing, moved⟩
    exact ⟨Tree.bare_branch_congr (by simp [sameOpening, sameItems, sameClosing]), by omega⟩
termination_by structural operand => operand

theorem Inside.alike {source target stop otherStop : Nat} {items others : List (Edge Tree)} :
    Inside text source items stop → Alongside text other source target bound last →
      (target = 0 → source = 0) → stop ≤ bound → Inside other target others otherStop →
        otherStop ≤ last →
          Tree.bareAll items = Tree.bareAll others ∧ otherStop + source = stop + target
  | .filled extras first sums, along, back, inside, .filled extrasAgain firstAgain sumsAgain,
      insideAgain => by
    have before := Nat.le_trans sums.le inside
    have beforeAgain := Nat.le_trans sumsAgain.le insideAgain
    rcases extras.alike_operand first along back (Nat.le_trans (Nat.le_of_lt first.lt) before)
      extrasAgain firstAgain (Nat.le_trans (Nat.le_of_lt firstAgain.lt) beforeAgain) with
      ⟨sameExtras, startMoved⟩
    have along := along.later extras.le startMoved
    rcases first.alike along before firstAgain beforeAgain with ⟨sameFirst, middleMoved⟩
    have wide := first.lt
    have along := along.later (Nat.le_of_lt wide) middleMoved
    rcases sums.alike sameFirst along (fun zero => by omega) inside sumsAgain insideAgain with
      ⟨sameItems, moved⟩
    exact ⟨by simp [sameExtras, sameItems], by omega⟩
  | .filled extras first sums, along, back, inside, .empty extrasAgain nothing, insideAgain => by
    have before := Nat.le_trans sums.le inside
    exact (extras.not_both_alongside first along back before extrasAgain nothing insideAgain).elim
  | .empty extras nothing, along, back, inside, .filled extrasAgain first sums, insideAgain => by
    have before := Nat.le_trans sums.le insideAgain
    exact (extrasAgain.not_both_alongside first (along.symm back) along.beginning before extras
      nothing inside).elim
  | .empty extras nothing, along, back, inside, .empty extrasAgain nothingAgain, insideAgain => by
    rcases extras.alike_noOperand nothing along back inside extrasAgain nothingAgain insideAgain
      with ⟨sameExtras, moved⟩
    exact ⟨by simp [sameExtras], moved⟩
termination_by structural inside => inside

theorem Sums.alike {source target stop otherStop : Nat} {left right : Tree}
    {items others : List (Edge Tree)} :
    Sums text left source items stop → left.bare = right.bare →
      Alongside text other source target bound last → (target = 0 → source = 0) → stop ≤ bound →
        Sums other right target others otherStop → otherStop ≤ last →
          Tree.bareAll items = Tree.bareAll others ∧ otherStop + source = stop + target
  | .done extras ahead _, same, along, back, inside, .done extrasAgain aheadAgain _,
      insideAgain => by
    rcases extras.alike along back ahead inside extrasAgain aheadAgain insideAgain with
      ⟨sameExtras, moved⟩
    exact ⟨by simp [sameExtras, same], moved⟩
  | .done extras ahead other, _, along, back, inside, .more extrasAgain scanned adds right rest,
      insideAgain => by
    have near := Nat.le_trans right.le (Nat.le_trans rest.le insideAgain)
    have here := scanned.ahead (by rw [adds]; decide)
    rcases extras.alike along back ahead inside extrasAgain here (Nat.le_trans scanned.le near) with
      ⟨_, moved⟩
    have along := (along.symm back).later extrasAgain.le moved.symm
    rcases scanned.alongside along (by rw [adds]; decide) near with ⟨_, _, there⟩
    exact absurd ((ahead.unique (there.ahead (by rw [adds]; decide))).trans adds) other
  | .more extras scanned adds right rest, _, along, back, inside, .done extrasAgain ahead other,
      insideAgain => by
    have near := Nat.le_trans right.le (Nat.le_trans rest.le inside)
    have here := scanned.ahead (by rw [adds]; decide)
    rcases extras.alike along back here (Nat.le_trans scanned.le near) extrasAgain ahead
      insideAgain with ⟨_, moved⟩
    have along := along.later extras.le moved
    rcases scanned.alongside along (by rw [adds]; decide) near with ⟨_, _, there⟩
    exact absurd ((ahead.unique (there.ahead (by rw [adds]; decide))).trans adds) other
  | .more extras scanned adds right rest, same, along, back, inside, .more extrasAgain scannedAgain
      addsAgain rightAgain restAgain, insideAgain => by
    have before := Nat.le_trans rest.le inside
    have near := Nat.le_trans right.le before
    have beforeAgain := Nat.le_trans restAgain.le insideAgain
    have nearAgain := Nat.le_trans rightAgain.le beforeAgain
    have here := scanned.ahead (by rw [adds]; decide)
    have hereAgain := scannedAgain.ahead (by rw [addsAgain]; decide)
    have wide := scanned.lt (by rw [adds]; decide)
    rcases extras.alike along back here (Nat.le_trans scanned.le near) extrasAgain hereAgain
      (Nat.le_trans scannedAgain.le nearAgain) with ⟨sameExtras, startMoved⟩
    have along := along.later extras.le startMoved
    rcases scanned.alike along (by rw [adds]; decide) near scannedAgain with
      ⟨sameToken, innerMoved⟩
    have along := along.later scanned.le innerMoved
    rcases right.alike along (fun zero => by omega) before rightAgain beforeAgain with
      ⟨sameRight, middleMoved⟩
    have along := along.later right.le middleMoved
    have further := right.le
    rcases rest.alike (bare_sumTree_congr (by simp [same, sameExtras, sameToken, sameRight])) along
      (fun zero => by omega) inside restAgain insideAgain with ⟨sameItems, moved⟩
    exact ⟨sameItems, by omega⟩
termination_by structural sums => sums

theorem Right.alike {source target stop otherStop : Nat} {items others : List (Edge Tree)} :
    Right text source items stop → Alongside text other source target bound last →
      (target = 0 → source = 0) → stop ≤ bound → Right other target others otherStop →
        otherStop ≤ last →
          Tree.bareAll items = Tree.bareAll others ∧ otherStop + source = stop + target
  | .found extras operand, along, back, inside, .found extrasAgain operandAgain, insideAgain => by
    rcases extras.alike_operand operand along back
      (Nat.le_trans (Nat.le_of_lt operand.lt) inside) extrasAgain operandAgain
      (Nat.le_trans (Nat.le_of_lt operandAgain.lt) insideAgain) with ⟨sameExtras, startMoved⟩
    rcases operand.alike (along.later extras.le startMoved) inside operandAgain insideAgain with
      ⟨same, moved⟩
    exact ⟨by simp [sameExtras, same], by omega⟩
  | .found extras operand, along, back, inside, .missing extrasAgain nothing, insideAgain => by
    exact (extras.not_both_alongside operand along back inside extrasAgain nothing
      insideAgain).elim
  | .missing extras nothing, along, back, inside, .found extrasAgain operand, insideAgain => by
    exact (extrasAgain.not_both_alongside operand (along.symm back) along.beginning insideAgain
      extras nothing inside).elim
  | .missing extras nothing, along, back, inside, .missing extrasAgain nothingAgain,
      insideAgain => by
    rcases extras.alike_noOperand nothing along back inside extrasAgain nothingAgain insideAgain
      with ⟨sameExtras, moved⟩
    exact ⟨by simp [sameExtras], moved⟩
termination_by structural right => right

end

end Alike

/-! ## A text has one derivation -/

section Unique

variable {text : Text} {offset stop : Nat}

theorem Extras.unique_operand {start other last : Nat} {comments others : List (Edge Tree)}
    {tree again : Tree} (extras : Extras text offset comments start)
    (operand : Operand text start tree stop) (extrasAgain : Extras text offset others other)
    (operandAgain : Operand text other again last) :
    Tree.bareAll comments = Tree.bareAll others ∧ start = other := by
  rcases operand.ahead with ⟨_, ahead, _⟩
  rcases operandAgain.ahead with ⟨_, aheadAgain, _⟩
  exact extras.unique ahead extrasAgain aheadAgain

/-- Behind the same extras there is an operand or there is none. -/
theorem Extras.not_both {start other : Nat} {comments others : List (Edge Tree)} {tree : Tree}
    (extras : Extras text offset comments start) (operand : Operand text start tree stop)
    (extrasAgain : Extras text offset others other) (nothing : NoOperand text other) : False :=
  extras.not_both_alongside operand (.self text offset (max stop other)) id (Nat.le_max_left _ _)
    extrasAgain nothing (Nat.le_max_right _ _)

theorem Operand.unique {last : Nat} {tree again : Tree} (operand : Operand text offset tree stop)
    (operandAgain : Operand text offset again last) : tree.bare = again.bare ∧ stop = last := by
  rcases operand.alike (.self text offset (max stop last)) (Nat.le_max_left _ _) operandAgain
    (Nat.le_max_right _ _) with ⟨same, moved⟩
  exact ⟨same, by omega⟩

theorem Sums.unique {last : Nat} {left other : Tree} {items others : List (Edge Tree)}
    (sums : Sums text left offset items stop) (same : left.bare = other.bare)
    (sumsAgain : Sums text other offset others last) :
    Tree.bareAll items = Tree.bareAll others ∧ stop = last := by
  rcases sums.alike same (.self text offset (max stop last)) id (Nat.le_max_left _ _) sumsAgain
    (Nat.le_max_right _ _) with ⟨alike, moved⟩
  exact ⟨alike, by omega⟩

theorem not_opensOperand_end : ¬OpensOperand endSymbol := by
  unfold OpensOperand
  decide

theorem Expressions.unique {items others : List (Edge Tree)}
    (expressions : Expressions text offset items) (again : Expressions text offset others) :
    Tree.bareAll items = Tree.bareAll others := by
  induction expressions generalizing others with
  | ended extras scanned ends =>
      have ahead := scanned.ahead (by rw [ends]; decide)
      cases again with
      | ended extrasAgain scannedAgain endsAgain =>
          have aheadAgain := scannedAgain.ahead (by rw [endsAgain]; decide)
          rcases extras.unique ahead extrasAgain aheadAgain with ⟨sameExtras, rfl⟩
          simp [sameExtras, (scanned.unique scannedAgain).1]
      | expression extrasAgain first =>
          rw [ends] at ahead
          exact (extrasAgain.not_both first extras ⟨_, ahead, not_opensOperand_end⟩).elim
      | skipped extrasAgain scannedAgain solid more =>
          rcases extras.unique ahead extrasAgain ⟨_, _, scannedAgain, rfl, solid⟩ with ⟨_, rfl⟩
          rw [← (scanned.unique_symbol scannedAgain).1] at more
          exact absurd ends more
  | expression extras first sums _ ih =>
      cases again with
      | ended extrasAgain scanned ends =>
          have ahead := scanned.ahead (by rw [ends]; decide)
          rw [ends] at ahead
          exact (extras.not_both first extrasAgain ⟨_, ahead, not_opensOperand_end⟩).elim
      | expression extrasAgain firstAgain sumsAgain later =>
          rcases extras.unique_operand first extrasAgain firstAgain with ⟨sameExtras, rfl⟩
          rcases first.unique firstAgain with ⟨sameFirst, rfl⟩
          rcases sums.unique sameFirst sumsAgain with ⟨sameItems, rfl⟩
          simp [sameExtras, sameItems, ih later]
      | skipped extrasAgain scanned solid _ other =>
          exact (extras.not_both first extrasAgain ⟨_, ⟨_, _, scanned, rfl, solid⟩, other⟩).elim
  | skipped extras scanned solid more other _ ih =>
      cases again with
      | ended extrasAgain scannedAgain ends =>
          have ahead := scannedAgain.ahead (by rw [ends]; decide)
          rcases extras.unique ⟨_, _, scanned, rfl, solid⟩ extrasAgain ahead with ⟨_, rfl⟩
          rw [(scanned.unique_symbol scannedAgain).1] at more
          exact absurd ends more
      | expression extrasAgain first =>
          exact (extrasAgain.not_both first extras ⟨_, ⟨_, _, scanned, rfl, solid⟩, other⟩).elim
      | skipped extrasAgain scannedAgain solidAgain _ _ later =>
          rcases extras.unique ⟨_, _, scanned, rfl, solid⟩ extrasAgain
            ⟨_, _, scannedAgain, rfl, solidAgain⟩ with ⟨sameExtras, rfl⟩
          rcases scanned.unique scannedAgain with ⟨sameToken, rfl⟩
          simp [sameExtras, Tree.bare_error_congr sameToken, ih later]

end Unique

end Arithmetic

end Reparse
