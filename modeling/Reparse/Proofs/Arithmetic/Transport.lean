import Reparse.Proofs.Arithmetic.Parts
import Reparse.Proofs.Tree.Families

/-!
# Operands stand wherever their text does

An operand without an error in it is an operand of every other text that has its bytes and the byte
behind it (`Arithmetic.Operand.along`). That byte is among those that its scan is on record to have
looked at, whether or not something is missing in the operand (`Arithmetic.Operand.looks`).
-/

namespace Reparse

namespace Tree

theorem foldl_sum_eq_zero (quantity : Tree → Nat) {children : List (Edge Tree)} {sum : Nat}
    (zero : children.foldl (fun sum edge => sum + quantity edge.tree) sum = 0) :
    sum = 0 ∧ ∀ edge ∈ children, quantity edge.tree = 0 := by
  induction children generalizing sum with
  | nil => exact ⟨zero, by simp⟩
  | cons edge rest ih =>
      rcases ih zero with ⟨first, others⟩
      dsimp only at first
      exact ⟨by omega, List.forall_mem_cons.mpr ⟨by omega, others⟩⟩

/-- The tree has no text, or its scan looked at the byte behind it. -/
def Looks (tree : Tree) : Prop := 0 < tree.total.bytes → 0 < tree.info.lookahead

/-- Trees laid end to end look past their end if they have text and each of them looks. -/
theorem lt_lookaheadEnd {items : List (Edge Tree)} (looks : Among Looks items)
    (wide : 0 < widthOf items) (start : Nat) : start + widthOf items < lookaheadEnd start items := by
  induction items generalizing start with
  | nil => simp at wide
  | cons edge rest ih =>
      rcases edge with ⟨field, tree⟩
      rcases among_cons.mp looks with ⟨here, later⟩
      rw [widthOf_cons] at wide
      simp only [widthOf_cons, lookaheadEnd]
      by_cases behind : 0 < widthOf rest
      · have := ih later behind (start + tree.total.bytes)
        omega
      · have := here (by dsimp only; omega)
        dsimp only at this
        omega

theorem looks_branch {symbol state : Nat} {kind : SymbolKind} {items : List (Edge Tree)}
    (looks : Among Looks items) : (branch symbol state kind items).Looks := by
  intro wide
  have width := bytes_paddingOf_add_sizeOf items
  have total : (branch symbol state kind items).total.bytes = widthOf items := width
  rw [total] at wide
  have far := lt_lookaheadEnd looks wide 0
  simp only [branch, info_node, Info.plain]
  omega

end Tree

namespace Arithmetic

open Reparse.Tree (Among)

/-- There is no error in any of the trees. -/
def Costless (items : List (Edge Tree)) : Prop := ∀ edge ∈ items, edge.tree.info.cost = 0

theorem costless_nil : Costless [] := by simp [Costless]

theorem costless_append {left right : List (Edge Tree)} :
    Costless (left ++ right) ↔ Costless left ∧ Costless right := by
  simp [Costless, or_imp, forall_and]

theorem costless_cons {edge : Edge Tree} {rest : List (Edge Tree)} :
    Costless (edge :: rest) ↔ edge.tree.info.cost = 0 ∧ Costless rest := by
  simp [Costless]

/-- There is an error in a node of a symbol if there is one below. -/
theorem costless_of_branch {symbol state : Nat} {kind : SymbolKind} {items : List (Edge Tree)}
    (regular : symbol ≠ errorSymbol)
    (clean : (Tree.branch symbol state kind items).info.cost = 0) : Costless items := by
  simp only [Tree.branch, Tree.info_node, regular, if_false] at clean
  exact (Tree.foldl_sum_eq_zero (·.info.cost) clean).2

theorem costless_of_sumTree {items : List (Edge Tree)} (clean : (sumTree items).info.cost = 0) :
    Costless items := by
  have whole : Costless [⟨0, Tree.branch sum noState (vocabulary.kind sum) items⟩] :=
    costless_of_branch (by decide) clean
  exact costless_of_branch (by decide) (whole _ (List.mem_singleton_self _))

theorem cost_missingTree : missingTree.info.cost ≠ 0 := by decide

/-! ## Families of operands -/

/-- The tokens of operands and missing tokens are in the family, and with some trees also the nodes
that the grammar puts around them. -/
structure IsOperandFamily (text : Text) (family : Tree → Prop) : Prop where
  token {offset stop : Nat} {token : Tree} (scanned : Scanned text offset token stop)
    (known : 1 ≤ token.info.symbol ∧ token.info.symbol ≤ 6) : family token
  missing (symbol : Nat) (kind : SymbolKind) : family (Tree.missing symbol kind)
  branch {symbol state : Nat} {kind : SymbolKind} {items : List (Edge Tree)}
    (staged : state = noState ∨ state = operandState) (among : Among family items) :
    family (Tree.branch symbol state kind items)

section Family

variable {text : Text} {offset stop : Nat} {family : Tree → Prop}

theorem IsOperandFamily.missingTree (closed : IsOperandFamily text family) : family missingTree := by
  apply closed.branch (Or.inl rfl)
  simpa using closed.missing number (vocabulary.kind number)

theorem IsOperandFamily.sumTree (closed : IsOperandFamily text family) {items : List (Edge Tree)}
    (among : Among family items) : family (sumTree items) := by
  apply closed.branch (Or.inl rfl)
  simpa using closed.branch (Or.inl rfl) among

theorem Extras.in_family (closed : IsOperandFamily text family) {comments : List (Edge Tree)}
    (extras : Extras text offset comments stop) : Among family comments := by
  induction extras with
  | done => exact Tree.among_nil
  | more scanned extra _ ih =>
      exact Tree.among_cons.mpr ⟨closed.token scanned (scanned.known_of_extra extra), ih⟩

theorem Closes.in_family (closed : IsOperandFamily text family) {closing : Tree}
    (closes : Closes text offset closing stop) : family closing := by
  cases closes with
  | found scanned closes => exact closed.token scanned (by rw [closes]; decide)
  | missing => exact closed.missing _ _

mutual

theorem Operand.in_family (closed : IsOperandFamily text family) {offset stop : Nat} {tree : Tree} :
    Operand text offset tree stop → family tree
  | .token scanned single => by
    apply closed.branch (Or.inr rfl)
    simpa using closed.token scanned (known_of_single single)
  | .group opened opens inside closes => by
    apply closed.branch (Or.inr rfl)
    have opening := closed.token opened (by rw [opens]; decide)
    have items := inside.in_family closed
    have closing := closes.in_family closed
    simpa using ⟨opening, items, closing⟩
termination_by structural operand => operand

theorem Inside.in_family (closed : IsOperandFamily text family) {offset stop : Nat}
    {items : List (Edge Tree)} : Inside text offset items stop → Among family items
  | .filled extras first sums => by
    have items := sums.in_family closed (first.in_family closed)
    exact Tree.among_append.mpr ⟨extras.in_family closed, items⟩
  | .empty extras _ => by
    simpa using ⟨extras.in_family closed, closed.missingTree⟩
termination_by structural inside => inside

theorem Sums.in_family (closed : IsOperandFamily text family) {offset stop : Nat} {left : Tree}
    {items : List (Edge Tree)} :
    Sums text left offset items stop → family left → Among family items
  | .done extras _ _, here => Tree.among_cons.mpr ⟨here, extras.in_family closed⟩
  | .more extras scanned adds right rest, here => by
    apply rest.in_family closed
    have comments := extras.in_family closed
    have token := closed.token scanned (by rw [adds]; decide)
    have addend := right.in_family closed
    exact closed.sumTree (by simpa using ⟨here, comments, token, addend⟩)
termination_by structural sums => sums

theorem Right.in_family (closed : IsOperandFamily text family) {offset stop : Nat}
    {items : List (Edge Tree)} : Right text offset items stop → Among family items
  | .found extras operand => by
    simpa using ⟨extras.in_family closed, operand.in_family closed⟩
  | .missing extras _ => by
    simpa using ⟨extras.in_family closed, closed.missingTree⟩
termination_by structural right => right

end

theorem isOperandFamily_looks (text : Text) : IsOperandFamily text Tree.Looks where
  token scanned known _ := scanned.looks known
  missing _ _ := nofun
  branch _ := Tree.looks_branch

/-- The scan of an operand looked at the byte behind it. -/
theorem Operand.looks {tree : Tree} (operand : Operand text offset tree stop) :
    0 < tree.info.lookahead := by
  apply operand.in_family (isOperandFamily_looks text)
  have := operand.part.bytes_total
  have := operand.lt
  omega

end Family

section Mirrors

variable {text other : Text} {source target bound : Nat}

theorem Scanned.along (mirrors : text.Mirrors other source target bound)
    (beginning : source = 0 → target = 0) {offset stop image imageStop : Nat} {token : Tree}
    (scanned : Scanned text offset token stop)
    (known : 1 ≤ token.info.symbol ∧ token.info.symbol ≤ 6) (begun : source ≤ offset)
    (inside : stop ≤ bound) (moved : image + source = offset + target)
    (stopMoved : imageStop + source = stop + target) : Scanned other image token imageStop := by
  apply scanned.mirrors (mirrors.restrict begun inside moved) _ known (by omega)
  intro zero
  have := beginning (by omega)
  omega

theorem Extras.along (mirrors : text.Mirrors other source target bound)
    (beginning : source = 0 → target = 0) {offset stop image imageStop : Nat}
    {comments : List (Edge Tree)} (extras : Extras text offset comments stop)
    (begun : source ≤ offset) (inside : stop ≤ bound) (moved : image + source = offset + target)
    (stopMoved : imageStop + source = stop + target) : Extras other image comments imageStop := by
  apply extras.mirrors (mirrors.restrict begun inside moved) _ (by omega)
  intro zero
  have := beginning (by omega)
  omega

theorem Sums.clean_left {offset stop : Nat} {left : Tree} {items : List (Edge Tree)} :
    Sums text left offset items stop → Costless items → left.info.cost = 0
  | .done _ _ _, clean => (costless_cons.mp clean).1
  | .more _ _ _ _ rest, clean =>
    (costless_cons.mp (costless_of_sumTree (rest.clean_left clean))).1
termination_by structural sums => sums

theorem exists_image {offset : Nat} (target : Nat) (begun : source ≤ offset) :
    ∃ image, image + source = offset + target := ⟨offset - source + target, by omega⟩

mutual

theorem Operand.along {offset stop image imageStop : Nat} {tree : Tree}
    (mirrors : text.Mirrors other source target bound) (beginning : source = 0 → target = 0) :
    Operand text offset tree stop → tree.info.cost = 0 → source ≤ offset → stop ≤ bound →
      image + source = offset + target → imageStop + source = stop + target →
        Operand other image tree imageStop
  | .token scanned single, _, begun, inside, moved, stopMoved => by
    exact .token (scanned.along mirrors beginning (known_of_single single) begun inside moved
      stopMoved) single
  | .group opened opens content closes, clean, begun, inside, moved, stopMoved => by
    have costless := costless_of_branch (by decide) clean
    rw [costless_cons, costless_append, costless_cons] at costless
    have first := Nat.le_trans begun opened.le
    have last := Nat.le_trans first content.row.le
    rcases exists_image target first with ⟨innerImage, innerMoved⟩
    rcases exists_image target last with ⟨lastImage, lastMoved⟩
    cases closes with
    | found scanned closes =>
        have before := Nat.le_trans scanned.le inside
        have opening := opened.along mirrors beginning (by rw [opens]; decide) begun
          (Nat.le_trans content.row.le before) moved innerMoved
        have closing := scanned.along mirrors beginning (by rw [closes]; decide) last inside
          lastMoved stopMoved
        have ahead := scanned.ahead (by rw [closes]; decide)
        have aheadImage := closing.ahead (by rw [closes]; decide)
        rw [closes] at ahead aheadImage
        exact .group opening opens (content.along mirrors beginning costless.2.1 ahead aheadImage
          first before innerMoved lastMoved) (.found closing closes)
    | missing => exact absurd costless.2.2.1 (by decide)
termination_by structural operand => operand

theorem Inside.along {offset stop image imageStop : Nat} {items : List (Edge Tree)}
    (mirrors : text.Mirrors other source target bound) (beginning : source = 0 → target = 0) :
    Inside text offset items stop → Costless items → Ahead text stop rightParenthesis →
      Ahead other imageStop rightParenthesis → source ≤ offset → stop ≤ bound →
        image + source = offset + target → imageStop + source = stop + target →
          Inside other image items imageStop
  | .filled extras first sums, clean, ahead, aheadImage, begun, inside, moved, stopMoved => by
    have costless := (costless_append.mp clean).2
    have start := Nat.le_trans begun extras.le
    have middle := Nat.le_trans start (Nat.le_of_lt first.lt)
    have after := Nat.le_trans sums.le inside
    have before := Nat.le_trans (Nat.le_of_lt first.lt) after
    rcases exists_image target start with ⟨startImage, startMoved⟩
    rcases exists_image target middle with ⟨middleImage, middleMoved⟩
    exact .filled (extras.along mirrors beginning begun before moved startMoved)
      (first.along mirrors beginning (sums.clean_left costless) start after startMoved
        middleMoved)
      (sums.along mirrors beginning costless ahead aheadImage middle inside middleMoved stopMoved)
  | .empty extras nothing, clean, _, _, _, _, _, _ => by
    have costless := (costless_append.mp clean).2
    exact absurd (costless _ (List.mem_singleton_self _)) cost_missingTree
termination_by structural inside => inside

theorem Sums.along {offset stop image imageStop : Nat} {left : Tree} {items : List (Edge Tree)}
    (mirrors : text.Mirrors other source target bound) (beginning : source = 0 → target = 0) :
    Sums text left offset items stop → Costless items → Ahead text stop rightParenthesis →
      Ahead other imageStop rightParenthesis → source ≤ offset → stop ≤ bound →
        image + source = offset + target → imageStop + source = stop + target →
          Sums other left image items imageStop
  | .done extras _ _, _, _, aheadImage, begun, inside, moved, stopMoved =>
    .done (extras.along mirrors beginning begun inside moved stopMoved) aheadImage (by decide)
  | .more extras scanned adds right rest, clean, ahead, aheadImage, begun, inside, moved,
      stopMoved => by
    have costless := (costless_cons.mp (costless_of_sumTree (rest.clean_left clean))).2
    have addend := (costless_cons.mp (costless_append.mp costless).2).2
    have start := Nat.le_trans begun extras.le
    have inner := Nat.le_trans start scanned.le
    have middle := Nat.le_trans inner right.row.le
    have after := Nat.le_trans rest.le inside
    have behind := Nat.le_trans right.row.le after
    have before := Nat.le_trans scanned.le behind
    rcases exists_image target start with ⟨startImage, startMoved⟩
    rcases exists_image target inner with ⟨innerImage, innerMoved⟩
    rcases exists_image target middle with ⟨middleImage, middleMoved⟩
    exact .more (extras.along mirrors beginning begun before moved startMoved)
      (scanned.along mirrors beginning (by rw [adds]; decide) start behind startMoved innerMoved)
      adds (right.along mirrors beginning addend inner after innerMoved middleMoved)
      (rest.along mirrors beginning clean ahead aheadImage middle inside middleMoved stopMoved)
termination_by structural sums => sums

theorem Right.along {offset stop image imageStop : Nat} {items : List (Edge Tree)}
    (mirrors : text.Mirrors other source target bound) (beginning : source = 0 → target = 0) :
    Right text offset items stop → Costless items → source ≤ offset → stop ≤ bound →
      image + source = offset + target → imageStop + source = stop + target →
        Right other image items imageStop
  | .found extras operand, clean, begun, inside, moved, stopMoved => by
    have costless := (costless_append.mp clean).2
    have start := Nat.le_trans begun extras.le
    have before := Nat.le_trans (Nat.le_of_lt operand.lt) inside
    rcases exists_image target start with ⟨startImage, startMoved⟩
    exact .found (extras.along mirrors beginning begun before moved startMoved)
      (operand.along mirrors beginning (costless _ (List.mem_singleton_self _)) start inside
        startMoved stopMoved)
  | .missing extras nothing, clean, _, _, _, _ => by
    have costless := (costless_append.mp clean).2
    exact absurd (costless _ (List.mem_singleton_self _)) cost_missingTree
termination_by structural right => right

end

end Mirrors

end Arithmetic

end Reparse
