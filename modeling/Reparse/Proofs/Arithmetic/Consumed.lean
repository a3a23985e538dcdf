import Reparse.Proofs.Arithmetic.Ahead
import Reparse.Proofs.Parse.Forward
import Reparse.Proofs.Parse.Spread
import Reparse.Proofs.Tree.Leaves

/-!
# The tokens that a parse has consumed

Whatever calls the arithmetic grammar makes, and with any limit, the leaves that a parse has consumed
are the tokens of the text one after the other, and missing tokens between them
(`Arithmetic.Consumed`). The calls keep this by `Arithmetic.Reading.call`. Since there is one token
at every offset, what one parse has consumed is a prefix of what another one has that came to the end
of the text (`Arithmetic.Consumed.face_prefix`).
-/

namespace Reparse

namespace Tree

/-- What shows of a token: its symbol, its padding and its size. -/
def face (tree : Tree) : Nat × Extent × Extent :=
  (tree.info.symbol, tree.info.padding, tree.info.size)

/-- The trees that are no missing tokens. -/
def present (trees : List Tree) : List Tree := trees.filter fun tree => !tree.info.missing

theorem present_append (left right : List Tree) :
    present (left ++ right) = present left ++ present right := List.filter_append _ _

theorem present_missing (symbol : Nat) (kind : SymbolKind) (rest : List Tree) :
    present (missing symbol kind :: rest) = present rest :=
  List.filter_cons_of_neg (by simp [missing])

theorem present_cons {tree : Tree} (there : tree.info.missing = false) (rest : List Tree) :
    present (tree :: rest) = tree :: present rest := List.filter_cons_of_pos (by simp [there])

end Tree

namespace Arithmetic

open Tree (extentOf present present_cons present_missing)

variable {text : Text} {first middle last offset stop : Nat} {leaves more : List Tree}
  {token : Tree}

theorem Scanned.missing_eq (scanned : Scanned text offset token stop) :
    token.info.missing = false := by
  cases scanned <;> rfl

/-- A token that is not of the language was made for a character. -/
theorem Scanned.unexpected_ne_none (scanned : Scanned text offset token stop)
    (unknown : token.info.symbol = errorSymbol) : token.info.unexpected ≠ none := by
  cases scanned with
  | @found start symbol stop lookahead leads lexeme looks =>
      have known := lexeme.symbol.2
      have same : symbol = errorSymbol := unknown
      rw [same] at known
      exact absurd known (by decide)
  | ended => exact absurd (show endSymbol = errorSymbol from unknown) (by decide)
  | unexpected => exact Option.some_ne_none _

theorem Scanned.face_unique {again : Tree} {otherStop : Nat}
    (scanned : Scanned text offset token stop) (scannedAgain : Scanned text offset again otherStop) :
    token.face = again.face := by
  have same := congrArg Tree.info (scanned.unique scannedAgain).1
  simp only [Tree.info_bare, Info.mk.injEq] at same
  simp only [Tree.face, same]

/-! ## Leaves that were consumed -/

/-- Tokens of the text one after the other, none of which ends it, and missing tokens. -/
inductive Consumed (text : Text) : Nat → List Tree → Nat → Prop where
  | nil {offset : Nat} : Consumed text offset [] offset
  | scanned {first middle last : Nat} {token : Tree} {leaves : List Tree}
      (scanned : Scanned text first token middle) (more : token.info.symbol ≠ endSymbol)
      (rest : Consumed text middle leaves last) : Consumed text first (token :: leaves) last
  | missing {first last : Nat} {leaves : List Tree} (symbol : Nat) (kind : SymbolKind)
      (rest : Consumed text first leaves last) :
      Consumed text first (Tree.missing symbol kind :: leaves) last

namespace Consumed

theorem append (before : Consumed text first leaves middle)
    (behind : Consumed text middle more last) : Consumed text first (leaves ++ more) last := by
  induction before with
  | nil => exact behind
  | scanned scanned more _ ih => exact .scanned scanned more (ih behind)
  | missing symbol kind _ ih => exact .missing symbol kind (ih behind)

theorem add (before : Consumed text first leaves middle) (scanned : Scanned text middle token last)
    (more : token.info.symbol ≠ endSymbol) : Consumed text first (leaves ++ [token]) last :=
  before.append (.scanned scanned more .nil)

theorem childless (consumed : Consumed text first leaves last) :
    ∀ leaf ∈ leaves, leaf.children = [] := by
  induction consumed with
  | nil => exact List.forall_mem_nil _
  | scanned scanned _ _ ih => exact List.forall_mem_cons.mpr ⟨scanned.childless, ih⟩
  | missing symbol kind _ ih => exact List.forall_mem_cons.mpr ⟨rfl, ih⟩

/-- No token that was consumed ends the text, and each that is unknown was made for a character. -/
theorem known (consumed : Consumed text first leaves last) :
    ∀ leaf ∈ present leaves, leaf.info.symbol ≠ endSymbol ∧
      (leaf.info.symbol = errorSymbol → leaf.info.unexpected ≠ none) := by
  induction consumed with
  | nil => exact List.forall_mem_nil _
  | scanned scanned more _ ih =>
      rw [present_cons scanned.missing_eq]
      exact List.forall_mem_cons.mpr ⟨⟨more, scanned.unexpected_ne_none⟩, ih⟩
  | missing symbol kind _ ih =>
      rw [present_missing]
      exact ih

theorem le (consumed : Consumed text first leaves last) : first ≤ last := by
  induction consumed with
  | nil => exact Nat.le_refl _
  | scanned scanned _ _ ih => exact Nat.le_trans scanned.le ih
  | missing _ _ _ ih => exact ih

/-- The tokens take up the text between the offsets. -/
theorem extentOf_present (consumed : Consumed text first leaves last) :
    extentOf (present leaves) = text.width first (last - first) := by
  induction consumed with
  | nil =>
      rw [Nat.sub_self]
      rfl
  | scanned scanned _ rest ih =>
      rw [present_cons scanned.missing_eq, extentOf, scanned.total, ih,
        Text.width_between scanned.le rest.le]
  | missing symbol kind _ ih =>
      rw [present_missing]
      exact ih

/-- Missing tokens take up nothing. -/
theorem extentOf_eq (consumed : Consumed text first leaves last) :
    extentOf leaves = extentOf (present leaves) := by
  induction consumed with
  | nil => rfl
  | scanned scanned _ _ ih => rw [present_cons scanned.missing_eq, extentOf, extentOf, ih]
  | missing symbol kind _ ih =>
      rw [present_missing, ← ih, extentOf]
      exact Extent.zero_append _

/-- Nothing but missing tokens was consumed, or there is a first token. -/
theorem first_token (consumed : Consumed text first leaves last) :
    present leaves = [] ∧ first = last ∨
      ∃ token middle rest, Scanned text first token middle ∧
        present leaves = token :: present rest ∧ Consumed text middle rest last := by
  induction consumed with
  | nil => exact Or.inl ⟨rfl, rfl⟩
  | scanned scanned _ rest =>
      exact Or.inr ⟨_, _, _, scanned, present_cons scanned.missing_eq _, rest⟩
  | missing symbol kind _ ih =>
      rw [present_missing]
      exact ih

/-- What was consumed looks like a prefix of what another parse of the text has consumed that came
to the end of it. -/
theorem face_prefix {others : List Tree} {final : Tree}
    (consumed : Consumed text first leaves middle)
    (whole : Consumed text first others last) (ended : Scanned text last final stop)
    (ends : final.info.symbol = endSymbol) :
    (present leaves).map Tree.face <+: (present others).map Tree.face := by
  induction consumed generalizing others with
  | nil => exact List.nil_prefix
  | missing symbol kind _ ih =>
      rw [present_missing]
      exact ih whole
  | scanned scanned more _ ih =>
      rw [present_cons scanned.missing_eq, List.map_cons]
      rcases whole.first_token with ⟨_, rfl⟩ | ⟨other, between, rest, again, same, behind⟩
      · have same := (scanned.unique_symbol ended).1
        exact absurd (same.trans ends) more
      · obtain rfl := (scanned.unique again).2
        rw [same, List.map_cons, scanned.face_unique again]
        exact (List.prefix_cons_inj _).mpr (ih behind)

end Consumed

/-! ## Parses that consume -/

/-- A parse of a whole text has consumed some leaves, and the token ahead, if there is one, is that
of the text. -/
structure Reading (text : Text) (leaves : List Tree) (context : Context) : Prop where
  vocabulary_eq : context.vocabulary = vocabulary
  program_eq : context.program = program
  older_eq : context.older = none
  placed : ∃ place, context.scanner.Placed text place
  reached : ∃ offset, offset ≤ text.size ∧ context.position = text.place offset ∧
    Consumed text 0 leaves offset ∧ ∀ token, context.lookahead = some token →
      ∃ stop, Scanned text offset token stop

namespace Reading

open Context (SameView)

variable {context after next : Context} {draft : Draft} {fuel : Nat}

theorem of_sameView (reading : Reading text leaves context) (same : context.SameView after) :
    Reading text leaves after where
  vocabulary_eq := same.vocabulary_eq.trans reading.vocabulary_eq
  program_eq := same.program_eq.trans reading.program_eq
  older_eq := same.older_eq.trans reading.older_eq
  placed := by
    rcases reading.placed with ⟨here, placed⟩
    rcases same.scanner_eq with ⟨log, scanner⟩
    rw [scanner]
    exact ⟨here, Context.placed_log placed log⟩
  reached := by
    rw [same.position_eq, same.lookahead_eq]
    exact reading.reached

/-- A token of the text is consumed at the position. -/
theorem consume (reading : Reading text leaves context) (idle : context.lookahead = none)
    (position : context.position = text.place offset) (scanned : Scanned text offset token stop)
    (more : token.info.symbol ≠ endSymbol) :
    Reading text (leaves ++ [token]) (context.consume token) where
  vocabulary_eq := reading.vocabulary_eq
  program_eq := reading.program_eq
  older_eq := reading.older_eq
  placed := reading.placed
  reached := by
    rcases reading.reached with ⟨here, inside, stands, consumed, _⟩
    obtain rfl := Text.place_injective (stands.symm.trans position)
    refine ⟨stop, scanned.inside inside, ?_, consumed.add scanned more, fun other same => ?_⟩
    · change context.position + token.total = _
      rw [position, scanned.total, Text.place_between scanned.le]
    · rw [show (context.consume token).lookahead = none from idle] at same
      cases same

/-- A token of the text lies ahead at the position. -/
theorem withLookahead (reading : Reading text leaves context)
    (position : context.position = text.place offset) (scanned : Scanned text offset token stop) :
    Reading text leaves { context with lookahead := some token } := by
  rcases reading.reached with ⟨here, inside, stands, consumed, _⟩
  obtain rfl := Text.place_injective (stands.symm.trans position)
  refine ⟨reading.vocabulary_eq, reading.program_eq, reading.older_eq, reading.placed, here, inside,
    position, consumed, fun other ahead => ?_⟩
  obtain rfl : token = other := Option.some.inj ahead
  exact ⟨stop, scanned⟩

/-- The token ahead is dropped. -/
theorem withoutLookahead (reading : Reading text leaves context) :
    Reading text leaves { context with lookahead := none } := by
  rcases reading.reached with ⟨here, inside, position, consumed, _⟩
  exact ⟨reading.vocabulary_eq, reading.program_eq, reading.older_eq, reading.placed, here, inside,
    position, consumed, nofun⟩

/-- A scan finds the token of the text. -/
theorem scan (short : text.size < maxOffset) (reading : Reading text leaves context)
    (scanned : context.scanToken = some (token, next)) :
    Reading text leaves next ∧ next.lookahead = context.lookahead ∧
      ∃ offset stop, next.position = text.place offset ∧ Scanned text offset token stop := by
  rcases reading.reached with ⟨offset, inside, position, consumed, ahead⟩
  rcases exists_scanToken short reading.vocabulary_eq reading.program_eq position inside
    reading.placed with ⟨found, stop, scanner, canonical, scan, placed⟩
  rw [scanned, Option.some.injEq, Prod.mk.injEq] at scan
  rcases scan with ⟨rfl, rfl⟩
  have here : Reading text leaves ({ context with scanner } : Context) :=
    ⟨reading.vocabulary_eq, reading.program_eq, reading.older_eq, ⟨stop, placed⟩, offset, inside,
      position, consumed, ahead⟩
  have view := SameView.tick { context with scanner }
  exact ⟨here.of_sameView view, view.lookahead_eq, offset, stop, view.position_eq.trans position,
    canonical⟩

/-- Looking ahead consumes the extras. -/
theorem fill (short : text.size < maxOffset) (reading : Reading text leaves context)
    (filled : context.fill fuel = some after) :
    Reading text (leaves ++ context.extrasAhead fuel) after := by
  replace filled := Context.looksAhead_of_fill filled
  induction filled generalizing leaves with
  | still still =>
      rw [Context.extrasAhead_still still, List.append_nil]
      exact reading
  | halted idle scanned halted =>
      rw [Context.extrasAhead_halted idle scanned halted, List.append_nil]
      exact (reading.scan short scanned).1
  | @extra _ _ _ _ token idle scanned running extra _ ih =>
      rcases reading.scan short scanned with ⟨onward, same, offset, stop, position, canonical⟩
      have more : token.info.symbol ≠ endSymbol := by
        rw [canonical.of_extra extra]
        decide
      have consumed := onward.consume (same.trans idle.unread) position canonical more
      rw [Context.extrasAhead_extra idle scanned running extra, List.append_cons]
      exact ih consumed
  | solid idle scanned running solid =>
      rcases reading.scan short scanned with ⟨onward, _, offset, stop, position, canonical⟩
      rw [Context.extrasAhead_solid idle scanned running solid, List.append_nil]
      exact onward.withLookahead position canonical

/-- The token ahead is consumed behind the extras. -/
theorem consumes (short : text.size < maxOffset) (reading : Reading text leaves context)
    (consumes : context.Consumes after) :
    Reading text (leaves ++ (context.extras ++ context.nextToken.toList)) after := by
  rcases consumes with ⟨filled, filling, ⟨ends, rfl⟩ |
    ⟨token, seen, more, ahead, same, running, reached⟩⟩
  · rw [Context.nextToken_of_end filling ends, Option.toList_none, List.append_nil]
    exact reading.fill short filling
  · have solid : token.info.symbol ≠ endSymbol := by
      rw [← Context.symbol_of_ahead (Context.running_of_ahead more) ahead]
      exact more
    have seenReading := (reading.fill short filling).of_sameView same
    rcases seenReading.reached with ⟨offset, _, position, _, canonical⟩
    rcases canonical token (same.lookahead_eq.trans ahead) with ⟨stop, scanned⟩
    have shifted := seenReading.withoutLookahead.consume rfl position scanned solid
    rw [Context.nextToken_of_token filling more, ahead, Option.toList_some, ← List.append_assoc]
    exact shifted.of_sameView reached

/-- A missing token is consumed anywhere. -/
theorem missing (reading : Reading text leaves context) (symbol : Nat) (kind : SymbolKind) :
    Reading text (leaves ++ [Tree.missing symbol kind]) context where
  vocabulary_eq := reading.vocabulary_eq
  program_eq := reading.program_eq
  older_eq := reading.older_eq
  placed := reading.placed
  reached := by
    rcases reading.reached with ⟨offset, inside, position, consumed, ahead⟩
    exact ⟨offset, inside, position, consumed.append (.missing symbol kind .nil), ahead⟩

/-- Whatever call is made, what was consumed are tokens of the text. -/
theorem call (short : text.size < maxOffset) {call : Call} {handle : Handle}
    (reading : Reading text draft.consumed context)
    (run : call.perform.run context = .ok (handle, after)) :
    Reading text (draft.after context call handle).consumed after := by
  rcases Call.moves draft run with ⟨added, moves, consumed⟩
  rw [consumed]
  generalize call.scans context = scanned at moves
  cases moves with
  | stays same =>
      rw [List.append_nil]
      exact reading.of_sameView same
  | misses symbol same => exact (reading.missing symbol _).of_sameView same
  | looks filled => exact reading.fill short filled
  | consumes consumes => exact reading.consumes short consumes
  | reuses found =>
      simp [Context.reusable, reading.older_eq] at found

/-- A parse of a whole text that has not begun has consumed nothing. -/
theorem begun (short : text.size < maxOffset) (limit : Nat) :
    Reading text []
      ((Context.new vocabulary program text [Span.whole] none limit).report .began) where
  vocabulary_eq := rfl
  program_eq := rfl
  older_eq := rfl
  placed := Context.placed_new short
  reached := ⟨0, Nat.zero_le _, rfl, .nil, nofun⟩

end Reading

/-- Calls that are made in order consume tokens of the text. -/
theorem reading_of_calls {begun context : Context} {draft : Draft} {scans : List Scan}
    (short : text.size < maxOffset) (calls : Calls begun context draft scans)
    (start : Reading text [] begun) : Reading text draft.consumed context := by
  induction calls with
  | begin => exact start
  | remark _ _ ih => exact ih.of_sameView (.remark _ _)
  | call _ _ run ih => exact ih.call short run

end Arithmetic

end Reparse
