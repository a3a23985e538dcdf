import Mathlib.Logic.Basic
import Reparse.Proofs.Difference.Stretches
import Reparse.Proofs.Text.Included

/-!
# The symmetric difference of span lists

The stretches that exactly one of two lists of spans covers are found by a walk along the boundaries
of both lists (`Span.symmetricDifference`). Each round of the walk goes to the nearest boundary, and
the sides that have one there turn from outside to inside of a span or back (`Sweep.next`). A side
without boundaries has its next one at the end of everything. The other side may have real ones
there, and then both turn, after which one of them is on the wrong side; but no byte lies behind
that place.

What a round keeps is said for one side alone (`Sweep.Side.Follows`): a byte ahead lies in a span if
an odd number of boundaries lie behind it. For the whole walk, what was found covers the difference
up to the place that was reached (`Sweep.Sound`).
-/

namespace Reparse

namespace Sweep

/-- One list of spans during a walk. -/
structure Side where
  /-- Whether the place reached lies in a span. -/
  inside : Bool
  /-- The boundaries that lie ahead. -/
  ahead : List Extent

namespace Side

/-- The next boundary, the end of everything if there is none. -/
def next (side : Side) : Extent := side.ahead.headD Extent.max

/-- The side after the walk went to a place: it turns at its next boundary. -/
def pass (side : Side) (place : Extent) : Side :=
  if side.next.bytes ≤ place.bytes then ⟨!side.inside, side.ahead.tail⟩ else side

end Side

end Sweep

/-- The state of a walk along the boundaries of two lists of spans. -/
structure Sweep where
  old : Sweep.Side
  new : Sweep.Side
  reached : Extent
  /-- The stretches found so far, latest first. -/
  found : List Span

namespace Sweep

open Reparse.Span (Covers Ordered boundaries differences extend symmetricDifference)

/-- The beginning of the walk along two lists. -/
def begin (old new : List Span) : Sweep :=
  ⟨⟨false, boundaries old⟩, ⟨false, boundaries new⟩, Extent.zero, []⟩

/-- No boundary is left. -/
def isDone (sweep : Sweep) : Bool := sweep.old.ahead.isEmpty && sweep.new.ahead.isEmpty

/-- One round: the walk goes to the nearest boundary. -/
def next (sweep : Sweep) : Sweep :=
  let place := sweep.old.next.shorter sweep.new.next
  { old := sweep.old.pass place
    new := sweep.new.pass place
    reached := place
    found :=
      if sweep.old.inside != sweep.new.inside then extend sweep.found sweep.reached place
      else sweep.found }

/-- The walk ends after some rounds, when no boundary is left. -/
inductive Runs : Sweep → Nat → Sweep → Prop where
  | done {sweep : Sweep} (done : sweep.isDone = true) : Runs sweep 0 sweep
  | round {sweep last : Sweep} {rounds : Nat} (ahead : sweep.isDone = false)
      (rest : Runs sweep.next rounds last) : Runs sweep (rounds + 1) last

/-! ## The rounds of the difference -/

/-- The stretches that the walk finds from a state on. -/
def result (sweep : Sweep) : List Span :=
  differences sweep.old.inside sweep.new.inside sweep.reached sweep.found sweep.old.ahead
    sweep.new.ahead

variable {sweep last : Sweep} {side : Side} {rounds : Nat}

theorem Side.bytes_next_le (bounded : ∀ place ∈ side.ahead, place.bytes ≤ maxOffset) :
    side.next.bytes ≤ maxOffset := by
  rcases side with ⟨inside, _ | ⟨place, rest⟩⟩
  · exact Nat.le_refl _
  · exact bounded place List.mem_cons_self

theorem result_of_isDone (done : sweep.isDone = true) : sweep.result = sweep.found := by
  rcases sweep with ⟨⟨inOld, old⟩, ⟨inNew, new⟩, reached, found⟩
  simp only [isDone, Bool.and_eq_true, List.isEmpty_iff] at done
  rcases done with ⟨rfl, rfl⟩
  rw [result, differences]

/-- A round does not change what the walk finds in the end. -/
theorem result_eq_next (oldBounded : ∀ place ∈ sweep.old.ahead, place.bytes ≤ maxOffset)
    (newBounded : ∀ place ∈ sweep.new.ahead, place.bytes ≤ maxOffset)
    (ahead : sweep.isDone = false) : sweep.result = sweep.next.result := by
  have oldNext := Side.bytes_next_le oldBounded
  have newNext := Side.bytes_next_le newBounded
  rcases sweep with ⟨⟨inOld, old⟩, ⟨inNew, new⟩, reached, found⟩
  clear oldBounded newBounded
  rcases old with _ | ⟨oldPlace, oldRest⟩ <;> rcases new with _ | ⟨newPlace, newRest⟩
  case nil.nil => simp [isDone] at ahead
  all_goals
    simp only [Side.next, List.headD_nil, List.headD_cons, Extent.max] at oldNext newNext
    rw [result, differences]
    simp only [result, next, Side.pass, Side.next, Extent.shorter, List.headD_nil, List.headD_cons,
      List.tail_nil, List.tail_cons, Extent.max]
    grind

/-! ## What lies ahead of a side -/

/-- Whether an odd number of boundaries lie behind a byte. -/
def isOddBehind (byte : Nat) : List Extent → Bool
  | [] => false
  | place :: rest => decide (byte < place.bytes) ^^ isOddBehind byte rest

/-- Behind the beginning of ordered spans a byte lies in one of them if an odd number of their
boundaries lie behind the byte. -/
theorem isOddBehind_boundaries {reached byte : Nat} {spans : List Span}
    (ordered : Ordered reached spans) :
    isOddBehind byte (boundaries spans) = true ↔ Covers spans byte := by
  induction spans generalizing reached with
  | nil => simp [boundaries, isOddBehind]
  | cons span rest ih =>
      rcases ordered with ⟨_, forward, later⟩
      have behind : Covers rest byte → span.stop.bytes ≤ byte := by
        rintro ⟨other, member, begun, _⟩
        exact Nat.le_trans (later.start_le member) begun
      have ahead := ih later
      rw [Span.covers_cons, boundaries, isOddBehind, isOddBehind]
      by_cases ended : span.stop.bytes ≤ byte
      · have begun : ¬byte < span.start.bytes := by omega
        simpa [begun, ended, Nat.not_lt_of_le ended] using ahead
      · have passed : isOddBehind byte (boundaries rest) = false := by
          rw [← Bool.not_eq_true, ahead]
          exact fun covered => ended (behind covered)
        have none : ¬Covers rest byte := fun covered => ended (behind covered)
        simp [passed, none, Nat.lt_of_not_le ended]

theorem not_isOdd_succ (count : Nat) :
    (!decide ((count + 1) % 2 = 1)) = decide (count % 2 = 1) := by
  rw [← decide_not, decide_eq_decide]
  omega

/-- If all boundaries lie behind a byte, an odd number does just if there is an odd number. -/
theorem isOddBehind_eq {byte : Nat} {ahead : List Extent}
    (behind : ∀ place ∈ ahead, byte < place.bytes) :
    isOddBehind byte ahead = decide (ahead.length % 2 = 1) := by
  induction ahead with
  | nil => rfl
  | cons place rest ih =>
      rcases List.forall_mem_cons.mp behind with ⟨first, later⟩
      rw [isOddBehind, ih later, List.length_cons, decide_eq_true first, Bool.true_xor,
        ← not_isOdd_succ, Bool.not_not]

/-- What a side knows of its spans at a place that the walk has reached. -/
structure Side.Follows (spans : List Span) (reached : Nat) (side : Side) : Prop where
  order : side.ahead.Pairwise fun one other => one.bytes ≤ other.bytes
  within : ∀ place ∈ side.ahead, reached ≤ place.bytes ∧ place.bytes ≤ maxOffset
  covers : ∀ byte, reached ≤ byte → byte < maxOffset →
    (isOddBehind byte side.ahead = true ↔ Covers spans byte)
  inside : reached < maxOffset → side.inside = decide (side.ahead.length % 2 = 1)

namespace Side

variable {spans : List Span} {place : Extent} {reached byte : Nat}

theorem within_boundaries (ordered : Ordered reached spans)
    (bounded : ∀ span ∈ spans, span.stop.bytes ≤ maxOffset) :
    ∀ place ∈ boundaries spans, reached ≤ place.bytes ∧ place.bytes ≤ maxOffset := by
  induction spans generalizing reached with
  | nil => simp [boundaries]
  | cons span rest ih =>
      rcases ordered with ⟨begins, forward, later⟩
      rcases List.forall_mem_cons.mp bounded with ⟨here, behind⟩
      rw [boundaries, List.forall_mem_cons, List.forall_mem_cons]
      refine ⟨⟨begins, Nat.le_trans forward here⟩, ⟨Nat.le_trans begins forward, here⟩, ?_⟩
      intro place member
      have further := ih later behind place member
      exact ⟨by omega, further.2⟩

theorem order_boundaries (ordered : Ordered reached spans)
    (bounded : ∀ span ∈ spans, span.stop.bytes ≤ maxOffset) :
    (boundaries spans).Pairwise fun one other => one.bytes ≤ other.bytes := by
  induction spans generalizing reached with
  | nil => exact .nil
  | cons span rest ih =>
      rcases ordered with ⟨begins, forward, later⟩
      rcases List.forall_mem_cons.mp bounded with ⟨here, behind⟩
      have further := within_boundaries later behind
      rw [boundaries, List.pairwise_cons, List.pairwise_cons, List.forall_mem_cons]
      exact ⟨⟨forward, fun place member => Nat.le_trans forward (further place member).1⟩,
        fun place member => (further place member).1, ih later behind⟩

theorem length_boundaries (spans : List Span) : (boundaries spans).length = 2 * spans.length := by
  induction spans with
  | nil => rfl
  | cons span rest ih =>
      simp only [boundaries, List.length_cons, ih]
      omega

theorem follows_begin (ordered : Ordered 0 spans)
    (bounded : ∀ span ∈ spans, span.stop.bytes ≤ maxOffset) :
    Follows spans 0 ⟨false, boundaries spans⟩ where
  order := order_boundaries ordered bounded
  within := within_boundaries ordered bounded
  covers _ _ _ := isOddBehind_boundaries ordered
  inside _ := by simp [length_boundaries]

theorem Follows.le_next (follows : side.Follows spans reached) (le : reached ≤ maxOffset) :
    reached ≤ side.next.bytes := by
  rcases side with ⟨inside, _ | ⟨place, rest⟩⟩
  · exact le
  · exact (follows.within place List.mem_cons_self).1

theorem Follows.next_le (follows : side.Follows spans reached) : side.next.bytes ≤ maxOffset :=
  bytes_next_le fun place member => (follows.within place member).2

theorem Follows.next_le_ahead (follows : side.Follows spans reached) :
    ∀ place ∈ side.ahead, side.next.bytes ≤ place.bytes := by
  rcases side with ⟨inside, _ | ⟨first, rest⟩⟩
  · simp
  · have order := List.pairwise_cons.mp follows.order
    simpa [next] using order.1

/-- Up to the next boundary a side stays inside or outside. -/
theorem Follows.covers_iff (follows : side.Follows spans reached) (le : reached ≤ byte)
    (lt : byte < side.next.bytes) : Covers spans byte ↔ side.inside = true := by
  have named := Nat.lt_of_lt_of_le lt follows.next_le
  have behind : ∀ place ∈ side.ahead, byte < place.bytes :=
    fun place member => Nat.lt_of_lt_of_le lt (follows.next_le_ahead place member)
  rw [← follows.covers byte le named, follows.inside (Nat.lt_of_le_of_lt le named),
    isOddBehind_eq behind]

/-- A side that has no boundaries left knows nothing at the end of everything. -/
theorem follows_end (inside : Bool) (far : maxOffset ≤ reached) :
    Follows spans reached ⟨inside, []⟩ where
  order := .nil
  within := by simp
  covers _ le lt := absurd lt (Nat.not_lt_of_le (Nat.le_trans far le))
  inside lt := absurd lt (Nat.not_lt_of_le far)

/-- A side turns at its next boundary. -/
theorem Follows.turn {inside : Bool} {rest : List Extent}
    (follows : Follows spans reached ⟨inside, place :: rest⟩) :
    Follows spans place.bytes ⟨!inside, rest⟩ where
  order := follows.order.of_cons
  within other member :=
    ⟨(List.pairwise_cons.mp follows.order).1 other member,
      (follows.within other (List.mem_cons_of_mem _ member)).2⟩
  covers byte le lt := by
    have here := follows.within place List.mem_cons_self
    have same := follows.covers byte (Nat.le_trans here.1 le) lt
    rwa [isOddBehind, decide_eq_false (Nat.not_lt_of_le le), Bool.false_xor] at same
  inside lt := by
    have here := follows.within place List.mem_cons_self
    have before := follows.inside (Nat.lt_of_le_of_lt here.1 lt)
    dsimp only [List.length_cons] at before
    rw [before, not_isOdd_succ]

/-- Going to the next boundary or to a place before it keeps what a side knows. -/
theorem Follows.pass (follows : side.Follows spans reached) (le : reached ≤ place.bytes)
    (near : place.bytes ≤ side.next.bytes) : (side.pass place).Follows spans place.bytes := by
  have nearest := follows.next_le_ahead
  unfold Side.pass
  split
  · rename_i arrived
    rcases side with ⟨inside, _ | ⟨first, rest⟩⟩
    · exact follows_end _ arrived
    · rw [Nat.le_antisymm near arrived]
      exact follows.turn
  · refine ⟨follows.order, fun other member => ⟨?_, (follows.within other member).2⟩,
      fun byte far => follows.covers byte (Nat.le_trans le far),
      fun small => follows.inside (Nat.lt_of_le_of_lt le small)⟩
    exact Nat.le_trans near (nearest other member)

/-- A side that has no boundaries left covers nothing ahead. -/
theorem Follows.not_covers (follows : side.Follows spans reached) (done : side.ahead = [])
    (le : reached ≤ byte) (lt : byte < maxOffset) : ¬Covers spans byte := by
  rw [← follows.covers byte le lt, done]
  simp [isOddBehind]

theorem length_pass (side : Side) (place : Extent) :
    (side.pass place).ahead.length =
      if side.next.bytes ≤ place.bytes then side.ahead.length - 1 else side.ahead.length := by
  unfold Side.pass
  split <;> simp

/-- The walk is at the end of everything where a side goes to when it has no boundaries left. -/
theorem bytes_next_of_length (side : Side) (none : side.ahead.length = 0) :
    side.next.bytes = maxOffset := by
  rw [next, List.eq_nil_of_length_eq_zero none]
  rfl

end Side

/-! ## What a round keeps -/

/-- Both sides know their spans at the place reached, and what was found covers their difference up
to there. -/
structure Sound (old new : List Span) (sweep : Sweep) : Prop where
  oldSide : sweep.old.Follows old sweep.reached.bytes
  newSide : sweep.new.Follows new sweep.reached.bytes
  near : sweep.reached.bytes ≤ maxOffset
  listed : Span.Listed sweep.found 0 sweep.reached.bytes
  covers : ∀ byte < sweep.reached.bytes,
    Covers sweep.found byte ↔ Xor (Covers old byte) (Covers new byte)

variable {old new : List Span}

theorem sound_begin (oldOrdered : Ordered 0 old) (newOrdered : Ordered 0 new)
    (oldBounded : ∀ span ∈ old, span.stop.bytes ≤ maxOffset)
    (newBounded : ∀ span ∈ new, span.stop.bytes ≤ maxOffset) : Sound old new (begin old new) where
  oldSide := Side.follows_begin oldOrdered oldBounded
  newSide := Side.follows_begin newOrdered newBounded
  near := Nat.zero_le _
  listed := Span.listed_nil _ _
  covers _ lt := absurd lt (Nat.not_lt_zero _)

/-- The place that a round goes to. -/
theorem bytes_reached_next (sweep : Sweep) :
    sweep.next.reached.bytes = min sweep.old.next.bytes sweep.new.next.bytes :=
  Extent.bytes_shorter _ _

/-- What a round finds when it goes to a place. -/
theorem Sound.covers_grown (sound : Sound old new sweep)
    (onward : sweep.reached.bytes ≤ sweep.next.reached.bytes) {byte : Nat} :
    Covers sweep.next.found byte ↔
      Covers sweep.found byte ∨ (sweep.old.inside ≠ sweep.new.inside ∧
        sweep.reached.bytes ≤ byte ∧ byte < sweep.next.reached.bytes) := by
  have grown : sweep.next.found = if sweep.old.inside != sweep.new.inside then
      extend sweep.found sweep.reached sweep.next.reached else sweep.found := rfl
  rw [grown]
  split
  · rename_i differ
    have apart : sweep.old.inside ≠ sweep.new.inside := bne_iff_ne.mp differ
    rw [Span.covers_extend_iff sound.listed.liesBefore onward]
    simp only [apart, ne_eq, not_false_eq_true, true_and]
  · rename_i differ
    have same : sweep.old.inside = sweep.new.inside := by simpa using differ
    simp only [same, ne_eq, not_true_eq_false, false_and, or_false]

theorem Sound.next (sound : Sound old new sweep) : Sound old new sweep.next := by
  have place := bytes_reached_next sweep
  have oldNear := sound.oldSide.le_next sound.near
  have newNear := sound.newSide.le_next sound.near
  have bound := sound.oldSide.next_le
  have onward : sweep.reached.bytes ≤ sweep.next.reached.bytes := by omega
  have oldSide := sound.oldSide.pass onward (by omega)
  have newSide := sound.newSide.pass onward (by omega)
  refine ⟨oldSide, newSide, by omega, ?_, ?_⟩
  · simp only [Sweep.next]
    split
    · exact sound.listed.extend (Nat.zero_le _) onward
    · exact sound.listed.mono onward
  · intro byte before
    rw [sound.covers_grown onward]
    by_cases passed : byte < sweep.reached.bytes
    · rw [sound.covers byte passed]
      simp [Nat.not_le_of_lt passed]
    · have ahead := Nat.le_of_not_lt passed
      have none := sound.listed.not_covers ahead
      rw [sound.oldSide.covers_iff ahead (by omega), sound.newSide.covers_iff ahead (by omega)]
      simp only [none, ahead, before, and_true, false_or]
      cases sweep.old.inside <;> cases sweep.new.inside <;> simp

/-! ## The whole walk -/

/-- The number of boundaries that lie ahead. -/
def remaining (sweep : Sweep) : Nat := sweep.old.ahead.length + sweep.new.ahead.length

/-- Every round goes to a boundary. -/
theorem Sound.remaining_next (sound : Sound old new sweep) (ahead : sweep.isDone = false) :
    sweep.next.remaining < sweep.remaining := by
  have place := bytes_reached_next sweep
  have oldLength : sweep.next.old.ahead.length = _ := Side.length_pass sweep.old sweep.next.reached
  have newLength : sweep.next.new.ahead.length = _ := Side.length_pass sweep.new sweep.next.reached
  have oldNear := sound.oldSide.next_le
  have newNear := sound.newSide.next_le
  have some : sweep.old.ahead.length ≠ 0 ∨ sweep.new.ahead.length ≠ 0 := by
    simpa [isDone, imp_iff_not_or] using ahead
  -- an exhausted side is passed only where the other side has a boundary at the end of everything
  have oldLast := sweep.old.bytes_next_of_length
  have newLast := sweep.new.bytes_next_of_length
  unfold remaining
  rw [oldLength, newLength]
  split <;> split <;> omega

/-- A walk ends after no more rounds than there are boundaries. -/
theorem Sound.exists_runs (sound : Sound old new sweep) :
    ∃ rounds last, Runs sweep rounds last ∧ rounds ≤ sweep.remaining := by
  induction count : sweep.remaining using Nat.strongRecOn generalizing sweep with
  | _ count ih =>
      cases done : sweep.isDone with
      | true => exact ⟨0, sweep, .done done, Nat.zero_le _⟩
      | false =>
          have fewer := sound.remaining_next done
          rcases ih sweep.next.remaining (count ▸ fewer) sound.next rfl with
            ⟨rounds, last, runs, bound⟩
          exact ⟨rounds + 1, last, .round done runs, by omega⟩

/-- A walk keeps what its rounds keep, and finds what it finds in its last state. -/
theorem Runs.sound (runs : Runs sweep rounds last) (sound : Sound old new sweep) :
    Sound old new last ∧ last.isDone = true ∧ sweep.result = last.found := by
  induction runs with
  | done done => exact ⟨sound, done, result_of_isDone done⟩
  | round ahead _ ih =>
      have step := result_eq_next (fun place member => (sound.oldSide.within place member).2)
        (fun place member => (sound.newSide.within place member).2) ahead
      rw [step]
      exact ih sound.next

/-- When no boundary is left, what was found covers the difference. -/
theorem Sound.covers_iff (sound : Sound old new sweep) (done : sweep.isDone = true) {byte : Nat}
    (named : byte < maxOffset) :
    Covers sweep.found byte ↔ Xor (Covers old byte) (Covers new byte) := by
  simp only [isDone, Bool.and_eq_true, List.isEmpty_iff] at done
  by_cases passed : byte < sweep.reached.bytes
  · exact sound.covers byte passed
  · have ahead := Nat.le_of_not_lt passed
    have none := sound.listed.not_covers ahead
    have oldNone := sound.oldSide.not_covers done.1 ahead named
    have newNone := sound.newSide.not_covers done.2 ahead named
    simp [none, oldNone, newNone]

end Sweep

namespace Span

variable {old new : List Span}

/-- The walk along two ordered lists ends, and the symmetric difference is what it has found. -/
theorem exists_runs_symmetricDifference (oldOrdered : firstMisplaced old = none)
    (newOrdered : firstMisplaced new = none)
    (oldBounded : ∀ span ∈ old, span.stop.bytes ≤ maxOffset)
    (newBounded : ∀ span ∈ new, span.stop.bytes ≤ maxOffset) :
    ∃ rounds last, (Sweep.begin old new).Runs rounds last ∧
      rounds ≤ 2 * (old.length + new.length) ∧ last.Sound old new ∧ last.isDone = true ∧
      symmetricDifference old new = last.found.reverse := by
  have start := Sweep.sound_begin (ordered_of_firstMisplacedFrom oldOrdered)
    (ordered_of_firstMisplacedFrom newOrdered) oldBounded newBounded
  rcases start.exists_runs with ⟨rounds, last, runs, bound⟩
  rcases runs.sound start with ⟨sound, done, found⟩
  refine ⟨rounds, last, runs, ?_, sound, done, congrArg List.reverse found⟩
  simp only [Sweep.remaining, Sweep.begin, Sweep.Side.length_boundaries] at bound
  omega

/-- The walk that finds what exactly one of two ordered lists of spans covers ends after no more
rounds than they have boundaries. What it finds covers just the bytes that lie in exactly one of the
lists, in stretches that are not empty, in order and apart from each other; which of the lists is
the old one makes no difference to these. -/
theorem symmetricDifference_exact (oldOrdered : firstMisplaced old = none)
    (newOrdered : firstMisplaced new = none)
    (oldBounded : ∀ span ∈ old, span.stop.bytes ≤ maxOffset)
    (newBounded : ∀ span ∈ new, span.stop.bytes ≤ maxOffset) :
    (∀ byte < maxOffset, Covers (symmetricDifference old new) byte ↔
        Xor (Covers old byte) (Covers new byte)) ∧
      (∀ span ∈ symmetricDifference old new, span.start.bytes < span.stop.bytes) ∧
      ((symmetricDifference old new).Pairwise fun earlier later =>
        earlier.stop.bytes < later.start.bytes) ∧
      (symmetricDifference new old).map bytes = (symmetricDifference old new).map bytes ∧
      ∃ rounds last, (Sweep.begin old new).Runs rounds last ∧
        rounds ≤ 2 * (old.length + new.length) ∧
        symmetricDifference old new = last.found.reverse := by
  rcases exists_runs_symmetricDifference oldOrdered newOrdered oldBounded newBounded with
    ⟨rounds, last, runs, bound, sound, done, found⟩
  rcases exists_runs_symmetricDifference newOrdered oldOrdered newBounded oldBounded with
    ⟨_, swapped, _, _, swappedSound, swappedDone, swappedFound⟩
  have covers (byte : Nat) (named : byte < maxOffset) :
      Covers (symmetricDifference old new) byte ↔ Xor (Covers old byte) (Covers new byte) := by
    rw [found, covers_reverse]
    exact sound.covers_iff done named
  have separated : Separated (symmetricDifference old new) := found ▸ sound.listed.separated
  refine ⟨covers, separated.filled, separated.apart, ?_, rounds, last, runs, bound, found⟩
  have swappedSeparated : Separated (symmetricDifference new old) :=
    swappedFound ▸ swappedSound.listed.separated
  refine swappedSeparated.bytes_eq separated fun byte => ?_
  by_cases named : byte < maxOffset
  · rw [covers byte named, swappedFound, covers_reverse, swappedSound.covers_iff swappedDone named,
      xor_comm]
  · -- nothing reaches past the end of everything
    have far := Nat.le_of_not_lt named
    have none := sound.listed.not_covers (Nat.le_trans sound.near far)
    have swappedNone := swappedSound.listed.not_covers (Nat.le_trans swappedSound.near far)
    simp [found, swappedFound, none, swappedNone]

/-- Spans that touch, one of them empty, against spans with a gap of which the last one goes to the
end of everything. -/
theorem symmetricDifference_exact_touching :
    let old : List Span :=
      [⟨⟨0, 0, 0⟩, ⟨3, 0, 3⟩⟩, ⟨⟨3, 0, 3⟩, ⟨3, 0, 3⟩⟩, ⟨⟨3, 0, 3⟩, ⟨10, 0, 10⟩⟩]
    let new : List Span := [⟨⟨0, 0, 0⟩, ⟨4, 0, 4⟩⟩, ⟨⟨6, 0, 6⟩, Extent.max⟩]
    firstMisplaced old = none ∧ firstMisplaced new = none ∧
      (∀ span ∈ old, span.stop.bytes ≤ maxOffset) ∧ (∀ span ∈ new, span.stop.bytes ≤ maxOffset) ∧
      Covers (symmetricDifference old new) 5 ∧ ¬Covers (symmetricDifference old new) 3 ∧
      (symmetricDifference new old).map bytes = (symmetricDifference old new).map bytes := by
  intro old new
  have oldOrdered : firstMisplaced old = none := by decide
  have newOrdered : firstMisplaced new = none := by decide
  have oldBounded : ∀ span ∈ old, span.stop.bytes ≤ maxOffset := by decide
  have newBounded : ∀ span ∈ new, span.stop.bytes ≤ maxOffset := by decide
  rcases symmetricDifference_exact oldOrdered newOrdered oldBounded newBounded with
    ⟨covers, _, _, swapped, _⟩
  refine ⟨oldOrdered, newOrdered, oldBounded, newBounded, ?_, ?_, swapped⟩
  · rw [covers 5 (by decide)]
    simp [old, new, Covers, Xor, Extent.max, maxOffset]
  · rw [covers 3 (by decide)]
    simp [old, new, Covers, Xor, Extent.max, maxOffset]

end Span

end Reparse
