import Reparse.Text.Span

/-!
# Stretches that cover

The stretches found by a comparison are kept in a list, the latest one first. An extension of the
list at the place reached keeps what the list covers (`Span.covers_extend`), as long as the latest
stretch lies before that place, and it covers nothing else if the stretch added begins there
(`Span.covers_extend_iff`).

A list in which no stretch is empty and no two of them meet (`Span.Listed`, or `Span.Separated` in
reading order) is the only one that covers what it covers (`Span.Separated.bytes_eq`).
-/

namespace Reparse

namespace Span

/-- Some stretch of a list holds a byte. -/
def Covers (spans : List Span) (byte : Nat) : Prop :=
  ∃ span ∈ spans, span.start.bytes ≤ byte ∧ byte < span.stop.bytes

@[simp]
theorem not_covers_nil (byte : Nat) : ¬Covers [] byte := by simp [Covers]

@[simp]
theorem covers_cons {span : Span} {spans : List Span} {byte : Nat} :
    Covers (span :: spans) byte ↔
      (span.start.bytes ≤ byte ∧ byte < span.stop.bytes) ∨ Covers spans byte := by
  simp [Covers]

@[simp]
theorem covers_reverse {spans : List Span} {byte : Nat} :
    Covers spans.reverse byte ↔ Covers spans byte := by
  simp [Covers]

/-- The latest stretch lies before a place. -/
def LiesBefore (latest : List Span) (place : Nat) : Prop :=
  ∀ span ∈ latest.head?, span.start.bytes ≤ span.stop.bytes ∧ span.stop.bytes ≤ place

variable {latest : List Span} {start stop : Extent} {byte place : Nat}

theorem liesBefore_nil (place : Nat) : LiesBefore [] place := by simp [LiesBefore]

theorem LiesBefore.mono (before : LiesBefore latest place) {later : Nat} (le : place ≤ later) :
    LiesBefore latest later :=
  fun span member => ⟨(before span member).1, Nat.le_trans (before span member).2 le⟩

theorem LiesBefore.extend (before : LiesBefore latest start.bytes)
    (le : start.bytes ≤ stop.bytes) : LiesBefore (extend latest start stop) stop.bytes := by
  cases latest with
  | nil =>
      rw [Span.extend]
      split
      · intro span member
        cases member
        exact ⟨le, Nat.le_refl _⟩
      · nofun
  | cons last rest =>
      have ends := before last rfl
      rw [Span.extend]
      split
      · intro span member
        cases member
        exact ⟨Nat.le_trans ends.1 (Nat.le_trans ends.2 le), Nat.le_refl _⟩
      · split
        · intro span member
          cases member
          exact ⟨le, Nat.le_refl _⟩
        · exact before.mono le

/-- An extension keeps what was covered, and covers the stretch from any place on that the latest
one lies before. -/
theorem covers_extend (before : LiesBefore latest stop.bytes)
    (covered : Covers latest byte ∨
      (start.bytes ≤ byte ∧ byte < stop.bytes ∧ LiesBefore latest byte)) :
    Covers (extend latest start stop) byte := by
  cases latest with
  | nil =>
      rcases covered with ⟨span, member, _⟩ | ⟨begun, inside, _⟩
      · cases member
      · rw [extend, if_pos (by omega)]
        exact ⟨⟨start, stop⟩, List.mem_singleton_self _, begun, inside⟩
  | cons last rest =>
      have ends := before last rfl
      rw [extend]
      split
      · rcases covered with ⟨span, member, begun, inside⟩ | ⟨begun, inside, behind⟩
        · rcases List.mem_cons.mp member with rfl | earlier
          · exact ⟨_, List.mem_cons_self, begun, Nat.lt_of_lt_of_le inside ends.2⟩
          · exact ⟨span, List.mem_cons_of_mem _ earlier, begun, inside⟩
        · have latest := behind last rfl
          exact ⟨_, List.mem_cons_self, Nat.le_trans latest.1 latest.2, inside⟩
      · rcases covered with ⟨span, member, begun, inside⟩ | ⟨begun, inside, behind⟩
        · split
          · exact ⟨span, List.mem_cons_of_mem _ member, begun, inside⟩
          · exact ⟨span, member, begun, inside⟩
        · rw [if_pos (by omega)]
          exact ⟨⟨start, stop⟩, List.mem_cons_self, begun, inside⟩

/-- An extension at the place reached covers what was covered, and the stretch that is added. -/
theorem covers_extend_iff (before : LiesBefore latest start.bytes)
    (forward : start.bytes ≤ stop.bytes) :
    Covers (extend latest start stop) byte ↔
      Covers latest byte ∨ (start.bytes ≤ byte ∧ byte < stop.bytes) := by
  cases latest with
  | nil =>
      rw [extend]
      split
      · simp
      · rename_i short
        have empty : ¬(start.bytes ≤ byte ∧ byte < stop.bytes) := by omega
        simp only [empty, or_false]
  | cons last rest =>
      have ends := before last rfl
      rw [extend]
      split
      · -- the latest stretch ends where the new one begins
        have meets : (last.start.bytes ≤ byte ∧ byte < stop.bytes) ↔
            (last.start.bytes ≤ byte ∧ byte < last.stop.bytes) ∨
              (start.bytes ≤ byte ∧ byte < stop.bytes) := by omega
        rw [covers_cons, covers_cons, meets, or_right_comm]
      · split
        · rw [covers_cons, or_comm]
        · have empty : ¬(start.bytes ≤ byte ∧ byte < stop.bytes) := by omega
          simp only [empty, or_false]

/-! ## Lists in order -/

/-- Stretches between two places, latest first. -/
structure Listed (latest : List Span) (low high : Nat) : Prop where
  filled : ∀ span ∈ latest, span.start.bytes < span.stop.bytes
  apart : latest.Pairwise fun later earlier => earlier.stop.bytes < later.start.bytes
  above : ∀ span ∈ latest, low ≤ span.start.bytes
  below : ∀ span ∈ latest, span.stop.bytes ≤ high

variable {low high : Nat}

theorem listed_nil (low high : Nat) : Listed [] low high where
  filled := by simp
  apart := .nil
  above := by simp
  below := by simp

theorem Listed.mono (listed : Listed latest low high) {farther : Nat} (le : high ≤ farther) :
    Listed latest low farther where
  filled := listed.filled
  apart := listed.apart
  above := listed.above
  below := fun span member => Nat.le_trans (listed.below span member) le

theorem Listed.cons (listed : Listed latest low high) (filled : start.bytes < stop.bytes)
    (above : low ≤ start.bytes) (le : high ≤ stop.bytes)
    (behind : ∀ span ∈ latest, span.stop.bytes < start.bytes) :
    Listed (⟨start, stop⟩ :: latest) low stop.bytes where
  filled := by simpa [filled] using listed.filled
  apart := List.pairwise_cons.mpr ⟨behind, listed.apart⟩
  above := by simpa [above] using listed.above
  below := by
    simp only [List.mem_cons, forall_eq_or_imp]
    exact ⟨Nat.le_refl _, (listed.mono le).below⟩

theorem Listed.tail {last : Span} {rest : List Span} (listed : Listed (last :: rest) low high) :
    Listed rest low high where
  filled := (List.forall_mem_cons.mp listed.filled).2
  apart := listed.apart.of_cons
  above := (List.forall_mem_cons.mp listed.above).2
  below := (List.forall_mem_cons.mp listed.below).2

/-- Extending a list up to a place that all of it lies before keeps it in order. -/
theorem Listed.extend (listed : Listed latest low high) (above : low ≤ start.bytes)
    (le : high ≤ stop.bytes) : Listed (extend latest start stop) low stop.bytes := by
  cases latest with
  | nil =>
      rw [Span.extend]
      split
      · exact listed.cons ‹_› above le (by simp)
      · exact listed_nil _ _
  | cons last rest =>
      have lastFilled := listed.filled last List.mem_cons_self
      have lastBelow := listed.below last List.mem_cons_self
      have apart := List.pairwise_cons.mp listed.apart
      rw [Span.extend]
      split
      · apply listed.tail.cons _ (listed.above last List.mem_cons_self) le apart.1
        omega
      · split
        · apply listed.cons ‹_› above le
          intro span member
          rcases List.mem_cons.mp member with rfl | further
          · omega
          · have := apart.1 span further
            omega
        · exact listed.mono le

theorem Listed.liesBefore (listed : Listed latest low high) : LiesBefore latest high := by
  intro last member
  have among := List.mem_of_mem_head? member
  exact ⟨Nat.le_of_lt (listed.filled last among), listed.below last among⟩

/-- Stretches that end before a place cover nothing from there on. -/
theorem Listed.not_covers (listed : Listed latest low high) (le : high ≤ byte) :
    ¬Covers latest byte := by
  rintro ⟨span, member, _, inside⟩
  have ended := listed.below span member
  omega

/-- Stretches in reading order, none of them empty and no two of them meeting. -/
structure Separated (spans : List Span) : Prop where
  filled : ∀ span ∈ spans, span.start.bytes < span.stop.bytes
  apart : spans.Pairwise fun earlier later => earlier.stop.bytes < later.start.bytes

theorem Listed.separated (listed : Listed latest low high) : Separated latest.reverse where
  filled := by simpa using listed.filled
  apart := List.pairwise_reverse.mpr listed.apart

/-- The bytes where a stretch begins and ends. -/
def bytes (span : Span) : Nat × Nat := (span.start.bytes, span.stop.bytes)

namespace Separated

variable {first other : Span} {rest others spans : List Span}

theorem tail (separated : Separated (first :: rest)) : Separated rest where
  filled := (List.forall_mem_cons.mp separated.filled).2
  apart := separated.apart.of_cons

theorem covers_start (separated : Separated (first :: rest)) :
    Covers (first :: rest) first.start.bytes :=
  ⟨first, List.mem_cons_self, Nat.le_refl _, separated.filled first List.mem_cons_self⟩

/-- All that the later stretches cover lies behind the first one, which they do not meet. -/
theorem lt_of_covers (separated : Separated (first :: rest)) (covered : Covers rest byte) :
    first.stop.bytes < byte := by
  rcases covered with ⟨span, member, begun, _⟩
  exact Nat.lt_of_lt_of_le ((List.pairwise_cons.mp separated.apart).1 span member) begun

theorem start_le_of_covers (separated : Separated (first :: rest))
    (covered : Covers (first :: rest) byte) : first.start.bytes ≤ byte := by
  rcases covers_cons.mp covered with here | later
  · exact here.1
  · have filled := separated.filled first List.mem_cons_self
    have behind := separated.lt_of_covers later
    omega

theorem not_covers_stop (separated : Separated (first :: rest)) :
    ¬Covers (first :: rest) first.stop.bytes := by
  rw [covers_cons]
  rintro (here | later)
  · exact Nat.lt_irrefl _ here.2
  · exact Nat.lt_irrefl _ (separated.lt_of_covers later)

/-- The first stretch of one list ends before that of another one, if both begin at one place and
the first list covers what the second one does. -/
theorem stop_le_of_covers (separated : Separated (first :: rest))
    (start : other.start.bytes ≤ first.start.bytes)
    (covers : Covers (other :: others) first.stop.bytes → Covers (first :: rest) first.stop.bytes) :
    other.stop.bytes ≤ first.stop.bytes := by
  have filled := separated.filled first List.mem_cons_self
  refine Nat.le_of_not_lt fun longer => separated.not_covers_stop (covers ?_)
  exact covers_cons.mpr (Or.inl ⟨by omega, longer⟩)

/-- What the later stretches cover is what all of them cover behind the first one. -/
theorem covers_tail_iff (separated : Separated (first :: rest)) :
    Covers rest byte ↔ first.stop.bytes < byte ∧ Covers (first :: rest) byte := by
  constructor
  · intro covered
    exact ⟨separated.lt_of_covers covered, covers_cons.mpr (Or.inr covered)⟩
  · rintro ⟨behind, covered⟩
    refine (covers_cons.mp covered).resolve_left ?_
    omega

/-- Separated stretches are the only ones that cover what they cover. -/
theorem bytes_eq {left right : List Span} (leftSeparated : Separated left)
    (rightSeparated : Separated right) (same : ∀ byte, Covers left byte ↔ Covers right byte) :
    left.map bytes = right.map bytes := by
  induction left generalizing right with
  | nil =>
      cases right with
      | nil => rfl
      | cons other others =>
          exact absurd ((same _).mpr rightSeparated.covers_start) (not_covers_nil _)
  | cons first rest ih =>
      cases right with
      | nil => exact absurd ((same _).mp leftSeparated.covers_start) (not_covers_nil _)
      | cons other others =>
          have start : first.start.bytes = other.start.bytes :=
            Nat.le_antisymm
              (leftSeparated.start_le_of_covers ((same _).mpr rightSeparated.covers_start))
              (rightSeparated.start_le_of_covers ((same _).mp leftSeparated.covers_start))
          have stop : first.stop.bytes = other.stop.bytes :=
            Nat.le_antisymm
              (rightSeparated.stop_le_of_covers (Nat.le_of_eq start) (same _).mp)
              (leftSeparated.stop_le_of_covers (Nat.le_of_eq start.symm) (same _).mpr)
          have later (byte : Nat) : Covers rest byte ↔ Covers others byte := by
            rw [leftSeparated.covers_tail_iff, rightSeparated.covers_tail_iff, stop, same]
          rw [List.map_cons, List.map_cons, ih leftSeparated.tail rightSeparated.tail later, bytes,
            bytes, start, stop]

end Separated

end Span

end Reparse
