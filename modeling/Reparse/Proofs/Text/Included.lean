import Reparse.Proofs.Text.Decode
import Reparse.Text.Span

/-!
# The bytes that spans include

Spans of a text include some of its bytes, which make a text of their own (`Text.included`). The
bytes that are still to come at an offset, in a span or between two, are the rest of that text from
some place on (`Text.bytesFrom`).

If the spans are in order and begin and end where the text may be cut (`Text.Cut`), no character
reaches from included bytes into others. What is read in a span is then what stands at the beginning
of the bytes still to come (`Text.Cut.next_eq`), also where the rest of a character lies in a later
span.
-/

namespace Reparse

namespace Text

variable {text : Text}

/-- Whether an offset is the beginning of a text or has no byte that continues a character. -/
def isBoundary (text : Text) (offset : Nat) : Bool :=
  offset == 0 || text[offset]?.all fun byte => !Utf8.isTail byte

theorem interrupts_of_isBoundary {offset : Nat} (boundary : text.isBoundary offset = true)
    (later : 0 < offset) : Utf8.Interrupts text[offset]? := by
  have positive : offset ≠ 0 := by omega
  intro byte found
  simpa [isBoundary, positive, found] using boundary

/-! ## Stretches -/

/-- The bytes from one offset up to another. -/
def stretch (text : Text) (start stop : Nat) : List UInt8 := (text.toList.take stop).drop start

theorem toList_extract_eq (start stop : Nat) :
    (text.extract start stop).toList = text.stretch start stop := by
  rw [Array.toList_extract, List.extract_eq_take_drop, stretch, List.drop_take]

theorem getElem?_stretch (start stop index : Nat) :
    (text.stretch start stop)[index]? =
      if start + index < stop then text[start + index]? else none := by
  rw [stretch, List.getElem?_drop, List.getElem?_take, Array.getElem?_toList]

theorem length_stretch (start stop : Nat) :
    (text.stretch start stop).length = min stop text.size - start := by
  simp [stretch]

theorem stretch_eq_nil {start stop : Nat} (short : stop ≤ start ∨ text.size ≤ start) :
    text.stretch start stop = [] := by
  apply List.eq_nil_of_length_eq_zero
  rw [length_stretch]
  omega

theorem drop_stretch (start stop count : Nat) :
    (text.stretch start stop).drop count = text.stretch (start + count) stop := by
  rw [stretch, List.drop_drop, stretch]

/-! ## Included bytes -/

/-- The text that spans include, laid end to end. -/
def included (text : Text) : List Span → Text
  | [] => #[]
  | span :: rest => text.extract span.start.bytes span.stop.bytes ++ included text rest

/-- What spans include from an offset on. -/
def bytesFrom (text : Text) (offset : Nat) : List Span → List UInt8
  | [] => []
  | span :: rest =>
    text.stretch (max offset span.start.bytes) span.stop.bytes ++ bytesFrom text offset rest

@[simp]
theorem bytesFrom_nil (offset : Nat) : text.bytesFrom offset [] = [] := rfl

@[simp]
theorem bytesFrom_append (offset : Nat) (before after : List Span) :
    text.bytesFrom offset (before ++ after) =
      text.bytesFrom offset before ++ text.bytesFrom offset after := by
  induction before with
  | nil => rfl
  | cons span rest ih =>
      change _ ++ text.bytesFrom offset (rest ++ after) = (_ ++ text.bytesFrom offset rest) ++ _
      rw [ih, List.append_assoc]

theorem toList_included (spans : List Span) :
    (text.included spans).toList = text.bytesFrom 0 spans := by
  induction spans with
  | nil => rfl
  | cons span rest ih =>
      rw [included, Array.toList_append, toList_extract_eq, ih, bytesFrom, Nat.zero_max]

/-- A span has nothing to show from its end on, nor does an empty one. -/
def Passed (offset : Nat) (span : Span) : Prop :=
  span.stop.bytes ≤ offset ∨ span.stop.bytes ≤ span.start.bytes

instance (offset : Nat) (span : Span) : Decidable (Passed offset span) :=
  inferInstanceAs (Decidable (_ ∨ _))

theorem bytesFrom_of_passed {offset : Nat} {spans : List Span}
    (passed : ∀ span ∈ spans, Passed offset span) : text.bytesFrom offset spans = [] := by
  induction spans with
  | nil => rfl
  | cons span rest ih =>
      have here : Passed offset span := passed span List.mem_cons_self
      rw [bytesFrom, stretch_eq_nil (by unfold Passed at here; omega), List.nil_append,
        ih fun other member => passed other (List.mem_cons_of_mem _ member)]

end Text

/-! ## Order -/

namespace Span

/-- The spans are in order from an offset on. -/
def Ordered (reached : Nat) : List Span → Prop
  | [] => True
  | span :: rest =>
    reached ≤ span.start.bytes ∧ span.start.bytes ≤ span.stop.bytes ∧ Ordered span.stop.bytes rest

theorem ordered_of_firstMisplacedFrom {reached index : Nat} {spans : List Span}
    (placed : firstMisplacedFrom reached index spans = none) : Ordered reached spans := by
  induction spans generalizing reached index with
  | nil => trivial
  | cons span rest ih =>
      rw [firstMisplacedFrom] at placed
      split at placed
      · cases placed
      · exact ⟨by omega, by omega, ih placed⟩

theorem firstMisplacedFrom_of_ordered {reached index : Nat} {spans : List Span}
    (ordered : Ordered reached spans) : firstMisplacedFrom reached index spans = none := by
  induction spans generalizing reached index with
  | nil => rfl
  | cons span rest ih =>
      rcases ordered with ⟨begins, forward, later⟩
      rw [firstMisplacedFrom, if_neg (by omega)]
      exact ih later

namespace Ordered

variable {reached : Nat} {span : Span} {spans before after : List Span}

theorem start_le (ordered : Ordered reached spans) (member : span ∈ spans) :
    reached ≤ span.start.bytes := by
  induction spans generalizing reached with
  | nil => cases member
  | cons first rest ih =>
      rcases ordered with ⟨begins, forward, later⟩
      rcases List.mem_cons.mp member with rfl | member
      · exact begins
      · exact Nat.le_trans begins (Nat.le_trans forward (ih later member))

theorem start_le_stop (ordered : Ordered reached (before ++ span :: after)) :
    span.start.bytes ≤ span.stop.bytes := by
  induction before generalizing reached with
  | nil => exact ordered.2.1
  | cons first rest ih => exact ih ordered.2.2

theorem stop_le (ordered : Ordered reached (before ++ span :: after)) {other : Span}
    (member : other ∈ before) : other.stop.bytes ≤ span.start.bytes := by
  induction before generalizing reached with
  | nil => cases member
  | cons first rest ih =>
      rcases List.mem_cons.mp member with rfl | member
      · exact start_le ordered.2.2 (List.mem_append_right _ List.mem_cons_self)
      · exact ih ordered.2.2 member

/-- The span before another one ends between all earlier ones and that one. -/
theorem le_last (ordered : Ordered reached (before ++ span :: after)) {last : Span}
    (found : before.getLast? = some last) :
    (∀ other ∈ before, other.stop.bytes ≤ last.stop.bytes) ∧
      last.stop.bytes ≤ span.start.bytes := by
  rcases List.getLast?_eq_some_iff.mp found with ⟨earlier, rfl⟩
  have ends : last.stop.bytes ≤ span.start.bytes := ordered.stop_le (by simp)
  rw [List.append_assoc, List.singleton_append] at ordered
  refine ⟨fun other member => ?_, ends⟩
  rcases List.mem_append.mp member with member | member
  · exact Nat.le_trans (ordered.stop_le member) ordered.start_le_stop
  · obtain rfl : other = last := by simpa using member
    exact Nat.le_refl _

theorem tail (ordered : Ordered reached (before ++ span :: after)) :
    Ordered span.stop.bytes after := by
  induction before generalizing reached with
  | nil => exact ordered.2.2
  | cons first rest ih => exact ih ordered.2.2

/-- No span ends behind the last one. -/
theorem stop_le_final (ordered : Ordered reached (before ++ span :: after)) {last : Span}
    (found : (before ++ span :: after).getLast? = some last) :
    span.stop.bytes ≤ last.stop.bytes := by
  rcases List.getLast?_eq_some_iff.mp found with ⟨earlier, split⟩
  have member : span ∈ earlier ++ [last] := split ▸ List.mem_append_right _ List.mem_cons_self
  rw [split] at ordered
  rcases List.mem_append.mp member with member | member
  · exact Nat.le_trans (ordered.stop_le member) ordered.start_le_stop
  · obtain rfl : span = last := by simpa using member
    exact Nat.le_refl _

end Ordered

end Span

namespace Text

variable {text : Text}

/-! ## Cuts -/

/-- The spans are in order from an offset on, and each that is not empty begins and ends where the
text may be cut. -/
def Cut (text : Text) (reached : Nat) : List Span → Prop
  | [] => True
  | span :: rest =>
    reached ≤ span.start.bytes ∧ span.start.bytes ≤ span.stop.bytes ∧
      (span.start.bytes < span.stop.bytes →
        text.isBoundary span.start.bytes = true ∧ text.isBoundary span.stop.bytes = true) ∧
      Cut text span.stop.bytes rest

/-- Spans in which no member is out of place cut the text if the members that are not empty do. -/
theorem cut_of_firstMisplacedFrom {reached index : Nat} {spans : List Span}
    (ordered : Span.firstMisplacedFrom reached index spans = none)
    (boundaries : ∀ span ∈ spans, span.start.bytes < span.stop.bytes →
      text.isBoundary span.start.bytes = true ∧ text.isBoundary span.stop.bytes = true) :
    text.Cut reached spans := by
  induction spans generalizing reached index with
  | nil => trivial
  | cons span rest ih =>
      rw [Span.firstMisplacedFrom] at ordered
      split at ordered
      · cases ordered
      · rename_i placed
        refine ⟨by omega, by omega, boundaries span List.mem_cons_self, ih ordered ?_⟩
        exact fun other member => boundaries other (List.mem_cons_of_mem _ member)

namespace Cut

variable {reached : Nat} {span : Span} {spans before after : List Span}

theorem ordered (cut : text.Cut reached spans) : Span.Ordered reached spans := by
  induction spans generalizing reached with
  | nil => trivial
  | cons span rest ih => exact ⟨cut.1, cut.2.1, ih cut.2.2.2⟩

theorem start_le (cut : text.Cut reached spans) (member : span ∈ spans) :
    reached ≤ span.start.bytes := cut.ordered.start_le member

theorem tail (cut : text.Cut reached (before ++ span :: after)) :
    text.Cut span.stop.bytes after := by
  induction before generalizing reached with
  | nil => exact cut.2.2.2
  | cons first rest ih => exact ih cut.2.2.2

theorem start_le_stop (cut : text.Cut reached (before ++ span :: after)) :
    span.start.bytes ≤ span.stop.bytes := cut.ordered.start_le_stop

theorem boundaries (cut : text.Cut reached (before ++ span :: after))
    (inhabited : span.start.bytes < span.stop.bytes) :
    text.isBoundary span.start.bytes = true ∧ text.isBoundary span.stop.bytes = true := by
  induction before generalizing reached with
  | nil => exact cut.2.2.1 inhabited
  | cons first rest ih => exact ih cut.2.2.2

theorem stop_le (cut : text.Cut reached (before ++ span :: after)) {other : Span}
    (member : other ∈ before) : other.stop.bytes ≤ span.start.bytes := cut.ordered.stop_le member

/-- The span before another one ends between all earlier ones and that one. -/
theorem le_last (cut : text.Cut reached (before ++ span :: after)) {last : Span}
    (found : before.getLast? = some last) :
    (∀ other ∈ before, other.stop.bytes ≤ last.stop.bytes) ∧
      last.stop.bytes ≤ span.start.bytes := cut.ordered.le_last found

/-- No span ends behind the last one. -/
theorem stop_le_final (cut : text.Cut reached (before ++ span :: after)) {last : Span}
    (found : (before ++ span :: after).getLast? = some last) :
    span.stop.bytes ≤ last.stop.bytes := cut.ordered.stop_le_final found

theorem suffix (cut : text.Cut reached (before ++ span :: after)) :
    text.Cut span.start.bytes (span :: after) := by
  induction before generalizing reached with
  | nil => exact ⟨Nat.le_refl _, cut.2⟩
  | cons first rest ih => exact ih cut.2.2.2

/-- Before the first span it does not matter where one is. -/
theorem bytesFrom_congr (cut : text.Cut reached spans) {offset other : Nat}
    (early : offset ≤ reached) (first : other ≤ reached) :
    text.bytesFrom offset spans = text.bytesFrom other spans := by
  induction spans generalizing reached with
  | nil => rfl
  | cons span rest ih =>
      rcases cut with ⟨begins, ordered, _, later⟩
      rw [bytesFrom, bytesFrom, ih later (by omega) (by omega), Nat.max_eq_right (by omega),
        Nat.max_eq_right (by omega)]

theorem bytesFrom_of_size_le (cut : text.Cut reached spans) (beyond : text.size ≤ reached)
    (offset : Nat) : text.bytesFrom offset spans = [] := by
  induction spans generalizing reached with
  | nil => rfl
  | cons span rest ih =>
      rcases cut with ⟨begins, ordered, _, later⟩
      rw [bytesFrom, stretch_eq_nil (Or.inr (by omega)), List.nil_append, ih later (by omega)]

/-- Between two spans it does not matter where one is either. -/
theorem bytesFrom_of_passed (cut : text.Cut reached (before ++ span :: after)) {offset : Nat}
    (passed : ∀ other ∈ before, Passed offset other) (early : offset ≤ span.start.bytes) :
    text.bytesFrom offset (before ++ span :: after) =
      text.bytesFrom span.start.bytes (before ++ span :: after) := by
  have earlier : ∀ other ∈ before, Passed span.start.bytes other :=
    fun other member => Or.inl (cut.stop_le member)
  rw [bytesFrom_append, bytesFrom_append, Text.bytesFrom_of_passed passed,
    Text.bytesFrom_of_passed earlier, cut.suffix.bytesFrom_congr early (Nat.le_refl _)]

/-- The bytes still to come in a span are those up to its end and those of the later ones. -/
theorem bytesFrom_eq (cut : text.Cut reached (before ++ span :: after)) {offset : Nat}
    (begun : span.start.bytes ≤ offset) (inside : offset ≤ span.stop.bytes) :
    text.bytesFrom offset (before ++ span :: after) =
      text.stretch offset span.stop.bytes ++ text.bytesFrom span.stop.bytes after := by
  have earlier : text.bytesFrom offset before = [] :=
    Text.bytesFrom_of_passed fun other member =>
      Or.inl (Nat.le_trans (cut.stop_le member) begun)
  rw [bytesFrom_append, earlier, List.nil_append, bytesFrom, Nat.max_eq_left begun,
    cut.tail.bytesFrom_congr inside (Nat.le_refl _)]

theorem length_bytesFrom_le (cut : text.Cut reached spans) (offset : Nat) :
    (text.bytesFrom offset spans).length ≤ text.size - reached := by
  induction spans generalizing reached with
  | nil => exact Nat.zero_le _
  | cons span rest ih =>
      rcases cut with ⟨begins, ordered, _, later⟩
      have rest := ih later
      rw [bytesFrom, List.length_append, length_stretch]
      omega

/-- Where the first bytes still to come are those of a later span, they continue no character. -/
theorem interrupts_bytesFrom (cut : text.Cut reached spans) (positive : 0 < reached) (offset : Nat)
    (early : offset ≤ reached) : Utf8.Interrupts (text.bytesFrom offset spans)[0]? := by
  induction spans generalizing reached with
  | nil =>
      intro byte found
      simp at found
  | cons span rest ih =>
      rcases cut with ⟨begins, ordered, boundaries, later⟩
      rw [bytesFrom, Nat.max_eq_right (Nat.le_trans early begins)]
      by_cases shows : span.start.bytes < min span.stop.bytes text.size
      · have first : (text.stretch span.start.bytes span.stop.bytes)[0]? =
            text[span.start.bytes]? := by
          rw [getElem?_stretch, Nat.add_zero, if_pos (by omega)]
        have here : 0 < (text.stretch span.start.bytes span.stop.bytes).length := by
          rw [length_stretch]
          omega
        rw [List.getElem?_append_left here, first]
        exact interrupts_of_isBoundary (boundaries (by omega)).1 (by omega)
      · rw [stretch_eq_nil (by omega), List.nil_append]
        exact ih later (by omega) (by omega)

/-- What is read in a span stands at the beginning of the bytes still to come, and does not reach
beyond the end of the span. -/
theorem next_eq (cut : text.Cut reached (before ++ span :: after)) {offset : Nat}
    (begun : span.start.bytes ≤ offset) (inside : offset < span.stop.bytes) :
    Utf8.next? text offset =
      Utf8.next? (text.bytesFrom offset (before ++ span :: after)).toArray 0 := by
  have length : offset + (span.stop.bytes - offset) = span.stop.bytes := by omega
  have ends : Utf8.Interrupts text[offset + (span.stop.bytes - offset)]? := by
    rw [length]
    exact interrupts_of_isBoundary (cut.boundaries (by omega)).2 (by omega)
  have listed (bytes : List UInt8) (index : Nat) : bytes.toArray[0 + index]? = bytes[index]? := by
    rw [Nat.zero_add, List.getElem?_toArray]
  rw [cut.bytesFrom_eq begun (by omega)]
  refine Utf8.next_of_interrupted (show 0 < span.stop.bytes - offset by omega) ?_ ends ?_
  · intro index within
    rw [listed]
    by_cases shown : offset + index < text.size
    · rw [List.getElem?_append_left (by rw [length_stretch]; omega), getElem?_stretch,
        if_pos (by omega)]
    · -- the text ends in the span, so the later spans show nothing
      rw [cut.tail.bytesFrom_of_size_le (by omega), List.append_nil, getElem?_stretch,
        if_pos (by omega)]
  · rw [listed]
    by_cases whole : span.stop.bytes ≤ text.size
    · have extent : (text.stretch offset span.stop.bytes).length = span.stop.bytes - offset := by
        rw [length_stretch]
        omega
      rw [List.getElem?_append_right (by omega), extent, Nat.sub_self]
      exact cut.tail.interrupts_bytesFrom (by omega) _ (Nat.le_refl _)
    · intro byte found
      rw [cut.tail.bytesFrom_of_size_le (by omega), List.append_nil, getElem?_stretch,
        if_neg (by omega)] at found
      cases found

theorem size_le (cut : text.Cut reached (before ++ span :: after)) {offset : Nat}
    {decoded : Utf8.Decoded} (begun : span.start.bytes ≤ offset)
    (inside : offset < span.stop.bytes) (read : Utf8.next? text offset = some decoded) :
    offset + decoded.size ≤ span.stop.bytes := by
  have length : offset + (span.stop.bytes - offset) = span.stop.bytes := by omega
  have ends : Utf8.Interrupts text[offset + (span.stop.bytes - offset)]? := by
    rw [length]
    exact interrupts_of_isBoundary (cut.boundaries (by omega)).2 (by omega)
  have short := Utf8.size_le_of_interrupted (by omega) ends read
  omega

/-- Moving on in a span drops what one passes from the bytes still to come. -/
theorem bytesFrom_add (cut : text.Cut reached (before ++ span :: after)) {offset count : Nat}
    (begun : span.start.bytes ≤ offset) (inside : offset + count ≤ span.stop.bytes)
    (within : offset + count ≤ text.size) :
    text.bytesFrom (offset + count) (before ++ span :: after) =
      (text.bytesFrom offset (before ++ span :: after)).drop count := by
  have extent : count ≤ (text.stretch offset span.stop.bytes).length := by
    rw [length_stretch]
    omega
  rw [cut.bytesFrom_eq (by omega) inside, cut.bytesFrom_eq begun (by omega),
    List.drop_append_of_le_length extent, drop_stretch]

theorem size_included_le (cut : text.Cut 0 spans) : (text.included spans).size ≤ text.size := by
  rw [← Array.length_toList, toList_included]
  exact cut.length_bytesFrom_le 0

end Cut

/-! ## All of a text -/

theorem included_whole (short : text.size < maxOffset) : text.included [Span.whole] = text := by
  change text.extract 0 maxOffset ++ #[] = text
  rw [Array.append_empty, Array.extract_eq_self_of_le (Nat.le_of_lt short)]

theorem cut_whole (short : text.size < maxOffset) : text.Cut 0 [Span.whole] := by
  refine ⟨Nat.le_refl _, Nat.zero_le _, fun _ => ⟨rfl, ?_⟩, trivial⟩
  have beyond : text[Span.whole.stop.bytes]? = none :=
    Array.getElem?_eq_none (Nat.le_of_lt short)
  simp [isBoundary, beyond]

end Text

end Reparse
