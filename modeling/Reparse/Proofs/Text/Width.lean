import Reparse.Text.Extent

/-!
# How a text is measured

Positions and sizes in rows and columns are determined by the bytes that they span. `Text.width`
measures a stretch of a text byte by byte, and `Text.place` the stretch up to an offset. Widths add
up, and stretches of equal bytes are equally wide, wherever they begin.
-/

namespace Reparse

namespace Point

theorem append_assoc (first second third : Point) :
    first + second + third = first + (second + third) := by
  rcases first with ⟨firstRow, firstColumn⟩
  rcases second with ⟨secondRow, secondColumn⟩
  rcases third with ⟨thirdRow, thirdColumn⟩
  change append (append _ _) _ = append _ (append _ _)
  by_cases thirdTurns : 0 < thirdRow
  · have turns : 0 < secondRow + thirdRow := by omega
    by_cases secondTurns : 0 < secondRow <;>
      simp [append, secondTurns, thirdTurns, turns, Nat.add_assoc]
    omega
  · have flat : thirdRow = 0 := by omega
    by_cases secondTurns : 0 < secondRow <;>
      simp [append, secondTurns, flat, Nat.add_assoc]

theorem append_difference (base step : Point) : base + step - base = step := by
  rcases step with ⟨row, column⟩
  change difference (append base _) base = _
  by_cases turns : 0 < row
  · simp [append, difference, turns]
  · have flat : row = 0 := by omega
    simp [append, difference, flat]

end Point

namespace Extent

theorem append_assoc (first second third : Extent) :
    first + second + third = first + (second + third) := by
  change Extent.mk _ _ = Extent.mk _ _
  rw [mk.injEq]
  exact ⟨Nat.add_assoc _ _ _, Point.append_assoc _ _ _⟩

theorem append_zero (extent : Extent) : extent + zero = extent := by
  cases extent
  rfl

theorem zero_append (extent : Extent) : zero + extent = extent := by
  rcases extent with ⟨bytes, row, column⟩
  change mk (0 + bytes) (Point.append Point.zero ⟨row, column⟩) = _
  by_cases turns : 0 < row
  · simp [Point.append, Point.zero, turns]
  · obtain rfl : row = 0 := by omega
    simp [Point.append, Point.zero]

theorem append_difference (base step : Extent) : base + step - base = step := by
  rcases step with ⟨bytes, point⟩
  change Extent.mk _ _ = _
  rw [mk.injEq]
  exact ⟨Nat.add_sub_cancel_left _ _, Point.append_difference _ _⟩

end Extent

namespace Text

/-- The extent of one byte. -/
def breadth (byte : Option UInt8) : Extent := if byte = some 10 then ⟨1, ⟨1, 0⟩⟩ else ⟨1, ⟨0, 1⟩⟩

/-- The extent of so many bytes from an offset on. -/
def width (text : Text) (start : Nat) : Nat → Extent
  | 0 => Extent.zero
  | length + 1 => text.width start length + breadth text[start + length]?

/-- The position of an offset. -/
def place (text : Text) (offset : Nat) : Extent := text.width 0 offset

variable {text : Text} {start : Nat}

theorem bytes_breadth (byte : Option UInt8) : (breadth byte).bytes = 1 := by
  unfold breadth
  split <;> rfl

@[simp]
theorem bytes_width (length : Nat) : (text.width start length).bytes = length := by
  induction length with
  | zero => rfl
  | succ length ih => simp [width, ih, bytes_breadth]

@[simp]
theorem bytes_place (offset : Nat) : (text.place offset).bytes = offset := bytes_width offset

/-- The position tells the offset. -/
theorem place_injective {offset other : Nat} (same : text.place offset = text.place other) :
    offset = other := by
  have bytes := congrArg Extent.bytes same
  rwa [bytes_place, bytes_place] at bytes

@[simp]
theorem width_zero : text.width start 0 = Extent.zero := rfl

theorem width_one : text.width start 1 = breadth text[start]? := by
  simp only [width, Extent.zero_append, Nat.add_zero]

theorem width_append (first second : Nat) :
    text.width start (first + second) =
      text.width start first + text.width (start + first) second := by
  induction second with
  | zero => exact (Extent.append_zero _).symm
  | succ second ih =>
      rw [← Nat.add_assoc, width, ih, width, Extent.append_assoc, Nat.add_assoc]

theorem place_add (offset length : Nat) :
    text.place (offset + length) = text.place offset + text.width offset length := by
  rw [place, place, width_append, Nat.zero_add]

theorem place_difference (offset length : Nat) :
    text.place (offset + length) - text.place offset = text.width offset length := by
  rw [place_add]
  exact Extent.append_difference _ _

/-- A stretch is as wide as its parts laid end to end. -/
theorem width_between {middle stop : Nat} (first : start ≤ middle) (last : middle ≤ stop) :
    text.width start (middle - start) + text.width middle (stop - middle) =
      text.width start (stop - start) := by
  have place : start + (middle - start) = middle := by omega
  have length : middle - start + (stop - middle) = stop - start := by omega
  rw [← length, width_append, place]

theorem place_between {stop : Nat} (forward : start ≤ stop) :
    text.place start + text.width start (stop - start) = text.place stop := by
  rw [← place_add, Nat.add_sub_cancel' forward]

theorem place_sub {stop : Nat} (forward : start ≤ stop) :
    text.place stop - text.place start = text.width start (stop - start) := by
  rw [← place_difference, Nat.add_sub_cancel' forward]

/-- Behind the first byte the position lies behind the first point. -/
theorem zero_before_place {offset : Nat} (behind : 0 < offset) :
    Point.zero.before (text.place offset).point = true := by
  cases offset with
  | zero => exact absurd behind (Nat.lt_irrefl 0)
  | succ offset =>
      rw [place_add, width_one, Extent.point_add]
      rcases (text.place offset).point with ⟨row, column⟩
      unfold breadth
      split
      · change Point.zero.before (Point.append _ _) = true
        simp [Point.append, Point.before, Point.zero]
      · have order : 0 < row ∨ 0 = row := by omega
        change Point.zero.before (Point.append _ _) = true
        simpa [Point.append, Point.before, Point.zero] using order

/-- Stretches of equal bytes are equally wide. -/
theorem width_congr {other : Text} {start place length : Nat}
    (same : ∀ index < length, text[start + index]? = other[place + index]?) :
    text.width start length = other.width place length := by
  induction length with
  | zero => rfl
  | succ length ih =>
      have before := ih fun index inside => same index (by omega)
      simp [width, before, same length (Nat.lt_succ_self length)]

/-- A stretch without a line end stays on its row. -/
theorem width_of_no_newline {length : Nat}
    (flat : ∀ index < length, text[start + index]? ≠ some 10) :
    text.width start length = ⟨length, ⟨0, length⟩⟩ := by
  induction length with
  | zero => rfl
  | succ length ih =>
      have before := ih fun index inside => flat index (by omega)
      rw [width, before, breadth, if_neg (flat length (Nat.lt_succ_self length))]
      rfl

/-! ## Rows and columns -/

/-- The number of line ends before an offset, and the number of bytes since the last of them. -/
def pointAt (text : Text) (offset : Nat) : Point :=
  let before := text.toList.take offset
  ⟨before.count 10, (before.reverse.takeWhile (· ≠ 10)).length⟩

/-- Within a text, the position of an offset counts line ends and the bytes since the last. -/
theorem point_place {offset : Nat} (inside : offset ≤ text.size) :
    (text.place offset).point = text.pointAt offset := by
  induction offset with
  | zero => rfl
  | succ offset ih =>
      have here : offset < text.toList.length := by
        rw [Array.length_toList]
        exact inside
      have earlier := ih (Nat.le_of_succ_le inside)
      rw [place_add, Extent.point_add, earlier, width_one, pointAt, pointAt,
        List.take_succ_eq_append_getElem here, List.count_append, List.reverse_append,
        List.reverse_singleton, List.singleton_append, List.takeWhile_cons,
        Array.getElem?_eq_getElem inside]
      by_cases turns : text[offset] = 10
      · simp only [breadth, turns, if_true, Array.getElem_toList]
        change Point.append _ _ = _
        simp [Point.append]
      · have other : some text[offset] ≠ some 10 := fun same => turns (Option.some.inj same)
        simp only [breadth, if_neg other, Array.getElem_toList]
        change Point.append _ _ = _
        simp [Point.append, turns]

/-- An extent whose point is the position of its bytes is a position of the text. -/
theorem eq_place {extent : Extent} (inside : extent.bytes ≤ text.size)
    (point : extent.point = text.pointAt extent.bytes) : extent = text.place extent.bytes := by
  rcases extent with ⟨bytes, point_⟩
  change Extent.mk _ _ = Extent.mk (text.place bytes).bytes (text.place bytes).point
  rw [bytes_place, point_place inside]
  exact congrArg _ point

/-! ## Texts that are alike in a stretch -/

/-- From `source` up to and including `bound` a text reads as another one does from `target` on; the
end of a text counts as a byte. -/
def Mirrors (text other : Text) (source target bound : Nat) : Prop :=
  ∀ place image, source ≤ place → place ≤ bound → image + source = place + target →
    other[image]? = text[place]?

variable {other : Text} {source target bound : Nat}

theorem mirrors_self (text : Text) (source bound : Nat) : text.Mirrors text source source bound := by
  intro place image _ _ moved
  rw [show image = place by omega]

/-- The other text reads as this one does, up to the image of the last place. -/
theorem Mirrors.symm (mirrors : text.Mirrors other source target bound) {last : Nat}
    (moved : last + source = bound + target) : other.Mirrors text target source last := by
  intro place image begun inside along
  exact (mirrors image place (by omega) (by omega) (by omega)).symm

theorem Mirrors.restrict (mirrors : text.Mirrors other source target bound)
    {offset image last : Nat}
    (begun : source ≤ offset) (inside : last ≤ bound) (moved : image + source = offset + target) :
    text.Mirrors other offset image last := by
  intro place there first final along
  apply mirrors <;> omega

theorem Mirrors.width (mirrors : text.Mirrors other source target bound) {image length : Nat}
    (begun : source ≤ start) (ended : start + length ≤ bound + 1)
    (moved : image + source = start + target) :
    other.width image length = text.width start length := by
  apply width_congr
  intro index inside
  apply mirrors <;> omega

end Text

end Reparse
