/-!
# Positions and extents

A text is measured in bytes and, side by side, in rows and columns. A `Point` counts rows and the
byte columns of the last row; an `Extent` pairs a byte count with a point. The same pair serves as
a length and as a position, a position being the length of everything before it.

Lengths are laid end to end with `+`. The sum is not commutative: the second length starts at the
first one's column only as long as it stays on that row. `-` takes a length away from the front
and stops at zero.
-/

namespace Reparse

/-- The bytes of a document. They need not be valid UTF-8. -/
abbrev Text := Array UInt8

/-- The largest offset that can be named; as the end of a span it means "to the end of the text". -/
def maxOffset : Nat := 4294967295

/-- A zero-based row and a zero-based byte column. -/
structure Point where
  row : Nat
  column : Nat
  deriving DecidableEq, Repr, Inhabited

namespace Point

def zero : Point := ⟨0, 0⟩

/-- The place reached from `base` by moving on by `step`: a step over a line end resets the
column. -/
def append (base step : Point) : Point :=
  if 0 < step.row then ⟨base.row + step.row, step.column⟩ else ⟨base.row, base.column + step.column⟩

/-- The step from `base` to `place`, nothing if `place` does not come after `base`. -/
def difference (place base : Point) : Point :=
  if base.row < place.row then ⟨place.row - base.row, place.column⟩
  else ⟨0, place.column - base.column⟩

instance : Add Point := ⟨append⟩
instance : Sub Point := ⟨difference⟩

/-- Reading order: by row, then by column. -/
def before (left right : Point) : Bool :=
  left.row < right.row || (left.row == right.row && left.column < right.column)

end Point

/-- A number of bytes together with the rows and columns they cover. -/
structure Extent where
  bytes : Nat
  point : Point
  deriving DecidableEq, Repr, Inhabited

namespace Extent

def zero : Extent := ⟨0, Point.zero⟩

/-- The end of everything that can be named. -/
def max : Extent := ⟨maxOffset, ⟨maxOffset, maxOffset⟩⟩

def append (base step : Extent) : Extent := ⟨base.bytes + step.bytes, base.point + step.point⟩

def difference (place base : Extent) : Extent :=
  ⟨place.bytes - base.bytes, place.point - base.point⟩

instance : Add Extent := ⟨append⟩
instance : Sub Extent := ⟨difference⟩

/-- What is left of `whole` after `part`: nothing, in rows and columns too, unless `whole` has more
bytes. -/
def remainder (whole part : Extent) : Extent :=
  if part.bytes < whole.bytes then whole - part else zero

/-- The one with fewer bytes, the second if they are equally long. -/
def shorter (left right : Extent) : Extent := if left.bytes < right.bytes then left else right

@[simp]
theorem bytes_add (base step : Extent) : (base + step).bytes = base.bytes + step.bytes := rfl

@[simp]
theorem point_add (base step : Extent) : (base + step).point = base.point + step.point := rfl

@[simp]
theorem bytes_sub (place base : Extent) : (place - base).bytes = place.bytes - base.bytes := rfl

@[simp]
theorem point_sub (place base : Extent) : (place - base).point = place.point - base.point := rfl

/-- In bytes, what is left is the difference, which stops at zero. -/
@[simp]
theorem bytes_remainder (whole part : Extent) :
    (whole.remainder part).bytes = whole.bytes - part.bytes := by
  unfold remainder
  split
  · rfl
  · simp only [zero]
    omega

@[simp]
theorem bytes_shorter (left right : Extent) :
    (left.shorter right).bytes = min left.bytes right.bytes := by
  unfold shorter
  split <;> omega

end Extent

end Reparse
