/-!
# Source positions

A span is a half-open range of byte offsets in one file, a file span also names the file. Offsets
are words of 32 bits. A span may be reversed: its length is then zero and it counts as empty.
-/

namespace VhdlLowering

/-- Half-open range of byte offsets. -/
structure Span where
  start : UInt32
  stop : UInt32
deriving DecidableEq, Repr, Inhabited

namespace Span

def len (s : Span) : Nat := s.stop.toNat - s.start.toNat

def isEmpty (s : Span) : Bool := s.stop ≤ s.start

theorem isEmpty_iff_len (s : Span) : s.isEmpty = true ↔ s.len = 0 := by
  simp [isEmpty, len, UInt32.le_iff_toNat_le, Nat.sub_eq_zero_iff_le]

/-- The least span that starts no later and ends no earlier than both. -/
def cover (s t : Span) : Span := ⟨min s.start t.start, max s.stop t.stop⟩

theorem cover_self (s : Span) : s.cover s = s := by
  simp [cover, Min.min, Max.max]

def render (s : Span) : String := toString s.start ++ ".." ++ toString s.stop

end Span

/-- Number of a source file. -/
structure FileId where
  index : UInt32
deriving DecidableEq, Repr, Inhabited

def FileId.render (f : FileId) : String := "file#" ++ toString f.index

/-- A span in a given file. -/
structure FileSpan where
  file : FileId
  span : Span
deriving DecidableEq, Repr, Inhabited

def FileSpan.render (s : FileSpan) : String := s.file.render ++ ":" ++ s.span.render

end VhdlLowering
