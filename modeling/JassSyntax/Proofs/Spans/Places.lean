import JassSyntax.Source.Position
import Mathlib.Data.String.Basic

/-!
# Places in a text

A place of a text is a position between two of its characters. Spans between places can be cut out
of the text, and the positions of two places agree as soon as their offsets do.
-/

namespace JassSyntax

/-- The position is that of a place in the text. -/
def Position.Placed (source : String) (p : Position) : Prop :=
  ∃ before after, source.toList = before ++ after ∧ p = Position.origin.afterAll before

namespace Position

variable {source : String} {p q : Position}

theorem offset_afterAll (p : Position) (cs : List Char) :
    (p.afterAll cs).offset = p.offset + String.utf8Len cs := by
  induction cs generalizing p with
  | nil => rfl
  | cons c cs ih =>
      rw [afterAll_cons, ih, offset_after, String.utf8Len_cons]
      omega

theorem placed_origin (source : String) : Placed source origin := ⟨[], source.toList, rfl, rfl⟩

theorem Placed.offset_le (h : p.Placed source) : p.offset ≤ source.utf8ByteSize := by
  obtain ⟨before, after, split, rfl⟩ := h
  rw [offset_afterAll, ← String.utf8Len_toList, split, String.utf8Len_append]
  show 0 + _ ≤ _
  omega

/-- A place lies on a boundary of characters. -/
theorem Placed.isValid (h : p.Placed source) :
    (⟨p.offset⟩ : String.Pos.Raw).IsValid source := by
  obtain ⟨before, after, split, rfl⟩ := h
  refine String.Pos.Raw.isValid_iff_exists_append.mpr
    ⟨String.ofList before, String.ofList after, ?_, ?_⟩
  · rw [← String.ofList_append, ← split, String.ofList_toList]
  · rw [offset_afterAll, String.rawEndPos_ofList]
    exact congrArg String.Pos.Raw.mk (Nat.zero_add _)

/-- Of two places the one with the smaller offset comes first. -/
theorem exists_between {before after before' after' : List Char}
    (same : before ++ after = before' ++ after')
    (le : String.utf8Len before ≤ String.utf8Len before') : ∃ mid, before' = before ++ mid := by
  rcases List.append_eq_append_iff.mp same with ⟨mid, split, _⟩ | ⟨mid, split, _⟩
  · exact ⟨mid, split⟩
  · rw [split, String.utf8Len_append] at le
    have none : mid = [] := String.utf8Len_eq_zero.mp (by omega)
    exact ⟨[], by rw [split, none, List.append_nil, List.append_nil]⟩

theorem Placed.eq_of_offset (hp : p.Placed source) (hq : q.Placed source)
    (same : p.offset = q.offset) : p = q := by
  obtain ⟨before, after, split, rfl⟩ := hp
  obtain ⟨before', after', split', rfl⟩ := hq
  rw [offset_afterAll, offset_afterAll] at same
  have len : String.utf8Len before = String.utf8Len before' := Nat.add_left_cancel same
  obtain ⟨mid, rfl⟩ := exists_between (split.symm.trans split') (Nat.le_of_eq len)
  rw [String.utf8Len_append] at len
  have none : mid = [] := String.utf8Len_eq_zero.mp (by omega)
  rw [none, List.append_nil]

end Position

namespace Span

variable {source : String} {s t : Span}

/-- The span lies on the characters of the text. -/
structure On (source : String) (s : Span) : Prop where
  start : s.start.Placed source
  stop : s.stop.Placed source
  le : s.start.offset ≤ s.stop.offset

theorem On.empty {p : Position} (h : p.Placed source) : On source (Span.empty p) :=
  ⟨h, h, Nat.le_refl _⟩

/-- The text under a span, if the span runs forward between characters of the text. -/
def slice? (source : String) (s : Span) : Option String :=
  if s.start.offset ≤ s.stop.offset ∧ (⟨s.start.offset⟩ : String.Pos.Raw).isValid source = true ∧
      (⟨s.stop.offset⟩ : String.Pos.Raw).isValid source = true then some (s.text source)
  else none

theorem On.slice? (h : s.On source) : s.slice? source = some (s.text source) :=
  if_pos ⟨h.le, String.Pos.Raw.isValid_eq_true_iff.mpr h.start.isValid,
    String.Pos.Raw.isValid_eq_true_iff.mpr h.stop.isValid⟩

/-- The span of characters of the text. -/
theorem on_of_append {before mid after : List Char}
    (split : source.toList = before ++ mid ++ after) :
    On source ⟨Position.origin.afterAll before, Position.origin.afterAll (before ++ mid)⟩ where
  start := ⟨before, mid ++ after, by rw [split, List.append_assoc], rfl⟩
  stop := ⟨before ++ mid, after, split, rfl⟩
  le := by
    rw [Position.offset_afterAll, Position.offset_afterAll, String.utf8Len_append]
    omega

theorem text_of_append {before mid after : List Char}
    (split : source.toList = before ++ mid ++ after) :
    Span.text ⟨Position.origin.afterAll before, Position.origin.afterAll (before ++ mid)⟩ source =
      String.ofList mid := by
  have whole : source = String.ofList (before ++ mid ++ after) := by
    rw [← split, String.ofList_toList]
  rw [Span.text, whole, Position.offset_afterAll, Position.offset_afterAll, String.utf8Len_append]
  show String.Pos.Raw.extract _ ⟨0 + _⟩ ⟨0 + _⟩ = _
  rw [Nat.zero_add, Nat.zero_add]
  exact String.extract_of_valid before mid after

/-- Spans in order are covered from the start of the first to the stop of the last. -/
theorem cover_of_le (hs : s.On source) (ht : t.On source)
    (start : s.start.offset ≤ t.start.offset) (stop : s.stop.offset ≤ t.stop.offset) :
    s.cover t = ⟨s.start, t.stop⟩ := by
  unfold cover
  rw [if_neg (Nat.not_lt_of_le start)]
  split
  · rfl
  · next same =>
    rw [hs.stop.eq_of_offset ht.stop (Nat.le_antisymm stop (Nat.le_of_not_lt same))]

end Span

end JassSyntax
