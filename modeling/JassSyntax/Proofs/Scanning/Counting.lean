import JassSyntax.Proofs.Layout.Pieces
import Mathlib.Data.List.DropRight

/-!
# What lines and columns count

A scanner moves its position on by one character after the other. Wherever it stands, the line is
the number of line feeds before that place, and the column is the number of characters since the
last of them. No other line end starts a line.
-/

namespace JassSyntax

namespace Position

variable {source : String} {p : Position}

theorem line_after (p : Position) (c : Char) :
    (p.after c).line = p.line + if c = '\n' then 1 else 0 := by
  unfold after
  split <;> rfl

theorem column_after (p : Position) (c : Char) :
    (p.after c).column = if c = '\n' then 0 else p.column + 1 := by
  unfold after
  split <;> rfl

theorem line_afterAll (p : Position) (cs : List Char) :
    (p.afterAll cs).line = p.line + cs.count '\n' := by
  induction cs generalizing p with
  | nil => rfl
  | cons c cs ih =>
      rw [afterAll_cons, ih, line_after, List.count_cons, Nat.add_assoc,
        Nat.add_comm (cs.count '\n')]
      simp only [beq_iff_eq]

/-- From the left end of a line on. -/
theorem column_afterAll (cs : List Char) :
    (origin.afterAll cs).column = (cs.rtakeWhile (· ≠ '\n')).length := by
  induction cs using List.reverseRecOn with
  | nil => rfl
  | append_singleton cs c ih =>
      rw [afterAll_append, afterAll_cons, afterAll_nil, column_after, ih]
      by_cases feed : c = '\n'
      · rw [if_pos feed, List.rtakeWhile_concat_neg _ _ _ (by simp [feed])]
        rfl
      · rw [if_neg feed, List.rtakeWhile_concat_pos _ _ _ (by simp [feed]), List.length_append]
        rfl

/-- The position counts what the text has before its offset: the line feeds, and the characters
behind the last line feed, or all of them when there is none. -/
def Counts (source : String) (p : Position) : Prop :=
  ∃ before after, source.toList = before ++ after ∧
    p.offset = (String.ofList before).utf8ByteSize ∧ p.line = before.count '\n' ∧
      p.column = (before.rtakeWhile (· ≠ '\n')).length

theorem offset_origin (cs : List Char) :
    (origin.afterAll cs).offset = (String.ofList cs).utf8ByteSize := by
  rw [offset_afterAll, ← String.utf8Len_toList, String.toList_ofList]
  exact Nat.zero_add _

theorem line_origin (cs : List Char) : (origin.afterAll cs).line = cs.count '\n' := by
  rw [line_afterAll]
  exact Nat.zero_add _

theorem Placed.counts (placed : p.Placed source) : p.Counts source := by
  obtain ⟨before, after, split, rfl⟩ := placed
  exact ⟨before, after, split, offset_origin before, line_origin before, column_afterAll before⟩

end Position

/-- **Positions of tokens are true.** Both ends of every token of a text count the lines and columns
before them, whatever the token is a part of, and even if it is empty. -/
theorem scan_counts (source : String) :
    ∀ t ∈ (scan source).1, t.span.start.Counts source ∧ t.span.stop.Counts source := by
  intro t mem
  have on := ((scan_ended source).sliced t mem).1
  exact ⟨on.start.counts, on.stop.counts⟩

/-- The end of a string that its line leaves open has no width. The name on the next line stands one
character behind the line feed. -/
theorem scan_counts_newline : ∃ close ∈ (scan "\"é\r\n b").1, ∃ name ∈ (scan "\"é\r\n b").1,
    close.kind = .stringEnd ∧ close.text = "" ∧ close.span.start.Counts "\"é\r\n b" ∧
      name.text = "b" ∧ name.span.start = ⟨6, 1, 1⟩ ∧ name.span.start.Counts "\"é\r\n b" := by
  have close : ⟨.stringEnd, "", Span.empty ⟨3, 0, 2⟩⟩ ∈ (scan "\"é\r\n b").1 := by
    decide +kernel
  have name : ⟨.identifier, "b", ⟨⟨6, 1, 1⟩, ⟨7, 1, 2⟩⟩⟩ ∈ (scan "\"é\r\n b").1 := by
    decide +kernel
  exact ⟨_, close, _, name, rfl, rfl, (scan_counts _ _ close).1, rfl, rfl, (scan_counts _ _ name).1⟩

end JassSyntax
