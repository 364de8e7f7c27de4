import JassSyntax.Proofs.Layout.Rescanning
import JassSyntax.Proofs.Scanning.Moves

/-!
# Tokens and line ends

A carriage return and the line feed behind it end a line together. No token begins or ends between
them. Outside strings and comments both are white space, which a lexeme does not reach into. A
comment ends in front of its closing, and a backslash in a string takes both characters along.
-/

namespace JassSyntax

/-- Where these texts meet, no line end of two characters is cut in two. -/
def Text.Seam (before behind : List Char) : Prop :=
  before.getLast? = some '\r' → behind.head? ≠ some '\n'

namespace Text

variable {before mid behind : List Char}

theorem seam_of_head (other : ∀ c ∈ behind.head?, c ≠ '\n') : Seam before behind :=
  fun _ feed => other '\n' feed rfl

theorem seam_of_last (other : ∀ c ∈ mid.getLast?, c ≠ '\r') : Seam mid behind :=
  fun cr => absurd rfl (other '\r' cr)

theorem Seam.of_append (seam : Seam (before ++ mid) behind) : Seam mid behind := by
  intro cr
  refine seam ?_
  rw [List.getLast?_append, cr]
  rfl

/-- The last character before the place is one of `mid`, unless that is empty. -/
theorem Seam.append (seam : Seam mid behind) (none : mid = [] → Seam before behind) :
    Seam (before ++ mid) behind := by
  intro cr
  rcases List.eq_nil_or_concat mid with empty | ⟨init, last, rfl⟩
  · rw [empty, List.append_nil] at cr
    exact none empty cr
  · rw [List.getLast?_append_of_ne_nil _ (by simp)] at cr
    exact seam cr

end Text

open Text (Seam)

/-! ## Lexemes and insides -/

namespace Lexeme

/-- A lexeme lies within its line. Were there a line end, what is before it would be the lexeme. -/
theorem isLineEnd_leading {afterOperand : Bool} {c : Char} {cs : List Char} {k : Kind} {n : Nat}
    (lexeme : leading afterOperand (c :: cs) = (k, n)) (ink : isLineEnd c = false) :
    ∀ d ∈ (c :: cs).take n, isLineEnd d = false := by
  intro d mem
  by_contra lineEnd
  rw [Bool.not_eq_false] at lineEnd
  have pos := leading_pos afterOperand (c :: cs)
  have le := leading_le afterOperand (List.cons_ne_nil c cs)
  rw [lexeme] at pos le
  obtain ⟨word, rest, split⟩ := List.append_of_mem mem
  have longer : word.length < n := by
    have length := congrArg List.length split
    rw [List.length_take_of_le le, List.length_append, List.length_cons] at length
    omega
  have filled : word ≠ [] := by
    rintro rfl
    obtain ⟨m, rfl⟩ := Nat.exists_eq_succ_of_ne_zero pos.ne'
    rw [List.take_succ_cons] at split
    cases split
    rw [lineEnd] at ink
    cases ink
  have whole : word ++ d :: (rest ++ (c :: cs).drop n) = c :: cs := by
    rw [← List.cons_append, ← List.append_assoc, ← split, List.take_append_drop]
  have fits := leading_le afterOperand filled
  rw [← List.append_nil word] at fits
  have same : leading afterOperand (word ++ d :: (rest ++ (c :: cs).drop n)) =
      leading afterOperand (word ++ []) :=
    leading_cut lineEnd (Nat.le_trans fits (by rw [List.append_nil]))
  rw [← same, whole, lexeme, List.append_nil] at fits
  omega

theorem seam_stringContent (quote : Char) (cs : List Char) :
    Seam (cs.take (stringContent quote cs)) (cs.drop (stringContent quote cs)) := by
  fun_induction stringContent quote cs with
  | case1 => exact Text.seam_of_last (by simp)
  | case2 cs ih =>
      have last : ∀ c ∈ ['\\', '\r', '\n'].getLast?, c ≠ '\r' := by simp
      rw [Nat.add_comm]
      exact ih.append fun _ => Text.seam_of_last last
  | case3 d cs single ih =>
      -- A backslash takes a carriage return alone only if no line feed stands behind it.
      have escaped : cs.take (stringContent quote cs) = [] →
          Seam ['\\', d] (cs.drop (stringContent quote cs)) := by
        intro none cr feed
        rw [← List.nil_append (cs.drop _), ← none, List.take_append_drop] at feed
        obtain ⟨ds, rfl⟩ := List.head?_eq_some_iff.mp feed
        exact single ds (by simpa using cr) rfl
      rw [Nat.add_comm]
      exact ih.append escaped
  | case4 => exact Text.seam_of_last (by simp)
  | case5 d cs single escape stop ih =>
      have plain : ∀ c ∈ [d].getLast?, c ≠ '\r' := by
        rintro c ⟨⟩ rfl
        exact stop (.inr rfl)
      rw [Nat.add_comm]
      exact ih.append fun _ => Text.seam_of_last plain

end Lexeme

/-! ## Steps -/

/-- The position is that of a place of the text that is not inside a line end. -/
def Position.Clear (source : String) (p : Position) : Prop :=
  ∃ before after, source.toList = before ++ after ∧ p = origin.afterAll before ∧ Seam before after

namespace Scanner

variable {source : String} {s s' e : Scanner} {t : Token} {ts : List Token}

/-- The scanner stands at a place of the text that is not inside a line end. -/
def Clear (source : String) (s : Scanner) : Prop :=
  ∃ before, source.toList = before ++ s.rest ∧ s.here = Position.origin.afterAll before ∧
    Seam before s.rest

theorem Clear.at_ (clear : s.Clear source) : s.At source := by
  obtain ⟨before, split, here, -⟩ := clear
  exact ⟨before, split, here⟩

theorem Clear.here (clear : s.Clear source) : s.here.Clear source := by
  obtain ⟨before, split, here, seam⟩ := clear
  exact ⟨before, s.rest, split, here, seam⟩

theorem clear_ofString (source : String) : (ofString source).Clear source :=
  ⟨[], rfl, rfl, Text.seam_of_last (by simp)⟩

theorem stepNormal_seam (step : s.stepNormal = some (t, s')) : Seam t.text.toList s'.rest := by
  rcases eof_or_readsLexeme step with ⟨-, -, none, -⟩ | ⟨c, cs, k, n, read⟩
  · exact Text.seam_of_head (by simp [none])
  · refine Text.seam_of_last fun d last => ?_
    have ink : Lexeme.isLineEnd c = false := by
      have ink := ink_skipBlanks (s := s) c (by rw [read.ahead]; rfl)
      by_contra lineEnd
      rw [Bool.not_eq_false] at lineEnd
      rcases Lexeme.isLineEnd_iff.mp lineEnd with rfl | rfl <;> exact absurd ink (by decide)
    have inLine := Lexeme.isLineEnd_leading read.leading ink
    rw [read.token, toList_text_yield, read.ahead] at last
    rintro rfl
    exact absurd (inLine _ (List.mem_of_getLast? last)) (by decide)

theorem stepComment_seam (s : Scanner) (start : Position) :
    Seam (s.stepComment start).1.text.toList (s.stepComment start).2.rest := by
  unfold stepComment
  split
  · exact Text.seam_of_last (by simp [yield])
  · next ahead =>
    refine Text.seam_of_last ?_
    rw [toList_text_yield]
    simp [enter, ahead]
  · refine Text.seam_of_head fun c head => ?_
    rw [yield_rest] at head
    rcases Lexeme.commentContent_eq_zero_iff.mp (Lexeme.commentContent_drop s.rest) with
      none | ⟨rest, closing⟩
    · rw [none] at head
      cases head
    · rw [← closing] at head
      cases head
      decide

theorem stepString_seam {quote : Char} (quoted : Lexeme.isQuote quote = true) (start : Position) :
    Seam (s.stepString quote start).1.text.toList (s.stepString quote start).2.rest := by
  unfold stepString
  split
  · exact Text.seam_of_last (by simp [yield])
  next c cs ahead =>
  split
  · exact Text.seam_of_last (by simp [yield])
  split
  · next same =>
    refine Text.seam_of_last ?_
    rw [toList_text_yield]
    simp only [enter, ahead, List.take_succ_cons, List.take_zero, same]
    rintro d ⟨⟩ rfl
    cases quoted
  · rw [toList_text_yield]
    exact Lexeme.seam_stringContent quote s.rest

/-- No token ends inside a line end. -/
theorem step_seam (quoted : s.mode.Quoted) (step : s.step = some (t, s')) :
    Seam t.text.toList s'.rest := by
  unfold Scanner.step at step
  split at step
  · exact stepNormal_seam step
  · next start _ =>
    have seam := s.stepComment_seam start
    rwa [Option.some.inj step] at seam
  · next quote start mode =>
    have seam := stepString_seam (s := s) (quoted quote start mode) start
    rwa [Option.some.inj step] at seam

/-- No token begins inside a line end. -/
theorem Passes.seam (passes : Passes s t s') {before : List Char} (seam : Seam before s.rest) :
    Seam (before ++ s.gap) (t.text.toList ++ s'.rest) := by
  by_cases mode : s.mode = .normal
  · have behind : t.text.toList ++ s'.rest = s.skipBlanks.rest := by
      have split : s.gap ++ s.skipBlanks.rest = s.rest := by
        rw [gap, if_pos mode]
        exact List.takeWhile_append_dropWhile
      rw [passes.rest] at split
      exact (List.append_cancel_left split).symm
    rw [behind]
    refine Text.seam_of_head ?_
    rintro c head rfl
    exact absurd (ink_skipBlanks (s := s) _ head) (by decide)
  · have rest := passes.rest
    rw [gap_of_inside mode, List.nil_append] at rest
    rwa [gap_of_inside mode, List.append_nil, ← rest]

theorem Clear.step (clear : s.Clear source) (quoted : s.mode.Quoted)
    (step : s.step = some (t, s')) : t.span.start.Clear source ∧ s'.Clear source := by
  have passes := step_passes step
  obtain ⟨passed, split', here'⟩ := (step_stepped clear.at_ step).yields.at_
  obtain ⟨before, split, here, seam⟩ := clear
  have start := passes.seam seam
  rw [passes.rest, ← List.append_assoc] at split
  have all : before ++ s.gap ++ t.text.toList = passed := by
    rw [split', ← List.append_assoc] at split
    exact (List.append_cancel_right split).symm
  refine ⟨⟨before ++ s.gap, _, split, ?_, start⟩, passed, split', here', ?_⟩
  · rw [passes.start, here, Position.afterAll_append]
  · rw [← all]
    refine (step_seam quoted step).append fun none => ?_
    rwa [none, List.nil_append] at start

theorem Steps.clear (steps : s.Steps ts e) (clear : s.Clear source) (quoted : s.mode.Quoted) :
    ∀ t ∈ ts, t.span.start.Clear source ∧ t.span.stop.Clear source := by
  induction steps with
  | refl => exact fun _ mem => by cases mem
  | cons first _ ih =>
      obtain ⟨start, next⟩ := clear.step quoted first
      refine List.forall_mem_cons.mpr ⟨⟨start, (step_passes first).stop ▸ next.here⟩, ?_⟩
      exact ih next ((step_moves quoted first).quoted quoted)

end Scanner

/-! ## Texts -/

/-- No token of a text begins or ends inside a line end. -/
theorem scan_clear (source : String) :
    ∀ t ∈ (scan source).1, t.span.start.Clear source ∧ t.span.stop.Clear source := by
  obtain ⟨last, steps, -⟩ := scan_steps source
  exact steps.clear (Scanner.clear_ofString source) ScanMode.quoted_normal

end JassSyntax
