import JassSyntax.Proofs.Scanning.Moves

/-!
# Items of a token stream

The tokens of a text are items one after the other and then the end of input. An item is a token of
its own, or a whole string or block comment in two or three tokens. The scanner is inside a string
or comment as long as its tokens so far end with the beginning of one. The modes that it has entered
and not left would never make a higher stack than the outside and one mode upon it, which is why it
remembers no more than one mode.
-/

namespace JassSyntax

variable {source : String}

/-! ## Items -/

/-- The beginning of a string or comment that the mode is inside of: its opening, and what it holds
if it holds anything. -/
inductive Begun (source : String) (mode : ScanMode) : List Token → Prop
  | opened {t : Token} (opens : mode.Opens t) : Begun source mode [t]
  | filled {t u : Token} (opens : mode.Opens t) (holds : mode.Holds u)
      (ends : mode.Ends (u.span.stop.ahead source)) : Begun source mode [t, u]

/-- The tokens of one item. -/
inductive ScanItem (source : String) : List Token → Prop
  | single {t : Token} (inside : t.kind.isInside = false) (leads : t.kind.leadsInside = false)
      (going : t.kind ≠ .eof) : ScanItem source [t]
  | whole {mode : ScanMode} {ts : List Token} {t : Token} (begun : Begun source mode ts)
      (closes : mode.Closes (t.span.start.ahead source) t)
      (ends : mode.Ends (t.span.start.ahead source)) : ScanItem source (ts ++ [t])

/-- The tokens are those of whole items. -/
def Itemized (source : String) (ts : List Token) : Prop :=
  ∃ items : List (List Token), (∀ item ∈ items, ScanItem source item) ∧ ts = items.flatten

/-- The tokens end inside an item: they are those of whole items and of the beginning of one. -/
def EndsInside (source : String) (ts : List Token) : Prop :=
  ∃ front part mode, ts = front ++ part ∧ Itemized source front ∧ Begun source mode part

theorem itemized_nil : Itemized source [] := ⟨[], by simp, rfl⟩

theorem Itemized.concat {ts item : List Token} (whole : Itemized source ts)
    (next : ScanItem source item) : Itemized source (ts ++ item) := by
  obtain ⟨items, each, rfl⟩ := whole
  refine ⟨items ++ [item], fun other mem => ?_, by simp⟩
  rcases List.mem_append.mp mem with mem | mem
  · exact each other mem
  · rw [List.mem_singleton.mp mem]
    exact next

namespace ScanMode

variable {mode : ScanMode} {ahead : List Char} {t : Token}

theorem Opens.leadsInside (opens : mode.Opens t) : t.kind.leadsInside = true := by
  cases mode with
  | normal => cases opens
  | inBlockComment | inString => rw [opens.1]; rfl

theorem Holds.leadsInside (holds : mode.Holds t) : t.kind.leadsInside = true := by
  cases mode with
  | normal => cases holds
  | inBlockComment | inString => rw [holds.1]; rfl

theorem Closes.isInside (closes : mode.Closes ahead t) : t.kind.isInside = true := by
  cases mode with
  | normal => cases closes
  | inBlockComment | inString => rw [closes.1]; rfl

end ScanMode

theorem Begun.ne_normal {mode : ScanMode} {ts : List Token} (begun : Begun source mode ts) :
    mode ≠ .normal := by
  cases begun with
  | opened opens | filled opens _ _ => exact opens.ne_normal

theorem Begun.leadsInside {mode : ScanMode} {ts : List Token} (begun : Begun source mode ts) :
    ∃ t ∈ ts.getLast?, t.kind.leadsInside = true := by
  cases begun with
  | opened opens => exact ⟨_, rfl, opens.leadsInside⟩
  | filled _ holds _ => exact ⟨_, rfl, holds.leadsInside⟩

namespace Scanner

variable {s s' e : Scanner} {t : Token} {ts us : List Token}

/-! ## Where the scanner is -/

/-- Where the scanner is in the sequence of items, when it has yielded the tokens. -/
inductive Reached (source : String) (s : Scanner) (ts : List Token) : Prop
  | between (whole : Itemized source ts) (outside : s.mode = .normal) (going : s.finished = false)
  /-- Behind what a string or comment holds stands its end. -/
  | within {front part : List Token} (split : ts = front ++ part) (whole : Itemized source front)
      (begun : Begun source s.mode part) (ends : part.length = 2 → s.mode.Ends s.rest)
      (going : s.finished = false)
  | past {front : List Token} {last : Token} (split : ts = front ++ [last])
      (whole : Itemized source front) (eof : last.kind = .eof) (outside : s.mode = .normal)
      (finished : s.finished = true)

theorem Reached.quoted (reached : Reached source s ts) : s.mode.Quoted := by
  cases reached with
  | between _ outside _ | past _ _ _ outside _ => exact outside ▸ ScanMode.quoted_normal
  | within _ _ begun _ _ =>
      cases begun with
      | opened opens | filled opens _ _ => exact opens.quoted

/-- A token that belongs to a string or comment is not the end of input. -/
theorem finished_of_inside (stepped : Stepped source s t s') (going : s.finished = false)
    (part : t.kind.isInside = true ∨ t.kind.leadsInside = true) : s'.finished = false := by
  refine (stepped.more fun eof => ?_).trans going
  rw [eof] at part
  exact part.elim Bool.noConfusion Bool.noConfusion

theorem Reached.step (reached : Reached source s ts) (seen : Seen source s ts)
    (step : s.step = some (t, s')) : Reached source s' (ts ++ [t]) := by
  have stepped := step_stepped seen.at_ step
  have passes := step_passes step
  have stop : t.span.stop.ahead source = s'.rest := by rw [passes.stop, stepped.yields.at_.ahead]
  have moves := step_moves reached.quoted step
  cases reached with
  | between whole outside going =>
      cases moves with
      | stay _ inside leads stays =>
          by_cases eof : t.kind = .eof
          · exact .past rfl whole eof stays (stepped.last eof).1
          · exact .between (whole.concat (.single inside leads eof)) stays
              ((stepped.more eof).trans going)
      | enter _ opens =>
          exact .within rfl whole (.opened opens) (fun two => by cases two)
            (finished_of_inside stepped going (.inr opens.leadsInside))
      | hold holds => exact absurd outside holds.ne_normal
      | leave closes => exact absurd outside closes.ne_normal
  | @within front part split whole begun ends going =>
      cases moves with
      | stay outside | enter outside => exact absurd outside begun.ne_normal
      | hold holds more behind stays =>
          have still := finished_of_inside stepped going (.inr holds.leadsInside)
          cases begun with
          | opened opens =>
              have filled := Begun.filled opens holds (stop ▸ behind)
              rw [← stays] at filled behind
              exact .within (by rw [split, List.append_assoc]; rfl) whole filled (fun _ => behind)
                still
          | filled => exact absurd (ends rfl) more
      | leave closes here outside =>
          have start : t.span.start.ahead source = s.rest := by
            rw [passes.start, gap_of_inside begun.ne_normal, Position.afterAll_nil, seen.at_.ahead]
          have item : ScanItem source (part ++ [t]) :=
            .whole begun (start ▸ closes) (start ▸ here)
          rw [split, List.append_assoc]
          exact .between (whole.concat item) outside
            (finished_of_inside stepped going (.inl closes.isInside))
  | past _ _ _ _ finished =>
      rw [step_of_finished seen.spent finished] at step
      cases step

theorem Steps.reached (steps : s.Steps us e) (seen : Seen source s ts)
    (reached : Reached source s ts) : Reached source e (ts ++ us) := by
  induction steps generalizing ts with
  | refl s => rwa [List.append_nil]
  | @cons s m e t us first rest ih =>
      have next := ih (seen.step first) (reached.step seen first)
      rwa [List.append_assoc] at next

theorem reached_ofString (source : String) : Reached source (ofString source) [] :=
  .between itemized_nil rfl rfl

/-- The last token tells whether the scanner is inside of something. -/
theorem Steps.leadsInside (steps : s.Steps ts e) (last : t ∈ ts.getLast?) :
    t.kind.leadsInside = true ↔ e.mode ≠ .normal := by
  induction steps with
  | refl s => cases last
  | @cons s m e u us first rest ih =>
      cases rest with
      | refl =>
          cases last
          exact (step_passes first).leads
      | cons second rest => exact ih last

/-! ## The stack of modes -/

/-- What the token does to the modes that have been entered and not left, the last one first. An
opening puts one upon the others, and an end takes one off, but never the lowest. -/
def restack (modes : List ScanMode) (t : Token) : List ScanMode :=
  match t.kind with
  | .blockCommentStart => .inBlockComment t.span.start :: modes
  | .stringStart => .inString (t.text.toList.headD '"') t.span.start :: modes
  | .blockCommentEnd | .stringEnd => if 1 < modes.length then modes.tail else modes
  | _ => modes

/-- The mode of the scanner upon the outside. -/
def modes (s : Scanner) : List ScanMode :=
  if s.mode = .normal then [.normal] else [s.mode, .normal]

theorem restack_of_plain {modes : List ScanMode} (inside : t.kind.isInside = false)
    (leads : t.kind.leadsInside = false) : restack modes t = modes := by
  unfold restack
  revert inside leads
  cases t.kind <;> simp [Kind.isInside, Kind.leadsInside]

theorem Moves.restack (moves : Moves s t s') : restack s.modes t = s'.modes := by
  cases moves with
  | stay outside inside leads stays =>
      rw [restack_of_plain inside leads, modes, modes, outside, stays]
  | enter outside opens =>
      rw [modes, modes, if_pos outside, if_neg opens.ne_normal]
      cases mode : s'.mode with
      | normal => exact absurd mode opens.ne_normal
      | inBlockComment start =>
          rw [mode] at opens
          simp [Scanner.restack, opens.1, opens.2.2]
      | inString quote start =>
          rw [mode] at opens
          simp [Scanner.restack, opens.1, opens.2.1, opens.2.2.2]
  | hold holds _ _ stays =>
      rw [modes, modes, stays]
      cases mode : s.mode with
      | normal => exact absurd mode holds.ne_normal
      | inBlockComment | inString =>
          rw [mode] at holds
          simp [Scanner.restack, holds.1]
  | leave closes _ outside =>
      rw [modes, modes, if_neg closes.ne_normal, if_pos outside]
      cases mode : s.mode with
      | normal => exact absurd mode closes.ne_normal
      | inBlockComment | inString =>
          rw [mode] at closes
          simp [Scanner.restack, closes.1]

theorem Steps.restack (steps : s.Steps ts e) (quoted : s.mode.Quoted) :
    ts.foldl restack s.modes = e.modes := by
  induction steps with
  | refl s => rfl
  | cons first rest ih =>
      have moves := step_moves quoted first
      rw [List.foldl_cons, moves.restack]
      exact ih (moves.quoted quoted)

end Scanner

/-! ## Texts -/

/-- **Tokens come in items.** The tokens of a text are whole items and then the end of input. After
any number of steps, the scanner is inside a string or comment exactly if its tokens so far end
inside an item; the modes that have been entered and not left are its own mode upon the outside, or
the outside alone; and the end of input is yielded from the outside only. -/
theorem scan_itemized (source : String) :
    (∃ front last, (scan source).1 = front ++ [last] ∧ Itemized source front ∧
      last.kind = .eof) ∧
    ∀ ts s, (Scanner.ofString source).Steps ts s →
      (s.mode ≠ .normal ↔ EndsInside source ts) ∧
      ts.foldl Scanner.restack [.normal] =
        (if s.mode = .normal then [.normal] else [s.mode, .normal]) ∧
      ∀ t s', s.step = some (t, s') → t.kind = .eof → s.mode = .normal := by
  have reached : ∀ {ts s}, (Scanner.ofString source).Steps ts s → Scanner.Reached source s ts :=
    fun steps => steps.reached (Scanner.seen_ofString source) (Scanner.reached_ofString source)
  constructor
  · obtain ⟨last, steps, none, _⟩ := scan_steps source
    have finished := Scanner.finished_of_step_none none
    cases reached steps with
    | between _ _ going | within _ _ _ _ going =>
        rw [finished] at going
        cases going
    | past split whole eof => exact ⟨_, _, split, whole, eof⟩
  · intro ts s steps
    refine ⟨⟨fun inside => ?_, ?_⟩, steps.restack ScanMode.quoted_normal, ?_⟩
    · cases reached steps with
      | between _ outside | past _ _ _ outside => exact absurd outside inside
      | within split whole begun => exact ⟨_, _, _, split, whole, begun⟩
    · rintro ⟨front, part, mode, rfl, _, begun⟩
      obtain ⟨t, last, leads⟩ := begun.leadsInside
      have whole : t ∈ (front ++ part).getLast? := by
        rw [List.getLast?_append, Option.mem_def.mp last]
        rfl
      exact (steps.leadsInside whole).mp leads
    · intro t s' step eof
      by_contra inside
      have passes := (Scanner.step_passes step).inside.mpr inside
      rw [eof] at passes
      cases passes

/-- The first token of a string that the text leaves open. -/
theorem scan_itemized_quote : ∃ t s, (Scanner.ofString "'a").step = some (t, s) ∧
    s.mode ≠ .normal ∧ EndsInside "'a" [t] := by
  obtain ⟨t, s, step, inside⟩ : ∃ t s, (Scanner.ofString "'a").step = some (t, s) ∧
      s.mode ≠ .normal := ⟨_, _, rfl, by decide⟩
  have stream := (scan_itemized "'a").2 [t] s (.cons step (.refl s))
  exact ⟨t, s, step, inside, stream.1.mp inside⟩

end JassSyntax
