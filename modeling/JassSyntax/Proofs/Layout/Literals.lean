import JassSyntax.Proofs.Layout.Rescanning
import JassSyntax.Proofs.Sequence.Streams

/-!
# String literals among tokens

A string literal is an opening quote, what the string holds if it holds anything, and its end, which
may be empty. The scanner yields these tokens one right after the other, and it yields none of them
elsewhere. No comment comes between them, so they are items that follow each other too.
-/

namespace JassSyntax

/-- Tokens that string literals are made of. -/
def Kind.isStringPart : Kind → Bool
  | .stringStart | .stringContent | .stringEnd => true
  | _ => false

/-- What comes behind the opening quote of a string literal. -/
def ClosesString (ts : List Token) : Prop :=
  ts.map Token.kind = [.stringEnd] ∨ ts.map Token.kind = [.stringContent, .stringEnd]

/-- The tokens of one string literal. -/
def IsString (ts : List Token) : Prop :=
  ts.map Token.kind = [.stringStart, .stringEnd] ∨
    ts.map Token.kind = [.stringStart, .stringContent, .stringEnd]

theorem isString_cons {t : Token} {ts : List Token} :
    IsString (t :: ts) ↔ t.kind = .stringStart ∧ ClosesString ts := by
  simp [IsString, ClosesString, and_or_left]

theorem ClosesString.cases {ts : List Token} (closes : ClosesString ts) :
    (∃ closing, ts = [closing] ∧ closing.kind = .stringEnd) ∨
      ∃ content closing, ts = [content, closing] ∧ content.kind = .stringContent ∧
        closing.kind = .stringEnd := by
  rcases closes with single | both
  · obtain ⟨closing, rfl, kind⟩ := List.map_eq_singleton_iff.mp single
    exact .inl ⟨closing, rfl, kind⟩
  · obtain ⟨content, rest, rfl, kind, last⟩ := List.map_eq_cons_iff.mp both
    obtain ⟨closing, rfl, kind'⟩ := List.map_eq_singleton_iff.mp last
    exact .inr ⟨content, closing, rfl, kind, kind'⟩

theorem ClosesString.kind {ts : List Token} (closes : ClosesString ts) :
    ∀ t ∈ ts, t.kind = .stringContent ∨ t.kind = .stringEnd := by
  rcases closes.cases with ⟨closing, rfl, kind⟩ | ⟨content, closing, rfl, kind, kind'⟩
  · simpa using .inr kind
  · simpa using ⟨.inl kind, .inr kind'⟩

theorem ClosesString.ne_stringStart {ts : List Token} (closes : ClosesString ts) :
    ∀ t ∈ ts, t.kind ≠ .stringStart := by
  intro t mem
  rcases closes.kind t mem with kind | kind <;> rw [kind] <;> exact Kind.noConfusion

theorem ClosesString.isSignificant {ts : List Token} (closes : ClosesString ts) :
    ∀ t ∈ ts, t.isSignificant = true := by
  intro t mem
  rcases closes.kind t mem with kind | kind <;>
    simp [Token.isSignificant, Token.isTrivia, kind, Kind.isTrivia]

/-- Two literals that begin at one place are the same. -/
theorem ClosesString.eq_of_prefix {ts us vs : List Token} (first : ClosesString ts)
    (second : ClosesString us) (here : ts <+: vs) (there : us <+: vs) : ts = us := by
  obtain ⟨a, rfl⟩ := here
  obtain ⟨b, same⟩ := there
  rcases first.cases with ⟨x, rfl, kind⟩ | ⟨x, y, rfl, kind, kind'⟩ <;>
    rcases second.cases with ⟨z, rfl, other⟩ | ⟨z, w, rfl, other, other'⟩ <;>
    simp_all

/-! ## Whole literals -/

/-- The parts of strings among the tokens make up whole literals. -/
inductive Literals : List Token → Prop
  | nil : Literals []
  | plain {t : Token} {ts : List Token} (plain : t.kind.isStringPart = false)
      (rest : Literals ts) : Literals (t :: ts)
  | string {ts us : List Token} (string : IsString ts) (rest : Literals us) : Literals (ts ++ us)

/-- Every part of a string belongs to a literal. -/
theorem Literals.part {ts : List Token} (literals : Literals ts) :
    ∀ {front back : List Token} {t : Token}, ts = front ++ t :: back →
      t.kind.isStringPart = true → ∃ before left right after, front = before ++ left ∧
        back = right ++ after ∧ IsString (left ++ t :: right) := by
  induction literals with
  | nil =>
      intro front back t split
      simp at split
  | @plain u ts plain _ ih =>
      intro front back t split part
      cases front with
      | nil =>
          cases split
          rw [part] at plain
          cases plain
      | cons v front =>
          cases split
          obtain ⟨before, left, right, after, rfl, rfl, string⟩ := ih rfl part
          exact ⟨u :: before, left, right, after, rfl, rfl, string⟩
  | @string ts us string _ ih =>
      intro front back t split part
      rcases List.append_eq_append_iff.mp split with ⟨more, rfl, behind⟩ | ⟨more, rfl, inside⟩
      -- The part stands behind the first literal.
      · obtain ⟨before, left, right, after, rfl, rfl, string⟩ := ih behind part
        exact ⟨ts ++ before, left, right, after, (List.append_assoc ..).symm, rfl, string⟩
      · cases more with
        | nil =>
            have start : us = [] ++ t :: back := inside.symm
            obtain ⟨before, left, right, after, none, rfl, string⟩ := ih start part
            obtain ⟨rfl, rfl⟩ := List.append_eq_nil_iff.mp none.symm
            exact ⟨front, [], right, after, by simp, rfl, string⟩
        | cons u more =>
            cases inside
            exact ⟨[], front, more, us, rfl, rfl, string⟩

/-! ## Strings that go on -/

/-- Behind every opening quote comes the rest of its string. -/
def StringsClose {α : Type} (token : α → Token) (bare : Token → α) (xs : List α) : Prop :=
  ∀ x rest, x :: rest <:+ xs → (token x).kind = .stringStart →
    ∃ ts, ClosesString ts ∧ ts.map bare <+: rest

section StringsClose

variable {α : Type} {token : α → Token} {bare : Token → α} {xs ys : List α}

theorem StringsClose.suffix (h : StringsClose token bare xs) (behind : ys <:+ xs) :
    StringsClose token bare ys :=
  fun x rest here => h x rest (here.trans behind)

theorem stringsClose_nil : StringsClose token bare [] := by
  intro x rest here
  cases List.suffix_nil.mp here

theorem StringsClose.cons {x : α} (h : StringsClose token bare xs)
    (goes : (token x).kind = .stringStart → ∃ ts, ClosesString ts ∧ ts.map bare <+: xs) :
    StringsClose token bare (x :: xs) := by
  intro y rest here opens
  rcases List.suffix_cons_iff.mp here with same | inside
  · cases same
    exact goes opens
  · exact h y rest inside opens

end StringsClose

theorem Literals.stringsClose {ts : List Token} (literals : Literals ts) :
    StringsClose id id ts := by
  rintro t rest ⟨front, split⟩ opens
  obtain ⟨before, left, right, after, _, rfl, string⟩ :=
    literals.part split.symm (by rw [show t.kind = _ from opens]; rfl)
  -- An opening quote is the first part of its literal.
  cases left with
  | nil =>
      refine ⟨right, (isString_cons.mp string).2, ?_⟩
      rw [List.map_id]
      exact List.prefix_append _ _
  | cons u left =>
      exact absurd opens ((isString_cons.mp string).2.ne_stringStart t (by simp))

/-! ## Scanning -/

namespace Scanner

variable {s s' e : Scanner} {t : Token} {ts : List Token}

/-- The tokens `ts` go on from where the scanner stands: inside a string they begin with the rest of
it, and behind what the string holds the rest is its end. -/
def Continues (s : Scanner) (ts : List Token) : Prop :=
  match s.mode with
  | .inString quote _ => Lexeme.isQuote quote = true →
      ∃ rest us, ts = rest ++ us ∧ ClosesString rest ∧ Literals us ∧
        (Lexeme.stringContent quote s.rest = 0 → rest.length = 1)
  | _ => Literals ts

theorem continues_of_outside (outside : ∀ quote start, s.mode ≠ .inString quote start) :
    s.Continues ts ↔ Literals ts := by
  unfold Continues
  split
  · next quote start mode => exact absurd mode (outside quote start)
  · rfl

/-- Only an opening quote leads into a string, and it is the one that closes it. -/
theorem modeAfter_inString {kind : Kind} {first quote : Char} {place start : Position} :
    modeAfter kind first place = .inString quote start ↔
      kind = .stringStart ∧ first = quote ∧ place = start := by
  unfold modeAfter
  split <;> simp_all

/-- Outside strings a token is no part of one and leads into none, or it opens one. -/
theorem stepNormal_part (step : s.stepNormal = some (t, s')) (mode : s.mode = .normal) :
    (t.kind.isStringPart = false ∧ ∀ quote start, s'.mode ≠ .inString quote start) ∨
      t.kind = .stringStart ∧
        ∃ quote start, s'.mode = .inString quote start ∧ Lexeme.isQuote quote = true := by
  have plain : ∀ k ∈ Lexeme.beginnings, k.isStringPart = false ∧ k ≠ .stringStart := by decide
  unfold stepNormal at step
  dsimp only at step
  split at step
  · split at step
    · cases step
    cases step
    exact .inl ⟨rfl, fun quote start inside => ScanMode.noConfusion (mode.symm.trans inside)⟩
  · next c rest ahead =>
    have entered : s'.mode =
        modeAfter (Lexeme.leading s.skipBlanks.afterOperand s.skipBlanks.rest).1 c
          s.skipBlanks.here := by
      cases step
      split <;> rfl
    have kind : t.kind = (Lexeme.leading s.skipBlanks.afterOperand s.skipBlanks.rest).1 := by
      cases step
      rfl
    rw [kind, entered]
    rcases Lexeme.leading_kind s.skipBlanks.afterOperand s.skipBlanks.rest with
      other | ⟨opens, c', head, quote⟩
    · obtain ⟨part, different⟩ := plain _ other
      exact .inl ⟨part, fun quote start inside => different (modeAfter_inString.mp inside).1⟩
    · rw [ahead] at head
      cases head
      exact .inr ⟨opens, c, _, modeAfter_inString.mpr ⟨opens, rfl, rfl⟩, quote⟩

/-- Inside a string comes its end, or what it holds and then its end. -/
theorem stepString_part {quote : Char} {start : Position} (mode : s.mode = .inString quote start) :
    let next := s.stepString quote start
    next.1.kind = .stringEnd ∧ next.2.mode = .normal ∨
      next.1.kind = .stringContent ∧ next.2.mode = .inString quote start ∧
        0 < Lexeme.stringContent quote s.rest ∧ Lexeme.stringContent quote next.2.rest = 0 := by
  intro next
  unfold next
  unfold stepString
  split
  · exact .inl ⟨rfl, rfl⟩
  · next c cs ahead =>
    split
    · exact .inl ⟨rfl, rfl⟩
    split
    · exact .inl ⟨rfl, rfl⟩
    · next notEnd notQuote =>
      refine .inr ⟨rfl, mode, ?_, ?_⟩
      · rw [ahead]
        exact Lexeme.stringContent_pos (fun stop => stop.elim notQuote notEnd) cs
      · exact Lexeme.stringContent_drop quote s.rest

theorem stepComment_part {start : Position} (mode : s.mode = .inBlockComment start) :
    (s.stepComment start).1.kind.isStringPart = false ∧
      ∀ quote place, (s.stepComment start).2.mode ≠ .inString quote place := by
  unfold stepComment
  split
  · exact ⟨rfl, fun _ _ => ScanMode.noConfusion⟩
  · exact ⟨rfl, fun _ _ => ScanMode.noConfusion⟩
  · exact ⟨rfl, fun _ _ inside => ScanMode.noConfusion (mode.symm.trans inside)⟩

/-- A token in front of what goes on from behind it. -/
theorem continues_step (step : s.step = some (t, s')) (behind : s'.Continues ts) :
    s.Continues (t :: ts) := by
  have plain : t.kind.isStringPart = false → (∀ quote start, s'.mode ≠ .inString quote start) →
      Literals (t :: ts) := fun part outside =>
    .plain part ((continues_of_outside outside).mp behind)
  unfold Scanner.step at step
  split at step
  · next mode =>
    rw [continues_of_outside fun _ _ inside => ScanMode.noConfusion (mode.symm.trans inside)]
    rcases stepNormal_part step mode with ⟨part, outside⟩ | ⟨opens, quote, start, inside, isQuote⟩
    · exact plain part outside
    · rw [Continues, inside] at behind
      obtain ⟨rest, us, rfl, closes, literals, _⟩ := behind isQuote
      exact .string (isString_cons.mpr ⟨opens, closes⟩) literals
  · next start mode =>
    rw [continues_of_outside fun _ _ inside => ScanMode.noConfusion (mode.symm.trans inside)]
    have part := stepComment_part mode
    rw [Option.some.inj step] at part
    exact plain part.1 part.2
  · next quote start mode =>
    rw [Continues, mode]
    intro isQuote
    have part := stepString_part mode
    rw [Option.some.inj step] at part
    dsimp only at part
    rcases part with ⟨closes, normal⟩ | ⟨holds, inside, some, none⟩
    · rw [continues_of_outside fun _ _ inside => ScanMode.noConfusion (normal.symm.trans inside)]
        at behind
      exact ⟨[t], ts, rfl, .inl (by simp [closes]), behind, fun _ => rfl⟩
    · rw [Continues, inside] at behind
      obtain ⟨rest, us, rfl, closes, literals, short⟩ := behind isQuote
      obtain ⟨closing, rfl⟩ := List.length_eq_one_iff.mp (short none)
      refine ⟨[t, closing], us, rfl, .inr ?_, literals, fun zero => absurd some (by omega)⟩
      rcases closes.cases with ⟨_, same, kind⟩ | ⟨_, _, same, _⟩ <;> cases same
      simp [holds, kind]

theorem Steps.continues (steps : s.Steps ts e) (last : e.step = none) : s.Continues ts := by
  induction steps with
  | refl s =>
      have mode := mode_of_step_none last
      rw [continues_of_outside fun _ _ inside => ScanMode.noConfusion (mode.symm.trans inside)]
      exact .nil
  | cons first _ ih => exact continues_step first (ih last)

end Scanner

/-- The parts of strings among the tokens of a text make up whole literals. -/
theorem scan_literals (source : String) : Literals (scan source).1 := by
  obtain ⟨last, steps, none, _⟩ := scan_steps source
  have outside : ∀ quote start, (Scanner.ofString source).mode ≠ .inString quote start :=
    fun _ _ => ScanMode.noConfusion
  exact (Scanner.continues_of_outside outside).mp (steps.continues none)

/-! ## Items -/

namespace Items

theorem takePart_suffix (kind : Kind) (role : Role) (ts : List Token) :
    (takePart kind role ts).2 <:+ ts := by
  unfold takePart
  split
  · split
    · exact List.suffix_cons _ _
    · exact List.suffix_refl _
  · exact List.suffix_refl _

/-- Significant tokens with no comments in front become items as they stand. -/
theorem group_significant {us : List Token} (significant : ∀ u ∈ us, u.isSignificant = true)
    (items : Array Item) (ts : List Token) :
    group items #[] (us ++ ts) = group (items ++ (us.map (Item.mk [])).toArray) #[] ts := by
  induction us generalizing items with
  | nil => simp
  | cons u us ih =>
      have here := significant u List.mem_cons_self
      have first : group items #[] (u :: us ++ ts) = group (items.push ⟨[], u⟩) #[] (us ++ ts) := by
        rw [List.cons_append, group]
        revert here
        rw [Token.isSignificant, Token.isTrivia]
        cases u.kind <;> simp [Kind.isTrivia]
      rw [first, ih fun v mem => significant v (List.mem_cons_of_mem u mem)]
      simp

/-- No comment comes between the parts of a string, so its items follow each other too. -/
theorem group_stringsClose (items : Array Item) (comments : Array Tree) {ts : List Token}
    (strings : StringsClose id id ts) : ∃ more,
      (group items comments ts).items = items.toList ++ more ∧
        StringsClose Item.token (Item.mk []) more := by
  fun_induction group items comments ts with
  | case1 items comments => exact ⟨[], by simp, stringsClose_nil⟩
  | case2 items comments t ts h => exact ⟨[], by simp, stringsClose_nil⟩
  | case3 items comments t ts h ih | case4 items comments t ts h ih
  | case5 items comments t ts h ih => exact ih (strings.suffix (List.suffix_cons t ts))
  | case6 items comments t ts h content closing ih =>
      have first := takePart_suffix .blockCommentContent .content ts
      have second := takePart_suffix .blockCommentEnd .closing content.2
      exact ih (strings.suffix ((second.trans first).trans (List.suffix_cons t ts)))
  | case7 items comments t ts hEof hLine hContent hEnd hStart ih =>
      obtain ⟨more, split, behind⟩ := ih (strings.suffix (List.suffix_cons t ts))
      refine ⟨⟨comments.toList, t⟩ :: more, by simp [split], behind.cons fun opens => ?_⟩
      obtain ⟨rest, closes, us, rfl⟩ := strings t ts (List.suffix_refl _) opens
      refine ⟨rest, closes, ?_⟩
      rw [List.map_id, group_significant closes.isSignificant,
        show (items.push ⟨comments.toList, t⟩ ++ (rest.map (Item.mk [])).toArray : Array Item) =
          (items.push ⟨comments.toList, t⟩ ++ (rest.map (Item.mk [])).toArray) ++ #[] by simp,
        group_items] at split
      simp at split
      exact ⟨_, split⟩

end Items

end JassSyntax
