import JassSyntax.Proofs.Reading.Moves

/-!
# What complaints are charged to

Every complaint is paid for. A token that is taken pays for four of them, which is what the worst
keyword leaves behind: a `while` with neither condition, `do`, body nor `end`. So the errors made so
far and four for each token ahead never come to more than before, up to what is still owed for the
next token. No complaint is about a token that it would have accepted.
-/

namespace JassSyntax

namespace Parser

/-- The errors made so far, and four for each token ahead. -/
def debt (p : Parser) : Int := p.errors.size + 4 * p.remaining

/-- No error is about a token of a kind that it lists as expected. -/
def Apt (p : Parser) : Prop := ∀ e ∈ p.errors.toList, e.found ∉ e.expected

/-- From the first parser to the second the debt grows by at most `n`, and complaints are apt. -/
structure Charges (n : Int) (p q : Parser) : Prop where
  debt : q.debt ≤ p.debt + n
  apt : p.Apt → q.Apt

variable {p q r : Parser} {m n : Int}

namespace Charges

theorem of_same (ahead : q.ahead = p.ahead) (errors : q.errors = p.errors) : p.Charges 0 q where
  debt := by
    have same : q.debt = p.debt + 0 := by
      rw [Parser.debt, Parser.debt, remaining, remaining, ahead, errors, Int.add_zero]
    exact Int.le_of_eq same
  apt := by
    unfold Apt
    rw [errors]
    exact id

theorem refl (p : Parser) : p.Charges 0 p := of_same rfl rfl

theorem trans (first : p.Charges m q) (second : q.Charges n r) : p.Charges (m + n) r where
  debt := by
    have before := first.debt
    have after := second.debt
    omega
  apt := second.apt ∘ first.apt

theorem mono (h : p.Charges m q) (le : m ≤ n) : p.Charges n q :=
  ⟨Int.le_trans h.debt (Int.add_le_add_left le _), h.apt⟩

/-- What changes neither the tokens ahead nor the errors is free. -/
theorem same (h : p.Charges n q) (ahead : r.ahead = q.ahead) (errors : r.errors = q.errors) :
    p.Charges n r := by
  simpa using h.trans (of_same ahead errors)

theorem complainAt (h : p.Charges n q) (span : Span) {c : Complaint} (apt : q.kind ∉ c.expected) :
    p.Charges (n + 1) (q.complainAt span c) := by
  refine h.trans ⟨?_, fun before e mem => ?_⟩
  · show ((q.errors.push _).size : Int) + 4 * q.remaining ≤ q.errors.size + 4 * q.remaining + 1
    rw [Array.size_push]
    omega
  · rw [Parser.complainAt, Array.toList_push, List.mem_append, List.mem_singleton] at mem
    rcases mem with mem | rfl
    · exact before e mem
    · rw [Complaint.toError, KindSet.mem_ofList]
      exact apt

theorem complainTooDeep (h : p.Charges n q) (limit : Nat) :
    p.Charges (n + 1) (Level.complainTooDeep limit q) := by
  rcases Level.complainTooDeep_cases limit q with e | e <;> rw [e]
  · exact h.mono (by omega)
  · exact h.complainAt _ (List.not_mem_nil)

/-- Looking ahead is free. -/
theorem looking (h : p.Charges n q) (looked : r = q ∨ r = q.noticeEnd) : p.Charges n r := by
  rcases looked with rfl | rfl
  · exact h
  · exact h.same rfl rfl

/-- A token that is taken pays for four complaints. -/
theorem advance (h : p.Charges n q) {item : Item} (here : q.ahead.head? = some item) :
    p.Charges (n - 4) (q.advance item) := by
  have less : (q.advance item).remaining < q.remaining := Counted.length_tail_lt here
  have taken : q.Charges (-4) (q.advance item) := by
    refine ⟨?_, id⟩
    show (q.errors.size : Int) + 4 * (q.advance item).remaining ≤
      q.errors.size + 4 * q.remaining + -4
    omega
  exact h.trans taken

end Charges

end Parser

/-! ## Frames -/

namespace Parser.Charges

variable {p : Parser} {f : Frame} {m n : Int}

theorem attach (h : p.Charges n f.parser) (role : Option Role) (t : Tree) :
    p.Charges n (f.attach role t).parser :=
  h.same rfl rfl

theorem take (h : p.Charges n f.parser) (role : Option Role) {item : Item}
    (here : f.parser.ahead.head? = some item) : p.Charges (n - 4) (f.bump role).parser := by
  rw [Frame.bump_eq here]
  exact (h.advance here).same rfl rfl

theorem bump (h : p.Charges n f.parser) (role : Option Role) (here : f.current ≠ .eof) :
    p.Charges (n - 4) (f.bump role).parser := by
  obtain ⟨item, head, -⟩ := Parser.head_of_kind rfl here
  exact h.take role head

/-- At the end of input nothing is taken, and nothing paid. -/
theorem bump_le (h : p.Charges n f.parser) (role : Option Role) :
    p.Charges n (f.bump role).parser := by
  cases head : f.parser.ahead.head? with
  | none =>
      rw [Frame.bump_of_none head]
      exact h.same rfl rfl
  | some item => exact (h.take role head).mono (by omega)

theorem bumps_le (h : p.Charges n f.parser) (k : Nat) : p.Charges n (f.bumps k).parser := by
  induction k generalizing f with
  | zero => exact h
  | succ k ih => exact ih (h.bump_le none)

theorem bumps (h : p.Charges n f.parser) (some : f.parser.ahead.toList ≠ []) (k : Nat) :
    p.Charges (n - 4) (f.bumps (k + 1)).parser := by
  obtain ⟨item, items, ahead⟩ := List.exists_cons_of_ne_nil some
  have head : f.parser.ahead.head? = Option.some item := by
    rw [Counted.head?, ahead]
    rfl
  exact (h.take none head).bumps_le k

theorem child (h : p.Charges n f.parser) (role : Option Role) {read : Parser → Tree × Parser}
    (reads : f.parser.Charges m (read f.parser).2) : p.Charges (n + m) (f.child role read).parser :=
  (h.trans reads).same rfl rfl

theorem skipAsError (h : p.Charges n f.parser) (here : f.current ≠ .eof) :
    p.Charges (n - 4) f.skipAsError.parser :=
  (bump (f := f.parser.start .error) h none here).same rfl rfl

theorem second (h : p.Charges n f.parser) : p.Charges n f.second.2.parser :=
  h.looking f.parser.second_looked

/-- What is insisted on costs at most a complaint. If it is there it pays for that, and if a stray
token stands before it then that one does. -/
theorem demand (h : p.Charges n f.parser) {wanted : Kind} (role : Option Role) {c : Complaint}
    (expects : c.expected = [wanted]) (real : wanted ≠ .eof) :
    p.Charges (n + 1) (f.demand wanted role c).1.parser ∧
      ((f.demand wanted role c).2 = true →
        p.Charges (n - 3) (f.demand wanted role c).1.parser) := by
  rcases f.demand_cases wanted role c with ⟨here, e⟩ | ⟨other, q, looked, rest⟩
  · rw [e]
    have taken := h.bump role (by rwa [here])
    exact ⟨taken.mono (by omega), fun _ => taken.mono (by omega)⟩
  have kind : q.kind = f.current := by
    rcases looked with rfl | rfl <;> rfl
  have complained : p.Charges (n + 1) (q.complainAt f.parser.span c) :=
    (h.looking looked).complainAt _ (by rwa [kind, expects, List.mem_singleton])
  rcases rest with ⟨stray, -, e⟩ | e <;> rw [e]
  · have skipped := (complained.skipAsError (f := { f with parser := q.complainAt _ c })
      (by rw [Frame.current]; exact kind.symm ▸ Kind.ne_eof_of_isStray stray)).bump_le role
    exact ⟨skipped.mono (by omega), fun _ => skipped.mono (by omega)⟩
  · exact ⟨complained.same rfl rfl, fun taken => by cases taken⟩

theorem expect (h : p.Charges n f.parser) (wanted : Kind) (role : Option Role)
    (real : wanted ≠ .eof) : p.Charges (n + 1) (f.expect wanted role).parser :=
  (h.demand role (c := .unexpected wanted) rfl real).1

theorem expectName (h : p.Charges n f.parser) (part : Role) :
    p.Charges (n + 1) (f.expectName part).parser :=
  (h.demand (some part) (c := .absentPart part f.kind .identifier) rfl (by decide)).1

theorem eat (h : p.Charges n f.parser) (kind : Kind) (real : kind ≠ .eof) :
    p.Charges n (f.eat kind).1.parser ∧
      ((f.eat kind).2 = true → p.Charges (n - 4) (f.eat kind).1.parser) := by
  rcases f.eat_cases kind with ⟨here, e⟩ | ⟨-, e⟩ <;> rw [e]
  · have taken := h.bump none (by rwa [here])
    exact ⟨taken.mono (by omega), fun _ => taken⟩
  · exact ⟨h, fun taken => by cases taken⟩

theorem close (h : p.Charges n f.parser) : p.Charges (n + 1) f.close.parser := by
  cases closes : f.kind.closer with
  | none =>
      unfold Frame.close
      rw [closes]
      exact h.mono (by omega)
  | some closer =>
      rcases Frame.close_cases closes with ⟨-, e⟩ | ⟨other, span, e⟩ <;> rw [e]
      · exact (h.bump_le _).mono (by omega)
      · have apt : f.parser.kind ∉ (Complaint.unclosed f.kind closer).expected :=
          fun mem => other (List.mem_singleton.mp mem)
        exact (h.complainAt span apt).same rfl rfl

theorem within (h : p.Charges n f.parser) (closers : List Kind) {read : Frame → Frame}
    (reads : ∀ g : Frame, g.parser.Charges m (read g).parser) :
    p.Charges (n + m) (f.within closers read).parser := by
  have entered : p.Charges n (f.parser.enterBlock closers) := h.same rfl rfl
  exact (entered.trans (reads { f with parser := f.parser.enterBlock closers })).same rfl rfl

/-! ### Loops -/

theorem loop {step : Frame → Frame × Bool} (h : p.Charges n f.parser)
    (each : ∀ g : Frame, g.parser.Charges 0 (step g).1.parser) :
    p.Charges n (f.loop step).parser :=
  Frame.loop_keeps (I := fun g => p.Charges n g.parser)
    (fun g before => by simpa using before.trans (each g)) h

theorem bumpWhile (h : p.Charges n f.parser) (role : Option Role) (passes : Kind → Bool) :
    p.Charges n (f.bumpWhile role passes).parser := by
  refine h.loop fun g => ?_
  split
  · exact (refl _).bump_le role
  · exact refl _

theorem bumpWhile_of (h : p.Charges n f.parser) (role : Option Role) {passes : Kind → Bool}
    (here : f.current ≠ .eof) (pass : passes f.current = true) :
    p.Charges (n - 4) (f.bumpWhile role passes).parser := by
  have taken := h.bump role here
  unfold Frame.bumpWhile
  rw [Frame.loop_eq, if_pos pass]
  split
  · exact taken.bumpWhile role passes
  · exact taken

/-- All parts of a list but the last are paid for by the commas behind them. -/
theorem commaSeparated {part : Frame → Frame} (h : p.Charges n f.parser) (few : m ≤ 4)
    (each : ∀ g : Frame, g.parser.Charges m (part g).parser) :
    p.Charges (n + m) (f.commaSeparated part).parser := by
  have round (g : Frame) (before : p.Charges n g.parser) :=
    (before.trans (each g)).eat (f := part g) .comma (by decide)
  exact Loop.run_rule (P := fun g : Frame => p.Charges n g.parser)
    (Q := fun g : Frame => p.Charges (n + m) g.parser)
    (fun g before goes => ((round g before).2 goes).mono (by omega))
    (fun g before _ => (round g before).1) (fun g before _ _ => (round g before).1) h

end Parser.Charges

end JassSyntax
