import JassSyntax.Proofs.Writing.Following

/-!
# How expressions begin and go on

By the first word of an expression the grammar decides what to read, sometimes by the second too. By
the word after an expression it decides whether there is more of it.
-/

namespace JassSyntax

namespace Kind

/-- Members, indices, methods, arguments and updates follow the operand that they belong to. -/
def isSuffix (k : Kind) : Bool :=
  k.startsArguments ||
    match k with
    | .dot | .lBracket | .colon | .plusPlus | .minusMinus => true
    | _ => false

/-- Whether an expression goes on with a token of the kind, where operators bind at least as tightly
as `least`. -/
def continues (k : Kind) (least : Nat) : Bool :=
  k.isSuffix || k.binary?.any (least ≤ ·.1)

/-- What an expression begins with that no operator can reach into. -/
def isPrimary : Kind → Bool
  | .identifier | .number | .float | .stringStart | .lBrace | .lParen | .kwFunction => true
  | _ => false

variable {k : Kind} {own least : Nat} {side : Associativity}

theorem suffix_of_startsArguments (h : k.startsArguments = true) : k.isSuffix = true := by
  simp [isSuffix, h]

theorem continues_of_suffix (h : k.isSuffix = true) : k.continues least = true := by
  simp [continues, h]

theorem continues_of_binary (binds : k.binary? = some (own, side)) (tight : least ≤ own) :
    k.continues least = true := by
  simp [continues, binds, tight]

theorem continues_of_le {loose : Nat} (h : k.continues least = true) (le : loose ≤ least) :
    k.continues loose = true := by
  cases op : k.binary? with
  | none => simpa [continues, op] using h
  | some binding =>
      rw [continues, op, Bool.or_eq_true] at h
      rcases h with suffix | binary
      · exact continues_of_suffix suffix
      · have tight : least ≤ binding.1 := by simpa using binary
        exact continues_of_binary op (by omega)

theorem not_suffix_of_not_continues (h : k.continues least = false) : k.isSuffix = false := by
  rw [continues, Bool.or_eq_false_iff] at h
  exact h.1

theorem lt_of_not_continues (h : k.continues least = false) (binds : k.binary? = some (own, side)) :
    own < least := by
  rw [continues, Bool.or_eq_false_iff, binds] at h
  simpa using h.2

theorem not_continues_of_le {tight : Nat} (h : k.continues least = false) (le : least ≤ tight) :
    k.continues tight = false := by
  rw [Bool.eq_false_iff] at h ⊢
  exact fun continues => h (continues_of_le continues le)

/-- What joins operands does not extend one. -/
theorem not_suffix_of_binary? (binds : k.binary? = some (own, side)) : k.isSuffix = false := by
  unfold binary? at binds
  split at binds <;> first | rfl | cases binds

theorem not_continues_of_binary? (binds : k.binary? = some (own, side)) (loose : own < least) :
    k.continues least = false := by
  simp [continues, not_suffix_of_binary? binds, binds, loose]

/-- Where operators have to bind more tightly, fewer of them continue an expression. -/
theorem not_continues_of_tighter {tight : Nat} (h : k.continues least = false)
    (tighter : ∀ own side, k.binary? = some (own, side) → own < least → own < tight) :
    k.continues tight = false := by
  cases op : k.binary? with
  | none => simp [continues, not_suffix_of_not_continues h, op]
  | some binding =>
      exact not_continues_of_binary? op (tighter _ _ op (lt_of_not_continues h op))

end Kind

namespace Abstract

theorem BinaryOperator.continues (op : BinaryOperator) : op.kind.continues op.power = true :=
  Kind.continues_of_binary op.binds (Nat.le_refl _)

theorem BinaryOperator.power_le_leftPower (op : BinaryOperator) : op.power ≤ op.leftPower := by
  rw [leftPower]
  cases op.side with
  | left => exact Nat.le_refl _
  | right => exact Nat.le_succ _

theorem BinaryOperator.power_le_rightPower (op : BinaryOperator) : op.power ≤ op.rightPower := by
  unfold rightPower
  cases op.side with
  | left => exact Nat.le_succ _
  | right => exact Nat.le_refl _

theorem BinaryOperator.rightPower_le (op : BinaryOperator) : op.rightPower ≤ 11 :=
  Kind.rightPower_le_eleven_of_binary? op.binds

/-- Where an operation can be the left operand of an operator, that operator binds too loosely to be
in its right operand. -/
theorem BinaryOperator.lt_rightPower {op op' : BinaryOperator} (fits : op.leftPower ≤ op'.power) :
    op.power < op'.rightPower := by
  have le := Nat.le_trans op.power_le_leftPower fits
  cases right : op'.side with
  | left =>
      rw [rightPower, right]
      exact Nat.lt_succ_of_le le
  | right =>
      rw [rightPower, right]
      show op.power < op'.power
      -- Operators of the same power would lean to different sides.
      cases left : op.side with
      | left =>
          refine Nat.lt_of_le_of_ne le ?_
          intro same
          have side := Kind.side_of_binary? op.binds
          rw [same, ← Kind.side_of_binary? op'.binds, left, right] at side
          cases side
      | right =>
          rw [leftPower, left] at fits
          exact fits

theorem Arguments.first_startsArguments (args : Arguments) (rest : List Token) :
    (firstKind (args.tree.leaves ++ rest)).startsArguments = true := by
  cases args <;> simp [Arguments.tree, Quoted.tree, Kind.startsArguments]

namespace Expr

theorem closed_of_isBase {e : Expr} (h : e.isBase = true) : Power.closed ≤ e.power := by
  cases e <;> first | exact Nat.le_refl _ | cases h

/-- Where a list may stand, every expression may. -/
theorem fits_comma (e : Expr) : e.fits Power.comma = true := by
  cases e with
  | unary => rfl
  | binary op l r => exact decide_eq_true (Kind.comma_le_of_binary? op.binds)
  | _ => rfl

theorem le_or_unary_of_fits {least : Nat} {e : Expr} (h : e.fits least = true) :
    least ≤ e.power ∨ e.power = Power.unary := by
  cases e with
  | unary => exact .inr rfl
  | _ => exact .inl (of_decide_eq_true h)

/-! ## The leftmost part of an expression -/

/-- Nothing of the expression stands before its first token or bracket. -/
def isHead : Expr → Bool
  | member .. | index .. | call .. | methodCall .. | update .. | binary .. | list .. => false
  | _ => true

/-- The expression begins with the other one, and what follows that continues it. -/
structure Opens (e head : Expr) (ws : List Token) : Prop where
  isHead : head.isHead = true
  words : e.tree.leaves = head.tree.leaves ++ ws
  next : ws = [] ∨ (firstKind ws).continues e.power = true
  closed : Power.closed ≤ e.power → Power.closed ≤ head.power

theorem opens_self {e : Expr} (h : e.isHead = true) : e.Opens e [] :=
  ⟨h, by simp, .inl rfl, id⟩

/-- An expression begins with what its leftmost part begins with. -/
theorem Opens.extend {e left head : Expr} {ws : List Token} (h : left.Opens head ws)
    (us : List Token) (words : e.tree.leaves = left.tree.leaves ++ us)
    (continues : (firstKind us).continues e.power = true) (le : e.power ≤ left.power) :
    e.Opens head (ws ++ us) where
  isHead := h.isHead
  words := by rw [words, h.words, List.append_assoc]
  next := by
    refine .inr ?_
    rcases h.next with none | next
    · rw [none]
      exact continues
    · cases ws with
      | nil => exact continues
      | cons w ws => exact Kind.continues_of_le next le
  closed closed := h.closed (Nat.le_trans closed le)

/-- Every expression begins with one that nothing stands before. -/
theorem exists_opens : ∀ e : Expr, e.grouped = true → ∃ head ws, e.Opens head ws
  -- The recursion goes to the left only. On the way up each construct adds its own words, and the
  -- first of them continues what is to its left.
  | name _, _ | number _, _ | float _, _ | string _, _ | table _, _ | function .., _ | group _, _
  | unary .., _ => ⟨_, _, opens_self rfl⟩
  | member base part, g => by
      simp only [grouped, Bool.and_eq_true] at g
      obtain ⟨head, ws, opens⟩ := exists_opens base g.2
      refine ⟨head, _, opens.extend [.spelled .dot, .spelled .identifier part] ?_
        (Kind.continues_of_suffix rfl) (closed_of_isBase g.1)⟩
      simp [tree]
  | index base i, g => by
      simp only [grouped, Bool.and_eq_true] at g
      obtain ⟨head, ws, opens⟩ := exists_opens base g.1.1.2
      refine ⟨head, _, opens.extend (.spelled .lBracket :: (i.tree.leaves ++
        [.spelled .rBracket])) ?_ (Kind.continues_of_suffix rfl) (closed_of_isBase g.1.1.1)⟩
      simp [tree]
  | call base args, g => by
      simp only [grouped, Bool.and_eq_true] at g
      obtain ⟨head, ws, opens⟩ := exists_opens base g.1.2
      have suffix := Kind.suffix_of_startsArguments (args.first_startsArguments [])
      rw [List.append_nil] at suffix
      refine ⟨head, _, opens.extend args.tree.leaves ?_ (Kind.continues_of_suffix suffix)
        (closed_of_isBase g.1.1)⟩
      simp [tree]
  | methodCall base method args, g => by
      simp only [grouped, Bool.and_eq_true] at g
      obtain ⟨head, ws, opens⟩ := exists_opens base g.1.2
      refine ⟨head, _, opens.extend (.spelled .colon :: .spelled .identifier method ::
        args.tree.leaves) ?_ (Kind.continues_of_suffix rfl) (closed_of_isBase g.1.1)⟩
      simp [tree]
  | update e op, g => by
      simp only [grouped, Bool.and_eq_true, decide_eq_true_eq] at g
      obtain ⟨head, ws, opens⟩ := exists_opens e g.2
      refine ⟨head, _, opens.extend [.spelled op.kind] ?_
        (Kind.continues_of_suffix (by cases op <;> rfl)) g.1⟩
      simp [tree]
  | binary op l r, g => by
      simp only [grouped, Bool.and_eq_true, decide_eq_true_eq] at g
      obtain ⟨head, ws, opens⟩ := exists_opens l g.1.1.2
      refine ⟨head, _, opens.extend (.spelled op.kind :: r.tree.leaves) ?_ op.continues
        (Nat.le_trans op.power_le_leftPower g.1.1.1)⟩
      simp [tree]
  | list first second more, g => by
      simp only [grouped, Bool.and_eq_true, decide_eq_true_eq] at g
      obtain ⟨head, ws, opens⟩ := exists_opens first g.1.1.1.2
      refine ⟨head, _, opens.extend (.spelled .comma ::
        Tree.leavesAll (listed (second.tree :: trees more))) ?_ ?_ ?_⟩
      · simp [tree]
      · exact Kind.continues_of_binary (show Kind.comma.binary? = some (_, .left) from rfl)
          (Nat.le_refl _)
      · exact Nat.le_trans (show Power.comma ≤ Power.assignment by decide) g.1.1.1.1

variable {e : Expr} (grouped : e.grouped = true) (rest : List Token)

include grouped

theorem first_canStart : (firstKind (e.tree.leaves ++ rest)).canStartExpression = true := by
  obtain ⟨head, ws, opens⟩ := e.exists_opens grouped
  have isHead := opens.isHead
  rw [opens.words, List.append_assoc]
  cases head with
  | unary op _ =>
      have unary := op.unary
      simp only [tree, leaves_build, Tree.leavesAll_cons, leaves_mark, List.cons_append,
        List.nil_append, firstKind_cons, Token.kind_spelled]
      revert unary
      cases op.kind <;> decide
  | member | index | call | methodCall | update | binary | list => cases isHead
  | _ => simp [tree, Quoted.tree, closed, Kind.canStartExpression]

theorem first_listed (es : List Expr) (role : Option Role) :
    (firstKind (Tree.leavesAll (listed ((e :: es).map fun x => x.tree.withRole role)) ++
      rest)).canStartExpression = true := by
  cases es with
  | nil => simpa using first_canStart grouped rest
  | cons x es => simpa using first_canStart grouped _

theorem first_isPrimary (closed : Power.closed ≤ e.power) :
    (firstKind (e.tree.leaves ++ rest)).isPrimary = true := by
  obtain ⟨head, ws, opens⟩ := e.exists_opens grouped
  have isHead := opens.isHead
  have closed := opens.closed closed
  rw [opens.words, List.append_assoc]
  cases head with
  | unary => simp [power, Power.closed, Power.unary] at closed
  | member | index | call | methodCall | update | binary | list => cases isHead
  | _ => simp [tree, Quoted.tree, Abstract.closed, Kind.isPrimary]

/-- After a name at its beginning an expression goes on or ends. -/
theorem second_of_name (name : firstKind (e.tree.leaves ++ rest) = .identifier) :
    firstKind (e.tree.leaves ++ rest).tail = firstKind rest ∨
      (firstKind (e.tree.leaves ++ rest).tail).continues e.power = true := by
  obtain ⟨head, ws, opens⟩ := e.exists_opens grouped
  have isHead := opens.isHead
  rw [opens.words, List.append_assoc] at name ⊢
  cases head with
  | name text =>
      simp only [tree, leaves_ident, List.cons_append, List.nil_append, List.tail_cons]
      rcases opens.next with none | next
      · rw [none]
        exact .inl rfl
      · cases ws with
        | nil => exact .inl rfl
        | cons w ws => exact .inr next
  | unary op _ =>
      have unary := op.unary
      simp only [tree, leaves_build, Tree.leavesAll_cons, leaves_mark, List.cons_append,
        List.nil_append, firstKind_cons, Token.kind_spelled] at name
      rw [name] at unary
      cases unary
  | member | index | call | methodCall | update | binary | list => cases isHead
  | _ => simp [tree, Quoted.tree, closed] at name

/-- An expression that is no assignment does not begin with the assignment of a name. -/
theorem unnamed (fits : e.fits (Power.assignment + 1) = true) (ended : firstKind rest ≠ .equals)
    (name : firstKind (e.tree.leaves ++ rest) = .identifier) :
    firstKind (e.tree.leaves ++ rest).tail ≠ .equals := by
  intro equals
  rcases second_of_name grouped rest name with last | continues
  · exact ended (last.symm.trans equals)
  · rw [equals] at continues
    have loose : e.power ≤ Power.assignment := by
      simpa [Kind.continues, Kind.isSuffix, Kind.startsArguments, Kind.binary?] using continues
    rcases le_or_unary_of_fits fits with tight | unary
    · exact absurd loose (by omega)
    · rw [unary] at loose
      exact absurd loose (by decide)

theorem second_of_function (function : firstKind (e.tree.leaves ++ rest) = .kwFunction) :
    firstKind (e.tree.leaves ++ rest).tail = .lParen := by
  obtain ⟨head, ws, opens⟩ := e.exists_opens grouped
  have isHead := opens.isHead
  rw [opens.words, List.append_assoc] at function ⊢
  cases head with
  | function => simp [tree, closed, parameterTree]
  | unary op _ =>
      have unary := op.unary
      simp only [tree, leaves_build, Tree.leavesAll_cons, leaves_mark, List.cons_append,
        List.nil_append, firstKind_cons, Token.kind_spelled] at function
      rw [function] at unary
      cases unary
  | member | index | call | methodCall | update | binary | list => cases isHead
  | _ => simp [tree, Quoted.tree] at function

end Expr

end Abstract

end JassSyntax
