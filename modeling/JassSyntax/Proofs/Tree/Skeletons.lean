import JassSyntax.Tree.Sexp
import Mathlib.Tactic.Common

/-!
# S-expressions are uniquely readable

The skeleton of a tree is the ordered labelled tree that its S-expression is to show. Labels are not
all words: the label of a placeholder has a space, and it may hold brackets, `MISSING closing quote`
and ``MISSING `)` `` being two of them. What makes the text readable all the same is that a label
with spaces stands only where nothing comes below it, and that a bracket in a label stands between
backquotes.

The reader of S-expressions is a program of its own. It keeps the nodes that are still open,
innermost first, and no more; a skeleton that has been read is added to the innermost of them.
-/

namespace JassSyntax

/-- An ordered tree with labels, whose subtrees may have the name of a role. A leaf is a label with
nothing below it. -/
inductive Skeleton where
  | node (role : Option String) (label : String) (subtrees : List Skeleton)
  deriving Repr, Inhabited

namespace Skeleton

/-! ## The text of a skeleton -/

/-- A role as it stands before what plays it. -/
def roleText : Option String → List Char
  | some role => role.toList ++ [':', ' ']
  | none => []

mutual

/-- A skeleton in brackets, behind its role. -/
def text : Skeleton → List Char
  | node role label subtrees =>
    roleText role ++ '(' :: (label.toList ++ (textAll subtrees ++ [')']))

/-- Skeletons with a space before each. -/
def textAll : List Skeleton → List Char
  | [] => []
  | s :: ss => ' ' :: (text s ++ textAll ss)

end

/-! ## Reading -/

/-- What words are made of. -/
def isWord (c : Char) : Bool := c.isAlpha || c = '_'

/-- The description of what is missing, up to the closing backquote or bracket. -/
def description : List Char → List Char × List Char
  | '\x60' :: cs =>
    ('\x60' :: cs.takeWhile (· ≠ '\x60') ++ ['\x60'], (cs.dropWhile (· ≠ '\x60')).tail)
  | cs => (cs.takeWhile (· ≠ ')'), cs.dropWhile (· ≠ ')'))

/-- A label and the text behind it: a word, and what is missing if the word says so. -/
def label (cs : List Char) : List Char × List Char :=
  let word := cs.takeWhile isWord
  let rest := cs.dropWhile isWord
  if word = "MISSING".toList then
    (word ++ ' ' :: (description rest.tail).1, (description rest.tail).2)
  else (word, rest)

/-- The beginning of a skeleton: its role if it has one, its label, and the text behind it. -/
def opening? (cs : List Char) : Option (Skeleton × List Char) :=
  match cs with
  | '(' :: cs => some (node none (String.ofList (label cs).1) [], (label cs).2)
  | _ =>
    match cs.dropWhile isWord with
    | ':' :: ' ' :: '(' :: rest =>
      some (node (some (String.ofList (cs.takeWhile isWord))) (String.ofList (label rest).1) [],
        (label rest).2)
    | _ => none

/-- The skeleton with another subtree behind those that it has. -/
def add : Skeleton → Skeleton → Skeleton
  | node role label subtrees, s => node role label (subtrees ++ [s])

theorem description_length (cs : List Char) : (description cs).2.length ≤ cs.length := by
  unfold description
  split
  next cs =>
    have := (List.dropWhile_suffix (· ≠ '\x60') (l := cs)).length_le
    simp only [List.length_tail, List.length_cons]
    omega
  · exact (List.dropWhile_suffix _).length_le

theorem label_length (cs : List Char) : (label cs).2.length ≤ cs.length := by
  have rest := (List.dropWhile_suffix isWord (l := cs)).length_le
  simp only [label]
  split
  · have := description_length (cs.dropWhile isWord).tail
    simp only [List.length_tail] at this ⊢
    omega
  · exact rest

theorem opening?_length {cs rest : List Char} {s : Skeleton} (h : opening? cs = some (s, rest)) :
    rest.length ≤ cs.length := by
  unfold opening? at h
  split at h
  next cs =>
    cases h
    exact Nat.le_succ_of_le (label_length cs)
  · split at h
    next after dropped =>
      cases h
      have rest := (List.dropWhile_suffix isWord (l := cs)).length_le
      have := label_length after
      rw [dropped] at rest
      simp only [List.length_cons] at rest
      omega
    · cases h

/-- Reads the text inside open nodes, innermost first, up to the end of the outermost. -/
def readFrom (opened : List Skeleton) (cs : List Char) : Option Skeleton :=
  match cs with
  | ' ' :: cs =>
    match _h : opening? cs with
    | some (s, rest) => readFrom (s :: opened) rest
    | none => none
  | ')' :: rest =>
    match opened with
    | [] => none
    | [s] => if rest.isEmpty then some s else none
    | s :: t :: opened => readFrom (t.add s :: opened) rest
  | _ => none
  termination_by cs.length
  decreasing_by
    · have := opening?_length _h
      simp only [List.length_cons]
      omega
    · simp

/-- The skeleton that a text shows. -/
def ofText? (s : String) : Option Skeleton := readFrom [] (' ' :: s.toList)

/-! ## Reading labels and roles back -/

/-- A text of word characters only. -/
def Word (s : String) : Prop := s.toList.all isWord = true

instance (s : String) : Decidable (Word s) := inferInstanceAs (Decidable (_ = true))

theorem Word.isWord {s : String} (h : Word s) : ∀ c ∈ s.toList, isWord c = true :=
  List.all_eq_true.mp h

section

variable {s : String} (word : Word s) {c : Char} (stop : isWord c = false) (rest : List Char)
include word stop

theorem takeWhile_isWord : (s.toList ++ c :: rest).takeWhile isWord = s.toList := by
  rw [List.takeWhile_append_of_pos word.isWord, List.takeWhile_cons_of_neg (by simp [stop]),
    List.append_nil]

theorem dropWhile_isWord : (s.toList ++ c :: rest).dropWhile isWord = c :: rest := by
  rw [List.dropWhile_append_of_pos word.isWord, List.dropWhile_cons_of_neg (by simp [stop])]

/-- A word is read back as a label, unless it announces what is missing. -/
theorem label_word (plain : s ≠ "MISSING") :
    label (s.toList ++ c :: rest) = (s.toList, c :: rest) := by
  have plain : s.toList ≠ "MISSING".toList := fun h => plain (String.toList_injective h)
  simp only [label, takeWhile_isWord word stop, dropWhile_isWord word stop, if_neg plain]

end

/-- What is missing is read back up to the bracket that closes the leaf: a bracket of its own stands
between backquotes. -/
theorem description_describe (k : Kind) (rest : List Char) :
    description (k.describe.toList ++ ')' :: rest) = (k.describe.toList, ')' :: rest) := by
  cases k <;> rfl

theorem label_missing (k : Kind) (rest : List Char) :
    label (("MISSING " ++ k.describe).toList ++ ')' :: rest)
      = (("MISSING " ++ k.describe).toList, ')' :: rest) := by
  have text : ("MISSING " ++ k.describe).toList
      = "MISSING".toList ++ ' ' :: k.describe.toList := by
    rw [String.toList_append]
    rfl
  have word : Word "MISSING" := by decide
  have blank : isWord ' ' = false := by decide
  rw [text, List.append_assoc, List.cons_append]
  simp only [label, takeWhile_isWord word blank, dropWhile_isWord word blank, if_true,
    List.tail_cons, description_describe]

theorem opening?_none (cs : List Char) :
    opening? ('(' :: cs) = some (node none (String.ofList (label cs).1) [], (label cs).2) := rfl

theorem opening?_some {role : String} (word : Word role) (cs : List Char) :
    opening? (role.toList ++ ':' :: ' ' :: '(' :: cs)
      = some (node (some role) (String.ofList (label cs).1) [], (label cs).2) := by
  have colon : isWord ':' = false := by decide
  have noBracket : ∀ cs', role.toList ++ ':' :: ' ' :: '(' :: cs ≠ '(' :: cs' := by
    intro cs' h
    cases eq : role.toList with
    | nil => simp [eq] at h
    | cons c cs =>
      have first : isWord c = true := word.isWord c (by simp [eq])
      rw [eq, List.cons_append] at h
      rw [(List.cons.inj h).1] at first
      exact absurd first (by decide)
  unfold opening?
  split
  next cs' h => exact absurd h (noBracket cs')
  · rw [dropWhile_isWord word colon, takeWhile_isWord word colon]
    simp

/-! ## Reading skeletons back -/

/-- The skeletons that can be read back: roles and labels are words, and a label that says what is
missing stands at a leaf. -/
inductive Legible : Skeleton → Prop
  | word {role : Option String} {label : String} {subtrees : List Skeleton}
      (roleWord : ∀ r ∈ role, Word r) (labelWord : Word label) (plain : label ≠ "MISSING")
      (below : ∀ s ∈ subtrees, Legible s) : Legible (node role label subtrees)
  | missing {role : Option String} (roleWord : ∀ r ∈ role, Word r) (k : Kind) :
      Legible (node role ("MISSING " ++ k.describe) [])

/-- The beginning of a skeleton is read back if its label is. -/
theorem opening?_roleText {role : Option String} (roleWord : ∀ r ∈ role, Word r) {l : String}
    {cs rest : List Char} (labelled : Skeleton.label cs = (l.toList, rest)) :
    opening? (roleText role ++ '(' :: cs) = some (node role l [], rest) := by
  cases role with
  | none => rw [roleText, List.nil_append, opening?_none, labelled, String.ofList_toList]
  | some r =>
    rw [roleText, List.append_assoc, List.cons_append, List.cons_append, List.nil_append,
      opening?_some (roleWord r rfl), labelled, String.ofList_toList]

section

variable {opened : List Skeleton} {s t : Skeleton} {cs rest : List Char}

theorem readFrom_opening (h : opening? cs = some (s, rest)) :
    readFrom opened (' ' :: cs) = readFrom (s :: opened) rest := by
  rw [readFrom]
  split
  next e => rw [h] at e; cases e; rfl
  next e => rw [h] at e; cases e

theorem readFrom_closing :
    readFrom (s :: t :: opened) (')' :: rest) = readFrom (t.add s :: opened) rest := by
  rw [readFrom]

theorem readFrom_end : readFrom [s] [')'] = some s := by
  rw [readFrom]
  rfl

end

/-- Skeletons inside an open node are added to it, if each of them is read up to its end. -/
theorem readFrom_textAll {ss : List Skeleton}
    (each : ∀ s ∈ ss, ∀ opened rest, readFrom opened (' ' :: (s.text ++ rest))
      = readFrom (s :: opened) (')' :: rest))
    (role : Option String) (l : String) (before opened : List Skeleton) (rest : List Char) :
    readFrom (node role l before :: opened) (textAll ss ++ rest)
      = readFrom (node role l (before ++ ss) :: opened) rest := by
  induction ss generalizing before with
  | nil => rw [textAll, List.nil_append, List.append_nil]
  | cons s ss ih =>
    rw [textAll, List.cons_append, List.append_assoc, each s (by simp), readFrom_closing, add,
      ih (fun s hs => each s (by simp [hs])), List.append_assoc, List.singleton_append]

/-- The text of a legible skeleton is read up to its closing bracket, with the skeleton then the
innermost open node. -/
theorem Legible.readFrom_text {s : Skeleton} (h : Legible s) (opened : List Skeleton)
    (rest : List Char) :
    readFrom opened (' ' :: (s.text ++ rest)) = readFrom (s :: opened) (')' :: rest) := by
  have bracket : isWord ')' = false := by decide
  have blank : isWord ' ' = false := by decide
  induction h generalizing opened rest with
  | @word role l subtrees roleWord labelWord plain _ ih =>
    have labelled : Skeleton.label (l.toList ++ (textAll subtrees ++ ')' :: rest))
        = (l.toList, textAll subtrees ++ ')' :: rest) := by
      cases subtrees with
      | nil => exact label_word labelWord bracket rest plain
      | cons s ss => exact label_word labelWord blank _ plain
    have whole : (node role l subtrees).text ++ rest
        = roleText role ++ '(' :: (l.toList ++ (textAll subtrees ++ ')' :: rest)) := by
      simp [text]
    rw [whole, readFrom_opening (opening?_roleText roleWord labelled), readFrom_textAll ih,
      List.nil_append]
  | @missing role roleWord k =>
    have whole : (node role ("MISSING " ++ k.describe) []).text ++ rest
        = roleText role ++ '(' :: (("MISSING " ++ k.describe).toList ++ ')' :: rest) := by
      simp [text, textAll]
    rw [whole, readFrom_opening (opening?_roleText roleWord (label_missing k rest))]

/-- A legible skeleton is read back from its text. -/
theorem Legible.ofText?_text {s : Skeleton} (h : Legible s) :
    ofText? (String.ofList s.text) = some s := by
  rw [ofText?, String.toList_ofList, ← List.append_nil s.text, h.readFrom_text, readFrom_end]

end Skeleton

namespace Tree

/-! ## Skeletons of trees -/

mutual

/-- The skeleton of a child of a `parent`, unless it is a token without a name. A construct's
closing keyword goes by its alias. -/
def childSkeleton? (parent : NodeKind) : Tree → Option Skeleton
  | token r t =>
    (leafName? parent r t.kind).map fun name => .node (r.map Role.label) name []
  | missing r k _ => some (.node (r.map Role.label) ("MISSING " ++ k.describe) [])
  | node r k _ cs => some (.node (r.map Role.label) k.name (childSkeletons k cs))

/-- The skeletons of the children of a `parent`, in order. -/
def childSkeletons (parent : NodeKind) : List Tree → List Skeleton
  | [] => []
  | t :: ts => (childSkeleton? parent t).toList ++ childSkeletons parent ts

end

/-- The skeleton of a node. Its own role is not part of it. -/
def skeleton? : Tree → Option Skeleton
  | node _ k _ cs => some (.node none k.name (childSkeletons k cs))
  | _ => none

/-! ## The S-expression is the text of the skeleton -/

theorem toList_sexpItem (r : Option Role) (label : String) (below : List Skeleton) :
    (sexpItem r ("(" ++ label ++ String.ofList (Skeleton.textAll below) ++ ")")).toList
      = ' ' :: (Skeleton.node (r.map Role.label) label below).text := by
  cases r <;> simp [sexpItem, Skeleton.text, Skeleton.roleText]

mutual

theorem toList_sexpChild (parent : NodeKind) :
    (t : Tree) → (sexpChild parent t).toList = Skeleton.textAll (childSkeleton? parent t).toList
  | token r t => by
    rw [sexpChild, childSkeleton?]
    cases leafName? parent r t.kind with
    | none => rfl
    | some name => simpa [Skeleton.textAll] using toList_sexpItem r name []
  | missing r k _ => by
    have label : "(MISSING " ++ k.describe = "(" ++ ("MISSING " ++ k.describe) := by
      rw [← String.append_assoc]
      rfl
    rw [sexpChild, childSkeleton?, label]
    simpa [Skeleton.textAll] using toList_sexpItem r ("MISSING " ++ k.describe) []
  | node r k _ cs => by
    have children : sexpChildren k cs = String.ofList (Skeleton.textAll (childSkeletons k cs)) := by
      rw [← toList_sexpChildren k cs, String.ofList_toList]
    rw [sexpChild, childSkeleton?, children, toList_sexpItem]
    simp [Skeleton.textAll]

theorem toList_sexpChildren (parent : NodeKind) :
    (ts : List Tree) → (sexpChildren parent ts).toList
      = Skeleton.textAll (childSkeletons parent ts)
  | [] => rfl
  | t :: ts => by
    rw [sexpChildren, childSkeletons, String.toList_append, toList_sexpChild parent t,
      toList_sexpChildren parent ts]
    cases childSkeleton? parent t <;> simp [Skeleton.textAll]

end

/-- The S-expression is the text of the skeleton, and empty for what is no node. -/
theorem sexp_eq_text (t : Tree) :
    t.sexp = String.ofList ((t.skeleton?.map Skeleton.text).getD []) := by
  cases t with
  | token | missing => rfl
  | node r k s cs =>
    apply String.toList_injective
    simp [sexp, skeleton?, toList_sexpChildren, Skeleton.text, Skeleton.roleText]

/-! ## Skeletons of trees are legible -/

theorem word_label (r : Role) : Skeleton.Word r.label := by cases r <;> decide

theorem word_name (k : NodeKind) : Skeleton.Word k.name ∧ k.name ≠ "MISSING" := by
  cases k <;> decide

theorem word_closerAlias (k : NodeKind) :
    ∀ name ∈ k.closerAlias, Skeleton.Word name ∧ name ≠ "MISSING" := by
  cases k <;> decide

theorem word_kindLeafName? (k : Kind) :
    ∀ name ∈ k.leafName?, Skeleton.Word name ∧ name ≠ "MISSING" := by
  cases k <;> decide

theorem word_leafName? {parent : NodeKind} {r : Option Role} {k : Kind} {name : String}
    (h : leafName? parent r k = some name) : Skeleton.Word name ∧ name ≠ "MISSING" := by
  unfold leafName? at h
  split at h
  next closer =>
    cases h
    exact word_closerAlias parent name closer
  · exact word_kindLeafName? k name h

theorem word_of_mem_roleLabel (r : Option Role) : ∀ l ∈ r.map Role.label, Skeleton.Word l := by
  intro l hl
  obtain ⟨r, _, rfl⟩ := Option.map_eq_some_iff.mp hl
  exact word_label r

mutual

theorem legible_childSkeleton? (parent : NodeKind) :
    (t : Tree) → ∀ s ∈ childSkeleton? parent t, s.Legible
  | token r t => by
    intro s hs
    obtain ⟨name, named, rfl⟩ := Option.map_eq_some_iff.mp hs
    obtain ⟨word, plain⟩ := word_leafName? named
    exact .word (word_of_mem_roleLabel r) word plain (by simp)
  | missing r k _ => by
    intro s hs
    cases hs
    exact .missing (word_of_mem_roleLabel r) k
  | node r k _ cs => by
    intro s hs
    cases hs
    obtain ⟨word, plain⟩ := word_name k
    exact .word (word_of_mem_roleLabel r) word plain (legible_childSkeletons k cs)

theorem legible_childSkeletons (parent : NodeKind) :
    (ts : List Tree) → ∀ s ∈ childSkeletons parent ts, s.Legible
  | [] => by simp [childSkeletons]
  | t :: ts => by
    intro s hs
    rcases List.mem_append.mp hs with hs | hs
    · exact legible_childSkeleton? parent t s (by simpa using hs)
    · exact legible_childSkeletons parent ts s hs

end

theorem legible_skeleton? {t : Tree} {s : Skeleton} (h : t.skeleton? = some s) : s.Legible := by
  cases t with
  | token | missing => cases h
  | node r k span cs =>
    cases h
    obtain ⟨word, plain⟩ := word_name k
    exact .word (by simp) word plain (legible_childSkeletons k cs)

/-- The reader of S-expressions gives back the skeleton of every node, and nothing for the empty
text of what is no node. -/
theorem ofText?_sexp (t : Tree) : Skeleton.ofText? t.sexp = t.skeleton? := by
  rw [sexp_eq_text]
  cases read : t.skeleton? with
  | none => simp [Skeleton.ofText?, Skeleton.readFrom, Skeleton.opening?]
  | some s => exact (legible_skeleton? read).ofText?_text

/-- **S-expressions are uniquely readable**: the skeleton of a tree is decoded from the text, so
that two trees have one text just if they have one skeleton. -/
theorem sexp_readable (t u : Tree) :
    Skeleton.ofText? t.sexp = t.skeleton? ∧ (t.sexp = u.sexp ↔ t.skeleton? = u.skeleton?) := by
  refine ⟨ofText?_sexp t, fun texts => ?_, fun skeletons => ?_⟩
  · rw [← ofText?_sexp t, texts, ofText?_sexp u]
  · rw [sexp_eq_text t, skeletons, ← sexp_eq_text u]

end Tree

end JassSyntax
