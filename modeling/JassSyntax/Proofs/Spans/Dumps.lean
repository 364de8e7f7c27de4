import JassSyntax.Proofs.Spans.Slicing
import JassSyntax.Proofs.Tree.Places
import JassSyntax.Proofs.Tree.Skeletons

/-!
# Dumps have a line for every element

A line of a dump shows a role, a name, a place and a stretch of the source, and the stretch may run
over many lines. None of the parts keeps a line feed, and the first of them begins with something to
see; so the dump is cut at its line feeds into the lines of the elements, and each line tells the
depth of its element by the blanks before it.
-/

namespace JassSyntax

namespace Tree

/-! ## Parts of a line -/

/-- A text on one line that begins with something else than a blank. -/
structure Solid (cs : List Char) : Prop where
  visible : cs.head?.any (· ≠ ' ') = true
  unbroken : '\n' ∉ cs

theorem Solid.append {cs ds : List Char} (h : Solid cs) (unbroken : '\n' ∉ ds) :
    Solid (cs ++ ds) where
  visible := by
    cases cs with
    | nil => cases h.visible
    | cons c cs => exact h.visible
  unbroken := by simp [h.unbroken, unbroken]

/-- A word that is not empty shows from its first letter on. -/
theorem solid_of_word {s : String} (word : Skeleton.Word s) (filled : s ≠ "") :
    Solid s.toList where
  visible := by
    cases eq : s.toList with
    | nil => exact absurd (String.toList_eq_nil_iff.mp eq) filled
    | cons c cs =>
      have first : Skeleton.isWord c = true := word.isWord c (by simp [eq])
      have : c ≠ ' ' := by rintro rfl; contradiction
      simpa using this
  unbroken := fun mem => absurd (word.isWord '\n' mem) (by decide)

theorem solid_label (r : Role) : Solid r.label.toList :=
  solid_of_word (word_label r) (by cases r <;> decide)

theorem solid_quoted (s : String) : Solid (Text.quoted s).toList where
  visible := by simp [Text.quoted]
  unbroken := by
    simp [Text.quoted, Text.lineFeed_not_mem_escape]

theorem lineFeed_not_mem_describe (k : Kind) : '\n' ∉ k.describe.toList := by
  cases k <;> decide

theorem solid_dumpName (t : Tree) : Solid t.dumpName.toList := by
  cases t with
  | token r t =>
    rw [dumpName]
    cases named : t.kind.leafName? with
    | none => exact solid_quoted t.text
    | some name =>
      obtain ⟨word, _⟩ := word_kindLeafName? t.kind name named
      refine solid_of_word word ?_
      rintro rfl
      revert named
      cases t.kind <;> decide
  | missing r k p =>
    rw [dumpName, String.toList_append]
    exact Solid.append (by constructor <;> decide) (lineFeed_not_mem_describe k)
  | node r k s cs =>
    have filled : k.name ≠ "" := by cases k <;> decide
    exact solid_of_word (word_name k).1 filled

theorem lineFeed_not_mem_onOneLine (s : String) : '\n' ∉ (onOneLine s).toList := by
  rw [onOneLine, String.toList_ofList, List.mem_flatMap]
  rintro ⟨c, _, mem⟩
  split at mem
  · revert mem
    decide
  next other => exact other (List.mem_singleton.mp mem).symm

theorem lineFeed_not_mem_toString (n : Nat) : '\n' ∉ (toString n).toList := by
  rw [Nat.toString_eq_ofList_toDigits, String.toList_ofList]
  intro mem
  have digit : ('\n' : Char).isDigit = true :=
    Nat.isDigit_of_mem_toDigits (by decide) (by decide) mem
  exact absurd digit (by decide)

/-! ## Lines -/

/-- What a line shows behind its blanks. -/
def lineContent (source : String) (t : Tree) : List Char :=
  let label := match t.role with
    | some r => r.label.toList ++ [':', ' ']
    | none => []
  label ++ (t.dumpName.toList ++ (" (line ".toList ++ ((toString (t.span.start.line + 1)).toList
    ++ (", column ".toList ++ ((toString (t.span.start.column + 1)).toList
    ++ ("): ".toList ++ (onOneLine (t.text source)).toList))))))

/-- What a line of a dump shows, and the blanks before it. -/
def lineText (source : String) (depth : Nat) (t : Tree) : List Char :=
  List.replicate (2 * depth) ' ' ++ lineContent source t

theorem toList_dumpLine (source : String) (depth : Nat) (t : Tree) :
    (dumpLine source depth t).toList = lineText source depth t ++ ['\n'] := by
  have shown (s : String) : toString s = s := rfl
  have feed : "\n".toList = ['\n'] := rfl
  unfold dumpLine lineText lineContent
  cases t.role with
  | none =>
    simp only [shown, String.toList_append, String.toList_ofList, List.append_assoc, feed,
      String.append_empty, List.nil_append]
  | some r =>
    have colon : ": ".toList = [':', ' '] := rfl
    simp only [shown, String.toList_append, String.toList_ofList, List.append_assoc, feed, colon]

theorem solid_lineContent (source : String) (t : Tree) : Solid (lineContent source t) := by
  have place : '\n' ∉ " (line ".toList ++ ((toString (t.span.start.line + 1)).toList
      ++ (", column ".toList ++ ((toString (t.span.start.column + 1)).toList
      ++ ("): ".toList ++ (onOneLine (t.text source)).toList)))) := by
    have line := lineFeed_not_mem_toString (t.span.start.line + 1)
    have column := lineFeed_not_mem_toString (t.span.start.column + 1)
    have text := lineFeed_not_mem_onOneLine (t.text source)
    have first : '\n' ∉ " (line ".toList := by decide
    have second : '\n' ∉ ", column ".toList := by decide
    have third : '\n' ∉ "): ".toList := by decide
    simp only [List.mem_append, not_or]
    exact ⟨first, line, second, column, third, text⟩
  have named := (solid_dumpName t).append place
  unfold lineContent
  cases t.role with
  | none => exact named
  | some r =>
    have colon : '\n' ∉ [':', ' '] := by decide
    exact ((solid_label r).append colon).append named.unbroken

/-- The line of an element at a depth, without the line feed at its end: twice as many blanks, and
then something to see. -/
structure LineOf (source : String) (depth : Nat) (t : Tree) (line : List Char) : Prop where
  text : (dumpLine source depth t).toList = line ++ ['\n']
  indented : ∃ c rest, line = List.replicate (2 * depth) ' ' ++ c :: rest ∧ c ≠ ' '

/-- Lines that hold no line feed are what their text is cut into. -/
theorem splitOn_flatMap_lines (lines : List (List Char)) (unbroken : ∀ line ∈ lines, '\n' ∉ line) :
    (lines.flatMap (· ++ ['\n'])).splitOn '\n' = lines ++ [[]] := by
  induction lines with
  | nil => rfl
  | cons line lines ih =>
    rw [List.flatMap_cons, List.append_assoc, List.singleton_append,
      List.splitOn_append_cons_self_of_not_mem (unbroken line List.mem_cons_self),
      ih fun l hl => unbroken l (List.mem_cons_of_mem line hl), List.cons_append]

theorem lineFeed_not_mem_lineText (source : String) (depth : Nat) (t : Tree) :
    '\n' ∉ lineText source depth t := by
  simp [lineText, (solid_lineContent source t).unbroken, List.mem_replicate]

theorem lineOf_lineText (source : String) (depth : Nat) (t : Tree) :
    LineOf source depth t (lineText source depth t) where
  text := toList_dumpLine source depth t
  indented := by
    have visible := (solid_lineContent source t).visible
    unfold lineText
    cases eq : lineContent source t with
    | nil => simp [eq] at visible
    | cons c rest => exact ⟨c, rest, rfl, by simpa [eq] using visible⟩

theorem toList_dump (t : Tree) (source : String) :
    (t.dump source).toList = ((leveled 0 (t.withRole none)).map fun entry =>
      lineText source entry.1 entry.2).flatMap (· ++ ['\n']) := by
  rw [dump, String.toList_join, List.flatMap_map, List.flatMap_map]
  simp only [toList_dumpLine]

/-- A dump is cut at its line feeds into one line for each place of the tree. -/
theorem dump_lines (t : Tree) (source : String) :
    ∃ lines, (t.dump source).toList.splitOn '\n' = lines ++ [[]] ∧
      List.Forall₂ (fun place line => ∃ way e, (t.withRole none).follow place = some (way, e) ∧
        LineOf source place.length e line) (t.withRole none).places lines := by
  let lines := (leveled 0 (t.withRole none)).map fun entry => lineText source entry.1 entry.2
  have unbroken : ∀ line ∈ lines, '\n' ∉ line := by
    intro line mem
    obtain ⟨entry, _, rfl⟩ := List.mem_map.mp mem
    exact lineFeed_not_mem_lineText source entry.1 entry.2
  refine ⟨lines, ?_, List.forall₂_map_right_iff.mpr ?_⟩
  · rw [toList_dump, splitOn_flatMap_lines lines unbroken]
  · refine (listedAt_leveled 0 (t.withRole none)).imp ?_
    rintro place ⟨depth, e⟩ ⟨deep, way, found⟩
    have deep : depth = place.length := deep.trans (Nat.zero_add _)
    exact ⟨way, e, found, deep ▸ lineOf_lineText source depth e⟩

end Tree

/-- **Dumps have a line for every element.** Whatever the text, the dump of its tree cuts nothing
out of the text that is not there, and is cut at its line feeds into the lines of the elements in
document order, each with its element's depth. -/
theorem parse_dump_lines (source : String) :
    (parse source).tree.dumpM (Span.slice? source) = some ((parse source).tree.dump source) ∧
    ∃ places lines, (parse source).tree.InDocumentOrder places ∧
      ((parse source).tree.dump source).toList.splitOn '\n' = lines ++ [[]] ∧
      List.Forall₂ (fun place line => ∃ way e, (parse source).tree.follow place = some (way, e) ∧
        Tree.LineOf source place.length e line) places lines := by
  obtain ⟨lines, cut, each⟩ := Tree.dump_lines (parse source).tree source
  exact ⟨(parse_spanned source).dump _ (Tree.self_mem_elements _), _, lines,
    Tree.inDocumentOrder_places _, cut, each⟩

end JassSyntax
