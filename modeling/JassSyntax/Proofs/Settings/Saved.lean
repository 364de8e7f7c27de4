import JassSyntax.Proofs.Json.Printed
import JassSyntax.Settings.File

/-!
# Saved settings are read back

The text that is saved for settings names each of them once, in the order of the fields. The reader
takes members in any order and keeps what it has read so far, so that the walk through the text is
four times the same step: a key that no member had before, the colon, and a value that is read as
what it was printed from.
-/

namespace JassSyntax.Settings.File

open Json (Reader newLine quote)
open Json.Reader (peek peek_cons bind_ok pure_apply get_apply skip_cons)

/-! ## Values -/

/-- The text of a value is read back as the value behind the blank after a colon, unless the text
goes on as a number would. -/
def ReadsBack {α : Type} (read : Reader α) (value : Json) (a : α) : Prop :=
  ∀ rest, Json.NumberEnds rest →
    read (' ' :: ((value.prettyAt 1).toList ++ rest)) = .ok (a, rest)

/-- A look at the first character of a value. -/
theorem peek_blank_cons {c : Char} (solid : Json.Reader.isBlank c = false) (rest : List Char) :
    peek (' ' :: c :: rest) = .ok (some c, c :: rest) := by
  have blank : ∀ b ∈ [' '], Json.Reader.isBlank b = true := by simp [Json.Reader.isBlank]
  exact (Json.Reader.peek_blanks blank (c :: rest)).trans (peek_cons solid rest)

theorem readsBack_format (f : OutputFormat) : ReadsBack format (.string f.name) f := by
  intro rest _
  have text := Json.string_quote f.name rest
  have named : formatOf f.name rest = .ok (f, rest) := by
    rw [formatOf, OutputFormat.ofName?_name]
    rfl
  rw [Json.prettyAt]
  rw [Json.toList_quote, List.cons_append] at text ⊢
  rw [format, bind_ok (peek_blank_cons (by decide) _)]
  exact (bind_ok text formatOf).trans named

theorem readsBack_flag (b : Bool) : ReadsBack flag (.bool b) b := by
  intro rest _
  cases b <;> rfl

/-- **Every number of problems is read back**, up to the largest. -/
theorem readsBack_errorCount (count : Option UInt64) :
    ReadsBack errorCount ((count.map fun n => Json.number n.toNat).getD .null) count := by
  intro rest ends
  cases count with
  | none => rfl
  | some n =>
    have inRange : n.toNat ≤ Json.Reader.largestNatural := by
      have := n.toNat_lt
      have : Json.Reader.largestNatural = 2 ^ 64 - 1 := by decide
      omega
    have text := Json.number_toString inRange ends
    obtain ⟨d, ds, eq, digit⟩ := Json.exists_toString_eq_cons n.toNat
    change errorCount (' ' :: ((toString n.toNat).toList ++ rest)) = _
    rw [eq, List.cons_append] at text ⊢
    have noNull : d ≠ 'n' := by rintro rfl; contradiction
    have noSign : d ≠ '-' := by rintro rfl; contradiction
    have first := peek_blank_cons (Json.Reader.isBlank_of_isDigit digit) (ds ++ rest)
    simp [errorCount, bind_ok first, digit, bind_ok text, countOf, pure_apply,
      UInt64.ofNat_toNat]

/-! ## The list of extensions -/

theorem fileExtension_quote (e : String) (rest : List Char) :
    fileExtension ((quote e).toList ++ rest) = .ok (e, rest) := by
  rw [fileExtension, bind_ok (Json.peek_quote e rest)]
  exact Json.string_quote e rest

/-- One more extension is read where the list goes on with it. -/
theorem extensionsFrom_succ {fuel : Nat} {seen : List String} {cs : List Char} {e : String}
    {rest : List Char} (another : Json.Reader.anotherItem seen.isEmpty cs
      = .ok (true, (quote e).toList ++ rest)) :
    extensionsFrom (fuel + 1) seen cs = extensionsFrom fuel (seen ++ [e]) rest := by
  rw [extensionsFrom, bind_ok another]
  exact bind_ok (fileExtension_quote e rest) _

/-- The extensions after some are read up to the end of the list, with fuel to spare. -/
theorem extensionsFrom_further (rest : List Char) (es seen : List String) (fuel : Nat)
    (begun : seen ≠ []) (enough : es.length < fuel) :
    extensionsFrom fuel seen
        (Json.further 2 (es.map quote) ++ ((newLine 1).toList ++ ']' :: rest))
      = .ok (seen ++ es, ']' :: rest) := by
  induction es generalizing seen fuel with
  | nil =>
    obtain ⟨fuel, rfl⟩ := Nat.exists_eq_add_of_lt enough
    rw [List.map_nil, Json.further, List.flatMap_nil, List.nil_append, List.append_nil,
      extensionsFrom, bind_ok (Json.anotherItem_end 1 rest _)]
    rfl
  | cons e es ih =>
    obtain ⟨fuel, rfl⟩ := Nat.exists_eq_add_of_lt enough
    have notFirst : seen.isEmpty = false := by simpa using begun
    have another := Json.anotherItem_next 2
      (Json.further 2 (es.map quote) ++ ((newLine 1).toList ++ ']' :: rest)) e
    rw [← notFirst] at another
    rw [List.map_cons, Json.further_cons, List.cons_append, List.append_assoc, List.append_assoc,
      extensionsFrom_succ another, ih _ _ (by simp) (by simp; omega), List.append_assoc,
      List.singleton_append]

theorem prettyItems_string (level : Nat) (es : List String) :
    Json.prettyItems level (es.map .string) = es.map quote := by
  induction es with
  | nil => rfl
  | cons e es ih => rw [List.map_cons, Json.prettyItems, ih, Json.prettyAt, List.map_cons]

theorem length_le_length_further (level : Nat) (parts : List String) :
    parts.length ≤ (Json.further level parts).length := by
  induction parts with
  | nil => exact Nat.zero_le _
  | cons part parts ih =>
    rw [Json.further_cons]
    simp only [List.length_cons, List.length_append]
    omega

/-- **Every list of extensions is read back.** -/
theorem readsBack_extensionList (es : List String) :
    ReadsBack extensionList (.array (es.map .string)) es := by
  intro rest _
  rw [Json.prettyAt, prettyItems_string]
  cases es with
  | nil => rfl
  | cons e es =>
    let after := Json.further 2 (es.map quote) ++ ((newLine 1).toList ++ ']' :: rest)
    have text : (Json.bracketed "[" "]" 1 ((e :: es).map quote)).toList ++ rest
        = '[' :: ((newLine 2).toList ++ ((quote e).toList ++ after)) := by
      rw [List.map_cons, Json.toList_bracketed]
      simp [after]
    have enough : es.length < ((newLine 2).toList ++ ((quote e).toList ++ after)).length := by
      have := length_le_length_further 2 (es.map quote)
      simp only [after, List.length_append, List.length_cons, List.length_map] at this ⊢
      omega
    have list : extensionsFrom (((newLine 2).toList ++ ((quote e).toList ++ after)).length + 1) []
        ((newLine 2).toList ++ ((quote e).toList ++ after)) = .ok (e :: es, ']' :: rest) := by
      have first : Json.Reader.anotherItem ([] : List String).isEmpty _ = _ :=
        Json.anotherItem_first 2 after e
      rw [extensionsFrom_succ first]
      exact extensionsFrom_further rest es [e] _ (by simp) enough
    rw [text, extensionList, bind_ok (peek_blank_cons (by decide) _)]
    refine (bind_ok (skip_cons _ _) _).trans ?_
    refine (bind_ok (get_apply _) _).trans ?_
    refine (bind_ok list _).trans ?_
    exact bind_ok (Json.listEnd_cons rest) _

/-! ## Members -/

section

variable {α : Type} {read : Reader α} {value : Json} {a : α} {rest : List Char}

/-- The text behind the key of a member. -/
def valueText (value : Json) (rest : List Char) : List Char :=
  ':' :: ' ' :: ((value.prettyAt 1).toList ++ rest)

/-- The value of a key that has not been read before. -/
theorem once_readsBack (h : ReadsBack read value a) (ends : Json.NumberEnds rest) (key : String) :
    once key none read (valueText value rest) = .ok (some a, rest) := by
  refine (bind_ok (Json.colon_cons _) _).trans ?_
  exact bind_ok (h rest ends) _

end

section

variable {p : Partial} {rest : List Char} (ends : Json.NumberEnds rest)
include ends

theorem member_format (f : OutputFormat) (unread : p.format = none) :
    member p "format" (valueText (.string f.name) rest)
      = .ok ({ p with format := some f }, rest) := by
  have value := once_readsBack (readsBack_format f) ends "format"
  rw [member, unread, bind_ok value]
  rfl

theorem member_extensions (es : List String) (unread : p.extensions = none) :
    member p "extensions" (valueText (.array (es.map .string)) rest)
      = .ok ({ p with extensions := some es }, rest) := by
  have value := once_readsBack (readsBack_extensionList es) ends "extensions"
  rw [member, unread, bind_ok value]
  rfl

theorem member_maxErrors (count : Option UInt64) (unread : p.maxErrors = none) :
    member p "max_errors"
        (valueText ((count.map fun n => Json.number n.toNat).getD .null) rest)
      = .ok ({ p with maxErrors := some count }, rest) := by
  have value := once_readsBack (readsBack_errorCount count) ends "max_errors"
  rw [member, unread, bind_ok value]
  rfl

theorem member_verbose (b : Bool) (unread : p.verbose = none) :
    member p "verbose" (valueText (.bool b) rest) = .ok ({ p with verbose := some b }, rest) := by
  have value := once_readsBack (readsBack_flag b) ends "verbose"
  rw [member, unread, bind_ok value]
  rfl

end

/-- One more member is read where the object goes on with it. -/
theorem membersFrom_succ {fuel : Nat} {first : Bool} {before after : Partial} {key : String}
    {cs text rest : List Char}
    (another : Json.Reader.anotherMember first cs = .ok (true, (quote key).toList ++ text))
    (one : member before key text = .ok (after, rest)) :
    membersFrom (fuel + 1) first before cs = membersFrom fuel false after rest := by
  rw [membersFrom, bind_ok another]
  refine (bind_ok (Json.string_quote key text) _).trans ?_
  exact bind_ok one _

/-- The members of saved settings, with a line break or a comma and a line break before each. -/
def membersText (s : Settings) : List Char :=
  (newLine 1).toList ++ ((quote "format").toList ++ valueText (.string s.format.name)
    (',' :: ((newLine 1).toList ++ ((quote "extensions").toList ++ valueText
      (.array (s.extensions.map .string))
      (',' :: ((newLine 1).toList ++ ((quote "max_errors").toList ++ valueText
        ((s.maxErrors.map fun n => Json.number n.toNat).getD .null)
        (',' :: ((newLine 1).toList ++ ((quote "verbose").toList ++ valueText (.bool s.verbose)
          ((newLine 0).toList ++ ['\x7d'])))))))))))

theorem toList_pretty (s : Settings) : s.pretty.toList = '\x7b' :: membersText s := by
  rw [Settings.pretty, Settings.toJson, Json.pretty, Json.prettyAt]
  simp only [Json.prettyMembers, Json.toList_bracketed, Json.further_cons, membersText, valueText]
  simp [Json.further]

/-- The members are read one after the other into settings that lack nothing. -/
theorem membersFrom_membersText (s : Settings) (fuel : Nat) :
    membersFrom (fuel + 5) true {} (membersText s)
      = .ok (⟨some s.format, some s.extensions, some s.maxErrors, some s.verbose⟩, ['\x7d']) := by
  have comma (cs : List Char) : Json.NumberEnds (',' :: cs) :=
    .cons (by decide) (by decide) (by decide) cs
  have lineBreak : Json.NumberEnds ((newLine 0).toList ++ ['\x7d']) := by
    constructor <;> decide
  rw [membersText,
    membersFrom_succ (Json.anotherMember_first _ _ _) (member_format (comma _) _ rfl),
    membersFrom_succ (Json.anotherMember_next _ _ _) (member_extensions (comma _) _ rfl),
    membersFrom_succ (Json.anotherMember_next _ _ _) (member_maxErrors (comma _) _ rfl),
    membersFrom_succ (Json.anotherMember_next _ _ _) (member_verbose lineBreak _ rfl),
    membersFrom, bind_ok (Json.anotherMember_end 0 [])]
  rfl

theorem whole_membersText (s : Settings) : whole ('\x7b' :: membersText s) = .ok (s, []) := by
  -- the fuel is one more than the characters, of which there are at least four
  have enough : ∃ fuel, (membersText s).length + 1 = fuel + 5 := by
    refine ⟨(membersText s).length - 4, ?_⟩
    simp only [membersText, valueText, List.length_append, List.length_cons]
    omega
  obtain ⟨fuel, fuel_eq⟩ := enough
  have members := membersFrom_membersText s fuel
  rw [← fuel_eq] at members
  rw [whole, bind_ok (peek_cons (by decide) _)]
  refine (bind_ok (skip_cons _ _) _).trans ?_
  refine (bind_ok (get_apply _) _).trans ?_
  refine (bind_ok members _).trans ?_
  refine (bind_ok (Json.objectEnd_cons []) _).trans ?_
  rfl

end File

/-- **Saved settings are read back**: whatever they are, the reading of the saved text succeeds and
gives the same settings. -/
theorem ofText_pretty (s : Settings) : ofText s.pretty = .ok s := by
  rw [ofText, File.toList_pretty, StateT.run, File.whole_membersText]
  rfl

end JassSyntax.Settings
