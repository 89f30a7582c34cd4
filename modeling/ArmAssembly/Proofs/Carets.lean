import ArmAssembly.Proofs.LineFailures
import ArmAssembly.Proofs.Rendering

/-!
Reports and the caret in them. The text in front of the caret is as long as the tokens it
stands behind, because no token is shown by nothing; so below the rendered line the caret
stands under the failing token. A report has three lines, because all that is shown of a line
is printable, and none of the characters that end a line of text is.
-/

namespace ArmAssembly

theorem renderBehind_append (u v : List Token) :
    renderBehind (u ++ v) = renderBehind u ++ renderBehind v :=
  List.flatMap_append

theorem renderBehind_of_ne_nil {line : List Token} (more : line ≠ []) :
    renderBehind line = ' ' :: renderChars line := by
  obtain ⟨t, line, rfl⟩ := List.exists_cons_of_ne_nil more
  rw [renderChars_cons]
  rfl

namespace Failure

/-- The caret stands in this column of its own line, counted from zero, below the rendered
    line: under the first character of the failing token, or where the next token would have
    begun. -/
structure CaretAt (f : Failure) (column : Nat) : Prop where
  report : f.report =
    "Line:" ++ toString f.pos.line ++ " - TokenNo:" ++ toString f.pos.token ++
      " Error parsing '" ++ f.label ++ "'\n" ++ render f.line ++ "\n" ++
      String.ofList (List.replicate column ' ') ++ "^" ++ f.reason.message
  on_token : f.pos.token < f.line.length →
    (render f.line).toList.drop column = (render (f.line.drop f.pos.token)).toList
  on_first : ∀ t, f.line[f.pos.token]? = some t →
    t.text.toList <+: (render f.line).toList.drop column
  behind : f.pos.token = f.line.length →
    column = if f.line = [] then 0 else (render f.line).length + 1

theorem caretColumn_eq (f : Failure) :
    f.caretColumn =
      if f.line.take f.pos.token = [] then 0
      else (renderChars (f.line.take f.pos.token)).length + 1 := by
  unfold caretColumn
  split
  next nothing => rw [if_pos (renderChars_eq_nil_iff.1 nothing)]
  next something =>
    rw [if_neg fun empty => something (renderChars_eq_nil_iff.2 empty)]

theorem drop_caretColumn {f : Failure} (inside : f.pos.token < f.line.length) :
    (renderChars f.line).drop f.caretColumn = renderChars (f.line.drop f.pos.token) := by
  have more : f.line.drop f.pos.token ≠ [] := by
    rw [Ne, List.drop_eq_nil_iff]
    omega
  rw [caretColumn_eq]
  split
  next nothing =>
    have whole := List.take_append_drop f.pos.token f.line
    rw [nothing, List.nil_append] at whole
    rw [whole, List.drop_zero]
  next something =>
    obtain ⟨t, front, cut⟩ := List.exists_cons_of_ne_nil something
    have shown : renderChars f.line =
        renderChars (f.line.take f.pos.token) ++ ' ' :: renderChars (f.line.drop f.pos.token) := by
      conv_lhs => rw [← List.take_append_drop f.pos.token f.line]
      rw [cut, List.cons_append, renderChars_cons, renderChars_cons, renderBehind_append,
        renderBehind_of_ne_nil more, List.append_assoc]
    rw [shown, List.drop_length_add_append]
    rfl

theorem caretAt_caretColumn (f : Failure) : f.CaretAt f.caretColumn where
  report := rfl
  on_token := by
    intro inside
    simp only [render, String.toList_ofList]
    exact drop_caretColumn inside
  on_first := by
    intro t here
    obtain ⟨inside, found⟩ := List.getElem?_eq_some_iff.1 here
    simp only [render, Token.text, String.toList_ofList]
    rw [drop_caretColumn inside, List.drop_eq_getElem_cons inside, found, renderChars_cons]
    exact List.prefix_append _ _
  behind := by
    intro atEnd
    rw [caretColumn_eq, atEnd, List.take_length, render, String.length_ofList]

end Failure

namespace Text

def lineEnds : List Char :=
  ['\n', '\r', '\x0b', '\x0c', '\x1c', '\x1d', '\x1e', '\x85', '\u2028', '\u2029']

def endsLine (c : Char) : Bool := lineEnds.contains c

def Printable (text : String) : Prop := ∀ c ∈ text.toList, isPrintable c

/-- Three lines of text, and nothing in them that could be taken for the end of one. -/
structure ThreeLines (text : String) : Prop where
  breaks : text.toList.count '\n' = 2
  no_others : ∀ c ∈ text.toList, endsLine c → c = '\n'
  lines : ∃ first second third, text.toList.splitOnP endsLine = [first, second, third] ∧
    third ≠ []

theorem endsLine_of_isPrintable {c : Char} (printable : isPrintable c) : endsLine c = false := by
  have unprintable : lineEnds.all fun d => !isPrintable d := by decide +kernel
  rw [endsLine, ← Bool.not_eq_true, List.contains_iff_mem]
  intro member
  have shown := List.all_eq_true.1 unprintable c member
  rw [printable] at shown
  cases shown

theorem printable_of_isPlain {text : String} (plain : text.toList.all isPlain) :
    Printable text :=
  fun c member => isPrintable_of_isPlain (List.all_eq_true.1 plain c member)

theorem printable_append {s t : String} (first : Printable s) (second : Printable t) :
    Printable (s ++ t) := by
  intro c member
  rw [String.toList_append] at member
  exact (List.mem_append.1 member).elim (first c) (second c)

theorem printable_toString (n : Nat) : Printable (toString n) := by
  intro c member
  have digit : c.isDigit :=
    Nat.isDigit_of_mem_toDigits (by decide) (by decide) (Nat.toList_repr ▸ member)
  exact isPrintable_of_isDigit digit

theorem threeLines_of_printable {s t u : String} (first : Printable s) (second : Printable t)
    (third : Printable u) (more : u ≠ "") : ThreeLines (s ++ "\n" ++ t ++ "\n" ++ u) := by
  have shown : (s ++ "\n" ++ t ++ "\n" ++ u).toList =
      s.toList ++ '\n' :: (t.toList ++ '\n' :: u.toList) := by
    simp only [String.toList_append, List.append_assoc]
    rfl
  have unended {v : String} (printable : Printable v) : ∀ c ∈ v.toList, endsLine c = false :=
    fun c member => endsLine_of_isPrintable (printable c member)
  have absent {v : String} (printable : Printable v) : v.toList.count '\n' = 0 := by
    refine List.count_eq_zero.2 fun member => ?_
    exact absurd (unended printable _ member) (by decide)
  constructor
  · rw [shown, List.count_append, List.count_cons_self, List.count_append, List.count_cons_self,
      absent first, absent second, absent third]
  · intro c member ends
    have inside {v : String} (printable : Printable v) (among : c ∈ v.toList) : c = '\n' := by
      rw [unended printable c among] at ends
      cases ends
    rw [shown] at member
    rcases List.mem_append.1 member with among | member
    · exact inside first among
    · rcases List.mem_cons.1 member with same | member
      · exact same
      · rcases List.mem_append.1 member with among | member
        · exact inside second among
        · exact (List.mem_cons.1 member).elim id (inside third)
  · refine ⟨s.toList, t.toList, u.toList, ?_, fun empty => more (String.toList_eq_nil_iff.1 empty)⟩
    rw [shown, List.splitOnP_append_cons_of_forall_mem (unended first) _ rfl,
      List.splitOnP_append_cons_of_forall_mem (unended second) _ rfl,
      List.splitOnP_eq_singleton (unended third)]

end Text

open Text (Printable)

theorem Token.isPrintable_of_mem_chars {t : Token} {c : Char} (member : c ∈ t.chars) :
    Text.isPrintable c := by
  have words : ∀ w ∈ Token.words, w.chars.all Text.isPlain := by decide +kernel
  have error : Printable "<error " := Text.printable_of_isPlain (by decide +kernel)
  rcases t.mem_words_or with word | ⟨n, rfl⟩ | ⟨text, rfl⟩
  · exact Text.isPrintable_of_isPlain (List.all_eq_true.1 (words t word) c member)
  · rcases List.mem_cons.1 member with rfl | shown
    · exact Text.isPrintable_of_isPlain (by decide)
    · rcases isDigit_of_mem_decimal shown with rfl | digit
      · exact Text.isPrintable_of_isPlain (by decide)
      · exact Text.isPrintable_of_isDigit digit
  · rcases List.mem_append.1 member with shown | last
    · rcases List.mem_append.1 shown with front | quoted
      · exact error c front
      · exact Text.isPrintable_of_mem_quotedChars quoted
    · obtain rfl := List.mem_singleton.1 last
      exact Text.isPrintable_of_isPlain (by decide)

theorem Token.printable_text (t : Token) : Printable t.text := by
  intro c member
  rw [Token.text, String.toList_ofList] at member
  exact isPrintable_of_mem_chars member

theorem printable_render (line : List Token) : Printable (render line) := by
  intro c member
  rw [render, String.toList_ofList] at member
  cases line with
  | nil => cases member
  | cons t line =>
    rw [renderChars_cons] at member
    rcases List.mem_append.1 member with shown | further
    · exact Token.isPrintable_of_mem_chars shown
    · obtain ⟨u, _, behind⟩ := List.mem_flatMap.1 further
      rcases List.mem_cons.1 behind with rfl | shown
      · exact Text.isPrintable_of_isPlain (by decide)
      · exact Token.isPrintable_of_mem_chars shown

theorem Shape.IsRule.printable {rule : String} (isRule : Shape.IsRule rule) : Printable rule := by
  rcases isRule with rfl | ⟨c, rfl⟩
  · exact Text.printable_of_isPlain (by decide +kernel)
  · exact Text.printable_append (Text.printable_of_isPlain (by decide +kernel))
      (Text.printable_toString _)

theorem Reason.printable_ofToken (t : Token) : Printable (Reason.ofToken t).message := by
  by_cases ends : t = .lineBreak
  · subst ends
    exact Text.printable_of_isPlain (by decide +kernel)
  · have message : (Reason.ofToken t).message = "Unexpected '" ++ t.text ++ "'" := by
      cases t <;> first | rfl | exact absurd rfl ends
    rw [message]
    exact Text.printable_append
      (Text.printable_append (Text.printable_of_isPlain (by decide +kernel)) t.printable_text)
      (Text.printable_of_isPlain (by decide +kernel))

theorem Line.threeLines_report (row : Line) (n : Nat) {rule : String} (isRule : Shape.IsRule rule)
    (k : Nat) : Text.ThreeLines (row.failureAt n rule k).report := by
  have fixed : Printable "Line:" ∧ Printable " - TokenNo:" ∧ Printable " Error parsing '" ∧
      Printable "'" ∧ Printable "^" := by
    refine ⟨?_, ?_, ?_, ?_, ?_⟩ <;> exact Text.printable_of_isPlain (by decide +kernel)
  obtain ⟨line, token, parsing, quote, caret⟩ := fixed
  have place := Text.printable_append (Text.printable_append (Text.printable_append line
    (Text.printable_toString n)) token) (Text.printable_toString k)
  have first := Text.printable_append (Text.printable_append (Text.printable_append place parsing)
    isRule.printable) quote
  have spaces (k : Nat) : Printable (String.ofList (List.replicate k ' ')) := by
    intro c member
    rw [String.toList_ofList] at member
    obtain rfl := List.eq_of_mem_replicate member
    exact Text.isPrintable_of_isPlain (by decide)
  have message : Printable (row.failureAt n rule k).reason.message := by
    simp only [failureAt]
    cases row[k]? with
    | none => exact Text.printable_of_isPlain (by decide +kernel)
    | some t => exact Reason.printable_ofToken t
  have third := Text.printable_append (Text.printable_append
    (spaces (row.failureAt n rule k).caretColumn) caret) message
  have whole := Text.threeLines_of_printable first (printable_render row) third (by simp)
  have cut : "'\n" = "'" ++ "\n" := rfl
  rw [(row.failureAt n rule k).caretAt_caretColumn.report, cut]
  simpa only [failureAt, String.append_assoc] using whole

/-- The caret of a report stands under the token that failed, and the detail of a diagnostic is
    such a report on three lines, whatever the texts that were not recognised hold. -/
theorem caret_under_token :
    (∀ f : Failure, f.CaretAt f.caretColumn) ∧
      ∀ (file : Option String) (tokens : List Token),
        ∀ d ∈ (Listing.ofTokens file tokens).diagnostics,
          ∃ detail, d.detail = some detail ∧ Text.ThreeLines detail := by
  refine ⟨Failure.caretAt_caretColumn, ?_⟩
  intro file tokens d member
  obtain ⟨n, row, f, here, fails, rfl⟩ := Listing.mem_diagnostics member
  obtain ⟨rule, k, isRule, rfl⟩ := readLine_failure_cases here fails
  exact ⟨_, rfl, row.threeLines_report n isRule k⟩

theorem caret_under_token_unknown :
    Diagnostic.ofFailure none (Line.failureAt [.opcode .bl, .unknown "a\n\u2028b"] 0
        "Instruction Type 9" 1) ∈
      (Listing.ofTokens none [.opcode .bl, .unknown "a\n\u2028b"]).diagnostics ∧
    (render [.opcode .bl, .unknown "a\n\u2028b"]).toList.drop 3 =
      (render [.unknown "a\n\u2028b"]).toList ∧
    ∃ detail, (Diagnostic.ofFailure none (Line.failureAt [.opcode .bl, .unknown "a\n\u2028b"] 0
      "Instruction Type 9" 1)).detail = some detail ∧ Text.ThreeLines detail := by
  obtain ⟨carets, details⟩ := caret_under_token
  have told : Diagnostic.ofFailure none (Line.failureAt [.opcode .bl, .unknown "a\n\u2028b"] 0
        "Instruction Type 9" 1) ∈
      (Listing.ofTokens none [.opcode .bl, .unknown "a\n\u2028b"]).diagnostics :=
    List.mem_singleton.2 rfl
  have column : (Line.failureAt [.opcode .bl, .unknown "a\n\u2028b"] 0 "Instruction Type 9"
      1).caretColumn = 3 := by decide +kernel
  have shown := (carets (Line.failureAt [.opcode .bl, .unknown "a\n\u2028b"] 0
    "Instruction Type 9" 1)).on_token (by decide)
  rw [column] at shown
  exact ⟨told, shown, details _ _ _ told⟩

end ArmAssembly
