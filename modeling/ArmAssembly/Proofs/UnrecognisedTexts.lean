import ArmAssembly.Proofs.Accounts
import ArmAssembly.Proofs.LineFailures
import ArmAssembly.Proofs.Rendering
import Mathlib.Data.List.Forall2

/-!
Texts that were not recognised. No spelling of an instruction holds one, so a line that does
fails, and the hint of its diagnostic quotes all of them. Splitting into lines loses none
either: what was not recognised in a text is what its diagnostics quote, in order.
-/

namespace ArmAssembly

open Diagnostic (unknownTexts)

theorem unknownTexts_append (u v : List Token) :
    unknownTexts (u ++ v) = unknownTexts u ++ unknownTexts v :=
  List.filterMap_append

section Spelling

variable {ts : List Token}

theorem unknownTexts_registerThen {r : Register} {Rest : List Token → Prop}
    (rest : ∀ us, Rest us → unknownTexts us = []) (ts : List Token)
    (word : Spelling.RegisterThen r Rest ts) : unknownTexts ts = [] := by
  obtain ⟨separator, us, rfl | rfl, behind, rfl⟩ := word
  · exact rest us behind
  · exact rest us behind

theorem unknownTexts_amount (a : Amount) : unknownTexts (Spelling.amount a) = [] := by
  cases a <;> rfl

theorem unknownTexts_shift (s : Shift) : unknownTexts (Spelling.shift s) = [] := by
  cases s with
  | «by» code a => exact unknownTexts_amount a
  | extend => rfl

theorem unknownTexts_operand2 {o : Operand2} (word : Spelling.IsOperand2 o ts) :
    unknownTexts ts = [] := by
  cases o with
  | literal n => exact (show ts = [.literal n] from word) ▸ rfl
  | register r s =>
    cases s with
    | none => exact (show ts = [.register r] from word) ▸ rfl
    | some s =>
      refine unknownTexts_registerThen ?_ ts word
      rintro _ rfl
      exact unknownTexts_shift s

theorem unknownTexts_registers {rs : List Register} (word : Spelling.IsRegisters rs ts) :
    unknownTexts ts = [] := by
  induction rs generalizing ts with
  | nil => exact word.elim
  | cons r rs ih =>
    cases rs with
    | nil => exact (show ts = [.register r] from word) ▸ rfl
    | cons s rs => exact unknownTexts_registerThen (fun us => ih) ts word

theorem unknownTexts_condition {condition : Option Condition}
    (word : Spelling.IsCondition condition ts) : unknownTexts ts = [] := by
  cases condition with
  | none => exact (show ts = [] from word) ▸ rfl
  | some c =>
    obtain ⟨named, _, rfl⟩ := Spelling.isCondition_some_iff.1 word
    rfl

theorem unknownTexts_flags (sets : Bool) : unknownTexts (Spelling.flags sets) = [] := by
  cases sets <;> rfl

theorem unknownTexts_statement {op : Opcode} {suffix : List Token} {condition : Option Condition}
    {Operands : List Token → Prop} (flags : unknownTexts suffix = [])
    (known : ∀ us, Operands us → unknownTexts us = [])
    (word : Spelling.Statement op suffix condition Operands ts) : unknownTexts ts = [] := by
  obtain ⟨named, operands, written, last, rfl⟩ := word
  calc
    unknownTexts (.opcode op :: (suffix ++ (named ++ operands)))
    _ = unknownTexts (suffix ++ (named ++ operands)) := rfl
    _ = [] := by
      rw [unknownTexts_append, unknownTexts_append, flags, unknownTexts_condition written,
        known operands last]
      rfl

theorem unknownTexts_spelling {i : Instruction} (spelled : Spelling i ts) :
    unknownTexts ts = [] := by
  have one {t : Token} (known : t.unknown? = none) (us : List Token) (same : us = [t]) :
      unknownTexts us = [] := by
    simp [same, unknownTexts, known]
  cases i with
  | move | rotateExtend =>
    exact unknownTexts_statement (unknownTexts_flags _) (unknownTexts_registerThen (one rfl))
      spelled
  | address => exact unknownTexts_statement rfl (unknownTexts_registerThen (one rfl)) spelled
  | arithmetic =>
    exact unknownTexts_statement (unknownTexts_flags _)
      (unknownTexts_registerThen (unknownTexts_registerThen fun us => unknownTexts_operand2))
      spelled
  | shift code sets condition rd rm a =>
    refine unknownTexts_statement (unknownTexts_flags _)
      (unknownTexts_registerThen (unknownTexts_registerThen ?_)) spelled
    rintro _ rfl
    exact unknownTexts_amount a
  | comparison =>
    exact unknownTexts_statement rfl
      (unknownTexts_registerThen fun us => unknownTexts_operand2) spelled
  | transfer code condition rd rn offset =>
    cases offset with
    | none => exact unknownTexts_statement rfl (unknownTexts_registerThen (one rfl)) spelled
    | some n =>
      exact unknownTexts_statement rfl
        (unknownTexts_registerThen (unknownTexts_registerThen (one rfl))) spelled
  | blockTransfer =>
    exact unknownTexts_statement rfl
      (unknownTexts_registerThen fun us => unknownTexts_registers) spelled
  | branchLink => exact unknownTexts_statement rfl (one rfl) spelled

end Spelling

namespace Line

theorem unknownTexts_join (lines : List Line) :
    unknownTexts (join lines) = lines.flatMap unknownTexts := by
  induction lines with
  | nil => rfl
  | cons row lines ih =>
    have first : join (row :: lines) = row ++ ([.lineBreak] ++ join lines) := by simp [join]
    rw [first, unknownTexts_append, unknownTexts_append, ih]
    rfl

theorem unknownTexts_ended (ts : List Token) : unknownTexts (ended ts) = unknownTexts ts := by
  unfold ended
  split
  · rfl
  · rw [unknownTexts_append]
    exact List.append_nil _

theorem unknownTexts_withoutEnd (ts : List Token) :
    unknownTexts (withoutEnd ts) = unknownTexts ts := by
  unfold withoutEnd
  split
  next last =>
    obtain ⟨front, rfl⟩ := List.getLast?_eq_some_iff.1 last
    rw [List.dropLast_concat, unknownTexts_append]
    exact (List.append_nil _).symm
  next => rfl

theorem flatMap_unknownTexts_split (ts : List Token) :
    (split ts).flatMap unknownTexts = unknownTexts ts := by
  rw [← unknownTexts_join, split, join_ofTerminated, unknownTexts_ended, unknownTexts_withoutEnd]

end Line

namespace Diagnostic

/-- A rule, and behind it texts that were not recognised, if there are any. -/
def hintWith (rule : String) (texts : List String) : String :=
  if texts = [] then rule
  else rule ++ "; lexema no reconocido: " ++ ", ".intercalate (texts.map Text.quoted)

theorem hintOf_eq (label : String) (line : Line) :
    hintOf label line = hintWith label (unknownTexts line) := by
  unfold hintOf hintWith
  cases unknownTexts line with
  | nil => rfl
  | cons text texts => rfl

def marker : List Char := "; lexema no reconocido: ".toList

def quotedBehind : List String → List Char
  | [] => []
  | text :: texts =>
    marker ++ Text.quotedChars text.toList ++
      texts.flatMap fun text => ',' :: ' ' :: Text.quotedChars text.toList

theorem marker_eq : marker = ';' :: " lexema no reconocido: ".toList := by decide +kernel

theorem quotedBehind_cons_ne_nil (text : String) (texts : List String) :
    quotedBehind (text :: texts) ≠ [] := by
  simp [quotedBehind, marker_eq]

theorem toList_hintWith (rule : String) (texts : List String) :
    (hintWith rule texts).toList = rule.toList ++ quotedBehind texts := by
  cases texts with
  | nil => simp [hintWith, quotedBehind]
  | cons text texts =>
    rw [hintWith, if_neg (List.cons_ne_nil _ _), String.toList_append, String.toList_append,
      String.toList_intercalate, List.map_cons, List.map_cons, Text.intercalate_cons,
      List.map_map, List.flatMap_map, quotedBehind, List.append_assoc, List.append_assoc]
    simp only [Text.quoted, Function.comp_apply, String.toList_ofList]
    rfl

theorem quoted_flatMap_injective :
    Function.Injective fun texts : List String =>
      texts.flatMap fun text => ',' :: ' ' :: Text.quotedChars text.toList := by
  intro ss ts same
  induction ss generalizing ts with
  | nil =>
    cases ts with
    | nil => rfl
    | cons t ts => simp at same
  | cons s ss ih =>
    cases ts with
    | nil => simp at same
    | cons t ts =>
      simp only [List.flatMap_cons, List.cons_append, List.cons.injEq, true_and] at same
      obtain ⟨texts, behind⟩ := Text.quotedChars_append_inj same
      rw [String.toList_inj.1 texts, ih behind]

theorem quotedBehind_injective : Function.Injective quotedBehind := by
  intro ss ts same
  cases ss with
  | nil =>
    cases ts with
    | nil => rfl
    | cons t ts => exact absurd same.symm (quotedBehind_cons_ne_nil t ts)
  | cons s ss =>
    cases ts with
    | nil => exact absurd same (quotedBehind_cons_ne_nil s ss)
    | cons t ts =>
      simp only [quotedBehind, List.append_assoc] at same
      obtain ⟨texts, behind⟩ :=
        Text.quotedChars_append_inj (List.append_cancel_left same)
      rw [String.toList_inj.1 texts, quoted_flatMap_injective behind]

theorem semicolon_notMem_rule {rule : String} (isRule : Shape.IsRule rule) :
    ';' ∉ rule.toList := by
  rcases isRule with rfl | ⟨c, rfl⟩
  · decide +kernel
  · cases c <;> decide +kernel

theorem dropWhile_hintWith {rule : String} (isRule : Shape.IsRule rule) (texts : List String) :
    (hintWith rule texts).toList.dropWhile (· ≠ ';') = quotedBehind texts := by
  have inside : ∀ c ∈ rule.toList, decide (c ≠ ';') = true := fun c member =>
    decide_eq_true (ne_of_mem_of_not_mem member (semicolon_notMem_rule isRule))
  rw [toList_hintWith, List.dropWhile_append_of_pos inside]
  cases texts with
  | nil => rfl
  | cons text texts => simp [quotedBehind, marker_eq]

def Reports (d : Diagnostic) (texts : List String) : Prop :=
  ∃ rule, Shape.IsRule rule ∧ d.hint = some (hintWith rule texts)

/-- What a diagnostic reports can be read off its hint. -/
theorem reports_rightUnique : Relator.RightUnique Reports := by
  intro d ss ts first second
  obtain ⟨rule, isRule, hint⟩ := first
  obtain ⟨other, isRule', hint'⟩ := second
  have same := Option.some.inj (hint.symm.trans hint')
  apply quotedBehind_injective
  rw [← dropWhile_hintWith isRule, ← dropWhile_hintWith isRule', same]

end Diagnostic

theorem unknownTexts_of_readLine {lines : List Line} {n : Nat} {row : Line} {i : Instruction}
    {rest : Cursor} (here : lines[n]? = some row) (unbroken : .lineBreak ∉ row)
    (taken : readLine lines n = .success i rest) : unknownTexts row = [] := by
  rw [readLine_eq here, Line.beforeBreak_of_unbroken unbroken] at taken
  split at taken
  next j took =>
    obtain ⟨u, whole, spelled⟩ := Shape.reads_instruction.sound took
    rw [List.append_nil] at whole
    exact whole ▸ unknownTexts_spelling spelled
  next => cases taken
  next => cases taken

namespace Listing

/-- What the lines from the one with index `n` on come to, with all that was not recognised in
    them. An instruction stands for a line in which everything was recognised. A diagnostic
    stands for any other line that fails; its hint is the rule that failed, and behind it the
    texts of that line that were not recognised, wherever in the line they stand. -/
inductive Discloses (file : Option String) (text : List Line) :
    Nat → List Line → List Instruction → List Diagnostic → Prop where
  | done (n : Nat) : Discloses file text n [] [] []
  | blank {n : Nat} {below : List Line} {is : List Instruction} {ds : List Diagnostic}
      (rest : Discloses file text (n + 1) below is ds) : Discloses file text n ([] :: below) is ds
  | instruction {n : Nat} {row : Line} {below : List Line} {i : Instruction} {after : Cursor}
      {is : List Instruction} {ds : List Diagnostic} (written : row ≠ [])
      (taken : readLine text n = .success i after)
      (known : ∀ s, Token.unknown s ∉ row) (rest : Discloses file text (n + 1) below is ds) :
      Discloses file text n (row :: below) (i :: is) ds
  | diagnostic {n : Nat} {row : Line} {below : List Line} {f : Failure}
      {is : List Instruction} {ds : List Diagnostic} (written : row ≠ [])
      (refused : readLine text n = .failure f)
      (rule : Shape.IsRule f.label)
      (hint : (Diagnostic.ofFailure file f).hint =
        some (Diagnostic.hintWith f.label (row.filterMap Token.unknown?)))
      (rest : Discloses file text (n + 1) below is ds) :
      Discloses file text n (row :: below) is (Diagnostic.ofFailure file f :: ds)

variable {file : Option String} {text below : List Line} {n : Nat} {is : List Instruction}
  {ds : List Diagnostic}

theorem Accounts.discloses (accounts : Accounts file text n below is ds)
    (remaining : text.drop n = below) (unbroken : ∀ row ∈ text, .lineBreak ∉ row) :
    Discloses file text n below is ds := by
  have next {n : Nat} {row : Line} {below : List Line} (remaining : text.drop n = row :: below) :
      text[n]? = some row ∧ text.drop (n + 1) = below := by
    constructor
    · rw [← List.head?_drop, remaining, List.head?_cons]
    · rw [← List.tail_drop, remaining, List.tail_cons]
  induction accounts with
  | done n => exact .done n
  | blank rest ih => exact .blank (ih (next remaining).2)
  | instruction written taken rest ih =>
    obtain ⟨here, further⟩ := next remaining
    have known := unknownTexts_of_readLine here (unbroken _ (List.mem_of_getElem? here)) taken
    refine .instruction written taken (fun s member => ?_) (ih further)
    exact absurd (List.filterMap_eq_nil_iff.1 known _ member) (by simp [Token.unknown?])
  | diagnostic written refused told rest ih =>
    obtain ⟨here, further⟩ := next remaining
    obtain ⟨label, k, rule, rfl⟩ := readLine_failure_cases here refused
    exact .diagnostic written refused rule (congrArg some (Diagnostic.hintOf_eq label _))
      (ih further)

theorem Discloses.reports (discloses : Discloses file text n below is ds) :
    ∃ told, List.Forall₂ Diagnostic.Reports ds told ∧
      told.flatten = below.flatMap unknownTexts := by
  induction discloses with
  | done n => exact ⟨[], .nil, rfl⟩
  | blank rest ih => exact ih
  | @instruction n row below i after is ds written taken known rest ih =>
    obtain ⟨told, reported, all⟩ := ih
    have recognised : ∀ t ∈ row, t.unknown? = none := by
      intro t member
      cases unknown : t.unknown? with
      | none => rfl
      | some s => exact absurd member (Token.unknown?_eq_some_iff.1 unknown ▸ known s)
    refine ⟨told, reported, ?_⟩
    rw [List.flatMap_cons, all, unknownTexts, List.filterMap_eq_nil_iff.2 recognised,
      List.nil_append]
  | @diagnostic n row below f is ds written refused rule hint rest ih =>
    obtain ⟨told, reported, all⟩ := ih
    refine ⟨unknownTexts row :: told, .cons ⟨f.label, rule, hint⟩ reported, ?_⟩
    rw [List.flatten_cons, List.flatMap_cons, all]

/-- No text that was not recognised is lost. A line that holds one has a diagnostic and no
    instruction, its hint quotes all of them, and from the hints of a listing all that was not
    recognised in the tokens can be read off, in order and in one way only. -/
theorem ofTokens_discloses (file : Option String) (tokens : List Token) :
    Discloses file (Line.split tokens) 0 (Line.split tokens) (ofTokens file tokens).instructions
        (ofTokens file tokens).diagnostics ∧
      ∃ told, List.Forall₂ Diagnostic.Reports (ofTokens file tokens).diagnostics told ∧
        told.flatten = tokens.filterMap Token.unknown? ∧
        ∀ other, List.Forall₂ Diagnostic.Reports (ofTokens file tokens).diagnostics other →
          other = told := by
  have accounts : Accounts file (Line.split tokens) 0 (Line.split tokens)
      (ofTokens file tokens).instructions (ofTokens file tokens).diagnostics :=
    accounts_ofOutcomes file Line.not_break_of_mem_split 0 _ rfl
  have discloses := accounts.discloses rfl Line.not_break_of_mem_split
  obtain ⟨told, reported, all⟩ := discloses.reports
  refine ⟨discloses, told, reported, all.trans (Line.flatMap_unknownTexts_split tokens), ?_⟩
  intro other reported'
  exact List.right_unique_forall₂' Diagnostic.reports_rightUnique reported' reported

theorem ofTokens_discloses_behind :
    List.Forall₂ Diagnostic.Reports
        (ofTokens none [.opcode .bl, .literal 1, .lineBreak, .opcode .bl, .unknown "?", .comma,
          .unknown "x'", .lineBreak, .comma]).diagnostics [["?", "x'"], []] ∧
      [["?", "x'"], []].flatten = [Token.opcode .bl, .literal 1, .lineBreak, .opcode .bl,
        .unknown "?", .comma, .unknown "x'", .lineBreak, .comma].filterMap Token.unknown? := by
  have reported : List.Forall₂ Diagnostic.Reports
      (ofTokens none [.opcode .bl, .literal 1, .lineBreak, .opcode .bl, .unknown "?", .comma,
        .unknown "x'", .lineBreak, .comma]).diagnostics [["?", "x'"], []] :=
    .cons ⟨_, .inr ⟨.branchLink, rfl⟩, rfl⟩ (.cons ⟨_, .inr ⟨.branchLink, rfl⟩, rfl⟩ .nil)
  obtain ⟨_, told, _, all, only⟩ := ofTokens_discloses none [.opcode .bl, .literal 1, .lineBreak,
    .opcode .bl, .unknown "?", .comma, .unknown "x'", .lineBreak, .comma]
  exact ⟨reported, (only _ reported).symm ▸ all⟩

end Listing
end ArmAssembly
