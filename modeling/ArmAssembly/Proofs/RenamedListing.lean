import ArmAssembly.Proofs.ListingAppend
import ArmAssembly.Proofs.Renaming

/-!
Listings of renamed tokens. Where lines end, which of them hold an instruction and where the
others fail depends on the kinds of the tokens and the classes of the operations alone; the
payloads only show in the fields of the instructions and in the texts of the diagnostics. So
another name of a condition makes no difference to what is read.
-/

namespace ArmAssembly

namespace Renaming

variable (φ : Renaming)

theorem token_eq_lineBreak_iff (t : Token) : φ.token t = .lineBreak ↔ t = .lineBreak := by
  cases t <;> simp [token]

theorem token_eq_endOfInput_iff (t : Token) : φ.token t = .endOfInput ↔ t = .endOfInput := by
  cases t <;> simp [token]

end Renaming

namespace Line

variable (φ : Renaming)

theorem withoutEnd_rename (ts : List Token) :
    withoutEnd (ts.map φ.token) = (withoutEnd ts).map φ.token := by
  have last : (ts.map φ.token).getLast? = some .endOfInput ↔ ts.getLast? = some .endOfInput := by
    rw [List.getLast?_map]
    cases ts.getLast? with
    | none => simp
    | some t => simp [φ.token_eq_endOfInput_iff]
  simp only [withoutEnd, last]
  split
  · exact List.map_dropLast.symm
  · rfl

theorem ofTerminated_rename (ts : List Token) :
    ofTerminated (ts.map φ.token) = (ofTerminated ts).map (List.map φ.token) := by
  induction ts with
  | nil => rfl
  | cons t ts ih =>
    by_cases ends : t = .lineBreak
    · subst ends
      simpa [ofTerminated, Renaming.token] using ih
    · have inside : φ.token t ≠ .lineBreak := fun same => ends ((φ.token_eq_lineBreak_iff t).1 same)
      rw [List.map_cons, ofTerminated_cons_of_ne inside, ofTerminated_cons_of_ne ends, ih]
      cases ofTerminated ts <;> rfl

theorem split_rename (ts : List Token) :
    split (ts.map φ.token) = (split ts).map (List.map φ.token) := by
  rw [split, withoutEnd_rename, ofTerminated_rename, split]

theorem beforeBreak_rename (row : Line) :
    beforeBreak (row.map φ.token) = row.beforeBreak.map φ.token := by
  have same : (fun t : Token => decide (t ≠ .lineBreak)) ∘ φ.token =
      fun t => decide (t ≠ .lineBreak) := by
    funext t
    simp [φ.token_eq_lineBreak_iff]
  rw [beforeBreak, List.takeWhile_map, same, beforeBreak]

theorem instruction?_rename (row : Line) :
    instruction? (row.map φ.token) = row.instruction?.map φ.instruction := by
  rw [instruction?, instruction?, beforeBreak_rename, Shape.renames_instruction φ]
  cases Shape.instruction.parse row.beforeBreak with
  | refused label rest => rfl
  | taken i rest => cases rest <;> rfl

theorem failure?_rename (row : Line) (n : Nat) :
    (row.failure? n = none ∧ failure? (row.map φ.token) n = none) ∨
      ∃ label k, row.failure? n = some (row.failureAt n label k) ∧
        failure? (row.map φ.token) n = some (failureAt (row.map φ.token) n label k) := by
  simp only [failure?, beforeBreak_rename, Shape.renames_instruction φ row.beforeBreak]
  cases Shape.instruction.parse row.beforeBreak with
  | refused label rest => exact Or.inr ⟨label, _, rfl, by simp [Scan.rename]⟩
  | taken i rest =>
    cases rest with
    | nil => exact Or.inl ⟨rfl, rfl⟩
    | cons t rest => exact Or.inr ⟨"End of Line", _, rfl, by simp [Scan.rename]⟩

end Line

/-- The second diagnostic tells of the renamed line what the first tells of the line: the same
    place and the same rule, and either that the line ends there or that the token there,
    which is renamed, does not fit. -/
structure Diagnostic.Renamed (φ : Renaming) (d e : Diagnostic) : Prop where
  severity : e.severity = d.severity
  file : e.file = d.file
  line : e.line = d.line
  column : e.column = d.column
  told : ∃ (label : String) (row : Line) (k : Nat), d.column = some ((k : Int) + 1) ∧
    d.hint = some (hintOf label row) ∧ e.hint = some (hintOf label (row.map φ.token)) ∧
    (d.message = "No more input" ∧ e.message = "No more input" ∨
      ∃ t, row[k]? = some t ∧ d.message = "Unexpected '" ++ t.text ++ "'" ∧
        e.message = "Unexpected '" ++ (φ.token t).text ++ "'")

theorem Diagnostic.renamed_failureAt (φ : Renaming) (file : Option String) (row : Line) (n : Nat)
    (label : String) (k : Nat) :
    Renamed φ (ofFailure file (row.failureAt n label k))
      (ofFailure file (Line.failureAt (row.map φ.token) n label k)) where
  severity := rfl
  file := rfl
  line := rfl
  column := rfl
  told := by
    refine ⟨label, row, k, rfl, rfl, rfl, ?_⟩
    simp only [ofFailure, error, Line.failureAt, List.getElem?_map]
    cases row[k]? with
    | none => exact Or.inl ⟨rfl, rfl⟩
    | some t =>
      by_cases ends : t = .lineBreak
      · subst ends
        exact Or.inl ⟨rfl, rfl⟩
      · refine Or.inr ⟨t, rfl, ?_⟩
        cases t <;> first | exact ⟨rfl, rfl⟩ | exact absurd rfl ends

theorem Diagnostic.places_of_renamed {φ : Renaming} {ds es : List Diagnostic}
    (renamed : List.Forall₂ (Renamed φ) ds es) :
    (es.map fun d => (d.line, d.column)) = ds.map fun d => (d.line, d.column) := by
  induction renamed with
  | nil => rfl
  | cons first _ ih => rw [List.map_cons, List.map_cons, ih, first.line, first.column]

theorem failuresFrom_rename (φ : Renaming) (n : Nat) (lines : List Line) :
    List.Forall₂
      (fun f g => ∃ row n label k, f = Line.failureAt row n label k ∧
        g = Line.failureAt (row.map φ.token) n label k)
      (failuresFrom n lines) (failuresFrom n (lines.map (List.map φ.token))) := by
  induction lines generalizing n with
  | nil => exact .nil
  | cons row lines ih =>
    have rest := ih (n + 1)
    simp only [failuresFrom, List.map_cons, List.zipIdx_cons, List.filter_cons,
      List.isEmpty_map] at rest ⊢
    split
    · simp only [List.filterMap_cons]
      rcases row.failure?_rename φ n with ⟨one, two⟩ | ⟨label, k, one, two⟩
      · simpa only [one, two] using rest
      · simpa only [one, two] using .cons ⟨row, n, label, k, rfl, rfl⟩ rest
    · exact rest

namespace Listing

variable (φ : Renaming) (file : Option String)

theorem instructions_ofTokens (tokens : List Token) :
    (ofTokens file tokens).instructions =
      ((Line.split tokens).filter (!·.isEmpty)).filterMap Line.instruction? := by
  simp only [ofTokens, ofOutcomes, filterMap_value?_readLines]

theorem instructions_rename (tokens : List Token) :
    (ofTokens file (tokens.map φ.token)).instructions =
      (ofTokens file tokens).instructions.map φ.instruction := by
  have filled : (fun row : Line => !row.isEmpty) ∘ List.map φ.token = fun row => !row.isEmpty := by
    funext row
    simp
  have each : Line.instruction? ∘ List.map φ.token =
      fun row : Line => row.instruction?.map φ.instruction :=
    funext (Line.instruction?_rename φ)
  rw [instructions_ofTokens, instructions_ofTokens, Line.split_rename, List.filter_map, filled,
    List.filterMap_map, each, List.map_filterMap]

theorem diagnostics_rename (tokens : List Token) :
    List.Forall₂ (Diagnostic.Renamed φ) (ofTokens file tokens).diagnostics
      (ofTokens file (tokens.map φ.token)).diagnostics := by
  simp only [ofTokens, ofOutcomes, filterMap_failure?_readLines, Line.split_rename,
    List.forall₂_map_left_iff, List.forall₂_map_right_iff]
  refine (failuresFrom_rename φ 0 (Line.split tokens)).imp fun f g related => ?_
  obtain ⟨row, n, label, k, rfl, rfl⟩ := related
  exact Diagnostic.renamed_failureAt φ file row n label k

end Listing

/-- The same token, or another name of the same condition. -/
def Token.Respelled (t u : Token) : Prop :=
  t = u ∨ ∃ c d : Condition, t = .condition c ∧ u = .condition d ∧ c.canonical = d.canonical

namespace Renaming

def canonical : Renaming where
  register := id
  literal := id
  unknown := id
  opcode := id
  condition := Condition.canonical
  opClass_opcode := fun _ => rfl
  canonical_condition := fun c d same => by rw [same]

theorem token_canonical_of_respelled {t u : Token} (respelled : t.Respelled u) :
    canonical.token u = canonical.token t := by
  rcases respelled with rfl | ⟨c, d, rfl, rfl, same⟩
  · rfl
  · exact congrArg Token.condition same.symm

theorem code_canonical (c : OpClass) (x : c.Code) : canonical.code c x = x := by
  have same : canonical.code c x = ((Opcode.ofCode c x).code? c).getD x := rfl
  rw [same, Opcode.code?_ofCode, Option.getD_some]

theorem amount_canonical (a : Amount) : canonical.amount a = a := by
  cases a <;> rfl

theorem operand2_canonical (o : Operand2) : canonical.operand2 o = o := by
  have same (s : Shift) : canonical.shift s = s := by
    cases s with
    | «by» x a => simp only [shift, code_canonical, amount_canonical]
    | extend => rfl
  cases o with
  | literal n => rfl
  | register r s => cases s <;> simp only [operand2, Option.map, same] <;> rfl

theorem operands_canonical (c : OpClass) (x : c.Operands) : canonical.operands c x = x := by
  cases c with
  | move | rotateExtend | address | branchLink => rfl
  | arithmetic | comparison => exact Prod.ext rfl (operand2_canonical x.2)
  | shift => exact Prod.ext rfl (amount_canonical x.2)
  | transfer => exact Prod.ext rfl (congrFun Option.map_id x.2)
  | blockTransfer => exact Prod.ext rfl (List.map_id x.2)

theorem mnemonic_canonical {c : OpClass} {m : Mnemonic c}
    (read : ∀ a, m.condition = some a → a.canonical = a) : canonical.mnemonic m = m := by
  obtain ⟨x, sets, condition⟩ := m
  cases condition with
  | none => simp only [mnemonic, code_canonical, Option.map_none]
  | some a =>
    have same : canonical.meaning a = a := by
      change a.canonical.canonical = a
      rw [read a rfl, read a rfl]
    simp only [mnemonic, code_canonical, Option.map_some, same]

theorem instruction_canonical {i : Instruction} {w : List Token} (spelled : Spelling i w) :
    canonical.instruction i = i := by
  have read := fun a => Spelling.condition_canonical (c := a) spelled
  obtain ⟨c, m, x, rfl, _⟩ := i.exists_build
  rw [instruction_build, operands_canonical, mnemonic_canonical]
  intro a held
  exact read a (by rw [Instruction.condition_build, held])

end Renaming

namespace Listing

theorem map_canonical_instructions (file : Option String) (tokens : List Token) :
    (ofTokens file tokens).instructions.map Renaming.canonical.instruction =
      (ofTokens file tokens).instructions := by
  rw [instructions_ofTokens, List.map_filterMap]
  refine List.filterMap_congr fun row _ => ?_
  cases found : row.instruction? with
  | none => rfl
  | some i =>
    unfold Line.instruction? at found
    split at found
    next j took =>
      obtain rfl := Option.some.inj found
      obtain ⟨u, _, spelled⟩ := Shape.reads_instruction.sound took
      rw [Option.map_some, Renaming.instruction_canonical spelled]
    next => cases found

/-- The payloads of the tokens show in what is read and decide nothing: the listing of renamed
    tokens has the renamed instructions, and its diagnostics tell of the same places. So
    the names given to conditions make no difference to what is read. -/
theorem ofTokens_rename (file : Option String) (ts : List Token) :
    (∀ φ : Renaming,
        (ofTokens file (ts.map φ.token)).instructions =
            (ofTokens file ts).instructions.map φ.instruction ∧
          List.Forall₂ (Diagnostic.Renamed φ) (ofTokens file ts).diagnostics
            (ofTokens file (ts.map φ.token)).diagnostics) ∧
      ∀ us, List.Forall₂ Token.Respelled ts us →
        (ofTokens file us).instructions = (ofTokens file ts).instructions ∧
          (ofTokens file us).diagnostics.map (fun d => (d.line, d.column)) =
            (ofTokens file ts).diagnostics.map fun d => (d.line, d.column) := by
  refine ⟨fun φ => ⟨instructions_rename φ file ts, diagnostics_rename φ file ts⟩, ?_⟩
  intro us respelled
  have canon : us.map Renaming.canonical.token = ts.map Renaming.canonical.token := by
    induction respelled with
    | nil => rfl
    | cons first _ ih =>
      rw [List.map_cons, List.map_cons, ih, Renaming.token_canonical_of_respelled first]
  have places (ws : List Token) :
      (ofTokens file (ws.map Renaming.canonical.token)).diagnostics.map
          (fun d => (d.line, d.column)) =
        (ofTokens file ws).diagnostics.map fun d => (d.line, d.column) :=
    Diagnostic.places_of_renamed (diagnostics_rename Renaming.canonical file ws)
  constructor
  · rw [← map_canonical_instructions file us, ← instructions_rename, canon, instructions_rename,
      map_canonical_instructions]
  · rw [← places us, canon, places ts]

/-- `blhs #1` and `blcs` for `blcs #1` and `blhs`: the first line is read, and the second ends
    too early under either name. -/
theorem ofTokens_rename_carry :
    List.Forall₂ Token.Respelled
        [.opcode .bl, .condition .cs, .literal 1, .lineBreak, .opcode .bl, .condition .hs]
        [.opcode .bl, .condition .hs, .literal 1, .lineBreak, .opcode .bl, .condition .cs] ∧
      (ofTokens none [.opcode .bl, .condition .hs, .literal 1, .lineBreak, .opcode .bl,
        .condition .cs]).instructions = [.branchLink (some .cs) 1] ∧
      (ofTokens none [.opcode .bl, .condition .hs, .literal 1, .lineBreak, .opcode .bl,
        .condition .cs]).diagnostics.map (fun d => (d.line, d.column)) = [(some 2, some 3)] := by
  have respelled : List.Forall₂ Token.Respelled
      [.opcode .bl, .condition .cs, .literal 1, .lineBreak, .opcode .bl, .condition .hs]
      [.opcode .bl, .condition .hs, .literal 1, .lineBreak, .opcode .bl, .condition .cs] :=
    .cons (.inl rfl) (.cons (.inr ⟨.cs, .hs, rfl, rfl, rfl⟩) (.cons (.inl rfl) (.cons (.inl rfl)
      (.cons (.inl rfl) (.cons (.inr ⟨.hs, .cs, rfl, rfl, rfl⟩) .nil)))))
  obtain ⟨instructions, places⟩ := (ofTokens_rename none _).2 _ respelled
  exact ⟨respelled, instructions.trans rfl, places.trans rfl⟩

end Listing

end ArmAssembly
