import ArmAssembly.Proofs.OrderedChoice

/-!
A choice among tokens. All its alternatives look at the same token, or find nothing to read at the
same place, so those that are passed over fail alike but for their labels, and the choice comes to
a single look at the token and a test of membership. The order of the list and what is repeated in
it show in the label only.
-/

namespace ArmAssembly.Parser

variable {ι : Type} {γ : ι → Type}

section Readings

variable {ε : Type} {callee : (i : ι) → Cursor → Reply ε (γ i)}

theorem exec_orElse_satisfying (test test' : Token → Bool) (label label' : String) (c : Cursor) :
    (orElse (satisfying test label) (satisfying test' label')).exec callee c =
      (satisfying (fun t => test t || test' t) label').exec callee c := by
  simp only [satisfying, exec, runAccept]
  cases c.next? with
  | none => rfl
  | some step =>
    obtain ⟨t, rest⟩ := step
    cases first : test t <;> simp [first]

theorem relabel_exec_satisfying (test : Token → Bool) (label label' : String) (c : Cursor) :
    Reply.relabel ((satisfying test label).exec callee c) label' =
      (satisfying test label').exec callee c := by
  rw [← exec_relabel]
  exact exec_relabel_accept callee _ _ _ c

theorem exec_choice_tokens (t : Token) (others : List Token) (c : Cursor) :
    (choice (token t) (others.map token)).exec callee c =
      (satisfying (fun u => decide (u ∈ t :: others))
        ((t :: others).getLast (List.cons_ne_nil t others)).text).exec callee c := by
  induction others generalizing t with
  | nil =>
    have alone : (fun u => decide (u ∈ [t])) = fun u => u == t := by
      funext u
      simp [Bool.beq_eq_decide_eq]
    rw [alone]
    rfl
  | cons u others ih =>
    have either : (fun v => decide (v ∈ t :: u :: others)) =
        fun v => v == t || decide (v ∈ u :: others) := by
      funext v
      simp [Bool.beq_eq_decide_eq]
    rw [List.map_cons, exec_choice_cons, ih u, ← exec_orElse, token, exec_orElse_satisfying, either,
      List.getLast_cons_cons]

theorem exec_anyOf (t : Token) (others : List Token) (c : Cursor) :
    (anyOf t others).exec callee c =
      (satisfying (fun u => decide (u ∈ t :: others))
        (anyOfLabel (t :: others))).exec callee c := by
  rw [anyOf, exec_relabel, exec_choice_tokens, relabel_exec_satisfying]

end Readings

theorem exists_of_anyOfList {ts : List Token} {p : Parser γ Token} (built : anyOfList ts = .ok p) :
    ∃ t others, ts = t :: others ∧ p = anyOf t others := by
  cases ts with
  | nil => cases built
  | cons t others => exact ⟨t, others, rfl, (Except.ok.inj built).symm⟩

/-- What a parser of any of these tokens is: one reading, with a test of membership -/
structure TestsMembership (p : Parser γ Token) (ts : List Token) : Prop where
  label : p.label = "anyOf [" ++ ", ".intercalate (ts.map Token.text) ++ "]"
  same : ∀ {ε : Type} (callee : (i : ι) → Cursor → Reply ε (γ i)) (c : Cursor),
    p.exec callee c = (satisfying (fun t => decide (t ∈ ts)) p.label).exec callee c

/-- Any non-empty list of tokens makes a test of membership, and the empty list makes nothing.
    Lists with the same members differ in their labels only. -/
theorem anyOf_tests_membership :
    (∀ ts : List Token, ts ≠ [] →
      ∃ p : Parser γ Token, anyOfList ts = .ok p ∧ TestsMembership p ts) ∧
    (∀ (ts us : List Token) (p q : Parser γ Token), anyOfList ts = .ok p →
      anyOfList us = .ok q → (∀ t, t ∈ ts ↔ t ∈ us) →
        ∀ {ε : Type} (callee : (i : ι) → Cursor → Reply ε (γ i)) (c : Cursor),
          q.exec callee c = Reply.relabel (p.exec callee c) q.label) ∧
    (anyOfList [] : Except ChoiceError (Parser γ Token)) = .error .noAlternative := by
  refine ⟨?_, ?_, rfl⟩
  · intro ts given
    obtain ⟨t, others, rfl⟩ := List.exists_cons_of_ne_nil given
    exact ⟨anyOf t others, rfl, rfl, fun callee c => exec_anyOf t others c⟩
  · intro ts us p q first second same ε callee c
    obtain ⟨t, others, rfl, rfl⟩ := exists_of_anyOfList first
    obtain ⟨u, others', rfl, rfl⟩ := exists_of_anyOfList second
    have tests : (fun v => decide (v ∈ u :: others')) = fun v => decide (v ∈ t :: others) := by
      funext v
      exact decide_eq_decide.2 (same v).symm
    rw [exec_anyOf, exec_anyOf, tests, relabel_exec_satisfying]
    rfl

theorem anyOf_tests_membership_repeated :
    ([.comma, .lineBreak] : List Token) ≠ [] ∧
      (∃ p : Parser NoCalls Token,
        anyOfList [.comma, .lineBreak] = .ok p ∧ TestsMembership p [.comma, .lineBreak]) ∧
      (∀ t : Token, t ∈ [.comma, .lineBreak] ↔ t ∈ [.lineBreak, .comma, .comma]) ∧
      (anyOf .lineBreak [.comma, .comma]).exec (ε := Empty) (γ := NoCalls) (fun e => e.elim)
          ⟨[[.register ⟨0⟩]], .start⟩ =
        .ok (.failure ⟨anyOfLabel [.lineBreak, .comma, .comma], .unexpected (.register ⟨0⟩),
          [.register ⟨0⟩], .start⟩) := by
  have given : ([.comma, .lineBreak] : List Token) ≠ [] := by decide
  have same (t : Token) : t ∈ [.comma, .lineBreak] ↔ t ∈ [.lineBreak, .comma, .comma] := by
    simp [or_comm]
  refine ⟨given, anyOf_tests_membership.1 _ given, same, ?_⟩
  rw [anyOf_tests_membership.2.1 [.comma, .lineBreak] [.lineBreak, .comma, .comma] _ _ rfl rfl same]
  rfl

end ArmAssembly.Parser
