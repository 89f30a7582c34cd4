import ArmAssembly.Proofs.CellRuns
import ArmAssembly.Parser.Choice

/-!
Labels and what they do not decide. Two parsers are alike if one becomes the other by giving
other labels to its parts and by putting in place of a call what the cell holds. Alike parsers
run alike: the same value and rest, or a failure for the same reason in the same place, or
both come to an empty cell, or both go on for ever. Cells need not be the same on both sides,
as long as those that stand for each other hold alike parsers.
-/

namespace ArmAssembly

inductive Parser.IsCall {γ : Nat → Type} (i : Nat) : {α : Type} → Parser γ α → Prop where
  | call (label : String) : IsCall i (.call label i)

namespace Cells

open ArmAssembly.Parser

variable {γ γ' : Nat → Type} {α β : Type}

inductive Holds (cells : Cells γ) (i : Nat) : {α : Type} → Parser γ α → Prop where
  | filled {p : Parser γ (γ i)} (held : cells.get? i = some p) : Holds cells i p

/-- The second parser is the first with other labels, with set cells called in place of what
    they hold or the other way round, and with calls of twin cells. -/
inductive Alike (cells : Cells γ) (cells' : Cells γ') (twin : Nat → Nat → Prop) :
    {α : Type} → Parser γ α → Parser γ' α → Prop where
  | accept {α : Type} (read : Token → Option α) (label label' : String) :
      Alike cells cells' twin (.accept read label) (.accept read label')
  | pure {α : Type} (x : α) : Alike cells cells' twin (.pure x) (.pure x)
  | bind {α β : Type} {p : Parser γ α} {p' : Parser γ' α} {next : α → Parser γ β}
      {next' : α → Parser γ' β} (first : Alike cells cells' twin p p')
      (second : ∀ x, Alike cells cells' twin (next x) (next' x)) :
      Alike cells cells' twin (.bind p next) (.bind p' next')
  | orElse {α : Type} {p q : Parser γ α} {p' q' : Parser γ' α}
      (first : Alike cells cells' twin p p') (second : Alike cells cells' twin q q') :
      Alike cells cells' twin (.orElse p q) (.orElse p' q')
  | peek {α : Type} {p : Parser γ α} {p' : Parser γ' α} (inner : Alike cells cells' twin p p') :
      Alike cells cells' twin (.peek p) (.peek p')
  | many {α : Type} {p : Parser γ α} {p' : Parser γ' α} (inner : Alike cells cells' twin p p') :
      Alike cells cells' twin (.many p) (.many p')
  | relabelLeft {α : Type} {p : Parser γ α} {p' : Parser γ' α} (label : String)
      (inner : Alike cells cells' twin p p') : Alike cells cells' twin (.relabel p label) p'
  | relabelRight {α : Type} {p : Parser γ α} {p' : Parser γ' α} (label : String)
      (inner : Alike cells cells' twin p p') : Alike cells cells' twin p (.relabel p' label)
  | twins {α : Type} {p : Parser γ α} {p' : Parser γ' α} {i j : Nat} (twins : twin i j)
      (left : p.IsCall i) (right : p'.IsCall j) : Alike cells cells' twin p p'
  | heldLeft {α : Type} {p q : Parser γ α} {p' : Parser γ' α} {i : Nat} (left : p.IsCall i)
      (held : cells.Holds i q) (inner : Alike cells cells' twin q p') : Alike cells cells' twin p p'
  | heldRight {α : Type} {p : Parser γ α} {p' q' : Parser γ' α} {j : Nat} (right : p'.IsCall j)
      (held : cells'.Holds j q') (inner : Alike cells cells' twin p q') :
      Alike cells cells' twin p p'

def AlikeTwins (cells : Cells γ) (cells' : Cells γ') (twin : Nat → Nat → Prop) : Prop :=
  ∀ i j, twin i j → (cells.get? i = none ∧ cells'.get? j = none) ∨
    ∃ (α : Type) (p : Parser γ α) (p' : Parser γ' α),
      cells.Holds i p ∧ cells'.Holds j p' ∧ Alike cells cells' twin p p'

inductive SameButLabel (twin : Nat → Nat → Prop) {α : Type} :
    Reply CellFault α → Reply CellFault α → Prop where
  | success (x : α) (rest : Cursor) :
      SameButLabel twin (.ok (.success x rest)) (.ok (.success x rest))
  | failure (f : Failure) (label : String) :
      SameButLabel twin (.ok (.failure f)) (.ok (.failure (f.relabel label)))
  | unset {i j : Nat} (twins : twin i j) : SameButLabel twin (.error (.unset i)) (.error (.unset j))
  | endless : SameButLabel twin (.error .endless) (.error .endless)

variable {cells : Cells γ} {cells' : Cells γ'} {twin : Nat → Nat → Prop}

theorem SameButLabel.symm {r r' : Reply CellFault α} (same : SameButLabel twin r r') :
    SameButLabel (flip twin) r' r := by
  cases same with
  | success x rest => exact .success x rest
  | failure f label => exact .failure (f.relabel label) f.label
  | unset twins => exact .unset twins
  | endless => exact .endless

theorem Alike.symm {p : Parser γ α} {p' : Parser γ' α} (alike : Alike cells cells' twin p p') :
    Alike cells' cells (flip twin) p' p := by
  induction alike with
  | accept read label label' => exact .accept read label' label
  | pure x => exact .pure x
  | bind _ _ first second => exact .bind first second
  | orElse _ _ first second => exact .orElse first second
  | peek _ inner => exact .peek inner
  | many _ inner => exact .many inner
  | relabelLeft label _ inner => exact .relabelRight label inner
  | relabelRight label _ inner => exact .relabelLeft label inner
  | twins twins left right => exact .twins twins right left
  | heldLeft left held _ inner => exact .heldRight left held inner
  | heldRight right held _ inner => exact .heldLeft right held inner

theorem AlikeTwins.symm (alike : AlikeTwins cells cells' twin) :
    AlikeTwins cells' cells (flip twin) := by
  intro j i twins
  rcases alike i j twins with ⟨left, right⟩ | ⟨α, p, p', left, right, inner⟩
  · exact Or.inl ⟨right, left⟩
  · exact Or.inr ⟨α, p', p, right, left, inner.symm⟩

theorem Alike.refl (p : Parser γ α) : Alike cells cells Eq p p := by
  induction p with
  | accept read label => exact .accept read label label
  | pure x => exact .pure x
  | bind p next first second => exact .bind first second
  | orElse p q first second => exact .orElse first second
  | peek p inner => exact .peek inner
  | many p inner => exact .many inner
  | relabel p label inner => exact .relabelLeft label (.relabelRight label inner)
  | call label i => exact .twins rfl (.call label) (.call label)

theorem AlikeTwins.refl (cells : Cells γ) : AlikeTwins cells cells Eq := by
  rintro i _ rfl
  cases held : cells.get? i with
  | none => exact Or.inl ⟨rfl, rfl⟩
  | some p => exact Or.inr ⟨γ i, p, p, .filled held, .filled held, .refl p⟩

namespace Alike

variable {p : Parser γ α} {p' : Parser γ' α} {q : Parser γ β} {q' : Parser γ' β}

theorem map (f : α → β) (alike : Alike cells cells' twin p p') :
    Alike cells cells' twin (p.map f) (p'.map f) :=
  .bind alike fun x => .pure (f x)

theorem andThen (first : Alike cells cells' twin p p') (second : Alike cells cells' twin q q') :
    Alike cells cells' twin (p.andThen q) (p'.andThen q') :=
  .relabelLeft _ (.relabelRight _ (.bind first fun x => .bind second fun y => .pure (x, y)))

theorem keepSecond (first : Alike cells cells' twin p p')
    (second : Alike cells cells' twin q q') :
    Alike cells cells' twin (p.keepSecond q) (p'.keepSecond q') :=
  (first.andThen second).map Prod.snd

end Alike

theorem Holds.type_eq {p : Parser γ α} {i : Nat} (held : cells.Holds i p) : α = γ i := by
  cases held
  rfl

theorem type_eq_of_isCall {p : Parser γ α} {i : Nat} (call : p.IsCall i) : α = γ i := by
  cases call
  rfl

section Calling

variable {p q : Parser γ α} {i : Nat}

theorem exec_of_isCall_of_empty (call : p.IsCall i) (free : cells.get? i = none) (depth : Nat)
    (c : Cursor) : p.exec (cells.delegate depth) c = .error (.unset i) := by
  cases call
  cases depth <;> simp [exec, delegate, free]

theorem exec_zero_of_isCall (call : p.IsCall i) (held : cells.Holds i q) (c : Cursor) :
    p.exec (cells.delegate 0) c = .error .endless := by
  cases call
  cases held with
  | filled held => simp [exec, delegate, held]

theorem exec_succ_of_isCall (call : p.IsCall i) (held : cells.Holds i q) (depth : Nat)
    (c : Cursor) :
    p.exec (cells.delegate (depth + 1)) c = q.exec (cells.delegate depth) c := by
  cases call
  cases held with
  | filled held => simp [exec, delegate, held]

theorem run_of_isCall (call : p.IsCall i) (held : cells.Holds i q) (c : Cursor) :
    cells.run p c = cells.run q c := by
  cases call
  cases held with
  | filled held => rw [run_call, held]

theorem run_of_isCall_of_empty (call : p.IsCall i) (free : cells.get? i = none) (c : Cursor) :
    cells.run p c = .error (.unset i) :=
  exec_of_isCall_of_empty call free _ c

end Calling

/-- Either the first run was not allowed to go deep enough, or the two come to the same. -/
def Foretells (twin : Nat → Nat → Prop) (r r' : Reply CellFault α) : Prop :=
  r = .error .endless ∨ SameButLabel twin r r'

section Foretelling

variable {p q : Parser γ α} {p' q' : Parser γ' α} {c : Cursor} {depth : Nat}

theorem sameButLabel_runAccept (read : Token → Option α) (label label' : String) (c : Cursor) :
    SameButLabel twin (.ok (runAccept read label c)) (.ok (runAccept read label' c)) := by
  unfold runAccept
  cases c.next? with
  | none => exact .failure _ label'
  | some step =>
    obtain ⟨t, rest⟩ := step
    simp only
    cases read t with
    | none => exact .failure _ label'
    | some x => exact .success x rest

theorem foretells_bind {next : α → Parser γ β} {next' : α → Parser γ' β}
    (first : Foretells twin (p.exec (cells.delegate depth) c) (cells'.run p' c))
    (second : ∀ x rest, Foretells twin ((next x).exec (cells.delegate depth) rest)
      (cells'.run (next' x) rest)) :
    Foretells twin ((Parser.bind p next).exec (cells.delegate depth) c)
      (cells'.run (.bind p' next') c) := by
  rw [exec, run_bind]
  generalize p.exec (cells.delegate depth) c = r at first
  generalize cells'.run p' c = r' at first
  rcases first with rfl | same
  · exact Or.inl rfl
  · cases same with
    | success x rest => exact second x rest
    | failure f label => exact Or.inr (.failure f label)
    | unset twins => exact Or.inr (.unset twins)
    | endless => exact Or.inl rfl

theorem foretells_orElse
    (first : Foretells twin (p.exec (cells.delegate depth) c) (cells'.run p' c))
    (second : Foretells twin (q.exec (cells.delegate depth) c) (cells'.run q' c)) :
    Foretells twin ((Parser.orElse p q).exec (cells.delegate depth) c)
      (cells'.run (.orElse p' q') c) := by
  rw [exec, run_orElse]
  generalize p.exec (cells.delegate depth) c = r at first
  generalize cells'.run p' c = r' at first
  rcases first with rfl | same
  · exact Or.inl rfl
  · cases same with
    | success x rest => exact Or.inr (.success x rest)
    | failure f label => exact second
    | unset twins => exact Or.inr (.unset twins)
    | endless => exact Or.inl rfl

theorem foretells_peek
    (inner : Foretells twin (p.exec (cells.delegate depth) c) (cells'.run p' c)) :
    Foretells twin ((Parser.peek p).exec (cells.delegate depth) c) (cells'.run (.peek p') c) := by
  rw [exec, run_peek]
  generalize p.exec (cells.delegate depth) c = r at inner
  generalize cells'.run p' c = r' at inner
  rcases inner with rfl | same
  · exact Or.inl rfl
  · cases same with
    | success x rest => exact Or.inr (.success x c)
    | failure f label => exact Or.inr (.failure f label)
    | unset twins => exact Or.inr (.unset twins)
    | endless => exact Or.inl rfl

theorem foretells_relabel_left (label : String)
    (inner : Foretells twin (p.exec (cells.delegate depth) c) (cells'.run p' c)) :
    Foretells twin ((Parser.relabel p label).exec (cells.delegate depth) c) (cells'.run p' c) := by
  rw [exec]
  generalize p.exec (cells.delegate depth) c = r at inner
  generalize cells'.run p' c = r' at inner
  rcases inner with rfl | same
  · exact Or.inl rfl
  · cases same with
    | success x rest => exact Or.inr (.success x rest)
    | failure f other => exact Or.inr (.failure (f.relabel label) other)
    | unset twins => exact Or.inr (.unset twins)
    | endless => exact Or.inl rfl

theorem foretells_relabel_right (label : String)
    (inner : Foretells twin (p.exec (cells.delegate depth) c) (cells'.run p' c)) :
    Foretells twin (p.exec (cells.delegate depth) c) (cells'.run (.relabel p' label) c) := by
  rw [run_relabel]
  generalize p.exec (cells.delegate depth) c = r at inner
  generalize cells'.run p' c = r' at inner
  rcases inner with rfl | same
  · exact Or.inl rfl
  · cases same with
    | success x rest => exact Or.inr (.success x rest)
    | failure f other => exact Or.inr (.failure f label)
    | unset twins => exact Or.inr (.unset twins)
    | endless => exact Or.inl rfl

theorem foretells_many
    (rounds : ∀ c, Foretells twin (p.exec (cells.delegate depth) c) (cells'.run p' c))
    (c : Cursor) :
    Foretells twin ((Parser.many p).exec (cells.delegate depth) c) (cells'.run (.many p') c) := by
  have follows := cells.exec_follows_scan depth p
  induction size : c.ahead.length using Nat.strongRecOn generalizing c with
  | ind n again =>
    have shrinks (x : α) (rest : Cursor)
        (reply : p.exec (cells.delegate depth) c = .ok (.success x rest)) (moves : rest ≠ c) :
        rest.ahead.length < n := size ▸ follows.shrinks reply moves
    have round := rounds c
    rw [run_many, exec, follows.runMany_eq]
    generalize p.exec (cells.delegate depth) c = r at round shrinks
    generalize cells'.run p' c = r' at round
    rcases round with rfl | same
    · exact Or.inl rfl
    · cases same with
      | failure f label => exact Or.inr (.success [] c)
      | unset twins => exact Or.inr (.unset twins)
      | endless => exact Or.inl rfl
      | success x rest =>
        by_cases stays : rest = c
        · simp only [if_pos stays]
          exact Or.inr (.success [x] c)
        · have onward := again _ (shrinks x rest rfl stays) rest rfl
          rw [exec] at onward
          simp only [if_neg stays]
          generalize runMany (p.exec (cells.delegate depth)) rest = tail at onward
          generalize cells'.run (.many p') rest = tail' at onward
          rcases onward with rfl | later
          · exact Or.inl rfl
          · cases later with
            | success xs last => exact Or.inr (.success (x :: xs) last)
            | failure f label => exact Or.inr (.failure f label)
            | unset twins => exact Or.inr (.unset twins)
            | endless => exact Or.inl rfl

end Foretelling

/-- A run that does not go too deep foretells what an alike parser comes to. The induction is on
    the depth, which a call uses up, and for one depth on how the parsers are alike. -/
theorem foretells_of_alike (alikeTwins : AlikeTwins cells cells' twin) (depth : Nat)
    {p : Parser γ α} {p' : Parser γ' α} (alike : Alike cells cells' twin p p') (c : Cursor) :
    Foretells twin (p.exec (cells.delegate depth) c) (cells'.run p' c) := by
  induction depth using Nat.strongRecOn generalizing α p p' c with
  | ind depth shallower =>
    induction alike generalizing c with
    | accept read label label' => exact Or.inr (sameButLabel_runAccept read label label' c)
    | pure x => exact Or.inr (.success x c)
    | bind _ _ first second => exact foretells_bind (first c) fun x rest => second x rest
    | orElse _ _ first second => exact foretells_orElse (first c) (second c)
    | peek _ inner => exact foretells_peek (inner c)
    | many _ inner => exact foretells_many inner c
    | relabelLeft label _ inner => exact foretells_relabel_left label (inner c)
    | relabelRight label _ inner => exact foretells_relabel_right label (inner c)
    | heldRight right held _ inner =>
      rw [run_of_isCall right held]
      exact inner c
    | heldLeft left held inner =>
      cases depth with
      | zero => exact Or.inl (exec_zero_of_isCall left held c)
      | succ depth =>
        rw [exec_succ_of_isCall left held]
        exact shallower depth (Nat.lt_succ_self depth) inner c
    | twins twins left right =>
      rcases alikeTwins _ _ twins with ⟨free, free'⟩ | ⟨δ, q, q', held, held', inner⟩
      · rw [exec_of_isCall_of_empty left free, run_of_isCall_of_empty right free']
        exact Or.inr (.unset twins)
      · obtain rfl : δ = _ := held.type_eq.trans (type_eq_of_isCall left).symm
        rw [run_of_isCall right held']
        cases depth with
        | zero => exact Or.inl (exec_zero_of_isCall left held c)
        | succ depth =>
          rw [exec_succ_of_isCall left held]
          exact shallower depth (Nat.lt_succ_self depth) inner c

/-- Alike parsers run alike. -/
theorem run_sameButLabel (alikeTwins : AlikeTwins cells cells' twin) {p : Parser γ α}
    {p' : Parser γ' α} (alike : Alike cells cells' twin p p') (c : Cursor) :
    SameButLabel twin (cells.run p c) (cells'.run p' c) := by
  have forth := foretells_of_alike alikeTwins (cells.depthAt c) alike c
  have back := foretells_of_alike alikeTwins.symm (cells'.depthAt c) alike.symm c
  rw [exec_depthAt] at forth back
  -- only a run that goes on for ever foretells nothing, and then the other one is asked
  rcases forth with endless | same
  · rcases back with endless' | same
    · rw [endless, endless']
      exact .endless
    · exact same.symm
  · exact same

def relabelledCommas : Cells fun _ => Token where
  created := 1
  filled := [⟨0, .relabel (.orElse
    (.keepSecond (.satisfying (· == .comma) "separator") (.call "more" 0))
    (.relabel (.token .flags) "suffix")) "list"⟩]

theorem run_sameButLabel_commas :
    AlikeTwins commas relabelledCommas Eq ∧
      Alike commas relabelledCommas Eq (.call "commas" 0) (.call "more" 0) ∧
      SameButLabel Eq (commas.run (.call "commas" 0) ⟨[[.comma, .comma]], .start⟩)
        (relabelledCommas.run (.call "more" 0) ⟨[[.comma, .comma]], .start⟩) ∧
      AlikeTwins commas commas Eq ∧
      Alike commas commas Eq (.call "commas" 0)
        (.relabel (.orElse (.keepSecond (.token .comma) (.call "commas" 0)) (.token .flags))
          "list") ∧
      SameButLabel Eq (commas.run (.call "commas" 0) ⟨[[.comma, .flags]], .start⟩)
        (commas.run
          (.relabel (.orElse (.keepSecond (.token .comma) (.call "commas" 0)) (.token .flags))
            "list") ⟨[[.comma, .flags]], .start⟩) := by
  have twins : AlikeTwins commas relabelledCommas Eq := by
    rintro i _ rfl
    by_cases first : i = 0
    · subst first
      exact Or.inr ⟨Token, _, _, .filled rfl, .filled rfl, .relabelRight _ (.orElse
        (.keepSecond (.accept _ _ _) (.twins rfl (.call _) (.call _)))
        (.relabelRight _ (.accept _ _ _)))⟩
    · have other : 0 ≠ i := fun same => first same.symm
      exact Or.inl ⟨by simp [commas, get?, find?, other],
        by simp [relabelledCommas, get?, find?, other]⟩
  have calls : Alike commas relabelledCommas Eq (.call "commas" 0) (.call "more" 0) :=
    .twins rfl (.call _) (.call _)
  have inPlace : Alike commas commas Eq (.call "commas" 0)
      (.relabel (.orElse (.keepSecond (.token .comma) (.call "commas" 0)) (.token .flags))
        "list") :=
    .heldLeft (.call _) (.filled rfl) (.relabelRight _ (.refl _))
  exact ⟨twins, calls, run_sameButLabel twins calls _, .refl commas, inPlace,
    run_sameButLabel (.refl commas) inPlace _⟩

end Cells
end ArmAssembly
