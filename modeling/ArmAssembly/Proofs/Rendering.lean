import ArmAssembly.Outcome
import ArmAssembly.Proofs.Quotation
import Mathlib.Data.List.Nodup

/-!
Lines of tokens and the text that shows them. Only quoted text can hold a space, and it says
itself where it ends, so each token is seen to end where it does. Hence a line is told by its
rendering, and a token by the text that shows it.
-/

namespace ArmAssembly

namespace Token

def words : List Token :=
  Condition.all.map condition ++ Register.all.map register ++ Opcode.all.map opcode
    ++ [flags, comma, lineBreak, endOfInput]

theorem unknown?_eq_some_iff {t : Token} {text : String} :
    t.unknown? = some text ↔ t = unknown text := by
  cases t <;> simp [unknown?]

theorem mem_words_or (t : Token) :
    t ∈ words ∨ (∃ n, t = literal n) ∨ ∃ text, t = unknown text := by
  cases t with
  | condition c => exact Or.inl (by simp [words, Condition.mem_all])
  | register r => exact Or.inl (by simp [words, Register.mem_all])
  | opcode op =>
    have listed : op ∈ Opcode.all :=
      List.mem_flatMap.2 ⟨op.opClass, OpClass.mem_all _, (OpClass.mem_opcodes op _).2 rfl⟩
    exact Or.inl (by simp [words, listed])
  | flags | comma | lineBreak | endOfInput => exact Or.inl (by simp [words])
  | literal n => exact Or.inr (Or.inl ⟨n, rfl⟩)
  | unknown text => exact Or.inr (Or.inr ⟨text, rfl⟩)

theorem toDigits_injective : Function.Injective (Nat.toDigits 10) := by
  intro m n same
  have value := congrArg (Nat.ofDigitChars 10 · 0) same
  simpa using value

theorem minus_notMem_toDigits (n : Nat) : '-' ∉ Nat.toDigits 10 n := by
  intro member
  have digit := Nat.isDigit_of_mem_toDigits (by decide) (by decide) member
  exact absurd digit (by decide)

theorem decimal_injective : Function.Injective decimal := by
  have unsigned {m : Nat} {cs : List Char} (same : Nat.toDigits 10 m = '-' :: cs) : False :=
    minus_notMem_toDigits m (same ▸ List.mem_cons_self)
  intro m n same
  cases m with
  | ofNat m =>
    cases n with
    | ofNat n => exact congrArg Int.ofNat (toDigits_injective same)
    | negSucc n => exact (unsigned same).elim
  | negSucc m =>
    cases n with
    | ofNat n => exact (unsigned same.symm).elim
    | negSucc n =>
      have succ := toDigits_injective (List.cons.inj same).2
      exact congrArg Int.negSucc (Nat.succ.inj succ)

theorem isDigit_of_mem_decimal {n : Int} {c : Char} (member : c ∈ decimal n) :
    c = '-' ∨ c.isDigit := by
  have digit {m : Nat} (among : c ∈ Nat.toDigits 10 m) : c.isDigit :=
    Nat.isDigit_of_mem_toDigits (by decide) (by decide) among
  cases n with
  | ofNat n => exact Or.inr (digit member)
  | negSucc n => exact (List.mem_cons.1 member).imp_right digit

/-- Nothing, or a space: what can stand behind a token in a line. -/
def EndsToken (rest : List Char) : Prop := ∀ c ∈ rest.head?, c = ' '

theorem takeWhile_append_of_endsToken {word rest : List Char} (unspaced : ' ' ∉ word)
    (ends : EndsToken rest) : (word ++ rest).takeWhile (· ≠ ' ') = word := by
  have inside : ∀ c ∈ word, decide (c ≠ ' ') = true := fun c member =>
    decide_eq_true (ne_of_mem_of_not_mem member unspaced)
  have stops : rest.takeWhile (· ≠ ' ') = [] := by
    cases rest with
    | nil => rfl
    | cons c rest => simp [ends c rfl]
  rw [List.takeWhile_append_of_pos inside, stops, List.append_nil]

theorem mem_words_or_literal {t : Token} (known : t.unknown? = none) :
    t ∈ words ∨ ∃ n, t = literal n := by
  rcases mem_words_or t with word | number | ⟨text, rfl⟩
  · exact Or.inl word
  · exact Or.inr number
  · cases known

theorem space_notMem_chars {t : Token} (known : t.unknown? = none) : ' ' ∉ t.chars := by
  have unspaced : ∀ w ∈ words, ' ' ∉ w.chars := by decide +kernel
  rcases mem_words_or_literal known with word | ⟨n, rfl⟩
  · exact unspaced t word
  · intro member
    rcases List.mem_cons.1 member with hash | shown
    · exact absurd hash (by decide)
    · rcases isDigit_of_mem_decimal shown with minus | digit
      · exact absurd minus (by decide)
      · exact absurd digit (by decide)

theorem chars_injOn_known {t u : Token} (known : t.unknown? = none) (known' : u.unknown? = none)
    (same : t.chars = u.chars) : t = u := by
  have distinct : (words.map chars).Nodup := by decide +kernel
  have unnumbered : ∀ w ∈ words, ∀ cs, w.chars ≠ '#' :: cs := by
    have heads : ∀ w ∈ words, w.chars.head? ≠ some '#' := by decide +kernel
    intro w member cs equal
    exact heads w member (by rw [equal]; rfl)
  rcases mem_words_or_literal known with word | ⟨m, rfl⟩
  · rcases mem_words_or_literal known' with word' | ⟨n, rfl⟩
    · exact List.inj_on_of_nodup_map distinct word word' same
    · exact absurd same (unnumbered t word _)
  · rcases mem_words_or_literal known' with word' | ⟨n, rfl⟩
    · exact absurd same.symm (unnumbered u word' _)
    · exact congrArg literal (decimal_injective (List.cons.inj same).2)

theorem chars_unknown (text : String) (rest : List Char) :
    (unknown text).chars ++ rest =
      "<error".toList ++ ' ' :: (Text.quotedChars text.toList ++ '>' :: rest) := by
  have shown : (unknown text).chars = "<error ".toList ++ Text.quotedChars text.toList ++ ['>'] :=
    rfl
  have cut : "<error ".toList = "<error".toList ++ [' '] := by decide +kernel
  rw [shown, cut]
  simp only [List.append_assoc, List.cons_append, List.nil_append]

theorem chars_append_ne_unknown {t : Token} (known : t.unknown? = none) {rest rest' : List Char}
    (ends : EndsToken rest) (text : String) : t.chars ++ rest ≠ (unknown text).chars ++ rest' := by
  have unmarked : ∀ w ∈ words, w.chars ≠ "<error".toList := by decide +kernel
  have unspaced : ' ' ∉ "<error".toList := by decide
  intro same
  have front := congrArg (List.takeWhile (· ≠ ' ')) same
  rw [takeWhile_append_of_endsToken (space_notMem_chars known) ends, chars_unknown,
    takeWhile_append_of_endsToken unspaced (by simp [EndsToken])] at front
  rcases mem_words_or_literal known with word | ⟨n, rfl⟩
  · exact unmarked t word front
  · have head : some '#' = "<error".toList.head? := congrArg List.head? front
    exact absurd head (by decide +kernel)

theorem chars_append_inj {t u : Token} {rest rest' : List Char} (ends : EndsToken rest)
    (ends' : EndsToken rest') (same : t.chars ++ rest = u.chars ++ rest') :
    t = u ∧ rest = rest' := by
  cases known : t.unknown? with
  | none =>
    cases known' : u.unknown? with
    | none =>
      have front := congrArg (List.takeWhile (· ≠ ' ')) same
      rw [takeWhile_append_of_endsToken (space_notMem_chars known) ends,
        takeWhile_append_of_endsToken (space_notMem_chars known') ends'] at front
      obtain rfl := chars_injOn_known known known' front
      exact ⟨rfl, List.append_cancel_left same⟩
    | some text =>
      obtain rfl := unknown?_eq_some_iff.1 known'
      exact absurd same (chars_append_ne_unknown known ends text)
  | some text =>
    obtain rfl := unknown?_eq_some_iff.1 known
    cases known' : u.unknown? with
    | none => exact absurd same.symm (chars_append_ne_unknown known' ends' text)
    | some text' =>
      obtain rfl := unknown?_eq_some_iff.1 known'
      rw [chars_unknown, chars_unknown] at same
      have quoted := (List.cons.inj (List.append_cancel_left same)).2
      obtain ⟨texts, behind⟩ := Text.quotedChars_append_inj quoted
      exact ⟨congrArg unknown (String.toList_inj.1 texts), (List.cons.inj behind).2⟩

theorem text_injective : Function.Injective text := by
  intro t u same
  have shown : t.chars ++ [] = u.chars ++ [] := by
    simpa using String.ofList_injective same
  exact (chars_append_inj (by simp [EndsToken]) (by simp [EndsToken]) shown).1

theorem chars_ne_nil (t : Token) : t.chars ≠ [] := by
  have written : ∀ w ∈ words, w.chars ≠ [] := by decide +kernel
  rcases mem_words_or t with word | ⟨n, rfl⟩ | ⟨text, rfl⟩
  · exact written t word
  · exact List.cons_ne_nil _ _
  · intro empty
    have shown := chars_unknown text []
    rw [empty] at shown
    simp at shown

end Token

def renderBehind (line : List Token) : List Char := line.flatMap fun t => ' ' :: t.chars

theorem renderChars_cons (t : Token) (line : List Token) :
    renderChars (t :: line) = t.chars ++ renderBehind line := by
  rw [renderChars, List.map_cons, Text.intercalate_cons, List.flatMap_map]
  rfl

theorem endsToken_renderBehind (line : List Token) : Token.EndsToken (renderBehind line) := by
  cases line <;> simp [renderBehind, Token.EndsToken]

theorem renderBehind_injective : Function.Injective renderBehind := by
  intro xs ys same
  induction xs generalizing ys with
  | nil =>
    cases ys with
    | nil => rfl
    | cons y ys => simp [renderBehind] at same
  | cons x xs ih =>
    cases ys with
    | nil => simp [renderBehind] at same
    | cons y ys =>
      simp only [renderBehind, List.flatMap_cons, List.cons_append, List.cons.injEq,
        true_and] at same
      obtain ⟨rfl, behind⟩ := Token.chars_append_inj (endsToken_renderBehind xs)
        (endsToken_renderBehind ys) same
      rw [ih behind]

theorem renderChars_eq_nil_iff {line : List Token} : renderChars line = [] ↔ line = [] := by
  cases line with
  | nil => simp [renderChars]
  | cons t line => simp [renderChars_cons, t.chars_ne_nil]

theorem renderChars_injective : Function.Injective renderChars := by
  intro xs ys same
  cases xs with
  | nil => exact (renderChars_eq_nil_iff.1 same.symm).symm
  | cons x xs =>
    cases ys with
    | nil => exact renderChars_eq_nil_iff.1 same
    | cons y ys =>
      rw [renderChars_cons, renderChars_cons] at same
      obtain ⟨rfl, behind⟩ := Token.chars_append_inj (endsToken_renderBehind xs)
        (endsToken_renderBehind ys) same
      rw [renderBehind_injective behind]

/-- Nothing is lost in a rendering: a line can be told from every other, a token from every
    other, and so what a message finds unexpected is one token only. -/
theorem render_injective :
    Function.Injective render ∧ Function.Injective Token.text ∧
      Function.Injective fun t => (Reason.unexpected t).message := by
  refine ⟨?_, Token.text_injective, ?_⟩
  · intro xs ys same
    exact renderChars_injective (String.ofList_injective same)
  · intro t u same
    have quoted := congrArg String.toList same
    simp only [Reason.message, String.toList_append] at quoted
    have shown := List.append_cancel_left (List.append_cancel_right quoted)
    exact Token.text_injective (String.toList_inj.1 shown)

theorem render_injective_forged :
    render [.unknown "a'> <error 'b"] ≠ render [.unknown "a", .unknown "b"] ∧
      (Token.unknown "a'> <error 'b").text ≠ (Token.unknown "a\"> <error \"b").text := by
  obtain ⟨lines, tokens, _⟩ := render_injective
  exact ⟨lines.ne (by decide), tokens.ne (by decide)⟩

end ArmAssembly
