import ArmAssembly.Text.Quoted
import Mathlib.Algebra.Group.Nat.Defs

/-!
Reading quoted text back. What stands between the quotes is read one character at a time, and
no escape is the beginning of another, so both the text and where it ends can be seen. All
that stands there is printable, whatever the text holds.
-/

namespace ArmAssembly.Text

def hexValue (digit : Char) : Nat :=
  if digit.isDigit then digit.toNat - 48 else digit.toNat - 87

def hexNumber (digits : List Char) : Nat := digits.foldl (fun n d => 16 * n + hexValue d) 0

def readCodePoint (width : Nat) (cs : List Char) : Char × List Char :=
  (.ofNat (hexNumber (cs.take width)), cs.drop width)

def readEscape (letter : Char) (rest : List Char) : Char × List Char :=
  match letter with
  | 'n' => ('\n', rest)
  | 'r' => ('\r', rest)
  | 't' => ('\t', rest)
  | 'x' => readCodePoint 2 rest
  | 'u' => readCodePoint 4 rest
  | 'U' => readCodePoint 8 rest
  | c => (c, rest)

/-- The first character of the quoted text, and what stands behind it. -/
def readChar : List Char → Option (Char × List Char)
  | [] => none
  | c :: rest =>
    if c = backslash then rest.head?.map fun letter => readEscape letter rest.tail
    else some (c, rest)

theorem intercalate_cons (separator first : List Char) (parts : List (List Char)) :
    separator.intercalate (first :: parts) = first ++ parts.flatMap (separator ++ ·) := by
  induction parts generalizing first with
  | nil => simp
  | cons second parts ih =>
    rw [List.intercalate_cons_cons, ih second, List.flatMap_cons]
    simp only [List.append_assoc]

theorem hexValue_digitChar : ∀ n < 16, hexValue (Nat.digitChar n) = n := by decide

theorem length_hexDigits (width n : Nat) : (hexDigits width n).length = width := by
  induction width generalizing n with
  | zero => rfl
  | succ width ih => simp [hexDigits, ih]

theorem hexNumber_hexDigits {width n : Nat} (fits : n < 16 ^ width) :
    hexNumber (hexDigits width n) = n := by
  induction width generalizing n with
  | zero => simp_all [hexDigits, hexNumber]
  | succ width ih =>
    have front : n / 16 < 16 ^ width := by
      rw [Nat.pow_succ] at fits
      omega
    have last := hexValue_digitChar (n % 16) (Nat.mod_lt _ (by decide))
    have tail := ih front
    rw [hexNumber] at tail ⊢
    rw [hexDigits, List.foldl_append, tail, List.foldl_cons, List.foldl_nil, last]
    omega

theorem readCodePoint_hexDigits {width : Nat} {c : Char} (fits : c.toNat < 16 ^ width)
    (rest : List Char) : readCodePoint width (hexDigits width c.toNat ++ rest) = (c, rest) := by
  have width := length_hexDigits width c.toNat
  rw [readCodePoint, List.take_left' width, List.drop_left' width, hexNumber_hexDigits fits,
    Char.ofNat_toNat]

theorem readChar_codePointEscape (c : Char) (rest : List Char) :
    readChar (codePointEscape c.toNat ++ rest) = some (c, rest) := by
  have inRange : c.toNat < 16 ^ 8 := by
    have bound := c.val.toNat_lt
    simp only [Char.toNat]
    omega
  unfold codePointEscape
  split
  next fits =>
    have short : c.toNat < 16 ^ 2 := fits
    exact congrArg some (readCodePoint_hexDigits short rest)
  next =>
    split
    next fits =>
      have short : c.toNat < 16 ^ 4 := fits
      exact congrArg some (readCodePoint_hexDigits short rest)
    next => exact congrArg some (readCodePoint_hexDigits inRange rest)

theorem readChar_escape {quote : Char} (kind : quote = apostrophe ∨ quote = doubleQuote) (c : Char)
    (rest : List Char) : readChar (escape quote c ++ rest) = some (c, rest) := by
  unfold escape
  split
  next itself =>
    rcases itself with rfl | rfl
    · rcases kind with rfl | rfl <;> rfl
    · rfl
  next other =>
    split
    next newline => subst newline; rfl
    next =>
      split
      next carriage => subst carriage; rfl
      next =>
        split
        next tab => subst tab; rfl
        next =>
          split
          next => simp [readChar, (not_or.1 other).2]
          next => exact readChar_codePointEscape c rest

/-- A character of the text is never taken for the quote behind the text. -/
theorem head?_escape_ne {quote : Char} (kind : quote = apostrophe ∨ quote = doubleQuote) (c : Char)
    (rest : List Char) : (escape quote c ++ rest).head? ≠ some quote := by
  have other : backslash ≠ quote := by rcases kind with rfl | rfl <;> decide
  unfold escape
  split
  next => simpa using other
  next plain =>
    have unlike : c ≠ quote := (not_or.1 plain).1
    unfold codePointEscape
    repeat' split
    all_goals first | simpa using other | simpa using unlike

theorem escaped_append_inj {quote : Char} (kind : quote = apostrophe ∨ quote = doubleQuote)
    {s t r r' : List Char}
    (same : s.flatMap (escape quote) ++ quote :: r = t.flatMap (escape quote) ++ quote :: r') :
    s = t ∧ r = r' := by
  induction s generalizing t with
  | nil =>
    cases t with
    | nil => exact ⟨rfl, (List.cons.inj same).2⟩
    | cons d t =>
      have head := congrArg List.head? same
      rw [List.flatMap_cons, List.append_assoc] at head
      exact absurd head.symm (head?_escape_ne kind d _)
  | cons c s ih =>
    cases t with
    | nil =>
      have head := congrArg List.head? same
      rw [List.flatMap_cons, List.append_assoc] at head
      exact absurd head (head?_escape_ne kind c _)
    | cons d t =>
      have read := congrArg readChar same
      rw [List.flatMap_cons, List.flatMap_cons, List.append_assoc, List.append_assoc,
        readChar_escape kind, readChar_escape kind] at read
      obtain ⟨rfl, rest⟩ := Prod.mk.inj (Option.some.inj read)
      obtain ⟨rfl, rfl⟩ := ih rest
      exact ⟨rfl, rfl⟩

theorem quoteOf_cases (text : List Char) :
    quoteOf text = apostrophe ∨ quoteOf text = doubleQuote := by
  unfold quoteOf
  split
  · exact Or.inr rfl
  · exact Or.inl rfl

/-- Quoted text says itself where it ends, and no two texts are quoted alike. -/
theorem quotedChars_append_inj {s t r r' : List Char}
    (same : quotedChars s ++ r = quotedChars t ++ r') : s = t ∧ r = r' := by
  simp only [quotedChars, List.cons_append, List.append_assoc, List.nil_append] at same
  obtain ⟨quote, body⟩ := List.cons.inj same
  rw [← quote] at body
  exact escaped_append_inj (quoteOf_cases s) body

def isPlain (c : Char) : Bool := 0x20 ≤ c.toNat && c.toNat ≤ 0x7e

theorem isPrintable_of_isPlain {c : Char} (plain : isPlain c) : isPrintable c := by
  have outside : ∀ range ∈ nonPrintableRanges, range.2 < 0x20 ∨ 0x7e < range.1 := by
    decide +kernel
  simp only [isPlain, Bool.and_eq_true, decide_eq_true_eq] at plain
  simp only [isPrintable, Bool.not_eq_true', List.any_eq_false, Bool.and_eq_true, decide_eq_true_eq]
  intro range member within
  have := outside range member
  omega

theorem isPrintable_of_isDigit {c : Char} (digit : c.isDigit) : isPrintable c := by
  simp only [Char.isDigit, Bool.and_eq_true, decide_eq_true_eq, ge_iff_le, UInt32.le_iff_toNat_le]
    at digit
  refine isPrintable_of_isPlain ?_
  simp only [isPlain, Bool.and_eq_true, decide_eq_true_eq]
  exact ⟨Nat.le_trans (by decide) digit.1, Nat.le_trans digit.2 (by decide)⟩

theorem isPrintable_of_mem_hexDigits {width n : Nat} {c : Char} (member : c ∈ hexDigits width n) :
    isPrintable c := by
  have plain : ∀ k < 16, isPlain (Nat.digitChar k) := by decide
  induction width generalizing n with
  | zero => cases member
  | succ width ih =>
    rcases List.mem_append.1 member with front | last
    · exact ih front
    · obtain rfl := List.mem_singleton.1 last
      exact isPrintable_of_isPlain (plain (n % 16) (Nat.mod_lt _ (by decide)))

theorem isPrintable_of_mem_codePointEscape {n : Nat} {c : Char}
    (member : c ∈ codePointEscape n) : isPrintable c := by
  have backslash : isPrintable backslash := isPrintable_of_isPlain (by decide)
  have written {letter : Char} {width : Nat} (letterPrintable : isPrintable letter)
      (among : c ∈ Text.backslash :: letter :: hexDigits width n) : isPrintable c := by
    rcases List.mem_cons.1 among with rfl | among
    · exact backslash
    · rcases List.mem_cons.1 among with rfl | among
      · exact letterPrintable
      · exact isPrintable_of_mem_hexDigits among
  unfold codePointEscape at member
  split at member
  · exact written (isPrintable_of_isPlain (by decide)) member
  · split at member
    · exact written (isPrintable_of_isPlain (by decide)) member
    · exact written (isPrintable_of_isPlain (by decide)) member

theorem isPrintable_quoteOf (text : List Char) : isPrintable (quoteOf text) := by
  rcases quoteOf_cases text with same | same <;> rw [same] <;>
    exact isPrintable_of_isPlain (by decide)

theorem isPrintable_of_mem_escape {quote c d : Char} (quotePrintable : isPrintable quote)
    (member : d ∈ escape quote c) : isPrintable d := by
  have pair {letter : Char} (letterPrintable : isPrintable letter)
      (among : d ∈ [backslash, letter]) : isPrintable d := by
    rcases List.mem_cons.1 among with rfl | among
    · exact isPrintable_of_isPlain (by decide)
    · exact List.mem_singleton.1 among ▸ letterPrintable
  unfold escape at member
  split at member
  next itself =>
    rcases itself with rfl | rfl
    · exact pair quotePrintable member
    · exact pair (isPrintable_of_isPlain (by decide)) member
  next =>
    repeat' split at member
    · exact pair (isPrintable_of_isPlain (by decide)) member
    · exact pair (isPrintable_of_isPlain (by decide)) member
    · exact pair (isPrintable_of_isPlain (by decide)) member
    next printable => exact List.mem_singleton.1 member ▸ printable
    · exact isPrintable_of_mem_codePointEscape member

theorem isPrintable_of_mem_quotedChars {text : List Char} {c : Char}
    (member : c ∈ quotedChars text) : isPrintable c := by
  have quote := isPrintable_quoteOf text
  rcases List.mem_cons.1 member with rfl | member
  · exact quote
  · rcases List.mem_append.1 member with body | last
    · obtain ⟨d, _, escaped⟩ := List.mem_flatMap.1 body
      exact isPrintable_of_mem_escape quote escaped
    · exact List.mem_singleton.1 last ▸ quote

end ArmAssembly.Text
