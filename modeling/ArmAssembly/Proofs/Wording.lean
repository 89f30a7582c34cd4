import ArmAssembly.Token
import Mathlib.Data.Set.Defs

/-!
Ways of writing values as tokens, and how words can begin and go on. Two wordings stand
well one after the other when the second never starts with a token by which a word of the
first could have been longer: then the border between the two parts can be seen.
-/

namespace ArmAssembly

/-- Which tokens write which value. -/
abbrev Wording (α : Type) : Type := α → List Token → Prop

/-- Two ways of cutting one list in two: at the same place, or one before the other. -/
theorem append_cases {u v s z : List Token} (same : u ++ v = s ++ z) :
    (u = s ∧ v = z) ∨ (∃ t m, s = u ++ t :: m ∧ v = t :: m ++ z) ∨
      ∃ t m, u = s ++ t :: m ∧ z = t :: m ++ v := by
  rcases List.append_eq_append_iff.1 same with ⟨m, longer, rest⟩ | ⟨m, longer, rest⟩
  · cases m with
    | nil => exact Or.inl ⟨by simpa using longer.symm, by simpa using rest⟩
    | cons t m => exact Or.inr (Or.inl ⟨t, m, longer, rest⟩)
  · cases m with
    | nil => exact Or.inl ⟨by simpa using longer, by simpa using rest.symm⟩
    | cons t m => exact Or.inr (Or.inr ⟨t, m, longer, rest⟩)

theorem append_border {w u v rest : List Token} (same : w ++ rest = u ++ (v ++ rest)) :
    w = u ++ v := by
  rw [← List.append_assoc] at same
  exact List.append_cancel_right same

namespace Wording

variable {α β : Type}

def token (read : Token → Option α) : Wording α := fun x u => ∃ t, read t = some x ∧ u = [t]

def exactly (a : Token) : Wording Token := token fun t => if t == a then some t else none

def map (f : α → β) (S : Wording α) : Wording β := fun y u => ∃ x, f x = y ∧ S x u

def pair (S : Wording α) (T : Wording β) : Wording (α × β) :=
  fun x w => ∃ u v, S x.1 u ∧ T x.2 v ∧ w = u ++ v

def optional (S : Wording α) : Wording (Option α)
  | none => fun u => u = []
  | some x => S x

def either (S T : Wording α) : Wording α := fun x u => S x u ∨ T x u

inductive Repeated (S : Wording α) : List α → List Token → Prop where
  | nil : Repeated S [] []
  | cons {x : α} {xs : List α} {u v : List Token} (first : S x u) (others : Repeated S xs v) :
      Repeated S (x :: xs) (u ++ v)

/-- The tokens are the beginning of a word. -/
def Viable (S : Wording α) (u : List Token) : Prop := ∃ x more, S x (u ++ more)

/-- No word that begins with `u` goes on with the first token ahead. -/
def Stops (S : Wording α) (u ahead : List Token) : Prop :=
  ∀ t rest, ahead = t :: rest → ¬ S.Viable (u ++ [t])

def Starts (S : Wording α) (t : Token) : Prop := ∃ x u, S x (t :: u)

/-- The token stands where a shorter word has come to its end. -/
def Extends (S : Wording α) (t : Token) : Prop := ∃ x y u v, S x u ∧ S y (u ++ t :: v)

/-- A word of the first cannot be continued by what starts a word of the second. -/
def Separated (S : Wording α) (T : Wording β) : Prop := ∀ t, S.Extends t → ¬ T.Starts t

def lengthsInFront (S : Wording α) (w : List Token) : Set Nat :=
  {j | j ≤ w.length ∧ ∃ x, S x (w.take j)}

def beginningsInFront (S : Wording α) (w : List Token) : Set Nat :=
  {j | j ≤ w.length ∧ S.Viable (w.take j)}

theorem exactly_iff {a x : Token} {u : List Token} : exactly a x u ↔ x = a ∧ u = [a] := by
  constructor
  · intro word
    obtain ⟨t, read, rfl⟩ := word
    obtain ⟨same, value⟩ := Option.ite_none_right_eq_some.1 read
    obtain rfl : t = a := by simpa using same
    exact ⟨(Option.some.inj value).symm, rfl⟩
  · intro word
    obtain ⟨rfl, rfl⟩ := word
    exact ⟨x, by simp, rfl⟩

theorem proper_token {read : Token → Option α} (x : α) : ¬ token read x [] := by
  intro word
  obtain ⟨t, _, same⟩ := word
  simp at same

theorem proper_map {S : Wording α} (f : α → β) (proper : ∀ x, ¬ S x []) (y : β) :
    ¬ map f S y [] := by
  intro given
  obtain ⟨x, _, word⟩ := given
  exact proper x word

theorem proper_pair_left {S : Wording α} {T : Wording β} (proper : ∀ x, ¬ S x []) (x : α × β) :
    ¬ pair S T x [] := by
  intro word
  obtain ⟨u, v, first, _, same⟩ := word
  obtain ⟨rfl, _⟩ := List.append_eq_nil_iff.1 same.symm
  exact proper _ first

theorem proper_pair_right {S : Wording α} {T : Wording β} (proper : ∀ y, ¬ T y []) (x : α × β) :
    ¬ pair S T x [] := by
  intro word
  obtain ⟨u, v, _, second, same⟩ := word
  obtain ⟨_, rfl⟩ := List.append_eq_nil_iff.1 same.symm
  exact proper _ second

theorem proper_either {S T : Wording α} (first : ∀ x, ¬ S x []) (second : ∀ x, ¬ T x []) (x : α) :
    ¬ either S T x [] := by
  intro given
  rcases given with word | word
  · exact first x word
  · exact second x word

theorem pair_none_iff {S : Wording α} {T : Wording β} {x : α} {u : List Token} :
    pair S (optional T) (x, none) u ↔ S x u := by
  constructor
  · intro given
    obtain ⟨v, _, word, rfl, rfl⟩ := given
    simpa using word
  · intro word
    exact ⟨u, [], word, rfl, by simp⟩

theorem viable_of_word {S : Wording α} {x : α} {u : List Token} (word : S x u) : S.Viable u :=
  ⟨x, [], by simpa using word⟩

theorem viable_pair_nil {S : Wording α} {T : Wording β} (first : S.Viable [])
    (second : T.Viable []) : (pair S T).Viable [] := by
  obtain ⟨x, u, word⟩ := first
  obtain ⟨y, v, word'⟩ := second
  exact ⟨(x, y), u ++ v, u, v, word, word', rfl⟩

theorem viable_of_append {S : Wording α} {u v : List Token} (viable : S.Viable (u ++ v)) :
    S.Viable u := by
  obtain ⟨x, more, word⟩ := viable
  exact ⟨x, v ++ more, by simpa using word⟩

theorem viable_of_stops_nil {S : Wording α} {u ahead : List Token} (stops : S.Stops [] (u ++ ahead))
    (viable : S.Viable u) : u = [] := by
  cases u with
  | nil => rfl
  | cons t u =>
    have short : S.Viable ([] ++ [t]) := viable_of_append viable
    exact absurd short (stops t (u ++ ahead) rfl)

theorem not_extends_token {read : Token → Option α} {t : Token} : ¬ (token read).Extends t := by
  intro word
  obtain ⟨x, y, u, v, ⟨a, _, rfl⟩, b, _, longer⟩ := word
  simp at longer

theorem extends_map {f : α → β} {S : Wording α} {t : Token} (further : (map f S).Extends t) :
    S.Extends t := by
  obtain ⟨_, _, u, v, ⟨x, _, short⟩, y, _, long⟩ := further
  exact ⟨x, y, u, v, short, long⟩

theorem extends_optional {S : Wording α} {t : Token} (further : (optional S).Extends t) :
    S.Extends t ∨ S.Starts t := by
  obtain ⟨x, y, u, v, short, long⟩ := further
  cases y with
  | none => simp [optional] at long
  | some y =>
    cases x with
    | none =>
      obtain rfl : u = [] := short
      exact Or.inr ⟨y, v, long⟩
    | some x => exact Or.inl ⟨x, y, u, v, short, long⟩

/-- A pair that goes on does so in one of its parts, since the border between them is seen. -/
theorem extends_pair {S : Wording α} {T : Wording β} (separated : Separated S T) {t : Token}
    (further : (pair S T).Extends t) : S.Extends t ∨ T.Extends t := by
  obtain ⟨⟨x, x'⟩, ⟨y, y'⟩, w, v, ⟨u, u', first, second, rfl⟩, s, z, third, fourth, same⟩ := further
  rw [List.append_assoc] at same
  rcases append_cases same with ⟨rfl, rfl⟩ | ⟨a, m, rfl, after⟩ | ⟨a, m, rfl, rfl⟩
  · exact Or.inr ⟨x', y', u', v, second, fourth⟩
  · have longer : S.Extends a := ⟨x, y, u, m, first, third⟩
    cases u' with
    | nil =>
      obtain rfl : t = a := (List.cons.inj after).1
      exact Or.inl longer
    | cons b u' =>
      obtain rfl : b = a := (List.cons.inj after).1
      exact absurd ⟨x', u', second⟩ (separated b longer)
  · exact absurd ⟨y', _, fourth⟩ (separated a ⟨y, x, s, m, third, first⟩)

theorem extends_pair_proper {S : Wording α} {T : Wording β} (separated : Separated S T)
    (proper : ∀ y, ¬ T y []) {t : Token} (further : (pair S T).Extends t) : T.Extends t := by
  obtain ⟨⟨x, x'⟩, ⟨y, y'⟩, w, v, ⟨u, u', first, second, rfl⟩, s, z, third, fourth, same⟩ := further
  rw [List.append_assoc] at same
  rcases append_cases same with ⟨rfl, rfl⟩ | ⟨a, m, rfl, after⟩ | ⟨a, m, rfl, rfl⟩
  · exact ⟨x', y', u', v, second, fourth⟩
  · cases u' with
    | nil => exact absurd second (proper x')
    | cons b u' =>
      obtain rfl : b = a := (List.cons.inj after).1
      exact absurd ⟨x', u', second⟩ (separated b ⟨x, y, u, m, first, third⟩)
  · exact absurd ⟨y', _, fourth⟩ (separated a ⟨y, x, s, m, third, first⟩)

theorem starts_token {read : Token → Option α} {t : Token} (starts : (token read).Starts t) :
    ∃ x, read t = some x := by
  obtain ⟨x, u, a, reads, same⟩ := starts
  obtain ⟨rfl, _⟩ := List.cons.inj same
  exact ⟨x, reads⟩

theorem starts_exactly {a t : Token} (starts : (exactly a).Starts t) : t = a := by
  obtain ⟨x, u, word⟩ := starts
  exact (List.cons.inj (exactly_iff.1 word).2).1

theorem starts_map {f : α → β} {S : Wording α} {t : Token} (starts : (map f S).Starts t) :
    S.Starts t := by
  obtain ⟨_, u, x, _, word⟩ := starts
  exact ⟨x, u, word⟩

theorem starts_optional {S : Wording α} {t : Token} (starts : (optional S).Starts t) :
    S.Starts t := by
  obtain ⟨x, u, word⟩ := starts
  cases x with
  | none => simp [optional] at word
  | some x => exact ⟨x, u, word⟩

theorem starts_either {S T : Wording α} {t : Token} (starts : (either S T).Starts t) :
    S.Starts t ∨ T.Starts t := by
  obtain ⟨x, u, word | word⟩ := starts
  · exact Or.inl ⟨x, u, word⟩
  · exact Or.inr ⟨x, u, word⟩

theorem starts_pair {S : Wording α} {T : Wording β} {t : Token} (starts : (pair S T).Starts t) :
    S.Starts t ∨ (∃ x, S x []) ∧ T.Starts t := by
  obtain ⟨⟨x, y⟩, w, u, v, first, second, same⟩ := starts
  cases u with
  | nil =>
    obtain rfl : t :: w = v := same
    exact Or.inr ⟨⟨x, first⟩, y, w, second⟩
  | cons a u =>
    obtain rfl : t = a := (List.cons.inj same).1
    exact Or.inl ⟨x, u, first⟩

theorem starts_pair_proper {S : Wording α} {T : Wording β} (proper : ∀ x, ¬ S x []) {t : Token}
    (starts : (pair S T).Starts t) : S.Starts t := by
  rcases starts_pair starts with left | ⟨⟨x, empty⟩, _⟩
  · exact left
  · exact absurd empty (proper x)

theorem starts_repeated {S : Wording α} (proper : ∀ x, ¬ S x []) {t : Token}
    (starts : Starts S.Repeated t) : S.Starts t := by
  obtain ⟨xs, w, words⟩ := starts
  generalize whole : t :: w = line at words
  cases words with
  | nil => simp at whole
  | @cons x xs u v word others =>
    cases u with
    | nil => exact absurd word (proper x)
    | cons a u =>
      obtain rfl : t = a := (List.cons.inj whole).1
      exact ⟨x, u, word⟩

theorem separated_token {read : Token → Option α} {T : Wording β} : Separated (token read) T :=
  fun _ further => absurd further not_extends_token

theorem stops_pair {S : Wording α} {T : Wording β} (separated : Separated S T) {x : α}
    {u v ahead : List Token} (first : S x u) (stopsFirst : S.Stops u (v ++ ahead))
    (stopsSecond : T.Stops v ahead) : (pair S T).Stops (u ++ v) ahead := by
  rintro t rest rfl ⟨⟨y, z⟩, more, s, w, third, second, same⟩
  rw [List.append_assoc, List.append_assoc] at same
  rcases append_cases same with ⟨rfl, rfl⟩ | ⟨a, m, rfl, after⟩ | ⟨a, m, rfl, rfl⟩
  · exact stopsSecond t rest rfl ⟨z, more, by simpa using second⟩
  · -- the first part would have gone on with what the parts found ahead
    have next : ∃ behind, v ++ t :: rest = a :: behind := by
      cases v with
      | nil => exact ⟨rest, by simp [(List.cons.inj after).1]⟩
      | cons b v => exact ⟨v ++ t :: rest, by simp [(List.cons.inj after).1]⟩
    obtain ⟨behind, ahead⟩ := next
    exact stopsFirst a behind ahead ⟨y, m, by simpa using third⟩
  · exact separated a ⟨y, x, s, m, third, first⟩ ⟨z, _, second⟩

end Wording
end ArmAssembly
