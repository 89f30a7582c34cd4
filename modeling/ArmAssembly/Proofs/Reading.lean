import ArmAssembly.Parser.Repeat
import ArmAssembly.Proofs.Ahead
import ArmAssembly.Proofs.Wording
import Mathlib.Order.Bounds.Basic

/-!
Parsers and what they read. A parser reads a wording when it takes a word wherever one
stands in front, and of several the longest. It pinpoints a wording when a refusal stands
behind the longest beginning of a word. It ends a wording when a word it takes cannot be
the beginning of a longer one with what follows, complete or not. These pass from the
parts of a sequence to the whole if the parts are separated, so a shape is read off its
fields.
-/

namespace ArmAssembly
namespace Parser
variable {α β δ : Type}

theorem parse_accept (read : Token → Option α) (label : String) (ts : List Token) :
    (accept read label : Parser NoCalls α).parse ts = scanAccept read label ts := rfl

theorem parse_pure (x : α) (ts : List Token) : (pure x : Parser NoCalls α).parse ts = .taken x ts :=
  rfl

theorem parse_bind (p : Parser NoCalls α) (next : α → Parser NoCalls β) (ts : List Token) :
    (bind p next).parse ts =
      match p.parse ts with
      | .taken x rest => (next x).parse rest
      | .refused label rest => .refused label rest := by
  rw [parse, scan, scan_eq_parse]
  cases p.parse ts <;> rfl

theorem parse_orElse (p q : Parser NoCalls α) (ts : List Token) :
    (orElse p q).parse ts =
      match p.parse ts with
      | .taken x rest => .taken x rest
      | .refused _ _ => q.parse ts := by
  rw [parse, scan, scan_eq_parse]
  cases p.parse ts <;> rfl

theorem parse_peek (p : Parser NoCalls α) (ts : List Token) :
    (peek p).parse ts =
      match p.parse ts with
      | .taken x _ => .taken x ts
      | .refused label rest => .refused label rest := by
  rw [parse, scan, scan_eq_parse]
  cases p.parse ts <;> rfl

theorem parse_relabel (p : Parser NoCalls α) (label : String) (ts : List Token) :
    (relabel p label).parse ts =
      match p.parse ts with
      | .taken x rest => .taken x rest
      | .refused _ rest => .refused label rest := by
  rw [parse, scan, scan_eq_parse]
  cases p.parse ts <;> rfl

theorem parse_many (p : Parser NoCalls α) (ts : List Token) :
    (many p).parse ts =
      match p.parse ts with
      | .refused _ _ => .taken [] ts
      | .taken x rest =>
        if rest.length < ts.length then
          match (many p).parse rest with
          | .taken xs last => .taken (x :: xs) last
          | .refused label last => .refused label last
        else .taken [x] rest := by
  have whole := scan_eq_parse (many p) ts
  rw [scan, scanMany, scan_eq_parse] at whole
  apply Except.ok.inj (ε := Empty)
  rw [← whole]
  cases p.parse ts with
  | refused label rest => rfl
  | taken x rest =>
    simp only
    split
    · have tail := scan_eq_parse (many p) rest
      rw [scan] at tail
      rw [tail]
      cases (many p).parse rest <;> rfl
    · rfl

theorem parse_map (f : α → β) (p : Parser NoCalls α) (ts : List Token) :
    (map f p).parse ts =
      match p.parse ts with
      | .taken x rest => .taken (f x) rest
      | .refused label rest => .refused label rest :=
  parse_bind p (fun x => pure (f x)) ts

theorem parse_andThen (p : Parser NoCalls α) (q : Parser NoCalls β) (ts : List Token) :
    (andThen p q).parse ts =
      match p.parse ts with
      | .refused _ rest => .refused (p.label ++ " andThen " ++ q.label) rest
      | .taken x rest =>
        match q.parse rest with
        | .taken y last => .taken (x, y) last
        | .refused _ last => .refused (p.label ++ " andThen " ++ q.label) last := by
  rw [andThen, parse_relabel, parse_bind]
  cases p.parse ts with
  | refused label rest => rfl
  | taken x rest =>
    simp only [parse_bind, parse_pure]
    cases q.parse rest <;> rfl

theorem parse_map2 (f : α → β → δ) (p : Parser NoCalls α) (q : Parser NoCalls β)
    (ts : List Token) :
    (map2 f p q).parse ts =
      match p.parse ts with
      | .refused label rest => .refused label rest
      | .taken x rest =>
        match q.parse rest with
        | .taken y last => .taken (f x y) last
        | .refused label last => .refused label last := by
  simp only [map2, apply, parse_bind, parse_pure]
  cases p.parse ts <;> rfl

theorem parse_maybe (p : Parser NoCalls α) (ts : List Token) :
    (maybe p).parse ts =
      match p.parse ts with
      | .taken x rest => .taken (some x) rest
      | .refused _ _ => .taken none ts := by
  rw [maybe, parse_orElse, parse_map]
  cases p.parse ts <;> rfl

/-- A parser that takes a word wherever one stands in front, and no less than that word. -/
structure Reads (p : Parser NoCalls α) (S : Wording α) : Prop where
  sound : ∀ {ts x rest}, p.parse ts = .taken x rest → ∃ u, ts = u ++ rest ∧ S x u
  complete : ∀ {x u} (v : List Token), S x u →
    ∃ y m rest, v = m ++ rest ∧ p.parse (u ++ v) = .taken y rest ∧ (m = [] → y = x)

/-- Moreover, what was read before a refusal is the longest beginning of a word. -/
structure Pinpoints (p : Parser NoCalls α) (S : Wording α) : Prop extends Reads p S where
  refused : ∀ {u label rest}, p.parse (u ++ rest) = .refused label rest →
    S.Viable u ∧ S.Stops u rest

/-- Moreover, the word taken does not begin a longer one with what follows. -/
structure Delimits (p : Parser NoCalls α) (S : Wording α) : Prop extends Pinpoints p S where
  ends : ∀ {u x rest}, p.parse (u ++ rest) = .taken x rest → S.Stops u rest

def RefusesAtOnce (p : Parser NoCalls α) : Prop :=
  ∀ {ts label rest}, p.parse ts = .refused label rest → rest = ts

theorem Reads.not_refused {p : Parser NoCalls α} {S : Wording α} (reads : Reads p S) {x : α}
    {u v : List Token} (word : S x u) (label : String) (rest : List Token) :
    p.parse (u ++ v) ≠ .refused label rest := by
  obtain ⟨y, m, last, _, took, _⟩ := reads.complete v word
  simp [took]

theorem Reads.parse_word {p : Parser NoCalls α} {S : Wording α} (reads : Reads p S) {x : α}
    {u : List Token} (word : S x u) : p.parse u = .taken x [] := by
  obtain ⟨y, m, rest, none, took, same⟩ := reads.complete [] word
  obtain ⟨rfl, rfl⟩ := List.append_eq_nil_iff.1 none.symm
  rw [List.append_nil] at took
  rw [took, same rfl]

theorem parse_suffix {p : Parser NoCalls α} {w : List Token} {s : Scan α} (reply : p.parse w = s) :
    ∃ u, w = u ++ s.rest := by
  obtain ⟨u, cut⟩ := parse_behind p w
  exact ⟨u, by rw [← reply, cut]⟩

theorem Reads.takes_word {p : Parser NoCalls α} {S : Wording α} (reads : Reads p S) {x : α}
    {u : List Token} (v : List Token) (word : S x u) :
    ∃ y m rest, v = m ++ rest ∧ p.parse (u ++ v) = .taken y rest ∧ S y (u ++ m) ∧
      (m = [] → y = x) := by
  obtain ⟨y, m, rest, rfl, took, same⟩ := reads.complete v word
  obtain ⟨w, cut, longer⟩ := reads.sound took
  rw [← List.append_assoc] at cut
  rw [← List.append_cancel_right cut] at longer
  exact ⟨y, m, rest, rfl, took, longer, same⟩

theorem Reads.takes_longest {p : Parser NoCalls α} {S : Wording α} (reads : Reads p S)
    {w rest : List Token} {x : α} (took : p.parse w = .taken x rest) :
    IsGreatest (S.lengthsInFront w) (w.length - rest.length) := by
  obtain ⟨u, rfl, word⟩ := reads.sound took
  have short : (u ++ rest).length - rest.length = u.length := by simp
  rw [short]
  constructor
  · exact ⟨by simp, x, by simpa using word⟩
  · intro j front
    obtain ⟨inside, y, word'⟩ := front
    obtain ⟨z, m, last, cut, took', _⟩ := reads.complete ((u ++ rest).drop j) word'
    rw [List.take_append_drop, took] at took'
    obtain ⟨_, rfl⟩ := Scan.taken.inj took'
    have sizes := congrArg List.length cut
    simp only [List.length_drop, List.length_append] at sizes
    simp only [List.length_append] at inside
    omega

theorem Pinpoints.refuses_behind_longest {p : Parser NoCalls α} {S : Wording α}
    (pinpoints : Pinpoints p S) {w rest : List Token} {label : String}
    (refused : p.parse w = .refused label rest) :
    IsGreatest (S.beginningsInFront w) (w.length - rest.length) := by
  obtain ⟨u, cut⟩ := parse_suffix refused
  obtain rfl : w = u ++ rest := cut
  obtain ⟨viable, stops⟩ := pinpoints.refused refused
  have short : (u ++ rest).length - rest.length = u.length := by simp
  rw [short]
  constructor
  · exact ⟨by simp, by simpa using viable⟩
  · intro j front
    obtain ⟨inside, begun⟩ := front
    by_contra longer
    -- a longer beginning would go on with the refused token
    cases rest with
    | nil => simp at inside; omega
    | cons t rest =>
      obtain ⟨k, rfl⟩ : ∃ k, j = u.length + (k + 1) := ⟨j - u.length - 1, by omega⟩
      rw [List.take_length_add_append, List.take_succ_cons, List.append_cons] at begun
      exact stops t rest rfl (Wording.viable_of_append begun)

section Same

def SameReading (p q : Parser NoCalls α) : Prop :=
  ∀ ts, (p.parse ts).relabel "" = (q.parse ts).relabel ""

variable {p q : Parser NoCalls α} {S : Wording α}

theorem SameReading.taken (same : SameReading p q) {ts : List Token} {x : α} {rest : List Token}
    (took : p.parse ts = .taken x rest) : q.parse ts = .taken x rest := by
  have equal := same ts
  rw [took] at equal
  cases second : q.parse ts with
  | taken y last => simpa [second, Scan.relabel, eq_comm] using equal
  | refused label last => simp [second, Scan.relabel] at equal

theorem SameReading.refused (same : SameReading p q) {ts : List Token} {label : String}
    {rest : List Token} (refused : p.parse ts = .refused label rest) :
    ∃ other, q.parse ts = .refused other rest := by
  have equal := same ts
  rw [refused] at equal
  cases second : q.parse ts with
  | taken y last => simp [second, Scan.relabel] at equal
  | refused other last => exact ⟨other, by simpa [second, Scan.relabel, eq_comm] using equal⟩

theorem SameReading.symm (same : SameReading p q) : SameReading q p :=
  fun ts => (same ts).symm

theorem Reads.congr (reads : Reads p S) (same : SameReading p q) : Reads q S where
  sound := fun took => reads.sound (same.symm.taken took)
  complete := by
    intro x u v word
    obtain ⟨y, m, rest, cut, took, value⟩ := reads.complete v word
    exact ⟨y, m, rest, cut, same.taken took, value⟩

theorem Pinpoints.congr (pinpoints : Pinpoints p S) (same : SameReading p q) : Pinpoints q S where
  toReads := pinpoints.toReads.congr same
  refused := by
    intro u label rest refused
    obtain ⟨other, first⟩ := same.symm.refused refused
    exact pinpoints.refused first

theorem Delimits.congr (delimits : Delimits p S) (same : SameReading p q) : Delimits q S where
  toPinpoints := delimits.toPinpoints.congr same
  ends := fun took => delimits.ends (same.symm.taken took)

theorem Delimits.rewording (delimits : Delimits p S) {T : Wording α}
    (same : ∀ x u, S x u ↔ T x u) : Delimits p T := by
  have equal : S = T := funext fun x => funext fun u => propext (same x u)
  exact equal ▸ delimits

theorem sameReading_relabel (p : Parser NoCalls α) (label : String) :
    SameReading p (relabel p label) := by
  intro ts
  rw [parse_relabel]
  cases p.parse ts <;> rfl

end Same

theorem sameReading_map2 (f : α → β → δ) (p : Parser NoCalls α) (q : Parser NoCalls β) :
    SameReading (map (fun x => f x.1 x.2) (andThen p q)) (map2 f p q) := by
  intro ts
  rw [parse_map2, parse_map, parse_andThen]
  cases p.parse ts with
  | refused label rest => rfl
  | taken x rest =>
    simp only
    cases q.parse rest <;> rfl

section Single

variable {read : Token → Option α} {label : String}

theorem refusesAtOnce_accept : RefusesAtOnce (accept read label) := by
  intro ts other rest refused
  rw [parse_accept] at refused
  cases ts with
  | nil => simp_all [scanAccept]
  | cons a ts => cases value : read a <;> simp_all [scanAccept]

theorem delimits_accept {t : Token} {x : α} (reads : read t = some x) :
    Delimits (accept read label) (Wording.token read) where
  sound := by
    intro ts y rest took
    rw [parse_accept] at took
    cases ts with
    | nil => simp [scanAccept] at took
    | cons a ts =>
      cases value : read a with
      | none => simp [scanAccept, value] at took
      | some z =>
        simp only [scanAccept, value, Scan.taken.injEq] at took
        obtain ⟨rfl, rfl⟩ := took
        exact ⟨[a], rfl, a, value, rfl⟩
  complete := by
    intro y u v word
    obtain ⟨a, value, rfl⟩ := word
    exact ⟨y, [], v, rfl, by simp [parse_accept, scanAccept, value], fun _ => rfl⟩
  refused := by
    intro u other rest refused
    have whole := refusesAtOnce_accept refused
    obtain rfl : u = [] := by simpa using whole
    refine ⟨⟨x, [t], t, reads, rfl⟩, ?_⟩
    rintro a rest rfl ⟨y, more, b, value, same⟩
    obtain ⟨rfl, _⟩ := List.cons.inj same
    simp [parse_accept, scanAccept, value] at refused
  ends := by
    intro u y rest took
    rintro a behind rfl ⟨z, more, b, value, same⟩
    have long := congrArg List.length same
    cases u with
    | nil =>
      rw [parse_accept] at took
      cases read a <;> simp_all [scanAccept]
    | cons c u => simp at long

theorem delimits_satisfying (a : Token) (label : String) :
    Delimits (satisfying (· == a) label) (Wording.exactly a) :=
  delimits_accept (t := a) (x := a) (by simp)

end Single

theorem delimits_pure (x : α) :
    Delimits (pure x) (fun y u => y = x ∧ u = []) where
  sound := by
    intro ts y rest took
    simp only [parse_pure, Scan.taken.injEq] at took
    exact ⟨[], by simp [took.2], took.1.symm, rfl⟩
  complete := by
    intro y u v word
    obtain ⟨rfl, rfl⟩ := word
    exact ⟨y, [], v, rfl, rfl, fun _ => rfl⟩
  refused := by
    intro u label rest refused
    simp [parse_pure] at refused
  ends := by
    intro u y rest _ t behind _ word
    obtain ⟨z, more, _, empty⟩ := word
    simp at empty

section Map

variable {p : Parser NoCalls α} {S : Wording α} (f : α → β)

theorem parse_map_taken {ts rest : List Token} {y : β} (took : (map f p).parse ts = .taken y rest) :
    ∃ x, f x = y ∧ p.parse ts = .taken x rest := by
  rw [parse_map] at took
  cases first : p.parse ts with
  | refused label last => simp [first] at took
  | taken x last =>
    simp only [first, Scan.taken.injEq] at took
    exact ⟨x, took.1, by rw [took.2]⟩

theorem parse_map_refused {ts rest : List Token} {label : String} :
    (map f p).parse ts = .refused label rest ↔ p.parse ts = .refused label rest := by
  rw [parse_map]
  cases p.parse ts <;> simp

theorem reads_map (reads : Reads p S) : Reads (map f p) (Wording.map f S) where
  sound := by
    intro ts y rest took
    obtain ⟨x, rfl, first⟩ := parse_map_taken f took
    obtain ⟨u, cut, word⟩ := reads.sound first
    exact ⟨u, cut, x, rfl, word⟩
  complete := by
    intro _ u v given
    obtain ⟨x, rfl, word⟩ := given
    obtain ⟨y, m, rest, cut, took, same⟩ := reads.complete v word
    exact ⟨f y, m, rest, cut, by rw [parse_map, took], fun none => by rw [same none]⟩

theorem viable_map {u : List Token} (viable : S.Viable u) : (Wording.map f S).Viable u := by
  obtain ⟨x, more, word⟩ := viable
  exact ⟨f x, more, x, rfl, word⟩

theorem stops_map {u ahead : List Token} (stops : S.Stops u ahead) :
    (Wording.map f S).Stops u ahead := by
  intro t rest cut given
  obtain ⟨_, more, x, _, word⟩ := given
  exact stops t rest cut ⟨x, more, word⟩

theorem pinpoints_map (pinpoints : Pinpoints p S) : Pinpoints (map f p) (Wording.map f S) where
  toReads := reads_map f pinpoints.toReads
  refused := by
    intro u label rest refused
    obtain ⟨viable, stops⟩ := pinpoints.refused ((parse_map_refused f).1 refused)
    exact ⟨viable_map f viable, stops_map f stops⟩

theorem delimits_map (delimits : Delimits p S) : Delimits (map f p) (Wording.map f S) where
  toPinpoints := pinpoints_map f delimits.toPinpoints
  ends := by
    intro u y rest took
    obtain ⟨x, _, first⟩ := parse_map_taken f took
    exact stops_map f (delimits.ends first)

theorem refusesAtOnce_map (once : RefusesAtOnce p) : RefusesAtOnce (map f p) :=
  fun refused => once ((parse_map_refused f).1 refused)

end Map

section Pair

variable {p : Parser NoCalls α} {q : Parser NoCalls β} {S : Wording α} {T : Wording β}

theorem reads_andThen (first : Reads p S) (second : Reads q T)
    (separated : Wording.Separated S T) : Reads (andThen p q) (Wording.pair S T) where
  sound := by
    rintro ts ⟨x, y⟩ rest took
    rw [parse_andThen] at took
    cases one : p.parse ts with
    | refused label last => simp [one] at took
    | taken x' last =>
      cases two : q.parse last with
      | refused label last' => simp [one, two] at took
      | taken y' last' =>
        simp only [one, two, Scan.taken.injEq, Prod.mk.injEq] at took
        obtain ⟨⟨rfl, rfl⟩, rfl⟩ := took
        obtain ⟨u, rfl, word⟩ := first.sound one
        obtain ⟨v, rfl, word'⟩ := second.sound two
        exact ⟨u ++ v, by simp, u, v, word, word', rfl⟩
  complete := by
    rintro ⟨x, y⟩ _ w ⟨u, v, word, word', rfl⟩
    obtain ⟨x', m, rest, cut, one, longer, same⟩ := first.takes_word (v ++ w) word
    cases m with
    | nil =>
      obtain rfl : v ++ w = rest := cut
      obtain ⟨y', m', last, cut', two, same'⟩ := second.complete w word'
      refine ⟨(x', y'), m', last, cut', ?_, ?_⟩
      · rw [List.append_assoc, parse_andThen, one]
        simp only [two]
      · intro none
        rw [same rfl, same' none]
    | cons t m =>
      -- the first part went on past its word, so the second word can only be empty
      have further : S.Extends t := ⟨x, x', u, m, word, longer⟩
      obtain rfl : v = [] := by
        cases v with
        | nil => rfl
        | cons a v =>
          obtain rfl : a = t := (List.cons.inj cut).1
          exact absurd ⟨y, v, word'⟩ (separated a further)
      obtain ⟨y', m', last, rfl, two, _⟩ := second.complete rest word'
      refine ⟨(x', y'), t :: m ++ m', last, ?_, ?_, ?_⟩
      · simpa using cut
      · rw [List.append_assoc, parse_andThen, one]
        simp only [List.nil_append] at two
        simp only [two]
      · simp

theorem parse_andThen_refused {w rest : List Token} {label : String}
    (first : Reads p S) (refused : (andThen p q).parse (w ++ rest) = .refused label rest) :
    (∃ other, p.parse (w ++ rest) = .refused other rest) ∨
      ∃ u v x other, w = u ++ v ∧ S x u ∧ p.parse (u ++ (v ++ rest)) = .taken x (v ++ rest) ∧
        q.parse (v ++ rest) = .refused other rest := by
  rw [parse_andThen] at refused
  cases one : p.parse (w ++ rest) with
  | refused other last =>
    simp only [one, Scan.refused.injEq] at refused
    exact Or.inl ⟨other, by rw [refused.2]⟩
  | taken x last =>
    cases two : q.parse last with
    | taken y last' => simp [one, two] at refused
    | refused other last' =>
      simp only [one, two, Scan.refused.injEq] at refused
      obtain ⟨_, rfl⟩ := refused
      obtain ⟨u, cut, word⟩ := first.sound one
      obtain ⟨v, behind⟩ := parse_suffix two
      obtain rfl : last = v ++ last' := behind
      obtain rfl := append_border cut
      rw [List.append_assoc] at one
      exact Or.inr ⟨u, v, x, other, rfl, word, one, two⟩

theorem pinpoints_andThen (first : Delimits p S) (second : Pinpoints q T)
    (separated : Wording.Separated S T) (inhabited : T.Viable []) :
    Pinpoints (andThen p q) (Wording.pair S T) where
  toReads := reads_andThen first.toReads second.toReads separated
  refused := by
    intro w label rest refused
    rcases parse_andThen_refused first.toReads refused with
      ⟨other, one⟩ | ⟨u, v, x, other, rfl, word, one, two⟩
    · obtain ⟨⟨x, more, begun⟩, stops⟩ := first.refused one
      obtain ⟨y, v, word'⟩ := inhabited
      refine ⟨⟨(x, y), more ++ v, w ++ more, v, begun, word', by simp⟩, ?_⟩
      -- a word of the first part within `w` would have been taken
      have unread : ∀ z s m, S z s → w ≠ s ++ m := by
        rintro z s m word rfl
        rw [List.append_assoc] at one
        exact first.not_refused word other rest one
      rintro t behind rfl ⟨⟨z, z'⟩, after, s, s', word, _, same⟩
      rw [List.append_assoc] at same
      rcases append_cases same with ⟨rfl, _⟩ | ⟨a, m, rfl, cut⟩ | ⟨a, m, rfl, _⟩
      · exact unread z w [] word (by simp)
      · obtain rfl : t = a := (List.cons.inj cut).1
        exact stops t behind rfl ⟨z, m, by simpa using word⟩
      · exact unread z s (a :: m) word rfl
    · obtain ⟨⟨y, more, begun⟩, stops⟩ := second.refused two
      refine ⟨⟨(x, y), more, u, v ++ more, word, begun, by simp⟩, ?_⟩
      exact Wording.stops_pair separated word (first.ends one) stops

theorem delimits_andThen (first : Delimits p S) (second : Delimits q T)
    (separated : Wording.Separated S T) (inhabited : T.Viable []) :
    Delimits (andThen p q) (Wording.pair S T) where
  toPinpoints := pinpoints_andThen first second.toPinpoints separated inhabited
  ends := by
    rintro w ⟨x, y⟩ rest took
    rw [parse_andThen] at took
    cases one : p.parse (w ++ rest) with
    | refused label last => simp [one] at took
    | taken x' last =>
      cases two : q.parse last with
      | refused label last' => simp [one, two] at took
      | taken y' last' =>
        simp only [one, two, Scan.taken.injEq, Prod.mk.injEq] at took
        obtain ⟨⟨rfl, rfl⟩, rfl⟩ := took
        obtain ⟨u, cut, word⟩ := first.sound one
        obtain ⟨v, rfl, _⟩ := second.sound two
        obtain rfl := append_border cut
        rw [List.append_assoc] at one
        exact Wording.stops_pair separated word (first.ends one) (second.ends two)

end Pair

section Maybe

variable {p : Parser NoCalls α} {S : Wording α}

/-- What may be left out never makes a parser refuse, so there is nothing to pinpoint. -/
theorem pinpoints_maybe (reads : Reads p S) (proper : ∀ x, ¬ S x []) :
    Pinpoints (maybe p) S.optional where
  sound := by
    intro ts o rest took
    rw [parse_maybe] at took
    cases first : p.parse ts with
    | refused label last =>
      simp only [first, Scan.taken.injEq] at took
      obtain ⟨rfl, rfl⟩ := took
      exact ⟨[], rfl, rfl⟩
    | taken x last =>
      simp only [first, Scan.taken.injEq] at took
      obtain ⟨rfl, rfl⟩ := took
      exact reads.sound first
  complete := by
    intro o u v word
    cases o with
    | some x =>
      obtain ⟨y, m, rest, cut, took, same⟩ := reads.complete v word
      exact ⟨some y, m, rest, cut, by rw [parse_maybe, took], fun none => by rw [same none]⟩
    | none =>
      obtain rfl : u = [] := word
      cases first : p.parse v with
      | refused label last =>
        exact ⟨none, [], v, rfl, by rw [List.nil_append, parse_maybe, first], fun _ => rfl⟩
      | taken x last =>
        obtain ⟨m, cut, word⟩ := reads.sound first
        refine ⟨some x, m, last, cut, by rw [List.nil_append, parse_maybe, first], ?_⟩
        rintro rfl
        exact absurd word (proper x)
  refused := by
    intro u label rest refused
    rw [parse_maybe] at refused
    cases first : p.parse (u ++ rest) <;> simp [first] at refused

theorem delimits_maybe (delimits : Delimits p S) (proper : ∀ x, ¬ S x [])
    (once : RefusesAtOnce p) : Delimits (maybe p) S.optional where
  toPinpoints := pinpoints_maybe delimits.toReads proper
  ends := by
    intro u o rest took
    have stops : S.Stops u rest := by
      rw [parse_maybe] at took
      cases first : p.parse (u ++ rest) with
      | refused label last =>
        simp only [first, Scan.taken.injEq] at took
        obtain rfl : u = [] := by simpa using took.2
        rw [once first] at first
        exact (delimits.refused (u := []) first).2
      | taken x last =>
        simp only [first, Scan.taken.injEq] at took
        exact delimits.ends (by rw [first, took.2])
    intro t behind cut given
    obtain ⟨o', more, word⟩ := given
    cases o' with
    | none => simp [Wording.optional] at word
    | some x => exact stops t behind cut ⟨x, more, word⟩

end Maybe

section Either

variable {p q : Parser NoCalls α} {S T : Wording α}

theorem reads_orElse (first : Reads p S) (second : Reads q T) (properFirst : ∀ x, ¬ S x [])
    (properSecond : ∀ x, ¬ T x []) (apart : ∀ t, S.Starts t → ¬ T.Starts t) :
    Reads (orElse p q) (S.either T) where
  sound := by
    intro ts x rest took
    rw [parse_orElse] at took
    cases one : p.parse ts with
    | refused label last =>
      simp only [one] at took
      obtain ⟨u, cut, word⟩ := second.sound took
      exact ⟨u, cut, Or.inr word⟩
    | taken y last =>
      simp only [one, Scan.taken.injEq] at took
      obtain ⟨rfl, rfl⟩ := took
      obtain ⟨u, cut, word⟩ := first.sound one
      exact ⟨u, cut, Or.inl word⟩
  complete := by
    intro x u v given
    rcases given with word | word
    · obtain ⟨y, m, rest, cut, took, same⟩ := first.complete v word
      exact ⟨y, m, rest, cut, by rw [parse_orElse, took], same⟩
    · cases one : p.parse (u ++ v) with
      | refused label last =>
        obtain ⟨y, m, rest, cut, took, same⟩ := second.complete v word
        exact ⟨y, m, rest, cut, by rw [parse_orElse, one]; exact took, same⟩
      | taken y last =>
        -- both wordings would start with the first token
        obtain ⟨s, cut, word'⟩ := first.sound one
        cases u with
        | nil => exact absurd word (properSecond x)
        | cons a u =>
          cases s with
          | nil => exact absurd word' (properFirst y)
          | cons b s =>
            obtain rfl : a = b := (List.cons.inj cut).1
            exact absurd ⟨x, u, word⟩ (apart a ⟨y, s, word'⟩)

theorem pinpoints_orElse (first : Pinpoints p S) (once : RefusesAtOnce p) (second : Pinpoints q T)
    (properFirst : ∀ x, ¬ S x []) (properSecond : ∀ x, ¬ T x [])
    (apart : ∀ t, S.Starts t → ¬ T.Starts t) : Pinpoints (orElse p q) (S.either T) where
  toReads := reads_orElse first.toReads second.toReads properFirst properSecond apart
  refused := by
    intro u label rest refused
    rw [parse_orElse] at refused
    cases one : p.parse (u ++ rest) with
    | taken y last => simp [one] at refused
    | refused other last =>
      simp only [one] at refused
      obtain ⟨⟨x, more, word⟩, stops⟩ := second.refused refused
      refine ⟨⟨x, more, Or.inr word⟩, ?_⟩
      rintro t behind rfl ⟨y, after, word' | word'⟩
      · -- the first parser refused its very first token
        rw [once one] at one
        have stops : S.Stops [] (u ++ [t] ++ behind) := by
          simpa using (first.refused (u := []) one).2
        have short := Wording.viable_of_stops_nil stops ⟨y, after, word'⟩
        simp at short
      · exact stops t behind rfl ⟨y, after, word'⟩

end Either

section Many

variable {p : Parser NoCalls α} {S : Wording α}

theorem parse_many_refused {ts rest : List Token} {label : String}
    (refused : (many p).parse ts = .refused label rest) : False := by
  induction size : ts.length using Nat.strongRecOn generalizing ts with
  | ind n ih =>
    rw [parse_many] at refused
    cases first : p.parse ts with
    | refused other last => simp [first] at refused
    | taken x last =>
      simp only [first] at refused
      split at refused
      next less =>
        cases tail : (many p).parse last with
        | taken xs last' => simp [tail] at refused
        | refused other last' =>
          simp only [tail, Scan.refused.injEq] at refused
          obtain ⟨rfl, rfl⟩ := refused
          exact ih last.length (by omega) tail rfl
      next => simp at refused

theorem parse_many_taken (p : Parser NoCalls α) (ts : List Token) :
    ∃ xs m rest, ts = m ++ rest ∧ (many p).parse ts = .taken xs rest := by
  cases reply : (many p).parse ts with
  | refused label rest => exact (parse_many_refused reply).elim
  | taken xs rest =>
    obtain ⟨m, cut⟩ := parse_suffix reply
    exact ⟨xs, m, rest, cut, rfl⟩

theorem parse_many_step (reads : Reads p S) (proper : ∀ x, ¬ S x []) {ts last : List Token} {x : α}
    (first : p.parse ts = .taken x last) :
    ∃ xs m rest, last = m ++ rest ∧ (many p).parse last = .taken xs rest ∧
      (many p).parse ts = .taken (x :: xs) rest := by
  obtain ⟨u, rfl, word⟩ := reads.sound first
  obtain ⟨xs, m, rest, cut, tail⟩ := parse_many_taken p last
  have less : last.length < (u ++ last).length := by
    cases u with
    | nil => exact absurd word (proper x)
    | cons t u =>
      rw [List.length_append, List.length_cons]
      omega
  refine ⟨xs, m, rest, cut, tail, ?_⟩
  rw [parse_many, first]
  simp only [less, ↓reduceIte, tail]

theorem reads_many (reads : Reads p S) (proper : ∀ x, ¬ S x [])
    (separated : ∀ t, S.Extends t → ¬ S.Starts t) : Reads (many p) S.Repeated where
  sound := by
    intro ts xs rest took
    induction size : ts.length using Nat.strongRecOn generalizing ts xs with
    | ind n ih =>
      cases first : p.parse ts with
      | refused label last =>
        simp only [parse_many, first, Scan.taken.injEq] at took
        obtain ⟨rfl, rfl⟩ := took
        exact ⟨[], rfl, .nil⟩
      | taken x last =>
        obtain ⟨ys, _, rest', _, tail, whole⟩ := parse_many_step reads proper first
        obtain ⟨rfl, rfl⟩ := Scan.taken.inj (whole.symm.trans took)
        obtain ⟨u, rfl, word⟩ := reads.sound first
        have less : last.length < n := by
          cases u with
          | nil => exact absurd word (proper x)
          | cons t u => simp only [List.length_append, List.length_cons] at size; omega
        obtain ⟨v, rfl, words⟩ := ih last.length less tail rfl
        exact ⟨u ++ v, by simp, .cons word words⟩
  complete := by
    intro xs w v words
    induction words generalizing v with
    | nil =>
      obtain ⟨ys, m, rest, cut, took⟩ := parse_many_taken p v
      refine ⟨ys, m, rest, cut, took, ?_⟩
      rintro rfl
      obtain rfl : v = rest := cut
      cases first : p.parse v with
      | refused label last => simpa [parse_many, first] using took.symm
      | taken x last =>
        obtain ⟨zs, m, rest', cut', _, whole⟩ := parse_many_step reads proper first
        obtain ⟨rfl, rfl⟩ := Scan.taken.inj (whole.symm.trans took)
        obtain ⟨u, again, word⟩ := reads.sound first
        have none : u = [] := by
          have sizes := congrArg List.length again
          rw [cut', List.length_append, List.length_append] at sizes
          exact List.length_eq_zero_iff.1 (by omega)
        exact absurd (none ▸ word) (proper x)
    | @cons x xs u u' word words ih =>
      obtain ⟨y, m, rest, cut, one, longer, same⟩ := reads.takes_word (u' ++ v) word
      obtain ⟨ys, m', last, cut', tail, whole⟩ := parse_many_step reads proper one
      rw [← List.append_assoc] at whole
      cases m with
      | nil =>
        obtain rfl : u' ++ v = rest := cut
        obtain ⟨zs, m'', last', further, tail', same'⟩ := ih v
        obtain ⟨rfl, rfl⟩ := Scan.taken.inj (tail.symm.trans tail')
        exact ⟨y :: ys, m'', last, further, whole, fun none => by rw [same rfl, same' none]⟩
      | cons t m =>
        -- the first item went on past its word, so there are no others
        have further : S.Extends t := ⟨x, y, u, m, word, longer⟩
        obtain rfl : u' = [] := by
          cases u' with
          | nil => rfl
          | cons a u' =>
            obtain rfl : a = t := (List.cons.inj cut).1
            exact absurd (Wording.starts_repeated proper ⟨xs, u', words⟩) (separated a further)
        refine ⟨y :: ys, t :: m ++ m', last, ?_, whole, by simp⟩
        rw [List.append_assoc, ← cut']
        exact cut

theorem pinpoints_many (reads : Reads p S) (proper : ∀ x, ¬ S x [])
    (separated : ∀ t, S.Extends t → ¬ S.Starts t) : Pinpoints (many p) S.Repeated where
  toReads := reads_many reads proper separated
  refused := fun refused => (parse_many_refused refused).elim

end Many

end Parser
end ArmAssembly
