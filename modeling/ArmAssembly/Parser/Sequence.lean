import ArmAssembly.Parser.Basic

/-!
One parser after another. A sequence fails where its first failing part fails, and no
later part is run. A pair goes by both labels, also in its failures; a sequence built by
applying functions goes by the label of the value it starts from.
-/

namespace ArmAssembly.Parser

variable {ι : Type} {γ : ι → Type} {α β δ : Type}

def satisfying (test : Token → Bool) (label : String) : Parser γ Token :=
  accept (fun t => if test t then some t else none) label

def token (t : Token) : Parser γ Token := satisfying (· == t) t.text

def map (f : α → β) (p : Parser γ α) : Parser γ β := bind p fun x => pure (f x)

def apply (p : Parser γ (α → β)) (q : Parser γ α) : Parser γ β :=
  bind p fun f => bind q fun x => pure (f x)

def map2 (f : α → β → δ) (p : Parser γ α) (q : Parser γ β) : Parser γ δ :=
  apply (apply (pure f) p) q

def inOrder : List (Parser γ α) → Parser γ (List α)
  | [] => pure []
  | p :: rest => map2 (· :: ·) p (inOrder rest)

def andThen (p : Parser γ α) (q : Parser γ β) : Parser γ (α × β) :=
  relabel (bind p fun x => bind q fun y => pure (x, y)) (p.label ++ " andThen " ++ q.label)

def keepFirst (p : Parser γ α) (q : Parser γ β) : Parser γ α := map Prod.fst (andThen p q)

def keepSecond (p : Parser γ α) (q : Parser γ β) : Parser γ β := map Prod.snd (andThen p q)

def enclosed (opening : Parser γ α) (p : Parser γ β) (closing : Parser γ δ) : Parser γ β :=
  keepFirst (keepSecond opening p) closing

def yielding (x : β) (p : Parser γ α) : Parser γ β := map (fun _ => x) p

/-- The same parser by another name; its failures keep their labels. -/
def named (label : String) (p : Parser γ α) : Parser γ α :=
  bind (relabel (pure ()) label) fun _ => p

theorem label_named (label : String) (p : Parser γ α) : (named label p).label = label := rfl

theorem exec_named {ε : Type} (callee : (i : ι) → Cursor → Reply ε (γ i)) (label : String)
    (p : Parser γ α) (c : Cursor) : (named label p).exec callee c = p.exec callee c := rfl

end ArmAssembly.Parser
