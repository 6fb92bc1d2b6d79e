import CorpLlmGateway.Json.Token

/-!
# The JSON grammar

Which texts are JSON, as the productions of the grammar: values, the items of a list and the
members of an object, with white space wherever it may stand. Numbers may have any length,
and the constants that `json.loads` knows beside the grammar are words as well.

* `Derives` — the productions; one relation with the nonterminal as an index, so that a proof
  over all of them is one induction.
-/

namespace Json

open PyStr

/-- White space. -/
def Spaces (s : PyStr) : Prop := ∀ c ∈ s, ∃ d, c = .scalar d ∧ isSpace d = true

/-- One character of a string literal. -/
inductive StringUnit : PyStr → Prop where
  | plain {c : PyChar} : c ≠ .scalar '"' → c ≠ .scalar '\\' → 0x20 ≤ c.code → StringUnit [c]
  | simple {e d : Char} : (e, d) ∈ simpleEscapes → StringUnit [.scalar '\\', .scalar e]
  | hex {digits : List Char} : digits.length = 4 → (∀ d ∈ digits, (hexValue d).isSome = true) →
      StringUnit (ofText ('\\' :: 'u' :: digits))

/-- A string literal with its quotes. -/
def StringText (s : PyStr) : Prop :=
  ∃ units : List PyStr, (∀ u ∈ units, StringUnit u) ∧
    s = .scalar '"' :: (units.flatten ++ [.scalar '"'])

/-- A number literal: `-?(0|[1-9][0-9]*)(\.[0-9]+)?([eE][-+]?[0-9]+)?`. -/
def NumberText (l : List Char) : Prop := ∃ b, scanNumber l = some (l.length, b)

inductive Nonterminal where
  | value
  | items
  | object
  | members

/-- The texts of each nonterminal. `items` and `members` are not empty, and carry the white
space around their parts. -/
inductive Derives : Nonterminal → PyStr → Prop where
  | word {w : List Char × Tok} : w ∈ words → Derives .value (ofText w.1)
  | number {l : List Char} : NumberText l → Derives .value (ofText l)
  | string {s : PyStr} : StringText s → Derives .value s
  | noItems {w : PyStr} : Spaces w → Derives .value (.scalar '[' :: (w ++ [.scalar ']']))
  | list {s : PyStr} : Derives .items s → Derives .value (.scalar '[' :: (s ++ [.scalar ']']))
  | nested {s : PyStr} : Derives .object s → Derives .value s
  | lastItem {w s w' : PyStr} : Spaces w → Derives .value s → Spaces w' →
      Derives .items (w ++ (s ++ w'))
  | moreItems {w s w' t : PyStr} : Spaces w → Derives .value s → Spaces w' → Derives .items t →
      Derives .items (w ++ (s ++ (w' ++ .scalar ',' :: t)))
  | noMembers {w : PyStr} : Spaces w → Derives .object (.scalar '{' :: (w ++ [.scalar '}']))
  | fields {s : PyStr} : Derives .members s →
      Derives .object (.scalar '{' :: (s ++ [.scalar '}']))
  | lastMember {w k w' v s v' : PyStr} : Spaces w → StringText k → Spaces w' → Spaces v →
      Derives .value s → Spaces v' →
      Derives .members (w ++ (k ++ (w' ++ .scalar ':' :: (v ++ (s ++ v')))))
  | moreMembers {w k w' v s v' t : PyStr} : Spaces w → StringText k → Spaces w' → Spaces v →
      Derives .value s → Spaces v' → Derives .members t →
      Derives .members (w ++ (k ++ (w' ++ .scalar ':' :: (v ++ (s ++ (v' ++ .scalar ',' :: t))))))

/-- The text of a JSON object. -/
abbrev ObjectText : PyStr → Prop := Derives .object

end Json
