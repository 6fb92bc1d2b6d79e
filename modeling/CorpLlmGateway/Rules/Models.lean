import Mathlib

/-!
# Rules

`rules/models.py`, over the characters of the texts that the rules are for: a rules file is
read with lone surrogates, a request is planned without.
-/

namespace CorpLlmGateway.Rules

structure Rule (χ : Type) where
  pattern : List χ
  replacement : List χ
deriving DecidableEq, Repr

end CorpLlmGateway.Rules
