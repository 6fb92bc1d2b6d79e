import CorpLlmGateway.Json.Value

/-!
# Reading and writing JSON

`json.loads` and `json.dumps`. A text is read token by token by a machine that keeps the
lists and objects it is inside of on a stack; a value is written token by token.

* `loads_ok` — what is read has a text;
* `loads_render` — what is written is read back, with and without `ensure_ascii` and
  with either pair of separators.
-/

namespace Json

open Framing Numerals

variable {F : Type}

/-- What `loads` and `dumps` raise: `JSONDecodeError`, or the `ValueError` of an integer
with too many digits. -/
inductive Error where
  | jsonDecodeError
  | valueError
deriving DecidableEq, Repr

/-! ## Reading -/

/-- A list or an object that is still open around the place of the machine: the items
or fields before it, and the name of the field it is in. -/
inductive Frame (F : Type) where
  | item (done : List (Json F))
  | field (done : Fields F) (name : PyStr)

/-- What the machine expects next. -/
inductive State (F : Type) where
  | value (stack : List (Frame F))
  | arrStart (stack : List (Frame F))
  | objStart (stack : List (Frame F))
  | key (done : Fields F) (stack : List (Frame F))
  | colon (done : Fields F) (name : PyStr) (stack : List (Frame F))
  | after (v : Json F) (stack : List (Frame F))

section Reading

variable [Floats F]

/-- A token where a value is expected. -/
def valueStep (stack : List (Frame F)) : Tok → Except Error (State F)
  | .lbracket => .ok (.arrStart stack)
  | .lbrace => .ok (.objStart stack)
  | .str s => .ok (.after (.str s) stack)
  | .int l =>
      match parseInt l with
      | some n => .ok (.after (.int n) stack)
      | none => .error .valueError
  | .float l => .ok (.after (.float (Floats.ofLiteral l)) stack)
  | .bool b => .ok (.after (.bool b) stack)
  | .null => .ok (.after .null stack)
  | _ => .error .jsonDecodeError

/-- One token. -/
def step : State F → Tok → Except Error (State F)
  | st, .space => .ok st
  | .value stack, t => valueStep stack t
  | .arrStart stack, .rbracket => .ok (.after (.arr []) stack)
  | .arrStart stack, t => valueStep (.item [] :: stack) t
  | .objStart stack, .rbrace => .ok (.after (.obj []) stack)
  | .objStart stack, .str s => .ok (.colon [] s stack)
  | .key done stack, .str s => .ok (.colon done s stack)
  | .colon done name stack, .colon => .ok (.value (.field done name :: stack))
  | .after v (.item done :: stack), .comma => .ok (.value (.item (done ++ [v]) :: stack))
  | .after v (.item done :: stack), .rbracket => .ok (.after (.arr (done ++ [v])) stack)
  | .after v (.field done name :: stack), .comma => .ok (.key (done ++ [(name, v)]) stack)
  | .after v (.field done name :: stack), .rbrace =>
      .ok (.after (.obj (Fields.ofPairs (done ++ [(name, v)]))) stack)
  | _, _ => .error .jsonDecodeError

/-- Tokens one after the other. -/
def steps (st : State F) (toks : List Tok) : Except Error (State F) := toks.foldlM step st

/-- `json.loads(text)`. -/
def loads (text : PyStr) : Except Error (Json F) := do
  let st ← steps (.value []) (drain token text).1
  match (drain token text).2, st with
  | [], .after v [] => .ok v
  | _, _ => .error .jsonDecodeError

/-- How many lists and objects are open. -/
def State.depth : State F → ℕ
  | .value stack | .after _ stack => stack.length
  | .arrStart stack | .objStart stack | .key _ stack | .colon _ _ stack => stack.length + 1

/-- The most lists and objects that are open at once while the machine reads. -/
def deepest (st : State F) : List Tok → ℕ
  | [] => st.depth
  | t :: toks =>
      match step st t with
      | .error _ => st.depth
      | .ok st' => max st.depth (deepest st' toks)

/-- How deep `json.loads(text)` goes, up to the end or to an error. -/
def nesting (F : Type) [Floats F] (text : PyStr) : ℕ :=
  deepest (.value [] : State F) (drain token text).1

end Reading

/-! ## Writing -/

/-- The arguments of `dumps`: `ensure_ascii`, and whether the separators are `,` and `:`
without a space behind them. -/
structure Style where
  ascii : Bool
  compact : Bool

/-- What stands behind a separator. -/
def Style.gap (style : Style) : List Tok := if style.compact then [] else [.space]

section Writing

variable [Floats F] (style : Style)

mutual

/-- The tokens of a value. -/
def tokens : Json F → List Tok
  | .null => [.null]
  | .bool b => [.bool b]
  | .int n => [.int (intText n)]
  | .float f => [.float (Floats.repr f)]
  | .str s => [.str s]
  | .arr [] => [.lbracket, .rbracket]
  | .arr (x :: xs) => .lbracket :: (tokens x ++ moreItems xs)
  | .obj [] => [.lbrace, .rbrace]
  | .obj ((k, v) :: fs) =>
      .lbrace :: .str k :: .colon :: (style.gap ++ (tokens v ++ moreFields fs))

/-- The tokens of the items behind the first, and the end of the list. -/
def moreItems : List (Json F) → List Tok
  | [] => [.rbracket]
  | x :: xs => .comma :: (style.gap ++ (tokens x ++ moreItems xs))

/-- The tokens of the fields behind the first, and the end of the object. -/
def moreFields : List (PyStr × Json F) → List Tok
  | [] => [.rbrace]
  | (k, v) :: fs =>
      .comma :: (style.gap ++ (.str k :: .colon :: (style.gap ++ (tokens v ++ moreFields fs))))

end

/-- An integer of a value can be written. -/
def Tok.short : Tok → Bool
  | .int l => (parseInt l).isSome
  | _ => true

/-- The text of a value. -/
def render (j : Json F) : PyStr := (tokens style j).flatMap (Tok.text style.ascii)

/-- `json.dumps(j)` in a style. -/
def dumps (j : Json F) : Except Error PyStr :=
  if (tokens style j).all Tok.short then .ok (render style j) else .error .valueError

end Writing

/-! ## What is written is read back -/

section RoundTrip

variable [Floats F]

theorem steps_cons {a b : State F} {t : Tok} (h : step a t = .ok b) (us : List Tok) :
    steps a (t :: us) = steps b us := by
  rw [steps, List.foldlM_cons, h]
  rfl

theorem step_space (st : State F) : step st .space = .ok st := by
  cases st <;> rfl

/-- The machine passes over what stands behind a separator. -/
theorem steps_gap (style : Style) (st : State F) (us : List Tok) :
    steps st (style.gap ++ us) = steps st us := by
  unfold Style.gap
  split
  · rfl
  · exact steps_cons (step_space st) us

/-- A value starts with a token that neither ends a list nor is passed over. -/
theorem tokens_head (style : Style) (j : Json F) :
    ∃ t ts, tokens style j = t :: ts ∧ t ≠ .rbracket ∧ t ≠ .space := by
  cases j with
  | arr items => cases items <;> exact ⟨_, _, by rw [tokens], by simp, by simp⟩
  | obj fields => cases fields <;> exact ⟨_, _, by rw [tokens], by simp, by simp⟩
  | _ => exact ⟨_, _, by rw [tokens], by simp, by simp⟩

/-- The first item of a list is read like any other. -/
theorem step_arrStart {t : Tok} (ht : t ≠ .rbracket ∧ t ≠ .space) (stack : List (Frame F)) :
    step (.arrStart stack) t = step (.value (.item [] :: stack)) t := by
  cases t <;> first | rfl | simp at ht

theorem steps_arrStart (style : Style) (j : Json F) (stack : List (Frame F)) (us : List Tok) :
    steps (.arrStart stack) (tokens style j ++ us) =
      steps (.value (.item [] :: stack)) (tokens style j ++ us) := by
  obtain ⟨t, ts, htoks, ht⟩ := tokens_head style j
  rw [htoks, List.cons_append, steps, List.foldlM_cons, step_arrStart ht]
  rfl

/-- A value that is read back from where one is expected. -/
def ReadsBack (style : Style) (j : Json F) : Prop :=
  ∀ (stack : List (Frame F)) (us : List Tok),
    steps (.value stack) (tokens style j ++ us) = steps (.after j stack) us

variable {style : Style}

theorem steps_moreItems {xs : List (Json F)} (h : ∀ x ∈ xs, ReadsBack style x)
    (done : List (Json F)) (v : Json F) (stack : List (Frame F)) (us : List Tok) :
    steps (.after v (.item done :: stack)) (moreItems style xs ++ us) =
      steps (.after (.arr (done ++ v :: xs)) stack) us := by
  induction xs generalizing done v with
  | nil =>
    rw [moreItems]
    exact steps_cons rfl us
  | cons x xs ih =>
    rw [moreItems, List.cons_append, steps_cons (b := .value (.item (done ++ [v]) :: stack)) rfl,
      List.append_assoc, steps_gap, List.append_assoc, h x List.mem_cons_self,
      ih fun y hy => h y (List.mem_cons_of_mem _ hy)]
    simp

theorem steps_moreFields {fs : Fields F} (h : ∀ e ∈ fs, ReadsBack style e.2) (done : Fields F)
    (name : PyStr) (v : Json F) (stack : List (Frame F)) (us : List Tok) :
    steps (.after v (.field done name :: stack)) (moreFields style fs ++ us) =
      steps (.after (.obj (Fields.ofPairs (done ++ (name, v) :: fs))) stack) us := by
  induction fs generalizing done name v with
  | nil =>
    rw [moreFields]
    exact steps_cons rfl us
  | cons e fs ih =>
    obtain ⟨k, w⟩ := e
    rw [moreFields, List.cons_append, steps_cons (b := .key (done ++ [(name, v)]) stack) rfl,
      List.append_assoc, steps_gap, List.cons_append, steps_cons (b := .colon _ k stack) rfl,
      List.cons_append, steps_cons (b := .value (.field _ k :: stack)) rfl, List.append_assoc,
      steps_gap, List.append_assoc, h (k, w) List.mem_cons_self,
      ih fun y hy => h y (List.mem_cons_of_mem _ hy)]
    simp

/-! ### Integers -/

theorem toDigits_head {n : ℕ} (hn : n ≠ 0) :
    ∃ c s, Nat.toDigits 10 n = c :: s ∧ c ≠ '0' ∧ c.isDigit = true := by
  induction n using Nat.strong_induction_on with
  | _ n ih =>
    have hdigit : ∀ d, d < 10 → d ≠ 0 → d.digitChar ≠ '0' ∧ d.digitChar.isDigit = true := by
      decide
    by_cases hlt : n < 10
    · exact ⟨_, [], Nat.toDigits_of_lt_base hlt, (hdigit n hlt hn).1, (hdigit n hlt hn).2⟩
    · obtain ⟨c, s, hs, hc⟩ := ih (n / 10) (by omega) (by omega)
      refine ⟨c, s ++ [(n % 10).digitChar], ?_, hc⟩
      rw [Nat.toDigits_of_base_le (by omega) (by omega), hs]
      rfl

theorem digitRun_toDigits (n : ℕ) : digitRun (Nat.toDigits 10 n) = (Nat.toDigits 10 n).length := by
  rw [digitRun, List.takeWhile_eq_self_iff.mpr]
  exact fun c hc => Nat.isDigit_of_mem_toDigits (by omega) (by omega) hc

theorem intLen_toDigits (n : ℕ) : intLen (Nat.toDigits 10 n) = some (Nat.toDigits 10 n).length := by
  by_cases hn : n = 0
  · subst hn
    rfl
  · obtain ⟨c, s, hs, hc, hdigit⟩ := toDigits_head hn
    have hrun := digitRun_toDigits n
    rw [hs] at hrun ⊢
    rw [intLen, if_neg hc, if_pos hdigit, hrun]

theorem minusLen_toDigits (n : ℕ) : minusLen (Nat.toDigits 10 n) = 0 := by
  cases hs : Nat.toDigits 10 n with
  | nil => rfl
  | cons c s =>
    have hdigit : c.isDigit = true :=
      Nat.isDigit_of_mem_toDigits (by omega) (by omega) (hs ▸ List.mem_cons_self)
    exact if_neg (beq_digit hdigit '-' rfl).2

/-- The text of an integer is an integer literal. -/
theorem isIntLiteral_intText (n : ℤ) : IsIntLiteral (intText n) := by
  have hlen := intLen_toDigits n.natAbs
  unfold intText IsIntLiteral scanNumber
  split
  · simp [minusLen, hlen, fracLen, expLen, Nat.add_comm]
  · simp [minusLen_toDigits, hlen, fracLen, expLen]

/-! ### Values -/

/-- **Reading a written value**: in front of any tokens. -/
theorem readsBack (style : Style) {j : Json F} (hj : Ok j) : ReadsBack style j := by
  induction hj with
  | null => exact fun stack us => by rw [tokens]; exact steps_cons rfl us
  | bool b => exact fun stack us => by rw [tokens]; exact steps_cons rfl us
  | @int n h =>
    intro stack us
    rw [tokens]
    refine steps_cons ?_ us
    simp only [step, valueStep, parseInt_intText, if_pos h]
  | float f =>
    intro stack us
    rw [tokens]
    refine steps_cons ?_ us
    simp only [step, valueStep, Floats.ofLiteral_repr]
  | str s => exact fun stack us => by rw [tokens]; exact steps_cons rfl us
  | @arr items h ih =>
    intro stack us
    cases items with
    | nil =>
      rw [tokens]
      exact (steps_cons (b := .arrStart stack) rfl _).trans (steps_cons rfl us)
    | cons x xs =>
      rw [tokens, List.cons_append, steps_cons (b := .arrStart stack) rfl, List.append_assoc,
        steps_arrStart, ih x List.mem_cons_self,
        steps_moreItems fun y hy => ih y (List.mem_cons_of_mem _ hy)]
      rfl
  | @obj fields hkeys h ih =>
    intro stack us
    cases fields with
    | nil =>
      rw [tokens]
      exact (steps_cons (b := .objStart stack) rfl _).trans (steps_cons rfl us)
    | cons e fs =>
      obtain ⟨k, v⟩ := e
      rw [tokens, List.cons_append, steps_cons (b := .objStart stack) rfl, List.cons_append,
        steps_cons (b := .colon [] k stack) rfl, List.cons_append,
        steps_cons (b := .value (.field [] k :: stack)) rfl, List.append_assoc, steps_gap,
        List.append_assoc, ih (k, v) List.mem_cons_self,
        steps_moreFields fun y hy => ih y (List.mem_cons_of_mem _ hy), List.nil_append,
        Fields.ofPairs_eq_self hkeys]

/-! ### Tokens of a value -/

/-- No two numbers side by side. -/
abbrev Apart (ts : List Tok) : Prop :=
  ts.IsChain fun t t' => t.isNumber = true → t'.isNumber = false

theorem Apart.cons {t : Tok} {ts : List Tok} (ht : t.isNumber = false) (h : Apart ts) :
    Apart (t :: ts) := by
  cases ts with
  | nil => exact List.IsChain.singleton _
  | cons t' ts => exact List.isChain_cons_cons.mpr ⟨by simp [ht], h⟩

/-- A list of tokens behind which a token may stand that is not a number. -/
theorem Apart.append {ts us : List Tok} (hts : Apart ts) (hus : Apart us)
    (hhead : ∀ u, us.head? = some u → u.isNumber = false) : Apart (ts ++ us) :=
  List.isChain_append.mpr ⟨hts, hus, fun _ _ u hu _ => hhead u hu⟩

/-- Every token is read back, and no two numbers stand side by side. -/
structure Lexical (ts : List Tok) : Prop where
  ok : ∀ t ∈ ts, t.Ok
  apart : Apart ts

theorem Lexical.cons {t : Tok} {ts : List Tok} (ht : t.isNumber = false ∧ t.Ok) (h : Lexical ts) :
    Lexical (t :: ts) := by
  refine ⟨fun u hu => ?_, h.apart.cons ht.1⟩
  rcases List.mem_cons.mp hu with rfl | hu
  · exact ht.2
  · exact h.ok u hu

theorem Lexical.gap {ts : List Tok} (h : Lexical ts) : Lexical (style.gap ++ ts) := by
  unfold Style.gap
  split
  · exact h
  · exact h.cons ⟨rfl, trivial⟩

theorem Lexical.append {ts us : List Tok} (hts : Lexical ts) (hus : Lexical us)
    (hhead : ∀ u, us.head? = some u → u.isNumber = false) : Lexical (ts ++ us) := by
  refine ⟨fun u hu => ?_, hts.apart.append hus.apart hhead⟩
  rcases List.mem_append.mp hu with hu | hu
  · exact hts.ok u hu
  · exact hus.ok u hu

theorem Lexical.one {t : Tok} (ht : t.Ok) : Lexical [t] :=
  ⟨by simpa using ht, List.IsChain.singleton _⟩

theorem lexical_moreItems {xs : List (Json F)} (h : ∀ x ∈ xs, Lexical (tokens style x)) :
    Lexical (moreItems style xs) ∧
      ∀ u, (moreItems style xs).head? = some u → u.isNumber = false := by
  induction xs with
  | nil => exact ⟨by rw [moreItems]; exact .one trivial, by simp [moreItems, Tok.isNumber]⟩
  | cons x xs ih =>
    obtain ⟨hrest, hhead⟩ := ih fun y hy => h y (List.mem_cons_of_mem _ hy)
    rw [moreItems]
    refine ⟨.cons ⟨rfl, trivial⟩ (.gap ((h x List.mem_cons_self).append hrest hhead)), ?_⟩
    simp [Tok.isNumber]

theorem lexical_moreFields {fs : Fields F} (h : ∀ e ∈ fs, Lexical (tokens style e.2)) :
    Lexical (moreFields style fs) ∧
      ∀ u, (moreFields style fs).head? = some u → u.isNumber = false := by
  induction fs with
  | nil => exact ⟨by rw [moreFields]; exact .one trivial, by simp [moreFields, Tok.isNumber]⟩
  | cons e fs ih =>
    obtain ⟨k, v⟩ := e
    obtain ⟨hrest, hhead⟩ := ih fun y hy => h y (List.mem_cons_of_mem _ hy)
    have hvalue := (h (k, v) List.mem_cons_self).append hrest hhead
    rw [moreFields]
    refine ⟨.cons ⟨rfl, trivial⟩ (.gap (.cons ⟨rfl, trivial⟩ (.cons ⟨rfl, trivial⟩
      (.gap hvalue)))), ?_⟩
    simp [Tok.isNumber]

/-- The tokens of every value. -/
theorem lexical_tokens (style : Style) (j : Json F) : Lexical (tokens style j) := by
  induction j using Json.induct with
  | null => rw [tokens]; exact .one trivial
  | bool b => rw [tokens]; exact .one trivial
  | int n => rw [tokens]; exact .one (isIntLiteral_intText n)
  | float f => rw [tokens]; exact .one (Floats.isFloatLiteral_repr f)
  | str s => rw [tokens]; exact .one trivial
  | arr items ih =>
    cases items with
    | nil => rw [tokens]; exact .cons ⟨rfl, trivial⟩ (.one trivial)
    | cons x xs =>
      obtain ⟨hrest, hhead⟩ := lexical_moreItems fun y hy => ih y (List.mem_cons_of_mem _ hy)
      rw [tokens]
      exact .cons ⟨rfl, trivial⟩ ((ih x List.mem_cons_self).append hrest hhead)
  | obj fields ih =>
    cases fields with
    | nil => rw [tokens]; exact .cons ⟨rfl, trivial⟩ (.one trivial)
    | cons e fs =>
      obtain ⟨k, v⟩ := e
      obtain ⟨hrest, hhead⟩ := lexical_moreFields fun y hy => ih y (List.mem_cons_of_mem _ hy)
      rw [tokens]
      exact .cons ⟨rfl, trivial⟩ (.cons ⟨rfl, trivial⟩ (.cons ⟨rfl, trivial⟩
        (.gap ((ih (k, v) List.mem_cons_self).append hrest hhead))))

/-! ### Strings of a value -/

theorem writable_gap : ∀ t ∈ style.gap, t.Writable style.ascii := by
  unfold Style.gap
  split <;> simp [Tok.Writable]

theorem writable_moreItems {xs : List (Json F)}
    (h : ∀ x ∈ xs, ∀ t ∈ tokens style x, t.Writable style.ascii) :
    ∀ t ∈ moreItems style xs, t.Writable style.ascii := by
  induction xs with
  | nil => simp [moreItems, Tok.Writable]
  | cons x xs ih =>
    obtain ⟨hx, hxs⟩ := List.forall_mem_cons.mp h
    simp only [moreItems, List.forall_mem_cons, List.forall_mem_append]
    exact ⟨trivial, writable_gap, hx, ih hxs⟩

theorem writable_moreFields {fs : Fields F} (hkeys : ∀ e ∈ fs, Writable style.ascii e.1)
    (h : ∀ e ∈ fs, ∀ t ∈ tokens style e.2, t.Writable style.ascii) :
    ∀ t ∈ moreFields style fs, t.Writable style.ascii := by
  induction fs with
  | nil => simp [moreFields, Tok.Writable]
  | cons e fs ih =>
    obtain ⟨hk, hks⟩ := List.forall_mem_cons.mp hkeys
    obtain ⟨hv, hvs⟩ := List.forall_mem_cons.mp h
    simp only [moreFields, List.forall_mem_cons, List.forall_mem_append]
    exact ⟨trivial, writable_gap, hk, trivial, writable_gap, hv, ih hks hvs⟩

/-- With `ensure_ascii`, lone surrogates would run together. -/
theorem writable_tokens {j : Json F} (h : style.ascii = true → j.Scalar) :
    ∀ t ∈ tokens style j, t.Writable style.ascii := by
  induction j using Json.induct with
  | null => simp [tokens, Tok.Writable]
  | bool b => simp [tokens, Tok.Writable]
  | int n => simp [tokens, Tok.Writable]
  | float f => simp [tokens, Tok.Writable]
  | str s =>
    simp only [tokens, List.forall_mem_singleton]
    exact fun hascii => (h hascii).string
  | arr items ih =>
    have hitems : ∀ x ∈ items, ∀ t ∈ tokens style x, t.Writable style.ascii :=
      fun x hx => ih x hx fun hascii => (h hascii).items x hx
    cases items with
    | nil => simp [tokens, Tok.Writable]
    | cons x xs =>
      obtain ⟨hx, hxs⟩ := List.forall_mem_cons.mp hitems
      simp only [tokens, List.forall_mem_cons, List.forall_mem_append]
      exact ⟨trivial, hx, writable_moreItems hxs⟩
  | obj fields ih =>
    have hvalues : ∀ e ∈ fields, ∀ t ∈ tokens style e.2, t.Writable style.ascii :=
      fun e he => ih e he fun hascii => (h hascii).fields e he
    have hkeys : ∀ e ∈ fields, Writable style.ascii e.1 :=
      fun e he hascii => (h hascii).keys e he
    cases fields with
    | nil => simp [tokens, Tok.Writable]
    | cons e fs =>
      obtain ⟨hv, hvs⟩ := List.forall_mem_cons.mp hvalues
      obtain ⟨hk, hks⟩ := List.forall_mem_cons.mp hkeys
      simp only [tokens, List.forall_mem_cons, List.forall_mem_append]
      exact ⟨trivial, hk, trivial, writable_gap, hv, writable_moreFields hks hvs⟩

/-- **Round trip**: the text of a value is read back as the value. -/
theorem loads_render (style : Style) {j : Json F} (hj : Ok j)
    (hascii : style.ascii = true → j.Scalar) : loads (render style j) = .ok j := by
  have hlex := lexical_tokens style j
  have hsteps := readsBack style hj [] []
  rw [List.append_nil] at hsteps
  rw [loads, render, lex_text hlex.ok (writable_tokens hascii) hlex.apart, hsteps]
  rfl

/-- Reading goes as deep as the tokens that were written. -/
theorem nesting_render (style : Style) {j : Json F} (hascii : style.ascii = true → j.Scalar) :
    nesting F (render style j) = deepest (.value [] : State F) (tokens style j) := by
  have hlex := lexical_tokens style j
  rw [nesting, render, lex_text hlex.ok (writable_tokens hascii) hlex.apart]

/-- A value is written without control characters. -/
theorem printable_render (style : Style) (j : Json F) : ∀ c ∈ render style j, Printable c := by
  intro c hc
  obtain ⟨t, ht, hc⟩ := List.mem_flatMap.mp hc
  exact printable_text style.ascii ((lexical_tokens style j).ok t ht) c hc

/-- A space in front of a text does not count. -/
theorem loads_space (s : PyStr) :
    (loads (.scalar ' ' :: s) : Except Error (Json F)) = loads s := by
  have htoken : token (.scalar ' ' :: s) = some (.space, 1) := rfl
  rw [loads, drain_of_some token_proper htoken, steps_cons (step_space _)]
  rfl

theorem loads_dropWhile_space (s : PyStr) :
    (loads (s.dropWhile (· == .scalar ' ')) : Except Error (Json F)) = loads s := by
  induction s with
  | nil => rfl
  | cons c s ih =>
    by_cases hc : c = .scalar ' '
    · subst hc
      rw [List.dropWhile_cons_of_pos rfl, ih, loads_space]
    · rw [List.dropWhile_cons_of_neg (by simpa using hc)]

/-! ### What can be written -/

theorem short_gap : style.gap.all Tok.short = true := by
  unfold Style.gap
  split <;> rfl

theorem short_moreItems {xs : List (Json F)}
    (h : ∀ x ∈ xs, (tokens style x).all Tok.short = true) :
    (moreItems style xs).all Tok.short = true := by
  induction xs with
  | nil => rw [moreItems]; rfl
  | cons x xs ih =>
    simp only [moreItems, List.all_cons, List.all_append, short_gap, h x List.mem_cons_self,
      ih fun y hy => h y (List.mem_cons_of_mem _ hy)]
    rfl

theorem short_moreFields {fs : Fields F}
    (h : ∀ e ∈ fs, (tokens style e.2).all Tok.short = true) :
    (moreFields style fs).all Tok.short = true := by
  induction fs with
  | nil => rw [moreFields]; rfl
  | cons e fs ih =>
    obtain ⟨k, v⟩ := e
    simp only [moreFields, List.all_cons, List.all_append, short_gap, h (k, v) List.mem_cons_self,
      ih fun y hy => h y (List.mem_cons_of_mem _ hy)]
    rfl

theorem short_tokens (style : Style) {j : Json F} (hj : Ok j) :
    (tokens style j).all Tok.short = true := by
  induction hj with
  | null => rw [tokens]; rfl
  | bool b => rw [tokens]; rfl
  | int h => simp [tokens, Tok.short, parseInt_intText, h]
  | float f => rw [tokens]; rfl
  | str s => rw [tokens]; rfl
  | @arr items h ih =>
    cases items with
    | nil => rw [tokens]; rfl
    | cons x xs =>
      simp only [tokens, List.all_cons, List.all_append, ih x List.mem_cons_self,
        short_moreItems fun y hy => ih y (List.mem_cons_of_mem _ hy)]
      rfl
  | @obj fields hkeys h ih =>
    cases fields with
    | nil => rw [tokens]; rfl
    | cons e fs =>
      obtain ⟨k, v⟩ := e
      simp only [tokens, List.all_cons, List.all_append, short_gap, ih (k, v) List.mem_cons_self,
        short_moreFields fun y hy => ih y (List.mem_cons_of_mem _ hy)]
      rfl

/-- A value with a text is written. -/
theorem dumps_eq (style : Style) {j : Json F} (hj : Ok j) :
    dumps style j = .ok (render style j) := if_pos (short_tokens style hj)

end RoundTrip

/-! ## What is read has a text -/

section Reading

variable [Floats F]

/-- An open list or object around the machine that only holds values with a text. -/
def Frame.Ok : Frame F → Prop
  | .item done => ∀ x ∈ done, x.Ok
  | .field done _ => ∀ e ∈ done, e.2.Ok

/-- The values the machine holds have a text. -/
def State.Ok : State F → Prop
  | .value stack | .arrStart stack | .objStart stack => ∀ f ∈ stack, f.Ok
  | .key done stack | .colon done _ stack => (∀ e ∈ done, e.2.Ok) ∧ ∀ f ∈ stack, f.Ok
  | .after v stack => v.Ok ∧ ∀ f ∈ stack, f.Ok

theorem valueStep_ok {stack : List (Frame F)} {t : Tok} {st : State F}
    (h : valueStep stack t = .ok st) (hstack : ∀ f ∈ stack, f.Ok) : st.Ok := by
  cases t with
  | int l =>
    simp only [valueStep] at h
    split at h
    · next n hn =>
      cases h
      exact ⟨.int (shortInt_of_parseInt hn), hstack⟩
    · cases h
  | lbracket => cases h; exact hstack
  | lbrace => cases h; exact hstack
  | str s => cases h; exact ⟨.str s, hstack⟩
  | float l => cases h; exact ⟨.float _, hstack⟩
  | bool b => cases h; exact ⟨.bool b, hstack⟩
  | null => cases h; exact ⟨.null, hstack⟩
  | _ => cases h

omit [Floats F] in
theorem Ok.ofPairs {pairs : Fields F} (h : ∀ e ∈ pairs, e.2.Ok) :
    Json.Ok (.obj (Fields.ofPairs pairs)) := Ok.empty.update h

/-- One token keeps it so. -/
theorem step_ok {st st' : State F} {t : Tok} (h : step st t = .ok st') (hst : st.Ok) :
    st'.Ok := by
  unfold step at h
  split at h
  · cases h
    exact hst
  · exact valueStep_ok h hst
  · cases h
    exact ⟨.arr (by simp), hst⟩
  · refine valueStep_ok h fun f hf => ?_
    rcases List.mem_cons.mp hf with rfl | hf
    · simp [Frame.Ok]
    · exact hst f hf
  · cases h
    exact ⟨.empty, hst⟩
  · cases h
    exact ⟨by simp, hst⟩
  · cases h
    exact hst
  · cases h
    exact List.forall_mem_cons.mpr hst
  · cases h
    obtain ⟨hv, hstack⟩ := hst
    obtain ⟨hdone, hstack⟩ := List.forall_mem_cons.mp hstack
    exact List.forall_mem_cons.mpr ⟨List.forall_mem_append.mpr ⟨hdone, by simpa using hv⟩, hstack⟩
  · cases h
    obtain ⟨hv, hstack⟩ := hst
    obtain ⟨hdone, hstack⟩ := List.forall_mem_cons.mp hstack
    exact ⟨.arr (List.forall_mem_append.mpr ⟨hdone, by simpa using hv⟩), hstack⟩
  · cases h
    obtain ⟨hv, hstack⟩ := hst
    obtain ⟨hdone, hstack⟩ := List.forall_mem_cons.mp hstack
    exact ⟨List.forall_mem_append.mpr ⟨hdone, by simpa using hv⟩, hstack⟩
  · cases h
    obtain ⟨hv, hstack⟩ := hst
    obtain ⟨hdone, hstack⟩ := List.forall_mem_cons.mp hstack
    exact ⟨.ofPairs (List.forall_mem_append.mpr ⟨hdone, by simpa using hv⟩), hstack⟩
  · cases h

/-- What each step keeps, a run keeps. -/
theorem steps_invariant {Q : State F → Prop} {st st' : State F} {ts : List Tok}
    (hkeep : ∀ t ∈ ts, ∀ st st', step st t = .ok st' → Q st → Q st')
    (h : steps st ts = .ok st') (hst : Q st) : Q st' := by
  induction ts generalizing st with
  | nil =>
    cases h
    exact hst
  | cons t ts ih =>
    cases hstep : step st t with
    | error e =>
      rw [steps, List.foldlM_cons, hstep] at h
      cases h
    | ok next =>
      rw [steps_cons hstep] at h
      rw [List.forall_mem_cons] at hkeep
      exact ih hkeep.2 h (hkeep.1 st next hstep hst)

theorem steps_ok {st st' : State F} {ts : List Tok} (h : steps st ts = .ok st') (hst : st.Ok) :
    st'.Ok :=
  steps_invariant (fun _ _ _ _ hstep hst => step_ok hstep hst) h hst

/-- What `loads` returns has a text. -/
theorem loads_ok {text : PyStr} {j : Json F} (h : loads text = .ok j) : j.Ok := by
  unfold loads at h
  cases hsteps : steps (.value ([] : List (Frame F))) (drain token text).1 with
  | error e =>
    rw [hsteps] at h
    cases h
  | ok st =>
    have hok := steps_ok hsteps (by simp [State.Ok])
    rw [hsteps] at h
    simp only [bind, Except.bind] at h
    split at h
    · cases h
      exact hok.1
    · cases h

end Reading

end Json
