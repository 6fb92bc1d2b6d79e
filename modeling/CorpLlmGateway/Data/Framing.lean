import Mathlib.Data.List.Basic
import Mathlib.Data.Nat.Init

/-!
# Reading items from a stream that arrives in pieces

A reader takes the next item off the front of a buffer, or waits for more. It is stable
when more input never changes an item that it has already seen whole. Draining the
buffer after each piece then gives the items of the whole stream, however it was cut.

* `drain_append` — draining a buffer, then the rest with more input;
* `consume_append` — the same for a consumer with a state, which emits and may fail;
* `pipeAll_eq` — a decoder in front of a consumer: what they emit, and whether they fail,
  does not depend on how the stream is cut.
-/

namespace Framing

variable {α β γ δ σ ε : Type}

/-- The next item and how much of the buffer it takes. -/
abbrev Reader (α β : Type) := List α → Option (β × ℕ)

/-- An item takes something, and nothing past the end. -/
structure Reader.Proper (r : Reader α β) : Prop where
  pos : ∀ {s x n}, r s = some (x, n) → 0 < n
  le : ∀ {s x n}, r s = some (x, n) → n ≤ s.length

/-- An item that has been read stays what it is when more input follows. -/
structure Reader.Stable (r : Reader α β) : Prop extends r.Proper where
  append : ∀ {s x n}, r s = some (x, n) → ∀ t, r (s ++ t) = some (x, n)

/-! ## Draining -/

/-- At most `fuel` items off the front. -/
def drainFuel (r : Reader α β) : ℕ → List α → List β × List α
  | 0, s => ([], s)
  | fuel + 1, s =>
      match r s with
      | none => ([], s)
      | some (x, n) => (x :: (drainFuel r fuel (s.drop n)).1, (drainFuel r fuel (s.drop n)).2)

/-- Every item of a buffer, and the rest. -/
def drain (r : Reader α β) (s : List α) : List β × List α := drainFuel r s.length s

section Drain

variable {r : Reader α β} (hr : r.Proper)

include hr

/-- An item is read only from a buffer that is not empty. -/
theorem drop_lt {s : List α} {x : β} {n : ℕ} (h : r s = some (x, n)) :
    (s.drop n).length < s.length := by
  have hpos := hr.pos h
  have hle := hr.le h
  simp only [List.length_drop]
  omega

theorem drainFuel_eq {fuel fuel' : ℕ} {s : List α} (h : s.length ≤ fuel) (h' : s.length ≤ fuel') :
    drainFuel r fuel s = drainFuel r fuel' s := by
  induction fuel generalizing fuel' s with
  | zero =>
    cases fuel' with
    | zero => rfl
    | succ fuel' =>
      cases hs : r s with
      | none => simp [drainFuel, hs]
      | some p => exact absurd (drop_lt hr (x := p.1) (n := p.2) hs) (by omega)
  | succ fuel ih =>
    cases hs : r s with
    | none => cases fuel' <;> simp [drainFuel, hs]
    | some p =>
      have hlt := drop_lt hr (x := p.1) (n := p.2) hs
      cases fuel' with
      | zero => omega
      | succ fuel' =>
        have hdrop : drainFuel r fuel (s.drop p.2) = drainFuel r fuel' (s.drop p.2) :=
          ih (by omega) (by omega)
        simp only [drainFuel, hs, hdrop]

theorem drain_of_none {s : List α} (h : r s = none) : drain r s = ([], s) := by
  rw [drain, drainFuel_eq hr (Nat.le_refl _) (Nat.le_succ _), drainFuel, h]

theorem drain_of_some {s : List α} {x : β} {n : ℕ} (h : r s = some (x, n)) :
    drain r s = (x :: (drain r (s.drop n)).1, (drain r (s.drop n)).2) := by
  have hlt := drop_lt hr h
  rw [drain, drainFuel_eq hr (Nat.le_refl _) (Nat.le_succ _), drainFuel, h]
  simp only [drain, drainFuel_eq hr (Nat.le_of_lt hlt) (Nat.le_refl _)]

/-- What is left over holds no item. -/
theorem drain_rest (s : List α) : r (drain r s).2 = none := by
  induction hlen : s.length using Nat.strong_induction_on generalizing s with
  | _ len ih =>
    cases hs : r s with
    | none => rwa [drain_of_none hr hs]
    | some p =>
      rw [drain_of_some hr (x := p.1) (n := p.2) hs]
      exact ih _ (hlen ▸ drop_lt hr (x := p.1) (n := p.2) hs) _ rfl

/-- The buffer is the pieces that the items were read from, and the rest. -/
theorem drain_pieces (s : List α) :
    ∃ pieces : List (List α), s = pieces.flatten ++ (drain r s).2 ∧
      List.Forall₂ (fun x piece => ∃ t, r (piece ++ t) = some (x, piece.length)) (drain r s).1
        pieces := by
  induction hlen : s.length using Nat.strong_induction_on generalizing s with
  | _ len ih =>
    cases hs : r s with
    | none =>
      rw [drain_of_none hr hs]
      exact ⟨[], rfl, .nil⟩
    | some p =>
      obtain ⟨x, n⟩ := p
      obtain ⟨pieces, hpieces, hread⟩ := ih _ (hlen ▸ drop_lt hr hs) _ rfl
      have hpiece : (s.take n).length = n := List.length_take_of_le (hr.le hs)
      rw [drain_of_some hr hs]
      refine ⟨s.take n :: pieces, ?_, .cons ⟨s.drop n, ?_⟩ hread⟩
      · rw [List.flatten_cons, List.append_assoc, ← hpieces, List.take_append_drop]
      · rw [List.take_append_drop, hpiece, hs]

end Drain

section Pieces

variable {r : Reader α β} (hr : r.Stable)

include hr

/-- Draining in two goes. -/
theorem drain_append (s t : List α) :
    drain r (s ++ t) =
      ((drain r s).1 ++ (drain r ((drain r s).2 ++ t)).1, (drain r ((drain r s).2 ++ t)).2) := by
  induction hlen : s.length using Nat.strong_induction_on generalizing s with
  | _ len ih =>
    cases hs : r s with
    | none => simp [drain_of_none hr.toProper hs]
    | some p =>
      obtain ⟨x, n⟩ := p
      -- the item is still there with more behind it
      rw [drain_of_some hr.toProper (hr.append hs t), List.drop_append_of_le_length (hr.le hs),
        ih _ (hlen ▸ drop_lt hr.toProper hs) _ rfl, drain_of_some hr.toProper hs]
      rfl

end Pieces

/-! ## Consuming -/

/-- Hand items to a consumer one by one: all that it emits, and its state. -/
def feedList (f : σ → β → Except ε (List γ × σ)) : σ → List β → Except ε (List γ × σ)
  | st, [] => .ok ([], st)
  | st, x :: xs => do
      let (out, st) ← f st x
      let (outs, st) ← feedList f st xs
      .ok (out ++ outs, st)

/-- At most `fuel` items off the front, each handed to the consumer as soon as it is read. -/
def consumeFuel (r : Reader α β) (f : σ → β → Except ε (List γ × σ)) :
    ℕ → List α → σ → Except ε (List γ × List α × σ)
  | 0, s, st => .ok ([], s, st)
  | fuel + 1, s, st =>
      match r s with
      | none => .ok ([], s, st)
      | some (x, n) => do
          let (out, st) ← f st x
          let (outs, rest, st) ← consumeFuel r f fuel (s.drop n) st
          .ok (out ++ outs, rest, st)

/-- Consume the items of a buffer: what is emitted, the rest, and the consumer's state. -/
def consume (r : Reader α β) (f : σ → β → Except ε (List γ × σ)) (s : List α) (st : σ) :
    Except ε (List γ × List α × σ) :=
  consumeFuel r f s.length s st

section Consume

variable {r : Reader α β} {f : σ → β → Except ε (List γ × σ)}

theorem feedList_append (st : σ) (xs ys : List β) :
    feedList f st (xs ++ ys) =
      (feedList f st xs).bind fun p =>
        (feedList f p.2 ys).map fun q => (p.1 ++ q.1, q.2) := by
  induction xs generalizing st with
  | nil =>
    simp only [List.nil_append, feedList, Except.bind]
    cases feedList f st ys <;> rfl
  | cons x xs ih =>
    simp only [List.cons_append, feedList, bind, Except.bind, ih]
    cases f st x with
    | error e => rfl
    | ok p =>
      simp only
      cases feedList f p.2 xs with
      | error e => rfl
      | ok q =>
        simp only
        cases feedList f q.2 ys <;> simp [Except.map]

theorem consumeFuel_eq (fuel : ℕ) (s : List α) (st : σ) :
    consumeFuel r f fuel s st =
      (feedList f st (drainFuel r fuel s).1).map fun p => (p.1, (drainFuel r fuel s).2, p.2) := by
  induction fuel generalizing s st with
  | zero => rfl
  | succ fuel ih =>
    cases hs : r s with
    | none =>
      simp only [consumeFuel, drainFuel, hs]
      rfl
    | some p =>
      simp only [consumeFuel, drainFuel, hs, feedList, bind, Except.bind, ih]
      cases f st p.1 with
      | error e => rfl
      | ok q =>
        simp only
        cases feedList f q.2 (drainFuel r fuel (s.drop p.2)).1 <;> rfl

/-- A consumer sees the items in their order. -/
theorem consume_eq (s : List α) (st : σ) :
    consume r f s st =
      (feedList f st (drain r s).1).map fun p => (p.1, (drain r s).2, p.2) :=
  consumeFuel_eq s.length s st

/-- Consuming in two goes. -/
theorem consume_append (hr : r.Stable) (s t : List α) (st : σ) :
    consume r f (s ++ t) st =
      (consume r f s st).bind fun p =>
        (consume r f (p.2.1 ++ t) p.2.2).map fun q => (p.1 ++ q.1, q.2) := by
  simp only [consume_eq, drain_append hr s t, feedList_append]
  cases feedList f st (drain r s).1 with
  | error e => rfl
  | ok p =>
    simp only [Except.map, Except.bind]
    cases feedList f p.2 (drain r ((drain r s).2 ++ t)).1 <;> rfl

/-- What is left over holds no item. -/
theorem consume_rest (hr : r.Proper) {s rest : List α} {st st' : σ} {out : List γ}
    (h : consume r f s st = .ok (out, rest, st')) : r rest = none := by
  rw [consume_eq] at h
  cases hf : feedList f st (drain r s).1 with
  | error e => simp [hf, Except.map] at h
  | ok p =>
    simp only [hf, Except.map, Except.ok.injEq, Prod.mk.injEq] at h
    exact h.2.1 ▸ drain_rest hr s

theorem consume_of_none (hr : r.Proper) {s : List α} (h : r s = none) (st : σ) :
    consume r f s st = .ok ([], s, st) := by
  rw [consume_eq, drain_of_none hr h]
  rfl

end Consume

/-! ## Consumers that emit the same -/

/-- Two results that are alike: two errors, or outputs that are the same in a common form
and states that are related. -/
inductive Alike {γ' τ ω : Type} (R : σ → τ → Prop) (h : γ → List ω) (h' : γ' → List ω) :
    Except ε (List γ × σ) → Except ε (List γ' × τ) → Prop
  | error (e e' : ε) : Alike R h h' (.error e) (.error e')
  | ok {a : List γ} {b : List γ'} {s : σ} {t : τ} (hout : a.flatMap h = b.flatMap h')
      (hstate : R s t) : Alike R h h' (.ok (a, s)) (.ok (b, t))

section Alike

variable {γ' τ ω β' : Type} {R : σ → τ → Prop} {h : γ → List ω} {h' : γ' → List ω}

theorem Alike.map {x : Except ε (List γ × σ)} {y : Except ε (List γ' × τ)}
    (hxy : Alike R h h' x y) :
    (x.map fun p => p.1.flatMap h).toOption = (y.map fun p => p.1.flatMap h').toOption := by
  cases hxy with
  | error e e' => rfl
  | ok hout hstate => simp [Except.map, hout]

/-- Alike so far and alike from there on. -/
theorem Alike.bind {x : Except ε (List γ × σ)} {y : Except ε (List γ' × τ)}
    {f : σ → Except ε (List γ × σ)} {g : τ → Except ε (List γ' × τ)} (hxy : Alike R h h' x y)
    (hfg : ∀ s t, R s t → Alike R h h' (f s) (g t)) :
    Alike R h h' (x.bind fun p => (f p.2).map fun q => (p.1 ++ q.1, q.2))
      (y.bind fun p => (g p.2).map fun q => (p.1 ++ q.1, q.2)) := by
  cases hxy with
  | error e e' => exact .error e e'
  | @ok a b s t hout hstate =>
    have hnext := hfg s t hstate
    simp only [Except.bind]
    generalize f s = x' at hnext ⊢
    generalize g t = y' at hnext ⊢
    cases hnext with
    | error e e' => exact .error e e'
    | ok hout' hstate' => exact .ok (by simp [hout, hout']) hstate'

theorem feedList_cons (f : σ → β → Except ε (List γ × σ)) (st : σ) (x : β) (xs : List β) :
    feedList f st (x :: xs) =
      (f st x).bind fun p => (feedList f p.2 xs).map fun q => (p.1 ++ q.1, q.2) := by
  simp only [feedList, bind]
  cases f st x with
  | error e => rfl
  | ok p =>
    simp only [Except.bind]
    cases feedList f p.2 xs <;> rfl

/-- Consumers whose steps are alike emit the same over a whole list. -/
theorem feedList_alike {f : σ → β → Except ε (List γ × σ)}
    {g : τ → β' → Except ε (List γ' × τ)} {k : β' → β}
    (hstep : ∀ s t x, R s t → Alike R h h' (f s (k x)) (g t x)) {s : σ} {t : τ} (hst : R s t)
    (xs : List β') : Alike R h h' (feedList f s (xs.map k)) (feedList g t xs) := by
  induction xs generalizing s t with
  | nil => exact .ok rfl hst
  | cons x xs ih =>
    rw [List.map_cons, feedList_cons, feedList_cons]
    exact (hstep s t x hst).bind fun s' t' h' => ih h'

end Alike

/-! ## A consumer behind a translation -/

section Through

variable {γ' τ : Type} {f : σ → β → Except ε (List γ × σ)} {g : τ → β → Except ε (List γ' × τ)}
  (enc : List γ → Option (List γ')) {st : σ → τ}

theorem toOption_bind {α β : Type} (x : Except ε α) (k : α → Except ε β) :
    (x.bind k).toOption = x.toOption.bind fun a => (k a).toOption := by
  cases x <;> rfl

theorem toOption_map {α β : Type} (x : Except ε α) (k : α → β) :
    (x.map k).toOption = x.toOption.map k := by
  cases x <;> rfl

/-- A consumer that translates what another one emits, piece by piece, translates all of
it; or one of them fails. -/
theorem feedList_through (hnil : enc [] = some [])
    (happend : ∀ a b, enc (a ++ b) = (enc a).bind fun x => (enc b).map (x ++ ·))
    (hstep : ∀ s x, (g (st s) x).toOption =
      (f s x).toOption.bind fun p => (enc p.1).map fun out => (out, st p.2))
    (s : σ) (xs : List β) :
    (feedList g (st s) xs).toOption =
      (feedList f s xs).toOption.bind fun p => (enc p.1).map fun out => (out, st p.2) := by
  induction xs generalizing s with
  | nil => simp [feedList, Except.toOption, hnil]
  | cons x xs ih =>
    rw [feedList_cons, feedList_cons, toOption_bind, toOption_bind, hstep]
    simp only [toOption_map]
    cases (f s x).toOption with
    | none => rfl
    | some p =>
      simp only [Option.bind_some]
      cases henc : enc p.1 with
      | none =>
        -- the first piece alone has no translation
        cases (feedList f p.2 xs).toOption <;> simp [happend, henc]
      | some out =>
        simp only [Option.map_some, Option.bind_some, ih]
        cases (feedList f p.2 xs).toOption with
        | none => rfl
        | some q => cases henc' : enc q.1 <;> simp [happend, henc, henc']

end Through

/-! ## A decoder in front of a consumer -/

/-- What a decoder holds, what the consumer's buffer holds, and the consumer's state. -/
structure Pipe (α β σ : Type) where
  held : List α
  buffer : List β
  state : σ

section Pipe

variable (d : Reader α β) (r : Reader β δ) (f : σ → δ → Except ε (List γ × σ))

/-- One piece of the stream. -/
def pipeFeed (p : Pipe α β σ) (piece : List α) : Except ε (List γ × Pipe α β σ) := do
  let decoded := drain d (p.held ++ piece)
  let (out, buffer, state) ← consume r f (p.buffer ++ decoded.1) p.state
  .ok (out, ⟨decoded.2, buffer, state⟩)

/-- All pieces, one after the other. -/
def pipeAll : Pipe α β σ → List (List α) → Except ε (List γ × Pipe α β σ) :=
  feedList (pipeFeed d r f)

variable {d r f}

/-- A pipe whose decoder and whose buffer wait for more. -/
structure Pipe.Waiting (d : Reader α β) (r : Reader β δ) (p : Pipe α β σ) : Prop where
  held : d p.held = none
  buffer : r p.buffer = none

/-- **The cut does not matter**: pieces are the same as the whole stream at once. -/
theorem pipeAll_eq (hd : d.Stable) (hr : r.Stable) {p : Pipe α β σ} (hp : p.Waiting d r)
    (pieces : List (List α)) :
    pipeAll d r f p pieces = pipeFeed d r f p pieces.flatten := by
  induction pieces generalizing p with
  | nil =>
    simp only [pipeAll, feedList, pipeFeed, List.flatten_nil, List.append_nil,
      drain_of_none hd.toProper hp.held, consume_of_none hr.toProper hp.buffer]
    rfl
  | cons piece pieces ih =>
    -- the decoder and the consumer both go on where the first piece left them
    have hdecode := drain_append hd (p.held ++ piece) pieces.flatten
    have hconsume := consume_append (f := f) hr (p.buffer ++ (drain d (p.held ++ piece)).1)
      (drain d ((drain d (p.held ++ piece)).2 ++ pieces.flatten)).1 p.state
    simp only [pipeAll] at ih
    simp only [pipeAll, feedList, pipeFeed, List.flatten_cons, bind, Except.bind]
    rw [← List.append_assoc, hdecode]
    simp only
    rw [← List.append_assoc, hconsume]
    cases hfirst : consume r f (p.buffer ++ (drain d (p.held ++ piece)).1) p.state with
    | error e => rfl
    | ok q =>
      have hwait : Pipe.Waiting d r ⟨(drain d (p.held ++ piece)).2, q.2.1, q.2.2⟩ :=
        ⟨drain_rest hd.toProper _, consume_rest hr.toProper hfirst⟩
      simp only [Except.bind, ih hwait, pipeFeed, bind]
      cases consume r f (q.2.1 ++ (drain d ((drain d (p.held ++ piece)).2 ++ pieces.flatten)).1)
        q.2.2 <;> rfl

end Pipe

end Framing
