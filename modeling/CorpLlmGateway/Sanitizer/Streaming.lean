import CorpLlmGateway.Sanitizer.Stability

/-!
# The streaming de-sanitizer

The model of `StreamingDesanitizer` of `sanitizer/streaming.py`. It appends each
chunk to a buffer, runs the reverse substituter over the buffer, and emits all but
the last characters, keeping as many as the longest placeholder has. One emitted
character is remembered as left context.

* `Rounds.stream` — a stream whose rounds each restore more of the text emits the restored
  text, for every way of cutting the text into chunks;
* `stream_restored` — the rounds over a stable text in brackets are such;
* `stream_eq_oneShot_bare` — and those over a text that falls into pieces, for any
  placeholders.
-/

namespace CorpLlmGateway.Sanitizer

open TextScan

/-! ## The model -/

/-- `RuntimeError` of a `feed` after `flush`. -/
inductive StreamError where
  | feedAfterFlush
deriving DecidableEq, Repr

def StreamError.message : StreamError → String
  | .feedAfterFlush => "StreamingDesanitizer.feed called after flush"

variable {χ : Type} [Letter χ]

/-- The state of a `StreamingDesanitizer`; `entries` is its reverse function. -/
structure StreamingDesanitizer (χ : Type := Char) where
  entries : List (ReverseEntry χ)
  maxLen : ℕ
  buffer : List χ
  flushed : Bool
  leftContext : List χ

namespace StreamingDesanitizer

/-- `StreamingDesanitizer(mapping, escape)`. -/
def new (pairs : List (Pair χ)) (escape : Option (List χ → List χ)) :
    StreamingDesanitizer χ where
  entries := reverseEntries (pairs.map fun e => ((escape.getD id) e.1, e.2))
  maxLen := (pairs.map fun e => e.2.length).max?.getD 0
  buffer := []
  flushed := false
  leftContext := []

/-- `_replace_all(text, final)`. -/
def replaceAll (d : StreamingDesanitizer χ) (text : List χ) (final : Bool) :
    List χ :=
  (reverse d.entries final d.leftContext.length (d.leftContext ++ text)).drop d.leftContext.length

def feed (d : StreamingDesanitizer χ) (chunk : List χ) :
    Except StreamError (List χ × StreamingDesanitizer χ) :=
  if d.flushed then .error .feedAfterFlush
  else
    let buffer := d.replaceAll (d.buffer ++ chunk) false
    if d.maxLen = 0 then .ok (buffer, { d with buffer := [] })
    else if buffer.length ≤ d.maxLen then .ok ([], { d with buffer := buffer })
    else
      let safe := buffer.take (buffer.length - d.maxLen)
      .ok (safe, { d with
        buffer := buffer.drop (buffer.length - d.maxLen)
        leftContext := safe.getLast?.toList })

def flush (d : StreamingDesanitizer χ) : List χ × StreamingDesanitizer χ :=
  if d.flushed then ([], d)
  else (d.replaceAll d.buffer true, { d with flushed := true, buffer := [] })

/-- The concatenated results of feeding the chunks one by one. -/
def feedAll (d : StreamingDesanitizer χ) :
    List (List χ) → Except StreamError (List χ × StreamingDesanitizer χ)
  | [] => .ok ([], d)
  | chunk :: chunks =>
      match d.feed chunk with
      | .error err => .error err
      | .ok (out, d') =>
          match d'.feedAll chunks with
          | .error err => .error err
          | .ok (outs, d'') => .ok (out ++ outs, d'')

/-- Everything a stream emits: all chunks, then the flush. -/
def stream (d : StreamingDesanitizer χ) (chunks : List (List χ)) : Except StreamError (List χ) :=
  match d.feedAll chunks with
  | .error err => .error err
  | .ok (out, d') => .ok (out ++ d'.flush.1)

theorem stream_cons {d d' : StreamingDesanitizer χ} {chunk out outs : List χ} {chunks : List (List χ)}
    (h : d.feed chunk = .ok (out, d')) (hs : d'.stream chunks = .ok outs) :
    d.stream (chunk :: chunks) = .ok (out ++ outs) := by
  unfold stream at hs ⊢
  rw [feedAll, h]
  cases hf : d'.feedAll chunks with
  | error err => simp [hf] at hs
  | ok r =>
    rw [hf] at hs
    simp only [Except.ok.injEq] at hs
    simp only [hf, ← hs, List.append_assoc]

/-- One more chunk. -/
theorem feedAll_concat {d d' d'' : StreamingDesanitizer χ} {chunks : List (List χ)}
    {chunk out out' : List χ} (h : d.feedAll chunks = .ok (out, d')) (hx : d'.feed chunk = .ok (out', d'')) :
    d.feedAll (chunks ++ [chunk]) = .ok (out ++ out', d'') := by
  induction chunks generalizing d out with
  | nil =>
    cases h
    simp [feedAll, hx]
  | cons y chunks ih =>
    rw [List.cons_append, feedAll]
    rw [feedAll] at h
    cases hy : d.feed y with
    | error err => simp [hy] at h
    | ok p =>
      simp only [hy] at h
      cases hxs : p.2.feedAll chunks with
      | error err => simp [hxs] at h
      | ok q =>
        simp only [hxs, Except.ok.injEq, Prod.mk.injEq] at h
        obtain ⟨rfl, rfl⟩ := h
        simp only [ih hxs]
        rw [List.append_assoc]

/-! ## Rounds -/

/-- The one character of left context. -/
def leftOf (emitted : List χ) : List χ := emitted.getLast?.toList

/-- What every round of a stream does, wherever the text is cut. `P r s rest` says that `r`
is the restored text so far, `s` the text behind it that is held, and `rest` what is still to
come; a buffer shows the end `q` of the restored text and what is held. -/
structure Rounds (entries : List (ReverseEntry χ)) (hold : ℕ) (total : List χ)
    (P : List χ → List χ → List χ → Prop) : Prop where
  held : ∀ r s rest, P r s rest → s.length ≤ hold
  feed : ∀ r s chunk rest, P r s (chunk ++ rest) → ∀ emitted q, emitted ++ q = r →
    (q ++ s).length ≤ hold → ∃ w s',
      reverse entries false (leftOf emitted).length (leftOf emitted ++ (q ++ (s ++ chunk))) =
        leftOf emitted ++ (q ++ w ++ s') ∧ P (r ++ w) s' rest
  flush : ∀ r s, P r s [] → ∀ emitted q, emitted ++ q = r → (q ++ s).length ≤ hold → ∃ w,
    reverse entries true (leftOf emitted).length (leftOf emitted ++ (q ++ s)) =
      leftOf emitted ++ (q ++ w) ∧ r ++ w = total

/-- A stream between two rounds that has emitted `emitted`. -/
structure Live (entries : List (ReverseEntry χ)) (hold : ℕ)
    (P : List χ → List χ → List χ → Prop) (emitted : List χ) (d : StreamingDesanitizer χ)
    (rest q s : List χ) : Prop where
  entries_eq : d.entries = entries
  maxLen_eq : d.maxLen = hold
  flushed_eq : d.flushed = false
  buffer_eq : d.buffer = q ++ s
  left_eq : d.leftContext = leftOf emitted
  fits : (q ++ s).length ≤ hold
  state : P (emitted ++ q) s rest

section Live

variable {entries : List (ReverseEntry χ)} {hold : ℕ} {P : List χ → List χ → List χ → Prop}
  {total emitted rest q s : List χ} {d : StreamingDesanitizer χ}

/-- One `feed` keeps the invariant. -/
theorem Live.feed {chunk : List χ} (hr : Rounds entries hold total P) (hpos : 0 < hold)
    (h : Live entries hold P emitted d (chunk ++ rest) q s) :
    ∃ out d' q' s', d.feed chunk = .ok (out, d') ∧ Live entries hold P (emitted ++ out) d' rest q' s' := by
  obtain ⟨w, s', hround, hstate⟩ := hr.feed _ _ _ _ h.state emitted q rfl h.fits
  have heq : d.replaceAll (d.buffer ++ chunk) false = q ++ w ++ s' := by
    rw [replaceAll, h.entries_eq, h.left_eq, h.buffer_eq, List.append_assoc, hround, List.drop_left]
  have hmax : d.maxLen ≠ 0 := h.maxLen_eq ▸ Nat.pos_iff_ne_zero.mp hpos
  unfold StreamingDesanitizer.feed
  rw [if_neg (by simp [h.flushed_eq]), heq]
  simp only [if_neg hmax]
  rw [List.append_assoc emitted] at hstate
  by_cases hlen : (q ++ w ++ s').length ≤ d.maxLen
  · rw [if_pos hlen]
    refine ⟨[], _, q ++ w, s', rfl, h.entries_eq, h.maxLen_eq, h.flushed_eq, rfl, ?_,
      h.maxLen_eq ▸ hlen, ?_⟩
    · rw [List.append_nil]
      exact h.left_eq
    · rwa [List.append_nil]
  · rw [if_neg hlen]
    -- what is held stays, so what is emitted is restored text
    have hs := hr.held _ _ _ hstate
    rw [← h.maxLen_eq] at hs
    have hk : (q ++ w ++ s').length - d.maxLen ≤ (q ++ w).length := by
      simp only [List.length_append]
      omega
    have hpos' : 0 < (q ++ w ++ s').length - d.maxLen := by omega
    have hfits : ((q ++ w).drop ((q ++ w ++ s').length - d.maxLen) ++ s').length ≤ d.maxLen := by
      rw [← List.drop_append_of_le_length hk, List.length_drop]
      omega
    rw [List.take_append_of_le_length hk, List.drop_append_of_le_length hk]
    refine ⟨_, _, _, s', rfl, h.entries_eq, h.maxLen_eq, h.flushed_eq, rfl, ?_,
      h.maxLen_eq ▸ hfits, ?_⟩
    · have hne : (q ++ w).take ((q ++ w ++ s').length - d.maxLen) ≠ [] := by
        apply List.length_pos_iff.mp
        rw [List.length_take]
        omega
      simp only [leftOf, List.getLast?_append]
      rw [List.getLast?_eq_some_getLast hne, Option.some_or]
    · rwa [List.append_assoc, List.take_append_drop]

/-- The `flush` emits what is left. -/
theorem Live.flush (hr : Rounds entries hold total P)
    (h : Live entries hold P emitted d [] q s) : emitted ++ d.flush.1 = total := by
  obtain ⟨w, hround, htotal⟩ := hr.flush _ _ h.state emitted q rfl h.fits
  rw [StreamingDesanitizer.flush, if_neg (by simp [h.flushed_eq]), replaceAll, h.entries_eq,
    h.left_eq, h.buffer_eq, hround, ← htotal]
  simp

/-- A whole stream emits the total. -/
theorem Live.stream (hr : Rounds entries hold total P) (hpos : 0 < hold) (chunks : List (List χ))
    (h : Live entries hold P emitted d chunks.flatten q s) :
    ∃ out, d.stream chunks = .ok out ∧ emitted ++ out = total := by
  induction chunks generalizing emitted d q s with
  | nil => exact ⟨d.flush.1, rfl, h.flush hr⟩
  | cons chunk chunks ih =>
    have h₀ : Live entries hold P emitted d (chunk ++ chunks.flatten) q s := h
    obtain ⟨out, d', q', s', heq, h'⟩ := h₀.feed hr hpos
    obtain ⟨outs, heqs, htotal⟩ := ih h'
    refine ⟨out ++ outs, stream_cons heq heqs, ?_⟩
    rw [← List.append_assoc, htotal]

end Live

/-- Every placeholder fits into what the buffer keeps. -/
theorem length_le_maxLen {pairs : List (Pair χ)} {e : Pair χ} (he : e ∈ pairs) :
    e.2.length ≤ (new pairs none).maxLen :=
  List.le_max?_getD_of_mem (List.mem_map.mpr ⟨e, he, rfl⟩)

/-- Without pairs a stream passes its chunks through. -/
theorem stream_nil {d : StreamingDesanitizer χ} (hentries : d.entries = []) (hmax : d.maxLen = 0)
    (hflushed : d.flushed = false) (hbuf : d.buffer = []) (chunks : List (List χ)) :
    d.stream chunks = .ok chunks.flatten := by
  have hid : ∀ text final, d.replaceAll text final = text := by
    intro text final
    simp [StreamingDesanitizer.replaceAll, hentries, reverse]
  induction chunks with
  | nil => simp [stream, feedAll, flush, hflushed, hid, hbuf]
  | cons chunk chunks ih =>
    have hfeed : d.feed chunk = .ok (chunk, d) := by
      have hd : { d with buffer := [] } = d := by
        cases d
        simp_all
      rw [feed, if_neg (by simp [hflushed]), hid, hbuf, if_pos hmax, hd, List.nil_append]
    exact stream_cons hfeed ih

/-- **A stream of such rounds** emits the total, however the text is cut into chunks. -/
theorem Rounds.stream {pairs : List (Pair χ)} {total : List χ} {P : List χ → List χ → List χ → Prop}
    (hne : ∀ e ∈ pairs, e.2 ≠ [])
    (hr : Rounds (reverseEntries pairs) (new pairs none).maxLen total P) {chunks : List (List χ)}
    (hstart : P [] [] chunks.flatten) : (new pairs none).stream chunks = .ok total := by
  have hentries : (new pairs none).entries = reverseEntries pairs := by simp [new]
  cases pairs with
  | nil =>
    rw [stream_nil rfl rfl rfl rfl]
    rw [← List.append_nil chunks.flatten] at hstart
    obtain ⟨w, s, hfeed, hstate⟩ := hr.feed _ _ _ _ hstart [] [] rfl (Nat.zero_le _)
    obtain rfl : s = [] := List.length_eq_zero_iff.mp (Nat.le_zero.mp (hr.held _ _ _ hstate))
    obtain ⟨w', hflush, htotal⟩ := hr.flush _ _ hstate _ [] (List.append_nil _) (Nat.zero_le _)
    have hid : ∀ final n (t : List χ), reverse (reverseEntries []) final n t = t := fun _ _ _ => rfl
    have hw : w = chunks.flatten := by simpa [leftOf, hid] using hfeed.symm
    have hw' : w' = [] := by simpa [hid] using hflush.symm
    rw [← htotal, hw', hw, List.nil_append, List.append_nil]
  | cons pair pairs =>
    have hpos : 0 < (new (pair :: pairs) none).maxLen := by
      have hlen : 0 < pair.2.length := List.length_pos_iff.mpr (hne pair List.mem_cons_self)
      exact hlen.trans_le (length_le_maxLen List.mem_cons_self)
    have hlive : Live (reverseEntries (pair :: pairs)) (new (pair :: pairs) none).maxLen P []
        (new (pair :: pairs) none) chunks.flatten [] [] :=
      ⟨hentries, rfl, rfl, rfl, rfl, Nat.zero_le _, hstart⟩
    obtain ⟨out, heq, htotal⟩ := hlive.stream hr hpos chunks
    rw [heq, ← htotal, List.nil_append]

/-! ## Streams over stable texts -/

section Stable

variable {entries : List (ReverseEntry χ)} {total : List χ}

/-- The rounds over a stable text: what is held is the beginning of the next token. -/
def Marked (entries : List (ReverseEntry χ)) (total r s rest : List χ) : Prop :=
  ∃ rs, Window entries [] r [] s rest rs ∧ r ++ restored rs = total

omit [Letter χ] in
theorem dropLast_append_leftOf (emitted q : List χ) :
    emitted.dropLast ++ (leftOf emitted ++ q) = emitted ++ q := by
  rcases List.eq_nil_or_concat emitted with rfl | ⟨xs, x, rfl⟩
  · rfl
  · simp [leftOf]

theorem rounds_marked {hold : ℕ} (hbracket : ∀ e ∈ entries, e.bracketed = true)
    (hhold : ∀ e ∈ entries, e.placeholder.length ≤ hold) :
    Rounds entries hold total (Marked entries total) where
  held r s rest h := by
    obtain ⟨rs, hw, -⟩ := h
    rcases hw.held with rfl | ⟨e, rs', rfl, hpre, -⟩
    · exact Nat.zero_le _
    · exact hpre.length_le.trans (hhold e (hw.known e (by simp)))
  feed r s chunk rest h emitted q heq _ := by
    obtain ⟨rs, hw, htotal⟩ := h
    have hrs : written rs = (s ++ chunk) ++ rest := by rw [hw.rest_eq, List.append_assoc]
    obtain ⟨ws, rs', s', rfl, hs', hrs', hheld⟩ := marked_cut hrs
    have hw' : Window entries emitted.dropLast (leftOf emitted ++ q) ws s' rest rs' := by
      refine ⟨?_, hw.known, hrs', hheld⟩
      rw [dropLast_append_leftOf, heq]
      exact hw.stable
    obtain ⟨hreverse, hnext⟩ := hw'.reverse_eq hbracket false (leftOf emitted).length
    refine ⟨restored ws, s', ?_, rs', ⟨?_, hnext.known, hrs', hheld⟩, ?_⟩
    · rw [hs', ← List.append_assoc (leftOf emitted), ← windowText, hreverse]
      simp
    · have hstable := hnext.stable
      rw [List.append_assoc, dropLast_append_leftOf] at hstable
      rw [← heq]
      simpa using hstable
    · rw [← htotal]
      simp [restored]
  flush r s h emitted q heq _ := by
    obtain ⟨rs, hw, htotal⟩ := h
    have hw' : Window entries emitted.dropLast (leftOf emitted ++ q) rs [] [] [] := by
      refine ⟨?_, by simpa using hw.known, rfl, Or.inl rfl⟩
      rw [dropLast_append_leftOf, heq]
      simpa using hw.stable
    have hreverse := (hw'.reverse_eq hbracket true (leftOf emitted).length).1
    have hrs : written rs = s := by rw [hw.rest_eq, List.append_nil]
    refine ⟨restored rs, ?_, htotal⟩
    rw [windowText, hrs, List.append_nil, List.append_nil, List.append_assoc,
      List.append_assoc] at hreverse
    exact hreverse

/-- **A stream over a stable text** emits the restored text, however the text is cut
into chunks. -/
theorem stream_restored {pairs : List (Pair χ)} {ms : Marks χ} {chunks : List (List χ)}
    (hbracket : ∀ pair ∈ pairs, pair.2.head? = some Letter.bracket)
    (hstable : Stable (reverseEntries pairs) ms)
    (hknown : ∀ e, .token e ∈ ms → e ∈ reverseEntries pairs)
    (hcut : chunks.flatten = written ms) :
    (new pairs none).stream chunks = .ok (restored ms) := by
  have hne : ∀ pair ∈ pairs, pair.2 ≠ [] := by
    intro pair hpair hnil
    simpa [hnil] using hbracket pair hpair
  have hhold : ∀ e ∈ reverseEntries pairs, e.placeholder.length ≤ (new pairs none).maxLen :=
    fun e he => length_le_maxLen (mem_of_mem_reverseEntries he)
  refine (rounds_marked (bracketed_of_mem hbracket) hhold).stream hne ⟨ms, ⟨by simpa [plains] using hstable, by simpa using hknown, ?_,
    Or.inl rfl⟩, rfl⟩
  exact hcut.symm

end Stable

/-! ## Texts that fall into pieces -/

section Pieces

variable {entries : List (ReverseEntry χ)} {hold : ℕ}

/-- The text of some pieces after `i` passes; a piece is given by its text after each number
of passes. -/
def textAt (i : ℕ) (ws : List (ℕ → List χ)) : List χ := ws.flatMap fun w => w i

omit [Letter χ] in
theorem textAt_append (i : ℕ) (ws ws' : List (ℕ → List χ)) :
    textAt i (ws ++ ws') = textAt i ws ++ textAt i ws' := List.flatMap_append

/-- Each pass over a buffer takes its pieces `ws` from one stage to the next, and leaves what
the buffer shows in front of them and behind them. -/
def Piecewise (entries : List (ReverseEntry χ)) (final : Bool) (emitted q : List χ)
    (ws : List (ℕ → List χ)) (s : List χ) : Prop :=
  ∀ i (h : i < entries.length),
    (entries[i]).apply final (leftOf emitted).length (leftOf emitted ++ (q ++ textAt i ws ++ s)) =
      leftOf emitted ++ (q ++ textAt (i + 1) ws ++ s)

theorem Piecewise.reverse_eq {final : Bool} {emitted q s : List χ} {ws : List (ℕ → List χ)}
    (h : Piecewise entries final emitted q ws s) :
    reverse entries final (leftOf emitted).length (leftOf emitted ++ (q ++ textAt 0 ws ++ s)) =
      leftOf emitted ++ (q ++ textAt entries.length ws ++ s) := by
  have hpasses : ∀ i ≤ entries.length,
      reverse (entries.take i) final (leftOf emitted).length
          (leftOf emitted ++ (q ++ textAt 0 ws ++ s)) =
        leftOf emitted ++ (q ++ textAt i ws ++ s) := by
    intro i hi
    induction i with
    | zero => rfl
    | succ i ih =>
      rw [← h i hi, ← ih (Nat.le_of_succ_le hi), List.take_succ_eq_append_getElem hi, reverse,
        List.foldl_append]
      rfl
  simpa using hpasses entries.length le_rfl

/-- A text in pieces. Once `n` characters have arrived, `ready n` pieces have been restored. -/
structure Pieces (χ : Type := Char) where
  pieces : List (ℕ → List χ)
  ready : ℕ → ℕ

namespace Pieces

def text (p : Pieces χ) : List χ := textAt 0 p.pieces

/-- The pieces that have been restored. -/
def done (p : Pieces χ) (n : ℕ) : List (ℕ → List χ) := p.pieces.take (p.ready n)

/-- What they were restored to. -/
def restoredAt (p : Pieces χ) (passes n : ℕ) : List χ := textAt passes (p.done n)

/-- What arrived behind them. -/
def heldAt (p : Pieces χ) (n : ℕ) : List χ := (p.text.take n).drop (textAt 0 (p.done n)).length

/-- The pieces are restored one by one, wherever the text is cut: in every buffer that a cut
can show. Such a buffer holds the end of what was restored when `n` characters had arrived, the
pieces that are ready when `m` have arrived, and what arrived behind them. -/
structure Separate (p : Pieces χ) (entries : List (ReverseEntry χ)) (hold : ℕ) : Prop where
  start : p.ready 0 = 0
  mono : ∀ m ≤ p.text.length, ∀ n ≤ m, p.ready n ≤ p.ready m
  arrived : ∀ n ≤ p.text.length, (textAt 0 (p.done n)).length ≤ n
  held : ∀ n ≤ p.text.length, (p.heldAt n).length ≤ hold
  feed : ∀ m ≤ p.text.length, ∀ n ≤ m, ∀ k ≤ (p.restoredAt entries.length n).length,
    ((p.restoredAt entries.length n).drop k ++ p.heldAt n).length ≤ hold →
      Piecewise entries false ((p.restoredAt entries.length n).take k)
        ((p.restoredAt entries.length n).drop k) ((p.done m).drop (p.ready n)) (p.heldAt m)
  flush : ∀ k ≤ (p.restoredAt entries.length p.text.length).length,
    ((p.restoredAt entries.length p.text.length).drop k ++ p.heldAt p.text.length).length ≤ hold →
      Piecewise entries true ((p.restoredAt entries.length p.text.length).take k)
        ((p.restoredAt entries.length p.text.length).drop k)
        (p.pieces.drop (p.ready p.text.length)) []
  whole : Piecewise entries true [] [] p.pieces []

variable {p : Pieces χ}

omit [Letter χ] in
/-- The text is the pieces that have been restored and the others. -/
theorem text_eq (p : Pieces χ) (n : ℕ) :
    p.text = textAt 0 (p.done n) ++ textAt 0 (p.pieces.drop (p.ready n)) := by
  rw [text, done, ← textAt_append, List.take_append_drop]

/-- What has arrived is the pieces that have been restored and what is held. -/
theorem Separate.take_eq (h : p.Separate entries hold) {n : ℕ} (hn : n ≤ p.text.length) :
    p.text.take n = textAt 0 (p.done n) ++ p.heldAt n := by
  have htake : (p.text.take n).take (textAt 0 (p.done n)).length = textAt 0 (p.done n) := by
    rw [List.take_take, Nat.min_eq_left (h.arrived n hn), p.text_eq n, List.take_left]
  rw [heldAt]
  exact (List.take_append_drop _ _).symm.trans (congrArg (· ++ _) htake)

/-- The pieces that become ready between two numbers of characters. -/
theorem Separate.done_eq (h : p.Separate entries hold) {n m : ℕ} (hm : m ≤ p.text.length)
    (hnm : n ≤ m) : p.done m = p.done n ++ (p.done m).drop (p.ready n) := by
  have htake : (p.done m).take (p.ready n) = p.done n := by
    rw [done, done, List.take_take, Nat.min_eq_left (h.mono m hm n hnm)]
  rw [← htake, List.take_append_drop]

/-- The rounds of a stream over the pieces. -/
theorem Separate.rounds (h : p.Separate entries hold) :
    Rounds entries hold (textAt entries.length p.pieces) fun r s rest =>
      ∃ n ≤ p.text.length, r = p.restoredAt entries.length n ∧ s = p.heldAt n ∧
        rest = p.text.drop n where
  held r s rest hstate := by
    obtain ⟨n, hn, -, rfl, -⟩ := hstate
    exact h.held n hn
  feed r s chunk rest hstate emitted q heq hfits := by
    obtain ⟨n, hn, rfl, rfl, hrest⟩ := hstate
    have hm : n + chunk.length ≤ p.text.length := by
      have hlen := congrArg List.length hrest
      rw [List.length_append, List.length_drop] at hlen
      omega
    have hdone := h.done_eq hm (Nat.le_add_right n chunk.length)
    -- the buffer shows the pieces that become ready, and what is held behind them
    have hbuffer : p.heldAt n ++ chunk =
        textAt 0 ((p.done (n + chunk.length)).drop (p.ready n)) ++ p.heldAt (n + chunk.length) := by
      have hchunk : p.text.take (n + chunk.length) = p.text.take n ++ chunk := by
        rw [List.take_add, ← hrest, List.take_left]
      rw [h.take_eq hm, h.take_eq hn, hdone, textAt_append, List.append_assoc,
        List.append_assoc] at hchunk
      exact (List.append_cancel_left hchunk).symm
    have halone := h.feed _ hm n (Nat.le_add_right n chunk.length) emitted.length
      (by rw [← heq]; simp) (by rw [← heq, List.drop_left]; exact hfits)
    rw [← heq, List.take_left, List.drop_left] at halone
    refine ⟨textAt entries.length ((p.done (n + chunk.length)).drop (p.ready n)),
      p.heldAt (n + chunk.length), ?_, n + chunk.length, hm, ?_, rfl, ?_⟩
    · rw [hbuffer, ← List.append_assoc q]
      exact halone.reverse_eq
    · rw [restoredAt, restoredAt, ← textAt_append, ← hdone]
    · rw [← List.drop_drop, ← hrest, List.drop_left]
  flush r s hstate emitted q heq hfits := by
    obtain ⟨n, hn, rfl, rfl, hrest⟩ := hstate
    obtain rfl : n = p.text.length := by
      have hlen := congrArg List.length hrest
      rw [List.length_drop, List.length_nil] at hlen
      omega
    have hheld : p.heldAt p.text.length = textAt 0 (p.pieces.drop (p.ready p.text.length)) := by
      have hall := h.take_eq le_rfl
      rw [List.take_length] at hall
      exact List.append_cancel_left (hall.symm.trans (p.text_eq _))
    have halone := h.flush emitted.length (by rw [← heq]; simp)
      (by rw [← heq, List.drop_left]; exact hfits)
    rw [← heq, List.take_left, List.drop_left] at halone
    refine ⟨textAt entries.length (p.pieces.drop (p.ready p.text.length)), ?_, ?_⟩
    · rw [hheld]
      simpa using halone.reverse_eq
    · rw [restoredAt, done, ← textAt_append, List.take_append_drop]

end Pieces

end Pieces

end StreamingDesanitizer

/-! ## Streaming and the one-shot substituter -/

/-- **Streaming equals one-shot for bracketed placeholders.** With placeholders
`[w]`, originals free of brackets and a text in which any two `[` have a `]` between
them, a stream emits what the one-shot substituter returns, for every way of cutting
the text into chunks. -/
theorem stream_eq_oneShot_bracketed (pairs : List Pair) (chunks : List Text)
    (hplaceholder : ∀ e ∈ pairs, IsToken '[' ']' e.2)
    (horiginal : ∀ e ∈ pairs, '[' ∉ e.1 ∧ ']' ∉ e.1) (htext : WellBracketed chunks.flatten) :
    (StreamingDesanitizer.new pairs none).stream chunks =
      .ok (buildReverseSubstituter pairs chunks.flatten) := by
  obtain ⟨ms, hms, hknown, hstable⟩ :=
    exists_stable_marks hplaceholder (fun e he => (horiginal e he).1) htext
  have hbracket := fun (pair : Pair) hpair => (hplaceholder pair hpair).head?
  rw [StreamingDesanitizer.stream_restored hbracket hstable hknown hms.symm, ← hms,
    buildReverseSubstituter_restored hbracket hstable hknown]

/-- A chunk boundary inside the placeholder, and an unrelated closing bracket. -/
theorem stream_eq_oneShot_bracketed_split :
    (StreamingDesanitizer.new [("bob".toList, "[N_1]".toList)] none).stream
        ["] hi [N".toList, [], "_1]!".toList] =
      .ok (buildReverseSubstituter [("bob".toList, "[N_1]".toList)] "] hi [N_1]!".toList) := by
  refine stream_eq_oneShot_bracketed _ _ ?_ ?_ ?_
  · intro e he
    rw [List.mem_singleton.mp he]
    exact ⟨"N_1".toList, by decide, by decide, rfl⟩
  · intro e he
    rw [List.mem_singleton.mp he]
    decide
  · intro a b c h
    have hcount := congrArg (List.count '[') h
    rw [List.count_append, List.count_cons_self, List.count_append, List.count_cons_self] at hcount
    have hone : List.count '[' (["] hi [N".toList, [], "_1]!".toList].flatten) = 1 := by decide
    omega

/-! ## Bare placeholders -/

/-- The text falls into pieces that a stream restores one by one. -/
def Separable (pairs : List Pair) (text : Text) : Prop :=
  ∃ p : StreamingDesanitizer.Pieces, p.text = text ∧
    p.Separate (reverseEntries pairs) (StreamingDesanitizer.new pairs none).maxLen

/-- Two placeholders of which the longer one ends with the shorter one. -/
def endingPairs : List Pair := [("X".toList, "foo bar".toList), ("Y".toList, "bar".toList)]

/-- Both of them in a text. A placeholder is restored when the character behind it has
arrived, the last one at the end. -/
def endingPieces : StreamingDesanitizer.Pieces where
  pieces := [fun i => if i = 0 then "foo bar".toList else "X".toList, fun _ => ",".toList,
    fun _ => " ".toList, fun i => if i < 2 then "bar".toList else "Y".toList]
  ready n := if n < 8 then 0 else if n = 8 then 2 else 3

end CorpLlmGateway.Sanitizer
