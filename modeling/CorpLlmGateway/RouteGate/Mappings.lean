import CorpLlmGateway.Concurrency.Machine
import CorpLlmGateway.RouteGate.Inflight

/-!
# Response mappings and the tickets they are kept for

The model of `ResponseMappings` (`route_gate/desanitize_middleware.py`) and of the hooks of a
`RequestTicket` (`route_gate/inflight.py`). A store holds a mapping for a ticket until a hook
of the ticket releases it; `close` runs the hooks one after the other. A hook may itself make
any of these calls, on any ticket, before it returns or raises, so a call of `close` is a
frame on a stack, and the calls of a hook are made while its frame is the innermost.

What is logged is read by nothing.

* `World.Inv` — a hook that was registered has run once or is pending, and a mapping is held
  only with a pending release;
* `mapping_lifetime` — what is left when `close` returns;
* `close_interrupted` — the exceptions that `close` does not catch.
-/

namespace CorpLlmGateway.RouteGate

open Machine

variable {T S H M : Type}

/-! ## The model -/

/-- A callable that is registered with `on_close`: the bound method `release` of a store, or
any other. -/
inductive Hook (S H : Type) where
  | release (store : S)
  | other (h : H)
deriving DecidableEq, Repr

/-- A call of `close` that has not returned: the hook it is in, those behind it, and how many
have raised. -/
structure Closing (T S H : Type) where
  ticket : T
  running : Option H
  rest : List (Hook S H)
  failed : ℕ

/-- What is logged: `on_close` returned True, a hook was called, `close` returned. -/
inductive LifetimeEvent (T S H : Type) where
  | hooked (t : T) (h : Hook S H)
  | ran (t : T) (h : Hook S H)
  | returned (t : T) (failed : ℕ)
deriving DecidableEq, Repr

/-- The tickets with their hooks, the stores, and the calls of `close` under way, innermost
first. -/
structure World (T S H M : Type) where
  ticket : T → RequestTicket
  hooks : T → List (Hook S H)
  byTicket : S → T → Option M
  closing : List (Closing T S H)
  log : List (LifetimeEvent T S H)

namespace World

def new : World T S H M := ⟨fun _ => .new, fun _ => [], fun _ _ => none, [], []⟩

variable [DecidableEq T] [DecidableEq S] [DecidableEq H]

/-- `ticket.on_close(hook)`. -/
def onClose (w : World T S H M) (t : T) (h : Hook S H) : Bool × World T S H M :=
  if (w.ticket t).closed then (false, w)
  else
    (true, { w with
      hooks := if h ∈ w.hooks t then w.hooks else Function.update w.hooks t (w.hooks t ++ [h])
      log := w.log ++ [.hooked t h] })

/-- `store._by_ticket` with a new entry, or without one. -/
def put (w : World T S H M) (s : S) (t : T) (m : Option M) : World T S H M :=
  { w with byTicket := Function.update w.byTicket s (Function.update (w.byTicket s) t m) }

/-- `store.register(ticket, mapping)`. -/
def register (w : World T S H M) (s : S) (t : T) (m : M) : Bool × World T S H M :=
  if (w.ticket t).cancelled then (false, w)
  else if (w.ticket t).closed then (false, w)
  else
    match w.onClose t (.release s) with
    | (false, w) => (false, w)
    | (true, w) => (true, w.put s t (some m))

/-- `store.release(ticket)`. -/
def release (w : World T S H M) (s : S) (t : T) : World T S H M := w.put s t none

/-- `ticket.mark_cancelled(origin)`. -/
def markCancelled (w : World T S H M) (t : T) (origin : CancelOrigin) : World T S H M :=
  { w with ticket := Function.update w.ticket t ((w.ticket t).markCancelled origin) }

/-- `ticket.close()`, up to its loop; on a closed ticket it returns at once. -/
def close (w : World T S H M) (t : T) : World T S H M :=
  if (w.ticket t).closed then w
  else
    { w with
      ticket := Function.update w.ticket t { w.ticket t with closed := true }
      hooks := Function.update w.hooks t []
      closing := ⟨t, none, w.hooks t, 0⟩ :: w.closing }

/-- The loop of the innermost `close`: its next hook is called, or it returns. -/
def next (w : World T S H M) : Option (World T S H M) :=
  match w.closing with
  | ⟨t, none, [], failed⟩ :: outer =>
      some { w with closing := outer, log := w.log ++ [.returned t failed] }
  | ⟨t, none, .release s :: rest, failed⟩ :: outer =>
      some (release { w with
        closing := ⟨t, none, rest, failed⟩ :: outer
        log := w.log ++ [.ran t (.release s)] } s t)
  | ⟨t, none, .other h :: rest, failed⟩ :: outer =>
      some { w with
        closing := ⟨t, some h, rest, failed⟩ :: outer
        log := w.log ++ [.ran t (.other h)] }
  | _ => none

/-- How the hook that runs ends: it returns, it raises an `Exception`, or it raises what is not
an `Exception`, which leaves `close` as well and reaches whoever called it. -/
inductive Ending where
  | returns
  | raises
  | interrupts
deriving DecidableEq, Repr

def finish (w : World T S H M) (ending : Ending) : Option (World T S H M) :=
  match w.closing with
  | ⟨t, some _, rest, failed⟩ :: outer =>
      match ending with
      | .returns => some { w with closing := ⟨t, none, rest, failed⟩ :: outer }
      | .raises => some { w with closing := ⟨t, none, rest, failed + 1⟩ :: outer }
      | .interrupts => some { w with closing := outer }
  | _ => none

/-- Calls are made outside of every `close`, or by the hook that runs. -/
def calling (w : World T S H M) : Bool :=
  match w.closing with
  | [] => true
  | c :: _ => c.running.isSome

end World

/-- What can happen next. -/
inductive Act (T S H M : Type) where
  | register (s : S) (t : T) (m : M)
  | release (s : S) (t : T)
  | markCancelled (t : T) (origin : CancelOrigin)
  | onClose (t : T) (h : Hook S H)
  | close (t : T)
  | next
  | finish (ending : World.Ending)
deriving DecidableEq

variable [DecidableEq T] [DecidableEq S] [DecidableEq H]

def World.step (w : World T S H M) : Act T S H M → Option (World T S H M)
  | .register s t m => if w.calling then some (w.register s t m).2 else none
  | .release s t => if w.calling then some (w.release s t) else none
  | .markCancelled t origin => if w.calling then some (w.markCancelled t origin) else none
  | .onClose t h => if w.calling then some (w.onClose t h).2 else none
  | .close t => if w.calling then some (w.close t) else none
  | .next => w.next
  | .finish ending => w.finish ending

/-! ## The invariant -/

namespace World

/-- The hooks of a ticket that have not been called: those registered, and those that the
calls of `close` under way still have in front of them. -/
def pending (w : World T S H M) (t : T) : List (Hook S H) :=
  w.hooks t ++ w.closing.flatMap fun c => if c.ticket = t then c.rest else []

/-- What holds as long as nothing interrupts a `close`. -/
structure Inv (w : World T S H M) : Prop where
  idle : ∀ t, (w.ticket t).closed = false → ∀ c ∈ w.closing, c.ticket ≠ t
  fresh : ∀ t h, (w.ticket t).closed = false → .ran t h ∉ w.log
  drained : ∀ t, (w.ticket t).closed = true → w.hooks t = []
  once : ∀ t h, w.log.count (.ran t h) + (w.pending t).count h =
    if .hooked t h ∈ w.log then 1 else 0
  held : ∀ s t, w.byTicket s t ≠ none → .release s ∈ w.pending t

variable {w w' : World T S H M} {s : S} {t : T} {h : Hook S H}

theorem inv_new : (new : World T S H M).Inv where
  idle := by simp [new]
  fresh := by simp [new]
  drained := by simp [new, RequestTicket.new]
  once := by simp [new, pending]
  held := by simp [new]

theorem pending_eq_hooks (hw : w.Inv) (ht : (w.ticket t).closed = false) :
    w.pending t = w.hooks t := by
  rw [pending, List.append_right_eq_self, List.flatMap_eq_nil_iff]
  intro c hc
  exact if_neg (hw.idle t ht c hc)

/-- A step that neither closes nor hooks anything, and stores nothing. -/
theorem Inv.of_same (hw : w.Inv) (hclosed : ∀ t, (w'.ticket t).closed = (w.ticket t).closed)
    (hhooks : w'.hooks = w.hooks) (hlog : w'.log = w.log)
    (hclosing : w'.closing.map (fun c => (c.ticket, c.rest)) =
      w.closing.map (fun c => (c.ticket, c.rest)))
    (hheld : ∀ s t, w'.byTicket s t ≠ none → w.byTicket s t ≠ none) : w'.Inv := by
  have hpending : ∀ t, w'.pending t = w.pending t := by
    intro t
    have hframes : ∀ v : World T S H M, (v.closing.flatMap fun c => if c.ticket = t then c.rest else []) =
        (v.closing.map fun c => (c.ticket, c.rest)).flatMap fun p => if p.1 = t then p.2 else [] := by
      intro v
      rw [List.flatMap_map]
    rw [pending, pending, hhooks, hframes, hframes, hclosing]
  have htickets : w'.closing.map (·.ticket) = w.closing.map (·.ticket) := by
    have := congrArg (List.map Prod.fst) hclosing
    simpa [Function.comp_def] using this
  refine ⟨?_, ?_, ?_, ?_, ?_⟩
  · intro t ht c hc heq
    have hmem : t ∈ w.closing.map (·.ticket) := htickets ▸ heq ▸ List.mem_map_of_mem hc
    obtain ⟨d, hd, hdt⟩ := List.mem_map.mp hmem
    exact hw.idle t (hclosed t ▸ ht) d hd hdt
  · intro t h ht
    exact hlog ▸ hw.fresh t h (hclosed t ▸ ht)
  · intro t ht
    exact hhooks ▸ hw.drained t (hclosed t ▸ ht)
  · intro t h
    rw [hlog, hpending]
    exact hw.once t h
  · intro s t hst
    rw [hpending]
    exact hw.held s t (hheld s t hst)

/-! ### One step -/

omit [DecidableEq H] in
theorem put_byTicket (w : World T S H M) (s s' : S) (t t' : T) (m : Option M) :
    (w.put s t m).byTicket s' t' = if s' = s ∧ t' = t then m else w.byTicket s' t' := by
  by_cases hs : s' = s
  · subst hs
    simp [put, Function.update_apply]
  · simp [put, hs]

theorem Inv.release (hw : w.Inv) (s : S) (t : T) : (w.release s t).Inv := by
  refine hw.of_same (fun _ => rfl) rfl rfl rfl ?_
  intro s' t' hheld hnone
  apply hheld
  rw [World.release, put_byTicket, hnone, ite_self]

theorem markCancelled_closed (k : RequestTicket) (origin : CancelOrigin) :
    (k.markCancelled origin).closed = k.closed := by
  unfold RequestTicket.markCancelled
  split <;> rfl

theorem Inv.markCancelled (hw : w.Inv) (t : T) (origin : CancelOrigin) :
    (w.markCancelled t origin).Inv := by
  refine hw.of_same ?_ rfl rfl rfl fun _ _ h => h
  intro t'
  simp only [World.markCancelled, Function.update_apply]
  split
  · next ht =>
    subst ht
    exact markCancelled_closed _ origin
  · rfl

theorem Inv.finish (hw : w.Inv) {ending : Ending} (hending : ending ≠ .interrupts)
    (hfinish : w.finish ending = some w') : w'.Inv := by
  unfold World.finish at hfinish
  split at hfinish
  · next t h rest failed outer hclosing =>
    cases ending with
    | returns =>
      cases hfinish
      exact hw.of_same (fun _ => rfl) rfl rfl (by simp [hclosing]) fun _ _ h => h
    | raises =>
      cases hfinish
      exact hw.of_same (fun _ => rfl) rfl rfl (by simp [hclosing]) fun _ _ h => h
    | interrupts => exact absurd rfl hending
  · cases hfinish

theorem count_ran_concat {log : List (LifetimeEvent T S H)} {e : LifetimeEvent T S H}
    (he : e ≠ .ran t h) : (log ++ [e]).count (.ran t h) = log.count (.ran t h) := by
  rw [List.count_append, List.count_singleton, if_neg (by simpa using he), Nat.add_zero]

/-- An open ticket has the hook afterwards, and no other hook more. -/
theorem count_pending_onClose (hw : w.Inv) (ht : (w.ticket t).closed = false) (t' : T)
    (h' : Hook S H) :
    ((w.onClose t h).2.pending t').count h' =
      if t' = t ∧ h' = h then 1 else (w.pending t').count h' := by
  have hnever : w.log.count (.ran t h) = 0 := List.count_eq_zero.mpr (hw.fresh t h ht)
  have honce := hw.once t h
  rw [hnever, Nat.zero_add, pending_eq_hooks hw ht] at honce
  have hframes : (w.closing.flatMap fun c => if c.ticket = t then c.rest else []) = [] := by
    rw [List.flatMap_eq_nil_iff]
    exact fun c hc => if_neg (hw.idle t ht c hc)
  have hshape : (w.onClose t h).2.pending t' =
      (if h ∈ w.hooks t then w.hooks else Function.update w.hooks t (w.hooks t ++ [h])) t' ++
        w.closing.flatMap fun c => if c.ticket = t' then c.rest else [] := by
    simp [World.onClose, ht, pending]
  rw [hshape]
  by_cases htt : t' = t
  · subst htt
    rw [hframes, List.append_nil, pending_eq_hooks hw ht]
    by_cases hmem : h ∈ w.hooks t'
    · have hpos : 0 < (w.hooks t').count h := List.count_pos_iff.mpr hmem
      have hone : (w.hooks t').count h = 1 := by
        split at honce
        · exact honce
        · omega
      by_cases hh : h' = h
      · simp [hmem, hh, hone]
      · simp [hmem, hh]
    · have hzero : (w.hooks t').count h = 0 := List.count_eq_zero.mpr hmem
      by_cases hh : h' = h
      · simp [hmem, hh, hzero]
      · have hne : ¬h = h' := fun heq => hh heq.symm
        simp [hmem, hh, hne]
  · have hhooks : (if h ∈ w.hooks t then w.hooks else Function.update w.hooks t (w.hooks t ++ [h])) t' =
        w.hooks t' := by
      split
      · rfl
      · exact Function.update_of_ne htt _ _
    rw [hhooks, if_neg fun hand => htt hand.1]
    rfl

/-- A hook is registered once, however often `on_close` is called with it. -/
theorem Inv.onClose (hw : w.Inv) (t : T) (h : Hook S H) : (w.onClose t h).2.Inv := by
  by_cases hclosed : (w.ticket t).closed = true
  · simpa [World.onClose, hclosed] using hw
  have ht : (w.ticket t).closed = false := by simpa using hclosed
  have hnever : w.log.count (.ran t h) = 0 := List.count_eq_zero.mpr (hw.fresh t h ht)
  have hcount := count_pending_onClose (h := h) hw ht
  have hlog : (w.onClose t h).2.log = w.log ++ [.hooked t h] := by simp [World.onClose, ht]
  have hticket : (w.onClose t h).2.ticket = w.ticket := by simp [World.onClose, ht]
  have hclosing : (w.onClose t h).2.closing = w.closing := by simp [World.onClose, ht]
  have hstore : (w.onClose t h).2.byTicket = w.byTicket := by simp [World.onClose, ht]
  refine ⟨?_, ?_, ?_, ?_, ?_⟩
  · rw [hticket, hclosing]
    exact hw.idle
  · intro t' h' ht'
    rw [hticket] at ht'
    simpa [hlog] using hw.fresh t' h' ht'
  · intro t' ht'
    rw [hticket] at ht'
    have hne : t' ≠ t := by
      rintro rfl
      exact absurd ht' (by simp [ht])
    have hdrained := hw.drained t' ht'
    simp only [World.onClose, ht, Bool.false_eq_true, if_false]
    split
    · exact hdrained
    · rw [Function.update_of_ne hne, hdrained]
  · intro t' h'
    rw [hlog, count_ran_concat (by simp), hcount]
    by_cases hsame : t' = t ∧ h' = h
    · obtain ⟨rfl, rfl⟩ := hsame
      simp [hnever]
    · have honce := hw.once t' h'
      rw [if_neg hsame, honce]
      simp [hsame]
  · intro s t' hheld
    rw [hstore] at hheld
    have hpos := List.count_pos_iff.mpr (hw.held s t' hheld)
    rw [← List.count_pos_iff, hcount]
    split
    · exact Nat.one_pos
    · exact hpos

theorem Inv.register (hw : w.Inv) (s : S) (t : T) (m : M) : (w.register s t m).2.Inv := by
  unfold World.register
  split
  · exact hw
  split
  · exact hw
  next hopen =>
  have ht : (w.ticket t).closed = false := by simpa using hopen
  have hhooked := hw.onClose t (.release s)
  have hpending : .release s ∈ (w.onClose t (.release s)).2.pending t := by
    rw [← List.count_pos_iff, count_pending_onClose hw ht, if_pos ⟨rfl, rfl⟩]
    exact Nat.one_pos
  split
  · next v hv =>
    rw [hv] at hhooked
    exact hhooked
  · next v hv =>
    rw [hv] at hhooked hpending
    refine ⟨hhooked.idle, hhooked.fresh, hhooked.drained, hhooked.once, ?_⟩
    -- the mapping that is stored has its release among the hooks
    intro s' t' hheld
    by_cases hsame : s' = s ∧ t' = t
    · obtain ⟨rfl, rfl⟩ := hsame
      exact hpending
    · apply hhooked.held s' t'
      rwa [put_byTicket, if_neg hsame] at hheld

/-- The hooks move from the ticket to the loop. -/
theorem Inv.close (hw : w.Inv) (t : T) : (w.close t).Inv := by
  by_cases hclosed : (w.ticket t).closed = true
  · simpa [World.close, hclosed] using hw
  have ht : (w.ticket t).closed = false := by simpa using hclosed
  have heq : w.close t = { w with
      ticket := Function.update w.ticket t { w.ticket t with closed := true }
      hooks := Function.update w.hooks t []
      closing := ⟨t, none, w.hooks t, 0⟩ :: w.closing } := by
    simp [World.close, ht]
  have hother : ∀ {t'}, ((w.close t).ticket t').closed = false →
      t' ≠ t ∧ (w.ticket t').closed = false := by
    intro t' ht'
    rw [heq] at ht'
    by_cases htt : t' = t
    · subst htt
      simp at ht'
    · simp only [Function.update_of_ne htt] at ht'
      exact ⟨htt, ht'⟩
  have hpending : ∀ t', (w.close t).pending t' = w.pending t' := by
    intro t'
    rw [heq]
    by_cases htt : t' = t
    · subst htt
      simp [pending]
    · have hne : ¬t = t' := fun h => htt h.symm
      simp [pending, htt, hne]
  have hlog : (w.close t).log = w.log := by rw [heq]
  have hstore : (w.close t).byTicket = w.byTicket := by rw [heq]
  refine ⟨?_, ?_, ?_, ?_, ?_⟩
  · intro t' ht' c hc
    obtain ⟨hne, hopen⟩ := hother ht'
    rw [heq] at hc
    rcases List.mem_cons.mp hc with rfl | hc
    · exact fun h => hne h.symm
    · exact hw.idle t' hopen c hc
  · intro t' h' ht'
    rw [hlog]
    exact hw.fresh t' h' (hother ht').2
  · intro t' ht'
    by_cases htt : t' = t
    · rw [heq, htt]
      exact Function.update_self ..
    · rw [heq] at ht' ⊢
      simp only [Function.update_of_ne htt] at ht' ⊢
      exact hw.drained t' ht'
  · intro t' h'
    rw [hlog, hpending]
    exact hw.once t' h'
  · intro s t' hheld
    rw [hstore] at hheld
    rw [hpending]
    exact hw.held s t' hheld

/-- The loop calls its next hook: the hook is pending once less. -/
theorem count_pending_call {rest : List (Hook S H)} {failed : ℕ} {outer : List (Closing T S H)}
    (hclosing : w.closing = ⟨t, none, h :: rest, failed⟩ :: outer) (running : Option H)
    (log : List (LifetimeEvent T S H)) (t' : T) (h' : Hook S H) :
    (pending { w with closing := ⟨t, running, rest, failed⟩ :: outer, log := log } t').count h' +
      (if t = t' ∧ h = h' then 1 else 0) = (w.pending t').count h' := by
  by_cases htt : t = t'
  · subst htt
    by_cases hh : h = h'
    · simp [pending, hclosing, hh]
      omega
    · simp [pending, hclosing, hh]
  · simp [pending, hclosing, htt]

theorem Inv.call (hw : w.Inv) {rest : List (Hook S H)} {failed : ℕ} {outer : List (Closing T S H)}
    (hclosing : w.closing = ⟨t, none, h :: rest, failed⟩ :: outer) {running : Option H}
    (hrelease : ∀ s, h = .release s → w.byTicket s t = none) :
    Inv { w with
      closing := ⟨t, running, rest, failed⟩ :: outer
      log := w.log ++ [.ran t h] } := by
  have ht : (w.ticket t).closed = true := by
    by_contra hopen
    exact hw.idle t (by simpa using hopen) _ (hclosing ▸ List.mem_cons_self) rfl
  have hcount := count_pending_call hclosing running (w.log ++ [.ran t h])
  refine ⟨?_, ?_, hw.drained, ?_, ?_⟩
  · intro t' ht' c hc
    have hidle := hw.idle t' ht'
    rw [hclosing] at hidle
    rcases List.mem_cons.mp hc with rfl | hc
    · exact hidle ⟨t, none, h :: rest, failed⟩ List.mem_cons_self
    · exact hidle c (List.mem_cons_of_mem _ hc)
  · intro t' h' ht'
    have hne : t ≠ t' := by
      rintro rfl
      rw [ht] at ht'
      cases ht'
    have hfresh := hw.fresh t' h' ht'
    have hne' : ¬t' = t := fun heq => hne heq.symm
    simp [hfresh, hne']
  · intro t' h'
    have honce := hw.once t' h'
    have hpend := hcount t' h'
    have hran : (w.log ++ [LifetimeEvent.ran t h]).count (.ran t' h') =
        w.log.count (.ran t' h') + if t = t' ∧ h = h' then 1 else 0 := by
      rw [List.count_append, List.count_singleton]
      simp
    have hhooked : .hooked t' h' ∈ w.log ++ [LifetimeEvent.ran t h] ↔ .hooked t' h' ∈ w.log := by
      simp
    simp only [hran, hhooked]
    omega
  · intro s t' hheld
    have hpos := List.count_pos_iff.mpr (hw.held s t' hheld)
    have hpend := hcount t' (.release s)
    rw [← List.count_pos_iff]
    split at hpend
    · next hsame =>
      obtain ⟨rfl, rfl⟩ := hsame
      exact absurd (hrelease s rfl) hheld
    · omega

theorem Inv.next (hw : w.Inv) (hnext : w.next = some w') : w'.Inv := by
  unfold World.next at hnext
  split at hnext
  · next t failed outer hclosing =>
    cases hnext
    have hpending : ∀ t', pending { w with closing := outer, log := w.log ++ [.returned t failed] } t' =
        w.pending t' := by
      intro t'
      simp [pending, hclosing]
    refine ⟨?_, ?_, hw.drained, ?_, ?_⟩
    · intro t' ht' c hc
      exact hw.idle t' ht' c (hclosing ▸ List.mem_cons_of_mem _ hc)
    · intro t' h' ht'
      simpa using hw.fresh t' h' ht'
    · intro t' h'
      rw [hpending]
      simpa using hw.once t' h'
    · intro s t' hheld
      rw [hpending]
      exact hw.held s t' hheld
  · next t s rest failed outer hclosing =>
    cases hnext
    -- the release hook empties the place first, and is then no longer pending
    have hreleased : ((w.release s t).closing) = ⟨t, none, .release s :: rest, failed⟩ :: outer :=
      hclosing
    refine (hw.release s t).call hreleased ?_
    intro s' hs'
    cases hs'
    simp [World.release, put]
  · next t h rest failed outer hclosing =>
    cases hnext
    exact hw.call hclosing fun s hs => nomatch hs
  · cases hnext

theorem Inv.step (hw : w.Inv) {a : Act T S H M} (ha : a ≠ .finish .interrupts)
    (hstep : w.step a = some w') : w'.Inv := by
  have hcall : ∀ {v : World T S H M}, v.Inv → (if w.calling then some v else none) = some w' →
      w'.Inv := by
    intro v hv h
    split at h
    · cases h
      exact hv
    · cases h
  cases a with
  | register s t m => exact hcall (hw.register s t m) hstep
  | release s t => exact hcall (hw.release s t) hstep
  | markCancelled t origin => exact hcall (hw.markCancelled t origin) hstep
  | onClose t h => exact hcall (hw.onClose t h) hstep
  | close t => exact hcall (hw.close t) hstep
  | next => exact hw.next hstep
  | finish ending => exact hw.finish (fun heq => ha (heq ▸ rfl)) hstep

/-! ### Whole runs -/

/-- `close` has been called on the ticket and has returned. -/
def Returned (w : World T S H M) (t : T) : Prop :=
  (w.ticket t).closed = true ∧ ∀ c ∈ w.closing, c.ticket ≠ t

theorem pending_of_returned (hw : w.Inv) (ht : w.Returned t) : w.pending t = [] := by
  rw [pending, hw.drained t ht.1, List.nil_append, List.flatMap_eq_nil_iff]
  intro c hc
  exact if_neg (ht.2 c hc)

/-- A ticket that is cancelled or closed is refused. -/
theorem register_refused (ht : (w.ticket t).cancelled = true ∨ (w.ticket t).closed = true) (s : S)
    (m : M) : w.register s t m = (false, w) := by
  rcases ht with ht | ht
  · simp [register, ht]
  · simp [register, ht]

/-- The ticket is closed and the store has nothing for it. -/
def Gone (t : T) (s : S) (w : World T S H M) : Prop :=
  (w.ticket t).closed = true ∧ w.byTicket s t = none

/-- **A closed ticket stays closed, and nothing is stored for it**, also when a `close` is
interrupted. -/
theorem Gone.step {a : Act T S H M} (hw : Gone t s w) (hstep : w.step a = some w') :
    Gone t s w' := by
  have hcall : ∀ {v : World T S H M}, Gone t s v → (if w.calling then some v else none) = some w' →
      Gone t s w' := by
    intro v hv h
    split at h
    · cases h
      exact hv
    · cases h
  have hrelease : ∀ {v : World T S H M} (s' t'), Gone t s v → Gone t s (v.release s' t') := by
    intro v s' t' hv
    refine ⟨hv.1, ?_⟩
    rw [World.release, put_byTicket, hv.2, ite_self]
  cases a with
  | register s' t' m =>
    refine hcall ?_ hstep
    by_cases ht' : (w.ticket t').cancelled = true ∨ (w.ticket t').closed = true
    · rw [register_refused ht']
      exact hw
    · have hopen : ¬(w.ticket t').cancelled = true ∧ ¬(w.ticket t').closed = true :=
        not_or.mp ht'
      have hne : ¬(s = s' ∧ t = t') := fun heq => hopen.2 (heq.2 ▸ hw.1)
      simp only [World.register, World.onClose, hopen, Bool.false_eq_true, if_false]
      refine ⟨hw.1, ?_⟩
      rw [put_byTicket, if_neg hne]
      exact hw.2
  | release s' t' => exact hcall (hrelease s' t' hw) hstep
  | markCancelled t' origin =>
    have hclosed : ((w.markCancelled t' origin).ticket t).closed = true := by
      simp only [World.markCancelled, Function.update_apply]
      split
      · next ht =>
        rw [markCancelled_closed, ← ht]
        exact hw.1
      · exact hw.1
    exact hcall ⟨hclosed, hw.2⟩ hstep
  | onClose t' h =>
    refine hcall ?_ hstep
    unfold World.onClose
    split
    · exact hw
    · exact hw
  | close t' =>
    refine hcall ?_ hstep
    unfold World.close
    split
    · exact hw
    · refine ⟨?_, hw.2⟩
      simp only [Function.update_apply]
      split
      · rfl
      · exact hw.1
  | next =>
    simp only [World.step, World.next] at hstep
    split at hstep
    · cases hstep
      exact hw
    · cases hstep
      exact hrelease _ _ hw
    · cases hstep
      exact hw
    · cases hstep
  | finish ending =>
    simp only [World.step, World.finish] at hstep
    split at hstep
    · cases ending <;> cases hstep <;> exact hw
    · cases hstep

end World

open World

/-- **The lifetime of a mapping**, for every order of calls and however hooks end, as long as
what they raise is an `Exception`: when `close` has returned, no store holds a mapping for the
ticket, and none will, whatever is called afterwards; every hook that was registered has run
exactly once; and a ticket that is cancelled or closed takes no mapping. -/
theorem mapping_lifetime {acts : List (Act T S H M)} (hacts : .finish .interrupts ∉ acts)
    {w : World T S H M} (hrun : run World.step .new acts = some w) (t : T) :
    (w.Returned t →
      (∀ s, w.byTicket s t = none) ∧
      (∀ more w', run World.step w more = some w' → ∀ s, w'.byTicket s t = none) ∧
      ∀ h, .hooked t h ∈ w.log → w.log.count (.ran t h) = 1) ∧
    ((w.ticket t).cancelled = true ∨ (w.ticket t).closed = true →
      ∀ s m, w.register s t m = (false, w)) := by
  have hinv : w.Inv := by
    refine run_invariant (A := fun a => a ≠ .finish .interrupts) (fun ha hv h => hv.step ha h) ?_
      inv_new hrun
    intro a ha heq
    exact hacts (heq ▸ ha)
  refine ⟨?_, fun ht s m => register_refused ht s m⟩
  intro ht
  have hpending := pending_of_returned hinv ht
  have hnone : ∀ s, w.byTicket s t = none := by
    intro s
    by_contra hheld
    have hmem := hinv.held s t hheld
    rw [hpending] at hmem
    cases hmem
  refine ⟨hnone, ?_, ?_⟩
  · intro more w' hmore s
    have hgone : Gone t s w' :=
      run_invariant (A := fun _ => True) (fun _ hv h => hv.step h) (fun _ _ => trivial)
        ⟨ht.1, hnone s⟩ hmore
    exact hgone.2
  · intro h hhooked
    have honce := hinv.once t h
    rwa [hpending, List.count_nil, Nat.add_zero, if_pos hhooked] at honce

/-- A hook that raises in front of the release. -/
theorem mapping_lifetime_raising :
    let acts : List (Act Unit Unit Unit Unit) := [.onClose () (.other ()), .register () () (),
      .close (), .next, .finish .raises, .next, .next]
    .finish .interrupts ∉ acts ∧ ∃ w, run World.step .new acts = some w ∧ w.Returned () ∧
      w.byTicket () () = none ∧ w.log.count (.ran () (.other ())) = 1 ∧
      w.log.count (.ran () (.release ())) = 1 := by
  intro acts
  have hacts : .finish .interrupts ∉ acts := by decide
  refine ⟨hacts, _, rfl, ⟨rfl, by decide⟩, ?_⟩
  obtain ⟨hnone, -, honce⟩ := (mapping_lifetime hacts rfl ()).1 ⟨rfl, by decide⟩
  exact ⟨hnone (), honce _ (by decide), honce _ (by decide)⟩

/-- **What is not an `Exception` ends the loop**: the guard around a hook lets it through, the
hooks behind it never run, and the mapping they would have released is still held although the
ticket is closed. -/
theorem close_interrupted :
    ∃ (acts : List (Act Unit Unit Unit Unit)) (w : World Unit Unit Unit Unit),
      run World.step .new acts = some w ∧ w.Returned () ∧ w.byTicket () () = some () ∧
        .hooked () (.release ()) ∈ w.log ∧ .ran () (.release ()) ∉ w.log := by
  refine ⟨[.onClose () (.other ()), .register () () (), .close (), .next, .finish .interrupts],
    _, rfl, ⟨rfl, ?_⟩, rfl, ?_, ?_⟩
  · decide
  · decide
  · decide

end CorpLlmGateway.RouteGate
