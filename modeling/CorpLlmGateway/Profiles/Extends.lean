import CorpLlmGateway.Sanitizer.Placeholder

/-!
# Extends graphs

The model of `resolve_extends` of `profiles/manifest.py`: a depth-first walk over the
profiles that a list of roots extends, which lists every profile after its parents. The
walk remembers finished profiles for all roots, and its ancestors and its depth for the
path it is on.

* `resolveExtends_order` — a walk that returns lists what the roots reach, each profile
  once and behind its parents;
* `raisesDepth_iff` — the depth limit is noticed exactly along chains that no earlier part
  of the walk has finished;
* `depth_exact_iff` — when that is the same as the limit on all chains.
-/

namespace CorpLlmGateway.Profiles

open TextScan CorpLlmGateway.Sanitizer

/-! ## The walk -/

/-- The fields of a `ProfileManifest` that are read here; `extended` is `extends`. -/
structure ProfileManifest where
  name : Text
  extended : List Text
  contentHash : Option Text
deriving DecidableEq, Repr

/-- `ProfileDepthError`, `ProfileCycleError`, or what `read` raised. -/
inductive ExtendsError where
  | depth (profileId : Text) (maxDepth : ℤ) (chain : List Text)
  | cycle (chain : List Text)
  | read (message : String)
deriving DecidableEq, Repr

/-- The text of an error; `repr` is Python's. -/
def ExtendsError.message (repr : Text → Text) : ExtendsError → Text
  | .depth profileId maxDepth chain =>
      "extends chain for ".toList ++ repr profileId ++ " exceeds max depth ".toList ++
        (toString maxDepth).toList ++ ": ".toList ++ " -> ".toList.intercalate chain
  | .cycle chain => "extends cycle: ".toList ++ " -> ".toList.intercalate chain
  | .read message => message.toList

/-- The variables `order` and `done`. -/
structure WalkState where
  order : List Text
  done : Finset Text
deriving DecidableEq

section Walk

variable (read : Text → Except String ProfileManifest) (maxDepth : ℤ)

mutual

/-- `visit(profile_id, ancestors, depth)`. -/
def visit (profileId : Text) (ancestors : List Text) (depth : ℕ) (s : WalkState) :
    Except ExtendsError WalkState :=
  if maxDepth < depth then .error (.depth profileId maxDepth (ancestors ++ [profileId]))
  else if profileId ∈ ancestors then .error (.cycle (ancestors ++ [profileId]))
  else if profileId ∈ s.done then .ok s
  else
    match read profileId with
    | .error message => .error (.read message)
    | .ok manifest =>
        match visitAll manifest.extended (ancestors ++ [profileId]) (depth + 1) s with
        | .error e => .error e
        | .ok s => .ok ⟨s.order ++ [profileId], insert profileId s.done⟩
termination_by ((maxDepth + 1 - depth).toNat, 0)

/-- The loops over parents and over roots. -/
def visitAll (profileIds : List Text) (ancestors : List Text) (depth : ℕ) (s : WalkState) :
    Except ExtendsError WalkState :=
  match profileIds with
  | [] => .ok s
  | profileId :: rest =>
      match visit profileId ancestors depth s with
      | .error e => .error e
      | .ok s => visitAll rest ancestors depth s
termination_by ((maxDepth + 1 - depth).toNat, profileIds.length + 1)

end

/-- `resolve_extends(roots, read, max_depth=maxDepth)`. -/
def resolveExtends (roots : List Text) : Except ExtendsError (List Text) :=
  match visitAll read maxDepth roots [] 0 ⟨[], ∅⟩ with
  | .error e => .error e
  | .ok s => .ok s.order

end Walk

/-! ## The graph -/

section Graph

variable (read : Text → Except String ProfileManifest)

/-- `p` extends `q`. -/
def Extends (p q : Text) : Prop := ∃ manifest, read p = .ok manifest ∧ q ∈ manifest.extended

/-- `q` is `p` or a profile that `p` extends, directly or not. -/
def Reaches (p q : Text) : Prop := Relation.ReflTransGen (Extends read) p q

/-- What one of several profiles reaches. -/
def ReachedFrom (ps : List Text) (q : Text) : Prop := ∃ p ∈ ps, Reaches read p q

/-- An extends chain of `n` steps from one profile to another. -/
inductive Chain : Text → ℕ → Text → Prop
  | nil (p : Text) : Chain p 0 p
  | cons {n : ℕ} {p q x : Text} : Extends read p q → Chain q n x → Chain p (n + 1) x

variable {read}

theorem Reaches.head {p q x : Text} (h : Extends read p q) (hr : Reaches read q x) :
    Reaches read p x :=
  Relation.ReflTransGen.head h hr

end Graph

/-! ## The order -/

section Order

variable {read : Text → Except String ProfileManifest} {maxDepth : ℤ}

/-- What holds between two visits: the finished profiles are those in the order, each once
and behind the profiles it extends. -/
structure WalkState.Ok (read : Text → Except String ProfileManifest) (s : WalkState) : Prop where
  done_iff : ∀ p, p ∈ s.done ↔ p ∈ s.order
  nodup : s.order.Nodup
  sorted : ∀ l p r, s.order = l ++ p :: r → ∀ q, Extends read p q → q ∈ l

/-- What visiting `ps` below `ancestors` adds: profiles that `ps` reach and that are no
ancestors, and all of `ps`. -/
structure Grown (read : Text → Except String ProfileManifest) (ancestors ps : List Text)
    (s s' : WalkState) : Prop where
  appended : ∃ new, s'.order = s.order ++ new ∧
    ∀ p ∈ new, p ∉ ancestors ∧ ReachedFrom read ps p
  visited : ∀ p ∈ ps, p ∈ s'.order

theorem Grown.refl (ancestors : List Text) (s : WalkState) : Grown read ancestors [] s s :=
  ⟨⟨[], (List.append_nil _).symm, nofun⟩, nofun⟩

theorem Grown.cons {ancestors ps : List Text} {p : Text} {s s₁ s₂ : WalkState}
    (h : Grown read ancestors [p] s s₁) (h' : Grown read ancestors ps s₁ s₂) :
    Grown read ancestors (p :: ps) s s₂ := by
  obtain ⟨new, horder, hnew⟩ := h.appended
  obtain ⟨new', horder', hnew'⟩ := h'.appended
  refine ⟨⟨new ++ new', by rw [horder', horder, List.append_assoc], ?_⟩, ?_⟩
  · intro q hq
    rcases List.mem_append.mp hq with hq | hq
    · obtain ⟨hno, p', hp', hr⟩ := hnew q hq
      rw [List.mem_singleton.mp hp'] at hr
      exact ⟨hno, p, List.mem_cons_self, hr⟩
    · obtain ⟨hno, p', hp', hr⟩ := hnew' q hq
      exact ⟨hno, p', List.mem_cons_of_mem _ hp', hr⟩
  · intro q hq
    rcases List.mem_cons.mp hq with rfl | hq
    · rw [horder']
      exact List.mem_append_left _ (h.visited _ (List.mem_singleton_self _))
    · exact h'.visited q hq

/-- Finishing a profile whose parents have been visited. -/
theorem WalkState.Ok.finish {ancestors : List Text} {p : Text} {manifest : ProfileManifest}
    {s s₁ : WalkState} (hread : read p = .ok manifest) (hanc : p ∉ ancestors) (hdone : p ∉ s.done)
    (hs : s.Ok read) (hs₁ : s₁.Ok read)
    (hgrown : Grown read (ancestors ++ [p]) manifest.extended s s₁) :
    (WalkState.mk (s₁.order ++ [p]) (insert p s₁.done)).Ok read ∧
      Grown read ancestors [p] s ⟨s₁.order ++ [p], insert p s₁.done⟩ := by
  obtain ⟨new, horder, hnew⟩ := hgrown.appended
  -- below `p` the walk cannot have finished `p`: it would have met an ancestor
  have hfresh : p ∉ s₁.order := by
    rw [horder, List.mem_append, not_or]
    constructor
    · exact fun hp => hdone ((hs.done_iff p).mpr hp)
    · intro hp
      exact (hnew p hp).1 (List.mem_append_right _ (List.mem_singleton_self p))
  constructor
  · constructor
    · intro q
      simp only [Finset.mem_insert, List.mem_append, List.mem_singleton, hs₁.done_iff]
      exact or_comm
    · exact List.nodup_append.mpr ⟨hs₁.nodup, List.nodup_singleton p, by
        intro a ha b hb hab
        rw [hab, List.mem_singleton.mp hb] at ha
        exact hfresh ha⟩
    · intro l q r hsplit q' hext
      rcases List.eq_nil_or_concat r with rfl | ⟨r, x, rfl⟩
      · -- `p` itself is last
        have hl : s₁.order = l := List.append_inj_left' hsplit rfl
        have hq : p = q := List.singleton_inj.mp (List.append_inj_right' hsplit rfl)
        obtain ⟨manifest', hread', hmem⟩ := hext
        rw [← hq, hread] at hread'
        rw [← hl]
        exact hgrown.visited q' (Except.ok.inj hread' ▸ hmem)
      · have hsplit' : s₁.order ++ [p] = (l ++ q :: r) ++ [x] := by
          simpa using hsplit
        exact hs₁.sorted l q r (List.append_inj_left' hsplit' rfl) q' hext
  · refine ⟨⟨new ++ [p], by rw [horder, List.append_assoc], ?_⟩, ?_⟩
    · intro q hq
      rcases List.mem_append.mp hq with hq | hq
      · obtain ⟨hno, p', hp', hr⟩ := hnew q hq
        refine ⟨fun hq' => hno (List.mem_append_left _ hq'), p, List.mem_singleton_self p, ?_⟩
        exact hr.head ⟨manifest, hread, hp'⟩
      · rw [List.mem_singleton.mp hq]
        exact ⟨hanc, p, List.mem_singleton_self p, .refl⟩
    · intro q hq
      exact List.mem_append_right _ hq

/-- The loop keeps what each visit keeps. -/
theorem visitAll_ok {ancestors : List Text} {depth : ℕ}
    (hvisit : ∀ p s s', visit read maxDepth p ancestors depth s = .ok s' → s.Ok read →
      s'.Ok read ∧ Grown read ancestors [p] s s')
    (ps : List Text) {s s' : WalkState}
    (h : visitAll read maxDepth ps ancestors depth s = .ok s') (hs : s.Ok read) :
    s'.Ok read ∧ Grown read ancestors ps s s' := by
  induction ps generalizing s with
  | nil =>
    rw [visitAll] at h
    cases h
    exact ⟨hs, .refl _ _⟩
  | cons p ps ih =>
    rw [visitAll] at h
    cases hp : visit read maxDepth p ancestors depth s with
    | error e =>
      rw [hp] at h
      cases h
    | ok s₁ =>
      rw [hp] at h
      obtain ⟨hs₁, hgrown⟩ := hvisit p s s₁ hp hs
      obtain ⟨hs', hgrown'⟩ := ih h hs₁
      exact ⟨hs', hgrown.cons hgrown'⟩

/-- A visit that returns keeps the state in order; by induction on the depth that is left. -/
theorem visit_ok (n : ℕ) {p : Text} {ancestors : List Text} {depth : ℕ} {s s' : WalkState}
    (hn : (maxDepth + 1 - depth).toNat = n)
    (h : visit read maxDepth p ancestors depth s = .ok s') (hs : s.Ok read) :
    s'.Ok read ∧ Grown read ancestors [p] s s' := by
  induction n generalizing p ancestors depth s s' with
  | zero =>
    rw [visit, if_pos (by omega)] at h
    cases h
  | succ n ih =>
    rw [visit, if_neg (by omega)] at h
    by_cases hanc : p ∈ ancestors
    · rw [if_pos hanc] at h
      cases h
    · rw [if_neg hanc] at h
      by_cases hdone : p ∈ s.done
      · rw [if_pos hdone] at h
        cases h
        refine ⟨hs, ⟨[], (List.append_nil _).symm, nofun⟩, ?_⟩
        intro q hq
        rw [List.mem_singleton.mp hq]
        exact (hs.done_iff p).mp hdone
      · rw [if_neg hdone] at h
        cases hread : read p with
        | error message =>
          rw [hread] at h
          cases h
        | ok manifest =>
          rw [hread] at h
          cases hall : visitAll read maxDepth manifest.extended (ancestors ++ [p]) (depth + 1) s with
          | error e =>
            simp only [hall] at h
            cases h
          | ok s₁ =>
            simp only [hall] at h
            cases h
            obtain ⟨hs₁, hgrown⟩ :=
              visitAll_ok (fun q t t' ht htok => ih (by push_cast; omega) ht htok) _ hall hs
            exact WalkState.Ok.finish hread hanc hdone hs hs₁ hgrown

end Order

/-- **The order of layers.** A walk that returns lists the profiles that the roots reach,
each once, and every profile behind all those it extends. -/
theorem resolveExtends_order (roots : List Text) (read : Text → Except String ProfileManifest)
    (maxDepth : ℤ) (order : List Text) (h : resolveExtends read maxDepth roots = .ok order) :
    order.Nodup ∧ (∀ p, p ∈ order ↔ ReachedFrom read roots p) ∧
      ∀ l p r, order = l ++ p :: r → ∀ q, Extends read p q → q ∈ l := by
  unfold resolveExtends at h
  cases hall : visitAll read maxDepth roots [] 0 ⟨[], ∅⟩ with
  | error e =>
    rw [hall] at h
    cases h
  | ok s =>
    rw [hall] at h
    cases h
    have hempty : (WalkState.mk [] ∅).Ok read := by
      refine ⟨by simp, .nil, ?_⟩
      intro l p r hsplit
      exact absurd hsplit (by simp)
    obtain ⟨hs, hgrown⟩ := visitAll_ok (fun p t t' ht htok => visit_ok _ rfl ht htok) _ hall hempty
    obtain ⟨new, horder, hnew⟩ := hgrown.appended
    refine ⟨hs.nodup, ?_, hs.sorted⟩
    intro p
    constructor
    · intro hp
      rw [horder] at hp
      exact (hnew p hp).2
    · -- the order has the roots and, with a profile, all it extends
      rintro ⟨root, hroot, hr⟩
      induction hr with
      | refl => exact hgrown.visited root hroot
      | tail _ hstep ih =>
        obtain ⟨l, r, hsplit⟩ := List.append_of_mem ih
        rw [hsplit]
        exact List.mem_append_left _ (hs.sorted l _ r hsplit _ hstep)

/-- A source of manifests without hashes: the profiles that each profile extends. -/
def readTable (table : List (String × List String)) (p : Text) : Except String ProfileManifest :=
  match table.find? fun e => e.1.toList == p with
  | none => .error "no profile.toml"
  | some e => .ok ⟨p, e.2.map String.toList, none⟩

theorem extends_readTable {table : List (String × List String)} {p q : Text}
    (h : Extends (readTable table) p q) :
    ∃ e ∈ table, e.1.toList = p ∧ q ∈ e.2.map String.toList := by
  obtain ⟨manifest, hread, hq⟩ := h
  unfold readTable at hread
  cases hfind : table.find? fun e => e.1.toList == p with
  | none =>
    rw [hfind] at hread
    cases hread
  | some e =>
    rw [hfind] at hread
    cases hread
    exact ⟨e, List.mem_of_find?_eq_some hfind, by simpa using List.find?_some hfind, hq⟩

/-- A diamond. -/
def diamond : List (String × List String) :=
  [("d", ["b", "c"]), ("c", ["a"]), ("b", ["a"]), ("a", [])]

theorem resolveExtends_diamond :
    resolveExtends (readTable diamond) 8 ["d".toList] =
        .ok (["a", "b", "c", "d"].map String.toList) ∧
      (["a", "b", "c", "d"].map String.toList).Nodup ∧
      (∀ p, p ∈ ["a", "b", "c", "d"].map String.toList ↔
        ReachedFrom (readTable diamond) ["d".toList] p) ∧
      ∀ l p r, ["a", "b", "c", "d"].map String.toList = l ++ p :: r →
        ∀ q, Extends (readTable diamond) p q → q ∈ l := by
  have hwalk : resolveExtends (readTable diamond) 8 ["d".toList] =
      .ok (["a", "b", "c", "d"].map String.toList) := by
    simp [resolveExtends, visitAll, visit, readTable, diamond]
  exact ⟨hwalk, resolveExtends_order _ _ _ _ hwalk⟩

/-! ## The depth limit -/

section Depth

variable (read : Text → Except String ProfileManifest)

/-- A chain of `n` steps from one of `ps` that a walk follows to its end: no profile on it,
the last one apart, was seen before or is reached from a profile that stands before the one
the chain takes. -/
def OpenChain : ℕ → (Text → Prop) → List Text → Prop
  | 0, _, ps => ps ≠ []
  | n + 1, seen, ps => ∃ l p r manifest, ps = l ++ p :: r ∧ ¬ seen p ∧ ¬ ReachedFrom read l p ∧
      read p = .ok manifest ∧
      OpenChain n (fun q => seen q ∨ ReachedFrom read l q) manifest.extended

/-- The same for the chains of one profile. -/
def OpenAt : ℕ → (Text → Prop) → Text → Prop
  | 0, _, _ => True
  | n + 1, seen, p => ¬ seen p ∧
      ∃ manifest, read p = .ok manifest ∧ OpenChain read n seen manifest.extended

variable {read}

theorem reachedFrom_cons {p q : Text} {ps : List Text} :
    ReachedFrom read (p :: ps) q ↔ Reaches read p q ∨ ReachedFrom read ps q := by
  simp [ReachedFrom]

theorem not_reachedFrom_nil {q : Text} : ¬ ReachedFrom read [] q := by
  simp [ReachedFrom]

/-- A chain starts at the first profile, or after it. -/
theorem openChain_cons {n : ℕ} {seen : Text → Prop} {p : Text} {ps : List Text} :
    OpenChain read n seen (p :: ps) ↔
      OpenAt read n seen p ∨ OpenChain read n (fun q => seen q ∨ Reaches read p q) ps := by
  cases n with
  | zero => simp [OpenChain, OpenAt]
  | succ n =>
    constructor
    · rintro ⟨l, p', r, manifest, hsplit, hseen, hl, hread, hchain⟩
      cases l with
      | nil =>
        obtain ⟨rfl, rfl⟩ := List.cons.inj hsplit
        have hsame : (fun q => seen q ∨ ReachedFrom read [] q) = seen := by
          funext q
          simp [not_reachedFrom_nil]
        rw [hsame] at hchain
        exact Or.inl ⟨hseen, manifest, hread, hchain⟩
      | cons p₀ l =>
        obtain ⟨rfl, rfl⟩ := List.cons.inj hsplit
        rw [reachedFrom_cons, not_or] at hl
        refine Or.inr ⟨l, p', r, manifest, rfl, ?_, hl.2, hread, ?_⟩
        · exact not_or.mpr ⟨hseen, hl.1⟩
        · simpa only [reachedFrom_cons, or_assoc] using hchain
    · rintro (⟨hseen, manifest, hread, hchain⟩ | ⟨l, p', r, manifest, rfl, hseen, hl, hread, hchain⟩)
      · refine ⟨[], p, ps, manifest, rfl, hseen, not_reachedFrom_nil, hread, ?_⟩
        simpa only [not_reachedFrom_nil, or_false] using hchain
      · obtain ⟨hseen, hp⟩ := not_or.mp hseen
        refine ⟨p :: l, p', r, manifest, rfl, hseen, ?_, hread, ?_⟩
        · exact reachedFrom_cons.not.mpr (not_or.mpr ⟨hp, hl⟩)
        · simpa only [reachedFrom_cons, or_assoc] using hchain

/-- An open chain is a chain. -/
theorem OpenChain.chain {n : ℕ} {seen : Text → Prop} {ps : List Text}
    (h : OpenChain read n seen ps) : ∃ p ∈ ps, ∃ q, Chain read p n q := by
  induction n generalizing seen ps with
  | zero =>
    obtain ⟨p, hp⟩ := List.exists_mem_of_ne_nil ps h
    exact ⟨p, hp, p, .nil p⟩
  | succ n ih =>
    obtain ⟨l, p, r, manifest, rfl, -, -, hread, hchain⟩ := h
    obtain ⟨p', hp', q, hq⟩ := ih hchain
    exact ⟨p, by simp, q, .cons ⟨manifest, hread, hp'⟩ hq⟩

variable {maxDepth : ℤ}

/-- The finished profiles include what they extend. -/
def WalkState.Closed (read : Text → Except String ProfileManifest) (s : WalkState) : Prop :=
  ∀ p ∈ s.done, ∀ q, Extends read p q → q ∈ s.done

theorem WalkState.Closed.reaches {s : WalkState} (h : s.Closed read) {p q : Text}
    (hp : p ∈ s.done) (hr : Reaches read p q) : q ∈ s.done := by
  induction hr with
  | refl => exact hp
  | tail _ hstep ih => exact h _ ih _ hstep

/-- Everything that `p` reaches can be read. -/
def Readable (read : Text → Except String ProfileManifest) (p : Text) : Prop :=
  ∀ q, Reaches read p q → ∃ manifest, read q = .ok manifest

/-- The fate of a visit below `n` more levels: it finishes what it reaches, and there is no
open chain of `n` steps, or it raises `ProfileDepthError`, and there is one. -/
def Fate (read : Text → Except String ProfileManifest) (maxDepth : ℤ) (s : WalkState)
    (result : Except ExtendsError WalkState) (reached : Text → Prop) (deep : Prop) : Prop :=
  (∃ s', result = .ok s' ∧ s'.Closed read ∧ (∀ q, q ∈ s'.done ↔ q ∈ s.done ∨ reached q) ∧ ¬ deep) ∨
    ((∃ profileId chain, result = .error (.depth profileId maxDepth chain)) ∧ deep)

theorem visitAll_fate (maxDepth : ℤ) (ancestors : List Text) (depth n : ℕ)
    (hvisit : ∀ p s, (∀ a ∈ ancestors, Relation.TransGen (Extends read) a p) → Readable read p →
      s.Closed read → Fate read maxDepth s (visit read maxDepth p ancestors depth s)
        (Reaches read p) (OpenAt read n (· ∈ s.done) p))
    (ps : List Text) (s : WalkState)
    (hbelow : ∀ p ∈ ps, ∀ a ∈ ancestors, Relation.TransGen (Extends read) a p)
    (hread : ∀ p ∈ ps, Readable read p) (hs : s.Closed read) :
    Fate read maxDepth s (visitAll read maxDepth ps ancestors depth s) (ReachedFrom read ps)
      (OpenChain read n (· ∈ s.done) ps) := by
  induction ps generalizing s with
  | nil =>
    rw [visitAll]
    refine Or.inl ⟨s, rfl, hs, ?_, ?_⟩
    · intro q
      simp [not_reachedFrom_nil]
    · cases n with
      | zero => simp [OpenChain]
      | succ n =>
        rintro ⟨l, p, r, manifest, hsplit, -⟩
        exact absurd hsplit (by simp)
  | cons p ps ih =>
    rw [visitAll, openChain_cons]
    rcases hvisit p s (hbelow p List.mem_cons_self) (hread p List.mem_cons_self) hs with
      ⟨s₁, hok, hs₁, hdone, hno⟩ | ⟨⟨profileId, chain, herr⟩, hdeep⟩
    · rw [hok]
      have hseen : (fun q => q ∈ s.done ∨ Reaches read p q) = (· ∈ s₁.done) :=
        funext fun q => propext (hdone q).symm
      rw [hseen]
      rcases ih s₁ (fun q hq => hbelow q (List.mem_cons_of_mem _ hq))
          (fun q hq => hread q (List.mem_cons_of_mem _ hq)) hs₁ with
        ⟨s₂, hok₂, hs₂, hdone₂, hno₂⟩ | ⟨herr, hdeep⟩
      · refine Or.inl ⟨s₂, hok₂, hs₂, ?_, not_or.mpr ⟨hno, hno₂⟩⟩
        intro q
        rw [hdone₂, hdone, reachedFrom_cons, or_assoc]
      · exact Or.inr ⟨herr, Or.inr hdeep⟩
    · rw [herr]
      exact Or.inr ⟨⟨profileId, chain, rfl⟩, Or.inl hdeep⟩

/-- What a profile reaches: itself, and what its parents reach. -/
theorem reaches_iff {p q : Text} {manifest : ProfileManifest} (hread : read p = .ok manifest) :
    Reaches read p q ↔ q = p ∨ ReachedFrom read manifest.extended q := by
  rw [Reaches, Relation.ReflTransGen.cases_head_iff]
  refine or_congr eq_comm ⟨?_, ?_⟩
  · rintro ⟨p', ⟨manifest', hread', hmem⟩, hr⟩
    rw [hread] at hread'
    exact ⟨p', Except.ok.inj hread' ▸ hmem, hr⟩
  · rintro ⟨p', hmem, hr⟩
    exact ⟨p', ⟨manifest, hread, hmem⟩, hr⟩

/-- The fate of a visit in an acyclic graph, by induction on the depth that is left. -/
theorem visit_fate (hacyclic : ∀ p, ¬ Relation.TransGen (Extends read) p p) (n : ℕ) (p : Text)
    (ancestors : List Text) (depth : ℕ) (s : WalkState) (hn : (maxDepth + 1 - depth).toNat = n)
    (hbelow : ∀ a ∈ ancestors, Relation.TransGen (Extends read) a p) (hp : Readable read p)
    (hs : s.Closed read) :
    Fate read maxDepth s (visit read maxDepth p ancestors depth s) (Reaches read p)
      (OpenAt read n (· ∈ s.done) p) := by
  induction n generalizing p ancestors depth s with
  | zero =>
    rw [visit, if_pos (by omega)]
    exact Or.inr ⟨⟨_, _, rfl⟩, trivial⟩
  | succ n ih =>
    rw [visit, if_neg (by omega), if_neg fun hanc => hacyclic p (hbelow p hanc)]
    by_cases hdone : p ∈ s.done
    · rw [if_pos hdone]
      refine Or.inl ⟨s, rfl, hs, ?_, fun hopen => hopen.1 hdone⟩
      intro q
      exact ⟨Or.inl, fun h => h.elim id (hs.reaches hdone)⟩
    · rw [if_neg hdone]
      obtain ⟨manifest, hread⟩ := hp p .refl
      have hparent : ∀ q ∈ manifest.extended, Extends read p q := fun q hq => ⟨manifest, hread, hq⟩
      have hall := visitAll_fate maxDepth (ancestors ++ [p]) (depth + 1) n
        (fun q t hq hrq ht => ih q _ _ t (by push_cast; omega) hq hrq ht) manifest.extended s
        (by
          intro q hq a ha
          rcases List.mem_append.mp ha with ha | ha
          · exact (hbelow a ha).tail (hparent q hq)
          · rw [List.mem_singleton.mp ha]
            exact .single (hparent q hq))
        (fun q hq x hx => hp x (hx.head (hparent q hq))) hs
      rw [hread]
      rcases hall with ⟨s₁, hok, hs₁, hdone₁, hno⟩ | ⟨⟨profileId, chain, herr⟩, hdeep⟩
      · simp only [hok]
        refine Or.inl ⟨_, rfl, ?_, ?_, ?_⟩
        · intro x hx q hq
          rcases Finset.mem_insert.mp hx with rfl | hx
          · obtain ⟨manifest', hread', hmem⟩ := hq
            rw [hread] at hread'
            exact Finset.mem_insert_of_mem
              ((hdone₁ q).mpr (Or.inr ⟨q, Except.ok.inj hread' ▸ hmem, .refl⟩))
          · exact Finset.mem_insert_of_mem (hs₁ x hx q hq)
        · intro q
          rw [Finset.mem_insert, hdone₁, reaches_iff hread]
          exact or_left_comm
        · rintro ⟨-, manifest', hread', hopen⟩
          rw [hread] at hread'
          exact hno (Except.ok.inj hread' ▸ hopen)
      · simp only [herr]
        exact Or.inr ⟨⟨profileId, chain, rfl⟩, hdone, manifest, hread, hdeep⟩

end Depth

/-- `resolve_extends` raises `ProfileDepthError`. -/
def RaisesDepth (read : Text → Except String ProfileManifest) (maxDepth : ℤ) (roots : List Text) :
    Prop :=
  ∃ profileId chain, resolveExtends read maxDepth roots = .error (.depth profileId maxDepth chain)

/-- Some extends chain that starts at a root has more than `maxDepth` steps. -/
def TooDeep (read : Text → Except String ProfileManifest) (maxDepth : ℤ) (roots : List Text) :
    Prop :=
  ∃ root ∈ roots, ∃ (n : ℕ) (q : Text), Chain read root n q ∧ maxDepth < n

section DepthLimit

variable {read : Text → Except String ProfileManifest} {roots : List Text}
  (hacyclic : ∀ p, ¬ Relation.TransGen (Extends read) p p)
  (hread : ∀ root ∈ roots, Readable read root)

include hacyclic hread

/-- The limit is noticed along open chains. -/
theorem raisesDepth_iff (maxDepth : ℤ) :
    RaisesDepth read maxDepth roots ↔
      OpenChain read (maxDepth + 1).toNat (fun _ => False) roots := by
  have hfate := visitAll_fate maxDepth [] 0 (maxDepth + 1).toNat
    (fun p s hbelow hp hs => visit_fate hacyclic _ p [] 0 s (by simp) hbelow hp hs)
    roots ⟨[], ∅⟩ (fun p _ => nofun) hread (fun p hp => absurd hp (Finset.notMem_empty p))
  simp only [Finset.notMem_empty] at hfate
  unfold RaisesDepth resolveExtends
  rcases hfate with ⟨s, hok, -, -, hno⟩ | ⟨⟨profileId, chain, herr⟩, hdeep⟩
  · rw [hok]
    constructor
    · rintro ⟨_, _, h⟩
      cases h
    · exact fun h => absurd h hno
  · rw [herr]
    exact ⟨fun _ => hdeep, fun _ => ⟨profileId, chain, rfl⟩⟩

end DepthLimit

/-- **When the depth limit is exact.** In an acyclic graph of readable profiles
`ProfileDepthError` says that some chain from a root is too deep, and says it whenever one
is, exactly if a chain that is too deep leaves an open one of `maxDepth + 1` steps. -/
theorem depth_exact_iff (read : Text → Except String ProfileManifest) (roots : List Text)
    (maxDepth : ℤ) (hacyclic : ∀ p, ¬ Relation.TransGen (Extends read) p p)
    (hread : ∀ root ∈ roots, Readable read root) :
    (RaisesDepth read maxDepth roots ↔ TooDeep read maxDepth roots) ↔
      (TooDeep read maxDepth roots →
        OpenChain read (maxDepth + 1).toNat (fun _ => False) roots) := by
  have hraises := raisesDepth_iff hacyclic hread maxDepth
  have hdeep : RaisesDepth read maxDepth roots → TooDeep read maxDepth roots := by
    intro h
    obtain ⟨root, hroot, q, hchain⟩ := (hraises.mp h).chain
    exact ⟨root, hroot, _, q, hchain, by omega⟩
  rw [← hraises]
  exact ⟨fun h => h.mpr, fun h => ⟨hdeep, h⟩⟩

/-- A chain of three steps. -/
def threeSteps : List (String × List String) :=
  [("a", ["b"]), ("b", ["c"]), ("c", ["d"]), ("d", [])]

theorem threeSteps_edges {p q : Text} (h : Extends (readTable threeSteps) p q) :
    (p, q) ∈ [("a".toList, "b".toList), ("b".toList, "c".toList), ("c".toList, "d".toList)] := by
  obtain ⟨e, he, rfl, hq⟩ := extends_readTable h
  fin_cases he
  · simp_all
  · simp_all
  · simp_all
  · simp_all

/-- Its edges go up the alphabet. -/
theorem threeSteps_acyclic (p : Text) :
    ¬ Relation.TransGen (Extends (readTable threeSteps)) p p := by
  have hedge : ∀ p q, Extends (readTable threeSteps) p q →
      (p.headD 'a').toNat < (q.headD 'a').toNat := by
    intro p q h
    have hall : ∀ e ∈ [("a".toList, "b".toList), ("b".toList, "c".toList),
        ("c".toList, "d".toList)], (e.1.headD 'a').toNat < (e.2.headD 'a').toNat := by
      decide
    exact hall _ (threeSteps_edges h)
  have hup : ∀ q, Relation.TransGen (Extends (readTable threeSteps)) p q →
      (p.headD 'a').toNat < (q.headD 'a').toNat := by
    intro q h
    induction h with
    | single hstep => exact hedge _ _ hstep
    | tail _ hstep ih => exact ih.trans (hedge _ _ hstep)
  exact fun hcycle => absurd (hup p hcycle) (Nat.lt_irrefl _)

theorem threeSteps_readable {p : Text} (hp : p ∈ ["a", "b", "c", "d"].map String.toList) :
    Readable (readTable threeSteps) p := by
  intro q hq
  have hmem : q ∈ ["a", "b", "c", "d"].map String.toList := by
    induction hq with
    | refl => exact hp
    | tail _ hstep _ =>
      have hedge := threeSteps_edges hstep
      simp only [List.mem_cons, Prod.mk.injEq, List.not_mem_nil, or_false] at hedge
      rcases hedge with ⟨-, rfl⟩ | ⟨-, rfl⟩ | ⟨-, rfl⟩ <;> decide
  have hread : ∀ x ∈ ["a", "b", "c", "d"].map String.toList,
      (readTable threeSteps x).isOk = true := by
    decide
  have hok := hread q hmem
  cases h : readTable threeSteps q with
  | error e =>
    rw [h] at hok
    cases hok
  | ok manifest => exact ⟨manifest, rfl⟩

/-- With the deepest root first the limit is noticed. -/
theorem depth_exact_deepest_first :
    (∀ p, ¬ Relation.TransGen (Extends (readTable threeSteps)) p p) ∧
      (∀ root ∈ ["a".toList, "b".toList], Readable (readTable threeSteps) root) ∧
      ((RaisesDepth (readTable threeSteps) 2 ["a".toList, "b".toList] ↔
          TooDeep (readTable threeSteps) 2 ["a".toList, "b".toList]) ↔
        (TooDeep (readTable threeSteps) 2 ["a".toList, "b".toList] →
          OpenChain (readTable threeSteps) 3 (fun _ => False) ["a".toList, "b".toList])) := by
  have hread : ∀ root ∈ ["a".toList, "b".toList], Readable (readTable threeSteps) root := by
    intro root hroot
    refine threeSteps_readable ?_
    fin_cases hroot
    · decide
    · decide
  exact ⟨threeSteps_acyclic, hread, depth_exact_iff _ _ 2 threeSteps_acyclic hread⟩

/-- With another root first it is not: the walk finishes `b` at depth 0, and does not look
below it again. The order of the roots decides. -/
theorem depth_limit_missed :
    (∀ p, ¬ Relation.TransGen (Extends (readTable threeSteps)) p p) ∧
      (∀ root ∈ ["b".toList, "a".toList], Readable (readTable threeSteps) root) ∧
      TooDeep (readTable threeSteps) 2 ["b".toList, "a".toList] ∧
      ¬ RaisesDepth (readTable threeSteps) 2 ["b".toList, "a".toList] ∧
      RaisesDepth (readTable threeSteps) 2 ["a".toList, "b".toList] := by
  have hedge : ∀ p q : String, (readTable threeSteps p.toList).toOption.any
      (fun m => m.extended.contains q.toList) = true → Extends (readTable threeSteps) p.toList q.toList := by
    intro p q h
    cases hread : readTable threeSteps p.toList with
    | error e => simp [hread, Except.toOption] at h
    | ok manifest => exact ⟨manifest, hread, by simpa [hread, Except.toOption] using h⟩
  refine ⟨threeSteps_acyclic, ?_, ?_, ?_, ?_⟩
  · intro root hroot
    refine threeSteps_readable ?_
    fin_cases hroot
    · decide
    · decide
  · refine ⟨"a".toList, by decide, 3, "d".toList, ?_, by decide⟩
    exact .cons (hedge "a" "b" (by decide)) (.cons (hedge "b" "c" (by decide))
      (.cons (hedge "c" "d" (by decide)) (.nil _)))
  · rintro ⟨profileId, chain, h⟩
    simp [resolveExtends, visitAll, visit, readTable, threeSteps] at h
  · exact ⟨"d".toList, ["a", "b", "c", "d"].map String.toList, by
      simp [resolveExtends, visitAll, visit, readTable, threeSteps]⟩

end CorpLlmGateway.Profiles
