import CorpLlmGateway.Data.Intervals
import CorpLlmGateway.Sanitizer.Orchestrator

/-!
# Layered rules

The model of `_LayeredRulesLoader` of `sanitizer/profile_orchestrator.py`: the rules of
the profile layers are appended to the rules of the team. The matches of all rules
compete for the text, longest first, so an added rule can take a stretch away from a
rule of the team.

* `ruleMatches_winners` — the matches that are selected are the winners;
* `replaced_iff` — what a plan of rule matches replaces;
* `layering_keeps` — when layering keeps every replaced position.
-/

namespace CorpLlmGateway.Sanitizer

open TextScan Intervals

/-- `_LayeredRulesLoader.load`: the profile's rules come behind the team's. -/
def layeredRules (base profileRules : Rules) : Rules := base ++ profileRules

/-- The plan of a text from its rule matches and their pairs. -/
def rulePlan (rules : Rules) (text : Text) : Except StaleSpanError ReplacementPlan :=
  let found := ruleMatches rules text
  planReplacements text (rulesPairs found) found none

/-- A position of the text is replaced. -/
def Replaced (rules : Rules) (text : Text) (p : ℕ) : Prop :=
  ∃ plan, rulePlan rules text = .ok plan ∧ ∃ s ∈ plan.spans, s.start ≤ p ∧ p < s.stop

/-! ## The matches of a list of rules -/

/-- A match of the rule number `index`. -/
structure RuleHit where
  index : ℕ
  start : ℕ
  stop : ℕ
deriving DecidableEq, Repr

def RuleHit.range (h : RuleHit) : ℕ × ℕ := (h.start, h.stop)

/-- Matches are tried by length, then in the order of the rules, then from left to right. -/
def RuleHit.sortKey (h : RuleHit) : ℤ ×ₗ ℕ ×ₗ ℕ :=
  toLex (-((h.stop : ℤ) - h.start), toLex (h.index, h.start))

def RuleHit.Ahead (a b : RuleHit) : Prop := a.sortKey < b.sortKey

theorem RuleHit.Ahead.asymm (a b : RuleHit) (h : a.Ahead b) : ¬b.Ahead a := lt_asymm h

/-- The matches of one numbered rule. -/
def hitsOf (text : Text) (r : Rule × ℕ) : List RuleHit :=
  (finditer (rulePattern r.1.pattern) text).map fun h => ⟨r.2, h.start, h.stop⟩

/-- The matches of all rules with a non-empty pattern. -/
def ruleHits (rules : Rules) (text : Text) : List RuleHit :=
  (rules.zipIdx.filter fun r => r.1.pattern ≠ []).flatMap (hitsOf text)

/-- A match wins if every overlapping match ahead of it loses. -/
def RuleWinner (rules : Rules) (text : Text) (h : RuleHit) : Prop :=
  Selection.Wins (fun d c => Overlap (RuleHit.range d) (RuleHit.range c)) RuleHit.Ahead
    (ruleHits rules text) h

/-- The ranges of the matches that win. -/
def WinnerRange (rules : Rules) (text : Text) (r : Interval) : Prop :=
  ∃ h, RuleWinner rules text h ∧ h.range = r

theorem hitsOf_length {text : Text} {r : Rule × ℕ} {h : RuleHit} (hh : h ∈ hitsOf text r) :
    h.index = r.2 ∧ h.stop = h.start + r.1.pattern.length := by
  obtain ⟨x, hx, rfl⟩ := List.mem_map.mp hh
  obtain ⟨_, hle, hat⟩ := mem_finditer hx
  have hlen := (litBy_at.mp hat).2
  exact ⟨rfl, by show x.stop = x.start + _; omega⟩

theorem ruleHits_nonempty {rules : Rules} {text : Text} :
    ∀ h ∈ ruleHits rules text, h.range.1 < h.range.2 := by
  intro h hh
  obtain ⟨r, hr, hh⟩ := List.mem_flatMap.mp hh
  have hne : r.1.pattern ≠ [] := by simpa using (List.mem_filter.mp hr).2
  have hpos := List.length_pos_iff.mpr hne
  have hlen := (hitsOf_length hh).2
  show h.start < h.stop
  omega

theorem RuleHit.sortKey_injective {a b : RuleHit} (h : a.sortKey = b.sortKey) : a = b := by
  rcases a with ⟨ia, sa, ea⟩
  rcases b with ⟨ib, sb, eb⟩
  simp only [RuleHit.sortKey, EmbeddingLike.apply_eq_iff_eq, Prod.mk.injEq, neg_inj] at h
  obtain ⟨hlen, rfl, rfl⟩ := h
  have hstop : ea = eb := by omega
  rw [hstop]

theorem WinnerRange.nonempty {rules : Rules} {text : Text} {r : Interval}
    (h : WinnerRange rules text r) : r.1 < r.2 := by
  obtain ⟨h, hh, rfl⟩ := h
  exact ruleHits_nonempty h hh.1

/-- The winners are pairwise disjoint. -/
theorem WinnerRange.eq_of_overlap {rules : Rules} {text : Text} {r r' : Interval}
    (h : WinnerRange rules text r) (h' : WinnerRange rules text r') (hover : Overlap r r') :
    r = r' := by
  obtain ⟨d, hd, rfl⟩ := h
  obtain ⟨c, hc, rfl⟩ := h'
  rcases lt_trichotomy d.sortKey c.sortKey with hlt | heq | hgt
  · exact absurd hover (hc.not_conflict hd hlt)
  · rw [RuleHit.sortKey_injective heq]
  · exact absurd hover.symm (hd.not_conflict hc hgt)

/-! ## The matches that are selected -/

/-- The numbered rules in the order in which they are tried. -/
def numberedRules (rules : Rules) : List (Rule × ℕ) :=
  rules.zipIdx.insertionSort fun a b => b.1.pattern.length ≤ a.1.pattern.length

theorem map_numberedRules (rules : Rules) : (numberedRules rules).map Prod.fst = orderedRules rules := by
  have hsort := List.map_insertionSort
    (fun a b : Rule × ℕ => b.1.pattern.length ≤ a.1.pattern.length)
    (fun a b : Rule => b.pattern.length ≤ a.pattern.length) Prod.fst rules.zipIdx
    fun a _ b _ => Iff.rfl
  rw [numberedRules, hsort, orderedRules, List.zipIdx_map_fst]

instance : Std.Total fun a b : Rule × ℕ => b.1.pattern.length ≤ a.1.pattern.length :=
  ⟨fun a b => le_total b.1.pattern.length a.1.pattern.length⟩

instance : IsTrans (Rule × ℕ) fun a b => b.1.pattern.length ≤ a.1.pattern.length :=
  ⟨fun _ _ _ hab hbc => le_trans hbc hab⟩

/-- Longer patterns come first, and equally long ones in the order of the rules. -/
theorem numberedRules_sorted (rules : Rules) :
    (numberedRules rules).Pairwise fun a b => b.1.pattern.length ≤ a.1.pattern.length ∧
      (a.1.pattern.length ≤ b.1.pattern.length → a.2 < b.2) := by
  refine Selection.pairwise_insertionSort_stable ?_
  have hidx : (rules.zipIdx.map Prod.snd).Pairwise (· < ·) := by
    rw [List.zipIdx_map_snd]
    exact List.pairwise_lt_range'
  exact List.pairwise_map.mp hidx

/-- The non-empty matches in the order in which they are tried. -/
def triedHits (rules : Rules) (text : Text) : List RuleHit :=
  ((numberedRules rules).filter fun r => r.1.pattern ≠ []).flatMap (hitsOf text)

theorem mem_triedHits {rules : Rules} {text : Text} {h : RuleHit} :
    h ∈ triedHits rules text ↔ h ∈ ruleHits rules text := by
  simp only [triedHits, ruleHits, numberedRules, List.mem_flatMap, List.mem_filter,
    List.mem_insertionSort]

theorem triedHits_sorted (rules : Rules) (text : Text) :
    (triedHits rules text).Pairwise fun a b => RuleHit.Ahead a b ∨ a = b := by
  rw [triedHits, List.pairwise_flatMap]
  constructor
  · -- the matches of one rule are listed from left to right
    intro r _
    rw [hitsOf, List.pairwise_map]
    refine (finditer_pairwise _ _).imp_of_mem ?_
    intro a b ha hb hab
    have hla := (hitsOf_length (r := r) (List.mem_map_of_mem ha)).2
    have hlb := (hitsOf_length (r := r) (List.mem_map_of_mem hb)).2
    simp only at hla hlb
    left
    simp only [RuleHit.Ahead, RuleHit.sortKey, Prod.Lex.toLex_lt_toLex]
    right
    exact ⟨by omega, Or.inr ⟨trivial, hab.1⟩⟩
  · refine ((numberedRules_sorted rules).sublist List.filter_sublist).imp ?_
    rintro r r' ⟨hle, hidx⟩ a ha b hb
    obtain ⟨hia, hla⟩ := hitsOf_length ha
    obtain ⟨hib, hlb⟩ := hitsOf_length hb
    left
    simp only [RuleHit.Ahead, RuleHit.sortKey, Prod.Lex.toLex_lt_toLex]
    rcases Nat.lt_or_ge r'.1.pattern.length r.1.pattern.length with hlt | hge
    · left
      omega
    · right
      have hlt := hidx hge
      exact ⟨by omega, Or.inl (by omega)⟩

theorem triedHits_nonempty (rules : Rules) (text : Text) :
    ∀ c ∈ triedHits rules text, c.range.1 < c.range.2 :=
  fun c hc => ruleHits_nonempty c (mem_triedHits.mp hc)

theorem wins_triedHits {rules : Rules} {text : Text} {h : RuleHit} :
    Selection.Wins (fun d c => Overlap (RuleHit.range d) (RuleHit.range c)) RuleHit.Ahead
      (triedHits rules text) h ↔ RuleWinner rules text h :=
  Selection.wins_congr fun _ => mem_triedHits

/-- The selected matches are the winners. -/
theorem mem_selectSpans_triedHits {rules : Rules} {text : Text} {h : RuleHit} :
    h ∈ selectSpans RuleHit.range (triedHits rules text) ↔ RuleWinner rules text h :=
  (mem_selectSpans_iff_wins (triedHits_nonempty rules text) RuleHit.Ahead.asymm
    (triedHits_sorted rules text)).trans wins_triedHits

/-- A match wins, or a winner ahead of it overlaps it. -/
theorem ruleWins_or_beaten {rules : Rules} {text : Text} {h : RuleHit}
    (hh : h ∈ ruleHits rules text) : RuleWinner rules text h ∨
      ∃ d, RuleWinner rules text d ∧ d.Ahead h ∧ Overlap d.range h.range := by
  have hfate := Selection.wins_or_beaten (refuse_iff_overlap RuleHit.range)
    (holds_accept RuleHit.range) RuleHit.Ahead.asymm (holds_nil RuleHit.range)
    (triedHits_nonempty rules text) (triedHits_sorted rules text) (mem_triedHits.mpr hh)
  simpa only [wins_triedHits] using hfate

theorem ranges_ruleCandidates (rules : Rules) (text : Text) :
    (ruleCandidates rules text).map MatchedRule.range =
      ((numberedRules rules).flatMap (hitsOf text)).map RuleHit.range := by
  rw [ruleCandidates, ← map_numberedRules, List.flatMap_map, List.map_flatMap, List.map_flatMap]
  simp only [hitsOf, List.map_map]
  rfl

/-- Empty patterns are tried last and match empty ranges only. -/
theorem numberedRules_split (rules : Rules) :
    ((numberedRules rules).filter fun r => r.1.pattern ≠ []) ++
      ((numberedRules rules).filter fun r => !decide (r.1.pattern ≠ [])) = numberedRules rules := by
  refine Selection.filter_append_filter_not ((numberedRules_sorted rules).imp ?_)
  intro a b hab hb
  rw [decide_eq_true_eq, ← List.length_pos_iff] at hb ⊢
  omega

/-- **The non-empty matches of a list of rules are the winners.** -/
theorem ruleMatches_winners {rules : Rules} {text : Text} {r : Interval} (hr : r.1 < r.2) :
    r ∈ (ruleMatches rules text).map MatchedRule.range ↔ WinnerRange rules text r := by
  have hranges : r ∈ (ruleMatches rules text).map MatchedRule.range ↔
      r ∈ (selectSpans RuleHit.range ((numberedRules rules).flatMap (hitsOf text))).map
        RuleHit.range := by
    rw [map_selectSpans, ← ranges_ruleCandidates, ← map_selectSpans]
    simp only [ruleMatches, List.mem_map, List.mem_insertionSort]
  rw [hranges, ← numberedRules_split, List.flatMap_append]
  obtain ⟨es, hes, hsub⟩ := selectSpans_append RuleHit.range (triedHits rules text)
    (((numberedRules rules).filter fun x : Rule × ℕ => !decide (x.1.pattern ≠ [])).flatMap
      (hitsOf text))
  -- what is selected behind the winners is empty
  have hempty : ∀ h ∈ es, h.range.1 = h.range.2 := by
    intro h hh
    obtain ⟨x, hx, hmem⟩ := List.mem_flatMap.mp (hsub.subset hh)
    have hnil : x.1.pattern = [] := by simpa using (List.mem_filter.mp hx).2
    have hlen := (hitsOf_length hmem).2
    rw [hnil] at hlen
    exact hlen.symm
  constructor
  · intro hmem
    obtain ⟨h, hh, rfl⟩ := List.mem_map.mp hmem
    rcases List.mem_append.mp (hes ▸ hh) with hh | hh
    · exact ⟨h, mem_selectSpans_triedHits.mp hh, rfl⟩
    · exact absurd (hempty h hh) (by omega)
  · rintro ⟨h, hh, rfl⟩
    refine List.mem_map_of_mem ?_
    exact hes ▸ List.mem_append_left es (mem_selectSpans_triedHits.mpr hh)

/-! ## What the plan replaces -/

theorem mem_rulesPairs {found : List MatchedRule} {e : Pair} :
    e ∈ rulesPairs found ↔ ∃ m ∈ found, (m.original, m.replacement) = e := by
  rw [rulesPairs, Dict.mem_keys_ofPairs]
  simp only [List.map_map, List.mem_map, Function.comp_apply]

/-- Every original that a plan of rule matches knows is owned by a rule. -/
theorem owned_of_mem_keys {found : List MatchedRule} {o : Text}
    (ho : o ∈ (uniquePairs (rulesPairs found)).keys) :
    o ∈ ownedOriginals (rulesPairs found) found none := by
  obtain ⟨e, he, rfl⟩ := List.mem_map.mp ho
  have hpair := (List.mem_filter.mp (Dict.mem_of_mem_entries_ofPairs he)).1
  obtain ⟨m, hm, heq⟩ := mem_rulesPairs.mp hpair
  exact mem_ownedOriginals.mpr ⟨m, hm, congrArg Prod.fst heq, by rw [heq]; exact he⟩

/-- The candidates of such a plan are the non-empty matches. -/
theorem mem_rulePool {text : Text} {found : List MatchedRule} {c : Candidate} :
    c ∈ planPool text (rulesPairs found) found none ↔
      ∃ m ∈ found, m.original ≠ [] ∧ c = ⟨0, ⟨m.start, m.stop, m.original⟩⟩ := by
  simp only [planPool, candidatePool, List.mem_insertionSort, candidates, List.mem_append]
  constructor
  · rintro (hc | hc)
    · obtain ⟨m, hm, rfl⟩ := List.mem_map.mp hc
      obtain ⟨hm, hact⟩ := List.mem_filter.mp hm
      exact ⟨m, hm, uniquePairs_ne_nil _ _ (of_decide_eq_true hact).2, rfl⟩
    · -- no original is left for the second kind of candidates
      obtain ⟨o, ho, _⟩ := List.mem_flatMap.mp hc
      obtain ⟨ho, hfree⟩ := List.mem_filter.mp ho
      exact absurd (owned_of_mem_keys ho) (of_decide_eq_true hfree)
  · rintro ⟨m, hm, hne, rfl⟩
    have hknown : m.original ∈ (uniquePairs (rulesPairs found)).keys :=
      mem_uniquePairs_keys (List.mem_map_of_mem (mem_rulesPairs.mpr ⟨m, hm, rfl⟩)) hne
    refine Or.inl (List.mem_map.mpr ⟨m, List.mem_filter.mpr ⟨hm, ?_⟩, rfl⟩)
    exact decide_eq_true ⟨owned_of_mem_keys hknown, hknown⟩

theorem MatchedRule.On.nonempty_iff {text : Text} {m : MatchedRule} (h : m.On text) :
    m.original ≠ [] ↔ m.start < m.stop := by
  have hlen := congrArg List.length h.covers
  rw [slice_length h.le h.bound] at hlen
  rw [← List.length_pos_iff]
  omega

/-- The selected spans of such a plan are the non-empty matches: none of them overlaps
another one. -/
theorem mem_selectSpans_rulePool {rules : Rules} {text : Text} {c : Candidate}
    (hc : c ∈ planPool text (rulesPairs (ruleMatches rules text)) (ruleMatches rules text) none) :
    ∃ d ∈ selectSpans Candidate.range
        (planPool text (rulesPairs (ruleMatches rules text)) (ruleMatches rules text) none),
      d.range = c.range := by
  have hon := ruleMatches_on rules text
  have hvalid := planPool_valid hon (rulesPairs (ruleMatches rules text)) none
  have hwinner : ∀ c ∈ planPool text (rulesPairs (ruleMatches rules text))
      (ruleMatches rules text) none, WinnerRange rules text c.range := by
    intro c hc
    obtain ⟨m, hm, hne, rfl⟩ := mem_rulePool.mp hc
    exact (ruleMatches_winners ((hon m hm).nonempty_iff.mp hne)).mp (List.mem_map_of_mem hm)
  have hlt : ∀ c ∈ planPool text (rulesPairs (ruleMatches rules text)) (ruleMatches rules text)
      none, (Candidate.range c).1 < (Candidate.range c).2 := fun c hc => (hvalid c hc).lt
  obtain ⟨d, hd, hmeets⟩ := exists_selectSpans_overlap hlt
    (candidatePool_sorted hon (uniquePairs_ne_nil _)) hc
  refine ⟨d, hd, ?_⟩
  have hd' := hwinner d ((Selection.greedy_sublist _ _).subset hd)
  exact hd'.eq_of_overlap (hwinner c hc) hmeets

/-- A position is replaced exactly if a winning match covers it. -/
theorem replaced_iff {rules : Rules} {text : Text} {p : ℕ} :
    Replaced rules text p ↔ Within (WinnerRange rules text) p := by
  have hon := ruleMatches_on rules text
  obtain ⟨plan, hplan, hspans⟩ := plan_ok hon (rulesPairs (ruleMatches rules text)) none
  have hmem : ∀ s, s ∈ plan.spans ↔ ∃ c ∈ selectSpans Candidate.range
      (planPool text (rulesPairs (ruleMatches rules text)) (ruleMatches rules text) none),
      c.span = s := by
    intro s
    rw [hspans, planSpans, List.mem_insertionSort, List.mem_map]
  constructor
  · rintro ⟨plan', hplan', s, hs, hp⟩
    have hsame : plan' = plan := Except.ok.inj (hplan'.symm.trans hplan)
    obtain ⟨c, hc, rfl⟩ := (hmem s).mp (hsame ▸ hs)
    obtain ⟨m, hm, hne, rfl⟩ := mem_rulePool.mp ((Selection.greedy_sublist _ _).subset hc)
    refine ⟨m.range, ?_, hp⟩
    exact (ruleMatches_winners ((hon m hm).nonempty_iff.mp hne)).mp (List.mem_map_of_mem hm)
  · rintro ⟨w, hw, hp⟩
    have hne := hw.nonempty
    obtain ⟨m, hm, rfl⟩ := List.mem_map.mp ((ruleMatches_winners hne).mpr hw)
    obtain ⟨d, hd, hrange⟩ := mem_selectSpans_rulePool
      (mem_rulePool.mpr ⟨m, hm, (hon m hm).nonempty_iff.mpr hne, rfl⟩)
    refine ⟨plan, hplan, d.span, (hmem _).mpr ⟨d, hd, rfl⟩, ?_⟩
    have hstart : d.span.start = m.start := congrArg Prod.fst hrange
    have hstop : d.span.stop = m.stop := congrArg Prod.snd hrange
    rw [hstart, hstop]
    exact hp

/-! ## Adding rules -/

/-- Adding rules adds matches. -/
theorem ruleHits_layered {base profileRules : Rules} {text : Text} :
    ∀ h ∈ ruleHits base text, h ∈ ruleHits (layeredRules base profileRules) text := by
  intro h hh
  obtain ⟨r, hr, hh⟩ := List.mem_flatMap.mp hh
  obtain ⟨hr, hne⟩ := List.mem_filter.mp hr
  refine List.mem_flatMap.mpr ⟨r, List.mem_filter.mpr ⟨?_, hne⟩, hh⟩
  rw [layeredRules, List.zipIdx_append]
  exact List.mem_append_left _ hr

/-- **When layering only adds redaction.** Every position replaced with the team's rules is
replaced with the layered rules if a match of an added rule that comes before a match of the
team's rules and overlaps it contains it. -/
theorem layering_keeps (text : Text) (base profileRules : Rules)
    (hnested : ∀ h ∈ ruleHits base text, ∀ d ∈ ruleHits (layeredRules base profileRules) text,
      d ∉ ruleHits base text → d.Ahead h → Overlap d.range h.range →
        d.start ≤ h.start ∧ h.stop ≤ d.stop) :
    ∀ p, Replaced base text p → Replaced (layeredRules base profileRules) text p := by
  intro p
  simp only [replaced_iff]
  rintro ⟨_, ⟨h, hh, rfl⟩, hle, hlt⟩
  have htrans : ∀ a b c : RuleHit, a.Ahead b → b.Ahead c → a.Ahead c := fun _ _ _ => lt_trans
  have hmono : ∀ a b c : RuleHit, a.start ≤ b.start ∧ b.stop ≤ a.stop → Overlap b.range c.range →
      Overlap a.range c.range := by
    rintro a b c ⟨hstart, hstop⟩ ⟨hleft, hright⟩
    exact ⟨hstart.trans_lt hleft, hright.trans_le hstop⟩
  rcases Selection.Wins.covered htrans hmono ruleHits_layered
    (fun c hc => ruleWins_or_beaten hc) hnested hh with hwin | ⟨d, hd, -, hstart, hstop⟩
  · exact ⟨_, ⟨h, hwin, rfl⟩, hle, hlt⟩
  · exact ⟨_, ⟨d, hd, rfl⟩, hstart.trans hle, hlt.trans_le hstop⟩

/-- An added rule that extends a match of the team's rules, and one that a match of the
team's rules contains. -/
theorem layering_keeps_extended :
    Replaced [⟨"abc".toList, "A".toList⟩] "xabcx".toList 2 ∧
      Replaced (layeredRules [⟨"abc".toList, "A".toList⟩]
        [⟨"xabcx".toList, "B".toList⟩, ⟨"b".toList, "C".toList⟩]) "xabcx".toList 2 := by
  have hbase : rulePlan [⟨"abc".toList, "A".toList⟩] "xabcx".toList =
      .ok ⟨"xAx".toList, [("abc".toList, "A".toList)], [⟨1, 4, "abc".toList⟩], {"abc".toList}⟩ := by
    decide +kernel
  have hreplaced : Replaced [⟨"abc".toList, "A".toList⟩] "xabcx".toList 2 :=
    ⟨_, hbase, _, List.mem_singleton_self _, by decide⟩
  refine ⟨hreplaced, layering_keeps "xabcx".toList [⟨"abc".toList, "A".toList⟩]
    [⟨"xabcx".toList, "B".toList⟩, ⟨"b".toList, "C".toList⟩] ?_ 2 hreplaced⟩
  unfold RuleHit.Ahead Overlap
  decide +kernel

/-- The added rule takes two characters of the team's match and leaves the first one. -/
theorem layering_exposes :
    Replaced [⟨"abc".toList, "A".toList⟩] "abcde".toList 0 ∧
      ¬ Replaced (layeredRules [⟨"abc".toList, "A".toList⟩] [⟨"bcde".toList, "B".toList⟩])
        "abcde".toList 0 := by
  have hbase : rulePlan [⟨"abc".toList, "A".toList⟩] "abcde".toList =
      .ok ⟨"Ade".toList, [("abc".toList, "A".toList)], [⟨0, 3, "abc".toList⟩], {"abc".toList}⟩ := by
    decide +kernel
  have hlayered : rulePlan (layeredRules [⟨"abc".toList, "A".toList⟩]
      [⟨"bcde".toList, "B".toList⟩]) "abcde".toList =
      .ok ⟨"aB".toList, [("bcde".toList, "B".toList)], [⟨1, 5, "bcde".toList⟩],
        {"bcde".toList}⟩ := by
    decide +kernel
  constructor
  · exact ⟨_, hbase, _, List.mem_singleton_self _, by decide⟩
  · rintro ⟨plan, hplan, s, hs, hp⟩
    have hsame := Except.ok.inj (hplan.symm.trans hlayered)
    rw [hsame, List.mem_singleton] at hs
    rw [hs] at hp
    exact absurd hp.1 (by decide)

end CorpLlmGateway.Sanitizer
