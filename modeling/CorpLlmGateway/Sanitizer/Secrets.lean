import CorpLlmGateway.Data.Selection
import CorpLlmGateway.Sanitizer.Merge

/-!
# Secrets under the allowlist

What `Allowlist.filter_pairs` does to the output of `_merge_local`. The filter knows a
secret by the label in its placeholder, and the placeholder of a text is that of
whoever claimed the text first: a base pair, or the first finding in the order of the
merge. A finding with the label of a secret can come too late for both.

* `labelOf_label` — the label of a placeholder that the merge makes;
* `exists_mem_mergeLocal` — which placeholder a text gets;
* `filterPairs_keeps_secrets_iff` — when the allowlist lets no secret through.
-/

namespace CorpLlmGateway.Sanitizer

open Numerals Results Selection CorpLlmGateway.Detectors

namespace Allowlist

/-! ## The label of a placeholder -/

/-- A label of the right characters is read back from its placeholder. -/
theorem labelOf_label {l digits : Text} (hl : ∀ c ∈ l, Merge.isLabelChar c = true) (hne : l ≠ [])
    (hdne : digits ≠ []) (hdig : ∀ d ∈ digits, Unicode.isDecimal d = true) :
    labelOf (label l digits) = some l := by
  rw [labelOf, labelGroups_label hl hne hdne hdig, Option.map_some]

/-- No other label is read from it. -/
theorem labelOf_label_eq_some {l digits s : Text}
    (hdig : ∀ d ∈ digits, Unicode.isDecimal d = true) (h : labelOf (label l digits) = some s) :
    s = l := by
  obtain ⟨⟨u, v⟩, hgroups, rfl⟩ := Option.map_eq_some_iff.mp h
  obtain ⟨rest, hsplit, hrest, -, hv⟩ := labelGroups_sound hgroups
  exact (label_split_unique hdig hv hrest hsplit).2.2

/-- The labels of secrets have the characters of a label. -/
theorem secretLabels_chars :
    ∀ l ∈ secretLabels, l ≠ [] ∧ ∀ c ∈ l, Merge.isLabelChar c = true := by
  have hall : secretLabels.all (fun l => !l.isEmpty && l.all Merge.isLabelChar) = true := by decide
  intro l hl
  simpa using List.all_eq_true.mp hall l hl

/-- Whether the filter takes a pair for a secret. -/
def isSecret (placeholder : Text) : Bool := (labelOf placeholder).any secretLabels.contains

/-- The filter knows exactly the findings with the label of a secret. -/
theorem isSecret_label (l : Text) (n : ℕ) :
    isSecret (label l (index03d n)) = true ↔ l ∈ secretLabels := by
  have hdig := RequestPlaceholderAllocator.index03d_isDecimal n
  constructor
  · intro h
    cases hlabel : labelOf (label l (index03d n)) with
    | none => simp [isSecret, hlabel] at h
    | some s =>
      obtain rfl := labelOf_label_eq_some hdig hlabel
      simpa [isSecret, hlabel] using h
  · intro h
    obtain ⟨hne, hchars⟩ := secretLabels_chars l h
    have hdne : index03d n ≠ [] := by
      have hlen := RequestPlaceholderAllocator.three_le_length_index03d n
      intro hnil
      simp [hnil] at hlen
    rw [isSecret, labelOf_label hchars hne hdne hdig]
    simpa using h

end Allowlist

namespace Merge

/-! ## Who claims a text -/

instance : Std.Total findingLe := ⟨fun f g => le_total (sortKey f) (sortKey g)⟩

instance : IsTrans Finding findingLe := ⟨fun _ _ _ => le_trans⟩

/-- The finding that the merge meets first for a text. -/
def Claims (findings : List Finding) (text : Text) (g : Finding) : Prop :=
  First findingLe (fun f => f.text == text) findings g

theorem exists_claims {findings : List Finding} {f : Finding} (hf : f ∈ findings) :
    ∃ g, Claims findings f.text g := by
  have hfound : ((findings.insertionSort findingLe).find? fun g => g.text == f.text).isSome = true :=
    List.find?_isSome.mpr ⟨f, (List.mem_insertionSort _).mpr hf, by simp⟩
  obtain ⟨g, hg⟩ := Option.isSome_iff_exists.mp hfound
  exact ⟨g, find?_insertionSort.mp hg⟩

theorem Claims.unique {findings : List Finding} {text : Text} {g g' : Finding}
    (h : Claims findings text g) (h' : Claims findings text g') : g = g' :=
  Option.some.inj ((find?_insertionSort.mpr h).symm.trans (find?_insertionSort.mpr h'))

theorem Claims.text_eq {findings : List Finding} {text : Text} {g : Finding}
    (h : Claims findings text g) : g.text = text := by
  simpa using List.find?_some (find?_insertionSort.mpr h)

/-- New pairs stay. -/
theorem State.mem_newPairs_run {findings : List Finding} {s s' : State} {e : Pair}
    (hrun : findings.foldlM State.step s = .ok s') (he : e ∈ s.newPairs) : e ∈ s'.newPairs := by
  induction findings generalizing s with
  | nil =>
    cases hrun
    exact he
  | cons f findings ih =>
    obtain ⟨t, hstep, hrest⟩ := bind_eq_ok hrun
    refine ih hrest ?_
    obtain ⟨-, rfl⟩ | ⟨-, -, rfl⟩ := State.step_cases hstep
    · exact he
    · exact List.mem_append_left _ he

/-- The first finding of a text names its placeholder. -/
theorem State.exists_newPair {findings : List Finding} {s s' : State} {text : Text} {g : Finding}
    (hrun : findings.foldlM State.step s = .ok s') (hnew : text ∉ s.seenOriginals)
    (hfind : findings.find? (fun f => f.text == text) = some g) :
    ∃ n, (text, label g.label (index03d n)) ∈ s'.newPairs := by
  induction findings generalizing s with
  | nil => simp at hfind
  | cons f findings ih =>
    obtain ⟨t, hstep, hrest⟩ := bind_eq_ok hrun
    by_cases hf : f.text = text
    · rw [List.find?_cons_of_pos (by simpa using hf)] at hfind
      obtain rfl := Option.some.inj hfind
      obtain ⟨hseen, -⟩ | ⟨-, -, rfl⟩ := State.step_cases hstep
      · exact absurd (hf ▸ hseen) hnew
      · exact ⟨s.freeNumber f.label, State.mem_newPairs_run hrest (by simp [State.add, hf])⟩
    · rw [List.find?_cons_of_neg (by simpa using hf)] at hfind
      refine ih hrest ?_ hfind
      obtain ⟨-, rfl⟩ | ⟨-, -, rfl⟩ := State.step_cases hstep
      · exact hnew
      · simpa [State.add] using ⟨hnew, Ne.symm hf⟩

end Merge

/-- The pair of a text after the merge: the base pair, or else one with the label of the
finding that claims it. -/
theorem exists_mem_mergeLocal {base out : List Pair} {findings : List Finding} {text : Text}
    {g : Finding} (h : mergeLocal base findings = .ok out) (hnew : text ∉ base.map Prod.fst)
    (hg : Merge.Claims findings text g) :
    ∃ n, ∀ p, (text, p) ∈ out ↔ p = label g.label (index03d n) := by
  obtain ⟨⟨new, heq, hnodup, -⟩, -⟩ := mergeLocal_merged h
  obtain ⟨labelMax, s, -, hrun, rfl⟩ := mergeLocal_eq_ok h
  obtain ⟨n, hmem⟩ := Merge.State.exists_newPair hrun hnew (find?_insertionSort.mpr hg)
  rw [List.append_cancel_left heq] at hmem ⊢
  refine ⟨n, fun p => ?_⟩
  rw [List.mem_append]
  constructor
  · rintro (h | h)
    · exact absurd (List.mem_map_of_mem h) hnew
    · exact (Prod.mk.inj (List.inj_on_of_nodup_map hnodup h hmem rfl)).2
  · rintro rfl
    exact .inr hmem

namespace Allowlist

/-- A text is out of reach of the allowlist: it is not on it, or the pair it gets in the
merge has the label of a secret. -/
def Held (allowed : List Text) (base : List Pair) (findings : List Finding) (text : Text) : Prop :=
  text ∉ allowed ∨ (∃ p, (text, p) ∈ base ∧ isSecret p = true) ∨
    text ∉ base.map Prod.fst ∧ ∃ g, Merge.Claims findings text g ∧ g.label ∈ secretLabels

/-- A pair of the filtered merge, by the two tests of the filter. -/
theorem mem_filterPairs_mergeLocal {allowed : List Text} {pairs : List Pair} {text : Text} :
    text ∈ (filterPairs allowed pairs).map Prod.fst ↔
      ∃ p, (text, p) ∈ pairs ∧ (text ∉ allowed ∨ isSecret p = true) := by
  simp [mem_filterPairs, keeps, isSecret]

/-- A text of the base keeps its base pairs and gets no other. -/
theorem held_of_mem_base {allowed : List Text} {base out : List Pair} {findings : List Finding}
    {text : Text} (h : mergeLocal base findings = .ok out) (hbase : text ∈ base.map Prod.fst) :
    text ∈ (filterPairs allowed out).map Prod.fst ↔ Held allowed base findings text := by
  obtain ⟨⟨new, heq, -, hfresh, -⟩, -⟩ := mergeLocal_merged h
  have hmem : ∀ p, (text, p) ∈ out ↔ (text, p) ∈ base := by
    intro p
    rw [heq, List.mem_append, or_iff_left]
    intro hnew
    exact hfresh text (List.mem_map_of_mem hnew) hbase
  simp only [mem_filterPairs_mergeLocal, hmem]
  constructor
  · rintro ⟨p, hp, hnot | hsecret⟩
    · exact .inl hnot
    · exact .inr (.inl ⟨p, hp, hsecret⟩)
  · rintro (hnot | ⟨p, hp, hsecret⟩ | ⟨hnew, -⟩)
    · obtain ⟨⟨_, p⟩, hp, rfl⟩ := List.mem_map.mp hbase
      exact ⟨p, hp, .inl hnot⟩
    · exact ⟨p, hp, .inr hsecret⟩
    · exact absurd hbase hnew

/-- Any other text that was found gets one pair, from the finding that claims it. -/
theorem held_of_not_mem_base {allowed : List Text} {base out : List Pair}
    {findings : List Finding} {f : Finding} (h : mergeLocal base findings = .ok out)
    (hf : f ∈ findings) (hbase : f.text ∉ base.map Prod.fst) :
    f.text ∈ (filterPairs allowed out).map Prod.fst ↔ Held allowed base findings f.text := by
  obtain ⟨g, hg⟩ := Merge.exists_claims hf
  obtain ⟨n, hmem⟩ := exists_mem_mergeLocal h hbase hg
  simp only [mem_filterPairs_mergeLocal, hmem, exists_eq_left, isSecret_label]
  constructor
  · rintro (hnot | hsecret)
    · exact .inl hnot
    · exact .inr (.inr ⟨hbase, g, hg, hsecret⟩)
  · rintro (hnot | ⟨p, hp, -⟩ | ⟨-, g', hg', hsecret⟩)
    · exact .inl hnot
    · exact absurd (List.mem_map_of_mem hp) hbase
    · exact .inr (hg'.unique hg ▸ hsecret)

theorem newcomers_sublist (seen : List Text) (findings : List Finding) :
    (Merge.newcomers seen findings).Sublist findings := by
  fun_induction Merge.newcomers seen findings with
  | case1 => exact .slnil
  | case2 seen f findings hseen ih => exact .cons f ih
  | case3 seen f findings hnew ih => exact .cons_cons f ih

/-- Without base pairs, every number from 1 on is free. -/
theorem convertible_nil {findings : List Finding} (h : findings.length < 10 ^ maxStrDigits) :
    Merge.Convertible [] findings := by
  refine ⟨by simp, fun l => ?_⟩
  have hnew : (Merge.newcomers [] (findings.insertionSort Merge.findingLe)).countP
      (fun f => f.label = l) ≤ findings.length := by
    refine List.countP_le_length.trans ((newcomers_sublist _ _).length_le.trans ?_)
    rw [List.length_insertionSort]
  obtain ⟨k, hk⟩ := Nat.exists_eq_add_of_lt h
  have hall : Nat.count (fun i => Merge.Free [] l (1 + i)) (findings.length + k) =
      findings.length + k := Nat.count_of_forall fun i _ => ⟨by omega, by simp, by simp⟩
  rw [hk, Nat.add_comm _ 1, Nat.count_add, hall]
  exact hnew.trans (by omega)

/-- Without rule and oracle pairs, a text that is only ever found as a secret is kept. -/
theorem filterPairs_keeps_of_agreeing {allowed : List Text} {findings : List Finding} {f : Finding}
    (hlen : findings.length < 10 ^ maxStrDigits) (hf : f ∈ findings)
    (hagree : ∀ g ∈ findings, g.text = f.text → g.label ∈ secretLabels) :
    ∃ pairs, mergeLocal [] findings = .ok pairs ∧
      f.text ∈ (filterPairs allowed pairs).map Prod.fst := by
  obtain ⟨pairs, hpairs⟩ := (mergeLocal_returns_iff [] findings).mpr (convertible_nil hlen)
  refine ⟨pairs, hpairs, (held_of_not_mem_base hpairs hf (by simp)).mpr ?_⟩
  obtain ⟨g, hg⟩ := Merge.exists_claims hf
  exact .inr (.inr ⟨by simp, g, hg, hagree g hg.mem hg.text_eq⟩)

theorem filterPairs_keeps_of_agreeing_password :
    let f : Finding := ⟨"hunter2".toList, "PASSWORD".toList, 0, 7, 1⟩
    f.label ∈ secretLabels ∧ ∃ pairs, mergeLocal [] [f] = .ok pairs ∧
      f.text ∈ (filterPairs [f.text] pairs).map Prod.fst := by
  intro f
  have hlabel : f.label ∈ secretLabels := by decide +kernel
  exact ⟨hlabel, filterPairs_keeps_of_agreeing (Nat.one_lt_pow (by decide) (by decide))
    List.mem_cons_self (by simpa using hlabel)⟩

end Allowlist

end CorpLlmGateway.Sanitizer
