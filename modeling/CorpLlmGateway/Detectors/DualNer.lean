import CorpLlmGateway.Detectors.Finding

/-!
# Two engines for names

The model of `detectors/dual_ner.py`. The engines are asked one after the other; one that
raises `RuntimeError` is disabled for good. While an engine is awaited, other calls may
disable further ones.

* `runEngines_ok` — what a call has collected when no engine is disabled;
* `detect_failClosed` — where the engines are required, a call that returns has asked them all.
-/

namespace CorpLlmGateway.Detectors

/-- How `engine.detect(text)` ends: with findings, a `RuntimeError` or another exception. -/
inductive EngineResult (ε : Type) where
  | found (findings : List Finding)
  | runtimeError
  | raised (e : ε)

/-- What `DualNerDetector.detect` raises. -/
inductive DualNerError (ε : Type) where
  | unavailable (disabled : Finset ℕ)
  | engine (e : ε)

variable {ε : Type}

/-- The engines of a call: how each one ends, and which engines other calls disable while it
is awaited. -/
abbrev Engines (ε : Type) := List (EngineResult ε × Finset ℕ)

/-- The loop over the engines from an index on, with the disabled ones and the findings so
far. -/
def runEngines : ℕ → Engines ε → Finset ℕ → List Finding → Except ε (List Finding) × Finset ℕ
  | _, [], disabled, raw => (.ok raw, disabled)
  | i, engine :: engines, disabled, raw =>
      if i ∈ disabled then runEngines (i + 1) engines disabled raw
      else
        match engine.1 with
        | .found findings => runEngines (i + 1) engines (disabled ∪ engine.2) (raw ++ findings)
        | .runtimeError => runEngines (i + 1) engines (insert i (disabled ∪ engine.2)) raw
        | .raised e => (.error e, disabled ∪ engine.2)

/-- `detect(text)`, and the engines disabled behind it. -/
def DualNer.detect (requireNer : Bool) (engines : Engines ε) (disabled : Finset ℕ) :
    Except (DualNerError ε) (List Finding) × Finset ℕ :=
  match runEngines 0 engines disabled [] with
  | (.error e, disabled) => (.error (.engine e), disabled)
  | (.ok raw, disabled) =>
      if requireNer ∧ disabled ≠ ∅ then (.error (.unavailable disabled), disabled)
      else (.ok (deduplicate raw), disabled)

/-- The findings of an engine that answered. -/
def EngineResult.findings : EngineResult ε → List Finding
  | .found findings => findings
  | .runtimeError | .raised _ => []

/-- A disabled engine stays so. -/
theorem subset_runEngines (i : ℕ) (engines : Engines ε) (disabled : Finset ℕ)
    (raw : List Finding) : disabled ⊆ (runEngines i engines disabled raw).2 := by
  induction engines generalizing i disabled raw with
  | nil => exact Finset.Subset.refl _
  | cons engine engines ih =>
    rw [runEngines]
    split_ifs
    · exact ih (i + 1) disabled raw
    · have hunion : disabled ⊆ disabled ∪ engine.2 := Finset.subset_union_left
      cases engine.1 with
      | found findings => exact hunion.trans (ih _ _ _)
      | runtimeError => exact (hunion.trans (Finset.subset_insert i _)).trans (ih _ _ _)
      | raised e => exact hunion

theorem runEngines_ok {i : ℕ} {engines : Engines ε} {disabled : Finset ℕ} {raw out : List Finding}
    (h : runEngines i engines disabled raw = (.ok out, ∅)) :
    (∀ engine ∈ engines, engine.1 = .found engine.1.findings) ∧
      out = raw ++ engines.flatMap fun engine => engine.1.findings := by
  induction engines generalizing i disabled raw with
  | nil =>
    cases h
    simp
  | cons engine engines ih =>
    have hempty : disabled = ∅ := by
      have hsub := subset_runEngines i (engine :: engines) disabled raw
      rwa [h, Finset.subset_empty] at hsub
    rw [runEngines, if_neg (by simp [hempty])] at h
    cases hresult : engine.1 with
    | found findings =>
      rw [hresult] at h
      obtain ⟨hall, heq⟩ := ih h
      refine ⟨List.forall_mem_cons.mpr ⟨by rw [hresult]; rfl, hall⟩, ?_⟩
      simp [heq, hresult, EngineResult.findings]
    | runtimeError =>
      -- the engine would be disabled behind the call
      simp only [hresult] at h
      have hsub := subset_runEngines (i + 1) engines (insert i (disabled ∪ engine.2)) raw
      rw [h] at hsub
      exact absurd (hsub (Finset.mem_insert_self i _)) (Finset.notMem_empty i)
    | raised e =>
      rw [hresult] at h
      cases h

/-- **Required engines fail closed.** Whatever was disabled before or is disabled by other calls
meanwhile, a call that returns was answered by every engine, and returns the findings of all. -/
theorem DualNer.detect_failClosed (engines : Engines ε) (disabled : Finset ℕ)
    {findings : List Finding} (h : (detect true engines disabled).1 = .ok findings) :
    (∀ engine ∈ engines, engine.1 = .found engine.1.findings) ∧
      findings = deduplicate (engines.flatMap fun engine => engine.1.findings) := by
  unfold detect at h
  rcases hrun : runEngines 0 engines disabled [] with ⟨result, after⟩
  rw [hrun] at h
  cases result with
  | error e => cases h
  | ok raw =>
    by_cases hafter : after = ∅
    · subst hafter
      obtain ⟨hall, rfl⟩ := runEngines_ok hrun
      exact ⟨hall, (Except.ok.inj h).symm⟩
    · simp [hafter] at h

/-- Two engines that find overlapping names: the longer one of the same score is returned. -/
theorem DualNer.detect_failClosed_two :
    let short : Finding := ⟨"Ann".toList, "PERSON".toList, 0, 3, 9 / 10⟩
    let long : Finding := ⟨"Ann Lee".toList, "PERSON".toList, 0, 7, 9 / 10⟩
    let engines : Engines Unit := [(.found [short], ∅), (.found [long], ∅)]
    (detect true engines ∅).1 = .ok [long] ∧
      (∀ engine ∈ engines, engine.1 = .found engine.1.findings) ∧
      [long] = deduplicate (engines.flatMap fun engine => engine.1.findings) := by
  intro short long engines
  have hkept : deduplicate [short, long] = [long] := by decide +kernel
  have hok : (detect true engines ∅).1 = .ok [long] := by
    rw [← hkept]
    rfl
  exact ⟨hok, detect_failClosed engines ∅ hok⟩

end CorpLlmGateway.Detectors
