import MindRoom.CompactionInputs

/-! # Compaction inputs fit and make progress

With an estimator that adds up, an input is as large as its frame and its runs together. So what is packed
fits, a budget that leaves room for the envelope of one run is enough for an input with a run, and every
chunk takes at least one run out of the selection.
-/

namespace MindRoom.CompactionInputs

def Additive (estimate : String → Nat) : Prop := ∀ a b, estimate (a ++ b) = estimate a + estimate b

/-! ## Building an input -/

section

variable {ρ : Type*} {estimate : String → Nat} {view : ρ → RunView} {previousSummary : Option String}
  {runs : List ρ} {maxInputTokens : Int}

theorem Additive.estimate_empty (h : Additive estimate) : estimate "" = 0 := by
  have hdouble := h "" ""
  rw [String.append_empty] at hdouble
  omega

/-- An input is as large as its frame and its runs. -/
theorem Additive.estimate_compose (h : Additive estimate) (block text : String) :
    estimate (composeSummaryInput block text) = estimate (composeSummaryInput block "") + estimate text := by
  have hempty := h.estimate_empty
  unfold composeSummaryInput
  dsimp only
  split
  · rw [h, h, h, h, hempty]
    omega
  · rw [h, h, h, h, h, h, h, h, hempty]
    omega

/-- An input starts with the block of the previous summary. -/
theorem composeSummaryInput_block (block text : String) : ∃ rest, composeSummaryInput block text = block ++ rest := by
  unfold composeSummaryInput
  dsimp only
  split
  · next hempty =>
    rw [hempty]
    exact ⟨_, (String.empty_append).symm⟩
  · exact ⟨_, String.append_assoc⟩

theorem join_concat {sep part : String} {parts : List String} (h : parts ≠ []) :
    join sep (parts ++ [part]) = join sep parts ++ (sep ++ part) := by
  cases parts with
  | nil => exact absurd rfl h
  | cons first parts =>
    rw [List.cons_append, join, join, List.foldl_append, List.foldl_cons, List.foldl_nil, String.append_assoc]

/-- Joined parts are as large as what each adds. -/
theorem Additive.estimate_join_concat (h : Additive estimate) (parts : List String) (part : String) :
    estimate (join "\n\n" (parts ++ [part])) =
      estimate (join "\n\n" parts) + estimate ((if parts = [] then "" else "\n\n") ++ part) := by
  by_cases hparts : parts = []
  · rw [if_pos hparts, hparts, String.empty_append]
    have hempty := h.estimate_empty
    change estimate part = estimate "" + estimate part
    omega
  · rw [if_neg hparts, join_concat hparts, h]

/-- Packing takes a prefix of the runs, and their tokens off what remains. -/
theorem packRuns_spec (h : Additive estimate) (index : Nat) (packed : Packed ρ) (hremaining : 0 ≤ packed.remaining) :
    (∃ taken, (packRuns estimate view index packed runs).includedRuns = packed.includedRuns ++ taken ∧ taken <+: runs) ∧
      0 ≤ (packRuns estimate view index packed runs).remaining ∧
      estimate (join "\n\n" (packRuns estimate view index packed runs).serializedRuns) +
          (packRuns estimate view index packed runs).remaining =
        estimate (join "\n\n" packed.serializedRuns) + packed.remaining := by
  induction runs generalizing index packed with
  | nil => exact ⟨⟨[], by rw [packRuns, List.append_nil], List.nil_prefix⟩, hremaining, rfl⟩
  | cons run runs ih =>
    have hsize := h.estimate_join_concat packed.serializedRuns (serializeRun (view run) index)
    rw [packRuns]
    generalize (if packed.serializedRuns = [] then "" else "\n\n") = separator at hsize ⊢
    split
    · exact ⟨⟨[], by rw [List.append_nil], List.nil_prefix⟩, hremaining, rfl⟩
    · next hfits =>
      have hremaining' : 0 ≤ packed.remaining - (estimate (separator ++ serializeRun (view run) index) : Int) := by
        omega
      rcases ih (index + 1) { includedRuns := packed.includedRuns ++ [run]
                              serializedRuns := packed.serializedRuns ++ [serializeRun (view run) index]
                              remaining := _ } hremaining' with ⟨⟨taken, htaken, hprefix⟩, hleft, htotal⟩
      refine ⟨⟨run :: taken, ?_, List.cons_prefix_cons.mpr ⟨rfl, hprefix⟩⟩, hleft, ?_⟩
      · rw [htaken, List.append_assoc]
        rfl
      · rw [htotal]
        dsimp only
        omega

theorem fittingExcerpt_fits {run : RunView} {index : Nat} {maxTokens : Int} (budgetChars : Nat) :
    ∀ excerpt ∈ fittingExcerpt estimate run index maxTokens budgetChars, (estimate excerpt : Int) ≤ maxTokens := by
  induction budgetChars using Nat.strongRecOn with
  | _ budgetChars ih =>
    intro excerpt hexcerpt
    unfold fittingExcerpt at hexcerpt
    split at hexcerpt
    · cases hexcerpt
    · next hpositive =>
      dsimp only at hexcerpt
      split at hexcerpt
      · next hfits =>
        cases hexcerpt
        exact hfits
      · exact ih (budgetChars / 2) (by omega) excerpt hexcerpt

/-- An excerpt without content is the envelope of its run. -/
theorem serializeRunExcerpt_zero (run : RunView) (index : Nat) (blocks : List ExcerptBlock) :
    serializeRunExcerpt run index blocks 0 = serializeRunExcerpt run index [] 0 := by
  unfold serializeRunExcerpt
  cases blocks with
  | nil => rfl
  | cons block blocks => rfl

/-- An excerpt fits, and there is one where the envelope of the run fits. -/
theorem serializeOversizedRunExcerpt_spec {run : RunView} {index : Nat} {maxTokens : Int} :
    (∀ excerpt ∈ serializeOversizedRunExcerpt estimate run index maxTokens, (estimate excerpt : Int) ≤ maxTokens) ∧
      (0 < maxTokens → (estimate (serializeRunExcerpt run index [] 0) : Int) ≤ maxTokens →
        ∃ excerpt, serializeOversizedRunExcerpt estimate run index maxTokens = some excerpt) := by
  unfold serializeOversizedRunExcerpt
  split
  · next hnone =>
    constructor
    · intro excerpt hexcerpt
      cases hexcerpt
    · intro hpositive
      omega
  · dsimp only
    split
    · next hfull =>
      constructor
      · intro excerpt hexcerpt
        cases hexcerpt
        exact hfull
      · exact fun _ _ => ⟨_, rfl⟩
    · cases hfitting : fittingExcerpt estimate run index maxTokens (maxTokens * 4).toNat with
      | some excerpt =>
        constructor
        · intro excerpt' hexcerpt
          cases hexcerpt
          exact fittingExcerpt_fits _ _ hfitting
        · exact fun _ _ => ⟨_, rfl⟩
      | none =>
        dsimp only
        rw [serializeRunExcerpt_zero]
        split
        · next hminimal =>
          constructor
          · intro excerpt hexcerpt
            cases hexcerpt
            exact hminimal
          · exact fun _ _ => ⟨_, rfl⟩
        · next hlarge =>
          constructor
          · intro excerpt hexcerpt
            cases hexcerpt
          · exact fun _ hsmall => absurd hsmall hlarge

/-- An input for one run that is too large is for that run or for none, and it fits. -/
theorem buildOversizedSummaryInput_spec (h : Additive estimate) :
    (buildOversizedSummaryInput estimate view previousSummary runs maxInputTokens).2 <+: runs ∧
      ((buildOversizedSummaryInput estimate view previousSummary runs maxInputTokens).2 ≠ [] →
        (estimate (buildOversizedSummaryInput estimate view previousSummary runs maxInputTokens).1 : Int) ≤
            maxInputTokens ∧
          ∃ rest, (buildOversizedSummaryInput estimate view previousSummary runs maxInputTokens).1 =
            summaryBlock previousSummary ++ rest) := by
  unfold buildOversizedSummaryInput
  dsimp only
  cases runs with
  | nil => exact ⟨List.nil_prefix, fun hne => absurd rfl hne⟩
  | cons firstRun laterRuns =>
    dsimp only
    cases hexcerpt : serializeOversizedRunExcerpt estimate (view firstRun) 0
        (remainingExcerptBudget estimate maxInputTokens (summaryBlock previousSummary)) with
    | none => exact ⟨List.nil_prefix, fun hne => absurd rfl hne⟩
    | some excerpt =>
      refine ⟨List.cons_prefix_cons.mpr ⟨rfl, List.nil_prefix⟩, fun _ => ⟨?_, composeSummaryInput_block _ _⟩⟩
      have hfits := serializeOversizedRunExcerpt_spec.1 excerpt hexcerpt
      have hsize := h.estimate_compose (summaryBlock previousSummary) excerpt
      unfold remainingExcerptBudget at hfits
      dsimp only
      omega

/-- Whether an input holds a run where the envelope of the first run fits. -/
theorem buildOversizedSummaryInput_progress (h : Additive estimate) {firstRun : ρ} {laterRuns : List ρ}
    (hfits : minimumProgressInputTokens estimate view previousSummary firstRun ≤ maxInputTokens) :
    (buildOversizedSummaryInput estimate view previousSummary (firstRun :: laterRuns) maxInputTokens).2 ≠ [] := by
  have hsize := h.estimate_compose (summaryBlock previousSummary) (serializeRunExcerpt (view firstRun) 0 [] 0)
  unfold minimumProgressInputTokens wrapperOverheadTokens at hfits
  obtain ⟨excerpt, hexcerpt⟩ := (@serializeOversizedRunExcerpt_spec estimate (view firstRun) 0
    (remainingExcerptBudget estimate maxInputTokens (summaryBlock previousSummary))).2
    (by unfold remainingExcerptBudget; omega) (by unfold remainingExcerptBudget; omega)
  unfold buildOversizedSummaryInput
  dsimp only
  rw [hexcerpt]
  exact List.cons_ne_nil _ _

/-- The input is for a prefix of the runs; with runs it fits, and it starts with the previous summary. -/
theorem buildSummaryInput_spec (h : Additive estimate) :
    (buildSummaryInput estimate view previousSummary runs maxInputTokens).2 <+: runs ∧
      ((buildSummaryInput estimate view previousSummary runs maxInputTokens).2 ≠ [] →
        (estimate (buildSummaryInput estimate view previousSummary runs maxInputTokens).1 : Int) ≤ maxInputTokens ∧
          ∃ rest, (buildSummaryInput estimate view previousSummary runs maxInputTokens).1 =
            summaryBlock previousSummary ++ rest) := by
  unfold buildSummaryInput
  dsimp only
  split
  · have hspec := @buildOversizedSummaryInput_spec _ estimate view previousSummary (runs.take 1) maxInputTokens h
    exact ⟨hspec.1.trans (List.take_prefix 1 runs), hspec.2⟩
  · next hpositive =>
    have hremaining : 0 ≤ maxInputTokens - (estimate (composeSummaryInput (summaryBlock previousSummary) "") : Int) -
        wrapperOverheadTokens := by omega
    rcases @packRuns_spec _ estimate view runs h 0 { remaining := _ } hremaining with ⟨⟨taken, htaken, hprefix⟩, hleft, htotal⟩
    split
    · exact ⟨List.nil_prefix, fun hne => absurd rfl hne⟩
    · next run laterRuns hnone =>
      have hspec := @buildOversizedSummaryInput_spec _ estimate view previousSummary [run] maxInputTokens h
      exact ⟨hspec.1.trans (List.cons_prefix_cons.mpr ⟨rfl, List.nil_prefix⟩), hspec.2⟩
    · refine ⟨?_, fun _ => ⟨?_, composeSummaryInput_block _ _⟩⟩
      · dsimp only
        rw [htaken]
        exact hprefix
      · have hsize := h.estimate_compose (summaryBlock previousSummary)
        have hempty := h.estimate_empty
        have hnothing : join "\n\n" [] = "" := rfl
        dsimp only at htotal ⊢
        rw [hnothing, hempty] at htotal
        rw [hsize]
        have hoverhead : wrapperOverheadTokens = 200 := rfl
        push_cast
        omega

/-- A budget that leaves room for the envelope of the first run gives an input with a run. -/
theorem buildSummaryInput_progress (h : Additive estimate) {firstRun : ρ} {laterRuns : List ρ}
    (hfits : minimumProgressInputTokens estimate view previousSummary firstRun ≤ maxInputTokens) :
    (buildSummaryInput estimate view previousSummary (firstRun :: laterRuns) maxInputTokens).2 ≠ [] := by
  unfold buildSummaryInput
  dsimp only
  split
  · exact buildOversizedSummaryInput_progress h hfits
  · split
    · next hnil => cases hnil
    · next hcons =>
      cases hcons
      exact buildOversizedSummaryInput_progress h hfits
    · next hpacked =>
      intro hnil
      exact hpacked firstRun laterRuns hnil rfl

end

/-! ## Retries -/

/-- A granted shrink is below the input, and not below the smallest budget that makes progress unless the input was
above its own budget. -/
theorem retryBudget_shrink {policy : SummaryRetryPolicy} {attempt inputTokens : Nat} {budget minimumProgress smaller : Int}
    {error : SummaryFailure}
    (h : retryBudget policy attempt budget inputTokens minimumProgress error = some { budget := smaller, kind := .shrink })
    (hinput : (inputTokens : Int) ≤ budget) :
    attempt < policy.maxAttempts ∧ smaller < inputTokens ∧ minimumProgress ≤ smaller := by
  unfold retryBudget at h
  dsimp only at h
  split at h
  · cases h
  · next hattempt =>
    split at h
    · next hshrink =>
      injection h with h
      injection h with hsmaller
      have hlt := hshrink.2
      rw [hsmaller] at hlt
      refine ⟨Nat.lt_of_not_le hattempt, hlt, ?_⟩
      omega
    · split at h
      · cases h
      · cases h

theorem retryBudget_attempt {policy : SummaryRetryPolicy} {attempt inputTokens : Nat} {budget minimumProgress : Int}
    {error : SummaryFailure} {decision : SummaryRetryDecision}
    (h : retryBudget policy attempt budget inputTokens minimumProgress error = some decision) :
    attempt < policy.maxAttempts := by
  unfold retryBudget at h
  dsimp only at h
  split at h
  · cases h
  · next hattempt => exact Nat.lt_of_not_le hattempt

section

variable {ρ : Type*} {view : ρ → RunView} {provider : Nat → String → String → Except SummaryFailure String}
  {previousSummary : Option String} {firstRun : ρ} {laterRuns : List ρ} {minimumProgress : Int} {model : SummaryModel}
  {s s' : Generation ρ}

/-- What holds of a request for the runs. The first request, which is all that may be shrunk, is for the first
model. -/
structure Generation.Inv (model : SummaryModel) (runs : List ρ) (s : Generation ρ) : Prop where
  attempt : s.attempt = s.calls.length + 1
  bounded : s.attempt ≤ defaultSummaryRetryPolicy.maxAttempts
  included : s.includedRuns <+: runs
  nonempty : s.includedRuns ≠ []
  estimator : Additive s.model.estimate
  fallback : ∀ fallback ∈ s.fallbackModel, Additive fallback.estimate
  fits : (s.model.estimate s.summaryInput : Int) ≤ s.budget
  first : s.attempt < defaultSummaryRetryPolicy.maxAttempts → s.model = model

/-- A failed request leads to one for the fallback model, to the same one, or to a smaller one. -/
theorem afterFailure_again {error : SummaryFailure}
    (h : afterFailure view previousSummary firstRun laterRuns minimumProgress s error = .again s') :
    s.attempt < defaultSummaryRetryPolicy.maxAttempts ∧
      ((∃ fallback ∈ s.fallbackModel, (fallbackInput view previousSummary firstRun laterRuns s fallback).2 ≠ [] ∧
        s' = { s with
          model := fallback
          fallbackModel := none
          summaryInput := (fallbackInput view previousSummary firstRun laterRuns s fallback).1
          includedRuns := (fallbackInput view previousSummary firstRun laterRuns s fallback).2
          budget := fallback.inputBudget
          attempt := s.attempt + 1 }) ∨
      s' = { s with attempt := s.attempt + 1 } ∨
      ∃ budget, retryBudget defaultSummaryRetryPolicy s.attempt s.budget (s.model.estimate s.summaryInput)
          minimumProgress error = some { budget, kind := .shrink } ∧
        (buildSummaryInput s.model.estimate view previousSummary (firstRun :: laterRuns) budget).2 ≠ [] ∧
        s' = { s with
          summaryInput := (buildSummaryInput s.model.estimate view previousSummary (firstRun :: laterRuns) budget).1
          includedRuns := (buildSummaryInput s.model.estimate view previousSummary (firstRun :: laterRuns) budget).2
          budget := budget
          attempt := s.attempt + 1 }) := by
  unfold afterFailure at h
  dsimp only at h
  split at h
  · next fallback hfallback =>
    obtain ⟨hmodel, hallowed⟩ := Option.filter_eq_some_iff.mp hfallback
    have hattempt : s.attempt < defaultSummaryRetryPolicy.maxAttempts := (of_decide_eq_true hallowed).1
    split at h
    · cases h
    · next hruns =>
      cases h
      rw [List.isEmpty_iff] at hruns
      exact ⟨hattempt, .inl ⟨fallback, hmodel, hruns, rfl⟩⟩
  · split at h
    · cases h
    · next hdecision =>
      cases h
      exact ⟨retryBudget_attempt hdecision, .inr (.inl rfl)⟩
    · next budget hdecision =>
      split at h
      · cases h
      · next hruns =>
        cases h
        rw [not_or, List.isEmpty_iff] at hruns
        exact ⟨retryBudget_attempt hdecision, .inr (.inr ⟨budget, hdecision, hruns.1, rfl⟩)⟩

variable {result : Generation ρ × Except SummaryFailure String}

/-- Otherwise the exception goes on. -/
theorem afterFailure_leave {error : SummaryFailure}
    (h : afterFailure view previousSummary firstRun laterRuns minimumProgress s error = .leave result) :
    result = (s, .error error) := by
  unfold afterFailure at h
  dsimp only at h
  split at h
  · split at h
    · cases h
      rfl
    · cases h
  · split at h
    · cases h
      rfl
    · cases h
    · split at h
      · cases h
        rfl
      · cases h

/-- A request after a failed one satisfies the invariant again. -/
theorem Generation.Inv.again (hs : s.Inv model (firstRun :: laterRuns))
    (h : generationRound view provider previousSummary firstRun laterRuns minimumProgress s = some (.again s')) :
    s'.Inv model (firstRun :: laterRuns) ∧ s'.attempt = s.attempt + 1 := by
  unfold generationRound at h
  dsimp only at h
  split at h
  · cases h
  · injection h with h
    have hnumber := hs.attempt
    have hlast : ∀ {P : Prop}, s.attempt + 1 < defaultSummaryRetryPolicy.maxAttempts → P := by
      intro P hagain
      change s.attempt + 1 < 2 at hagain
      omega
    have hcalls : s.attempt + 1 = (s.calls ++ [(s.model.name, s.summaryInput)]).length + 1 := by
      rw [List.length_append, List.length_singleton, ← hnumber]
    rcases afterFailure_again h with ⟨hattempt, ⟨fallback, hfallback, hruns, rfl⟩ | rfl | ⟨budget, hshrink, hruns, rfl⟩⟩
    · -- the fallback model takes the input, or one that is built for it
      have hadditive := hs.fallback fallback hfallback
      refine ⟨⟨hcalls, hattempt, ?_, hruns, hadditive, (fun _ hnone => by cases hnone), ?_, fun h => hlast h⟩, rfl⟩
      · unfold fallbackInput
        dsimp only
        split
        · exact hs.included
        · exact (buildSummaryInput_spec hadditive).1
      · unfold fallbackInput at hruns ⊢
        dsimp only at hruns ⊢
        split
        · next hfits => exact hfits
        · next hlarge =>
          rw [if_neg hlarge] at hruns
          exact ((buildSummaryInput_spec hadditive).2 hruns).1
    · exact ⟨⟨hcalls, hattempt, hs.included, hs.nonempty, hs.estimator, hs.fallback, hs.fits, fun h => hlast h⟩, rfl⟩
    · have hspec := @buildSummaryInput_spec _ s.model.estimate view previousSummary (firstRun :: laterRuns) budget
        hs.estimator
      exact ⟨⟨hcalls, hattempt, hspec.1, hruns, hs.estimator, hs.fallback, (hspec.2 hruns).1, fun h => hlast h⟩, rfl⟩

/-- The loop is left with one more call. -/
theorem generationRound_leave
    (h : generationRound view provider previousSummary firstRun laterRuns minimumProgress s = some (.leave result)) :
    result.1 = { s with calls := s.calls ++ [(s.model.name, s.summaryInput)] } := by
  unfold generationRound at h
  dsimp only at h
  split at h
  · cases h
    rfl
  · injection h with h
    rw [afterFailure_leave h]

theorem generationRound_total (s : Generation ρ) : ∃ result,
    generationRound view provider previousSummary firstRun laterRuns minimumProgress s = some result := by
  unfold generationRound
  dsimp only
  split
  · exact ⟨_, rfl⟩
  · exact ⟨_, rfl⟩

/-- A granted shrink rebuilds a smaller input, with a run and the whole previous summary. -/
theorem Generation.Inv.shrink (hs : s.Inv model (firstRun :: laterRuns)) {error : SummaryFailure} {budget : Int}
    (h : retryBudget defaultSummaryRetryPolicy s.attempt s.budget (s.model.estimate s.summaryInput)
      (minimumProgressInputTokens model.estimate view previousSummary firstRun) error =
        some { budget, kind := .shrink }) :
    (buildSummaryInput s.model.estimate view previousSummary (firstRun :: laterRuns) budget).2 ≠ [] ∧
      (∃ rest, (buildSummaryInput s.model.estimate view previousSummary (firstRun :: laterRuns) budget).1 =
        summaryBlock previousSummary ++ rest) ∧
      (s.model.estimate (buildSummaryInput s.model.estimate view previousSummary (firstRun :: laterRuns) budget).1 : Int) ≤
        budget ∧
      s.model.estimate (buildSummaryInput s.model.estimate view previousSummary (firstRun :: laterRuns) budget).1 <
        s.model.estimate s.summaryInput := by
  rcases retryBudget_shrink h hs.fits with ⟨hattempt, hsmaller, hminimum⟩
  rw [← hs.first hattempt] at hminimum
  have hruns := @buildSummaryInput_progress _ s.model.estimate view previousSummary budget hs.estimator firstRun
    laterRuns hminimum
  have hspec := (@buildSummaryInput_spec _ s.model.estimate view previousSummary (firstRun :: laterRuns) budget
    hs.estimator).2 hruns
  exact ⟨hruns, hspec.2, hspec.1, by omega⟩

def firstRequest (view : ρ → RunView) (model : SummaryModel) (fallbackModel : Option SummaryModel)
    (previousSummary : Option String) (runs : List ρ) (budget : Int) : Generation ρ where
  model := model
  fallbackModel := fallbackModel
  summaryInput := (buildSummaryInput model.estimate view previousSummary runs budget).1
  includedRuns := (buildSummaryInput model.estimate view previousSummary runs budget).2
  budget := budget

theorem firstRequest_inv {fallbackModel : Option SummaryModel} {runs : List ρ} {budget : Int}
    (hmodel : Additive model.estimate) (hfallback : ∀ fallback ∈ fallbackModel, Additive fallback.estimate)
    (hbuilt : (buildSummaryInput model.estimate view previousSummary runs budget).2 ≠ []) :
    (firstRequest view model fallbackModel previousSummary runs budget).Inv model runs := by
  have hspec := @buildSummaryInput_spec _ model.estimate view previousSummary runs budget hmodel
  exact ⟨rfl, one_le_two, hspec.1, hbuilt, hmodel, hfallback, (hspec.2 hbuilt).1, fun _ => rfl⟩

/-- Retrying ends. -/
theorem generation_terminates {fuel : Nat} (hfuel : 2 < fuel) (hs : s.Inv model (firstRun :: laterRuns)) :
    ∃ result, WhileLoop.run
      (generationRound view provider previousSummary firstRun laterRuns minimumProgress) fuel s = some result := by
  refine WhileLoop.run_terminates (Generation.Inv model (firstRun :: laterRuns)) (fun s => 3 - s.attempt) ?_ hs ?_
  · intro s hs
    obtain ⟨result, hresult⟩ := @generationRound_total _ view provider previousSummary firstRun laterRuns
      minimumProgress s
    cases result with
    | leave result => exact .inl ⟨result, hresult⟩
    | again s' =>
      rcases hs.again hresult with ⟨hs', hattempt⟩
      have hbounded := hs'.bounded
      change s'.attempt ≤ 2 at hbounded
      exact .inr ⟨s', hresult, hs', by omega⟩
  · have hattempt := hs.attempt
    omega

/-- When retrying ends, every call counted as an attempt, and the runs of the last request are a prefix. -/
theorem generation_result {fuel : Nat} (hs : s.Inv model (firstRun :: laterRuns))
    (h : WhileLoop.run (generationRound view provider previousSummary firstRun laterRuns minimumProgress) fuel s =
      some result) :
    result.1.calls.length ≤ defaultSummaryRetryPolicy.maxAttempts ∧
      result.1.includedRuns <+: firstRun :: laterRuns ∧ result.1.includedRuns ≠ [] ∧
      Additive result.1.model.estimate ∧ ∀ fallback ∈ result.1.fallbackModel, Additive fallback.estimate := by
  refine WhileLoop.run_rule (Generation.Inv model (firstRun :: laterRuns))
    (fun result => result.1.calls.length ≤ defaultSummaryRetryPolicy.maxAttempts ∧
      result.1.includedRuns <+: firstRun :: laterRuns ∧ result.1.includedRuns ≠ [] ∧
      Additive result.1.model.estimate ∧ ∀ fallback ∈ result.1.fallbackModel, Additive fallback.estimate) ?_ ?_ hs h
  · intro s s' hs hround
    exact (hs.again hround).1
  · intro s result hs hround
    rw [generationRound_leave hround]
    have hbounded := hs.bounded
    rw [hs.attempt] at hbounded
    refine ⟨?_, hs.included, hs.nonempty, hs.estimator, hs.fallback⟩
    rw [List.length_append]
    exact hbounded

end

/-! ## Chunks -/

section

variable {fuel : Nat} {view : SessionRun → RunView} {visible : SessionRun → Bool}
  {provider : Nat → Nat → String → String → Except SummaryFailure String} {s s' : Rewriting}

/-- The estimators of the models at hand add up. -/
structure Rewriting.Additive (s : Rewriting) : Prop where
  model : CompactionInputs.Additive s.summaryModel.estimate
  fallback : ∀ fallback ∈ s.fallbackModel, CompactionInputs.Additive fallback.estimate

def compactableRuns (visible : SessionRun → Bool) (s : Rewriting) : List SessionRun :=
  s.runs.filter fun run => visible run ∧ run.runId ∈ s.pendingSelectedRunIds

/-- A chunk takes at least one pending run out of the selection. -/
theorem afterChunk_pending {chunk : Generation SessionRun} {summary : String}
    (hincluded : chunk.includedRuns <+: compactableRuns visible s) (hnonempty : chunk.includedRuns ≠ []) :
    (afterChunk s chunk summary).pendingSelectedRunIds.length < s.pendingSelectedRunIds.length := by
  obtain ⟨run, runs, hruns⟩ := List.exists_cons_of_ne_nil hnonempty
  have hmem : run ∈ chunk.includedRuns := by
    rw [hruns]
    exact List.mem_cons_self
  have hcompactable := hincluded.subset hmem
  unfold compactableRuns at hcompactable
  rw [List.mem_filter, decide_eq_true_eq] at hcompactable
  unfold afterChunk
  dsimp only
  apply List.length_filter_lt_length_iff_exists.mpr
  refine ⟨run.runId, hcompactable.2.2, ?_⟩
  simpa using ⟨run, hmem, rfl⟩

/-- A round leaves the loop, or it goes on with fewer pending runs. -/
theorem rewritingRound_cases (hfuel : 2 < fuel) (hs : s.Additive) :
    (∃ result, rewritingRound fuel view visible provider s = some (.leave result)) ∨
      ∃ s', rewritingRound fuel view visible provider s = some (.again s') ∧ s'.Additive ∧
        s'.pendingSelectedRunIds.length < s.pendingSelectedRunIds.length := by
  unfold rewritingRound
  split
  · exact .inl ⟨_, rfl⟩
  · split
    · exact .inl ⟨_, rfl⟩
    · next firstRun laterRuns hcompactable =>
      dsimp only
      split
      · exact .inl ⟨_, rfl⟩
      · next hbuilt =>
        rw [List.isEmpty_iff] at hbuilt
        have hfirst := @firstRequest_inv _ view (currentSummaryText s.summary) s.summaryModel s.fallbackModel
          (firstRun :: laterRuns) s.summaryInputBudget hs.model hs.fallback hbuilt
        obtain ⟨⟨chunk, outcome⟩, hresult⟩ := @generation_terminates _ view (provider s.chunk)
          (currentSummaryText s.summary) firstRun laterRuns
          (minimumProgressInputTokens s.summaryModel.estimate view (currentSummaryText s.summary) firstRun)
          s.summaryModel _ fuel hfuel hfirst
        have hspec := generation_result hfirst hresult
        have hgenerate : generateCompactionSummaryWithRetry view fuel (provider s.chunk) s.summaryModel s.fallbackModel
            (currentSummaryText s.summary) firstRun laterRuns
            (buildSummaryInput s.summaryModel.estimate view (currentSummaryText s.summary) (firstRun :: laterRuns)
              s.summaryInputBudget).1
            (buildSummaryInput s.summaryModel.estimate view (currentSummaryText s.summary) (firstRun :: laterRuns)
              s.summaryInputBudget).2 s.summaryInputBudget = some (chunk, outcome) := hresult
        rw [hgenerate]
        cases outcome with
        | error error => exact .inl ⟨_, rfl⟩
        | ok summary =>
          refine .inr ⟨_, rfl, ⟨hspec.2.2.2.1, hspec.2.2.2.2⟩, ?_⟩
          refine @afterChunk_pending visible s chunk summary ?_ hspec.2.2.1
          unfold compactableRuns
          rw [hcompactable]
          exact hspec.2.1

/-- The loop over the chunks ends. -/
theorem rewriting_terminates (hs : s.Additive) (hfuel : 2 < fuel) (hpending : s.pendingSelectedRunIds.length < fuel) :
    ∃ result, rewriteWorkingSessionForCompaction fuel view visible provider s = some result :=
  WhileLoop.run_terminates Rewriting.Additive (fun s => s.pendingSelectedRunIds.length)
    (fun _ hs => rewritingRound_cases hfuel hs) hs hpending

end

/-! ## The whole of it -/

/-- A rebuilt input is smaller than the failed one and within its budget, and holds a run and the previous summary. -/
structure Shrunk {ρ : Type*} (s : Generation ρ) (previousSummary : Option String) (budget : Int)
    (rebuilt : String × List ρ) : Prop where
  runs : rebuilt.2 ≠ []
  summary : ∃ rest, rebuilt.1 = summaryBlock previousSummary ++ rest
  fits : (s.model.estimate rebuilt.1 : Int) ≤ budget
  smaller : s.model.estimate rebuilt.1 < s.model.estimate s.summaryInput

theorem shrunk_of_reached {ρ : Type*} {view : ρ → RunView}
    {provider : Nat → String → String → Except SummaryFailure String} {previousSummary : Option String} {firstRun : ρ}
    {laterRuns : List ρ} {model : SummaryModel} {s s' : Generation ρ} (hs : s.Inv model (firstRun :: laterRuns))
    (hreached : Relation.ReflTransGen (WhileLoop.Steps (generationRound view provider previousSummary firstRun laterRuns
      (minimumProgressInputTokens model.estimate view previousSummary firstRun))) s s')
    {error : SummaryFailure} {budget : Int}
    (h : retryBudget defaultSummaryRetryPolicy s'.attempt s'.budget (s'.model.estimate s'.summaryInput)
      (minimumProgressInputTokens model.estimate view previousSummary firstRun) error =
        some { budget, kind := .shrink }) :
    Shrunk s' previousSummary budget
      (buildSummaryInput s'.model.estimate view previousSummary (firstRun :: laterRuns) budget) := by
  have hs' : s'.Inv model (firstRun :: laterRuns) := by
    clear h
    induction hreached with
    | refl => exact hs
    | tail _ hround ih => exact (ih.again hround).1
  rcases hs'.shrink h with ⟨hruns, hsummary, hfits, hsmaller⟩
  exact ⟨hruns, hsummary, hfits, hsmaller⟩

/-- Compaction inputs fit and make progress. -/
theorem compaction_progress {ρ : Type*} (view : ρ → RunView) {model : SummaryModel} {fallbackModel : Option SummaryModel}
    (hmodel : Additive model.estimate) (hfallback : ∀ fallback ∈ fallbackModel, Additive fallback.estimate) {fuel : Nat}
    (hfuel : 2 < fuel) : (∀ previousSummary runs budget,
      (buildSummaryInput model.estimate view previousSummary runs budget).2 <+: runs ∧
        ((buildSummaryInput model.estimate view previousSummary runs budget).2 ≠ [] →
          (model.estimate (buildSummaryInput model.estimate view previousSummary runs budget).1 : Int) ≤ budget)) ∧
    (∀ provider previousSummary firstRun laterRuns budget,
      (buildSummaryInput model.estimate view previousSummary (firstRun :: laterRuns) budget).2 ≠ [] →
      (∀ s, Relation.ReflTransGen (WhileLoop.Steps (generationRound view provider previousSummary firstRun laterRuns
            (minimumProgressInputTokens model.estimate view previousSummary firstRun)))
          (firstRequest view model fallbackModel previousSummary (firstRun :: laterRuns) budget) s →
        ∀ error smaller, retryBudget defaultSummaryRetryPolicy s.attempt s.budget (s.model.estimate s.summaryInput)
            (minimumProgressInputTokens model.estimate view previousSummary firstRun) error =
              some { budget := smaller, kind := .shrink } →
          Shrunk s previousSummary smaller
            (buildSummaryInput s.model.estimate view previousSummary (firstRun :: laterRuns) smaller)) ∧
      ∃ result, generateCompactionSummaryWithRetry view fuel provider model fallbackModel previousSummary firstRun
          laterRuns (buildSummaryInput model.estimate view previousSummary (firstRun :: laterRuns) budget).1
          (buildSummaryInput model.estimate view previousSummary (firstRun :: laterRuns) budget).2 budget = some result ∧
        result.1.calls.length ≤ defaultSummaryRetryPolicy.maxAttempts) ∧
    ∀ sessionView visible provider s, s.summaryModel = model → s.fallbackModel = fallbackModel →
      s.pendingSelectedRunIds.length < fuel →
      ∃ result, rewriteWorkingSessionForCompaction fuel sessionView visible provider s = some result := by
  refine ⟨?_, ?_, ?_⟩
  · intro previousSummary runs budget
    have hspec := @buildSummaryInput_spec _ model.estimate view previousSummary runs budget hmodel
    exact ⟨hspec.1, fun hruns => (hspec.2 hruns).1⟩
  · intro provider previousSummary firstRun laterRuns budget hbuilt
    have hfirst := firstRequest_inv hmodel hfallback hbuilt
    constructor
    · intro s hreached error smaller hshrink
      exact shrunk_of_reached hfirst hreached hshrink
    · obtain ⟨result, hresult⟩ := @generation_terminates _ view provider previousSummary firstRun laterRuns
        (minimumProgressInputTokens model.estimate view previousSummary firstRun) model _ fuel hfuel hfirst
      exact ⟨result, hresult, (generation_result hfirst hresult).1⟩
  · rintro sessionView visible provider s rfl rfl hpending
    exact rewriting_terminates ⟨hmodel, hfallback⟩ hfuel hpending

def characterModel : SummaryModel where
  name := "characters"
  estimate := String.length
  inputBudget := 4000

theorem additive_length : Additive String.length := fun a b => String.length_append a b

def emptyRun (index : Nat) : RunView where
  runId := toString index

theorem emptyRun_progress :
    ∃ result, generateCompactionSummaryWithRetry emptyRun 3 (fun _ _ _ => .error { typedShrinkable := true })
        characterModel none (some "before") 0 [1, 2]
        (buildSummaryInput characterModel.estimate emptyRun (some "before") [0, 1, 2] 4000).1
        (buildSummaryInput characterModel.estimate emptyRun (some "before") [0, 1, 2] 4000).2 4000 = some result ∧
      result.1.calls.length ≤ defaultSummaryRetryPolicy.maxAttempts := by
  have hbuilt : (buildSummaryInput characterModel.estimate emptyRun (some "before") [0, 1, 2] 4000).2 ≠ [] := by
    decide +kernel
  have hall := @compaction_progress Nat emptyRun characterModel none additive_length (fun _ hnone => by cases hnone) 3
    (by decide)
  exact (hall.2.1 (fun _ _ _ => .error { typedShrinkable := true }) (some "before") 0 [1, 2] 4000 hbuilt).2

end MindRoom.CompactionInputs
