/-!
# Running a step over a list of inputs

Most parts of the controller are machines that take one input at a time, answer it and move to the
next state. `runAll` feeds them a whole list and keeps every answer, in order.
-/

set_option autoImplicit false

namespace RoomControl

variable {σ ι ρ : Type}

/-- The answers to `inputs`, in order, and the state after the last. -/
def runAll (step : σ → ι → ρ × σ) (state : σ) : List ι → List ρ × σ
  | [] => ([], state)
  | input :: rest =>
    let (answer, next) := step state input
    let (answers, final) := runAll step next rest
    (answer :: answers, final)

@[simp] theorem runAll_nil (step : σ → ι → ρ × σ) (state : σ) :
    runAll step state [] = ([], state) := rfl

theorem runAll_cons (step : σ → ι → ρ × σ) (state : σ) (input : ι) (rest : List ι) :
    runAll step state (input :: rest) =
      ((step state input).1 :: (runAll step (step state input).2 rest).1,
        (runAll step (step state input).2 rest).2) := rfl

theorem runAll_append (step : σ → ι → ρ × σ) (state : σ) (first second : List ι) :
    runAll step state (first ++ second) =
      ((runAll step state first).1 ++ (runAll step (runAll step state first).2 second).1,
        (runAll step (runAll step state first).2 second).2) := by
  induction first generalizing state with
  | nil => rfl
  | cons input rest ih => simp [runAll_cons, ih]

@[simp] theorem length_runAll (step : σ → ι → ρ × σ) (state : σ) (inputs : List ι) :
    (runAll step state inputs).1.length = inputs.length := by
  induction inputs generalizing state with
  | nil => rfl
  | cons input rest ih => simp [runAll_cons, ih]

/-- An answer is that of one step, from the state which the inputs before have left. -/
theorem exists_of_runAll {step : σ → ι → ρ × σ} {state : σ} {inputs : List ι} {i : Nat} {a : ρ}
    (h : (runAll step state inputs).1[i]? = some a) :
    ∃ input, inputs[i]? = some input ∧ (step (runAll step state (inputs.take i)).2 input).1 = a ∧
      (runAll step state (inputs.take (i + 1))).2 =
        (step (runAll step state (inputs.take i)).2 input).2 := by
  induction inputs generalizing state i with
  | nil => cases h
  | cons input rest ih =>
    cases i with
    | zero => exact ⟨input, rfl, Option.some.inj h, rfl⟩
    | succ i => exact ih h

/-- What each step keeps of the inputs so far, their answers and the state, a run keeps. -/
theorem runAll_keeps {P : List ι → List ρ → σ → Prop} {step : σ → ι → ρ × σ}
    (keeps : ∀ before answers state input, P before answers state →
      P (before ++ [input]) (answers ++ [(step state input).1]) (step state input).2)
    {state : σ} (h : P [] [] state) (inputs : List ι) :
    P inputs (runAll step state inputs).1 (runAll step state inputs).2 := by
  suffices onward : ∀ before answers state, P before answers state →
      P (before ++ inputs) (answers ++ (runAll step state inputs).1)
        (runAll step state inputs).2 from onward [] [] state h
  induction inputs with
  | nil =>
    intro before answers state h
    simpa using h
  | cons input rest ih =>
    intro before answers state h
    simpa [runAll_cons] using ih _ _ _ (keeps before answers state input h)

/-- Two machines whose steps answer alike and keep a relation answer a whole run alike. -/
theorem runAll_related {τ : Type} {R : σ → τ → Prop} {step : σ → ι → ρ × σ} {other : τ → ι → ρ × τ}
    (keeps : ∀ s t input, R s t →
      (step s input).1 = (other t input).1 ∧ R (step s input).2 (other t input).2)
    {s : σ} {t : τ} (h : R s t) (inputs : List ι) :
    (runAll step s inputs).1 = (runAll other t inputs).1 ∧
      R (runAll step s inputs).2 (runAll other t inputs).2 := by
  induction inputs generalizing s t with
  | nil => exact ⟨rfl, h⟩
  | cons input rest ih =>
    obtain ⟨hanswer, hnext⟩ := keeps s t input h
    obtain ⟨hanswers, hlast⟩ := ih hnext
    simp only [runAll_cons, hanswer, hanswers, true_and]
    exact hlast

end RoomControl
