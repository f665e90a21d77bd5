import RoomControl.Program.Machine
import RoomControl.Proofs.Program.Layout

/-!
# What a state fires

A well-formed program, taken out of its bytes: a state is a list of rules, and a rule is what is
asked of the inputs together with the actions that it fires. `evaluate_eq` ties the walk that
`Layout.evaluate` makes over the bytes to the rules: on a memory that serves the program the walk
does not fail, and it fires what the rules of the state fire, in their order.
-/

set_option autoImplicit false

namespace RoomControl

/-- Conditions, and the actions that fire under them. -/
structure Rule where
  conditions : Conditions
  actions : List Action
  deriving DecidableEq

/-- The states of a program, each with its rules. -/
abbrev Chart := List (List Rule)

/-- The actions of a rule that fire. -/
def Rule.fired (baseline inputs : Ports) (entering : Bool) (rule : Rule) : List Action :=
  rule.actions.filter fun a => (Firing.of rule.conditions baseline inputs entering).Admits a.device

theorem Walk.lift_bind {α β : Type} (a : α) (next : α → Walk β) :
    Walk.lift (.ok a) >>= next = next a := rfl

theorem Walk.fire_bind {β : Type} (a : Action) (next : Unit → Walk β) :
    Walk.fire a >>= next = ⟨a :: (next ()).fired, (next ()).result⟩ := rfl

theorem Walk.ok_bind {α β : Type} (fired : List Action) (a : α) (next : α → Walk β) :
    (⟨fired, .ok a⟩ : Walk α) >>= next = ⟨fired ++ (next a).fired, (next a).result⟩ := rfl

namespace Layout

section Decoding

variable (contents : Nat → UInt8)

/-- The action that starts at an address. -/
def actionAt (start : Nat) : Action :=
  ⟨contents start, .ofPrefix (stretch contents (start + 2) (contents (start + 1)).toNat)⟩

/-- The rule that an evaluation stores. -/
def ruleAt (pos : Nat) : Rule :=
  ⟨.ofBytes (stretch contents pos Conditions.size),
    (referencesOf contents pos).map fun offset => actionAt contents offset.toNat⟩

/-- The rules that `n` evaluations from `pos` on store. -/
def rulesFrom : (n pos : Nat) → List Rule
  | 0, _ => []
  | n + 1, pos => ruleAt contents pos :: rulesFrom n (nextEvaluation contents pos)

/-- The rules of a state. -/
def stateRules (state : Nat) : List Rule :=
  rulesFrom contents (contents (stateStart contents state)).toNat (stateStart contents state + 1)

/-- The chart that the bytes store. -/
def chart (layout : Layout) : Chart :=
  (List.range layout.stateCount).map (stateRules contents)

end Decoding

/-! ## The walk over a state -/

section Walk

variable {layout : Layout} {m : ProgramMemory} {contents : Nat → UInt8} {size : Nat}
variable (wf : layout.WellFormed contents size) (serves : m.Serves contents 1 layout.length)

include wf serves

/-- **A reference leads to its action.** -/
theorem action_eq {offset : UInt16} (h : offset.toNat ∈ starts contents layout) :
    layout.action m offset = .ok (actionAt contents offset.toNat) := by
  obtain ⟨htable, hend, hmax⟩ := wf.record_bounds h
  unfold nextRecord at hend
  have hin : ¬ (offset.toNat ≤ layout.actionTable ∨ offset.toNat ≥ layout.length) := by omega
  let r : Region := ⟨m, layout.length⟩
  have hdevice : r.byte offset.toNat = .ok (contents offset.toNat) :=
    Region.byte_of_serves serves (by omega) (Nat.le_refl _) (show _ ≤ layout.length by omega)
  have hlength : r.byte (offset.toNat + 1) = .ok (contents (offset.toNat + 1)) :=
    Region.byte_of_serves serves (by omega) (Nat.le_refl _) (show _ ≤ layout.length by omega)
  have hvalue := serves (offset.toNat + 2) (contents (offset.toNat + 1)).toNat (by omega) hend
  have hfits : (stretch contents (offset.toNat + 2)
      (contents (offset.toNat + 1)).toNat).length ≤ 32 := by
    rw [length_stretch]
    exact hmax
  rw [action, if_neg hin]
  refine bind_eq_ok.mpr ⟨_, hdevice, bind_eq_ok.mpr ⟨_, hlength, ?_⟩⟩
  refine bind_eq_ok.mpr ⟨_, if_pos hend, ?_⟩
  rw [if_neg (Nat.not_lt.mpr hmax)]
  refine bind_eq_ok.mpr ⟨_, mapError_eq_ok.mpr hvalue, ?_⟩
  rw [Buffer.ofBytes?_eq_ofPrefix hfits]
  rfl

theorem evaluateReferences_eq {firing : Firing} {n pos : Nat} (hpos : 1 ≤ pos)
    (hstop : pos + 2 * n ≤ layout.actionTable)
    (refs : ∀ offset ∈ references contents n pos, offset.toNat ∈ starts contents layout) :
    layout.evaluateReferences m firing n pos =
      ⟨((references contents n pos).map fun offset => actionAt contents offset.toNat).filter
        fun a => firing.Admits a.device, .ok (pos + 2 * n)⟩ := by
  induction n generalizing pos with
  | zero => rfl
  | succ n ih =>
    have hword : (⟨m, layout.actionTable⟩ : Region).word pos = .ok (wordIn contents pos) :=
      Region.word_of_serves serves hpos (Nat.le_of_lt wf.length_bounds.1)
        (show _ ≤ layout.actionTable by omega)
    have hmem : (wordIn contents pos).toNat ∈ starts contents layout :=
      refs _ (List.mem_cons_self ..)
    have hpos' : 1 ≤ pos + 2 := by omega
    have hrest := ih hpos' (by omega) fun offset ho => refs offset (List.mem_cons_of_mem _ ho)
    have hnext : pos + 2 + 2 * n = pos + 2 * (n + 1) := by omega
    rw [evaluateReferences, hword, hrest, hnext, Walk.lift_bind]
    simp only [references, List.map_cons, List.filter_cons, decide_eq_true_eq]
    by_cases hnothing : firing = .nothing
    · subst hnothing
      have hskip : ¬ Firing.nothing.Admits
          (actionAt contents (wordIn contents pos).toNat).device := id
      rw [if_pos rfl, if_neg hskip]
    · rw [if_neg hnothing, action_eq wf serves hmem, Walk.lift_bind]
      by_cases hadmits : firing.Admits (actionAt contents (wordIn contents pos).toNat).device
      · rw [if_pos hadmits, if_pos hadmits, Walk.fire_bind]
      · rw [if_neg hadmits, if_neg hadmits]

theorem evaluateFrom_eq {baseline inputs : Ports} {entering : Bool} {n pos : Nat} (hpos : 1 ≤ pos)
    (fit : EvaluationsFit contents layout.actionTable (starts contents layout) n pos) :
    layout.evaluateFrom m baseline inputs entering n pos =
      ⟨(rulesFrom contents n pos).flatMap (Rule.fired baseline inputs entering), .ok ()⟩ := by
  induction n generalizing pos with
  | zero => rfl
  | succ n ih =>
    obtain ⟨hstop, refs, hrest⟩ := fit
    have hnext : pos ≤ nextEvaluation contents pos := by
      unfold nextEvaluation
      omega
    have hend := Nat.le_of_lt wf.length_bounds.1
    unfold nextEvaluation at hstop
    let r : Region := ⟨m, layout.actionTable⟩
    have hbytes : r.bytes pos Conditions.size = .ok (stretch contents pos Conditions.size) :=
      Region.bytes_of_serves serves hpos hend (show _ ≤ layout.actionTable by omega)
    have hcount : r.byte (pos + Conditions.size) = .ok (contents (pos + Conditions.size)) :=
      Region.byte_of_serves serves (by omega) hend (show _ ≤ layout.actionTable by omega)
    rw [evaluateFrom]
    dsimp only
    rw [hbytes, Walk.lift_bind, hcount, Walk.lift_bind,
      evaluateReferences_eq wf serves (by omega) hstop refs, Walk.ok_bind]
    rw [← nextEvaluation, ih (Nat.le_trans hpos hnext) hrest, rulesFrom, List.flatMap_cons]
    rfl

/-- **A state fires what its rules fire**, and the walk over it does not fail. -/
theorem evaluate_eq {baseline inputs : Ports} {entering : Bool} {state : UInt8}
    (h : state.toNat < layout.stateCount) :
    layout.evaluate m baseline inputs entering state =
      ⟨(stateRules contents state.toNat).flatMap (Rule.fired baseline inputs entering), .ok ()⟩ := by
  obtain ⟨hheader, htable, fit⟩ := wf.states state.toNat h
  have hend := Nat.le_of_lt wf.length_bounds.1
  have hoffset := stateOffset_eq wf serves hend h
  unfold headerEnd at hheader
  have hcount : (⟨m, layout.actionTable⟩ : Region).byte (stateStart contents state.toNat) =
      .ok (contents (stateStart contents state.toNat)) :=
    Region.byte_of_serves serves (by omega) hend htable
  rw [evaluate, hoffset, Walk.lift_bind, hcount, Walk.lift_bind]
  exact evaluateFrom_eq wf serves (by omega) fit

omit wf serves in
/-- A state that the program does not have fails the walk, and nothing is read for it. -/
theorem evaluate_noSuchState {baseline inputs : Ports} {entering : Bool} {state : UInt8}
    (h : layout.stateCount ≤ state.toNat) :
    layout.evaluate m baseline inputs entering state = ⟨[], .error (.noSuchState state)⟩ := by
  rw [evaluate, stateOffset, if_pos h]
  rfl

end Walk

end Layout

end RoomControl
