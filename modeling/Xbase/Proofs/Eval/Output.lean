import Xbase.Proofs.Eval.Stepwise

/-!
# Output

An evaluation prints behind what was printed before, and what was printed before makes no difference
to it (`Eval.Appends`).
-/

namespace Xbase.Eval

variable {α β : Type}

/-- What was printed before `x` stays in front and makes no difference. -/
def Appends (x : Eval α) : Prop :=
  ∀ (before : String) (m : Machine), x ⟨m.store, before ++ m.output⟩ =
    ((x m).1, ⟨(x m).2.store, before ++ (x m).2.output⟩)

theorem Appends.bind {x : Eval α} {f : α → Eval β} (hx : Appends x) (hf : ∀ a, Appends (f a)) :
    Appends (x >>= f) := by
  intro before m
  have hxm := hx before m
  rcases hrun : x m with ⟨_ | _ | _, m₁⟩
  all_goals rw [hrun] at hxm
  · rw [bind_ok hxm, bind_ok hrun]
    exact hf _ before m₁
  · rw [bind_error hxm, bind_error hrun]
  · rw [bind_outOfFuel hxm, bind_outOfFuel hrun]

/-- Nothing that was printed goes away. -/
theorem Appends.output {x : Eval α} (h : Appends x) (m : Machine) :
    ∃ more, (x m).2.output = m.output ++ more := by
  have hm := h m.output ⟨m.store, ""⟩
  rw [String.append_empty] at hm
  exact ⟨(x ⟨m.store, ""⟩).2.output, congrArg (fun r => r.2.output) hm⟩

theorem appends_located (span : Span) (r : Except EvalFault α) : Appends (located span r) := by
  cases r with
  | ok a => exact fun _ _ => rfl
  | error f => exact fun _ _ => rfl

theorem appends_update {scope : ScopeId} {name : String} {span whole : Span} {value : Eval Value}
    {op : AssignOp} {arithmetic : BinaryOp} (h : Appends value) :
    Appends (update scope name span value (compound op arithmetic whole)) := by
  refine Appends.bind (fun _ _ => rfl) fun owner? => ?_
  cases owner? with
  | none => exact fun _ _ => rfl
  | some owner =>
    refine h.bind fun v => Appends.bind (fun _ _ => rfl) fun current? => ?_
    cases current? with
    | none => exact fun _ _ => rfl
    | some current =>
      obtain ⟨outcome, hrun, -⟩ := compound_run op arithmetic whole current v
      refine Appends.bind (fun before m => ?_) fun w =>
        Appends.bind (fun _ _ => rfl) fun _ _ _ => rfl
      rw [hrun, hrun]

/-- To print behind what has been printed is a stepwise property. -/
theorem appends_stepwise : Stepwise (fun _ x _ => Appends x) fun _ => True where
  pure _ _ _ := rfl
  bind hx hf := hx.bind hf
  outOfFuel _ _ := rfl
  fault _ _ _ _ := rfl
  printLine line before m := by simp only [Eval.printLine, String.append_assoc]
  get? _ _ _ _ := rfl
  containsLocal _ _ _ _ := rfl
  set _ _ _ _ _ _ := rfl
  assign _ _ _ _ _ := rfl
  declareFunction _ _ _ _ := rfl
  update _ _ _ _ _ hx := appends_update hx
  enter _ hf := Appends.bind (fun _ _ => rfl) fun scope => hf scope trivial

/-- A program prints behind what has been printed before it. -/
theorem program_appends (fuel : Nat) (scope : ScopeId) (p : Program) :
    Appends (program fuel scope p) :=
  appends_stepwise.program (K := []) fuel p trivial

end Xbase.Eval
