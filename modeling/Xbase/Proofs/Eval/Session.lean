import Xbase.Proofs.Eval.Output
import Xbase.Proofs.Eval.Places
import Xbase.Proofs.Parser.Append

/-!
# A program in two parts

Running a program is running its first part and then the rest, in the store that the first part
leaves, if the first part completes (`Eval.Completes.program_append`). If it does not, nothing of
the rest is run (`Eval.program_append_of_not_completes`). What was printed before stays in front
(`Eval.Appends`).

`session_append` says so of texts: the program of two texts with a line break between them does what
the program of the first and then that of the second do.
-/

namespace Xbase

namespace Eval

/-! ## Two parts -/

/-- The second part runs if every statement of the first one leads to the next. -/
theorem sequence_append (run : Statement → Eval Flow) (last : Value) (p q : List Statement)
    (m : Machine) : sequence run last (p ++ q) m =
      match sequence run last p m with
      | (.ok (.next v), m₁) => sequence run v q m₁
      | r => r := by
  induction p generalizing last m with
  | nil => rfl
  | cons s p ih =>
    rw [List.cons_append, sequence, sequence]
    rcases hrun : run s m with ⟨flow | _ | _, m₁⟩
    · rw [bind_ok hrun, bind_ok hrun]
      cases flow with
      | next v => exact ih v m₁
      | _ => rfl
    · rw [bind_error hrun, bind_error hrun]
    · rw [bind_outOfFuel hrun, bind_outOfFuel hrun]

/-- Every statement of the program leads to the next; the value of the last one is `v`. -/
def Completes (fuel : Nat) (scope : ScopeId) (p : Program) (m : Machine) (v : Value)
    (m₁ : Machine) : Prop :=
  sequence (statement fuel scope) .none p m = (.ok (.next v), m₁)

variable {fuel : Nat} {scope : ScopeId} {p : Program} {m m₁ : Machine} {v : Value}

theorem Completes.program (h : Completes fuel scope p m v m₁) :
    program fuel scope p m = (.ok v, m₁) := bind_ok h

/-- A program that completes is followed by the rest. -/
theorem Completes.program_append (h : Completes fuel scope p m v m₁) {q : Program} (hq : q ≠ []) :
    Eval.program fuel scope (p ++ q) m = Eval.program fuel scope q m₁ := by
  obtain ⟨s, q, rfl⟩ := List.exists_cons_of_ne_nil hq
  have hsequence := sequence_append (statement fuel scope) .none p (s :: q) m
  rw [show sequence _ _ p m = _ from h] at hsequence
  rw [Eval.program, Eval.program]
  simp only [Bind.bind, hsequence]
  rfl

/-- A program that does not complete ends in the same way whatever follows. -/
theorem program_append_of_not_completes (h : ∀ v m₁, ¬ Completes fuel scope p m v m₁)
    (q : Program) : program fuel scope (p ++ q) m = program fuel scope p m := by
  have hsequence : sequence (statement fuel scope) .none (p ++ q) m =
      sequence (statement fuel scope) .none p m := by
    rw [sequence_append]
    split
    · next v m₁ hnext => exact absurd hnext (h v m₁)
    · rfl
  rw [program, program]
  simp only [Bind.bind, hsequence]

/-- A program that completes is followed by the rest, which prints behind it. -/
theorem Completes.program_append_output (h : Completes fuel scope p m v m₁) {q : Program}
    (hq : q ≠ []) : Eval.program fuel scope (p ++ q) m =
      ((Eval.program fuel scope q ⟨m₁.store, ""⟩).1,
        ⟨(Eval.program fuel scope q ⟨m₁.store, ""⟩).2.store,
          m₁.output ++ (Eval.program fuel scope q ⟨m₁.store, ""⟩).2.output⟩) := by
  rw [h.program_append hq, ← program_appends fuel scope q m₁.output ⟨m₁.store, ""⟩,
    String.append_empty]

end Eval

/-! ## Two texts -/

open Eval

theorem Program.eq_nil_of_map {f f' : Atom → Atom} {g g' : Span → Span} {p q : Program}
    (h : p.map f g = q.map f' g') : p = [] ↔ q = [] := by
  have hlength := congrArg List.length h
  simp only [Program.map, Statement.mapAll_eq, List.length_map] at hlength
  rw [← List.length_eq_zero_iff, ← List.length_eq_zero_iff, hlength]

/-- Two texts with a line break between them do what the first and then the second does, in every
scope of every store and with every amount of fuel. Places apart, the second one cannot tell where
it stands. If the first does not come to its end, nothing of the second is run. -/
theorem session_append {first second : String} {p q : Program} (hfirst : parse first = .ok ⟨p, []⟩)
    (hsecond : parse second = .ok ⟨q, []⟩)
    (hline : EndsLine (TokenStream.ofText (first ++ "\n")).tokens) :
    ∃ both, parse (first ++ "\n" ++ second) = .ok ⟨both, []⟩ ∧
      ∀ (fuel : Nat) (scope : ScopeId) (σ : Store),
        (∀ v m₁, Completes fuel scope p ⟨σ, ""⟩ v m₁ →
          program fuel scope p ⟨σ, ""⟩ = (.ok v, m₁) ∧
          (program fuel scope both ⟨σ, ""⟩).2.output =
            m₁.output ++ (program fuel scope q ⟨m₁.store, ""⟩).2.output ∧
          (program fuel scope both ⟨σ, ""⟩).2.store.map noPlace =
            (program fuel scope q ⟨m₁.store, ""⟩).2.store.map noPlace ∧
          (q = [] → (program fuel scope both ⟨σ, ""⟩).1 = .ok v) ∧
          (q ≠ [] → (program fuel scope both ⟨σ, ""⟩).1.map (Value.map noPlace) noPlace =
            (program fuel scope q ⟨m₁.store, ""⟩).1.map (Value.map noPlace) noPlace)) ∧
        ((∀ v m₁, ¬ Completes fuel scope p ⟨σ, ""⟩ v m₁) →
          program fuel scope both ⟨σ, ""⟩ = program fuel scope p ⟨σ, ""⟩) := by
  obtain ⟨later, hparse, hplaces⟩ := parse_join hfirst hsecond hline
  refine ⟨p ++ later, hparse, fun fuel scope σ => ⟨fun v m₁ hc => ?_,
    fun hc => program_append_of_not_completes hc later⟩⟩
  refine ⟨hc.program, ?_⟩
  by_cases hq : q = []
  · obtain rfl := (Program.eq_nil_of_map hplaces).2 hq
    subst hq
    rw [List.append_nil, hc.program]
    exact ⟨String.append_empty.symm, rfl, fun _ => rfl, fun h => absurd rfl h⟩
  · have hlater : later ≠ [] := fun h => hq ((Program.eq_nil_of_map hplaces).1 h)
    have halike := Program.alike_of_map hplaces
    rw [hc.program_append_output hlater, halike.output]
    exact ⟨rfl, halike.store .., fun h => absurd h hq, fun _ => halike.outcome ..⟩

/-- The first text completes, and the second declares a function and ends in a fault. -/
theorem session_append_case :
    ∃ p q, parse "? .T." = .ok ⟨p, []⟩ ∧ parse "FUNCTION f\nENDFUNC\nf(0)" = .ok ⟨q, []⟩ ∧
      EndsLine (TokenStream.ofText ("? .T." ++ "\n")).tokens ∧
      ∃ both, parse ("? .T." ++ "\n" ++ "FUNCTION f\nENDFUNC\nf(0)") = .ok ⟨both, []⟩ ∧
        ∃ m₁, Completes 5 0 p ⟨Store.empty.newGlobal.2, ""⟩ .none m₁ ∧
          (program 5 0 both ⟨Store.empty.newGlobal.2, ""⟩).2.output =
            m₁.output ++ (program 5 0 q ⟨m₁.store, ""⟩).2.output ∧
          (program 5 0 both ⟨Store.empty.newGlobal.2, ""⟩).2.store.map noPlace =
            (program 5 0 q ⟨m₁.store, ""⟩).2.store.map noPlace ∧
          (program 5 0 both ⟨Store.empty.newGlobal.2, ""⟩).1.map (Value.map noPlace) noPlace =
            .error ⟨.unexpectedArguments "f", ⟨0, 0⟩⟩ := by
  have hfirst : (TokenStream.ofText "? .T.").fault = none := by cbv
  have hsecond : (TokenStream.ofText "FUNCTION f\nENDFUNC\nf(0)").fault = none := by cbv
  have herrors : (Parser.program (.ofStream (.ofText "? .T."))).2.errors = [] := by cbv
  have herrors' : (Parser.program (.ofStream (.ofText "FUNCTION f\nENDFUNC\nf(0)"))).2.errors =
      [] := by cbv
  have hline : EndsLine (TokenStream.ofText ("? .T." ++ "\n")).tokens := of_decide_eq_true (by cbv)
  have hp := parse_of_fault_none hfirst
  have hq := parse_of_fault_none hsecond
  rw [herrors] at hp
  rw [herrors'] at hq
  obtain ⟨both, hboth, hrun⟩ := session_append hp hq hline
  have hc : Completes 5 0 ((Parser.program (.ofStream (.ofText "? .T."))).1.getD [])
      ⟨Store.empty.newGlobal.2, ""⟩ .none _ := Prod.ext (by cbv) rfl
  obtain ⟨-, houtput, hstore, -, houtcome⟩ := (hrun 5 0 Store.empty.newGlobal.2).1 _ _ hc
  refine ⟨_, _, hp, hq, hline, both, hboth, _, hc, houtput, hstore, (houtcome ?_).trans ?_⟩
  · have hlength : ((Parser.program (.ofStream
        (.ofText "FUNCTION f\nENDFUNC\nf(0)"))).1.getD []).length = 2 := by cbv
    exact List.ne_nil_of_length_eq_add_one hlength
  · cbv

end Xbase
