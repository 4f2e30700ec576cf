import Xbase.Proofs.Eval.Fuel

/-!
# Case distinctions

`DO CASE` tries its branches one after the other. Nested `IF` statements do the same, if each of
them stands alone in the `ELSE` of the one before it and `OTHERWISE` is the `ELSE` of the innermost
one (`Eval.doCase_nested`).

The nested statements lie deeper and need more fuel, one unit for each branch, so neither side does
exactly what the other does with the same fuel. But each goes on where the other runs out.
-/

namespace Xbase

/-- What the branches are in an `ELSE`: one conditional, with the later branches in its own `ELSE`.
Behind the last branch there is only `OTHERWISE`, if it is given. -/
def Statement.elseIfs (otherwise : Option Block) : List (Expr × Block) → Option Block
  | [] => otherwise
  | (cond, body) :: rest => some [.ifThen cond body (Statement.elseIfs otherwise rest)]

namespace Eval

/-- Runs the branches as nested conditionals. Where there are none, `OTHERWISE` is run by itself. -/
def nestedIfs (scope : ScopeId) (otherwise : Option Block) :
    List (Expr × Block) → (fuel : Nat) → Eval Flow
  | [], fuel => otherwise.elim (pure (.next .none)) (block fuel scope)
  | (cond, body) :: rest, fuel =>
    statement fuel scope (.ifThen cond body (Statement.elseIfs otherwise rest))

variable {scope : ScopeId} {otherwise : Option Block}

/-- A block of one statement ends as the statement does. -/
theorem sequence_singleton (run : Statement → Eval Flow) (last : Value) (s : Statement) :
    sequence run last [s] = run s := by
  funext m
  rw [sequence]
  rcases hrun : run s m with ⟨flow | e | _, m₁⟩
  · rw [bind_ok hrun]
    cases flow <;> rfl
  · rw [bind_error hrun]
  · rw [bind_outOfFuel hrun]

/-- An `ELSE` with the branches in it does what the branches do by themselves. -/
theorem elseIfs_run (branches : List (Expr × Block)) (fuel : Nat) :
    (Statement.elseIfs otherwise branches).elim (pure (.next .none)) (block fuel scope) =
      nestedIfs scope otherwise branches fuel := by
  cases branches with
  | nil => rfl
  | cons pair rest => exact sequence_singleton _ .none _

theorem nestedIfs_cons (cond : Expr) (body : Block) (rest : List (Expr × Block)) (fuel : Nat) :
    nestedIfs scope otherwise ((cond, body) :: rest) (fuel + 1) = (do
      if ← test fuel scope cond then block fuel scope body
      else nestedIfs scope otherwise rest fuel) := by
  rw [← elseIfs_run rest]
  rfl

theorem otherwise_continues {fuel more : Nat} (hle : fuel ≤ more) :
    Continues (otherwise.elim (pure (.next .none)) (block fuel scope))
      (otherwise.elim (pure (.next .none)) (block more scope)) := by
  cases otherwise with
  | none => exact continues_congruent.pure _
  | some body => exact block_grows scope body fuel more hle

/-- With one unit of fuel for each branch, the nested conditionals go on where the case distinction
runs out. -/
theorem branch_continues (branches : List (Expr × Block)) (fuel : Nat) :
    Continues (branch (test fuel scope) (block fuel scope) otherwise branches)
      (nestedIfs scope otherwise branches (fuel + branches.length)) := by
  induction branches with
  | nil => exact otherwise_continues (Nat.le_refl fuel)
  | cons pair rest ih =>
    obtain ⟨cond, body⟩ := pair
    have hle : fuel ≤ fuel + rest.length := Nat.le_add_right ..
    rw [List.length_cons, ← Nat.add_assoc, nestedIfs_cons]
    refine (test_grows scope cond _ _ hle).bind fun b => ?_
    cases b with
    | true => exact block_grows scope body _ _ hle
    | false => exact ih

/-- With the same fuel, the case distinction goes on where the nested conditionals run out. -/
theorem nestedIfs_continues (branches : List (Expr × Block)) {fuel more : Nat} (hle : fuel ≤ more) :
    Continues (nestedIfs scope otherwise branches fuel)
      (branch (test more scope) (block more scope) otherwise branches) := by
  induction branches generalizing fuel with
  | nil => exact otherwise_continues hle
  | cons pair rest ih =>
    obtain ⟨cond, body⟩ := pair
    cases fuel with
    | zero =>
      exact .outOfFuel
        (statement_appends (more + 1) scope (.doCase ((cond, body) :: rest) otherwise))
    | succ fuel =>
      have hle' : fuel ≤ more := Nat.le_of_succ_le hle
      rw [nestedIfs_cons]
      refine (test_grows scope cond _ _ hle').bind fun b => ?_
      cases b with
      | true => exact block_grows scope body _ _ hle'
      | false => exact ih hle'

/-- `DO CASE` does what nested `IF` statements do, in every scope of every store. Either both end,
in the same way, be it with a value, with `RETURN`, `EXIT` or `LOOP` or in a fault, and with the
same store and output, or neither does. Also if they do not end, they print the same. -/
theorem doCase_nested (scope : ScopeId) (branches : List (Expr × Block)) (otherwise : Option Block)
    (m : Machine) :
    (∀ r m', Halts (fun fuel => statement fuel scope (.doCase branches otherwise)) m r m' ↔
      Halts (nestedIfs scope otherwise branches) m r m') ∧
    ∀ text, Prints (fun fuel => statement fuel scope (.doCase branches otherwise)) m text ↔
      Prints (nestedIfs scope otherwise branches) m text := by
  have hnested (fuel : Nat) : ∃ more, Continues (statement fuel scope (.doCase branches otherwise))
      (nestedIfs scope otherwise branches more) := by
    refine ⟨fuel + branches.length, (statement_grows scope _ fuel (fuel + 1) ?_).trans ?_⟩
    · exact Nat.le_succ fuel
    · exact branch_continues branches fuel
  have hcases (fuel : Nat) : ∃ more, Continues (nestedIfs scope otherwise branches fuel)
      (statement more scope (.doCase branches otherwise)) :=
    ⟨fuel + 1, nestedIfs_continues branches (Nat.le_refl fuel)⟩
  exact ⟨fun r m' => ⟨fun h => h.of_continues hnested, fun h => h.of_continues hcases⟩,
    fun text => ⟨fun h => h.of_continues hnested, fun h => h.of_continues hcases⟩⟩

end Eval

end Xbase
