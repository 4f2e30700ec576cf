import Xbase.Proofs.Store.Chain

/-!
# Names in sight

A scope sees its own names and those of its ancestors that are not `LOCAL` there, the nearest first
(`Linked.owner?_eq`). An assignment replaces or adds one binding (`writes_assign`). When one binding
is written:

* `Writes.owner?`: the scope that is written may come into sight, and all else in sight stays;
* `Writes.get?`: where the written scope owns the name the new value is seen, and everywhere else
  what was seen before.

`Reachable.sight` puts these together for every store that can be reached.
-/

namespace Xbase.Store

variable {σ τ : Store} {id id' target : ScopeId} {name name' : String} {b : Binding} {v : Value}

/-! ## Ancestors -/

/-- The scopes above the scope `id`, nearest first, up to one without a parent. -/
inductive Ancestors (σ : Store) : (id : ScopeId) → (above : List ScopeId) → Prop
  | top {id : ScopeId} (h : σ.parent? id = none) : Ancestors σ id []
  | up {id parent : ScopeId} {above : List ScopeId} (h : σ.parent? id = some parent)
      (more : Ancestors σ parent above) : Ancestors σ id (parent :: above)

/-- The binding of a name in the scope `id` can be seen from the scopes below. -/
def Shows (σ : Store) (name : String) (id : ScopeId) : Bool :=
  (σ.binding? id name).any (·.visibility ≠ .loc)

namespace Linked

theorem ancestors (h : σ.Linked) (id : ScopeId) : ∃ above, σ.Ancestors id above := by
  induction id using Nat.strongRecOn with
  | ind id ih =>
    cases hp : σ.parent? id with
    | none => exact ⟨[], .top hp⟩
    | some parent =>
      obtain ⟨above, habove⟩ := ih parent (h.parent id parent hp).1
      exact ⟨parent :: above, .up hp habove⟩

/-- The search in the ancestors finds the nearest one that shows the name. -/
theorem inheritedOwner?_eq (h : σ.Linked) {above : List ScopeId} (ha : σ.Ancestors id above) :
    σ.inheritedOwner? id name = above.find? (σ.Shows name) := by
  induction ha with
  | top hp => rw [inheritedOwner?, hp, List.find?_nil]
  | @up id parent above hp _ ih =>
    have hin : σ.isInherited parent name = σ.Shows name parent := isInherited_eq ..
    rw [inheritedOwner?, hp]
    dsimp only
    rw [if_pos (h.parent id parent hp).1, hin, ih, List.find?_cons]
    cases σ.Shows name parent <;> rfl

/-- The owner of a name is the scope itself, or else the nearest ancestor that shows the name. -/
theorem owner?_eq (h : σ.Linked) {above : List ScopeId} (ha : σ.Ancestors id above)
    (name : String) : σ.owner? id name =
      if (σ.binding? id name).isSome then some id else above.find? (σ.Shows name) := by
  rw [owner?, containsLocal_eq, h.inheritedOwner?_eq ha]

end Linked

theorem get?_eq (σ : Store) (id : ScopeId) (name : String) : σ.get? id name =
    (σ.owner? id name).bind fun owner => (σ.binding? owner name).map (·.value) := by
  rw [get?]
  exact congrArg _ (funext fun owner => getLocal?_eq σ owner name)

/-- The owner of a name binds it. -/
theorem binding?_of_owner? {owner : ScopeId} (h : σ.owner? id name = some owner) :
    ∃ b, σ.binding? owner name = some b :=
  Option.isSome_iff_exists.1 (containsLocal_eq σ owner name ▸ containsLocal_of_owner? h)

/-! ## One binding -/

/-- The stores differ in one binding: in `τ`, the scope `id` binds the name as `b` says. -/
structure Writes (σ τ : Store) (id : ScopeId) (name : String) (b : Binding) : Prop where
  size : τ.scopes.size = σ.scopes.size
  parent : ∀ id', τ.parent? id' = σ.parent? id'
  global : ∀ id', τ.global? id' = σ.global? id'
  bound : τ.binding? id name = some b
  others : ∀ id' name', ¬ (id' = id ∧ name' = name) → τ.binding? id' name' = σ.binding? id' name'

theorem writes_put (h : target < σ.scopes.size) : σ.Writes (σ.put target name b) target name b where
  size := size_put
  parent := fun _ => parent?_put
  global := fun _ => global?_put
  bound := by rw [binding?_put, if_pos ⟨rfl, rfl, h⟩]
  others := fun id' name' hne => by
    rw [binding?_put, if_neg]
    rintro ⟨rfl, rfl, -⟩
    exact hne ⟨rfl, rfl⟩

namespace Writes

variable (h : σ.Writes τ target name b)

include h

theorem binding?_of_ne (hne : name' ≠ name) : τ.binding? id name' = σ.binding? id name' :=
  h.others id name' fun heq => hne heq.2

/-- If the written scope shows the name now or did not show it before, a search in the ancestors
comes to that scope, or else to the same one as before. -/
theorem inheritedOwner? (hb : b.visibility = .loc → σ.isInherited target name = false) :
    τ.inheritedOwner? id name = some target ∨
      τ.inheritedOwner? id name = σ.inheritedOwner? id name := by
  fun_induction Store.inheritedOwner? σ id name with
  | case1 id hp =>
    right
    rw [Store.inheritedOwner?, h.parent, hp]
  | case2 id parent hp hlt hin =>
    by_cases heq : parent = target
    · subst heq
      have hloc : b.visibility ≠ .loc := fun hloc => by simp [hb hloc] at hin
      left
      rw [Store.inheritedOwner?, h.parent, hp]
      simp [hlt, isInherited_eq, h.bound, hloc]
    · right
      rw [isInherited_eq, ← h.others parent name fun hw => heq hw.1, ← isInherited_eq] at hin
      rw [Store.inheritedOwner?, h.parent, hp]
      simp [hlt, hin]
  | case3 id parent hp hlt hin ih =>
    have hstep : τ.inheritedOwner? id name =
        if τ.isInherited parent name then some parent else τ.inheritedOwner? parent name := by
      rw [Store.inheritedOwner?, h.parent, hp]
      simp [hlt]
    rw [hstep]
    by_cases heq : parent = target
    · subst heq
      split
      · exact .inl rfl
      · exact ih
    · rw [isInherited_eq, h.others parent name fun hw => heq hw.1, ← isInherited_eq, if_neg hin]
      exact ih
  | case4 id parent hp hlt =>
    right
    rw [Store.inheritedOwner?, h.parent, hp]
    simp [hlt]

/-- Other names have the same owners as before. -/
theorem owner?_of_ne (hne : name' ≠ name) : τ.owner? id name' = σ.owner? id name' := by
  have hinherited : τ.inheritedOwner? id name' = σ.inheritedOwner? id name' :=
    inheritedOwner?_congr h.parent (fun id => by
      rw [isInherited_eq, isInherited_eq, h.binding?_of_ne hne]) id
  rw [owner?, owner?, containsLocal_eq, containsLocal_eq, h.binding?_of_ne hne, hinherited]

/-- The written scope owns the name itself. -/
theorem owner?_self : τ.owner? target name = some target := by
  rw [Store.owner?, containsLocal_eq, h.bound, Option.isSome_some, if_pos rfl]

/-- The owner of the written name is the written scope or the same one as before. -/
theorem owner? (hb : b.visibility = .loc → σ.isInherited target name = false) (id : ScopeId) :
    τ.owner? id name = some target ∨ τ.owner? id name = σ.owner? id name := by
  by_cases heq : id = target
  · subst heq
    exact .inl h.owner?_self
  · rw [Store.owner?, Store.owner?, containsLocal_eq, containsLocal_eq,
      h.others id name fun hw => heq hw.1]
    split
    · exact .inr rfl
    · exact h.inheritedOwner? hb

/-- The new value is seen where the written scope owns the name now, and everywhere else what was
seen before. -/
theorem get? (hb : b.visibility = .loc → σ.isInherited target name = false) (id' : ScopeId)
    (name' : String) : τ.get? id' name' =
      if name' = name ∧ τ.owner? id' name = some target then some b.value
      else σ.get? id' name' := by
  rw [get?_eq, get?_eq]
  by_cases hname : name' = name
  · subst hname
    by_cases hown : τ.owner? id' name' = some target
    · rw [if_pos ⟨rfl, hown⟩, hown, Option.bind_some, h.bound, Option.map_some]
    · rw [if_neg fun heq => hown heq.2, (h.owner? hb id').resolve_left hown]
      rw [(h.owner? hb id').resolve_left hown] at hown
      cases ho : σ.owner? id' name' with
      | none => rfl
      | some owner =>
        rw [Option.bind_some, Option.bind_some, h.others owner name']
        rintro ⟨rfl, -⟩
        exact hown ho
  · rw [if_neg fun heq => hname heq.1, h.owner?_of_ne hname]
    exact congrArg _ (funext fun owner => by rw [h.binding?_of_ne hname])

end Writes

/-! ## Assignments -/

/-- The scope that an assignment writes to. -/
def assigned (σ : Store) (id : ScopeId) (name : String) : ScopeId :=
  (σ.owner? id name).getD id

/-- An assignment to a name in sight replaces its value where it is bound, and who sees it stays. -/
theorem assign_of_owner? {owner : ScopeId} (ho : σ.owner? id name = some owner)
    (hb : σ.binding? owner name = some b) :
    σ.Writes (σ.assign id name v) owner name ⟨b.visibility, v⟩ := by
  rw [assign, ho]
  dsimp only
  rw [replaceLocal_of_some hb]
  exact writes_put (lt_of_binding? hb)

/-- An assignment to a name that is not in sight binds it in the scope itself. -/
theorem assign_of_none (hid : id < σ.scopes.size) (ho : σ.owner? id name = none) :
    σ.Writes (σ.assign id name v) id name ⟨.priv, v⟩ := by
  rw [assign, ho]
  dsimp only
  rw [set_eq]
  exact writes_put hid

/-- An assignment writes one binding. If that is `LOCAL`, it was so before. -/
theorem writes_assign (hid : id < σ.scopes.size) (name : String) (v : Value) :
    ∃ visibility, σ.Writes (σ.assign id name v) (σ.assigned id name) name ⟨visibility, v⟩ ∧
      (visibility = .loc → σ.isInherited (σ.assigned id name) name = false) := by
  cases ho : σ.owner? id name with
  | none =>
    rw [assigned, ho]
    exact ⟨.priv, assign_of_none hid ho, fun hloc => by cases hloc⟩
  | some owner =>
    obtain ⟨b, hb⟩ := binding?_of_owner? ho
    rw [assigned, ho]
    refine ⟨b.visibility, assign_of_owner? ho hb, fun hloc => ?_⟩
    rw [Option.getD_some, isInherited_eq, hb, Option.any_some, hloc]
    rfl

/-- After an assignment, the scope that was written owns the name. -/
theorem owner?_assign (hid : id < σ.scopes.size) :
    (σ.assign id name v).owner? id name = some (σ.assigned id name) := by
  obtain ⟨visibility, hw, hloc⟩ := writes_assign hid name v
  obtain hown | hown := hw.owner? hloc id
  · exact hown
  · cases ho : σ.owner? id name with
    | none =>
      rw [assigned, ho] at hw ⊢
      exact hw.owner?_self
    | some owner => rw [hown, assigned, ho, Option.getD_some]

/-- In every store that can be reached, for every scope that exists, every name and every value:

* the owner of the name is the scope itself if it binds the name, or else the nearest of its
  ancestors that binds it and is not `LOCAL` there, and what is in sight is the owner's value;
* an assignment is seen in the scope at once;
* if there was an owner, its value is replaced there, its visibility stays, and nothing else
  changes; if there was none, one `PRIVATE` binding is added in the scope itself;
* every scope sees the new value where the owner of the name is now the scope that was written, and
  everywhere else, and under all other names, what it saw before. -/
theorem Reachable.sight {σ : Store} (h : σ.Reachable) {id : ScopeId} (hid : id < σ.scopes.size)
    (name : String) (v : Value) :
    (∃ above, σ.Ancestors id above ∧ σ.owner? id name =
      if (σ.binding? id name).isSome then some id else above.find? (σ.Shows name)) ∧
    (∀ owner, σ.owner? id name = some owner →
      ∃ b, σ.binding? owner name = some b ∧ σ.get? id name = some b.value) ∧
    (σ.owner? id name = none → σ.get? id name = none) ∧
    (σ.assign id name v).get? id name = some v ∧
    (∀ owner b, σ.owner? id name = some owner → σ.binding? owner name = some b →
      σ.Writes (σ.assign id name v) owner name ⟨b.visibility, v⟩) ∧
    (σ.owner? id name = none → σ.binding? id name = none ∧
      σ.Writes (σ.assign id name v) id name ⟨.priv, v⟩) ∧
    ∀ id' name', (σ.assign id name v).get? id' name' =
      if name' = name ∧ (σ.assign id name v).owner? id' name = some (σ.assigned id name) then some v
      else σ.get? id' name' := by
  obtain ⟨visibility, hw, hloc⟩ := writes_assign hid name v
  obtain ⟨above, habove⟩ := h.linked.2.ancestors id
  have howner := h.linked.2.owner?_eq habove name
  refine ⟨⟨above, habove, howner⟩, fun owner ho => ?_, fun ho => ?_, ?_,
    fun owner b ho hb => assign_of_owner? ho hb, fun ho => ⟨?_, assign_of_none hid ho⟩,
    hw.get? hloc⟩
  · obtain ⟨b, hb⟩ := binding?_of_owner? ho
    exact ⟨b, hb, by rw [get?_eq, ho, Option.bind_some, hb, Option.map_some]⟩
  · rw [get?_eq, ho, Option.bind_none]
  · rw [hw.get? hloc, if_pos ⟨rfl, owner?_assign hid⟩]
  · cases hb : σ.binding? id name with
    | none => rfl
    | some b =>
      rw [ho, hb, Option.isSome_some, if_pos rfl] at howner
      cases howner

/-- A call does not see the `LOCAL` of its home, and an assignment in it leaves that as it is. -/
theorem Reachable.sight_local :
    ∃ σ : Store, σ.Reachable ∧ 1 < σ.scopes.size ∧ σ.get? 0 "n" = some .null ∧
      σ.get? 1 "n" = none ∧
      (σ.assign 1 "n" (.logical true)).get? 1 "n" = some (.logical true) ∧
      (σ.assign 1 "n" (.logical true)).get? 0 "n" = some .null := by
  let σ : Store := ((Store.empty.newGlobal.2.set 0 "n" .loc .null).newCallScope 0).2
  have hr : σ.Reachable :=
    .newCallScope (.set 0 "n" .loc (.newGlobal .empty) fun home hhome => by cases hhome) (by decide)
  have hid : 1 < σ.scopes.size := by decide
  have h := hr.sight hid "n" (.logical true)
  have habove : σ.Ancestors 1 [0] := .up rfl (.top rfl)
  have howner : σ.owner? 1 "n" = none := by
    rw [hr.linked.2.owner?_eq habove]
    rfl
  have hw := (h.2.2.2.2.2.1 howner).2
  refine ⟨σ, hr, hid, rfl, h.2.2.1 howner, h.2.2.2.1, ?_⟩
  rw [h.2.2.2.2.2.2, assigned, howner, owner?, containsLocal_eq, hw.others 0 "n" (by decide)]
  rfl

end Xbase.Store
