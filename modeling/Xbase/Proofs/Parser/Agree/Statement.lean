import Xbase.Proofs.Parser.Agree.Expr

/-!
# Statements in a longer text

The parser of statements agrees with itself in a longer text, at any two depths that are enough
(`Parser.statements_agree`). A block that comes to the end of the source lacks the keyword that
closes it, and so an error is recorded there; the statements of the whole source just go on with the
lines that follow.
-/

namespace Xbase

namespace Context.Same

variable {K : Context}

theorem append {α : Type} [HasPlaces α] {as as' bs bs' : List α} (h : K.Same as as')
    (hs : K.Same bs bs') : K.Same (as ++ bs) (as' ++ bs') := by
  have h : as.map (HasPlaces.mapSpan K.here) = as'.map (HasPlaces.mapSpan K.there) := h
  have hs : bs.map (HasPlaces.mapSpan K.here) = bs'.map (HasPlaces.mapSpan K.there) := hs
  show List.map _ _ = List.map _ _
  rw [List.map_append, List.map_append, h, hs]

theorem toList {α : Type} [HasPlaces α] {a? a?' : Option α} (h : K.Same a? a?') :
    K.Same a?.toList a?'.toList := by
  cases a? with
  | none =>
    cases a?' with
    | none => rfl
    | some a' => cases h
  | some a =>
    cases a?' with
    | none => cases h
    | some a' => exact Same.cons (Option.some.inj h) rfl

theorem length {α : Type} [HasPlaces α] {as as' : List α} (h : K.Same as as') :
    as.length = as'.length := by
  have h : as.map (HasPlaces.mapSpan K.here) = as'.map (HasPlaces.mapSpan K.there) := h
  simpa using congrArg List.length h

theorem name {x x' : Ident} (h : K.Same x x') : x.name = x'.name :=
  (Ident.mk.inj h).1

theorem eq_type {type? type?' : Option DeclaredType} (h : K.Same type? type?') :
    type? = type?' := by
  simpa [Context.Same, HasPlaces.mapSpan] using h

variable {c c' : Expr} {b b' : Block}

/-- Blocks are compared statement by statement. -/
theorem mapAll (h : K.Same b b') :
    Statement.mapAll id K.here b = Statement.mapAll id K.there b' := by
  rw [Statement.mapAll_eq, Statement.mapAll_eq]
  exact h

theorem doWhile (hc : K.Same c c') (hb : K.Same b b') :
    K.Same (Statement.doWhile c b) (Statement.doWhile c' b') :=
  congrArg₂ Statement.doWhile hc hb.mapAll

theorem function {x x' : Ident} {xs xs' : List Ident} (hx : K.Same x x') (hxs : K.Same xs xs')
    (hb : K.Same b b') : K.Same (Statement.function x xs b) (Statement.function x' xs' b') :=
  congrFun (congrArg₂ Statement.function hx hxs) _ |>.trans
    (congrArg (Statement.function _ _) hb.mapAll)

theorem ifThen {no no' : Option Block} (hc : K.Same c c') (hb : K.Same b b')
    (hno : K.Same no no') : K.Same (Statement.ifThen c b no) (Statement.ifThen c' b' no') := by
  have hyes := congrArg₂ Statement.ifThen hc hb.mapAll
  cases no <;> cases no' <;> try cases hno
  · exact congrFun hyes none
  · exact (congrFun hyes _).trans
      (congrArg (Statement.ifThen _ _) (congrArg some (mapAll (Option.some.inj hno))))

theorem mapCases {branches branches' : List (Expr × Block)} (h : K.Same branches branches') :
    Statement.mapCases id K.here branches = Statement.mapCases id K.there branches' := by
  rw [Statement.mapCases_eq, Statement.mapCases_eq]
  exact h

theorem doCase {branches branches' : List (Expr × Block)} {no no' : Option Block}
    (h : K.Same branches branches') (hno : K.Same no no') :
    K.Same (Statement.doCase branches no) (Statement.doCase branches' no') := by
  have hbranches := congrArg Statement.doCase h.mapCases
  cases no <;> cases no' <;> try cases hno
  · exact congrFun hbranches none
  · exact (congrFun hbranches _).trans
      (congrArg (Statement.doCase _) (congrArg some (mapAll (Option.some.inj hno))))

end Context.Same

namespace Parser

variable {α : Type} {K : Context} {e : Bool} {s : ParseState}

-- The rules of the compound statements are long sequences.
set_option synthInstance.maxSize 1000

/-! ## The end of the source -/

theorem expectName_end {f : Token → Parser α} (hs : s.Closed) (hr : s.rest = []) :
    EndError (expectName >>= f) s := by
  have hne : s.current.kind ≠ .name := (current_kind_end hs hr).trans_ne (by decide)
  exact .of_record hr (bind_none ((expectName_run s).trans (if_neg hne)))

theorem expect_end {k : Kind} {f : Token → Parser α} (hk : k ≠ .endOfFile) (hs : s.Closed)
    (hr : s.rest = []) : EndError (expect k >>= f) s := by
  have hne : s.current.kind ≠ k := (current_kind_end hs hr).trans_ne (Ne.symm hk)
  exact .of_record hr (bind_none ((expect_run k s).trans (if_neg hne)))

theorem demand_end {k : Kind} {f : Unit → Parser α} [∀ a, Forward (f a)] (hk : k ≠ .endOfFile)
    (hs : s.Closed) (hr : s.rest = []) : EndError (demand k >>= f) s := by
  have hne : s.current.kind ≠ k := (current_kind_end hs hr).trans_ne (Ne.symm hk)
  have hdemand : EndError (demand k) s := .of_record hr ((demand_run k s).trans (if_neg hne))
  exact hdemand.bind

/-- A declarator needs a token: the end of the file is an error. -/
theorem declarator_end (hs : s.Closed) (hr : s.rest = []) : EndError declarator s := by
  unfold declarator ident
  exact (expectName_end hs hr).bind

/-- At the end of the file there are no more statements, which is no error. -/
theorem statements_nil {d : Nat} {ends : List Keyword} (hs : s.Closed) (hr : s.rest = []) :
    statements (d + 1) ends s = (some [], s) := by
  rw [statements_succ, ParseState.current_kind hs, hr]
  rfl

/-- At the end of the file there are no more cases, which is no error. -/
theorem cases_nil {d : Nat} (hs : s.Closed) (hr : s.rest = []) :
    cases (d + 1) s = (some [], s) := by
  rw [cases, bind_some (eat_false hs (by rw [hr]; decide))]
  rfl

/-! ## Parts of statements -/

/-- Names are read alike in both contexts. -/
theorem ident_agrees (hs : K.Meets s) : Agrees K e ident ident s :=
  Agrees.expectName hs fun t _ hr _ hs₁ =>
    .pure hs₁ (congrArg (Ident.mk t.lexeme) (hs.suits.span (hr ▸ List.mem_cons_self)))

/-- Type clauses are read alike in both contexts. -/
theorem typeClause_agrees (hs : K.Meets s) : Agrees K e typeClause typeClause s := by
  have := typeOf_forward
  refine Agrees.eat hs (by decide) (by decide) (fun t ts _ _ hs₁ => ?_) (.pure hs rfl)
  refine (ident_agrees hs₁).bind hs₁ fun x x' s₂ _ same hs₂ _ => ?_
  rw [same.name]
  split
  · exact .pure hs₂ rfl
  · exact .failWith hs₂ _

/-- Declarators are read alike in both contexts. -/
theorem declarator_agrees (hs : K.Meets s) : Agrees K e declarator declarator s := by
  refine (ident_agrees hs).bind hs fun x x' s₁ _ samex hs₁ _ => ?_
  refine (typeClause_agrees hs₁).bind hs₁ fun t? t?' s₂ _ samet hs₂ _ => ?_
  have hx : x.map K.here = x'.map K.there := samex
  have hdecl (i? i?' : Option Expr) (h : K.Same i? i?') :
      K.Same (Declarator.mk x t? i?) (Declarator.mk x' t?' i?') := by
    have h : i?.map (Expr.map id K.here) = i?'.map (Expr.map id K.there) := h
    show Declarator.mk _ _ _ = Declarator.mk _ _ _
    rw [hx, samet.eq_type, h]
  refine Agrees.eat hs₂ (by decide) (by decide) (fun t ts _ _ hs₃ => ?_) (.pure hs₂ (hdecl _ _ rfl))
  exact (expression_agrees hs₃).bind hs₃ fun i i' s₄ _ same hs₄ _ =>
    .pure hs₄ (hdecl _ _ (congrArg some same))

/-- Line breaks around a name may be the last tokens. -/
theorem looseDeclarator_agrees (hs : K.Meets s) :
    Agrees K true looseDeclarator looseDeclarator s := by
  refine Agrees.skipNewlines hs (fun s₁ hs₁ _ => ?_) fun s₁ hc hr =>
    .inl (declarator_end hc hr).bind
  refine (declarator_agrees hs₁).bind hs₁ fun x x' s₂ _ same hs₂ _ => ?_
  exact Agrees.skipNewlines hs₂ (fun s₃ hs₃ _ => .pure hs₃ same) fun s₃ _ hr => .pure rfl hr

/-- Declarations are read alike in both contexts. -/
theorem declaration_agrees {v : Visibility} {t : Token} {ts : List Token} (hs : K.Meets s)
    (hr : s.rest = t :: ts) (hk : t.kind ≠ .newline) :
    Agrees K e (declaration v) (declaration v) s := by
  have hs₁ := hs.of_cons hr hk
  refine Agrees.advance hr (Agrees.eat hs₁ (by decide) (by decide) (fun t₁ ts₁ _ _ hs₂ => ?_) ?_)
  · refine (Agrees.commaSeparated hs₂ fun _ hs => looseDeclarator_agrees hs).bind_ended hs₂
      (fun ds ds' s₃ _ same hs₃ _ => ?_) fun _ ds s₃ hc hr => .inl (expect_end (by decide) hc hr)
    refine Agrees.expect hs₃ (by decide) (by decide) fun t₂ ts₂ _ _ hs₄ => .pure hs₄ ?_
    exact congrArg (Statement.declareAll v · true) same
  · have := declared_forward v
    refine (Agrees.commaSeparated hs₁ fun _ hs => declarator_agrees hs).bind hs₁
      fun ds ds' s₂ _ same hs₂ _ => ?_
    have hlength := same.length
    obtain _ | ⟨d, _ | ⟨d₂, ds⟩⟩ := ds <;> obtain _ | ⟨d', _ | ⟨d₂', ds'⟩⟩ := ds' <;>
      try simp at hlength
    · exact .pure hs₂ rfl
    · exact .pure hs₂ (congrArg (Statement.declare v) (List.cons.inj same).1)
    · exact .pure hs₂ (congrArg (Statement.declareAll v · false) same)

/-- Parameters are read alike in both contexts. -/
theorem parameters_agrees (hs : K.Meets s) : Agrees K e parameters parameters s := by
  have hclose {s : ParseState} (xs xs' : List Ident) (same : K.Same xs xs') (hs : K.Meets s) :
      Agrees K e (demand (.symbol .rightParen) >>= fun _ => pure xs)
        (demand (.symbol .rightParen) >>= fun _ => pure xs') s :=
    Agrees.demand hs (by decide) (fun s₁ hs₁ _ => .pure hs₁ same) nofun
  refine Agrees.eat hs (by decide) (by decide) (fun t ts _ _ hs₁ => ?_) (.pure hs rfl)
  refine Agrees.peek (c := (· = .symbol .rightParen)) hs₁ (by decide) (fun _ => ?_) fun _ => ?_
  · exact hclose [] [] rfl hs₁
  · exact (Agrees.commaSeparated hs₁ fun _ hs => ident_agrees hs).bind hs₁
      fun xs xs' s₂ _ same hs₂ _ => hclose xs xs' same hs₂

/-- `RETURN` is read alike in both contexts, with a value or without one. -/
theorem returnStatement_agrees {t : Token} {ts : List Token} (hs : K.Meets s)
    (hr : s.rest = t :: ts) (hk : t.kind ≠ .newline) :
    Agrees K e returnStatement returnStatement s := by
  have hs₁ := hs.of_cons hr hk
  have hspan := hs.suits.span (hr ▸ List.mem_cons_self)
  refine Agrees.advance hr (Agrees.peek (c := (endsStatement · = true)) hs₁ (by decide)
    (fun _ => ?_) fun _ => ?_)
  · exact .pure hs₁ (congrArg (Statement.ret none) hspan)
  · refine (expression_agrees hs₁).bind hs₁ fun a a' s₂ _ same hs₂ _ => .pure hs₂ ?_
    exact congrArg₂ Statement.ret (congrArg some same) hspan

/-- `?` is read alike in both contexts. -/
theorem printStatement_agrees {t : Token} {ts : List Token} (hs : K.Meets s)
    (hr : s.rest = t :: ts) (hk : t.kind ≠ .newline) :
    Agrees K e printStatement printStatement s := by
  have hs₁ := hs.of_cons hr hk
  have hspan := hs.suits.span (hr ▸ List.mem_cons_self)
  refine Agrees.advance hr (Agrees.peek (c := (endsStatement · = true)) hs₁ (by decide)
    (fun _ => ?_) fun _ => ?_)
  · exact .pure hs₁ (congrArg (Statement.print []) hspan)
  · refine (Agrees.commaSeparated hs₁ fun _ hs => expression_agrees hs).bind hs₁
      fun as as' s₂ _ same hs₂ _ => .pure hs₂ ?_
    exact congrArg₂ Statement.print same hspan

theorem endCase_eq (s : ParseState) :
    endCase s = if s.current.kind = .keyword .ENDCASE then (some (), { s with rest := s.rest.tail })
      else (some (), s.record (.nonCaseBranch s.current.kind)) := by
  unfold endCase
  rw [bind_some (current_run s)]
  split <;> rfl

/-- An open `DO CASE` at the end of the file is an error. -/
theorem endCase_end {f : Unit → Parser α} [∀ a, Forward (f a)] (hs : s.Closed) (hr : s.rest = []) :
    EndError (endCase >>= f) s := by
  have hne : s.current.kind ≠ .keyword .ENDCASE := (current_kind_end hs hr).trans_ne (by decide)
  have hend : EndError endCase s := .of_record hr ((endCase_eq s).trans (if_neg hne))
  exact hend.bind

theorem endCase_agrees {f f' : Unit → Parser α} [HasPlaces α] [∀ a, Forward (f a)] (hs : K.Meets s)
    (h : ∀ s₁, K.Meets s₁ → Agrees K e (f ()) (f' ()) s₁) :
    Agrees K e (endCase >>= f) (endCase >>= f') s :=
  Agrees.demanded (F := .nonCaseBranch) endCase_eq hs (by decide) (fun s₁ hs₁ _ => h s₁ hs₁) nofun

/-! ## Statements -/

/-- `statement` agrees at the depth `d`, if the depth is enough. -/
def StatementAgrees (K : Context) (d : Nat) : Prop :=
  ∀ (d' : Nat) (s : ParseState), K.Meets s → Covers K 1 d d' s →
    Agrees K false (statement d) (statement d') s

/-- Blocks agree at the depth `d`, if the depth is enough. -/
def BlockAgrees (K : Context) (d : Nat) : Prop :=
  ∀ (ends : List Keyword) (d' : Nat) (s : ParseState), K.Meets s → Covers K 2 d d' s →
    Agrees K true (statements d ends) (statements d' ends) s

/-- `cases` agrees at the depth `d`, if the depth is enough. -/
def CasesAgree (K : Context) (d : Nat) : Prop :=
  ∀ (d' : Nat) (s : ParseState), K.Meets s → Covers K 1 d d' s →
    Agrees K true (cases d) (cases d') s

section

variable {d d' : Nat}

/-- A block behind a line break. -/
theorem BlockAgrees.body [HasPlaces α] (ih : BlockAgrees K d) {ends : List Keyword}
    {f f' : Block → Parser α} [∀ b, Forward (f b)] (hs : K.Meets s) (hd : Covers K 2 d d' s)
    (h : ∀ b b' s₁, K.Same b b' → K.Meets s₁ → s₁.rest <:+ s.rest → Agrees K e (f b) (f' b') s₁)
    (hend : ∀ b s₁, s₁.Closed → s₁.rest = [] → Ended e (f b) s₁) :
    Agrees K e (demand .newline >>= fun _ => statements d ends >>= f)
      (demand .newline >>= fun _ => statements d' ends >>= f') s := by
  obtain ⟨d, rfl⟩ : ∃ c, d = c + 1 := ⟨d - 1, by have := hd.here; omega⟩
  refine Agrees.demand hs (by decide) (fun s₁ hs₁ hsuf₁ => ?_) fun _ s₁ hc hr =>
    (hend [] s₁ hc hr).step (bind_some (statements_nil hc hr)) rfl
  exact (ih ends d' s₁ hs₁ (hd.mono hsuf₁.length_le)).bind_ended hs₁
    (fun b b' s₂ _ same hs₂ hsuf₂ => h b b' s₂ same hs₂ (hsuf₂.trans hsuf₁))
    fun _ b s₂ hc hr => hend b s₂ hc hr

/-- The keyword that closes a block, with the statement that is then complete. -/
theorem close_agrees [HasPlaces α] {k : Keyword} {a a' : α} (hs : K.Meets s) (same : K.Same a a') :
    Agrees K e (demand (.keyword k) >>= fun _ => pure a) (demand (.keyword k) >>= fun _ => pure a')
      s :=
  Agrees.demand hs (by simp) (fun _ hs₁ _ => .pure hs₁ same) nofun

theorem close_end {k : Keyword} {a : α} (hs : s.Closed) (hr : s.rest = []) :
    Ended e (demand (.keyword k) >>= fun _ => pure a) s :=
  .inl (demand_end (by simp) hs hr)

/-- `DO WHILE` is read alike in both contexts if blocks are. -/
theorem BlockAgrees.whileLoop (ih : BlockAgrees K d) {t : Token} {ts : List Token} (hs : K.Meets s)
    (hr : s.rest = t :: ts) (hk : t.kind ≠ .newline) (hd : Covers K 2 d d' { s with rest := ts }) :
    Agrees K e (whileLoop (statements d [.ENDDO])) (whileLoop (statements d' [.ENDDO])) s := by
  have hs₁ := hs.of_cons hr hk
  refine Agrees.advance hr ((expression_agrees hs₁).bind hs₁ fun c c' s₂ _ samec hs₂ hsuf₂ => ?_)
  exact ih.body hs₂ (hd.mono hsuf₂.length_le)
    (fun b b' s₃ same hs₃ _ => close_agrees hs₃ (samec.doWhile same))
    fun b s₃ hc hr => close_end hc hr

/-- Cases agree at one more level if blocks and the cases that follow do. -/
theorem CasesAgree.succ (ihBlock : BlockAgrees K d) (ih : CasesAgree K d) :
    CasesAgree K (d + 1) := by
  intro d' s hs hd
  obtain ⟨d', rfl⟩ := hd.exists_succ
  unfold cases
  refine Agrees.eat hs (by decide) (by decide) (fun t ts hr _ hs₁ => ?_) (.pure hs rfl)
  have hd₁ : Covers K 2 d d' { s with rest := ts } :=
    hd.read (by rw [hr]; exact Nat.lt_succ_self _)
  obtain ⟨d, rfl⟩ : ∃ c, d = c + 1 := ⟨d - 1, by have := hd₁.here; omega⟩
  refine (expression_agrees hs₁).bind hs₁ fun c c' s₂ _ samec hs₂ hsuf₂ => ?_
  have hd₂ := hd₁.mono hsuf₂.length_le
  refine ihBlock.body hs₂ hd₂ (fun b b' s₃ sameb hs₃ hsuf₃ => ?_) fun b s₃ hc hr =>
    Ended.step (bind_some (cases_nil hc hr)) rfl (.pure rfl hr)
  refine (ih d' s₃ hs₃ (hd₂.mono hsuf₃.length_le).weaken).bind_ended hs₃
    (fun bs bs' s₄ _ sames hs₄ _ => .pure hs₄ ?_) fun _ bs s₄ _ hr => .pure rfl hr
  exact Context.Same.cons (congrArg₂ Prod.mk samec sameb) sames

end

/-! ## Forms of statements -/

namespace Form

/-- All that matters of the second token is whether it goes on with `DO`. -/
theorem ofKinds_congr {first second second' : Kind}
    (h : ∀ w : Keyword, second' = .keyword w ↔ second = .keyword w) :
    ofKinds first second' = ofKinds first second := by
  unfold ofKinds
  simp only [h]

/-- Behind `DO` stands a keyword. -/
theorem ofKinds_do {first second : Kind}
    (h : ofKinds first second = doCase ∨ ofKinds first second = doWhile) :
    ∃ w : Keyword, second = .keyword w := by
  unfold ofKinds at h
  split at h <;> simp at h
  grind

end Form

section

variable {d d' : Nat} {t : Token} {ts : List Token}

theorem expr_agrees (hs : K.Meets s) :
    Agrees K e (expression >>= fun a => pure (Statement.expr a))
      (expression >>= fun a => pure (Statement.expr a)) s :=
  (expression_agrees hs).bind hs fun _ _ _ _ same hs₁ _ =>
    .pure hs₁ (congrArg Statement.expr same)

/-- `IF` is read alike in both contexts if blocks are, with `ELSE` or without it. -/
theorem BlockAgrees.ifThen (ih : BlockAgrees K d) (hs : K.Meets s) (hr : s.rest = t :: ts)
    (hk : t.kind ≠ .newline) (hd : Covers K 2 d d' { s with rest := ts }) :
    Agrees K e (Form.ifThen.rule (statements d) (cases d))
      (Form.ifThen.rule (statements d') (cases d')) s := by
  have hs₁ := hs.of_cons hr hk
  refine Agrees.advance hr ((expression_agrees hs₁).bind hs₁ fun c c' s₂ _ samec hs₂ hsuf₂ => ?_)
  -- The same follows whether `THEN` is there or not.
  have hrest {s₃ : ParseState} (hs₃ : K.Meets s₃) (hlen₃ : s₃.rest.length ≤ ts.length) :
      Agrees K e
        (demand .newline >>= fun _ => statements d [.ELSE, .ENDIF] >>= fun yes =>
          eat (.keyword .ELSE) >>= fun b => if b = true then
            demand .newline >>= fun _ => statements d [.ENDIF] >>= fun no =>
            demand (.keyword .ENDIF) >>= fun _ => pure (Statement.ifThen c yes (some no))
          else demand (.keyword .ENDIF) >>= fun _ => pure (Statement.ifThen c yes none))
        (demand .newline >>= fun _ => statements d' [.ELSE, .ENDIF] >>= fun yes =>
          eat (.keyword .ELSE) >>= fun b => if b = true then
            demand .newline >>= fun _ => statements d' [.ENDIF] >>= fun no =>
            demand (.keyword .ENDIF) >>= fun _ => pure (Statement.ifThen c' yes (some no))
          else demand (.keyword .ENDIF) >>= fun _ => pure (Statement.ifThen c' yes none)) s₃ := by
    have hd₃ := hd.mono hlen₃
    refine ih.body hs₃ hd₃ (fun yes yes' s₄ samey hs₄ hsuf₄ => ?_) fun yes s₄ hc hr =>
      .eat hc hr (by decide) (close_end hc hr)
    refine Agrees.eat hs₄ (by decide) (by decide) (fun t₁ ts₁ hr₁ _ hs₅ => ?_)
      (close_agrees hs₄ (samec.ifThen samey rfl))
    have hsuf₅ := (suffix_of_cons hr₁).trans hsuf₄
    exact ih.body hs₅ (hd₃.mono hsuf₅.length_le)
      (fun no no' s₆ same hs₆ _ => close_agrees hs₆ (samec.ifThen samey (congrArg some same)))
      fun no s₆ hc hr => close_end hc hr
  refine Agrees.eat hs₂ (by decide) (by decide) (fun t₁ ts₁ hr₁ _ hs₃ => ?_) ?_
  · exact hrest hs₃ ((suffix_of_cons hr₁).trans hsuf₂).length_le
  · exact hrest hs₂ hsuf₂.length_le

/-- `DO CASE` is read alike in both contexts if blocks and cases are. -/
theorem BlockAgrees.doCase (ih : BlockAgrees K d) (ihCases : CasesAgree K d) (hs : K.Meets s)
    (hr : s.rest = t :: ts) (hk : t.kind ≠ .newline) (hd : Covers K 2 d d' { s with rest := ts })
    {t₁ : Token} {ts₁ : List Token} (hr₁ : ts = t₁ :: ts₁) (hk₁ : t₁.kind ≠ .newline) :
    Agrees K e (Form.doCase.rule (statements d) (cases d))
      (Form.doCase.rule (statements d') (cases d')) s := by
  have hs₁ := hs.of_cons hr hk
  have hs₂ := hs₁.of_cons hr₁ hk₁
  obtain ⟨d, rfl⟩ : ∃ c, d = c + 1 := ⟨d - 1, by have := hd.here; omega⟩
  have hd₂ : Covers K 2 (d + 1) d' { s with rest := ts₁ } :=
    hd.mono (hr₁ ▸ List.suffix_cons t₁ ts₁).length_le
  -- Without the closing keyword, the end of the source is an error, with branches or without.
  have hend (bs : List (Expr × Block)) (s₃ : ParseState) (hc : s₃.Closed) (hr : s₃.rest = []) :
      Ended e (eat (.keyword .OTHERWISE) >>= fun b => if b = true then
        demand .newline >>= fun _ => statements (d + 1) [.ENDCASE] >>= fun otherwise =>
          endCase >>= fun _ => pure (Statement.doCase bs (some otherwise))
        else endCase >>= fun _ => pure (Statement.doCase bs none)) s₃ :=
    .eat hc hr (by decide) (.inl (endCase_end hc hr))
  refine Agrees.advance hr (Agrees.advance hr₁ (Agrees.demand hs₂ (by decide)
    (fun s₃ hs₃ hsuf₃ => ?_)
    fun _ s₃ hc hr => (hend [] s₃ hc hr).step (bind_some (cases_nil hc hr)) rfl))
  have hd₃ := hd₂.mono hsuf₃.length_le
  refine (ihCases d' s₃ hs₃ hd₃.weaken).bind_ended hs₃ (fun bs bs' s₄ _ sames hs₄ hsuf₄ => ?_)
    fun _ bs s₄ hc hr => hend bs s₄ hc hr
  refine Agrees.eat hs₄ (by decide) (by decide) (fun t₂ ts₂ hr₂ _ hs₅ => ?_)
    (endCase_agrees hs₄ fun s₅ hs₅ => .pure hs₅ (sames.doCase rfl))
  have hsuf₅ := (suffix_of_cons hr₂).trans hsuf₄
  exact ih.body hs₅ (hd₃.mono hsuf₅.length_le)
    (fun o o' s₆ same hs₆ _ =>
      endCase_agrees hs₆ fun s₇ hs₇ => .pure hs₇ (sames.doCase (congrArg some same)))
    fun o s₆ hc hr => .inl (endCase_end hc hr)

/-- `FUNCTION` is read alike in both contexts if blocks are. -/
theorem BlockAgrees.function (ih : BlockAgrees K d) (hs : K.Meets s) (hr : s.rest = t :: ts)
    (hk : t.kind ≠ .newline) (hd : Covers K 2 d d' { s with rest := ts }) :
    Agrees K e (Form.function.rule (statements d) (cases d))
      (Form.function.rule (statements d') (cases d')) s := by
  have hs₁ := hs.of_cons hr hk
  refine Agrees.advance hr ((ident_agrees hs₁).bind hs₁ fun x x' s₂ _ samex hs₂ hsuf₂ => ?_)
  refine (parameters_agrees hs₂).bind hs₂ fun xs xs' s₃ _ sames hs₃ hsuf₃ => ?_
  exact ih.body hs₃ (hd.mono (hsuf₃.trans hsuf₂).length_le)
    (fun b b' s₄ same hs₄ _ => close_agrees hs₄ (samex.function sames same))
    fun b s₄ hc hr => close_end hc hr

/-- The rule of a form of statement agrees. -/
theorem BlockAgrees.rule (ih : BlockAgrees K d) (ihCases : CasesAgree K d) (hs : K.Meets s)
    (hr : s.rest = t :: ts) (hd : Covers K 2 d d' { s with rest := ts }) (hk : t.kind ≠ .newline)
    {form : Form} (hdo : form = .doCase ∨ form = .doWhile →
      ∃ t₁ ts₁, ts = t₁ :: ts₁ ∧ t₁.kind ≠ .newline) :
    Agrees K false (form.rule (statements d) (cases d)) (form.rule (statements d') (cases d'))
      s := by
  have hs₁ := hs.of_cons hr hk
  have hspan : K.here t.span = K.there (K.move.span t.span) :=
    hs.suits.span (hr ▸ List.mem_cons_self)
  cases form with
  | declaration v => exact declaration_agrees hs hr hk
  | function => exact ih.function hs hr hk hd
  | ret => exact returnStatement_agrees hs hr hk
  | ifThen => exact ih.ifThen hs hr hk hd
  | doCase =>
    obtain ⟨t₁, ts₁, hr₁, hk₁⟩ := hdo (.inl rfl)
    exact ih.doCase ihCases hs hr hk hd hr₁ hk₁
  | doWhile =>
    obtain ⟨t₁, ts₁, hr₁, hk₁⟩ := hdo (.inr rfl)
    have hd₁ : Covers K 2 d d' { s with rest := ts₁ } :=
      hd.mono (hr₁ ▸ List.suffix_cons t₁ ts₁).length_le
    exact Agrees.advance hr (ih.whileLoop hs₁ hr₁ hk₁ hd₁)
  | whileOnly => exact ih.whileLoop hs hr hk hd
  | exit => exact Agrees.advance hr (.pure hs₁ (congrArg Statement.exit hspan))
  | loop => exact Agrees.advance hr (.pure hs₁ (congrArg Statement.loop hspan))
  | print => exact printStatement_agrees hs hr hk
  | expr => exact expr_agrees hs

/-- Statements are read alike in both contexts if blocks and cases are, by their first token. -/
theorem BlockAgrees.statement (ih : BlockAgrees K d) (ihCases : CasesAgree K d) :
    StatementAgrees K (d + 1) := by
  intro d' s hs hd
  obtain ⟨d', rfl⟩ := hd.exists_succ
  cases hr : s.rest with
  | nil =>
    -- At the end of the source, and at the line break that may follow, there is no other form.
    refine (expr_agrees hs).step ?_ ?_ rfl
    · rw [statement_succ, current_kind_end hs.closed hr]
      rfl
    · rw [statement_succ]
      by_cases hsees : K.Sees s
      · have hkind : (K.place s).current.kind = .endOfFile := by
          rw [Context.current_place hsees]
          exact current_kind_end hs.closed hr
        rw [hkind]
        rfl
      · rw [(hs.unseen hsees).2.2]
        rfl
  | cons t ts =>
    have hd₁ : Covers K 2 d d' { s with rest := ts } :=
      hd.read (by rw [hr]; exact Nat.lt_succ_self _)
    have hcurrent : (K.place s).current.kind = s.current.kind := by
      rw [Context.current_place (.inl (by simp [hr]))]
      rfl
    by_cases hk : t.kind = .newline
    · refine (expr_agrees hs).step ?_ ?_ rfl
      · rw [statement_succ, current_cons hr, hk]
        rfl
      · rw [statement_succ, hcurrent, current_cons hr, hk]
        rfl
    have hs₁ := hs.of_cons hr hk
    have hsecond : s.following = ({ s with rest := ts } : ParseState).current := by
      rw [ParseState.following, hr]
      rfl
    have hsecond' : (K.place s).following = (K.place { s with rest := ts }).current := by
      rw [ParseState.following, Context.place_cons hr]
      rfl
    have hform : Form.ofKinds (K.place s).current.kind (K.place s).following.kind =
        Form.ofKinds s.current.kind s.following.kind := by
      rw [hcurrent]
      refine Form.ofKinds_congr fun w => ?_
      rw [hsecond, hsecond']
      by_cases hsees : K.Sees { s with rest := ts }
      · rw [Context.current_place hsees]
        rfl
      · obtain ⟨hr₁, -, hk₁⟩ := hs₁.unseen hsees
        rw [hk₁, current_kind_end hs₁.closed hr₁]
        simp
    refine Agrees.step (statement_succ d s) ((statement_succ d' _).trans (by rw [hform])) rfl
      (ih.rule ihCases hs hr hd₁ hk fun hdo => ?_)
    obtain ⟨w, hw⟩ := Form.ofKinds_do hdo
    rw [hsecond] at hw
    obtain ⟨t₁, ts₁, hr₁, rfl⟩ := cons_of_kind hs₁.closed (by rw [hw]; simp)
    exact ⟨_, ts₁, hr₁, by rw [hw]; simp⟩

end

end Parser

end Xbase
