import Xbase.Proofs.Expr.RoundTrip
import Xbase.Proofs.Grammar.Accepts

/-!
# Programs read back from their source text

`source_roundtrip`: the text of a program that was read, with or without syntax errors, is read
without any as the same program. The places change, and a number beyond the range of numbers comes
back as the name `inf`; nothing else does.

Every statement ends with a line break, in front of which no expression goes on.
-/

namespace Xbase

open Grammar

variable {last : Boundary} {rest : List Char}

/-! ## Declared names -/

/-- The tokens are those of the same name. -/
def Ident.Rereads (x : Ident) (ts : List Token) : Prop :=
  ∃ x', x'.map noPlace = x.map noPlace ∧ ∀ after, Name (ts ++ after) x' after

theorem Ident.scans {x : Ident} (h : IsName x.name) (hrest : Breaks rest) :
    Scans last x.name.toList x.Rereads .token rest := by
  refine (Scans.name h hrest).mono ?_
  rintro _ ⟨t, rfl, hk, ht⟩
  exact ⟨⟨t.lexeme, t.span⟩, by rw [Ident.map, Ident.map, ht]; rfl, fun after => .mk hk⟩

namespace Declarator

theorem scans_type (type? : Option DeclaredType) (hrest : Breaks rest) :
    Scans .token (type?.elim "" fun t => " AS " ++ t.word).toList
      (fun ts => ∀ after, TypeClause (ts ++ after) type? after) .token rest := by
  cases type? with
  | none => exact .nil fun after => .absent
  | some type =>
    have has : " AS ".toList = ' ' :: ("AS".toList ++ [' ']) := rfl
    have hword : Piece.isWord type.word.toList = true := by cases type <;> rfl
    rw [Option.elim_some, String.toList_append, has, List.cons_append, List.append_assoc]
    refine (Scans.blank ((Scans.reserved "AS" rfl rfl (breaks_cons (by decide))).both
      (.blank (Scans.written type.word hword hrest)))).mono ?_
    rintro _ ⟨_, _, rfl, ⟨t, rfl, ht⟩, t', rfl, hk, htext⟩ after
    refine .present ht (.mk (hk.trans ?_)) ?_
    · cases type <;> rfl
    · rw [htext]
      cases type <;> rfl

theorem scans_initial {initial? : Option Expr} (h : ∀ e ∈ initial?, e.Writable)
    (hrest : Breaks rest) :
    Scans .token (initial?.elim "" fun e => " = " ++ e.source).toList
      (Again (Option.map (Expr.map Atom.reread noPlace)) (Option.map (Expr.map id noPlace))
        (Initial Whole) initial?) .token rest := by
  cases initial? with
  | none => exact .nil ⟨none, rfl, fun after _ => .absent⟩
  | some e =>
    have heq : " = ".toList = ' ' :: (AssignOp.assign.sign.toList ++ [' ']) := rfl
    rw [Option.elim_some, String.toList_append, heq, List.cons_append, List.append_assoc]
    refine (Scans.blank ((Scans.assign .assign).both
      (.blank (e.scans false (h e rfl) hrest)))).mono ?_
    rintro _ ⟨_, w, rfl, ⟨t, rfl, ht⟩, x, hx, hw⟩
    exact ⟨some x, congrArg some hx, fun after ha => .present ht ⟨hw after, ha⟩⟩

/-- The text of a declared name is read as the same one again. -/
theorem scans {d : Declarator} (h : d.Writable) (hrest : Breaks rest) :
    Scans last d.source.toList
      (Again (Declarator.map Atom.reread noPlace) (Declarator.map id noPlace) (Decl Whole) d)
      .token rest := by
  obtain ⟨name, type?, initial?⟩ := d
  have hinitial : Breaks ((initial?.elim "" fun e => " = " ++ e.source).toList ++ rest) := by
    cases initial? with
    | none => exact hrest
    | some e =>
      rw [Option.elim_some, String.toList_append]
      exact breaks_cons (by decide)
  have htype : Breaks ((type?.elim "" fun t => " AS " ++ t.word).toList ++
      ((initial?.elim "" fun e => " = " ++ e.source).toList ++ rest)) := by
    cases type? with
    | none => exact hinitial
    | some t =>
      rw [Option.elim_some, String.toList_append]
      exact breaks_cons (by decide)
  rw [source, String.toList_append, String.toList_append, List.append_assoc]
  refine ((Ident.scans h.name (by rw [List.append_assoc]; exact htype)).both
    ((scans_type type? hinitial).both (scans_initial h.initial hrest))).mono ?_
  rintro _ ⟨w, _, rfl, ⟨x, hx, hw⟩, w', w'', rfl, hw', i, hi, hw''⟩
  refine ⟨⟨x, type?, i⟩, by rw [Declarator.map, Declarator.map, hx, hi], fun after ha => ?_⟩
  simp only [List.append_assoc]
  exact .mk (hw _) (hw' _) (hw'' after ha)

end Declarator

/-! ## Statements -/

theorem Visibility.scans (v : Visibility) (hrest : Breaks rest) :
    Scans last v.word.toList (Single (.keyword v.keyword)) .token rest := by
  cases v with
  | loc => exact Scans.reserved "LOCAL" rfl rfl hrest
  | priv => exact Scans.reserved "PRIVATE" rfl rfl hrest
  | pub => exact Scans.reserved "PUBLIC" rfl rfl hrest

theorem scans_line {text : String} {R : List Token → Prop} (depth : Nat)
    (h : Scans last text.toList R .token ('\n' :: rest)) :
    Scans last (sourceLine depth text).toList (Both R (Single .newline)) .newline rest := by
  rw [sourceLine, String.toList_append, String.toList_append, String.toList_ofList,
    List.append_assoc]
  exact .blanks _ (h.both .newline)

theorem breaks_newline : Breaks ('\n' :: rest) := breaks_cons (by decide)

/-- A line with a reserved word only. -/
theorem scans_keyword_line {k : Keyword} (depth : Nat) (word : String)
    (hword : Piece.isWord word.toList = true)
    (hk : Kind.ofWord (String.ofList (word.toList.map Char.toLower)) = .keyword k) :
    Scans last (sourceLine depth word).toList (Both (Single (.keyword k)) (Single .newline))
      .newline rest :=
  scans_line depth (Scans.reserved word hword hk breaks_newline)

/-- A reserved word and an expression. -/
theorem scans_keyword_expr {k : Keyword} (word : String)
    (hword : Piece.isWord word.toList = true)
    (hk : Kind.ofWord (String.ofList (word.toList.map Char.toLower)) = .keyword k)
    {e : Expr} (he : e.Writable) (hrest : Breaks rest) :
    Scans last (word ++ " " ++ e.source).toList (Both (Single (.keyword k)) (e.Rereads 1)) .token
      rest := by
  rw [String.toList_append, String.toList_append, List.append_assoc]
  exact (Scans.reserved word hword hk (breaks_cons (by decide))).both
    (.blank (e.scans false he hrest))

/-- The parameters of a function. -/
theorem scans_params {params : List Ident} (h : ∀ x ∈ params, IsName x.name) :
    Scans last ("(".toList ++ ((", ".intercalate (params.map (·.name))).toList ++ ")".toList))
      (Again (List.map (Ident.map noPlace)) (List.map (Ident.map noPlace)) Params params) .token
      rest := by
  by_cases hne : params = []
  · subst hne
    refine ((Scans.symbol (s := .leftParen) rfl).both (Scans.symbol (s := .rightParen) rfl)).mono ?_
    rintro _ ⟨_, _, rfl, ⟨t, rfl, ht⟩, t', rfl, ht'⟩
    exact ⟨[], rfl, fun after _ => .empty ht ht'⟩
  · have hitems : ∀ x ∈ params, ∀ {last rest}, Breaks rest → Scans last x.name.toList
        (Again (Ident.map noPlace) (Ident.map noPlace) Name x) .token rest := by
      intro x hx last rest hrest
      refine (Ident.scans (h x hx) hrest).mono ?_
      rintro ts ⟨x', hx', hw⟩
      exact ⟨x', hx', fun after _ => hw after⟩
    refine ((Scans.symbol (s := .leftParen) rfl).both
      ((scans_separated hne hitems (breaks_cons (by decide))).both
      (Scans.symbol (s := .rightParen) rfl))).mono ?_
    rintro _ ⟨_, _, rfl, ⟨t, rfl, ht⟩, w, _, rfl, ⟨xs, hxs, hw⟩, t', rfl, ht'⟩
    refine ⟨xs, hxs, fun after _ => ?_⟩
    simp only [List.append_assoc, List.cons_append, List.nil_append]
    exact .names ht (hw _ (settled_cons ht' rfl)) ht'

namespace Statement

/-- The tokens are those of a statement which is `s` again, and of the line break behind it. -/
def Rereads (s : Statement) (ts : List Token) : Prop :=
  ∃ s', s'.map id noPlace = s.map Atom.reread noPlace ∧
    ∀ after, ∃ t, t.kind = .newline ∧ Stmt Whole (ts ++ after) s' (t :: after)

/-- The tokens are those of statements which are `ss` again. -/
def RereadsAll (ss : List Statement) (ts : List Token) : Prop :=
  ∃ ss', mapAll id noPlace ss' = mapAll Atom.reread noPlace ss ∧
    ∀ after, Stmts Whole (ts ++ after) ss' after

/-- The tokens are those of branches which are `branches` again. -/
def RereadsCases (branches : List (Expr × List Statement)) (ts : List Token) : Prop :=
  ∃ bs, mapCases id noPlace bs = mapCases Atom.reread noPlace branches ∧
    ∀ after, Cases Whole (ts ++ after) bs after

/-- The tokens are those of a statement which is `s` again, if a line break follows. -/
def RereadsLine (s : Statement) (ts : List Token) : Prop :=
  ∃ s', s'.map id noPlace = s.map Atom.reread noPlace ∧
    ∀ after, headKind after = .newline → Stmt Whole (ts ++ after) s' after

theorem scans_statement_line {s : Statement} {text : String} (depth : Nat)
    (h : Scans last text.toList s.RereadsLine .token ('\n' :: rest)) :
    Scans last (sourceLine depth text).toList s.Rereads .newline rest := by
  refine (scans_line depth h).mono ?_
  rintro _ ⟨w, _, rfl, ⟨s', hs', hw⟩, t, rfl, ht⟩
  refine ⟨s', hs', fun after => ⟨t, ht, ?_⟩⟩
  rw [List.append_assoc]
  exact hw _ ht

theorem scans_declare {v : Visibility} {d : Declarator} (h : d.Writable) (hrest : Breaks rest) :
    Scans last (v.word ++ " " ++ d.source).toList (declare v d).RereadsLine .token rest := by
  rw [String.toList_append, String.toList_append, List.append_assoc]
  refine ((v.scans (breaks_cons (by decide))).both (.blank (Declarator.scans h hrest))).mono ?_
  rintro _ ⟨_, w, rfl, ⟨t, rfl, ht⟩, d', hd, hw⟩
  exact ⟨.declare v d', by rw [Statement.map, Statement.map, hd],
    fun after ha => .declare ht (hw after (settled_of_kind ha rfl))⟩

theorem scans_declareSome {v : Visibility} {ds : List Declarator} (h : ∀ d ∈ ds, d.Writable)
    (hlen : 2 ≤ ds.length) (hrest : Breaks rest) :
    Scans last (v.word ++ " " ++ ", ".intercalate (ds.map Declarator.source)).toList
      (declareAll v ds false).RereadsLine .token rest := by
  have hne : ds ≠ [] := by
    rintro rfl
    cases hlen
  rw [String.toList_append, String.toList_append, List.append_assoc]
  refine ((v.scans (breaks_cons (by decide))).both
    (.blank (scans_separated hne (fun d hd => Declarator.scans (h d hd)) hrest))).mono ?_
  rintro _ ⟨_, w, rfl, ⟨t, rfl, ht⟩, ds', hds, hw⟩
  have hlen' : ds'.length = ds.length := by simpa using congrArg List.length hds
  refine ⟨.declareAll v ds' false, by rw [Statement.map, Statement.map, hds], fun after ha => ?_⟩
  have hlist := hw after (settled_of_kind ha rfl)
  match ds', hlist with
  | [], _ | [_], _ =>
    simp only [List.length_nil, List.length_singleton] at hlen'
    omega
  | d :: d' :: more, hlist => exact .declareAll ht hlist

theorem scans_declareGroup {v : Visibility} {ds : List Declarator} (h : ∀ d ∈ ds, d.Writable)
    (hne : ds ≠ []) :
    Scans last (v.word ++ " " ++ ("(" ++ ", ".intercalate (ds.map Declarator.source) ++ ")")).toList
      (declareAll v ds true).RereadsLine .token rest := by
  have hitems : ∀ d ∈ ds, ∀ {last rest}, Breaks rest → Scans last d.source.toList
      (Again (Declarator.map Atom.reread noPlace) (Declarator.map id noPlace) (LooseDecl Whole) d)
      .token rest := by
    intro d hd last rest hrest
    refine (Declarator.scans (h d hd) hrest).mono ?_
    rintro ts ⟨d', hd', hw⟩
    exact ⟨d', hd', fun after ha => .mk .none (hw after ha) .none⟩
  simp only [String.toList_append, List.append_assoc]
  refine ((v.scans (breaks_cons (by decide))).both (.blank
    ((Scans.symbol (s := .leftParen) rfl).both
    ((scans_separated hne hitems (breaks_cons (by decide))).both
    (Scans.symbol (s := .rightParen) rfl))))).mono ?_
  rintro _ ⟨_, _, rfl, ⟨t, rfl, ht⟩, _, _, rfl, ⟨t₀, rfl, ht₀⟩, w, _, rfl, ⟨ds', hds, hw⟩, t₁, rfl,
    ht₁⟩
  refine ⟨.declareAll v ds' true, by rw [Statement.map, Statement.map, hds], fun after _ => ?_⟩
  simp only [List.append_assoc, List.cons_append, List.nil_append]
  exact .group ht ht₀ (hw _ (settled_cons ht₁ rfl)) ht₁

theorem scans_print {args : List Expr} {span : Span} (h : ∀ e ∈ args, e.Writable)
    (hrest : Breaks rest) :
    Scans last
      (if args.isEmpty then "?" else "? " ++ ", ".intercalate (args.map Expr.source)).toList
      (print args span).RereadsLine .token rest := by
  cases args with
  | nil =>
    refine (Scans.symbol (s := .question) rfl).mono ?_
    rintro _ ⟨t, rfl, ht⟩
    exact ⟨.print [] t.span, rfl, fun after ha => .printNone ht (.inl ha)⟩
  | cons e es =>
    have hitems : ∀ x ∈ e :: es, ∀ {last rest}, Breaks rest → Scans last x.source.toList
        (Again (Expr.map Atom.reread noPlace) (Expr.map id noPlace) Whole x) .token rest :=
      fun x hx _ _ hrest => (x.scans false (h x hx) hrest).mono fun _ =>
        Expr.Rereads.again Phrase.whole
    have hmark : "? ".toList = ['?'] ++ [' '] := rfl
    rw [if_neg (by simp), String.toList_append, hmark, List.append_assoc]
    refine ((Scans.symbol (s := .question) rfl).both
      (.blank (scans_separated (by simp) hitems hrest))).mono ?_
    rintro _ ⟨_, w, rfl, ⟨t, rfl, ht⟩, xs, hxs, hw⟩
    exact ⟨.print xs t.span, by rw [Statement.map, Statement.map, hxs]; rfl,
      fun after ha => .print ht (hw after (settled_of_kind ha rfl))⟩

theorem scans_ret {value? : Option Expr} {span : Span} (h : ∀ e ∈ value?, e.Writable)
    (depth : Nat) :
    Scans last ((ret value? span).source depth).toList (ret value? span).Rereads .newline rest := by
  cases value? with
  | none =>
    refine scans_statement_line depth ((Scans.reserved "RETURN" rfl rfl breaks_newline).mono ?_)
    rintro _ ⟨t, rfl, ht⟩
    exact ⟨.ret none t.span, rfl, fun after ha => .retNone ht (.inl ha)⟩
  | some e =>
    refine scans_statement_line depth
      ((scans_keyword_expr "RETURN" rfl rfl (h e rfl) breaks_newline).mono ?_)
    rintro _ ⟨_, w, rfl, ⟨t, rfl, ht⟩, x, hx, hw⟩
    exact ⟨.ret (some x) t.span, by rw [Statement.map, Option.map_some, hx]; rfl,
      fun after ha => .ret ht ⟨hw after, settled_of_kind ha rfl⟩⟩

/-- The tokens are those of a line break and of statements which are `ss` again. -/
def RereadsBody (ss : List Statement) (ts : List Token) : Prop :=
  ∃ ss', mapAll id noPlace ss' = mapAll Atom.reread noPlace ss ∧
    ∀ after, Body Whole (ts ++ after) ss' after

/-- The first line of a statement and the block under it. -/
theorem scans_block {text : String} {R : List Token → Prop} {body : List Statement}
    {last' : Boundary} (depth : Nat)
    (h : Scans last text.toList R .token ('\n' :: ((sources (depth + 1) body).toList ++ rest)))
    (hbody : Scans .newline (sources (depth + 1) body).toList (RereadsAll body) last' rest) :
    Scans last ((sourceLine depth text).toList ++ (sources (depth + 1) body).toList)
      (Both R (RereadsBody body)) last' rest := by
  refine ((scans_line depth h).both hbody).mono ?_
  rintro _ ⟨_, ws, rfl, ⟨w, _, rfl, hw, t, rfl, ht⟩, body', hmap, hws⟩
  refine ⟨w, t :: ws, by simp, hw, body', hmap, fun after => .mk ht (hws after)⟩

theorem scans_if {e : Expr} (he : e.Writable) (hrest : Breaks rest) :
    Scans last ("IF " ++ e.source ++ " THEN").toList
      (Both (Both (Single (.keyword .IF)) (e.Rereads 1)) (Single (.keyword .THEN))) .token
      rest := by
  rw [String.toList_append]
  exact (scans_keyword_expr "IF" rfl rfl he (breaks_cons (by decide))).both
    (.blank (Scans.reserved "THEN" rfl rfl hrest))

theorem scans_while {e : Expr} (he : e.Writable) (hrest : Breaks rest) :
    Scans last ("DO WHILE " ++ e.source).toList
      (Both (Single (.keyword .DO)) (Both (Single (.keyword .WHILE)) (e.Rereads 1))) .token
      rest := by
  have hword : "DO WHILE ".toList = "DO".toList ++ ' ' :: ("WHILE" ++ " ").toList := rfl
  rw [String.toList_append, hword, List.append_assoc, List.cons_append, ← String.toList_append]
  exact (Scans.reserved "DO" rfl rfl (breaks_cons (by decide))).both
    (.blank (scans_keyword_expr "WHILE" rfl rfl he hrest))

theorem scans_doCase (hrest : Breaks rest) :
    Scans last "DO CASE".toList (Both (Single (.keyword .DO)) (Single (.keyword .CASE))) .token
      rest :=
  (Scans.reserved "DO" rfl rfl (breaks_cons (by decide))).both
    (.blank (Scans.reserved "CASE" rfl rfl hrest))

theorem scans_function {name : Ident} {params : List Ident} (hname : IsName name.name)
    (hparams : ∀ x ∈ params, IsName x.name) :
    Scans last
      ("FUNCTION " ++ name.name ++ "(" ++ ", ".intercalate (params.map (·.name)) ++ ")").toList
      (Both (Single (.keyword .FUNCTION)) (Both name.Rereads
        (Again (List.map (Ident.map noPlace)) (List.map (Ident.map noPlace)) Params params)))
      .token rest := by
  have hword : "FUNCTION ".toList = "FUNCTION".toList ++ [' '] := rfl
  simp only [String.toList_append, hword, List.append_assoc, List.cons_append, List.nil_append]
  exact (Scans.reserved "FUNCTION" rfl rfl (breaks_cons (by decide))).both
    (.blank ((Ident.scans hname (breaks_cons (by decide))).both (scans_params hparams)))

mutual

/-- The text of a statement is read as the same statement again. -/
theorem scans (depth : Nat) : (s : Statement) → s.Writable → ∀ {last rest},
    Scans last (s.source depth).toList s.Rereads .newline rest
  | .declare v d, h, _, _ => scans_statement_line depth (scans_declare h breaks_newline)
  | .declareAll v ds false, h, _, _ =>
    scans_statement_line depth (scans_declareSome h.1 h.2 breaks_newline)
  | .declareAll v ds true, h, _, _ => scans_statement_line depth (scans_declareGroup h.1 h.2)
  | .function name params body, h, last, rest => by
    obtain ⟨mid, hbody⟩ := scansAll (depth + 1) body h.2.2 .newline
    rw [source, String.toList_append, String.toList_append]
    refine ((scans_block depth (scans_function h.1 h.2.1) hbody).both
      (scans_keyword_line depth "ENDFUNC" rfl rfl)).mono ?_
    rintro _ ⟨_, _, rfl, ⟨_, w₃, rfl, ⟨_, _, rfl, ⟨t, rfl, ht⟩, w₁, w₂, rfl, ⟨x, hx, hw₁⟩,
      ⟨xs, hxs, hw₂⟩⟩, ⟨ss, hss, hw₃⟩⟩, _, _, rfl, ⟨t', rfl, ht'⟩, nl, rfl, hnl⟩
    refine ⟨.function x xs ss, by rw [Statement.map, Statement.map, hx, hxs, hss],
      fun after => ⟨nl, hnl, ?_⟩⟩
    simp only [List.append_assoc, List.cons_append, List.nil_append]
    exact .function ht (hw₁ _) (hw₂ _ (hw₃ _).settled) (hw₃ _) ht'
  | .expr e, h, _, _ => by
    refine scans_statement_line depth ((e.scans false h breaks_newline).mono ?_)
    rintro ts ⟨x, hx, hw⟩
    exact ⟨.expr x, by rw [Statement.map, Statement.map, hx],
      fun after ha => .expr ⟨hw after, settled_of_kind ha rfl⟩⟩
  | .print args span, h, _, _ => scans_statement_line depth (scans_print h breaks_newline)
  | .ifThen condition yes none, h, _, rest => by
    obtain ⟨mid, hyes⟩ := scansAll (depth + 1) yes h.2 .newline
    rw [source, String.toList_append, String.toList_append]
    refine ((scans_block depth (scans_if h.1 breaks_newline) hyes).both
      (scans_keyword_line depth "ENDIF" rfl rfl)).mono ?_
    rintro _ ⟨_, _, rfl, ⟨_, w₂, rfl, ⟨_, _, rfl, ⟨_, w₁, rfl, ⟨t, rfl, ht⟩, x, hx, hw₁⟩,
      tt, rfl, htt⟩, ss, hss, hw₂⟩, _, _, rfl, ⟨t', rfl, ht'⟩, nl, rfl, hnl⟩
    refine ⟨.ifThen x ss none, by rw [Statement.map, Statement.map, hx, hss],
      fun after => ⟨nl, hnl, ?_⟩⟩
    simp only [List.append_assoc, List.cons_append, List.nil_append]
    exact .ifThen ht ⟨hw₁ _, settled_cons htt rfl⟩ (.present htt) (hw₂ _) ht'
  | .ifThen condition yes (some no), h, _, _ => by
    obtain ⟨mid, hyes⟩ := scansAll (depth + 1) yes h.2.1 .newline
    obtain ⟨mid', hno⟩ := scansAll (depth + 1) no h.2.2 .newline
    simp only [source, String.toList_append, List.append_assoc]
    rw [← List.append_assoc, ← List.append_assoc (sourceLine depth "ELSE").toList]
    refine ((scans_block depth (scans_if h.1 breaks_newline) hyes).both
      ((scans_block depth (Scans.reserved "ELSE" rfl rfl breaks_newline) hno).both
      (scans_keyword_line depth "ENDIF" rfl rfl))).mono ?_
    rintro _ ⟨_, _, rfl, ⟨_, w₂, rfl, ⟨_, _, rfl, ⟨_, w₁, rfl, ⟨t, rfl, ht⟩, x, hx, hw₁⟩,
      tt, rfl, htt⟩, ss, hss, hw₂⟩, _, _, rfl, ⟨_, w₃, rfl, ⟨t₁, rfl, ht₁⟩, ss', hss', hw₃⟩,
      _, _, rfl, ⟨t', rfl, ht'⟩, nl, rfl, hnl⟩
    refine ⟨.ifThen x ss (some ss'), by rw [Statement.map, Statement.map, hx, hss, hss'],
      fun after => ⟨nl, hnl, ?_⟩⟩
    simp only [List.append_assoc, List.cons_append, List.nil_append]
    exact .ifElse ht ⟨hw₁ _, settled_cons htt rfl⟩ (.present htt) (hw₂ _) ht₁ (hw₃ _) ht'
  | .doCase branches none, h, _, _ => by
    obtain ⟨mid, hcases⟩ := scansCases (depth + 1) branches h .newline
    rw [source, String.toList_append, String.toList_append, List.append_assoc]
    refine ((scans_line depth (scans_doCase breaks_newline)).both
      (hcases.both (scans_keyword_line depth "ENDCASE" rfl rfl))).mono ?_
    rintro _ ⟨_, _, rfl, ⟨_, _, rfl, ⟨_, _, rfl, ⟨t, rfl, ht⟩, t₁, rfl, ht₁⟩, t₂, rfl, ht₂⟩,
      w, _, rfl, ⟨bs, hbs, hw⟩, _, _, rfl, ⟨t', rfl, ht'⟩, nl, rfl, hnl⟩
    refine ⟨.doCase bs none, by rw [Statement.map, Statement.map, hbs],
      fun after => ⟨nl, hnl, ?_⟩⟩
    simp only [List.append_assoc, List.cons_append, List.nil_append]
    exact .doCase ht ht₁ ht₂ (hw _) ht'
  | .doCase branches (some body), h, _, _ => by
    obtain ⟨mid, hcases⟩ := scansCases (depth + 1) branches h.1 .newline
    obtain ⟨mid', hbody⟩ := scansAll (depth + 2) body h.2 .newline
    simp only [source, String.toList_append, List.append_assoc]
    rw [← List.append_assoc (sourceLine (depth + 1) "OTHERWISE").toList]
    refine ((scans_line depth (scans_doCase breaks_newline)).both (hcases.both
      ((scans_block (depth + 1) (Scans.reserved "OTHERWISE" rfl rfl breaks_newline) hbody).both
      (scans_keyword_line depth "ENDCASE" rfl rfl)))).mono ?_
    rintro _ ⟨_, _, rfl, ⟨_, _, rfl, ⟨_, _, rfl, ⟨t, rfl, ht⟩, t₁, rfl, ht₁⟩, t₂, rfl, ht₂⟩,
      w₁, _, rfl, ⟨bs, hbs, hw₁⟩, _, _, rfl, ⟨_, w₂, rfl, ⟨t₃, rfl, ht₃⟩, ss, hss, hw₂⟩,
      _, _, rfl, ⟨t', rfl, ht'⟩, nl, rfl, hnl⟩
    refine ⟨.doCase bs (some ss), by rw [Statement.map, Statement.map, hbs, hss],
      fun after => ⟨nl, hnl, ?_⟩⟩
    simp only [List.append_assoc, List.cons_append, List.nil_append]
    exact .doCaseElse ht ht₁ ht₂ (hw₁ _) ht₃ (hw₂ _) ht'
  | .doWhile condition body, h, _, _ => by
    obtain ⟨mid, hbody⟩ := scansAll (depth + 1) body h.2 .newline
    rw [source, String.toList_append, String.toList_append]
    refine ((scans_block depth (scans_while h.1 breaks_newline) hbody).both
      (scans_keyword_line depth "ENDDO" rfl rfl)).mono ?_
    rintro _ ⟨_, _, rfl, ⟨_, w₂, rfl, ⟨_, _, rfl, ⟨t₀, rfl, ht₀⟩, _, w₁, rfl, ⟨t, rfl, ht⟩,
      x, hx, hw₁⟩, ss, hss, hw₂⟩, _, _, rfl, ⟨t', rfl, ht'⟩, nl, rfl, hnl⟩
    refine ⟨.doWhile x ss, by rw [Statement.map, Statement.map, hx, hss],
      fun after => ⟨nl, hnl, ?_⟩⟩
    simp only [List.append_assoc, List.cons_append, List.nil_append]
    exact .doWhile (.present ht₀) ht ⟨hw₁ _, (hw₂ _).settled⟩ (hw₂ _) ht'
  | .ret value? span, h, _, _ => scans_ret h depth
  | .exit span, _, _, _ => by
    refine scans_statement_line depth ((Scans.reserved "EXIT" rfl rfl breaks_newline).mono ?_)
    rintro _ ⟨t, rfl, ht⟩
    exact ⟨.exit t.span, rfl, fun after _ => .exit ht⟩
  | .loop span, _, _, _ => by
    refine scans_statement_line depth ((Scans.reserved "LOOP" rfl rfl breaks_newline).mono ?_)
    rintro _ ⟨t, rfl, ht⟩
    exact ⟨.loop t.span, rfl, fun after _ => .loop ht⟩

theorem scansAll (depth : Nat) : (ss : List Statement) → AllWritable ss → ∀ last,
    ∃ last', ∀ {rest}, Scans last (sources depth ss).toList (RereadsAll ss) last' rest
  | [], _, last => ⟨last, .nil ⟨[], rfl, fun _ => .nil⟩⟩
  | s :: ss, h, last => by
    obtain ⟨last', hss⟩ := scansAll depth ss h.2 .newline
    refine ⟨last', fun {rest} => ?_⟩
    rw [sources, String.toList_append]
    refine ((scans depth s h.1).both hss).mono ?_
    rintro _ ⟨w, ws, rfl, ⟨s', hs, hw⟩, ss', hss', hws⟩
    refine ⟨s' :: ss', by rw [mapAll, mapAll, hs, hss'], fun after => ?_⟩
    obtain ⟨t, ht, hstmt⟩ := hw (ws ++ after)
    rw [List.append_assoc]
    exact .cons hstmt (.present ht) (hws after)

theorem scansCases (depth : Nat) : (branches : List (Expr × List Statement)) →
    CasesWritable branches → ∀ last,
    ∃ last', ∀ {rest},
      Scans last (sourceCases depth branches).toList (RereadsCases branches) last' rest
  | [], _, last => ⟨last, .nil ⟨[], rfl, fun _ => .nil⟩⟩
  | (condition, body) :: branches, h, last => by
    obtain ⟨mid, hbody⟩ := scansAll (depth + 1) body h.2.1 .newline
    obtain ⟨last', hcases⟩ := scansCases depth branches h.2.2 mid
    refine ⟨last', fun {rest} => ?_⟩
    rw [sourceCases, String.toList_append, String.toList_append]
    refine ((scans_block depth (scans_keyword_expr "CASE" rfl rfl h.1 breaks_newline) hbody).both
      hcases).mono ?_
    rintro _ ⟨_, w₃, rfl, ⟨_, w₂, rfl, ⟨_, w₁, rfl, ⟨t, rfl, ht⟩, x, hx, hw₁⟩, ss, hss, hw₂⟩,
      bs, hbs, hw₃⟩
    refine ⟨(x, ss) :: bs, by rw [mapCases, mapCases, hx, hss, hbs], fun after => ?_⟩
    simp only [List.append_assoc, List.cons_append, List.nil_append]
    exact .cons ht ⟨hw₁ _, (hw₂ _).settled⟩ (hw₂ _) (hw₃ after)

end

end Statement

/-! ## Programs -/

theorem Atom.texts_reread (a : Atom) : a.reread.sexpr = a.sexpr ∧ a.reread.source = a.source := by
  cases a with
  | number n =>
    rw [Atom.reread]
    split
    · next h =>
      have hn : n.plain = "inf" := Number.plain_infinite (by rw [h]; rfl)
      rw [Atom.sexpr, Atom.source, Atom.sexpr, Atom.source, hn]
      exact ⟨rfl, rfl⟩
    · exact ⟨rfl, rfl⟩
  | logical b | null | name s | string s => exact ⟨rfl, rfl⟩

theorem Token.lexical_of_endOfFile {t : Token} (h : t.kind = .endOfFile) : t.Lexical := by
  rw [Token.Lexical, h]
  trivial

/-- A text that is scanned to its end has the tokens it is scanned into and no fault. -/
theorem Scans.ofText {text : String} {R : List Token → Prop} {last' : Boundary}
    (h : Scans .start text.toList R last' []) :
    R (TokenStream.ofText text).tokens ∧ (TokenStream.ofText text).fault = none := by
  obtain ⟨tokens, pos, hR, hrun⟩ := h .start
  have hend : (⟨[], pos, last'⟩ : Lexer).stream = _ := Lexer.stream_none rfl
  rw [List.append_nil, hend] at hrun
  rw [TokenStream.ofText, Lexer.ofText, hrun, TokenStream.behind, List.append_nil]
  exact ⟨hR, rfl⟩

/-- A text whose tokens are those of statements is read as these statements. -/
theorem parse_of_stmts {text : String} {p : Program}
    (h : Stmts Whole (TokenStream.ofText text).tokens p [])
    (hfault : (TokenStream.ofText text).fault = none) : parse text = .ok ⟨p, []⟩ := by
  have hrun : Parser.program (.ofStream (.ofText text)) = (some p, ⟨[], _, []⟩) :=
    h.runs (Lexer.ofText text).stream_stop [] (List.nil_subset _) (.inl rfl) (Nat.le_refl _)
  rw [parse_of_fault_none hfault, hrun]
  rfl

/-- The text of a program is read without an error as the same program again. -/
theorem Program.reread {p : Program} (h : p.Writable) :
    ∃ p' : Program, (TokenStream.ofText p.source).fault = none ∧ parse p.source = .ok ⟨p', []⟩ ∧
      p'.map id noPlace = p.map Atom.reread noPlace := by
  obtain ⟨last', hscan⟩ := Statement.scansAll 0 p h .start
  have hscan : Scans .start p.source.toList (Statement.RereadsAll p) last' [] := hscan
  obtain ⟨⟨p', hmap, hstmts⟩, hfault⟩ := hscan.ofText
  have hstmts := hstmts []
  rw [List.append_nil] at hstmts
  exact ⟨p', hfault, parse_of_stmts hstmts hfault, hmap⟩

/-- Every program that is read from a text without a fault can be written down. -/
theorem parsed_writable (text : String) :
    Program.Writable ((Parser.program (.ofStream (.ofText text))).1.getD []) := by
  have hlexical : (ParseState.ofStream (.ofText text)).Lexical :=
    ⟨Token.lexical_of_endOfFile (Lexer.ofText text).stream_stop,
      fun t ht => ((Lexer.ofText text).stream_lexical t ht).1⟩
  cases hp : (Parser.program (.ofStream (.ofText text))).1 with
  | none => trivial
  | some p => exact Parser.program_yields _ hlexical p hp

/-- The source text of what was read from a text without a fault, with or without syntax errors, is
read without any. The program that comes back is the same in all its statements, numbered nodes,
names, visibilities, types and flags; only its places differ, and a number that is infinite comes
back as the name `inf`. So its texts are the same. -/
theorem source_roundtrip (text : String) (h : (TokenStream.ofText text).fault = none) :
    ∃ parsed parsed' : Parsed, parse text = .ok parsed ∧
      (TokenStream.ofText parsed.program.source).fault = none ∧
      parse parsed.program.source = .ok parsed' ∧ parsed'.errors = [] ∧
      parsed'.program.map id noPlace = parsed.program.map Atom.reread noPlace ∧
      parsed'.program.arenas.map (Arena.map id noPlace) =
        parsed.program.arenas.map (Arena.map Atom.reread noPlace) ∧
      parsed'.program.sexpr = parsed.program.sexpr ∧
      parsed'.program.source = parsed.program.source := by
  obtain ⟨p', hfault, hparse, hmap⟩ := Program.reread (parsed_writable text)
  refine ⟨_, ⟨p', []⟩, parse_of_fault_none h, hfault, hparse, rfl, hmap, ?_, ?_, ?_⟩
  · rw [← Program.arenas_map, ← Program.arenas_map, hmap]
  · rw [← Program.sexpr_map (f := id) (g := noPlace) (fun _ => rfl), hmap,
      Program.sexpr_map fun a => a.texts_reread.1]
  · rw [← Program.source_map (f := id) (g := noPlace) (fun _ => rfl), hmap,
      Program.source_map fun a => a.texts_reread.2]

/-- With a syntax error in the second line. -/
theorem source_roundtrip_case :
    (TokenStream.ofText "x = 1\n? )\nif a then\ny := -2 * (b)(\"it's\")\nendif").fault = none ∧
    ∃ parsed parsed' : Parsed,
      parse "x = 1\n? )\nif a then\ny := -2 * (b)(\"it's\")\nendif" = .ok parsed ∧
      (TokenStream.ofText parsed.program.source).fault = none ∧
      parse parsed.program.source = .ok parsed' ∧ parsed'.errors = [] ∧
      parsed'.program.map id noPlace = parsed.program.map Atom.reread noPlace ∧
      parsed'.program.arenas.map (Arena.map id noPlace) =
        parsed.program.arenas.map (Arena.map Atom.reread noPlace) ∧
      parsed'.program.sexpr = parsed.program.sexpr ∧
      parsed'.program.source = parsed.program.source := by
  have h : (TokenStream.ofText
      "x = 1\n? )\nif a then\ny := -2 * (b)(\"it's\")\nendif").fault = none := by cbv
  exact ⟨h, source_roundtrip _ h⟩

end Xbase
