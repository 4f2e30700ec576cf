import Xbase.Program.SExpr
import Xbase.Proofs.Text.Quoted

/-!
# S-expressions as trees

An S-expression is a tree of words, quoted texts and lists.

* `SExpr.render_append_inj`: if the words keep clear of blanks, parentheses and quotation marks, the
  text of a tree can be read in one way only, and it is known where it ends.
* `Program.toList_sexpr`: the text of a program is that of one tree a line.
-/

namespace Xbase

/-- An S-expression. -/
inductive SExpr where
  | word (w : String)
  | quoted (s : String)
  | list (items : List SExpr)

namespace SExpr

mutual

/-- The text of the S-expression. -/
def render : SExpr → List Char
  | word w => w.toList
  | quoted s => (Text.quote s).toList
  | list items => '(' :: (renderItems items ++ [')'])

/-- The texts of several S-expressions with blanks between them. -/
def renderItems : List SExpr → List Char
  | [] => []
  | t :: ts => t.render ++ renderMore ts

/-- The texts of several S-expressions with a blank before each. -/
def renderMore : List SExpr → List Char
  | [] => []
  | t :: ts => ' ' :: (t.render ++ renderMore ts)

end

/-- The characters that words keep clear of. -/
def delimiters : List Char := ['"', '(', ')', ' ', '\n']

/-- The characters that can be part of a word. -/
def isInner (c : Char) : Bool := !delimiters.contains c

/-- Whether the characters are a word. -/
def isWord (w : List Char) : Bool := !w.isEmpty && w.all isInner

theorem isWord_iff {w : List Char} : isWord w = true ↔ w ≠ [] ∧ ∀ c ∈ w, isInner c = true := by
  simp [isWord]

mutual

/-- All words in the S-expression keep clear of the characters that are not part of a word. -/
def WellFormed : SExpr → Prop
  | word w => isWord w.toList = true
  | quoted _ => True
  | list items => AllWellFormed items

/-- Each of the S-expressions is well-formed. -/
def AllWellFormed : List SExpr → Prop
  | [] => True
  | t :: ts => t.WellFormed ∧ AllWellFormed ts

end

/-- The text ends a word that stands in front of it. -/
def Ends (r : List Char) : Prop :=
  ∀ c ∈ r.head?, isInner c = false

/-- What shows at the first character which kind of S-expression it is. -/
def mark? (c : Char) : Option Char :=
  if isInner c then none else some c

/-- The character in front of a quoted text and of a list. -/
def opening? : SExpr → Option Char
  | word _ => none
  | quoted _ => some '"'
  | list _ => some '('

/-- The first character of a well-formed S-expression shows what it is. -/
theorem render_starts {t : SExpr} (h : t.WellFormed) (r : List Char) :
    ∃ c cs, t.render ++ r = c :: cs ∧ mark? c = t.opening? := by
  cases t with
  | word w =>
    obtain ⟨hne, hw⟩ := isWord_iff.1 h
    obtain ⟨c, cs, hcs⟩ := List.exists_cons_of_ne_nil hne
    have hc := hw c (hcs ▸ List.mem_cons_self ..)
    exact ⟨c, cs ++ r, by rw [render, hcs]; rfl, if_pos hc⟩
  | quoted s => exact ⟨'"', _, by rw [render, Text.toList_quote]; rfl, rfl⟩
  | list items => exact ⟨'(', _, rfl, rfl⟩

/-- The first character tells words, quoted texts and lists apart. -/
theorem opening?_eq {t t' : SExpr} {r r' : List Char} (h : t.WellFormed) (h' : t'.WellFormed)
    (heq : t.render ++ r = t'.render ++ r') : t.opening? = t'.opening? := by
  obtain ⟨c, cs, hstart, hmark⟩ := render_starts h r
  obtain ⟨c', cs', hstart', hmark'⟩ := render_starts h' r'
  rw [hstart, hstart'] at heq
  rw [← hmark, ← hmark', (List.cons.inj heq).1]

/-- No S-expression starts with what closes a list. -/
theorem render_ne_close {t : SExpr} {r r' : List Char} (h : t.WellFormed) :
    t.render ++ r ≠ ')' :: r' := by
  intro heq
  obtain ⟨c, cs, hstart, hmark⟩ := render_starts h r
  rw [hstart] at heq
  rw [(List.cons.inj heq).1] at hmark
  cases t <;> cases hmark

theorem ends_renderMore (ts : List SExpr) (r : List Char) : Ends (renderMore ts ++ ')' :: r) := by
  cases ts with
  | nil => exact fun c hc => by cases hc; rfl
  | cons t ts => exact fun c hc => by cases hc; rfl

mutual

/-- The text of an S-expression can be read in one way only, and it is known where it ends. -/
theorem render_append_inj : (t : SExpr) → {t' : SExpr} → {r r' : List Char} → t.WellFormed →
    t'.WellFormed → Ends r → Ends r' → t.render ++ r = t'.render ++ r' → t = t' ∧ r = r'
  | word w, t', r, r', h, h', hr, hr', heq => by
    cases t' with
    | word w' =>
      obtain ⟨hw, hrest⟩ := Text.run_append_inj (isWord_iff.1 h).2 (isWord_iff.1 h').2 hr hr' heq
      exact ⟨congrArg word (String.toList_inj.1 hw), hrest⟩
    | quoted _ | list _ => cases opening?_eq h h' heq
  | quoted s, t', r, r', h, h', hr, hr', heq => by
    cases t' with
    | quoted s' =>
      obtain ⟨rfl, hrest⟩ := Text.quote_append_inj heq
      exact ⟨rfl, hrest⟩
    | word _ | list _ => cases opening?_eq h h' heq
  | list items, t', r, r', h, h', hr, hr', heq => by
    cases t' with
    | list items' =>
      rw [render, render, List.cons_append, List.cons_append, List.append_assoc,
        List.append_assoc] at heq
      obtain ⟨rfl, hrest⟩ := renderItems_append_inj items h h' (List.cons.inj heq).2
      exact ⟨rfl, hrest⟩
    | word _ | quoted _ => cases opening?_eq h h' heq

/-- A list up to its closing parenthesis is determined by the text, and so is what follows. -/
theorem renderItems_append_inj : (ts : List SExpr) → {ts' : List SExpr} → {r r' : List Char} →
    AllWellFormed ts → AllWellFormed ts' →
    renderItems ts ++ ')' :: r = renderItems ts' ++ ')' :: r' → ts = ts' ∧ r = r'
  | [], ts', r, r', h, h', heq => by
    cases ts' with
    | nil => exact ⟨rfl, (List.cons.inj heq).2⟩
    | cons t' ts' =>
      rw [renderItems, renderItems, List.append_assoc] at heq
      exact absurd heq.symm (render_ne_close h'.1)
  | t :: ts, ts', r, r', h, h', heq => by
    cases ts' with
    | nil =>
      rw [renderItems, renderItems, List.append_assoc] at heq
      exact absurd heq (render_ne_close h.1)
    | cons t' ts' =>
      rw [renderItems, renderItems, List.append_assoc, List.append_assoc] at heq
      obtain ⟨rfl, hrest⟩ := render_append_inj t h.1 h'.1 (ends_renderMore ts r)
        (ends_renderMore ts' r') heq
      obtain ⟨rfl, hr⟩ := renderMore_append_inj ts h.2 h'.2 hrest
      exact ⟨rfl, hr⟩

/-- A list whose members each follow a space is determined by the text up to its parenthesis. -/
theorem renderMore_append_inj : (ts : List SExpr) → {ts' : List SExpr} → {r r' : List Char} →
    AllWellFormed ts → AllWellFormed ts' →
    renderMore ts ++ ')' :: r = renderMore ts' ++ ')' :: r' → ts = ts' ∧ r = r'
  | [], ts', r, r', h, h', heq => by
    cases ts' with
    | nil => exact ⟨rfl, (List.cons.inj heq).2⟩
    | cons t' ts' => cases (List.cons.inj heq).1
  | t :: ts, ts', r, r', h, h', heq => by
    cases ts' with
    | nil => cases (List.cons.inj heq).1
    | cons t' ts' =>
      rw [renderMore, renderMore, List.cons_append, List.cons_append, List.append_assoc,
        List.append_assoc] at heq
      obtain ⟨rfl, hrest⟩ := render_append_inj t h.1 h'.1 (ends_renderMore ts r)
        (ends_renderMore ts' r') (List.cons.inj heq).2
      obtain ⟨rfl, hr⟩ := renderMore_append_inj ts h.2 h'.2 hrest
      exact ⟨rfl, hr⟩

end

/-- A list that starts with a word. -/
@[match_pattern, reducible]
def node (head : String) (parts : List SExpr) : SExpr := list (word head :: parts)

theorem render_node (head : String) (parts : List SExpr) :
    (node head parts).render = '(' :: (head.toList ++ (renderMore parts ++ [')'])) := by
  rw [render, renderItems, render, List.append_assoc]

theorem renderMore_append (ts ts' : List SExpr) :
    renderMore (ts ++ ts') = renderMore ts ++ renderMore ts' := by
  induction ts with
  | nil => rfl
  | cons t ts ih => rw [List.cons_append, renderMore, renderMore, ih, List.cons_append,
      List.append_assoc]

end SExpr

/-! ## Programs as trees -/

open SExpr

/-- The S-expression of the atom. -/
def Atom.tree : Atom → SExpr
  | .string s => quoted s
  | a => word a.sexpr

namespace Expr

mutual

/-- The S-expression of the expression. -/
def tree : Expr → SExpr
  | atom a _ => a.tree
  | unary op operand _ => node op.sign [operand.tree]
  | binary op left right => node op.sign [left.tree, right.tree]
  | assign op target value => node op.sign [target.tree, value.tree]
  | logic op left right => node op.sign [left.tree, right.tree]
  | call callee args _ => node "call" (callee.tree :: trees args)
  | iif condition yes no _ => node "iif" [condition.tree, yes.tree, no.tree]

/-- The S-expressions of several expressions. -/
def trees : List Expr → List SExpr
  | [] => []
  | e :: rest => e.tree :: trees rest

end

end Expr

/-- The word for the type of a declared name. -/
def DeclaredType.tag (t : DeclaredType) : String := ":" ++ smallLetters t.word

/-- What stands behind the name of a declarator. -/
def Declarator.details (d : Declarator) : List SExpr :=
  (d.type?.map fun t => word t.tag).toList ++ (d.initial?.map Expr.tree).toList

namespace Statement

mutual

/-- The S-expression of the statement. -/
def tree : Statement → SExpr
  | declare visibility d => node (smallLetters visibility.word) (word d.name.name :: d.details)
  | declareAll visibility ds _ =>
    node (smallLetters visibility.word ++ "-inline") (ds.map fun d => node d.name.name d.details)
  | function name params body =>
    node "function" [word name.name, list (params.map fun x => word x.name),
      node "block" (trees body)]
  | expr e => e.tree
  | print args _ => node "print" (args.map Expr.tree)
  | ifThen condition yes none => node "if" [condition.tree, node "block" (trees yes)]
  | ifThen condition yes (some no) =>
    node "if" [condition.tree, node "block" (trees yes), node "block" (trees no)]
  | doCase branches none => node "do-case" (treesCases branches)
  | doCase branches (some body) =>
    node "do-case" (treesCases branches ++ [node "otherwise" [node "block" (trees body)]])
  | doWhile condition body => node "while" [condition.tree, node "block" (trees body)]
  | ret none _ => node "return" []
  | ret (some e) _ => node "return" [e.tree]
  | exit _ => node "exit" []
  | loop _ => node "loop" []

/-- The S-expressions of several statements. -/
def trees : List Statement → List SExpr
  | [] => []
  | s :: rest => s.tree :: trees rest

/-- The S-expressions of the branches of a case distinction. -/
def treesCases : List (Expr × List Statement) → List SExpr
  | [] => []
  | (condition, body) :: rest =>
    node "case" [condition.tree, node "block" (trees body)] :: treesCases rest

end

end Statement

/-! ## Their texts -/

theorem toList_spaced_cons (w : String) (ws : List String) :
    (spaced (w :: ws)).toList = ' ' :: (w.toList ++ (spaced ws).toList) := by
  simp [spaced]

/-- Texts joined by spaces are the members of a list, if each is the text of its tree. -/
theorem toList_spaced_map {α : Type} {text : α → String} {tree : α → SExpr}
    (h : ∀ a, (text a).toList = (tree a).render) (as : List α) :
    (spaced (as.map text)).toList = renderMore (as.map tree) := by
  induction as with
  | nil => rfl
  | cons a as ih => rw [List.map_cons, List.map_cons, toList_spaced_cons, ih, h, renderMore]

theorem Atom.toList_sexpr (a : Atom) : a.sexpr.toList = a.tree.render := by
  cases a <;> rfl

mutual

/-- The S-expression of an expression is the text of its tree. -/
theorem Expr.toList_sexpr : (e : Expr) → e.sexpr.toList = e.tree.render
  | .atom a s => a.toList_sexpr
  | .unary op operand s => by
    simp [Expr.sexpr, Expr.tree, render_node, renderMore, operand.toList_sexpr]
  | .binary op left right | .assign op left right | .logic op left right => by
    simp [Expr.sexpr, Expr.tree, render_node, renderMore, left.toList_sexpr, right.toList_sexpr]
  | .call callee args s => by
    simp [Expr.sexpr, Expr.tree, render_node, renderMore, callee.toList_sexpr,
      Expr.toList_sexprs args]
  | .iif condition yes no s => by
    simp [Expr.sexpr, Expr.tree, render_node, renderMore, condition.toList_sexpr,
      yes.toList_sexpr, no.toList_sexpr]

theorem Expr.toList_sexprs : (es : List Expr) →
    (spaced (Expr.sexprs es)).toList = renderMore (Expr.trees es)
  | [] => rfl
  | e :: rest => by
    rw [Expr.sexprs, Expr.trees, toList_spaced_cons, e.toList_sexpr, Expr.toList_sexprs rest,
      renderMore]

end

theorem Declarator.toList_sexpr (d : Declarator) :
    d.sexpr.toList = d.name.name.toList ++ renderMore d.details := by
  obtain ⟨name, type?, initial?⟩ := d
  cases type? <;> cases initial? <;>
    simp [Declarator.sexpr, Declarator.details, DeclaredType.tag, renderMore, render,
      Expr.toList_sexpr]

theorem Statement.toList_blockText {texts : List String} {ts : List SExpr}
    (h : (spaced texts).toList = renderMore ts) :
    (blockText texts).toList = (node "block" ts).render := by
  simp [blockText, render_node, h]

theorem toList_intercalate (ws : List String) :
    (" ".intercalate ws).toList = renderItems (ws.map word) := by
  have hmore (w : String) (ws : List String) :
      (" ".intercalate (w :: ws)).toList = w.toList ++ renderMore (ws.map word) := by
    induction ws generalizing w with
    | nil => simp [renderMore]
    | cons w' ws ih =>
      rw [List.map_cons, renderMore, render, ← ih, String.intercalate_cons_cons]
      simp
  cases ws with
  | nil => rfl
  | cons w ws => rw [hmore, List.map_cons, renderItems, render]

mutual

/-- The S-expression of a statement is the text of its tree. -/
theorem Statement.toList_sexpr : (s : Statement) → s.sexpr.toList = s.tree.render
  | .declare v d => by
    simp [Statement.sexpr, Statement.tree, render_node, renderMore, render, d.toList_sexpr]
  | .declareAll v ds grouped => by
    have hd (d : Declarator) :
        ("(" ++ d.sexpr ++ ")").toList = (node d.name.name d.details).render := by
      simp [render_node, d.toList_sexpr]
    simp [Statement.sexpr, Statement.tree, render_node (_ ++ "-inline"), toList_spaced_map hd]
  | .function name params body => by
    have hparams := toList_intercalate (params.map (·.name))
    have hbody := toList_blockText (Statement.toList_sexprs body)
    rw [List.map_map, Function.comp_def] at hparams
    simp [Statement.sexpr, Statement.tree, render_node "function", renderMore, render, hbody,
      -String.toList_intercalate, hparams]
  | .expr e => e.toList_sexpr
  | .print args s => by
    simp [Statement.sexpr, Statement.tree, render_node, toList_spaced_map Expr.toList_sexpr]
  | .ifThen condition yes none => by
    have hyes := toList_blockText (Statement.toList_sexprs yes)
    simp [Statement.sexpr, Statement.tree, render_node "if", renderMore, condition.toList_sexpr,
      hyes]
  | .ifThen condition yes (some no) => by
    have hyes := toList_blockText (Statement.toList_sexprs yes)
    have hno := toList_blockText (Statement.toList_sexprs no)
    simp [Statement.sexpr, Statement.tree, render_node "if", renderMore, condition.toList_sexpr,
      hyes, hno]
  | .doCase branches none => by
    simp [Statement.sexpr, Statement.tree, render_node, Statement.toList_sexprCases branches]
  | .doCase branches (some body) => by
    have hbody := toList_blockText (Statement.toList_sexprs body)
    simp [Statement.sexpr, Statement.tree, render_node, Statement.toList_sexprCases branches,
      renderMore_append, renderMore, hbody]
  | .doWhile condition body => by
    have hbody := toList_blockText (Statement.toList_sexprs body)
    simp [Statement.sexpr, Statement.tree, render_node "while", renderMore, condition.toList_sexpr,
      hbody]
  | .ret none s | .exit s | .loop s => by rw [Statement.sexpr, Statement.tree]; rfl
  | .ret (some e) s => by
    simp [Statement.sexpr, Statement.tree, render_node, renderMore, e.toList_sexpr]

theorem Statement.toList_sexprs : (ss : List Statement) →
    (spaced (Statement.sexprs ss)).toList = renderMore (Statement.trees ss)
  | [] => rfl
  | s :: rest => by
    rw [Statement.sexprs, Statement.trees, toList_spaced_cons, s.toList_sexpr,
      Statement.toList_sexprs rest, renderMore]

theorem Statement.toList_sexprCases : (branches : List (Expr × List Statement)) →
    (spaced (Statement.sexprCases branches)).toList = renderMore (Statement.treesCases branches)
  | [] => rfl
  | (condition, body) :: rest => by
    have hbody := toList_blockText (Statement.toList_sexprs body)
    simp [Statement.sexprCases, Statement.treesCases, toList_spaced_cons, render_node "case",
      renderMore, condition.toList_sexpr, hbody, Statement.toList_sexprCases rest]

end

/-- The texts of several S-expressions, one a line. -/
def SExpr.renderLines : List SExpr → List Char
  | [] => []
  | t :: ts => t.render ++ '\n' :: renderLines ts

/-- The lines of a program are those of its statements' trees. -/
theorem Program.toList_sexpr (p : Program) :
    p.sexpr.toList = renderLines (Statement.trees p) := by
  induction p with
  | nil => rfl
  | cons s p ih =>
    rw [Statement.trees, renderLines, ← ih, ← s.toList_sexpr]
    simp [Program.sexpr]

/-- Lines of well-formed S-expressions determine them. -/
theorem SExpr.renderLines_inj {ts ts' : List SExpr} (h : AllWellFormed ts) (h' : AllWellFormed ts')
    (heq : renderLines ts = renderLines ts') : ts = ts' := by
  have hends (r : List Char) : Ends ('\n' :: r) := fun c hc => by cases hc; rfl
  induction ts generalizing ts' with
  | nil =>
    cases ts' with
    | nil => rfl
    | cons t' ts' => simp [renderLines] at heq
  | cons t ts ih =>
    cases ts' with
    | nil => simp [renderLines] at heq
    | cons t' ts' =>
      obtain ⟨rfl, hrest⟩ := render_append_inj t h.1 h'.1 (hends _) (hends _) heq
      rw [ih h.2 h'.2 (List.cons.inj hrest).2]

end Xbase
