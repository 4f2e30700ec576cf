import Xbase.Proofs.Program.Legible
import Xbase.Proofs.Program.Meaning

/-!
# A program is known by its S-expressions

The program that was read from a text has trees without stray delimiters
(`Statement.AllWritable.wellFormed`), so its text gives its trees, and finite numbers and names can
be told apart by their words (`Program.legible_atoms`), so its trees give its statements. The text
then says everything about the program but its places and the parentheses around declared names
(`sexpr_eq_iff`). An infinite number would be in the way: its word is `inf`, which is also a name.
-/

namespace Xbase

open SExpr

/-! ## The atoms of what can be written -/

mutual

/-- If an expression can be written down, so can each atom in it. -/
theorem Expr.Writable.atoms : (e : Expr) → e.Writable → ∀ a ∈ e.atoms, a.Writable
  | .atom _ _, h => List.forall_mem_singleton.2 h
  | .unary _ operand _, h => Expr.Writable.atoms operand h
  | .binary _ left right, h | .assign _ left right, h | .logic _ left right, h =>
    List.forall_mem_append.2 ⟨Expr.Writable.atoms left h.1, Expr.Writable.atoms right h.2⟩
  | .call callee args _, h =>
    List.forall_mem_append.2 ⟨Expr.Writable.atoms callee h.1, Expr.AllWritable.atoms args h.2⟩
  | .iif condition yes no _, h =>
    List.forall_mem_append.2 ⟨List.forall_mem_append.2 ⟨Expr.Writable.atoms condition h.1,
      Expr.Writable.atoms yes h.2.1⟩, Expr.Writable.atoms no h.2.2⟩

theorem Expr.AllWritable.atoms : (es : List Expr) → Expr.AllWritable es →
    ∀ a ∈ Expr.atomsAll es, a.Writable
  | [], _ => List.forall_mem_nil _
  | e :: rest, h =>
    List.forall_mem_append.2 ⟨Expr.Writable.atoms e h.1, Expr.AllWritable.atoms rest h.2⟩

end

theorem Declarator.Writable.atoms {d : Declarator} (h : d.Writable) :
    ∀ a ∈ d.atoms, a.Writable := by
  obtain ⟨name, type?, initial?⟩ := d
  cases initial? with
  | none => exact List.forall_mem_nil _
  | some e => exact Expr.Writable.atoms e (h.initial e rfl)

mutual

/-- If a statement can be written down, so can each atom in it. -/
theorem Statement.Writable.atoms : (s : Statement) → s.Writable → ∀ a ∈ s.atoms, a.Writable
  | .declare _ _, h => Declarator.Writable.atoms h
  | .declareAll _ _ _, h =>
    List.forall_mem_flatMap.2 fun d hd => Declarator.Writable.atoms (h.1 d hd)
  | .function _ _ body, h => Statement.AllWritable.atoms body h.2.2
  | .expr e, h => Expr.Writable.atoms e h
  | .print _ _, h => List.forall_mem_flatMap.2 fun e he => Expr.Writable.atoms e (h e he)
  | .ifThen condition yes none, h | .doWhile condition yes, h =>
    List.forall_mem_append.2
      ⟨Expr.Writable.atoms condition h.1, Statement.AllWritable.atoms yes h.2⟩
  | .ifThen condition yes (some no), h =>
    List.forall_mem_append.2 ⟨List.forall_mem_append.2 ⟨Expr.Writable.atoms condition h.1,
      Statement.AllWritable.atoms yes h.2.1⟩, Statement.AllWritable.atoms no h.2.2⟩
  | .doCase branches none, h => Statement.CasesWritable.atoms branches h
  | .doCase branches (some body), h =>
    List.forall_mem_append.2 ⟨Statement.CasesWritable.atoms branches h.1,
      Statement.AllWritable.atoms body h.2⟩
  | .ret none _, _ | .exit _, _ | .loop _, _ => List.forall_mem_nil _
  | .ret (some e) _, h => Expr.Writable.atoms e (h e rfl)

theorem Statement.AllWritable.atoms : (ss : List Statement) → Statement.AllWritable ss →
    ∀ a ∈ Statement.atomsAll ss, a.Writable
  | [], _ => List.forall_mem_nil _
  | s :: rest, h =>
    List.forall_mem_append.2 ⟨Statement.Writable.atoms s h.1, Statement.AllWritable.atoms rest h.2⟩

theorem Statement.CasesWritable.atoms : (branches : List (Expr × List Statement)) →
    Statement.CasesWritable branches → ∀ a ∈ Statement.atomsCases branches, a.Writable
  | [], _ => List.forall_mem_nil _
  | (condition, body) :: rest, h =>
    List.forall_mem_append.2 ⟨List.forall_mem_append.2 ⟨Expr.Writable.atoms condition h.1,
      Statement.AllWritable.atoms body h.2.1⟩, Statement.CasesWritable.atoms rest h.2.2⟩

end

/-! ## Atoms can be read -/

/-- A word that starts with a digit can only be a number. -/
theorem Atom.ofWord?_digit {w : String} {c : Char} {cs : List Char} (hw : w.toList = c :: cs)
    (hc : c.isDigit = true) : ofWord? w = (Number.ofText? w).map .number := by
  have hne (w' : String) (hw' : (w'.toList.head?.any Char.isDigit) = false) : w ≠ w' := by
    rintro rfl
    rw [hw, List.head?_cons, Option.any_some, hc] at hw'
    cases hw'
  rw [ofWord?, if_neg (hne _ rfl), if_neg (hne _ rfl), if_neg (hne _ rfl),
    if_pos (by rw [hw, List.head?_cons, Option.any_some, hc])]

/-- The word of a name is neither a number nor the word of another atom. -/
theorem Atom.ofWord?_name {s : String} (h : IsName s) : ofWord? s = some (.name s) := by
  obtain ⟨c, cs, hs, hc, -⟩ := h.word
  have hnull : s ≠ "null" := by
    rintro rfl
    cases h.kind
  have hne (s' : String) (hs' : (s'.toList.head?.any Piece.isWordStart) = false) : s ≠ s' := by
    rintro rfl
    rw [hs, List.head?_cons, Option.any_some, hc] at hs'
    cases hs'
  rw [ofWord?, if_neg hnull, if_neg (hne _ rfl), if_neg (hne _ rfl), hs,
    List.head?_cons, Option.any_some, Option.any_some, (Piece.isWordStart_part hc).2, hc,
    if_neg Bool.false_ne_true, if_pos rfl]

/-- The number is neither infinite nor undefined. -/
def Number.isFinite (n : Number) : Bool :=
  match n.magnitude with
  | .finite _ _ => true
  | .infinite | .nan => false

/-- The atom is a finite number, or no number at all. -/
def Atom.isFinite : Atom → Bool
  | .number n => n.isFinite
  | .logical _ | .null | .name _ | .string _ => true

/-- All numbers of the program are finite. -/
def Program.NumbersFinite (p : Program) : Prop :=
  ∀ a ∈ p.atoms, a.isFinite = true

instance (p : Program) : Decidable p.NumbersFinite :=
  List.decidableBAll (fun a : Atom => a.isFinite = true) p.atoms

/-- A finite literal has bits below those of infinity. -/
theorem Number.Literal.lt_of_finite {n : Number} (h : n.Literal) (hfinite : n.isFinite = true) :
    n.bits.toNat < infinityBits := by
  refine Nat.lt_of_le_of_ne h fun heq => ?_
  rw [isFinite, magnitude, h.unsigned.2, heq] at hfinite
  cases hfinite

/-- Atoms that can be written down can be told from their words, infinite numbers apart. -/
theorem Atom.legible {a : Atom} (h : a.Writable) (hfinite : a.isFinite = true) : a.Legible := by
  cases a with
  | number n =>
    have hlt := Number.Literal.lt_of_finite h hfinite
    obtain ⟨whole, fraction, hplain, hne, hdigits, -⟩ := Number.plain_finite hlt
    obtain ⟨c, cs, rfl⟩ := List.exists_cons_of_ne_nil hne
    have hw : n.plain.toList = c :: (cs ++ if fraction = [] then [] else '.' :: fraction) := by
      rw [hplain, String.toList_ofList]
      rfl
    change (word n.plain).expr? = _
    rw [expr?, ofWord?_digit hw (hdigits c List.mem_cons_self), Number.ofText?_plain hlt]
    rfl
  | name s =>
    change (word s).expr? = _
    rw [expr?, ofWord?_name h]
    rfl
  | logical b => cases b <;> rfl
  | null | string _ => rfl

theorem Program.legible_atoms {p : Program} (h : p.Writable) (hfinite : p.NumbersFinite) :
    ∀ a ∈ p.atoms, a.Legible := by
  intro a ha
  exact Atom.legible (Statement.AllWritable.atoms p h a ha) (hfinite a ha)

/-! ## Words keep clear of the delimiters -/

theorem SExpr.isInner_part {c : Char} (h : Piece.isWordPart c = true) : isInner c = true := by
  have hall : delimiters.all (fun d => !Piece.isWordPart d) = true := rfl
  cases hc : delimiters.contains c with
  | false => rw [isInner, hc]; rfl
  | true =>
    have hnot := List.all_eq_true.1 hall c (List.contains_iff_mem.1 hc)
    rw [h] at hnot
    cases hnot

/-- A name has no blank, parenthesis or quotation mark in it. -/
theorem IsName.isWord {s : String} (h : IsName s) : isWord s.toList = true := by
  obtain ⟨c, cs, hs, hc, hcs⟩ := h.word
  rw [hs, isWord_iff]
  refine ⟨List.cons_ne_nil _ _, List.forall_mem_cons.2 ⟨?_, fun d hd => isInner_part (hcs d hd)⟩⟩
  exact isInner_part (Piece.isWordStart_part hc).1

/-- The text of a number is one word. -/
theorem Number.Literal.isWord_plain {n : Number} (h : n.Literal) :
    isWord n.plain.toList = true := by
  have hdigit {c : Char} (hc : c.isDigit = true) : isInner c = true :=
    isInner_part (by simp [Piece.isWordPart, Char.isAlphanum, hc])
  obtain hlt | heq := Nat.lt_or_eq_of_le h
  · obtain ⟨whole, fraction, hplain, hne, hdigits, -⟩ := plain_finite hlt
    rw [List.forall_mem_append] at hdigits
    rw [hplain, String.toList_ofList, numeral, isWord_iff]
    refine ⟨fun hnil => hne (List.append_eq_nil_iff.1 hnil).1, ?_⟩
    refine List.forall_mem_append.2 ⟨fun c hc => hdigit (hdigits.1 c hc), ?_⟩
    split
    · exact List.forall_mem_nil _
    · exact List.forall_mem_cons.2 ⟨rfl, fun c hc => hdigit (hdigits.2 c hc)⟩
  · rw [plain_infinite heq]
    rfl

theorem SExpr.allWellFormed_iff {ts : List SExpr} :
    AllWellFormed ts ↔ ∀ t ∈ ts, t.WellFormed := by
  induction ts with
  | nil => simp [AllWellFormed]
  | cons t ts ih => rw [AllWellFormed, ih, List.forall_mem_cons]

theorem SExpr.wellFormed_word {w : String} (h : isWord w.toList = true) : (word w).WellFormed := h

theorem SExpr.wellFormed_node {head : String} {parts : List SExpr}
    (h : isWord head.toList = true) (hparts : AllWellFormed parts) :
    (node head parts).WellFormed := ⟨h, hparts⟩

/-- An atom that can be written down has a well-formed S-expression. -/
theorem Atom.Writable.wellFormed {a : Atom} (h : a.Writable) : a.tree.WellFormed := by
  cases a with
  | number n => exact Number.Literal.isWord_plain h
  | name s => exact IsName.isWord h
  | logical b => cases b <;> exact wellFormed_word rfl
  | null => exact wellFormed_word rfl
  | string s => trivial

mutual

/-- An expression that can be written down has a well-formed S-expression, part by part. -/
theorem Expr.Writable.wellFormed : (e : Expr) → e.Writable → e.tree.WellFormed
  | .atom _ _, h => Atom.Writable.wellFormed h
  | .unary op operand _, h =>
    wellFormed_node (by cases op <;> rfl) ⟨Expr.Writable.wellFormed operand h, trivial⟩
  | .binary op left right, h | .assign op left right, h | .logic op left right, h =>
    wellFormed_node (by cases op <;> rfl)
      ⟨Expr.Writable.wellFormed left h.1, Expr.Writable.wellFormed right h.2, trivial⟩
  | .call callee args _, h =>
    wellFormed_node rfl
      ⟨Expr.Writable.wellFormed callee h.1, Expr.AllWritable.wellFormed args h.2⟩
  | .iif condition yes no _, h =>
    wellFormed_node rfl ⟨Expr.Writable.wellFormed condition h.1,
      Expr.Writable.wellFormed yes h.2.1, Expr.Writable.wellFormed no h.2.2, trivial⟩

theorem Expr.AllWritable.wellFormed : (es : List Expr) → Expr.AllWritable es →
    AllWellFormed (Expr.trees es)
  | [], _ => trivial
  | e :: rest, h => ⟨Expr.Writable.wellFormed e h.1, Expr.AllWritable.wellFormed rest h.2⟩

end

theorem Declarator.Writable.wellFormed {d : Declarator} (h : d.Writable) :
    AllWellFormed d.details := by
  refine allWellFormed_iff.2 (List.forall_mem_append.2 ⟨?_, ?_⟩)
  · intro t ht
    obtain ⟨type, -, rfl⟩ := Option.map_eq_some_iff.1 (Option.mem_toList.1 ht)
    cases type <;> exact wellFormed_word rfl
  · intro t ht
    obtain ⟨e, he, rfl⟩ := Option.map_eq_some_iff.1 (Option.mem_toList.1 ht)
    exact Expr.Writable.wellFormed e (h.initial e he)

theorem SExpr.allWellFormed_map {α : Type} {tree : α → SExpr} {as : List α}
    (h : ∀ a ∈ as, (tree a).WellFormed) : AllWellFormed (as.map tree) :=
  allWellFormed_iff.2 (List.forall_mem_map.2 h)

mutual

/-- A statement that can be written down has a well-formed S-expression. -/
theorem Statement.Writable.wellFormed : (s : Statement) → s.Writable → s.tree.WellFormed
  | .declare v _, h =>
    wellFormed_node (by cases v <;> rfl) ⟨h.name.isWord, Declarator.Writable.wellFormed h⟩
  | .declareAll v _ _, h =>
    wellFormed_node (by cases v <;> rfl) (allWellFormed_map fun d hd =>
      wellFormed_node (h.1 d hd).name.isWord (h.1 d hd).wellFormed)
  | .function _ _ body, h =>
    wellFormed_node rfl ⟨h.1.isWord, allWellFormed_map fun x hx => (h.2.1 x hx).isWord,
      Statement.wellFormed_block body h.2.2, trivial⟩
  | .expr e, h => Expr.Writable.wellFormed e h
  | .print _ _, h =>
    wellFormed_node rfl (allWellFormed_map fun e he => Expr.Writable.wellFormed e (h e he))
  | .ifThen condition yes none, h =>
    wellFormed_node rfl ⟨Expr.Writable.wellFormed condition h.1,
      Statement.wellFormed_block yes h.2, trivial⟩
  | .ifThen condition yes (some no), h =>
    wellFormed_node rfl ⟨Expr.Writable.wellFormed condition h.1,
      Statement.wellFormed_block yes h.2.1, Statement.wellFormed_block no h.2.2, trivial⟩
  | .doCase branches none, h =>
    wellFormed_node rfl (Statement.CasesWritable.wellFormed branches h)
  | .doCase branches (some body), h =>
    wellFormed_node rfl (allWellFormed_iff.2 (List.forall_mem_append.2
      ⟨allWellFormed_iff.1 (Statement.CasesWritable.wellFormed branches h.1),
        List.forall_mem_singleton.2 (wellFormed_node rfl
          ⟨Statement.wellFormed_block body h.2, trivial⟩)⟩))
  | .doWhile condition body, h =>
    wellFormed_node rfl ⟨Expr.Writable.wellFormed condition h.1,
      Statement.wellFormed_block body h.2, trivial⟩
  | .ret none _, _ | .exit _, _ | .loop _, _ => wellFormed_node rfl trivial
  | .ret (some e) _, h => wellFormed_node rfl ⟨Expr.Writable.wellFormed e (h e rfl), trivial⟩

theorem Statement.AllWritable.wellFormed : (ss : List Statement) → Statement.AllWritable ss →
    AllWellFormed (Statement.trees ss)
  | [], _ => trivial
  | s :: rest, h => ⟨Statement.Writable.wellFormed s h.1, Statement.AllWritable.wellFormed rest h.2⟩

theorem Statement.wellFormed_block (ss : List Statement) (h : Statement.AllWritable ss) :
    (node "block" (Statement.trees ss)).WellFormed :=
  wellFormed_node rfl (Statement.AllWritable.wellFormed ss h)

theorem Statement.CasesWritable.wellFormed : (branches : List (Expr × List Statement)) →
    Statement.CasesWritable branches → AllWellFormed (Statement.treesCases branches)
  | [], _ => trivial
  | (condition, body) :: rest, h =>
    ⟨wellFormed_node rfl ⟨Expr.Writable.wellFormed condition h.1,
        Statement.wellFormed_block body h.2.1, trivial⟩,
      Statement.CasesWritable.wellFormed rest h.2.2⟩

end

/-! ## Same S-expressions, same program -/

mutual

/-- The S-expression of a declaration does not show whether there were parentheses. -/
theorem Statement.tree_ungrouped : (s : Statement) → s.ungrouped.tree = s.tree
  | .declareAll _ _ _ | .declare _ _ | .expr _ | .print _ _ | .ret _ _ | .exit _ | .loop _ => rfl
  | .function _ _ body => by
    rw [Statement.ungrouped, Statement.tree, Statement.tree, Statement.trees_ungrouped body]
  | .ifThen _ yes none => by
    rw [Statement.ungrouped, Statement.tree, Statement.tree, Statement.trees_ungrouped yes]
  | .ifThen _ yes (some no) => by
    rw [Statement.ungrouped, Statement.tree, Statement.tree, Statement.trees_ungrouped yes,
      Statement.trees_ungrouped no]
  | .doCase branches none => by
    rw [Statement.ungrouped, Statement.tree, Statement.tree,
      Statement.treesCases_ungrouped branches]
  | .doCase branches (some body) => by
    rw [Statement.ungrouped, Statement.tree, Statement.tree,
      Statement.treesCases_ungrouped branches, Statement.trees_ungrouped body]
  | .doWhile _ body => by
    rw [Statement.ungrouped, Statement.tree, Statement.tree, Statement.trees_ungrouped body]

theorem Statement.trees_ungrouped : (ss : List Statement) →
    Statement.trees (Statement.ungroupedAll ss) = Statement.trees ss
  | [] => rfl
  | s :: rest => by
    rw [Statement.ungroupedAll, Statement.trees, Statement.trees, s.tree_ungrouped,
      Statement.trees_ungrouped rest]

theorem Statement.treesCases_ungrouped : (branches : List (Expr × List Statement)) →
    Statement.treesCases (Statement.ungroupedCases branches) = Statement.treesCases branches
  | [] => rfl
  | (_, body) :: rest => by
    rw [Statement.ungroupedCases, Statement.treesCases, Statement.treesCases,
      Statement.trees_ungrouped body, Statement.treesCases_ungrouped rest]

end

/-- The program without the parentheses around lists of declared names. -/
def Program.ungrouped (p : Program) : Program := Statement.ungroupedAll p

/-- Programs that differ only in parentheses around declarations have the same S-expression. -/
theorem Program.sexpr_ungrouped (p : Program) : p.ungrouped.sexpr = p.sexpr := by
  rw [← String.toList_inj, Program.toList_sexpr, Program.toList_sexpr, Program.ungrouped,
    Statement.trees_ungrouped]

/-- Two programs that were read from texts, with finite numbers only, have the same S-expressions if
and only if they differ in nothing but places and the parentheses around declared names. -/
theorem sexpr_eq_iff {text text' : String} {parsed parsed' : Parsed} (h : parse text = .ok parsed)
    (h' : parse text' = .ok parsed') (hfinite : parsed.program.NumbersFinite)
    (hfinite' : parsed'.program.NumbersFinite) :
    parsed.program.sexpr = parsed'.program.sexpr ↔
      parsed.program.ungrouped.map id noPlace = parsed'.program.ungrouped.map id noPlace := by
  have hw := Program.writable_of_parse h
  have hw' := Program.writable_of_parse h'
  constructor
  · intro hsame
    rw [← String.toList_inj, Program.toList_sexpr, Program.toList_sexpr] at hsame
    have htrees := renderLines_inj (Statement.AllWritable.wellFormed _ hw)
      (Statement.AllWritable.wellFormed _ hw') hsame
    have hread := Statement.statements?_trees _ (Program.legible_atoms hw hfinite)
    have hread' := Statement.statements?_trees _ (Program.legible_atoms hw' hfinite')
    rw [htrees, hread'] at hread
    exact (Option.some.inj hread).symm
  · intro hsame
    have hsexpr (p : Program) : (p.ungrouped.map id noPlace).sexpr = p.sexpr := by
      have hatom (a : Atom) : (id a).sexpr = a.sexpr := rfl
      rw [Program.sexpr_map hatom, Program.sexpr_ungrouped]
    rw [← hsexpr, hsame, hsexpr]

/-- The same declaration and the same output, in two layouts. -/
theorem sexpr_eq_iff_layout :
    ∃ p p' : Program, parse "LOCAL (x, y)\n? -1" = .ok ⟨p, []⟩ ∧
      parse "local x, y\n\n?- 1" = .ok ⟨p', []⟩ ∧ p.NumbersFinite ∧ p'.NumbersFinite ∧ p ≠ p' ∧
      p.sexpr = p'.sexpr ∧ p.ungrouped.map id noPlace = p'.ungrouped.map id noPlace := by
  have hparse : parse "LOCAL (x, y)\n? -1" = .ok ⟨[
      .declareAll .loc [⟨⟨"x", ⟨7, 1⟩⟩, none, none⟩, ⟨⟨"y", ⟨10, 1⟩⟩, none, none⟩] true,
      .print [.unary .negate (.atom (.number ⟨0x3ff0000000000000⟩) ⟨16, 1⟩) ⟨15, 1⟩] ⟨13, 1⟩],
      []⟩ := by
    cbv
  have hparse' : parse "local x, y\n\n?- 1" = .ok ⟨[
      .declareAll .loc [⟨⟨"x", ⟨6, 1⟩⟩, none, none⟩, ⟨⟨"y", ⟨9, 1⟩⟩, none, none⟩] false,
      .print [.unary .negate (.atom (.number ⟨0x3ff0000000000000⟩) ⟨15, 1⟩) ⟨13, 1⟩] ⟨12, 1⟩],
      []⟩ := by
    cbv
  refine ⟨_, _, hparse, hparse', by decide, by decide, fun h => ?_, rfl,
    (sexpr_eq_iff hparse hparse' (by decide) (by decide)).1 rfl⟩
  injection (List.cons.inj h).1 with _ _ hgrouped
  cases hgrouped

end Xbase
