import Xbase.Proofs.Grammar.Statement
import Xbase.Proofs.Parser.Expr
import Xbase.Proofs.Program.Map
import Xbase.Proofs.Program.Writable
import Xbase.Proofs.Token.Scan

/-!
# Expressions read back from their source text

The text of an expression is read as the same expression again. The places change, and a number
beyond the range of numbers comes back as the name `inf`; nothing else does.

The proof follows the text: what each part writes is scanned into tokens (`Scans`) that the grammar
makes the same tree of. An operand is written as a primary or a call, so it is a phrase of the
tightest level, whatever the operators around it are.
-/

namespace Xbase

open Grammar

/-- The atom that is read for the text of an atom. -/
def Atom.reread : Atom → Atom
  | .number n => if n = Number.infinity false then .name "inf" else .number n
  | a => a

variable {last : Boundary} {rest : List Char}

/-! ## Atoms -/

theorem stringMark_eq {s : String} (h : ∃ mark, Piece.isMark mark = true ∧ mark ∉ s.toList) :
    ∃ mark, stringMark s = String.ofList [mark] ∧ Piece.isMark mark = true ∧ mark ∉ s.toList := by
  obtain ⟨m, hm, hms⟩ := h
  simp only [Piece.isMark, Bool.or_eq_true, beq_iff_eq] at hm
  unfold stringMark
  simp only [String.contains_char_eq, decide_eq_true_eq]
  split
  · next h => exact ⟨'\x27', rfl, rfl, h⟩
  split
  · next h => exact ⟨'"', rfl, rfl, h⟩
  split
  · next h => exact ⟨'\x60', rfl, rfl, h⟩
  · next h₁ h₂ h₃ =>
    exfalso
    obtain (rfl | rfl) | rfl := hm
    · exact h₁ hms
    · exact h₂ hms
    · exact h₃ hms

theorem isName_inf : IsName "inf" :=
  ⟨⟨'i', ['n', 'f'], rfl, rfl, List.all_eq_true.1 rfl⟩, rfl, rfl⟩

/-- The text of an atom that can be written is scanned as one token, which is that atom again. -/
theorem Atom.scans {a : Atom} (h : a.Writable) (hrest : Breaks rest) :
    Scans last a.source.toList (fun ts => ∃ t, ts = [t] ∧ Leaf t a.reread) .token rest := by
  cases a with
  | number n =>
    by_cases hinf : n.bits.toNat = Number.infinityBits
    · have hn : n = Number.infinity false := (Number.ofUnsigned_bits hinf).symm
      rw [Atom.source, Number.plain_infinite hinf, Atom.reread, if_pos hn]
      refine (Scans.name isName_inf hrest).mono ?_
      rintro ts ⟨t, rfl, hk, ht⟩
      exact ⟨t, rfl, ht ▸ .name hk⟩
    · have hlt : n.bits.toNat < Number.infinityBits := Nat.lt_of_le_of_ne h hinf
      have hn : n ≠ Number.infinity false := by
        rintro rfl
        exact hinf rfl
      obtain ⟨whole, fraction, htext, hw, hd, -⟩ := Number.plain_finite hlt
      have hscan : Scans last _ _ _ _ := Scans.number hw hd hrest
      rw [← htext] at hscan
      rw [Atom.source, htext, String.toList_ofList, Atom.reread, if_neg hn]
      refine hscan.mono ?_
      rintro ts ⟨t, rfl, hk, ht⟩
      exact ⟨t, rfl, .number hk (ht ▸ Number.ofText?_plain hlt)⟩
  | logical b =>
    refine (Scans.logical b).mono ?_
    rintro ts ⟨t, rfl, hk⟩
    exact ⟨t, rfl, .logical hk⟩
  | null =>
    refine (Scans.reserved "NULL" rfl rfl hrest).mono ?_
    rintro ts ⟨t, rfl, hk⟩
    exact ⟨t, rfl, .null hk⟩
  | name s =>
    refine (Scans.name h hrest).mono ?_
    rintro ts ⟨t, rfl, hk, ht⟩
    exact ⟨t, rfl, ht ▸ .name hk⟩
  | string s =>
    obtain ⟨mark, hmark, hm, hs⟩ := stringMark_eq h
    have htext : (Atom.source (.string s)).toList = mark :: (s.toList ++ [mark]) := by
      rw [Atom.source, hmark]
      simp
    rw [htext]
    refine (Scans.string hm hs).mono ?_
    rintro ts ⟨t, rfl, hk, ht⟩
    have hvalue : t.stringValue = s := by simp [Token.stringValue, ht]
    exact ⟨t, rfl, hvalue ▸ .string hk⟩

theorem Atom.source_head {a : Atom} (h : a.Writable) :
    ∃ c w, a.source.toList = c :: w ∧ c ≠ '=' := by
  cases a with
  | number n =>
    by_cases hinf : n.bits.toNat = Number.infinityBits
    · exact ⟨'i', ['n', 'f'], by rw [Atom.source, Number.plain_infinite hinf]; rfl, by decide⟩
    · have hlt : n.bits.toNat < Number.infinityBits := Nat.lt_of_le_of_ne h hinf
      obtain ⟨whole, fraction, htext, hw, hd, -⟩ := Number.plain_finite hlt
      obtain ⟨c, w, rfl⟩ := List.exists_cons_of_ne_nil hw
      refine ⟨c, _, by rw [Atom.source, htext, String.toList_ofList]; rfl, ?_⟩
      rintro rfl
      exact absurd (hd '=' (by simp)) (by decide)
  | logical b => cases b <;> exact ⟨'.', _, rfl, by decide⟩
  | null => exact ⟨'N', _, rfl, by decide⟩
  | name s =>
    obtain ⟨c, w, hcw, hc, -⟩ := IsName.word h
    refine ⟨c, w, hcw, ?_⟩
    rintro rfl
    exact absurd hc (by decide)
  | string s =>
    obtain ⟨mark, hmark, hm, -⟩ := stringMark_eq h
    refine ⟨mark, s.toList ++ [mark], by rw [Atom.source, hmark]; simp, ?_⟩
    rintro rfl
    exact absurd hm (by decide)

/-! ## Expressions -/

namespace Expr

/-- The tokens are those of an expression which is `e` again. -/
def Rereads (level : Nat) (e : Expr) (ts : List Token) : Prop :=
  ∃ e', e'.map id noPlace = e.map Atom.reread noPlace ∧ ∀ after, Phrase level (ts ++ after) e' after

/-- An operand is a primary or a call, any other place takes all expressions. -/
def placeLevel (nested : Bool) : Nat := if nested then 9 else 1

/-- The text of an operand never starts like the end of a comparison or of an assignment. -/
theorem sourceIn_head : (e : Expr) → e.Writable →
    ∃ c w, (e.sourceIn true).toList = c :: w ∧ c ≠ '='
  | .atom a s, h => Atom.source_head h
  | .unary op operand s, _ | .binary op operand _, _ | .assign op operand _, _
  | .logic op operand _, _ => by
    rw [sourceIn, parenthesized, if_pos rfl, String.toList_append, String.toList_append]
    exact ⟨'(', _, rfl, by decide⟩
  | .call callee args s, h => by
    obtain ⟨c, w, hcw, hc⟩ := callee.sourceIn_head h.1
    rw [sourceIn, String.toList_append, String.toList_append, String.toList_append, hcw]
    exact ⟨c, _, rfl, hc⟩
  | .iif condition yes no s, _ => by
    rw [sourceIn]
    simp only [String.toList_append]
    exact ⟨'I', _, rfl, by decide⟩

theorem scans_logic (op : LogicOp) (hrest : Breaks rest) :
    Scans last op.sign.toList (Single (.keyword op.keyword)) .token rest := by
  cases op with
  | and => exact Scans.reserved "AND" rfl rfl hrest
  | or => exact Scans.reserved "OR" rfl rfl hrest

/-- Parentheses around a text make an operand of what it is reread as. -/
theorem scans_parenthesized {e : Expr} {text : String} (nested : Bool)
    (h : ∀ {last rest}, Breaks rest → Scans last text.toList (e.Rereads 1) .token rest)
    (hrest : Breaks rest) :
    Scans last (parenthesized nested text).toList (e.Rereads (placeLevel nested)) .token rest := by
  cases nested with
  | false => exact h hrest
  | true =>
    rw [parenthesized, if_pos rfl, String.toList_append, String.toList_append, List.append_assoc]
    refine ((Scans.symbol (s := .leftParen) rfl).both
      ((h (breaks_cons (by decide))).both (Scans.symbol (s := .rightParen) rfl))).mono ?_
    rintro _ ⟨_, _, rfl, ⟨t, rfl, ht⟩, w, _, rfl, ⟨e', he, hw⟩, t', rfl, ht'⟩
    refine ⟨e', he, fun after => ?_⟩
    simp only [List.append_assoc, List.cons_append, List.nil_append]
    exact .group ht (hw _) ht'

end Expr

/-- The tokens are those of an item which is `x` again, if they stand in front of a token that goes
on with no expression. -/
def Again {α : Type} (m m' : α → α) (G : List Token → α → List Token → Prop) (x : α)
    (ts : List Token) : Prop :=
  ∃ y, m' y = m x ∧ ∀ after, Settled after → G (ts ++ after) y after

/-- An expression that is reread is parsed again where nothing goes on with it. -/
theorem Expr.Rereads.again {G : List Token → Expr → List Token → Prop}
    (hG : ∀ {before e after}, Phrase 1 before e after → Settled after → G before e after)
    {e : Expr} {ts : List Token} (h : e.Rereads 1 ts) :
    Again (Expr.map Atom.reread noPlace) (Expr.map id noPlace) G e ts := by
  obtain ⟨x, hx, hw⟩ := h
  exact ⟨x, hx, fun after ha => hG (hw after) ha⟩

/-- The items of a list with commas between them are read again if each of them is. -/
theorem scans_separated {α : Type} {text : α → String} {m m' : α → α}
    {G : List Token → α → List Token → Prop} {xs : List α} (hne : xs ≠ [])
    (h : ∀ x ∈ xs, ∀ {last rest}, Breaks rest →
      Scans last (text x).toList (Again m m' G x) .token rest)
    (hrest : Breaks rest) :
    Scans last (", ".intercalate (xs.map text)).toList
      (Again (List.map m) (List.map m') (CommaList G) xs) .token rest := by
  induction xs generalizing last with
  | nil => exact absurd rfl hne
  | cons x xs ih =>
    have hx := fun {last rest} => @h x (List.mem_cons_self ..) last rest
    cases xs with
    | nil =>
      rw [List.map_singleton, String.intercalate_singleton]
      refine (hx hrest).mono ?_
      rintro ts ⟨y, hy, hw⟩
      exact ⟨[y], congrArg ([·]) hy, fun after ha => .one (hw after ha)⟩
    | cons x' xs =>
      rw [List.map_cons, List.map_cons, String.intercalate_cons_cons, String.toList_append,
        String.toList_append, List.append_assoc]
      have hxs := @ih .token (by simp) fun z hz => h z (List.mem_cons_of_mem _ hz)
      refine ((hx (breaks_cons (by decide))).both ((Scans.symbol (s := .comma) rfl).both
        (.blank hxs))).mono ?_
      rintro _ ⟨w, _, rfl, ⟨y, hy, hw⟩, _, ws, rfl, ⟨t, rfl, ht⟩, ys, hys, hws⟩
      refine ⟨y :: ys, congrArg₂ List.cons hy hys, fun after ha => ?_⟩
      simp only [List.append_assoc, List.cons_append, List.nil_append]
      exact .more (hw _ (settled_cons ht rfl)) ht (hws after ha)

namespace Expr

theorem sources_eq (es : List Expr) : sources es = es.map source := by
  induction es with
  | nil => rfl
  | cons e es ih => rw [sources, ih, List.map_cons, source]

/-- The arguments of a call, up to the parenthesis behind them. -/
theorem scans_arguments {es : List Expr} (h : ∀ e ∈ es, ∀ {last rest}, Breaks rest →
    Scans last e.source.toList (e.Rereads 1) .token rest) :
    Scans last ((", ".intercalate (es.map source)).toList ++ [')'])
      (fun ts => ∃ xs t w, ts = w ++ [t] ∧ t.kind = .symbol .rightParen ∧
        xs.map (Expr.map id noPlace) = es.map (Expr.map Atom.reread noPlace) ∧
        (w = [] ∧ xs = [] ∨ ∀ after, CommaList (Phrase 1) (w ++ t :: after) xs (t :: after)))
      .token rest := by
  by_cases hne : es = []
  · subst hne
    refine (Scans.symbol (s := .rightParen) rfl).mono ?_
    rintro _ ⟨t, rfl, ht⟩
    exact ⟨[], t, [], rfl, ht, rfl, .inl ⟨rfl, rfl⟩⟩
  · have hitems := fun e he {last rest} hrest =>
      (@h e he last rest hrest).mono fun _ => Rereads.again (G := Phrase 1) fun h _ => h
    refine ((scans_separated hne hitems (breaks_cons (by decide))).both
      (Scans.symbol (s := .rightParen) rfl)).mono ?_
    rintro _ ⟨w, _, rfl, ⟨xs, hxs, hw⟩, t, rfl, ht⟩
    exact ⟨xs, t, w, rfl, ht, hxs, .inr fun after => hw _ (settled_cons ht rfl)⟩

theorem placeLevel_le (nested : Bool) : placeLevel nested ≤ 9 := by
  cases nested <;> decide

mutual

/-- The text of an expression is read as the same expression again. -/
theorem scans (nested : Bool) : (e : Expr) → e.Writable → ∀ {last rest}, Breaks rest →
    Scans last (e.sourceIn nested).toList (e.Rereads (placeLevel nested)) .token rest
  | .atom a s, h, _, _, hrest => by
    rw [sourceIn]
    refine (Atom.scans h hrest).mono ?_
    rintro _ ⟨t, rfl, ht⟩
    exact ⟨.atom a.reread t.span, rfl, fun after => .leaf ht⟩
  | .unary op operand s, h, _, _, hrest => by
    rw [sourceIn]
    refine scans_parenthesized nested (fun {last rest} hrest => ?_) hrest
    obtain ⟨c, w, hcw, hc⟩ := operand.sourceIn_head h
    have hhead : ((operand.sourceIn true).toList ++ rest).head? ≠ some '=' := by simp [hcw, hc]
    rw [String.toList_append]
    refine ((Scans.unary op hhead).both (scans true operand h hrest)).mono ?_
    rintro _ ⟨_, w, rfl, ⟨t, rfl, ht⟩, x, hx, hw⟩
    refine ⟨.unary op x t.span, by rw [Expr.map, Expr.map, hx]; rfl, fun after => ?_⟩
    exact .unary (by decide) ht ((hw after).weaken (by decide))
  | .binary op left right, h, _, _, hrest => by
    rw [sourceIn]
    refine scans_parenthesized nested (fun hrest => ?_) hrest
    simp only [String.toList_append, List.append_assoc]
    refine ((scans true left h.1 (breaks_cons (by decide))).both
      (.blank ((Scans.binary op).both (.blank (scans true right h.2 hrest))))).mono ?_
    rintro _ ⟨w₁, _, rfl, ⟨x, hx, hw₁⟩, _, w₂, rfl, ⟨t, rfl, ht⟩, y, hy, hw₂⟩
    refine ⟨.binary op x y, by rw [Expr.map, Expr.map, hx, hy], fun after => ?_⟩
    simp only [List.append_assoc, List.cons_append, List.nil_append]
    have hlt : op.level < placeLevel true := Nat.lt_of_le_of_lt op.level_bounds.2 (by decide)
    exact .binary (Nat.le_trans (by decide) op.level_bounds.1) ((hw₁ _).weaken hlt.le) ht
      ((hw₂ after).weaken hlt)
  | .assign op target value, h, _, _, hrest => by
    rw [sourceIn]
    refine scans_parenthesized nested (fun hrest => ?_) hrest
    simp only [String.toList_append, List.append_assoc]
    refine ((scans true target h.1 (breaks_cons (by decide))).both
      (.blank ((Scans.assign op).both (.blank (scans true value h.2 hrest))))).mono ?_
    rintro _ ⟨w₁, _, rfl, ⟨x, hx, hw₁⟩, _, w₂, rfl, ⟨t, rfl, ht⟩, y, hy, hw₂⟩
    refine ⟨.assign op x y, by rw [Expr.map, Expr.map, hx, hy], fun after => ?_⟩
    simp only [List.append_assoc, List.cons_append, List.nil_append]
    exact .assign (by decide) ((hw₁ _).weaken (by decide)) ht ((hw₂ after).weaken (by decide))
  | .logic op left right, h, _, _, hrest => by
    rw [sourceIn]
    refine scans_parenthesized nested (fun hrest => ?_) hrest
    simp only [String.toList_append, List.append_assoc]
    refine ((scans true left h.1 (breaks_cons (by decide))).both
      (.blank ((scans_logic op (breaks_cons (by decide))).both
        (.blank (scans true right h.2 hrest))))).mono ?_
    rintro _ ⟨w₁, _, rfl, ⟨x, hx, hw₁⟩, _, w₂, rfl, ⟨t, rfl, ht⟩, y, hy, hw₂⟩
    refine ⟨.logic op x y, by rw [Expr.map, Expr.map, hx, hy], fun after => ?_⟩
    simp only [List.append_assoc, List.cons_append, List.nil_append]
    have hlt : op.level < placeLevel true := Nat.lt_of_le_of_lt op.level_bounds.2 (by decide)
    exact .logic (Nat.le_trans (by decide) op.level_bounds.1) ((hw₁ _).weaken hlt.le) ht
      ((hw₂ after).weaken hlt)
  | .call callee args s, h, _, _, hrest => by
    have hargs := scansAll args h.2
    rw [sourceIn, sources_eq]
    simp only [String.toList_append, List.append_assoc]
    refine ((scans true callee h.1 (breaks_cons (by decide))).both
      ((Scans.symbol (s := .leftParen) rfl).both
        (scans_arguments hargs))).mono ?_
    rintro _ ⟨w₁, _, rfl, ⟨x, hx, hw₁⟩, _, _, rfl, ⟨t, rfl, ht⟩, xs, t', w₂, rfl, ht', hxs, hw₂⟩
    refine ⟨.call x xs t'.span, by rw [Expr.map, Expr.map, mapAll_eq, mapAll_eq, hx, hxs]; rfl,
      fun after => ?_⟩
    simp only [List.append_assoc, List.cons_append, List.nil_append]
    obtain ⟨rfl, rfl⟩ | hw₂ := hw₂
    · exact .callNone (placeLevel_le nested) (hw₁ _) ht ht'
    · exact .call (placeLevel_le nested) (hw₁ _) ht (phrases_iff.2 (hw₂ after)) ht'
  | .iif condition yes no s, h, _, _, hrest => by
    have hword : "IIF(".toList = "IIF".toList ++ ['('] := rfl
    rw [sourceIn]
    simp only [String.toList_append, List.append_assoc, hword]
    refine ((Scans.reserved "IIF" rfl rfl (breaks_cons (by decide))).both
      ((Scans.symbol (s := .leftParen) rfl).both
      ((scans false condition h.1 (breaks_cons (by decide))).both
      ((Scans.symbol (s := .comma) rfl).both (.blank
      ((scans false yes h.2.1 (breaks_cons (by decide))).both
      ((Scans.symbol (s := .comma) rfl).both (.blank
      ((scans false no h.2.2 (breaks_cons (by decide))).both
      (Scans.symbol (s := .rightParen) rfl)))))))))).mono ?_
    rintro _ ⟨_, _, rfl, ⟨t, rfl, ht⟩, _, _, rfl, ⟨t₀, rfl, ht₀⟩, w₁, _, rfl, ⟨x, hx, hw₁⟩,
      _, _, rfl, ⟨t₁, rfl, ht₁⟩, w₂, _, rfl, ⟨y, hy, hw₂⟩,
      _, _, rfl, ⟨t₂, rfl, ht₂⟩, w₃, _, rfl, ⟨z, hz, hw₃⟩, t₃, rfl, ht₃⟩
    refine ⟨.iif x y z (t.span.merge t₃.span), by rw [Expr.map, Expr.map, hx, hy, hz]; rfl,
      fun after => ?_⟩
    simp only [List.append_assoc, List.cons_append, List.nil_append]
    exact .iif ht ht₀ (hw₁ _) ht₁ (hw₂ _) ht₂ (hw₃ _) ht₃

theorem scansAll : (es : List Expr) → AllWritable es → ∀ e ∈ es, ∀ {last rest}, Breaks rest →
    Scans last e.source.toList (e.Rereads 1) .token rest
  | [], _, _, he => by cases he
  | e :: es, h, x, hx => by
    cases hx with
    | head => exact scans false e h.1
    | tail _ hx => exact scansAll es h.2 x hx

end

end Expr

end Xbase
