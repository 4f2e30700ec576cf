import Xbase.Proofs.Eval.Places
import Xbase.Proofs.Program.Atoms
import Xbase.Proofs.Program.RoundTrip

/-!
# What the text of a program means

The text of a program is read as the same program again, and so it means the same
(`source_meaning`). Only a number too large for its format makes a difference: it is infinite, its
text is the word `inf`, and that is read as a name (`source_of_infinite`).
-/

namespace Xbase

open Grammar

/-! ## Numbers that are too large -/

/-- A numeral by itself is a program. -/
theorem parse_numeral {ds : List Char} (hne : ds ≠ []) (hd : ∀ c ∈ ds, c.isDigit = true) :
    ∃ span, parse (String.ofList ds) =
      .ok ⟨[.expr (.atom (.number (Number.ofDigits false ds [] 0)) span)], []⟩ := by
  have hdigits : ∀ c ∈ ds ++ [], c.isDigit = true := by rwa [List.append_nil]
  have hnumeral : Number.numeral ds [] = ds := by rw [Number.numeral, if_pos rfl, List.append_nil]
  have hread := Number.ofText?_numeral hne hdigits
  have hscan : Scans .start (Number.numeral ds [])
      (SingleText .number (String.ofList (Number.numeral ds []))) .token [] :=
    Scans.number hne hdigits (by simp [Breaks])
  rw [hnumeral] at hread hscan
  rw [← String.toList_ofList (l := ds), String.ofList_toList] at hscan
  obtain ⟨⟨t, htokens, hk, hlexeme⟩, hfault⟩ := hscan.ofText
  rw [← hlexeme] at hread
  refine ⟨t.span, parse_of_stmts ?_ hfault⟩
  rw [htokens]
  exact .cons (.expr ⟨.leaf (.number hk hread), rfl⟩) .absent .nil

/-- A one with many zeros behind it is infinite. -/
theorem ofDigits_large {k : Nat} (hk : 367 ≤ k) :
    Number.ofDigits false ('1' :: List.replicate k '0') [] 0 = Number.infinity false := by
  have hvalue : Number.digitsValue ('1' :: List.replicate k '0') = 1 * 10 ^ k :=
    Number.digitsValue_zeros ['1'] k
  have hrounded : Decimal.roundedBits 1 (0 + k) = Number.infinityBits := by
    have hlog : Nat.log2 1 = 0 := by decide
    rw [Decimal.roundedBits, if_neg Nat.one_ne_zero, if_pos (by omega), if_pos (by omega)]
  have hbits : Decimal.bits ⟨1, 0 + k⟩ = Number.infinityBits := by
    rw [Decimal.bits, Decimal.normalize, dif_neg fun h => absurd h.2 (show 1 % 10 ≠ 0 by decide)]
    exact hrounded
  have hexponent : (0 : Int) - ([] : List Char).length = 0 := rfl
  rw [Number.ofDigits, List.append_nil, hvalue, hexponent, Number.ofDecimal, Decimal.bits_mul_pow,
    hbits]
  rfl

/-! ## The text of a program -/

theorem Program.writable_of_parse {text : String} {parsed : Parsed} (h : parse text = .ok parsed) :
    parsed.program.Writable := by
  obtain ⟨-, rfl⟩ := parse_ok h
  exact parsed_writable text

theorem Atom.reread_of_finite {a : Atom} (h : a ≠ .number (Number.infinity false)) :
    a.reread = a := by
  cases a with
  | number n => exact if_neg fun hn => h (congrArg Atom.number hn)
  | _ => rfl

/-- The source text of what was read from a text without errors is read without errors, and what
comes back cannot be told apart from what was read, unless there is a number in it that is infinite.
Such a number becomes the name `inf`. -/
theorem source_meaning {text : String} {p : Program} (h : parse text = .ok ⟨p, []⟩) :
    ∃ p', parse p.source = .ok ⟨p', []⟩ ∧ p'.Alike (p.map Atom.reread id) ∧
      (.number (Number.infinity false) ∉ p.atoms → p'.Alike p ∧ ∀ scope m,
        ((∃ fuel, (Eval.program fuel scope p' m).1 ≠ .outOfFuel) ↔
          ∃ fuel, (Eval.program fuel scope p m).1 ≠ .outOfFuel)) := by
  obtain ⟨p', -, hparse, hmap⟩ := Program.reread (Program.writable_of_parse h)
  have hplaces : (p.map Atom.reread id).map id noPlace = p.map Atom.reread noPlace :=
    Statement.mapAll_map ..
  refine ⟨p', hparse, Program.alike_of_map (hmap.trans hplaces.symm), fun hfinite => ?_⟩
  have hsame : p.map Atom.reread noPlace = p.map id noPlace :=
    Program.map_congr fun a ha => Atom.reread_of_finite fun hinf => hfinite (hinf ▸ ha)
  have halike := Program.alike_of_map (hmap.trans hsame)
  exact ⟨halike, halike.terminates⟩

/-- A sign and a sum, a string and a name. -/
theorem source_meaning_case :
    ∃ p p' : Program, parse "? -(1.5 + x), 'it'" = .ok ⟨p, []⟩ ∧
      .number (Number.infinity false) ∉ p.atoms ∧ parse p.source = .ok ⟨p', []⟩ ∧ p'.Alike p := by
  have hfault : (TokenStream.ofText "? -(1.5 + x), 'it'").fault = none := by cbv
  have herrors : (Parser.program (.ofStream (.ofText "? -(1.5 + x), 'it'"))).2.errors = [] := by cbv
  have hparse := parse_of_fault_none hfault
  rw [herrors] at hparse
  have hfinite : .number (Number.infinity false) ∉
      Program.atoms ((Parser.program (.ofStream (.ofText "? -(1.5 + x), 'it'"))).1.getD []) :=
    of_decide_eq_true (by cbv)
  obtain ⟨p', hparse', -, hsame⟩ := source_meaning hparse
  exact ⟨_, p', hparse, hfinite, hparse', (hsame hfinite).1⟩

/-- A text and its source text that do not mean the same: the one ends with a number, and the other
in a fault. -/
theorem source_of_infinite :
    ∃ p p' : Program,
      parse (String.ofList ('1' :: List.replicate 400 '0')) = .ok ⟨p, []⟩ ∧
      parse p.source = .ok ⟨p', []⟩ ∧
      (∀ fuel, Eval.program (fuel + 2) 0 p ⟨Store.empty.newGlobal.2, ""⟩ =
        (.ok (.number (Number.infinity false)), ⟨Store.empty.newGlobal.2, ""⟩)) ∧
      (∀ fuel, (Eval.program (fuel + 2) 0 p' ⟨Store.empty.newGlobal.2, ""⟩).1.map
        (Value.map noPlace) noPlace = .error ⟨.undefinedVariable "inf", ⟨0, 0⟩⟩) ∧
      ¬ p'.Alike p := by
  have hdigits : ∀ c ∈ '1' :: List.replicate 400 '0', c.isDigit = true := by
    intro c hc
    obtain rfl | hc := List.mem_cons.mp hc
    · rfl
    · rw [List.eq_of_mem_replicate hc]
      rfl
  obtain ⟨span, hparse⟩ := parse_numeral (List.cons_ne_nil _ _) hdigits
  rw [ofDigits_large (by decide)] at hparse
  obtain ⟨p', -, hparse', hmap⟩ := Program.reread (Program.writable_of_parse hparse)
  have hname : Program.map Atom.reread noPlace
      [.expr (.atom (.number (Number.infinity false)) span)] =
        Program.map id noPlace [.expr (.atom (.name "inf") ⟨0, 0⟩)] := rfl
  have halike := Program.alike_of_map (hmap.trans hname)
  have hvalue (fuel : Nat) : Eval.program (fuel + 2) 0
      [.expr (.atom (.number (Number.infinity false)) span)] ⟨Store.empty.newGlobal.2, ""⟩ =
        (.ok (.number (Number.infinity false)), ⟨Store.empty.newGlobal.2, ""⟩) := rfl
  have hfault (fuel : Nat) : (Eval.program (fuel + 2) 0 p' ⟨Store.empty.newGlobal.2, ""⟩).1.map
      (Value.map noPlace) noPlace = .error ⟨.undefinedVariable "inf", ⟨0, 0⟩⟩ := by
    rw [halike.outcome]
    cbv
  refine ⟨_, p', hparse, hparse', hvalue, hfault, fun hsame => ?_⟩
  have houtcome := hsame.outcome 2 0 ⟨Store.empty.newGlobal.2, ""⟩
  rw [hfault 0, hvalue 0] at houtcome
  cases houtcome

end Xbase
