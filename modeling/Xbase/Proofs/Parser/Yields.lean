import Xbase.Proofs.Parser.Run

/-!
# What parsers yield

`Parser.YieldsFrom I p Q`: from a state with the property `I`, every result of `p` satisfies `Q`.
The property has to be one that parsing keeps (`Parser.Steady`), as a property of all tokens that
are left is. Then the statement is closed under sequencing, and a proof about a parser follows its
text.
-/

namespace Xbase.Parser

variable {α β : Type}

/-- Taking tokens off the front and recording errors keeps the property. -/
class Steady (I : ParseState → Prop) : Prop where
  forward : ∀ {s s' : ParseState}, s'.stop = s.stop → s'.rest <:+ s.rest → I s → I s'

/-- From a state with the property `I`, every result of `p` satisfies `Q`, whatever is left unread
or recorded. -/
def YieldsFrom (I : ParseState → Prop) (p : Parser α) (Q : α → Prop) : Prop :=
  ∀ s : ParseState, I s → ∀ a, (p s).1 = some a → Q a

namespace YieldsFrom

variable {I : ParseState → Prop} {p : Parser α} {f : α → Parser β} {R : α → Prop} {Q : β → Prop}

theorem any : YieldsFrom I p fun _ => True := fun _ _ _ _ => trivial

theorem pure {Q : α → Prop} {a : α} (h : Q a) : YieldsFrom I (Pure.pure a) Q := by
  intro s _ b hb
  cases hb
  exact h

theorem fail {Q : α → Prop} : YieldsFrom I (Parser.fail : Parser α) Q := by
  intro s _ b hb
  cases hb

theorem failWith {Q : α → Prop} (fault : SyntaxFault) :
    YieldsFrom I (Parser.failWith fault : Parser α) Q := by
  intro s _ b hb
  cases hb

/-- What the first parser yields may be assumed of the second; the tokens between them keep the
invariant. -/
theorem bind [hI : Steady I] [hp : Forward p] (h : YieldsFrom I p R)
    (hf : ∀ a, R a → YieldsFrom I (f a) Q) : YieldsFrom I (p >>= f) Q := by
  intro s hs b hb
  have hs' : I (p s).2 := hI.forward (hp.stop s) (hp.rest s) hs
  cases hrun : p s with
  | mk a? s₁ =>
    cases a? with
    | none =>
      rw [bind_none hrun] at hb
      cases hb
    | some a =>
      rw [bind_some hrun] at hb
      rw [hrun] at hs'
      exact hf a (h s hs a (by rw [hrun])) s₁ hs' b hb

/-- What the first part gives does not matter. -/
theorem seq [Steady I] [Forward p] (hf : ∀ a, YieldsFrom I (f a) Q) : YieldsFrom I (p >>= f) Q :=
  any.bind fun a _ => hf a

theorem pure_bind {a : α} (h : YieldsFrom I (f a) Q) : YieldsFrom I (Pure.pure a >>= f) Q := h

theorem ite {c : Prop} [Decidable c] {p q : Parser α} {Q : α → Prop} (hp : c → YieldsFrom I p Q)
    (hq : ¬ c → YieldsFrom I q Q) : YieldsFrom I (if c then p else q) Q := by
  split
  · next h => exact hp h
  · next h => exact hq h

/-- An attempt yields nothing, or what the parser yields. -/
theorem attempt (h : YieldsFrom I p R) :
    YieldsFrom I (Parser.attempt p) fun a? => ∀ a, a? = some a → R a := by
  intro s hs a? ha? a ha
  rw [attempt_run] at ha?
  exact h s hs a ((Option.some.inj ha?).trans ha)

/-- A list with commas has a first member, and every member is what the parser of members yields. -/
theorem commaList [Steady I] {Q : α → Prop} [Forward p] (h : YieldsFrom I p Q) (n : Nat) :
    YieldsFrom I (Parser.commaList p n) fun as => as ≠ [] ∧ ∀ a ∈ as, Q a := by
  induction n with
  | zero => exact fail
  | succ n ih =>
    refine h.bind fun a ha => seq fun b => ite (fun _ => ?_) fun _ => ?_
    · exact ih.bind fun as has => pure ⟨by simp, by simpa using ⟨ha, has.2⟩⟩
    · exact pure ⟨by simp, by simpa using ha⟩

theorem commaSeparated [Steady I] {Q : α → Prop} [Forward p] (h : YieldsFrom I p Q) :
    YieldsFrom I (Parser.commaSeparated p) fun as => as ≠ [] ∧ ∀ a ∈ as, Q a :=
  fun s hs => h.commaList s.budget s hs

end YieldsFrom

end Xbase.Parser
