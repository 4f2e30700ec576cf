import Xbase.Proofs.Number.Text
import Xbase.Text.Quoted

/-!
# Quoted texts can be told apart

Between quotation marks every character has its own form, which does not depend on what stands
around it: itself, a backslash and a letter, or its code point between braces. No form is the start
of another one, so the forms of several characters in a row can be told apart
(`escapes_append_inj`), and with the closing mark it is known where a quoted text ends
(`quote_append_inj`).
-/

namespace Xbase.Text

/-- Where a run of characters ends is known from what follows. -/
theorem run_append_inj {p : Char → Bool} {w w' x x' : List Char} (hw : ∀ c ∈ w, p c = true)
    (hw' : ∀ c ∈ w', p c = true) (hx : ∀ c ∈ x.head?, p c = false)
    (hx' : ∀ c ∈ x'.head?, p c = false) (h : w ++ x = w' ++ x') : w = w' ∧ x = x' := by
  obtain ⟨htake, hdrop⟩ := takeWhile_run hw hx
  rw [h, (takeWhile_run hw' hx').1] at htake
  rw [h, (takeWhile_run hw' hx').2] at hdrop
  exact ⟨htake.symm, hdrop.symm⟩

/-! ## Code points -/

theorem digitChar_inj {m n : Nat} (hm : m < 16) (hn : n < 16)
    (h : Nat.digitChar m = Nat.digitChar n) : m = n := by
  have hall : ∀ m < 16, ∀ n < 16, Nat.digitChar m = Nat.digitChar n → m = n := by decide
  exact hall m hm n hn h

/-- A number is known by its hexadecimal digits. -/
theorem toDigits_inj {m n : Nat} (h : Nat.toDigits 16 m = Nat.toDigits 16 n) : m = n := by
  have hone (k : Nat) (c d : Char) : [c] ≠ Nat.toDigits 16 k ++ [d] := by
    intro heq
    have hpos : 0 < (Nat.toDigits 16 k).length := Nat.length_toDigits_pos
    have hlength := congrArg List.length heq
    rw [List.length_append] at hlength
    simp only [List.length_cons, List.length_nil] at hlength
    omega
  induction m using Nat.strongRecOn generalizing n with
  | ind m ih =>
    rw [Nat.toDigits_eq_if (by decide), Nat.toDigits_eq_if (n := n) (by decide)] at h
    by_cases hm : m < 16 <;> by_cases hn : n < 16
    · rw [if_pos hm, if_pos hn] at h
      exact digitChar_inj hm hn (List.cons.inj h).1
    · rw [if_pos hm, if_neg hn] at h
      exact absurd h (hone _ _ _)
    · rw [if_neg hm, if_pos hn] at h
      exact absurd h.symm (hone _ _ _)
    · rw [if_neg hm, if_neg hn] at h
      obtain ⟨hmore, hlast⟩ := List.append_inj' h rfl
      have hdiv := ih (m / 16) (by omega) hmore
      have hmod := digitChar_inj (Nat.mod_lt m (by decide)) (Nat.mod_lt n (by decide))
        (List.cons.inj hlast).1
      omega

/-- The brace that closes a code point is no digit. -/
theorem brace_not_mem_toDigits (n : Nat) : '\x7d' ∉ Nat.toDigits 16 n := by
  induction n using Nat.strongRecOn with
  | ind n ih =>
    rw [Nat.toDigits_eq_if (by decide)]
    split
    · simp
    · rw [List.mem_append, not_or]
      exact ⟨ih (n / 16) (by omega), by simp⟩

/-! ## Forms of characters -/

/-- The letter that stands behind a backslash for a character. -/
def letter? (c : Char) : Option Char :=
  if c = '\x00' then some '0'
  else if c = '\t' then some 't'
  else if c = '\r' then some 'r'
  else if c = '\n' then some 'n'
  else if c = '\\' then some '\\'
  else if c = '"' then some '"'
  else none

/-- The character that a letter behind a backslash stands for. -/
def ofLetter : Char → Char
  | '0' => '\x00'
  | 't' => '\t'
  | 'r' => '\r'
  | 'n' => '\n'
  | d => d

theorem ofLetter_of_letter? {c d : Char} (h : letter? c = some d) : ofLetter d = c ∧ d ≠ 'u' := by
  unfold letter? at h
  repeat' split at h
  all_goals cases h
  all_goals simp_all [ofLetter]

/-- The forms of a character between quotation marks. -/
inductive Form : (c : Char) → (form : List Char) → Prop
  | self {c : Char} (hb : c ≠ '\\') (hm : c ≠ '"') : Form c [c]
  | letter {c d : Char} (h : letter? c = some d) : Form c ['\\', d]
  | code {c : Char} :
      Form c ('\\' :: 'u' :: '\x7b' :: (Nat.toDigits 16 c.toNat ++ ['\x7d']))

theorem form_escapeChar (c : Char) : Form c (escapeChar '"' c).toList := by
  unfold escapeChar
  split
  · next h => exact .letter (d := '0') (by rw [h]; rfl)
  split
  · next h => exact .letter (d := 't') (by rw [h]; rfl)
  split
  · next h => exact .letter (d := 'r') (by rw [h]; rfl)
  split
  · next h => exact .letter (d := 'n') (by rw [h]; rfl)
  split
  · next h => exact .letter (d := '\\') (by rw [h]; rfl)
  split
  · next h =>
    rw [h]
    exact .letter (d := '"') rfl
  split
  · have hcode : (codePointEscape c).toList =
        "\\u\x7b".toList ++ Nat.toDigits 16 c.toNat ++ "\x7d".toList := by
      rw [codePointEscape, String.toList_append, String.toList_append,
        String.toList_ofList (l := Nat.toDigits 16 c.toNat)]
    rw [hcode]
    exact .code
  · next hb hm _ =>
    rw [String.toList_singleton]
    exact .self hb hm

/-- No form is the start of another one, and no two characters have the same. -/
theorem Form.append_inj {c c' : Char} {w w' x x' : List Char} (h : Form c w) (h' : Form c' w')
    (heq : w ++ x = w' ++ x') : c = c' ∧ x = x' := by
  cases h with
  | self hb hm =>
    cases h' with
    | self hb' hm' => exact List.cons.inj heq
    | letter h' | code => exact absurd (List.cons.inj heq).1 hb
  | @letter d h =>
    cases h' with
    | self hb' hm' => exact absurd (List.cons.inj heq).1.symm hb'
    | @letter d' h' =>
      obtain ⟨-, hd⟩ := List.cons.inj heq
      obtain ⟨rfl, rfl⟩ := List.cons.inj hd
      exact ⟨(ofLetter_of_letter? h).1.symm.trans (ofLetter_of_letter? h').1, rfl⟩
    | code =>
      obtain ⟨-, hd⟩ := List.cons.inj heq
      exact absurd (List.cons.inj hd).1 (ofLetter_of_letter? h).2
  | code =>
    cases h' with
    | self hb' hm' => exact absurd (List.cons.inj heq).1.symm hb'
    | letter h' =>
      obtain ⟨-, hd⟩ := List.cons.inj heq
      exact absurd (List.cons.inj hd).1.symm (ofLetter_of_letter? h').2
    | code =>
      simp only [List.cons_append, List.append_assoc, List.cons.injEq, true_and,
        List.nil_append] at heq
      -- The digits end at the first brace.
      have hrun (n : Nat) : ∀ d ∈ Nat.toDigits 16 n, (d != '\x7d') = true := fun d hd =>
        bne_iff_ne.2 fun hbrace => brace_not_mem_toDigits n (hbrace ▸ hd)
      obtain ⟨hdigits, hx⟩ := run_append_inj (hrun _) (hrun _) (by simp) (by simp) heq
      exact ⟨Char.toNat_inj.1 (toDigits_inj hdigits), (List.cons.inj hx).2⟩

/-- No form starts with the mark that ends the text. -/
theorem Form.head_ne {c : Char} {w x y : List Char} (h : Form c w) : w ++ x ≠ '"' :: y := by
  cases h with
  | self hb hm => exact fun heq => hm (List.cons.inj heq).1
  | letter h | code => exact fun heq => by cases (List.cons.inj heq).1

/-- Texts in front of a closing mark can be told apart. -/
theorem escapes_append_inj {cs cs' : List Char} {x x' : List Char}
    (h : cs.flatMap (fun c => (escapeChar '"' c).toList) ++ '"' :: x =
      cs'.flatMap (fun c => (escapeChar '"' c).toList) ++ '"' :: x') : cs = cs' ∧ x = x' := by
  induction cs generalizing cs' with
  | nil =>
    cases cs' with
    | nil => exact ⟨rfl, (List.cons.inj h).2⟩
    | cons c' cs' =>
      rw [List.flatMap_cons, List.append_assoc] at h
      exact absurd h.symm (form_escapeChar c').head_ne
  | cons c cs ih =>
    rw [List.flatMap_cons, List.append_assoc] at h
    cases cs' with
    | nil => exact absurd h (form_escapeChar c).head_ne
    | cons c' cs' =>
      rw [List.flatMap_cons, List.append_assoc] at h
      obtain ⟨rfl, hmore⟩ := (form_escapeChar c).append_inj (form_escapeChar c') h
      obtain ⟨rfl, hx⟩ := ih hmore
      exact ⟨rfl, hx⟩

theorem toList_quote (s : String) : (quote s).toList =
    '"' :: (s.toList.flatMap (fun c => (escapeChar '"' c).toList) ++ ['"']) := by
  rw [quote, String.toList_append, String.toList_append, String.toList_join, List.flatMap_map]
  rfl

/-- It is known where a quoted text ends and what it stands for. -/
theorem quote_append_inj {s s' : String} {x x' : List Char}
    (h : (quote s).toList ++ x = (quote s').toList ++ x') : s = s' ∧ x = x' := by
  rw [toList_quote, toList_quote, List.cons_append, List.cons_append, List.append_assoc,
    List.append_assoc] at h
  obtain ⟨hs, hx⟩ := escapes_append_inj (List.cons.inj h).2
  exact ⟨String.toList_inj.1 hs, hx⟩

end Xbase.Text
