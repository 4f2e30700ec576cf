import Xbase.Proofs.Grammar.Expr
import Xbase.Proofs.Number.Text
import Xbase.Proofs.Token.Lexical

/-!
# Scanning a text from left to right

`Scans last text R last' rest`: with `rest` behind it, the text is cut into tokens for which `R`
holds; `last` and `last'` are what stands before the text and at its end.

Words and numbers go on as long as they can, so they must be followed by a character that ends them
(`Breaks`). All that is known of a token is its kind and, where it matters, its text: the places of
tokens depend on what stands before them, and no statement here mentions them.
-/

namespace Xbase

/-- The stream with some more tokens in front. -/
def TokenStream.behind (ts : TokenStream) (tokens : List Token) : TokenStream :=
  { ts with tokens := tokens ++ ts.tokens }

/-- With `rest` behind it, `text` is cut into tokens for which `R` holds. -/
def Scans (last : Boundary) (text : List Char) (R : List Token → Prop) (last' : Boundary)
    (rest : List Char) : Prop :=
  ∀ pos, ∃ tokens pos', R tokens ∧
    (⟨text ++ rest, pos, last⟩ : Lexer).stream = (⟨rest, pos', last'⟩ : Lexer).stream.behind tokens

/-- A single token of the given kind. -/
def Single (k : Kind) (ts : List Token) : Prop :=
  ∃ t, ts = [t] ∧ t.kind = k

/-- A single token of the given kind with the given text. -/
def SingleText (k : Kind) (text : String) (ts : List Token) : Prop :=
  ∃ t, ts = [t] ∧ t.kind = k ∧ t.lexeme = text

/-- Tokens for which `R₁` holds, and then tokens for which `R₂` holds. -/
def Both (R₁ R₂ : List Token → Prop) (ts : List Token) : Prop :=
  ∃ a b, ts = a ++ b ∧ R₁ a ∧ R₂ b

theorem SingleText.single {k : Kind} {text : String} {ts : List Token} (h : SingleText k text ts) :
    Single k ts := by
  obtain ⟨t, ht, hk, -⟩ := h
  exact ⟨t, ht, hk⟩

namespace Scans

variable {last mid last' : Boundary} {text t₁ t₂ rest : List Char} {R R₁ R₂ : List Token → Prop}

theorem mono (h : Scans last text R₁ last' rest) (hR : ∀ ts, R₁ ts → R ts) :
    Scans last text R last' rest := by
  intro pos
  obtain ⟨tokens, pos', hr, hrun⟩ := h pos
  exact ⟨tokens, pos', hR tokens hr, hrun⟩

theorem nil (h : R []) : Scans last [] R last rest :=
  fun pos => ⟨[], pos, h, rfl⟩

/-- Two texts side by side. -/
theorem both (h₁ : Scans last t₁ R₁ mid (t₂ ++ rest)) (h₂ : Scans mid t₂ R₂ last' rest) :
    Scans last (t₁ ++ t₂) (Both R₁ R₂) last' rest := by
  intro pos
  obtain ⟨a, pos₁, ha, hrun₁⟩ := h₁ pos
  obtain ⟨b, pos₂, hb, hrun₂⟩ := h₂ pos₁
  refine ⟨a ++ b, pos₂, ⟨a, b, rfl, ha, hb⟩, ?_⟩
  rw [List.append_assoc, hrun₁, hrun₂]
  simp [TokenStream.behind]

/-- A text that makes no tokens may stand in front. -/
theorem skip (h₁ : Scans last t₁ (· = []) mid (t₂ ++ rest)) (h₂ : Scans mid t₂ R last' rest) :
    Scans last (t₁ ++ t₂) R last' rest := by
  refine (h₁.both h₂).mono ?_
  rintro _ ⟨_, b, rfl, rfl, hb⟩
  exact hb

/-! ## Pieces -/

/-- A step takes the piece in front. -/
theorem step_piece {c : Char} {w : List Char} {kind : Piece} (pos : Position) (last : Boundary)
    (h : piece c (w ++ rest) = (kind, w.length + 1)) :
    (⟨c :: w ++ rest, pos, last⟩ : Lexer).step =
      some ((Lexer.emit pos last (c :: w) kind).1,
        ⟨rest, pos.advance (c :: w), (Lexer.emit pos last (c :: w) kind).2⟩) := by
  simp [Lexer.step, h]

/-- A piece that is skipped gives no token. -/
theorem skipped {c : Char} {w : List Char} (h : piece c (w ++ rest) = (.skipped, w.length + 1)) :
    Scans last (c :: w) (· = []) last rest :=
  fun pos => ⟨[], pos.advance (c :: w), rfl, Lexer.stream_skip (step_piece pos last h)⟩

/-- A piece that is a token gives just this one, with its own text. -/
theorem token {c : Char} {w : List Char} {k : Kind}
    (h : piece c (w ++ rest) = (.token k, w.length + 1)) :
    Scans last (c :: w) (SingleText k (String.ofList (c :: w))) .token rest :=
  fun pos => ⟨_, pos.advance (c :: w), ⟨_, rfl, rfl, rfl⟩,
    Lexer.stream_ok (step_piece pos last h)⟩

theorem word_piece {c : Char} {w : List Char} (h : piece c (w ++ rest) = (.word, w.length + 1)) :
    Scans last (c :: w) (SingleText (.ofWord (String.ofList ((c :: w).map Char.toLower)))
      (String.ofList ((c :: w).map Char.toLower))) .token rest :=
  fun pos => ⟨_, pos.advance (c :: w), ⟨_, rfl, rfl, rfl⟩,
    Lexer.stream_ok (step_piece pos last h)⟩

/-- Behind a token, a line break is one. -/
theorem newline : Scans .token ['\n'] (Single .newline) .newline rest := by
  have h : piece '\n' ([] ++ rest) = (.newline, 1) := rfl
  exact fun pos => ⟨_, pos.advance ['\n'], ⟨_, rfl, rfl⟩,
    Lexer.stream_ok (step_piece pos .token h)⟩

/-- Blanks make no tokens. -/
theorem blanks (n : Nat) (h : Scans last text R last' rest) :
    Scans last (List.replicate n ' ' ++ text) R last' rest := by
  induction n with
  | zero => exact h
  | succ n ih =>
    have hblank : Scans last [' '] (· = []) last (List.replicate n ' ' ++ text ++ rest) :=
      skipped (w := []) rfl
    exact hblank.skip ih

/-- A blank in front does not matter. -/
theorem blank (h : Scans last text R last' rest) : Scans last (' ' :: text) R last' rest :=
  blanks 1 h

/-! ## Symbols -/

/-- A symbol that is never the start of a longer one. -/
theorem symbol {c : Char} {s : Symbol} (h : piece c rest = (.token (.symbol s), 1)) :
    Scans last [c] (Single (.symbol s)) .token rest :=
  (token (w := []) h).mono fun _ => SingleText.single

theorem symbol₂ {c c' : Char} {s : Symbol} (h : piece c (c' :: rest) = (.token (.symbol s), 2)) :
    Scans last [c, c'] (Single (.symbol s)) .token rest :=
  (token (w := [c']) h).mono fun _ => SingleText.single

/-- A sign in front of an operand. -/
theorem unary (op : UnaryOp) (h : rest.head? ≠ some '=') :
    Scans last op.sign.toList (Single (.symbol op.symbol)) .token rest := by
  cases op with
  | not =>
    have hp : piece '!' rest = if rest.head? = some '=' then (.token (.symbol .bangEqual), 2)
        else (.token (.symbol .bang), 1) := rfl
    rw [if_neg h] at hp
    exact symbol hp
  | negate =>
    have hp : piece '-' rest = if rest.head? = some '=' then (.token (.symbol .minusEqual), 2)
        else (.token (.symbol .minus), 1) := rfl
    rw [if_neg h] at hp
    exact symbol hp

/-- An operator between blanks. -/
theorem binary (op : BinaryOp) :
    Scans last op.sign.toList (Single (.symbol op.symbol)) .token (' ' :: rest) := by
  cases op with
  | multiply | divide | add | subtract | less | greater => exact symbol rfl
  | lessEqual | greaterEqual | equal | notEqual => exact symbol₂ rfl

/-- An assignment between blanks. -/
theorem assign (op : AssignOp) :
    Scans last op.sign.toList (Single (.symbol op.symbol)) .token (' ' :: rest) := by
  cases op with
  | assign => exact symbol rfl
  | bind | add | subtract | multiply | divide => exact symbol₂ rfl

/-! ## Words and numbers -/

end Scans

namespace Piece

/-- The characters that start a piece other than a word or a number, blanks apart. -/
def specials : List Char :=
  ['\n', ';', '(', ')', '[', ']', '\x7b', '\x7d', ',', '?', '/', '&', ':', '+', '-', '*', '=', '!',
    '<', '>', '.', '\x27', '"', '\x60']

/-- No character of a word starts anything else. -/
theorem not_special {c : Char} (h : isWordPart c = true) : c ∉ specials := by
  have hall : specials.all (fun d => !isWordPart d) = true := rfl
  intro hc
  have hnot := List.all_eq_true.1 hall c hc
  rw [h] at hnot
  cases hnot

theorem not_blank {c : Char} (h : isWordPart c = true) : Text.isBlank c = false := by
  have hb : (48 ≤ c.toNat ∧ c.toNat ≤ 57) ∨ (65 ≤ c.toNat ∧ c.toNat ≤ 90) ∨ c.toNat = 95 ∨
      (97 ≤ c.toNat ∧ c.toNat ≤ 122) := by
    simp only [isWordPart, Char.isAlphanum, Char.isAlpha, Char.isUpper, Char.isLower, Char.isDigit,
      Bool.or_eq_true, Bool.and_eq_true, decide_eq_true_eq, beq_iff_eq, UInt32.le_iff_toNat_le,
      ge_iff_le] at h
    obtain ((h | h) | h) | rfl := h
    · exact .inr (.inl h)
    · exact .inr (.inr (.inr h))
    · exact .inl h
    · decide
  simp only [Text.isBlank, Bool.or_eq_false_iff, Bool.and_eq_false_iff, decide_eq_false_iff_not,
    beq_eq_false_iff_ne]
  omega

theorem isWordStart_part {c : Char} (h : isWordStart c = true) :
    isWordPart c = true ∧ c.isDigit = false := by
  simp only [isWordStart, isWordPart, Char.isAlphanum, Char.isAlpha, Char.isUpper, Char.isLower,
    Char.isDigit, Bool.or_eq_true, Bool.and_eq_true, Bool.and_eq_false_iff, decide_eq_true_eq,
    decide_eq_false_iff_not, beq_iff_eq, UInt32.le_iff_toNat_le, ge_iff_le] at h ⊢
  obtain (h | h) | rfl := h
  · simp at h ⊢
    omega
  · simp at h ⊢
    omega
  · decide

/-- Whether the characters are one word. -/
def isWord : List Char → Bool
  | [] => false
  | c :: w => isWordStart c && w.all isWordPart

/-- What starts with a character that is not special is a number, a word or unknown. -/
theorem piece_plain {c : Char} {rest : List Char} (h : isWordPart c = true) :
    piece c rest = if c.isDigit then (.token .number, numberLength rest + 1)
      else if isWordStart c then (.word, (rest.takeWhile isWordPart).length + 1)
      else (.fault (.unrecognized c), 1) := by
  have hc := not_special h
  simp only [specials, List.mem_cons, List.not_mem_nil, not_or, or_false] at hc
  have hsingle : single? c = none := by
    unfold single?
    split <;> simp_all
  have hoperator : operator? c = none := by
    unfold operator?
    split <;> simp_all
  have hmark : isMark c = false := by simp [isMark, hc]
  simp [piece, hc, not_blank h, hsingle, hoperator, hmark]

end Piece

/-- The text ends a word or a number that stands in front of it. -/
def Breaks (rest : List Char) : Prop :=
  ∀ c ∈ rest.head?, Piece.isWordPart c = false ∧ c ≠ '.'

theorem breaks_cons {c : Char} {rest : List Char} (h : Piece.isWordPart c = false ∧ c ≠ '.') :
    Breaks (c :: rest) := by
  intro d hd
  cases hd
  exact h

namespace Scans

open Piece

variable {last : Boundary} {rest : List Char}

/-- A word is cut whole if what follows breaks it off, and its text is in small letters. -/
theorem word {c : Char} {w : List Char} (hc : isWordStart c = true)
    (hw : ∀ d ∈ w, isWordPart d = true) (hrest : Breaks rest) :
    Scans last (c :: w) (SingleText (.ofWord (String.ofList ((c :: w).map Char.toLower)))
      (String.ofList ((c :: w).map Char.toLower))) .token rest := by
  obtain ⟨hpart, hdigit⟩ := isWordStart_part hc
  refine word_piece ?_
  rw [piece_plain hpart, if_neg (by simp [hdigit]), if_pos hc,
    (Text.takeWhile_run hw fun d hd => (hrest d hd).1).1]

theorem written (word : String) (hword : isWord word.toList = true) (hrest : Breaks rest) :
    Scans last word.toList (SingleText (.ofWord (String.ofList (word.toList.map Char.toLower)))
      (String.ofList (word.toList.map Char.toLower))) .token rest := by
  generalize word.toList = w at hword ⊢
  cases w with
  | nil => cases hword
  | cons c w =>
    rw [isWord, Bool.and_eq_true, List.all_eq_true] at hword
    exact Scans.word hword.1 hword.2 hrest

/-- A reserved word. -/
theorem reserved {k : Kind} (word : String) (hword : isWord word.toList = true)
    (hk : Kind.ofWord (String.ofList (word.toList.map Char.toLower)) = k) (hrest : Breaks rest) :
    Scans last word.toList (Single k) .token rest := by
  rw [← hk]
  exact (Scans.written word hword hrest).mono fun _ => SingleText.single

/-- A name is scanned as that name. -/
theorem name {s : String} (h : IsName s) (hrest : Breaks rest) :
    Scans last s.toList (SingleText .name s) .token rest := by
  obtain ⟨c, w, hcw, hc, hw⟩ := h.word
  have hlower : String.ofList ((c :: w).map Char.toLower) = s := by
    rw [← hcw, h.small, String.ofList_toList]
  have hscan : Scans last _ _ _ _ := Scans.word hc hw hrest
  rw [hlower, h.kind, ← hcw] at hscan
  exact hscan

/-- A numeral is scanned as one number. -/
theorem number {whole fraction : List Char} (hne : whole ≠ [])
    (hd : ∀ c ∈ whole ++ fraction, c.isDigit = true) (hrest : Breaks rest) :
    Scans last (Number.numeral whole fraction)
      (SingleText .number (String.ofList (Number.numeral whole fraction))) .token rest := by
  obtain ⟨c, w, rfl⟩ := List.exists_cons_of_ne_nil hne
  have hc : c.isDigit = true := hd c (by simp)
  have hw : ∀ d ∈ w, d.isDigit = true := fun d h => hd d (by simp [h])
  have hpart : isWordPart c = true := by simp [isWordPart, Char.isAlphanum, hc]
  have hstop : ∀ d ∈ rest.head?, d.isDigit = false := fun d h => by
    have := (hrest d h).1
    simp only [isWordPart, Char.isAlphanum, Bool.or_eq_false_iff] at this
    exact this.1.2
  have hlen : numberLength (w ++ (if fraction = [] then [] else '.' :: fraction) ++ rest) =
      (w ++ if fraction = [] then [] else '.' :: fraction).length := by
    unfold numberLength
    cases fraction with
    | nil =>
      obtain ⟨htake, hdrop⟩ := Text.takeWhile_run hw hstop
      rw [if_pos rfl, List.append_nil, htake, hdrop]
      cases rest with
      | nil => rfl
      | cons d more =>
        have hdot := (hrest d rfl).2
        dsimp only
        split
        · next h => exact absurd (List.cons.inj h).1 hdot
        · rfl
    | cons d ds =>
      have hds : ∀ x ∈ ds, x.isDigit = true := fun x h => hd x (by simp [h])
      obtain ⟨htake, hdrop⟩ := Text.takeWhile_run (r := '.' :: d :: (ds ++ rest)) hw (by simp)
      rw [if_neg (by simp), List.append_assoc, List.cons_append, List.cons_append, htake, hdrop]
      simp only [hd d (by simp), if_true, (Text.takeWhile_run hds hstop).1, List.length_append,
        List.length_cons]
      omega
  rw [Number.numeral, List.cons_append]
  refine token ?_
  rw [piece_plain hpart, if_pos hc, hlen]

/-- A string between marks that do not occur in it is scanned as one token. -/
theorem string {mark : Char} {body : List Char} (hm : isMark mark = true) (hb : mark ∉ body) :
    Scans last (mark :: (body ++ [mark]))
      (SingleText .string (String.ofList (mark :: (body ++ [mark])))) .token rest := by
  have hpiece : piece mark (body ++ [mark] ++ rest) =
      Piece.string mark (body ++ [mark] ++ rest) := by
    simp only [isMark, Bool.or_eq_true, beq_iff_eq] at hm
    obtain (rfl | rfl) | rfl := hm <;> rfl
  have htake : (body ++ [mark] ++ rest).takeWhile (· != mark) = body := by
    rw [List.append_assoc]
    refine (Text.takeWhile_run (fun c hc => ?_) (by simp)).1
    simp only [bne_iff_ne, ne_eq]
    rintro rfl
    exact hb hc
  refine token ?_
  rw [hpiece, Piece.string, htake]
  simp

theorem logical (b : Bool) :
    Scans last (if b then ".T." else ".F.").toList (Single (.logical b)) .token rest := by
  cases b with
  | false => exact (token (w := ['F', '.']) rfl).mono fun _ => SingleText.single
  | true => exact (token (w := ['T', '.']) rfl).mono fun _ => SingleText.single

end Scans

end Xbase
