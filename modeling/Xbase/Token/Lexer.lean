import Xbase.Token.Piece

/-!
# From text to tokens

`Lexer.step` takes the next piece off the text and makes its token, if it makes one; `Lexer.next`
skips to the next token or fault; `Lexer.stream` collects all tokens up to the end or the first
fault.

A line break makes a token only if a token stands before it, with nothing but blanks and comments
between the two. After another line break, after a semicolon and at the start of the source it is
skipped.
-/

namespace Xbase

/-! ## Places -/

/-- A place in a text: its byte offset, its line and its column. Lines and columns are counted in 32
bits, and the one behind the last that fits is 0. -/
structure Position where
  offset : Nat
  line : UInt32
  col : UInt32
deriving DecidableEq

namespace Position

/-- The place before the first character. -/
def start : Position := ⟨0, 1, 1⟩

/-- The place behind one more character. -/
def step (p : Position) (c : Char) : Position :=
  if c = '\n' then ⟨p.offset + 1, p.line + 1, 1⟩ else ⟨p.offset + c.utf8Size, p.line, p.col + 1⟩

/-- The place behind some more text. -/
def advance (p : Position) (text : List Char) : Position :=
  text.foldl step p

end Position

/-! ## The lexer -/

/-- What stands before the place of the lexer, blanks and comments apart. -/
inductive Boundary where
  | start
  | newline
  | semicolon
  | token
deriving DecidableEq

/-- A text that is being cut into tokens. -/
structure Lexer where
  rest : List Char
  pos : Position
  last : Boundary
deriving DecidableEq

namespace Lexer

def ofText (text : String) : Lexer :=
  ⟨text.toList, .start, .start⟩

/-- The token that marks the end of the source. -/
def endToken (lx : Lexer) : Token :=
  ⟨.endOfFile, "", .ofBounds lx.pos.offset lx.pos.offset, lx.pos.line, lx.pos.col⟩

/-- What a piece makes of the text before it: the token or fault, if there is one, and what then
stands before the next piece. -/
def emit (pos : Position) (last : Boundary) (text : List Char) :
    Piece → Option (Except LexError Token) × Boundary
  | .skipped => (none, last)
  | .semicolon => (none, .semicolon)
  | .newline =>
    if last = .token then (some (.ok (place .newline (String.ofList text))), .newline)
    else (none, last)
  | .token kind => (some (.ok (place kind (String.ofList text))), .token)
  | .word =>
    let lexeme := String.ofList (text.map Char.toLower)
    (some (.ok (place (.ofWord lexeme) lexeme)), .token)
  | .fault f => (some (.error ⟨f, span, pos.line, pos.col⟩), last)
where
  /-- The bytes of the piece. -/
  span : Span := .ofBounds pos.offset (pos.advance text).offset
  /-- A token in the place of the piece. -/
  place (kind : Kind) (lexeme : String) : Token := ⟨kind, lexeme, span, pos.line, pos.col⟩

/-- Takes the next piece off the text; at the end there is none. -/
def step (lx : Lexer) : Option (Option (Except LexError Token) × Lexer) :=
  match lx.rest with
  | [] => none
  | c :: cs =>
    let (kind, count) := piece c cs
    let text := c :: cs.take (count - 1)
    let (item, last) := emit lx.pos lx.last text kind
    some (item, ⟨cs.drop (count - 1), lx.pos.advance text, last⟩)

theorem step_length_lt {lx lx' : Lexer} {item : Option (Except LexError Token)}
    (h : lx.step = some (item, lx')) : lx'.rest.length < lx.rest.length := by
  unfold step at h
  split at h
  · cases h
  · rename_i c cs hr
    obtain ⟨_, rfl⟩ := Prod.mk.inj (Option.some.inj h)
    simp only [hr, List.length_drop, List.length_cons]
    omega

/-- The next token or fault, and the lexer behind it. At the end it stays at the end. -/
def next (lx : Lexer) : Except LexError Token × Lexer :=
  match _h : lx.step with
  | none => (.ok lx.endToken, lx)
  | some (some item, lx') => (item, lx')
  | some (none, lx') => next lx'
termination_by lx.rest.length
decreasing_by exact step_length_lt (by assumption)

end Lexer

/-! ## Token streams -/

/-- The tokens of a text up to its end or its first fault. -/
structure TokenStream where
  tokens : List Token
  /-- The end of the source; behind a fault it stands in the place of the fault. -/
  stop : Token
  fault : Option LexError
deriving DecidableEq

/-- The end of the source in the place of a fault. -/
def LexError.endToken (e : LexError) : Token :=
  ⟨.endOfFile, "", e.span, e.line, e.col⟩

/-- All tokens from the place of the lexer on. -/
def Lexer.stream (lx : Lexer) : TokenStream :=
  match _h : lx.step with
  | none => ⟨[], lx.endToken, none⟩
  | some (some (.error e), _) => ⟨[], e.endToken, some e⟩
  | some (some (.ok token), lx') =>
    let more := stream lx'
    { more with tokens := token :: more.tokens }
  | some (none, lx') => stream lx'
termination_by lx.rest.length
decreasing_by all_goals exact step_length_lt (by assumption)

/-- The tokens of a text. -/
def TokenStream.ofText (text : String) : TokenStream :=
  (Lexer.ofText text).stream

end Xbase
