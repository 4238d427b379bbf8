/-
  TwoAddress.Terminal
  ───────────────────
  **TEXT FOR TERMINALS AND FOR FILES.**

  Emphasis in a report is written with control sequences, which a terminal
  obeys and a file should not hold.  `plain` makes a text fit for a file: it
  leaves out every control sequence and every invisible character, whether
  the report or the text quoted in it brought them there.

  A control sequence begins with an escape character; the character after it
  tells its kind:

      [          parameters, up to a character from @ to ~
      ]          a command, up to a bell
      P          a device control string: a header, then its data
      X  ^  _    a string of no further meaning
      a sign     more signs (space to slash), then one last character
      any other  nothing more

  Another escape character begins a new sequence at any point, and a cancel
  or a substitute character breaks off the one there is.
-/

namespace TwoAddress.Terminal

/-! ## §1. Characters. -/

/-- The character that begins a control sequence. -/
def escape : Char := '\x1b'

/-- A control character that moves the cursor as blanks do: tab, line feed,
form feed and carriage return. -/
def isLayout (c : Char) : Bool :=
  c = '\t' || c = '\n' || c = '\x0c' || c = '\r'

/-- The character lies between two others, ends included. -/
def within (lo hi c : Char) : Bool := lo ≤ c && c ≤ hi

/-- The byte that ends a control string occurs in the character's encoding. -/
def holdsTerminator (c : Char) : Bool := (String.utf8EncodeChar c).contains 0x9c

/-! ## §2. Control sequences. -/

/-- Where a character stands with regard to control sequences. -/
inductive Position where
  /-- In no sequence. -/
  | text
  /-- Right after the escape character. -/
  | escaped
  /-- In a sequence of signs that one last character ends. -/
  | signs
  /-- Among the parameters of a sequence. -/
  | parameters
  /-- In a command. -/
  | command
  /-- At the head of a device control string. -/
  | deviceHead
  /-- Among the parameters at the head of a device control string. -/
  | deviceParameters
  /-- Among the signs at the head of a device control string. -/
  | deviceSigns
  /-- In data that a terminator byte ends. -/
  | data
  deriving DecidableEq, Repr

namespace Position

/-- Where the next character stands, if this one does not break the sequence
off. -/
def advance : Position → Char → Position
  | text, _ => text
  | escaped, c =>
      if within ' ' '/' c then signs
      else if c = '[' then parameters
      else if c = ']' then command
      else if c = 'P' then deviceHead
      else if c = 'X' || c = '^' || c = '_' then data
      else if within '0' '~' c then text
      else escaped
  | signs, c => if within '0' '~' c then text else signs
  | parameters, c => if within '@' '~' c then text else parameters
  | command, c => if c = '\x07' then text else command
  | deviceHead, c =>
      if within ' ' '/' c then deviceSigns
      else if within '@' '~' c then data
      else if within '0' '?' c then deviceParameters
      else deviceHead
  | deviceParameters, c =>
      if within ' ' '/' c then deviceSigns
      else if within '<' '~' c then data
      else deviceParameters
  | deviceSigns, c => if within '0' '~' c then data else deviceSigns
  | data, c => if holdsTerminator c then text else data

/-- Where the next character stands. -/
def next (p : Position) (c : Char) : Position :=
  if c = escape then escaped
  else if c = '\x18' || c = '\x1a' then text
  else p.advance c

/-- The character can be seen where it stands.  Layout is seen also within
the sequences that are not strings. -/
def shows : Position → Char → Bool
  | text, c => isLayout c || (' ' ≤ c && c ≠ '\x7f')
  | escaped, c | signs, c | parameters, c => isLayout c
  | _, _ => false

end Position

/-! ## §3. Plain text. -/

/-- The characters that can be seen.  Layout within a sequence suspends it:
what follows is text, and at the next character that cannot be seen the
sequence goes on, unless a character beyond ASCII has ended it. -/
def visible : Position → (suspended : Bool) → List Char → List Char
  | _, _, [] => []
  | p, suspended, c :: rest =>
      if (if suspended then Position.text else p).shows c then
        c :: visible (if c ≤ '\x7f' then p else .text) true rest
      else
        visible (p.next c) false rest

/-- The text without control sequences and invisible characters. -/
def plain (s : String) : String := String.ofList (visible .text false s.toList)

/-! ## §4. Emphasis. -/

/-- What emphasis is for. -/
inductive Emphasis where
  /-- The word that opens a report of failure. -/
  | alarm
  /-- What was wrong in the text given. -/
  | wrong
  /-- What is to be typed as it stands. -/
  | literal
  deriving DecidableEq, Repr

/-- The control sequences that turn an emphasis on. -/
def Emphasis.start : Emphasis → String
  | alarm => "\x1b[1m\x1b[31m"
  | wrong => "\x1b[33m"
  | literal => "\x1b[1m"

/-- The control sequence that turns all emphasis off. -/
def reset : String := "\x1b[0m"

/-- A text with emphasis. -/
def emphasize (e : Emphasis) (s : String) : String := e.start ++ s ++ reset

end TwoAddress.Terminal
