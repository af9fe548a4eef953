import EntryFlow.Text.Blank

/-!
# Tokens of Java sources

A source is cut into words, numbers, literals and punctuation marks; blanks go, and comments are
kept with the token that follows them. A closing angle bracket is always a token of its own, so that
nested type arguments need no special care. A text with embedded expressions is cut at them.

## Main definitions

* `Token`, `Span`, `tokenize`.
-/

namespace EntryFlow.Java

/-- What a token is. -/
inductive TokenKind where
  /-- An identifier or a keyword. -/
  | word
  | number
  | character
  /-- A string or text block without embedded expressions. -/
  | text
  /-- A string or text block up to its first embedded expression. -/
  | textStart
  /-- The part between two embedded expressions. -/
  | textMiddle
  /-- The part behind the last embedded expression. -/
  | textEnd
  | symbol
  deriving DecidableEq, Repr

/-- A part of the source from one position up to another. -/
structure Span where
  start : Nat
  stop : Nat
  deriving DecidableEq, Repr

/-- A token with the comments before it. -/
structure Token where
  kind : TokenKind
  text : String
  span : Span
  comments : List Span
  deriving Repr

namespace Lexer

/-- Characters that may start a name; beyond ASCII every character but a blank may. -/
def startsName (c : Char) : Bool :=
  c.isAlpha || c = '_' || c = '$' || (128 ≤ c.toNat && !Text.isBlank c)

/-- Characters that may go on with a name. -/
def continuesName (c : Char) : Bool :=
  startsName c || c.isDigit

/-- Punctuation marks of more than one character, longer ones first. -/
def longSymbols : List (List Char) :=
  ["<<=", "...", "->", "::", "++", "--", "&&", "||", "==", "!=", "<=", "<<", "+=", "-=", "*=", "/=",
    "&=", "|=", "^=", "%="].map String.toList

/-- The punctuation mark at the start of a text that is not empty. -/
def symbol (cs : List Char) : List Char :=
  (longSymbols.find? (·.isPrefixOf cs)).getD (cs.take 1)

/-- The length of a number, given whether it is hexadecimal and the character before. -/
def numberLength (hexadecimal : Bool) (before : Char) : List Char → Nat
  | [] => 0
  | c :: cs =>
    let signed := (c = '+' || c = '-') &&
      (if hexadecimal then before = 'p' || before = 'P' else before = 'e' || before = 'E')
    if c.isAlphanum || c = '_' || c = '.' || signed then numberLength hexadecimal c cs + 1 else 0

/-- Whether a text starts with a number. -/
def startsNumber : List Char → Bool
  | '.' :: c :: _ => c.isDigit
  | c :: _ => c.isDigit
  | [] => false

/-- The length of the number at the start of a text. -/
def number (cs : List Char) : Nat :=
  let hexadecimal := ["0x".toList, "0X".toList].any (·.isPrefixOf cs)
  numberLength hexadecimal ' ' cs

/-- The length of a block comment behind its opening. -/
def blockLength : List Char → Nat
  | [] => 0
  | '*' :: '/' :: _ => 2
  | _ :: cs => blockLength cs + 1

/-- The length of the comment at the start of a text, if one stands there. -/
def comment? : List Char → Option Nat
  | '/' :: '/' :: cs => some ((cs.takeWhile (· ≠ '\n')).length + 2)
  | '/' :: '*' :: cs => some (blockLength cs + 2)
  | _ => none

/-- How a piece of a string ends. -/
inductive Ending where
  | closed
  | embedded
  deriving DecidableEq, Repr

/-- The length of a piece of a string or text block up to and with its end, and how it ends. -/
def piece (mark : List Char) (skip : Nat) (acc : Nat) : List Char → Nat × Ending
  | [] => (acc, .closed)
  | c :: cs =>
    match skip with
    | n + 1 => piece mark n (acc + 1) cs
    | 0 =>
      if mark.isPrefixOf (c :: cs) then (acc + mark.length, .closed)
      else if c = '\\' then
        if cs.head? = some '\x7b' then (acc + 2, .embedded) else piece mark 1 (acc + 1) cs
      else piece mark 0 (acc + 1) cs

/-- The length of a character literal behind its opening quote. -/
def characterLength (skip : Nat) : List Char → Nat
  | [] => 0
  | c :: cs =>
    match skip with
    | n + 1 => characterLength n cs + 1
    | 0 =>
      if c = '\'' then 1
      else characterLength (if c = '\\' then 1 else 0) cs + 1

/-- The mark that closes a string which starts here. -/
def markOf (cs : List Char) : List Char :=
  if "\"\"\"".toList.isPrefixOf cs then "\"\"\"".toList else ['"']

/-- A string around an embedded expression: the mark that closes it and the braces that are open in
the expression. -/
structure Embedding where
  mark : List Char
  braces : Nat

/-- The first token of a text that starts with neither a blank nor a comment: its kind, its length
and the strings around what follows. -/
def next (around : List Embedding) (cs : List Char) : TokenKind × Nat × List Embedding :=
  match cs with
  | '"' :: _ =>
    let mark := markOf cs
    match piece mark 0 mark.length (cs.drop mark.length) with
    | (n, .closed) => (.text, n, around)
    | (n, .embedded) => (.textStart, n, ⟨mark, 0⟩ :: around)
  | '\'' :: cs => (.character, characterLength 0 cs + 1, around)
  | c :: _ =>
    if startsName c then (.word, (cs.takeWhile continuesName).length, around)
    else if startsNumber cs then (.number, number cs, around)
    else
      match around with
      | ⟨mark, braces⟩ :: outer =>
        if c = '\x7b' then (.symbol, 1, ⟨mark, braces + 1⟩ :: outer)
        else if c = '\x7d' then
          if braces = 0 then
            match piece mark 0 1 (cs.drop 1) with
            | (n, .closed) => (.textEnd, n, outer)
            | (n, .embedded) => (.textMiddle, n, around)
          else (.symbol, 1, ⟨mark, braces - 1⟩ :: outer)
        else (.symbol, (symbol cs).length, around)
      | [] => (.symbol, (symbol cs).length, around)
  | [] => (.symbol, 0, around)

/-- Cut a text at some position. `fuel` bounds the number of tokens, blanks and comments. -/
def cut (fuel position : Nat) (around : List Embedding) (comments : List Span)
    (acc : List Token) (cs : List Char) : List Token :=
  match fuel with
  | 0 => acc.reverse
  | fuel + 1 =>
    match cs with
    | [] => acc.reverse
    | c :: rest =>
      if Text.isBlank c then cut fuel (position + 1) around comments acc rest
      else
        match comment? cs with
        | some n =>
          cut fuel (position + n) around (⟨position, position + n⟩ :: comments) acc (cs.drop n)
        | none =>
          let (kind, n, around) := next around cs
          let token : Token :=
            ⟨kind, String.ofList (cs.take n), ⟨position, position + n⟩, comments.reverse⟩
          cut fuel (position + n) around [] (token :: acc) (cs.drop n)

end Lexer

/-- The tokens of a source. A byte order mark in front is passed over. -/
def tokenize (source : List Char) : List Token :=
  match source with
  | '\uFEFF' :: cs => Lexer.cut (cs.length + 1) 1 [] [] [] cs
  | cs => Lexer.cut (cs.length + 1) 0 [] [] [] cs

end EntryFlow.Java
