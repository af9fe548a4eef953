import EntryFlow.Java.Token
import EntryFlow.Java.Tree

/-!
# Patterns over tokens

A grammar is given as patterns with ordered choice: an alternative is taken as soon as it matches,
and a repetition goes on as long as it matches. A match builds the syntax trees of what it covers.
Comments go into the smallest node that has tokens on both sides of them.

## Main definitions

* `Pattern`: the patterns over a type of rule names.
* `Pattern.match?`: the trees for the longest match that the order of choice gives, and the rest.
-/

namespace EntryFlow.Java

/-- Patterns over tokens; `ρ` names the rules of a grammar. -/
inductive Pattern (ρ : Type) where
  /-- The empty sequence. -/
  | nothing
  /-- No sequence. -/
  | never
  /-- A word of that text. -/
  | word (text : String)
  /-- A punctuation mark. -/
  | symbol (text : String)
  /-- A word that is not reserved. -/
  | name
  /-- A token of that kind. -/
  | literal (kind : TokenKind)
  | rule (r : ρ)
  | andThen (first second : Pattern ρ)
  | orElse (first second : Pattern ρ)
  | many (p : Pattern ρ)
  /-- Nothing, where the pattern does not match. -/
  | notAhead (p : Pattern ρ)
  /-- What the pattern covers as one node. -/
  | node (kind : Kind) (p : Pattern ρ)
  /-- What the pattern covers in a role. -/
  | inRole (role : Role) (p : Pattern ρ)
  /-- A head and as many links as match. -/
  | chain (head links : Pattern ρ)
  /-- As many links as match behind what comes before. -/
  | grow (links : Pattern ρ)
  /-- One node of what comes before, in the role of a receiver, and of what the pattern covers. -/
  | link (kind : Kind) (p : Pattern ρ)

/-- A tree with its place in the source and the comments before it. -/
structure Part where
  tree : Tree
  span : Span
  comments : List Span

namespace Pattern

variable {ρ : Type}

/-- One pattern after the other. -/
def all (ps : List (Pattern ρ)) : Pattern ρ :=
  ps.foldr andThen nothing

/-- The first of some patterns that matches. -/
def any (ps : List (Pattern ρ)) : Pattern ρ :=
  ps.foldr orElse never

/-- The pattern or nothing. -/
def optional (p : Pattern ρ) : Pattern ρ :=
  orElse p nothing

/-- One or more matches with a separator between them. -/
def separated (separator p : Pattern ρ) : Pattern ρ :=
  andThen p (many (andThen separator p))

/-- Any number of matches with commas between them. -/
def commas (p : Pattern ρ) : Pattern ρ :=
  optional (separated (symbol ",") p)

/-- A grammar: its rules, its reserved words and the source that it reads. -/
structure Grammar (ρ : Type) where
  rules : ρ → Pattern ρ
  reserved : String → Bool

/-- The text of a part of a source. -/
def slice (source : Array Char) (span : Span) : String :=
  String.ofList (source.extract span.start span.stop).toList

/-- The node of a comment. -/
def commentTree (source : Array Char) (span : Span) : Tree :=
  .node .comment none (slice source span) []

/-- The children of a node: the trees of its parts, with the comments between them. -/
def childTrees (source : Array Char) : List Part → List Tree
  | [] => []
  | part :: parts =>
    part.tree :: parts.flatMap fun p => p.comments.map (commentTree source) ++ [p.tree]

/-- The part that is made of several ones; nothing makes no part. -/
def wrap (source : Array Char) (kind : Kind) (parts : List Part) : List Part :=
  match parts.head?, parts.getLast? with
  | some first, some last =>
    let span : Span := ⟨first.span.start, last.span.stop⟩
    [⟨.node kind none (slice source span) (childTrees source parts), span, first.comments⟩]
  | _, _ => []

/-- The part for a single token. -/
def Part.ofToken (kind : Kind) (t : Token) : Part :=
  ⟨.node kind none t.text [], t.span, t.comments⟩

/-- A part in a role. -/
def Part.withRole (r : Role) (p : Part) : Part :=
  { p with tree := p.tree.withRole r }

/-- The first token, if it is of a kind and passes a test. -/
def token? (kind : Kind) (test : Token → Bool) : List Token → Option (List Part × List Token)
  | t :: rest => if test t then some ([Part.ofToken kind t], rest) else none
  | [] => none

/-- Match a pattern at the start of a sequence of tokens. `before` is what a link builds upon, and
`fuel` bounds the depth of the search. -/
def run (g : Grammar ρ) (source : Array Char) (fuel : Nat) (before : List Part)
    (p : Pattern ρ) (ts : List Token) : Option (List Part × List Token) :=
  match fuel with
  | 0 => none
  | fuel + 1 =>
    match p with
    | nothing => some ([], ts)
    | never => none
    | word text => token? .token (fun t => t.kind = .word && t.text = text) ts
    | symbol text => token? .token (fun t => t.kind = .symbol && t.text = text) ts
    | name => token? .name (fun t => t.kind = .word && !g.reserved t.text) ts
    | literal kind => token? .construct (fun t => t.kind = kind) ts
    | rule r => run g source fuel [] (g.rules r) ts
    | andThen p q =>
      match run g source fuel before p ts with
      | none => none
      | some (first, ts) =>
        match run g source fuel before q ts with
        | none => none
        | some (second, ts) => some (first ++ second, ts)
    | orElse p q =>
      match run g source fuel before p ts with
      | some found => some found
      | none => run g source fuel before q ts
    | many p =>
      match run g source fuel before p ts with
      | none => some ([], ts)
      | some ([], _) => some ([], ts)
      | some (first, ts) =>
        match run g source fuel before (many p) ts with
        | none => some (first, ts)
        | some (others, ts) => some (first ++ others, ts)
    | notAhead p =>
      match run g source fuel before p ts with
      | some _ => none
      | none => some ([], ts)
    | node kind p =>
      (run g source fuel before p ts).map fun (parts, ts) => (wrap source kind parts, ts)
    | inRole role p =>
      (run g source fuel before p ts).map fun (parts, ts) => (parts.map (Part.withRole role), ts)
    | chain head links =>
      match run g source fuel before head ts with
      | none => none
      | some (parts, ts) => run g source fuel parts (grow links) ts
    | grow links =>
      match run g source fuel before links ts with
      | none => some (before, ts)
      | some (parts, ts) => run g source fuel parts (grow links) ts
    | link kind p =>
      (run g source fuel [] p ts).map fun (parts, ts) =>
        (wrap source kind (before.map (Part.withRole .receiver) ++ parts), ts)

/-- Match a pattern at the start of a sequence of tokens. A match looks no deeper than some hundred
patterns for each token. -/
def match? (g : Grammar ρ) (source : Array Char) (p : Pattern ρ) (ts : List Token) :
    Option (List Part × List Token) :=
  run g source (500 * (ts.length + 2)) [] p ts

end Pattern

end EntryFlow.Java
