import EntryFlow.Java.Pattern

/-!
# Grammar of Java sources

The grammar is a little wider than the language: statements and methods may stand at the top level,
and all bodies take the same members. Operators are matched without regard to precedence, since
only the order of the calls in an expression counts.

## Main definitions

* `Rule`, `rules`: the grammar.
* `parseTree`: the syntax tree of a source.
-/

namespace EntryFlow.Java

/-- The words that cannot be names. -/
def reservedWords : List String :=
  ["abstract", "assert", "boolean", "break", "byte", "case", "catch", "char", "class", "const",
    "continue", "default", "do", "double", "else", "enum", "extends", "final", "finally", "float",
    "for", "goto", "if", "implements", "import", "instanceof", "int", "interface", "long", "native",
    "new", "package", "private", "protected", "public", "return", "short", "static", "strictfp",
    "super", "switch", "synchronized", "this", "throw", "throws", "transient", "try", "void",
    "volatile", "while", "true", "false", "null"]

/-- The words that stand in front of a declaration. -/
def modifierWords : List String :=
  ["public", "protected", "private", "abstract", "static", "final", "strictfp", "default",
    "synchronized", "native", "transient", "volatile", "sealed"]

/-- The types that are words. -/
def primitiveTypes : List String :=
  ["void", "byte", "short", "int", "long", "char", "float", "double", "boolean"]

/-- The words that start a directive of a module. -/
def moduleDirectives : List String :=
  ["requires", "exports", "opens", "uses", "provides"]

/-- Operators between two operands. A closing angle bracket is a token of its own. -/
def infixSymbols : List (List String) :=
  [[">", ">", ">"], [">", ">"], [">", "="], [">"], ["<<"], ["<="], ["<"], ["=="], ["!="], ["&&"],
    ["||"], ["&"], ["|"], ["^"], ["+"], ["-"], ["*"], ["/"], ["%"]]

/-- Assignment operators. -/
def assignmentSymbols : List (List String) :=
  [["="], ["+="], ["-="], ["*="], ["/="], ["&="], ["|="], ["^="], ["%="], ["<<="],
    [">", ">", ">", "="], [">", ">", "="]]

/-- The rules of the grammar. -/
inductive Rule where
  | program | declaration | packageDeclaration | importDeclaration | moduleDeclaration
  | dottedName | annotationUse | annotationArguments | elementValue | modifiers
  | typeArguments | simpleType | dimensions | plainType | type | typeParameters
  | classDeclaration | interfaceDeclaration | enumDeclaration | recordDeclaration
  | annotationTypeDeclaration | superInterfaces | classBody | otherBody | enumBody | member
  | method | constructor | parameters | parameter | declarator | arrayInitializer | throws
  | block | statement | localVariable | switchBody | switchLabel | pattern | recordPattern
  | catchClause | resource | forHead
  | expression | labelExpression | operand | unary | cast | primary | lambda | creation
  | creationTail | arguments | parenthesized | switchExpression | text
  deriving DecidableEq, Repr

open Pattern

/-- A word, where it is a keyword. -/
private def kw (s : String) : Pattern Rule := word s

/-- A punctuation mark. -/
private def sym (s : String) : Pattern Rule := symbol s

/-- A construct that is not looked at by itself. -/
private def group (ps : List (Pattern Rule)) : Pattern Rule := node .construct (all ps)

/-- A rule that may be left out. -/
private def maybe (r : Rule) : Pattern Rule := optional (rule r)

/-- A name in the role of a name. -/
private def roleName : Pattern Rule := inRole .name name

/-- A type in the role of a type. -/
private def roleType : Pattern Rule := inRole .type (rule .plainType)

/-- Any number of annotations. -/
private def annotations : Pattern Rule := many (rule .annotationUse)

/-- A pattern between parentheses. -/
private def parens (p : Pattern Rule) : Pattern Rule := all [sym "(", p, sym ")"]

/-- A pattern between braces. -/
private def braces (p : Pattern Rule) : Pattern Rule := all [sym "\x7b", p, sym "\x7d"]

/-- One of some sequences of punctuation marks. -/
private def oneOf (symbols : List (List String)) : Pattern Rule :=
  any (symbols.map fun ss => all (ss.map sym))

/-- A declared variable and the variables after it. -/
private def declarators : Pattern Rule :=
  separated (sym ",") (inRole .declarator (rule .declarator))

/-- The header of a declaration up to and with its name. -/
private def header (keyword : Pattern Rule) : Pattern Rule :=
  all [maybe .modifiers, keyword, roleName]

/-- The types that a declaration permits below it. -/
private def permits : Pattern Rule :=
  optional (group [kw "permits", node .typeList (separated (sym ",") (rule .type))])

/-- The list of types behind `extends` or `implements`. -/
private def typeList : Pattern Rule :=
  node .typeList (separated (sym ",") (rule .type))

/-- The tail of a method call: type arguments, name and arguments. -/
private def callTail : Pattern Rule := all [maybe .typeArguments, roleName, rule .arguments]

/-- What a reference to a method names. -/
private def referenceTail : Pattern Rule :=
  all [sym "::", maybe .typeArguments, any [kw "new", name]]

/-- The patterns of the rules. -/
def rules : Rule → Pattern Rule
  | .program => node .program (many (any [rule .declaration, rule .method, rule .statement]))
  | .declaration =>
    any [rule .packageDeclaration, rule .importDeclaration, rule .moduleDeclaration,
      rule .classDeclaration, rule .interfaceDeclaration, rule .enumDeclaration,
      rule .recordDeclaration, rule .annotationTypeDeclaration]
  | .packageDeclaration =>
    node .packageDeclaration (all [annotations, kw "package", rule .dottedName, sym ";"])
  | .importDeclaration =>
    group [kw "import", optional (kw "static"), rule .dottedName,
      optional (all [sym ".", sym "*"]), sym ";"]
  | .moduleDeclaration =>
    group [annotations, optional (kw "open"), kw "module", rule .dottedName,
      braces (many (group [any (moduleDirectives.map kw),
        many (any [rule .dottedName, kw "static", sym ","]), sym ";"]))]
  | .dottedName =>
    any [node .dottedName (all [name, sym ".", name, many (all [sym ".", name])]), name]
  | .annotationUse =>
    node .annotationUse (all [sym "@", notAhead (kw "interface"), inRole .name (rule .dottedName),
      maybe .annotationArguments])
  | .annotationArguments =>
    group [parens (commas (any [group [name, sym "=", rule .elementValue], rule .elementValue]))]
  | .elementValue =>
    any [rule .annotationUse,
      group [braces (all [commas (rule .elementValue), optional (sym ",")])],
      rule .expression]
  | .modifiers =>
    node .modifiers (andThen (rule .annotationUse |>.orElse modifierWord)
      (many (rule .annotationUse |>.orElse modifierWord)))
  | .typeArguments =>
    group [sym "<",
      commas (any [group [annotations, sym "?",
        optional (all [any [kw "extends", kw "super"], rule .type])], rule .type]),
      sym ">"]
  | .simpleType =>
    any [any (primitiveTypes.map kw),
      all [name, maybe .typeArguments,
        many (all [sym ".", annotations, name, maybe .typeArguments])]]
  | .dimensions =>
    andThen (all [annotations, sym "[", sym "]"]) (many (all [annotations, sym "[", sym "]"]))
  | .plainType => node .type (all [rule .simpleType, maybe .dimensions])
  | .type => any [rule .plainType,
      node .type (all [rule .annotationUse, annotations, rule .plainType])]
  | .typeParameters =>
    group [sym "<", commas (group [annotations, name,
      optional (all [kw "extends", separated (sym "&") (rule .type)])]), sym ">"]
  | .classDeclaration =>
    node .classDeclaration (all [header (kw "class"), maybe .typeParameters,
      optional (node .superclass (all [kw "extends", rule .type])), maybe .superInterfaces,
      permits, inRole .body (rule .classBody)])
  | .interfaceDeclaration =>
    node .interfaceDeclaration (all [header (kw "interface"), maybe .typeParameters,
      optional (node .extendsInterfaces (all [kw "extends", typeList])), permits,
      inRole .body (rule .otherBody)])
  | .enumDeclaration =>
    node .enumDeclaration (all [header (kw "enum"), maybe .superInterfaces,
      inRole .body (rule .enumBody)])
  | .recordDeclaration =>
    node .recordDeclaration (all [header (kw "record"), maybe .typeParameters,
      inRole .parameters (rule .parameters), maybe .superInterfaces,
      inRole .body (rule .classBody)])
  | .annotationTypeDeclaration =>
    group [maybe .modifiers, sym "@", kw "interface", name, rule .otherBody]
  | .superInterfaces => node .superInterfaces (all [kw "implements", typeList])
  | .classBody => node .classBody (braces (many (rule .member)))
  | .otherBody => node .otherBody (braces (many (rule .member)))
  | .enumBody =>
    node .otherBody (braces (all [
      commas (group [maybe .modifiers, name, maybe .arguments, maybe .classBody]),
      optional (sym ","),
      optional (node .enumMembers (all [sym ";", many (rule .member)]))]))
  | .member =>
    any [sym ";", rule .block, group [kw "static", rule .block], rule .declaration, rule .method,
      rule .constructor,
      node .field (all [maybe .modifiers, roleType, declarators, sym ";"])]
  | .method =>
    node .method (all [maybe .modifiers, optional (all [rule .typeParameters, annotations]),
      roleType, roleName, inRole .parameters (rule .parameters), maybe .dimensions, maybe .throws,
      any [inRole .body (rule .block),
        all [optional (group [kw "default", rule .elementValue]), sym ";"]]])
  | .constructor =>
    any [group [maybe .modifiers, maybe .typeParameters, name, rule .parameters, maybe .throws,
        rule .block],
      group [maybe .modifiers, name, rule .block]]
  | .parameters => node .parameters (parens (commas (rule .parameter)))
  | .parameter =>
    any [group [annotations, rule .plainType, many (all [name, sym "."]), kw "this"],
      node .spreadParameter (all [maybe .modifiers, rule .plainType, sym "...", annotations,
        rule .declarator]),
      node .parameter (all [maybe .modifiers, roleType, roleName, maybe .dimensions])]
  | .declarator =>
    node .declarator (all [roleName, maybe .dimensions,
      optional (all [sym "=", any [rule .arrayInitializer, rule .expression]])])
  | .arrayInitializer =>
    group [braces (all [commas (any [rule .arrayInitializer, rule .expression]),
      optional (sym ",")])]
  | .throws => group [kw "throws", separated (sym ",") (rule .type)]
  | .block => group [braces (many (rule .statement))]
  | .statement =>
    any [rule .block, sym ";",
      group [kw "if", rule .parenthesized, rule .statement,
        optional (all [kw "else", rule .statement])],
      group [kw "while", rule .parenthesized, rule .statement],
      rule .forHead,
      group [kw "do", rule .statement, kw "while", rule .parenthesized, sym ";"],
      group [kw "try", optional (group [parens (all [separated (sym ";") (rule .resource),
        optional (sym ";")])]), rule .block, many (rule .catchClause),
        optional (group [kw "finally", rule .block])],
      rule .switchExpression,
      group [kw "synchronized", rule .parenthesized, rule .block],
      group [kw "return", maybe .expression, sym ";"],
      group [kw "throw", rule .expression, sym ";"],
      group [kw "break", optional name, sym ";"],
      group [kw "continue", optional name, sym ";"],
      group [kw "assert", rule .expression, optional (all [sym ":", rule .expression]), sym ";"],
      group [kw "yield", rule .expression, sym ";"],
      rule .declaration,
      group [name, sym ":", rule .statement],
      rule .localVariable,
      group [maybe .typeArguments, any [kw "this", kw "super"], rule .arguments, sym ";"],
      group [rule .expression, sym ";"]]
  | .localVariable =>
    node .localVariable (all [maybe .modifiers, roleType, declarators, sym ";"])
  | .forHead =>
    any [node .enhancedFor (all [kw "for", sym "(", maybe .modifiers, roleType, roleName,
        maybe .dimensions, sym ":", rule .expression, sym ")", rule .statement]),
      group [kw "for", sym "(",
        any [rule .localVariable, all [commas (rule .expression), sym ";"]],
        maybe .expression, sym ";", commas (rule .expression), sym ")", rule .statement]]
  | .resource =>
    any [group [maybe .modifiers, rule .plainType, name, maybe .dimensions, sym "=",
        rule .expression],
      rule .expression]
  | .catchClause =>
    group [kw "catch", sym "(", maybe .modifiers, separated (sym "|") (rule .plainType), name,
      maybe .dimensions, sym ")", rule .block]
  | .switchExpression => group [kw "switch", rule .parenthesized, rule .switchBody]
  | .switchBody =>
    group [braces (many (any [
      group [rule .switchLabel, sym "->",
        any [rule .block, group [kw "throw", rule .expression, sym ";"],
          group [rule .expression, sym ";"]]],
      group [rule .switchLabel, sym ":", many (all [rule .switchLabel, sym ":"]),
        many (rule .statement)]]))]
  | .switchLabel =>
    any [group [kw "case",
        any [rule .pattern, separated (sym ",") (any [rule .labelExpression, kw "default"])],
        optional (group [kw "when", rule .labelExpression])],
      group [kw "default"]]
  | .pattern =>
    any [rule .recordPattern, group [rule .plainType, notAhead (kw "when"), name]]
  | .recordPattern =>
    group [rule .plainType, parens (commas (any [rule .recordPattern,
      group [rule .plainType, name], kw "_"]))]
  | .expression =>
    group [rule .operand, many (all [oneOf infixSymbols, rule .operand]),
      optional (all [sym "?", rule .expression, sym ":", rule .expression]),
      optional (all [oneOf assignmentSymbols, rule .expression])]
  | .labelExpression =>
    group [rule .unary, many (all [oneOf infixSymbols, rule .unary]),
      optional (all [sym "?", rule .expression, sym ":", rule .labelExpression])]
  | .operand => any [rule .lambda, rule .unary]
  | .lambda =>
    group [any [group [parens (separated (sym ",") name)], rule .parameters, name], sym "->",
      any [rule .block, rule .expression]]
  | .unary =>
    any [
      group [oneOf [["+"], ["-"], ["!"], ["~"], ["++"], ["--"]], rule .unary],
      rule .cast,
      rule .switchExpression,
      group [rule .primary, many (any [sym "++", sym "--"]),
        many (all [kw "instanceof", optional (kw "final"),
          any [rule .recordPattern, all [rule .type, optional name]]])]]
  | .cast => group [parens (separated (sym "&") (rule .type)), rule .operand]
  | .primary =>
    chain
      (any [literal .number, literal .character, rule .text,
        kw "true", kw "false", kw "null",
        group [rule .plainType, referenceTail],
        group [rule .plainType, sym ".", kw "class"],
        node .call (all [roleName, rule .arguments]),
        name, group [kw "this"], group [kw "super"],
        rule .creation, rule .parenthesized])
      (any [
        link .call (all [sym ".", callTail]),
        link .call (all [sym ".", group [kw "super"], sym ".", callTail]),
        link .construct (all [sym ".", kw "super", sym ".", name]),
        link .construct (all [sym ".", maybe .typeArguments, kw "super", rule .arguments]),
        link .construct (all [sym ".", any [kw "class", kw "this", name]]),
        link .construct (all [sym ".", rule .creation]),
        link .construct (all [sym ".", rule .text]),
        link .construct (all [sym "[", rule .expression, sym "]"]),
        link .construct referenceTail])
  | .creation => group [kw "new", rule .creationTail]
  | .creationTail =>
    all [annotations, maybe .typeArguments, annotations, node .type (rule .simpleType),
      any [all [rule .arguments, maybe .classBody],
        all [rule .dimensions, rule .arrayInitializer],
        all [group [annotations, sym "[", rule .expression, sym "]"],
          many (group [annotations, sym "[", rule .expression, sym "]"]), maybe .dimensions]]]
  | .arguments => group [parens (commas (rule .expression))]
  | .parenthesized => group [parens (rule .expression)]
  | .text =>
    any [literal .text,
      group [literal .textStart, rule .expression,
        many (all [literal .textMiddle, rule .expression]), literal .textEnd]]
where
  /-- A word in front of a declaration. -/
  modifierWord : Pattern Rule :=
    any (all [kw "non", sym "-", kw "sealed"] :: modifierWords.map kw)

/-- The grammar of Java sources. -/
def grammar : Pattern.Grammar Rule := ⟨rules, (· ∈ reservedWords)⟩

/-- The syntax tree of a source, as far as the source follows the grammar. -/
def parseTree (source : List Char) : Tree :=
  match Pattern.match? grammar source.toArray (.rule .program) (tokenize source) with
  | some ([part], _) => part.tree
  | _ => .node .program none "" []

end EntryFlow.Java
