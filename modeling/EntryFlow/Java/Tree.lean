/-!
# Syntax trees of Java sources

A node has a kind, the role that it plays in its parent, its text as it stands in the source and its
children. Only those kinds and roles are told apart that the extraction of types and calls looks at.
A comment is a node of the smallest construct around it.
-/

namespace EntryFlow.Java

/-- What a node is. -/
inductive Kind where
  /-- A keyword or a punctuation mark. -/
  | token
  | comment
  /-- A single name. -/
  | name
  /-- A dotted name. -/
  | dottedName
  | type
  | program
  | packageDeclaration
  | classDeclaration
  | interfaceDeclaration
  | enumDeclaration
  | recordDeclaration
  | modifiers
  | annotationUse
  | superclass
  | superInterfaces
  | extendsInterfaces
  | typeList
  /-- The body of a class or record, also of an anonymous one. -/
  | classBody
  /-- The body of an interface or enum. -/
  | otherBody
  /-- The members of an enum behind its constants. -/
  | enumMembers
  /-- A field or a constant. -/
  | field
  | method
  | parameters
  | parameter
  /-- A parameter that takes any number of arguments. -/
  | spreadParameter
  | declarator
  | localVariable
  /-- A loop over a collection. -/
  | enhancedFor
  /-- A call of a method. -/
  | call
  /-- Any other construct. -/
  | construct
  deriving DecidableEq, Repr

/-- The role of a node in its parent. -/
inductive Role where
  | name
  | type
  | body
  | parameters
  | declarator
  /-- The receiver of a call. -/
  | receiver
  deriving DecidableEq, Repr

/-- A node of a syntax tree. -/
inductive Tree where
  | node (kind : Kind) (role : Option Role) (text : String) (children : List Tree)
  deriving Repr

namespace Tree

def kind : Tree → Kind
  | node kind _ _ _ => kind

def role : Tree → Option Role
  | node _ role _ _ => role

/-- The part of the source that the node covers. -/
def text : Tree → String
  | node _ _ text _ => text

def children : Tree → List Tree
  | node _ _ _ children => children

/-- The node in a role. -/
def withRole (r : Role) : Tree → Tree
  | node kind _ text children => node kind (some r) text children

/-- The children that are no keywords or punctuation marks. -/
def named (t : Tree) : List Tree :=
  t.children.filter (·.kind ≠ .token)

/-- The first child in a role. -/
def child? (t : Tree) (r : Role) : Option Tree :=
  t.children.find? (·.role = some r)

/-- The text of the first child in a role, empty if there is none. -/
def childText (t : Tree) (r : Role) : String :=
  match t.child? r with
  | some child => child.text
  | none => ""

/-- The children in a role. -/
def childrenIn (t : Tree) (r : Role) : List Tree :=
  t.children.filter (·.role = some r)

end Tree

end EntryFlow.Java
