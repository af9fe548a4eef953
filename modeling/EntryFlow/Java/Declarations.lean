import EntryFlow.Corpus.Record
import EntryFlow.Java.Stereotype
import EntryFlow.Java.Tree
import EntryFlow.Name.Call

/-!
# Types and calls in a syntax tree

The types that a source declares with their fields, methods, parameters, local variables and calls.
Nothing is resolved: a call is the text of its receiver with all argument lists emptied, and the
called name.

## Main definitions

* `Tree.bodyNodes`: the nodes of a method body, parents first, without those of class bodies.
* `Tree.locals`, `Tree.calls`: the local variables and the calls among them.
* `typesOf`: the types of a source.
-/

namespace EntryFlow.Java

open Text

/-- The text of a node on one line. -/
def oneLine (s : String) : String :=
  String.ofList (squeeze s.toList)

namespace Tree

theorem sizeOf_append (ts us : List Tree) : sizeOf (ts ++ us) < sizeOf ts + sizeOf us := by
  induction ts with
  | nil => simp
  | cons t ts ih => simp only [List.cons_append, List.cons.sizeOf_spec]; omega

theorem sizeOf_children_lt (t : Tree) : sizeOf t.children < sizeOf t := by
  cases t
  simp only [children, node.sizeOf_spec]
  omega

/-- The nodes below a stack of trees, each before its children. Class bodies are not entered. -/
def nodesFrom : List Tree → List Tree
  | [] => []
  | t :: rest =>
    if t.kind = .classBody then nodesFrom rest else t :: nodesFrom (t.children ++ rest)
termination_by stack => sizeOf stack
decreasing_by
  · simp only [List.cons.sizeOf_spec]; omega
  · have := sizeOf_append t.children rest
    have := sizeOf_children_lt t
    simp only [List.cons.sizeOf_spec]; omega

/-- The nodes of a method body, each before its children. Class bodies are not entered. -/
def bodyNodes (body : Tree) : List Tree :=
  nodesFrom [body]

/-- A variable of a declared type. -/
def declared (type name : String) : Variable :=
  ⟨.text type, .text name⟩

/-- The local variables that a node declares. -/
def locals (t : Tree) : List Variable :=
  match t.kind with
  | .localVariable =>
    let type := oneLine (t.childText .type)
    (t.childrenIn .declarator).map fun d => declared type (d.childText .name)
  | .enhancedFor => [declared (oneLine (t.childText .type)) (t.childText .name)]
  | _ => []

/-- The text of a call: its receiver with all argument lists emptied, and the called name. -/
def callText (receiver : Option String) (name : String) : String :=
  match receiver with
  | none => name
  | some receiver => Call.emptyArguments (oneLine receiver) ++ "." ++ name

/-- The call that a node makes. -/
def call? (t : Tree) : Option String :=
  if t.kind = .call then some (callText ((t.child? .receiver).map text) (t.childText .name))
  else none

/-- The names of the annotations of a declaration. -/
def annotations (t : Tree) : List String :=
  (t.children.filter (·.kind = .modifiers)).flatMap fun modifiers =>
    (modifiers.named.filter (·.kind = .annotationUse)).map (·.childText .name)

/-- The fields that a member declares, one for each declared name. -/
def fields (t : Tree) : List Field :=
  let type := oneLine (t.childText .type)
  (t.childrenIn .declarator).map fun d =>
    ⟨.text (d.childText .name), .text type, t.annotations.map .text⟩

/-- The type of a parameter that takes any number of arguments: the first part of it that is neither
a modifier nor the declared name. -/
def spreadType (t : Tree) : String :=
  let types := (t.named.filter fun part => part.kind ≠ .modifiers && part.kind ≠ .declarator).map
    fun part => oneLine part.text
  (types.find? (!·.isEmpty)).getD ""

/-- The name of a parameter that takes any number of arguments. -/
def spreadName (t : Tree) : String :=
  (((t.named.filter (·.kind = .declarator)).getLast?).map (·.childText .name)).getD ""

/-- The parameter that a node declares. -/
def parameter? (t : Tree) : Option Variable :=
  match t.kind with
  | .parameter => some (declared (oneLine (t.childText .type)) (t.childText .name))
  | .spreadParameter => some (declared (t.spreadType ++ "...") t.spreadName)
  | _ => none

/-- The parameters of a method. -/
def parameters (t : Tree) : List Variable :=
  match t.child? .parameters with
  | some ps => ps.named.filterMap parameter?
  | none => []

/-- A text, or null for an empty one. -/
def orNull (s : String) : Datum :=
  if s.isEmpty then .null else .text s

/-- The method that a member declares. -/
def method (t : Tree) : Method :=
  let nodes := ((t.child? .body).map bodyNodes).getD []
  { name := .text (t.childText .name)
    returnType := orNull (oneLine (t.childText .type))
    parameters := t.parameters
    locals := nodes.flatMap locals
    calls := some ((nodes.filterMap call?).map .text)
    annotations := t.annotations.map .text
    className := .null
    packageName := .null }

/-- The members of a body; those behind the constants of an enum are among them. -/
def members (t : Tree) : List Tree :=
  match t.child? .body with
  | none => []
  | some body =>
    body.named.flatMap fun child => if child.kind = .enumMembers then child.named else [child]

/-- How a node declares a type, if it does. -/
def declaration? (t : Tree) : Option Declaration :=
  match t.kind with
  | .classDeclaration => some .ofClass
  | .interfaceDeclaration => some .ofInterface
  | .enumDeclaration => some .ofEnum
  | .recordDeclaration => some .ofRecord
  | _ => none

/-- The type that a declaration extends. -/
def superclass? (t : Tree) : Option String :=
  ((t.children.filter (·.kind = .superclass)).filterMap fun clause =>
    clause.named.head?.map fun type => oneLine type.text).getLast?

/-- The types that a declaration implements or, for an interface, extends. -/
def interfaces (t : Tree) : List String :=
  (t.children.filter fun c => c.kind = .superInterfaces || c.kind = .extendsInterfaces).flatMap
    fun clause => (clause.named.filter (·.kind = .typeList)).flatMap fun types =>
      types.named.map fun type => oneLine type.text

/-- The record of a declared type, without the types declared in it. -/
def typeRecord (package file : Option String) (declaration : Declaration) (t : Tree) :
    TypeRecord :=
  let name := t.childText .name
  { name := .text name
    packageName := .ofText? package
    kind := .text (kindOf name t.annotations t.superclass? t.interfaces declaration)
    fields := some ((t.members.filter (·.kind = .field)).flatMap fields)
    methods := some ((t.members.filter (·.kind = .method)).map method)
    parent := .ofText? t.superclass?
    interfaces := t.interfaces.map .text
    annotations := t.annotations.map .text
    filePath := .ofText? file }

theorem sizeOf_lt_of_mem_named {t c : Tree} (h : c ∈ t.named) : sizeOf c < sizeOf t := by
  have := List.sizeOf_lt_of_mem (List.mem_filter.1 h).1
  have := sizeOf_children_lt t
  omega

theorem sizeOf_lt_of_mem_members {t c : Tree} (h : c ∈ t.members) : sizeOf c < sizeOf t := by
  simp only [members] at h
  split at h
  · simp at h
  · rename_i body hbody
    have hb : sizeOf body < sizeOf t := by
      have := List.sizeOf_lt_of_mem (List.mem_of_find?_eq_some hbody)
      have := sizeOf_children_lt t
      omega
    obtain ⟨child, hchild, hc⟩ := List.mem_flatMap.1 h
    have := sizeOf_lt_of_mem_named hchild
    split at hc
    · have := sizeOf_lt_of_mem_named hc
      omega
    · simp at hc
      subst hc
      omega

/-- The types that a node declares: its own one, then those declared in its body. -/
def types (package file : Option String) (t : Tree) : List TypeRecord :=
  match t.declaration? with
  | none => []
  | some declaration =>
    t.typeRecord package file declaration ::
      t.members.attach.flatMap fun ⟨c, _⟩ => types package file c
termination_by sizeOf t
decreasing_by exact sizeOf_lt_of_mem_members ‹_›

/-- The package that a source declares. -/
def package? (root : Tree) : Option String :=
  ((root.children.filter (·.kind = .packageDeclaration)).flatMap fun declaration =>
    (declaration.named.filter fun part => part.kind = .dottedName || part.kind = .name).map
      text).head?

end Tree

/-- The types that a source declares. -/
def typesOf (file : Option String) (root : Tree) : List TypeRecord :=
  root.children.flatMap (Tree.types root.package? file)

end EntryFlow.Java
