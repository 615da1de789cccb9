import Flattener.Tree.Walk

/-!
# Outlines

An outline shows a tree to a reader, a line for each declaration and raw run,
with what is inside a declaration indented below it.
-/

namespace Flattener

/-- A line of an outline at a depth. -/
def outlineLine (depth : Nat) (text : String) : String :=
  String.ofList (List.replicate (2 * depth) ' ') ++ text

/-- A variable in one line, without what it is. -/
def Variable.summary (v : Variable) : String :=
  let initial := match v.initial with
    | some run => s!" = {run.text}"
    | none => ""
  s!"{v.type.text} {v.name.text}{initial}"

/-- A field and its access, in the outline. -/
def Field.summary (f : Field) : String :=
  s!"Field ({f.access.keyword}): {f.declared.summary}"

/-- The parameters of a signature, in parentheses. -/
def Signature.parameterList (s : Signature) : String :=
  let parameters := s.parameters.map fun p => s!"{p.type.text} {p.name.text}"
  "(" ++ ", ".intercalate parameters ++ ")"

/-- A function in the outline. -/
def Signature.summary (s : Signature) : String :=
  s!"Function: {s.returns.text} {s.name.text}{s.parameterList}"

/-- A function pointer in the outline. -/
def Signature.pointerSummary (s : Signature) : String :=
  s!"FunctionPointer: {s.returns.text} (*{s.name.text}){s.parameterList}"

/-- A member in the outline. -/
def Member.summary : Member → String
  | .field declared => declared.summary
  | .functionPointer declared => declared.pointerSummary

/-- The lines of a struct, its members one level deeper. -/
def Struct.outline (depth : Nat) (s : Struct) : List String :=
  match s.members with
  | none => [outlineLine depth s!"Struct: {s.name.text} (forward)"]
  | some members =>
    outlineLine depth s!"Struct: {s.name.text}" ::
      members.map fun member => outlineLine (depth + 1) member.summary

/-- The lines of a class, its members and then its methods one level deeper. -/
def Class.outline (depth : Nat) (c : Class) : List String :=
  match c.body with
  | none => [outlineLine depth s!"Class: {c.name.text} (forward)"]
  | some body =>
    let traits := ", ".intercalate (body.traits.map fun trait => trait.name.text)
    let heading := if traits = "" then "" else s!" : {traits}"
    outlineLine depth s!"Class: {c.name.text}{heading}" ::
      (body.members.map fun member => outlineLine (depth + 1) member.summary) ++
      body.methods.map fun method => outlineLine (depth + 1) method.summary

mutual

/-- The lines of an item. -/
def Item.outline (depth : Nat) : Item → List String
  | .raw run => [outlineLine depth s!"Raw: {run.text}"]
  | .variableDecl declared => [outlineLine depth s!"Variable: {declared.summary}"]
  | .functionDecl declared => [outlineLine depth declared.summary]
  | .structDecl declared => declared.outline depth
  | .classDecl declared => declared.outline depth
  | .namespaceDecl name children =>
    outlineLine depth s!"Namespace: {name.text}" :: outlineItems (depth + 1) children

/-- The lines of items, one after the other. -/
def outlineItems (depth : Nat) : List Item → List String
  | [] => []
  | item :: items => item.outline depth ++ outlineItems depth items

end

namespace Node

/-- The lines of the outline of a node. -/
def outlineLines : Node → List String
  | .scope whole => outlineLine 0 "Scope" :: outlineItems 1 whole.children
  | .rawRun run => [s!"Raw: {run.text}"]
  | .typeRef type => [s!"Type: {type.text}"]
  | .variableDecl declared => [s!"Variable: {declared.summary}"]
  | .fieldDecl declared => [declared.summary]
  | .functionPointer declared => [declared.pointerSummary]
  | .functionDecl declared => [declared.summary]
  | .structDecl declared => declared.outline 0
  | .classDecl declared => declared.outline 0
  | .namespaceDecl name children => (Item.namespaceDecl name children).outline 0

/-- The outline of a node. -/
def outline (node : Node) : String :=
  "\n".intercalate node.outlineLines

end Node

end Flattener
