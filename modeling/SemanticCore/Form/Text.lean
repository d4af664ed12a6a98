import SemanticCore.Form.Basic

/-!
# The text of a form

Some messages show a name or an expression by its structure: the construct, then its parts.  Parts
in a fixed order stand in parentheses, named parts in braces, and lists in brackets, as in
`Call { callee: ExprId(3), args: [ExprId(1)] }`.
-/

set_option autoImplicit false
namespace SemanticCore

namespace Text

/-- The items in brackets. -/
def list (items : List String) : String :=
  "[" ++ String.intercalate ", " items ++ "]"

/-- A construct with one part. -/
def single (construct part : String) : String :=
  construct ++ "(" ++ part ++ ")"

/-- A construct with named parts. -/
def record (construct : String) (parts : List (String × String)) : String :=
  construct ++ " \x7b " ++ String.intercalate ", " (parts.map fun p => p.1 ++ ": " ++ p.2) ++
    " \x7d"

/-- The handles in brackets. -/
def handles {c : Category} (hs : List (Handle c)) : String :=
  list (hs.map Handle.text)

end Text

/-- The text of a template argument. -/
def Term.text : Term → String
  | type t => Text.single "Type" t.text
  | expr e => Text.single "Expr" e.text
  | decl d => Text.single "Decl" d.text

/-- The text of a name. -/
def NameForm.text : NameForm → String
  | simple s => Text.single "Simple" s.text
  | placeholder n => Text.single "Placeholder" n.toNat.repr
  | template d args =>
    Text.record "Template" [("decl", d.text), ("args", Text.list (args.map Term.text))]
  | concept d args =>
    Text.record "Concept" [("decl", d.text), ("args", Text.list (args.map Term.text))]
  | qualified scope name => Text.record "Qualified" [("scope", scope.text), ("name", name.text)]
  | global => "Global"

/-- The word for a binary operator. -/
def BinaryOp.label : BinaryOp → String
  | and => "And"
  | or => "Or"
  | eq => "Eq"
  | ne => "Ne"
  | lt => "Lt"
  | gt => "Gt"
  | le => "Le"
  | ge => "Ge"
  | add => "Add"
  | sub => "Sub"
  | mul => "Mul"
  | div => "Div"
  | rem => "Rem"

namespace ConversionKind

/-- All kinds of conversion. -/
def all : List ConversionKind :=
  [value, qualification, boolean, integer, float, dependent, ellipsis]

/-- The word for a kind of conversion. -/
def label : ConversionKind → String
  | value => "Value"
  | qualification => "Qualification"
  | boolean => "Boolean"
  | integer => "Integer"
  | float => "Float"
  | dependent => "Dependent"
  | ellipsis => "Ellipsis"

/-- The kind of conversion with the given word. -/
def ofLabel? (s : String) : Option ConversionKind :=
  all.find? fun k => k.label == s

end ConversionKind

/-- The text of an integer: its decimal digits, after a minus sign if it is negative. -/
def Text.integer (n : Int) : String :=
  if n < 0 then "-" ++ n.natAbs.repr else n.natAbs.repr

/-- The text of an expression. -/
def ExprForm.text : ExprForm → String
  | boolean b => Text.single "Boolean" (if b then "true" else "false")
  | integer n => Text.single "Integer" (Text.integer n)
  | reference d => Text.single "Reference" d.text
  | templateRef d => Text.single "TemplateRef" d.text
  | check d args =>
    Text.record "Check" [("concept", d.text), ("args", Text.list (args.map Term.text))]
  | binary op lhs rhs =>
    Text.record "Binary" [("op", op.label), ("lhs", lhs.text), ("rhs", rhs.text)]
  | not e => Text.single "Not" e.text
  | call callee args =>
    Text.record "Call" [("callee", callee.text), ("args", Text.handles args)]
  | conversion kind source =>
    Text.record "Conversion" [("kind", kind.label), ("source", source.text)]
  | synthetic d => Text.single "Synthetic" d.text
  | requires tparams params reqs =>
    Text.record "Requires"
      [("tparms", Text.handles tparams), ("parms", Text.handles params),
        ("reqs", Text.handles reqs)]

end SemanticCore
