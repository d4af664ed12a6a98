/-!
# Diagnostic codes

Every diagnostic carries a code.  The letter is the class of severity, and the first digit the
phase: 2 for semantic analysis, 9 for faults of the front end itself and for constructs that it
does not support.
-/

set_option autoImplicit false
namespace SemanticCore

/-- The code of a diagnostic. -/
inductive DiagnosticCode where
  | e2001
  | e2002
  | e2003
  | e2004
  | e2005
  | e2006
  | e2007
  | e2008
  | e2010
  | e2011
  | e2012
  | e2013
  | e2014
  | e2015
  | w2001
  | e9001
  | e9002
  | e9003
deriving DecidableEq, Inhabited

namespace DiagnosticCode

/-- All codes. -/
def all : List DiagnosticCode :=
  [e2001, e2002, e2003, e2004, e2005, e2006, e2007, e2008, e2010, e2011, e2012, e2013, e2014,
    e2015, w2001, e9001, e9002, e9003]

/-- How the code is written. -/
def text : DiagnosticCode → String
  | e2001 => "E2001"
  | e2002 => "E2002"
  | e2003 => "E2003"
  | e2004 => "E2004"
  | e2005 => "E2005"
  | e2006 => "E2006"
  | e2007 => "E2007"
  | e2008 => "E2008"
  | e2010 => "E2010"
  | e2011 => "E2011"
  | e2012 => "E2012"
  | e2013 => "E2013"
  | e2014 => "E2014"
  | e2015 => "E2015"
  | w2001 => "W2001"
  | e9001 => "E9001"
  | e9002 => "E9002"
  | e9003 => "E9003"

/-- One line on what the code stands for. -/
def description : DiagnosticCode → String
  | e2001 => "expression is not callable"
  | e2002 => "wrong number of arguments"
  | e2003 => "scalar initialized from multiple arguments"
  | e2004 => "invalid array initialization"
  | e2005 => "reference requires an initializer"
  | e2006 => "type cannot be zero-initialized"
  | e2007 => "reference cannot bind to initializer"
  | e2008 => "no conversion between types"
  | e2010 => "undeclared name"
  | e2011 => "name does not denote a value"
  | e2012 => "redefinition"
  | e2013 => "template argument deduction failed"
  | e2014 => "template specialization failed"
  | e2015 | w2001 => "call not covered by constraints"
  | e9001 => "not yet implemented"
  | e9002 => "too many errors"
  | e9003 => "unhandled case"

/-- A fault of the front end, or a construct that it does not support. -/
def isInternal : DiagnosticCode → Bool
  | e9001 | e9002 | e9003 => true
  | _ => false

/-- The code of a warning. -/
def isWarning : DiagnosticCode → Bool
  | w2001 => true
  | _ => false

/-- The code of an error in the program being analysed. -/
def isSemantic (c : DiagnosticCode) : Bool :=
  !c.isInternal && !c.isWarning

/-- The code written in the given way; letters may be in either case.  Codes are ASCII, and no
letter outside ASCII has one of theirs as its upper case, so `String.toUpper` decides. -/
def ofText? (s : String) : Option DiagnosticCode :=
  all.find? fun c => c.text == s.toUpper

end DiagnosticCode
end SemanticCore
