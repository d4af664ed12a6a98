import SemanticCore.Handle

/-!
# What can go wrong while nodes are built

A constructor of the term graph fails in three ways: the construct is known but not supported
(`Feature`), it was handed a node of the wrong sort (`Malformed`), or a declaration that can be
defined once is defined again.
-/

set_option autoImplicit false
namespace SemanticCore

/-- Constructs that are recognized and not supported. -/
inductive Feature where
  | destructorName
  | decltypeType
  | arrayType
  | unionType
  | enumType
  | arrayInitialization
  | classInitialization
  | unionInitialization
  | stringInitialization
  | constructorSearch
  | userDefinedConversion
  | listInitialization
  | aggregateInitialization
  | dependentFunctionCall
deriving DecidableEq, Inhabited

namespace Feature

/-- All features. -/
def all : List Feature :=
  [destructorName, decltypeType, arrayType, unionType, enumType, arrayInitialization,
    classInitialization, unionInitialization, stringInitialization, constructorSearch,
    userDefinedConversion, listInitialization, aggregateInitialization, dependentFunctionCall]

/-- One word for the feature. -/
def label : Feature → String
  | destructorName => "DestructorId"
  | decltypeType => "DecltypeType"
  | arrayType => "ArrayType"
  | unionType => "UnionType"
  | enumType => "EnumType"
  | arrayInitialization => "ArrayInitialization"
  | classInitialization => "ClassInitialization"
  | unionInitialization => "UnionInitialization"
  | stringInitialization => "StringInitialization"
  | constructorSearch => "ConstructorSearch"
  | userDefinedConversion => "UserDefinedConversion"
  | listInitialization => "ListInitialization"
  | aggregateInitialization => "AggregateInitialization"
  | dependentFunctionCall => "DependentFunctionCall"

/-- The feature in words. -/
def description : Feature → String
  | destructorName => "destructor names"
  | decltypeType => "decltype types"
  | arrayType => "array types"
  | unionType => "union types"
  | enumType => "enum types"
  | arrayInitialization => "initialization of arrays"
  | classInitialization => "initialization of class objects"
  | unionInitialization => "initialization of unions"
  | stringInitialization => "initialization of arrays from strings"
  | constructorSearch => "constructor selection"
  | userDefinedConversion => "user-defined conversions"
  | listInitialization => "list initialization"
  | aggregateInitialization => "aggregate initialization"
  | dependentFunctionCall => "dependent calls to non-template functions"

/-- The message that a construct is not supported. -/
def message (f : Feature) : String :=
  "not yet implemented: " ++ f.description

end Feature

/-- The ways in which a constructor can be handed a node of the wrong sort. -/
inductive Malformed where
  | templateNameOfNonTemplate
  | conceptNameOfNonConcept
  | parameterNotObject
  | classTypeOfNonClass
  | typenameOfNonTypeParameter
  | referenceWithoutType
  | templateReferenceToNonTemplate
  | checkOfNonConcept
  | valueWithoutType
  | constraintOnNonConcept
  | definitionOfUndefinable
  | initializerOfNonVariable
  | patternParameterNotObject
deriving DecidableEq, Inhabited

/-- The fault in words. -/
def Malformed.description : Malformed → String
  | templateNameOfNonTemplate => "template-id of a non-template"
  | conceptNameOfNonConcept => "concept-id of a non-concept"
  | parameterNotObject => "function parameter is not an object parameter"
  | classTypeOfNonClass => "class type of a non-class declaration"
  | typenameOfNonTypeParameter => "typename type of a non-type-parameter"
  | referenceWithoutType => "reference to a declaration without a type"
  | templateReferenceToNonTemplate => "template reference to a non-template"
  | checkOfNonConcept => "check of a non-concept"
  | valueWithoutType => "synthesized value of a declaration without a type"
  | constraintOnNonConcept => "concept constraint on a non-concept"
  | definitionOfUndefinable => "definition of a declaration that cannot be defined"
  | initializerOfNonVariable => "initializer for a non-variable"
  | patternParameterNotObject => "function parameter that is not an object parameter"

/-- Why a node was not built. -/
inductive BuildError where
  | unsupported (feature : Feature)
  | malformed (cause : Malformed)
  | alreadyDefined (decl : DeclHandle)
deriving DecidableEq, Inhabited

/-- The error in words. -/
def BuildError.message : BuildError → String
  | unsupported feature => feature.message
  | malformed cause => "malformed term: " ++ cause.description
  | alreadyDefined decl => decl.text ++ " is already defined"

end SemanticCore
