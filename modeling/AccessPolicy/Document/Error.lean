import AccessPolicy.Arn
import AccessPolicy.Document.Vocabulary

/-!
# What can be wrong with a document

The causes for which a value is no policy document, and the wording of each.  A cause inside a
statement is kept apart from the number of the statement, which counts from zero.
-/

namespace AccessPolicy

/-- What is wrong with a statement. -/
inductive StatementError
  | notAnObject
  /-- There is no element of this name. -/
  | unsupportedElement (name : String)
  /-- Both elements of the pair are there. -/
  | mutuallyExclusive (pair : ElementPair)
  /-- Neither element of the pair is there, and either would do. -/
  | pairRequired (pair : ElementPair)
  /-- The element is missing. -/
  | elementRequired (element : Element)
  /-- An element of the pair is there, and the kind of policy allows none. -/
  | pairNotAllowed (pair : ElementPair)
  /-- The value of the element is not of the right form.  A pair is reported by its positive
  element. -/
  | incorrectDefinition (element : Element)
  /-- The effect is neither of the two; a value that is no string is given by its text. -/
  | invalidEffect (text : String)
  /-- A resource is neither `*` nor a resource name. -/
  | invalidResourceArn (cause : ArnError)
  deriving DecidableEq

/-- The wording of each cause. -/
def StatementError.message : StatementError → String
  | .notAnObject => "statement must be an object"
  | .unsupportedElement name => "Unsupported statement element '" ++ name ++ "'"
  | .mutuallyExclusive pair =>
    pair.positive.text ++ " and " ++ pair.negative.text ++ " are mutually exclusive"
  | .pairRequired pair =>
    pair.positive.text ++ " or " ++ pair.negative.text ++ " element is required"
  | .elementRequired element => element.text ++ " element is required"
  | .pairNotAllowed pair =>
    pair.positive.text ++ " and " ++ pair.negative.text ++ " elements are not allowed"
  | .incorrectDefinition element => "incorrect " ++ element.text ++ " definition"
  | .invalidEffect text => "incorrect Effect definition '" ++ text ++ "'"
  | .invalidResourceArn cause => "incorrect Resource definition. " ++ cause.message

/-- A value that has not even the outline of a document. -/
inductive FormatFault
  | documentNotAnObject
  | statementsNotListed
  deriving DecidableEq

/-- The wording of each cause. -/
def FormatFault.message : FormatFault → String
  | .documentNotAnObject => "policy must be an object"
  | .statementsNotListed => "'Statement' element must be an object or an array"

/-- What is wrong with a document. -/
inductive DocumentError
  | missingElement (element : DocumentElement)
  /-- There is no element of this name. -/
  | unsupportedElement (name : String)
  | invalidFormat (fault : FormatFault)
  /-- There is no such version; a value that is no string is given by its text. -/
  | invalidVersion (text : String)
  /-- The statement of this number is refused. -/
  | invalidStatement (index : Nat) (cause : StatementError)
  deriving DecidableEq

/-- The wording of each cause. -/
def DocumentError.message : DocumentError → String
  | .missingElement element => "Invalid policy format: '" ++ element.text ++ "' element is missing"
  | .unsupportedElement name => "Invalid policy format: Unsupported policy element '" ++ name ++ "'"
  | .invalidFormat fault => "Invalid policy format: " ++ fault.message
  | .invalidVersion _ => "Incorrect policy version. Allowed: 2012-10-17, 2008-10-17"
  | .invalidStatement index cause =>
    "Invalid statement " ++ index.repr ++ " format: " ++ cause.message

end AccessPolicy
