/-
  The problems that can be reported. Each has a printed name, a message with numbered holes, and
  a family that says which stage finds it; the family decides how serious it is, but for three
  names that may exist at run time after all.
-/

namespace DartAnalysis

/-- How serious a problem is, least serious first. -/
inductive Severity where
  | info
  | warning
  | error
deriving DecidableEq, Repr, Inhabited

namespace Severity

def rank : Severity → Nat
  | .info => 0
  | .warning => 1
  | .error => 2

def name : Severity → String
  | .info => "Info"
  | .warning => "Warning"
  | .error => "Error"

end Severity

namespace Diagnostic

/-- The stage that finds a problem. -/
inductive Family where
  | lexical
  | grammatical
  | binding
  | typing
  | hint
deriving DecidableEq, Repr

def Family.label : Family → String
  | .lexical => "lexical error"
  | .grammatical => "syntax error"
  | .binding => "binding error"
  | .typing => "type error"
  | .hint => "hint"

inductive Code where
  | illegalCharacter
  | unterminatedStringLiteral
  | unterminatedMultiLineComment
  | missingDigit
  | missingHexDigit
  | expectedToken
  | expectedTypeName
  | expectedStringLiteral
  | expectedClassMember
  | expectedExecutable
  | expectedCaseOrDefault
  | missingIdentifier
  | missingExpression
  | missingStatement
  | missingFunctionBody
  | missingFunctionParameters
  | missingCatchOrFinally
  | missingTypedefParameters
  | unexpectedToken
  | nestingTooDeep
  | directiveAfterDeclaration
  | multipleExtendsClauses
  | multipleWithClauses
  | multipleImplementsClauses
  | implementsBeforeExtends
  | withBeforeExtends
  | nonStringLiteralAsUri
  | switchHasMultipleDefaultCases
  | switchHasCaseAfterDefaultCase
  | undefinedIdentifier
  | undefinedClass
  | duplicateDefinition
  | uriDoesNotExist
  | importOfNonLibrary
  | notAType
  | extendsNonClass
  | recursiveInterfaceInheritance
  | invalidReferenceToThis
  | labelUndefined
  | breakOutsideLoop
  | continueOutsideLoop
  | undefinedConstructor
  | nonBoolCondition
  | nonBoolOperand
  | invalidAssignment
  | returnOfInvalidType
  | undefinedMethod
  | undefinedGetter
  | undefinedSetter
  | undefinedOperator
  | undefinedSuperMethod
  | invocationOfNonFunction
  | wrongNumberOfTypeArguments
  | missingReturn
  | deadCode
deriving DecidableEq, Repr, Inhabited

namespace Code

/-- Every code, in order of declaration. -/
def all : List Code :=
  [ .illegalCharacter, .unterminatedStringLiteral, .unterminatedMultiLineComment, .missingDigit,
    .missingHexDigit, .expectedToken, .expectedTypeName, .expectedStringLiteral,
    .expectedClassMember, .expectedExecutable, .expectedCaseOrDefault, .missingIdentifier,
    .missingExpression, .missingStatement, .missingFunctionBody, .missingFunctionParameters,
    .missingCatchOrFinally, .missingTypedefParameters, .unexpectedToken, .nestingTooDeep,
    .directiveAfterDeclaration, .multipleExtendsClauses, .multipleWithClauses,
    .multipleImplementsClauses, .implementsBeforeExtends, .withBeforeExtends,
    .nonStringLiteralAsUri, .switchHasMultipleDefaultCases, .switchHasCaseAfterDefaultCase,
    .undefinedIdentifier, .undefinedClass, .duplicateDefinition, .uriDoesNotExist,
    .importOfNonLibrary, .notAType, .extendsNonClass, .recursiveInterfaceInheritance,
    .invalidReferenceToThis, .labelUndefined, .breakOutsideLoop, .continueOutsideLoop,
    .undefinedConstructor, .nonBoolCondition, .nonBoolOperand, .invalidAssignment,
    .returnOfInvalidType, .undefinedMethod, .undefinedGetter, .undefinedSetter,
    .undefinedOperator, .undefinedSuperMethod, .invocationOfNonFunction,
    .wrongNumberOfTypeArguments, .missingReturn, .deadCode]

def name : Code → String
  | .illegalCharacter => "ILLEGAL_CHARACTER"
  | .unterminatedStringLiteral => "UNTERMINATED_STRING_LITERAL"
  | .unterminatedMultiLineComment => "UNTERMINATED_MULTI_LINE_COMMENT"
  | .missingDigit => "MISSING_DIGIT"
  | .missingHexDigit => "MISSING_HEX_DIGIT"
  | .expectedToken => "EXPECTED_TOKEN"
  | .expectedTypeName => "EXPECTED_TYPE_NAME"
  | .expectedStringLiteral => "EXPECTED_STRING_LITERAL"
  | .expectedClassMember => "EXPECTED_CLASS_MEMBER"
  | .expectedExecutable => "EXPECTED_EXECUTABLE"
  | .expectedCaseOrDefault => "EXPECTED_CASE_OR_DEFAULT"
  | .missingIdentifier => "MISSING_IDENTIFIER"
  | .missingExpression => "MISSING_EXPRESSION"
  | .missingStatement => "MISSING_STATEMENT"
  | .missingFunctionBody => "MISSING_FUNCTION_BODY"
  | .missingFunctionParameters => "MISSING_FUNCTION_PARAMETERS"
  | .missingCatchOrFinally => "MISSING_CATCH_OR_FINALLY"
  | .missingTypedefParameters => "MISSING_TYPEDEF_PARAMETERS"
  | .unexpectedToken => "UNEXPECTED_TOKEN"
  | .nestingTooDeep => "NESTING_TOO_DEEP"
  | .directiveAfterDeclaration => "DIRECTIVE_AFTER_DECLARATION"
  | .multipleExtendsClauses => "MULTIPLE_EXTENDS_CLAUSES"
  | .multipleWithClauses => "MULTIPLE_WITH_CLAUSES"
  | .multipleImplementsClauses => "MULTIPLE_IMPLEMENTS_CLAUSES"
  | .implementsBeforeExtends => "IMPLEMENTS_BEFORE_EXTENDS"
  | .withBeforeExtends => "WITH_BEFORE_EXTENDS"
  | .nonStringLiteralAsUri => "NON_STRING_LITERAL_AS_URI"
  | .switchHasMultipleDefaultCases => "SWITCH_HAS_MULTIPLE_DEFAULT_CASES"
  | .switchHasCaseAfterDefaultCase => "SWITCH_HAS_CASE_AFTER_DEFAULT_CASE"
  | .undefinedIdentifier => "UNDEFINED_IDENTIFIER"
  | .undefinedClass => "UNDEFINED_CLASS"
  | .duplicateDefinition => "DUPLICATE_DEFINITION"
  | .uriDoesNotExist => "URI_DOES_NOT_EXIST"
  | .importOfNonLibrary => "IMPORT_OF_NON_LIBRARY"
  | .notAType => "NOT_A_TYPE"
  | .extendsNonClass => "EXTENDS_NON_CLASS"
  | .recursiveInterfaceInheritance => "RECURSIVE_INTERFACE_INHERITANCE"
  | .invalidReferenceToThis => "INVALID_REFERENCE_TO_THIS"
  | .labelUndefined => "LABEL_UNDEFINED"
  | .breakOutsideLoop => "BREAK_OUTSIDE_LOOP"
  | .continueOutsideLoop => "CONTINUE_OUTSIDE_LOOP"
  | .undefinedConstructor => "UNDEFINED_CONSTRUCTOR"
  | .nonBoolCondition => "NON_BOOL_CONDITION"
  | .nonBoolOperand => "NON_BOOL_OPERAND"
  | .invalidAssignment => "INVALID_ASSIGNMENT"
  | .returnOfInvalidType => "RETURN_OF_INVALID_TYPE"
  | .undefinedMethod => "UNDEFINED_METHOD"
  | .undefinedGetter => "UNDEFINED_GETTER"
  | .undefinedSetter => "UNDEFINED_SETTER"
  | .undefinedOperator => "UNDEFINED_OPERATOR"
  | .undefinedSuperMethod => "UNDEFINED_SUPER_METHOD"
  | .invocationOfNonFunction => "INVOCATION_OF_NON_FUNCTION"
  | .wrongNumberOfTypeArguments => "WRONG_NUMBER_OF_TYPE_ARGUMENTS"
  | .missingReturn => "MISSING_RETURN"
  | .deadCode => "DEAD_CODE"

def ofName? (name : String) : Option Code :=
  all.find? (·.name == name)

/-- Place in the order of declaration. -/
def rank (c : Code) : Nat := all.idxOf c

/-- The message with its holes; hole `n` takes the argument of that index. -/
def template : Code → String
  | .illegalCharacter => "Illegal character '\x7b0\x7d'"
  | .unterminatedStringLiteral => "Unterminated string literal"
  | .unterminatedMultiLineComment => "Unterminated multi-line comment"
  | .missingDigit => "Decimal digit expected"
  | .missingHexDigit => "Hexadecimal digit expected"
  | .expectedToken => "Expected to find '\x7b0\x7d'"
  | .expectedTypeName => "Expected a type name"
  | .expectedStringLiteral => "Expected a string literal"
  | .expectedClassMember => "Expected a class member"
  | .expectedExecutable => "Expected a method, getter, setter or operator declaration"
  | .expectedCaseOrDefault => "Expected 'case' or 'default'"
  | .missingIdentifier => "Expected an identifier"
  | .missingExpression => "Expected an expression"
  | .missingStatement => "Expected a statement"
  | .missingFunctionBody => "A function body must be provided"
  | .missingFunctionParameters => "Functions must have an explicit list of parameters"
  | .missingCatchOrFinally => "A try statement must have either a catch or finally clause"
  | .missingTypedefParameters => "A typedef must have an explicit list of parameters"
  | .unexpectedToken => "Unexpected token '\x7b0\x7d'"
  | .nestingTooDeep => "Expressions and statements are nested too deeply"
  | .directiveAfterDeclaration => "Directives must appear before any declarations"
  | .multipleExtendsClauses => "Each class definition can have at most one extends clause"
  | .multipleWithClauses => "Each class definition can have at most one with clause"
  | .multipleImplementsClauses => "Each class definition can have at most one implements clause"
  | .implementsBeforeExtends => "The extends clause must be before the implements clause"
  | .withBeforeExtends => "The extends clause must be before the with clause"
  | .nonStringLiteralAsUri => "The URI must be a string literal"
  | .switchHasMultipleDefaultCases => "The 'default' case can only be declared once"
  | .switchHasCaseAfterDefaultCase =>
    "The 'default' case should be the last case in a switch statement"
  | .undefinedIdentifier => "Undefined name '\x7b0\x7d'"
  | .undefinedClass => "Undefined class '\x7b0\x7d'"
  | .duplicateDefinition => "The name '\x7b0\x7d' is already defined"
  | .uriDoesNotExist => "Target of URI does not exist: '\x7b0\x7d'"
  | .importOfNonLibrary => "The imported library '\x7b0\x7d' must not have a part-of directive"
  | .notAType => "\x7b0\x7d is not a type"
  | .extendsNonClass => "Classes can only extend other classes"
  | .recursiveInterfaceInheritance => "'\x7b0\x7d' cannot be a superinterface of itself"
  | .invalidReferenceToThis => "Invalid reference to 'this' expression"
  | .labelUndefined => "Cannot reference undefined label '\x7b0\x7d'"
  | .breakOutsideLoop => "A break statement can only be used within a loop or switch"
  | .continueOutsideLoop => "A continue statement can only be used within a loop"
  | .undefinedConstructor => "The class '\x7b0\x7d' does not have a constructor '\x7b1\x7d'"
  | .nonBoolCondition => "Conditions must have a static type of 'bool'"
  | .nonBoolOperand => "The operands of the '\x7b0\x7d' operator must be assignable to 'bool'"
  | .invalidAssignment =>
    "A value of type '\x7b0\x7d' cannot be assigned to a variable of type '\x7b1\x7d'"
  | .returnOfInvalidType =>
    "The return type '\x7b0\x7d' is not a '\x7b1\x7d', as defined by the method '\x7b2\x7d'"
  | .undefinedMethod => "The method '\x7b0\x7d' is not defined for the class '\x7b1\x7d'"
  | .undefinedGetter => "There is no such getter '\x7b0\x7d' in '\x7b1\x7d'"
  | .undefinedSetter => "There is no such setter '\x7b0\x7d' in '\x7b1\x7d'"
  | .undefinedOperator => "There is no such operator '\x7b0\x7d' in '\x7b1\x7d'"
  | .undefinedSuperMethod => "There is no such method '\x7b0\x7d' in '\x7b1\x7d'"
  | .invocationOfNonFunction => "'\x7b0\x7d' is not a method"
  | .wrongNumberOfTypeArguments =>
    "The type '\x7b0\x7d' is declared with \x7b1\x7d type parameters, but \x7b2\x7d type arguments were given"
  | .missingReturn =>
    "This function declares a return type of '\x7b0\x7d', but does not end with a return statement"
  | .deadCode => "Dead code"

def family : Code → Family
  | .illegalCharacter | .unterminatedStringLiteral | .unterminatedMultiLineComment
  | .missingDigit | .missingHexDigit => .lexical
  | .expectedToken | .expectedTypeName | .expectedStringLiteral | .expectedClassMember
  | .expectedExecutable | .expectedCaseOrDefault | .missingIdentifier | .missingExpression
  | .missingStatement | .missingFunctionBody | .missingFunctionParameters
  | .missingCatchOrFinally | .missingTypedefParameters | .unexpectedToken | .nestingTooDeep
  | .directiveAfterDeclaration | .multipleExtendsClauses | .multipleWithClauses
  | .multipleImplementsClauses | .implementsBeforeExtends | .withBeforeExtends
  | .nonStringLiteralAsUri | .switchHasMultipleDefaultCases | .switchHasCaseAfterDefaultCase => .grammatical
  | .undefinedIdentifier | .undefinedClass | .duplicateDefinition | .uriDoesNotExist
  | .importOfNonLibrary | .notAType | .extendsNonClass | .recursiveInterfaceInheritance
  | .invalidReferenceToThis | .labelUndefined | .breakOutsideLoop | .continueOutsideLoop
  | .undefinedConstructor => .binding
  | .nonBoolCondition | .nonBoolOperand | .invalidAssignment | .returnOfInvalidType
  | .undefinedMethod | .undefinedGetter | .undefinedSetter | .undefinedOperator
  | .undefinedSuperMethod | .invocationOfNonFunction | .wrongNumberOfTypeArguments => .typing
  | .missingReturn | .deadCode => .hint

def severity (c : Code) : Severity :=
  match c.family with
  | .lexical | .grammatical => .error
  | .binding =>
    match c with
    | .undefinedIdentifier | .undefinedClass | .undefinedConstructor => .warning
    | _ => .error
  | .typing => .warning
  | .hint => .info

end Code

end Diagnostic

end DartAnalysis
