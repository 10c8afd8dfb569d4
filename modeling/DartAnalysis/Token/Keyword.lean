/-
  Keywords: the words with a role of their own. Reserved words are never names; built-in and
  pseudo keywords are names wherever their role is not asked for.
-/

namespace DartAnalysis

inductive Keyword where
  | abstractKw | asKw | assertKw | breakKw | caseKw | catchKw | classKw | constKw | continueKw
  | defaultKw | doKw | dynamicKw | elseKw | exportKw | extendsKw | externalKw | factoryKw
  | falseKw | finalKw | finallyKw | forKw | getKw | hideKw | ifKw | implementsKw | importKw
  | inKw | isKw | libraryKw | newKw | nullKw | ofKw | onKw | operatorKw | partKw | rethrowKw
  | returnKw | setKw | showKw | staticKw | superKw | switchKw | thisKw | throwKw | trueKw | tryKw
  | typedefKw | varKw | voidKw | whileKw | withKw
deriving DecidableEq, Repr, Inhabited

namespace Keyword

inductive Category where
  | reserved
  | builtIn
  | pseudo
deriving DecidableEq, Repr

def Category.name : Category → String
  | .reserved => "Reserved"
  | .builtIn => "BuiltIn"
  | .pseudo => "Pseudo"

/-- Every keyword, in order of spelling. -/
def all : List Keyword :=
  [.abstractKw, .asKw, .assertKw, .breakKw, .caseKw, .catchKw, .classKw, .constKw, .continueKw,
   .defaultKw, .doKw, .dynamicKw, .elseKw, .exportKw, .extendsKw, .externalKw, .factoryKw,
   .falseKw, .finalKw, .finallyKw, .forKw, .getKw, .hideKw, .ifKw, .implementsKw, .importKw,
   .inKw, .isKw, .libraryKw, .newKw, .nullKw, .ofKw, .onKw, .operatorKw, .partKw, .rethrowKw,
   .returnKw, .setKw, .showKw, .staticKw, .superKw, .switchKw, .thisKw, .throwKw, .trueKw, .tryKw,
   .typedefKw, .varKw, .voidKw, .whileKw, .withKw]

def spelling : Keyword → String
  | .abstractKw => "abstract"
  | .asKw => "as"
  | .assertKw => "assert"
  | .breakKw => "break"
  | .caseKw => "case"
  | .catchKw => "catch"
  | .classKw => "class"
  | .constKw => "const"
  | .continueKw => "continue"
  | .defaultKw => "default"
  | .doKw => "do"
  | .dynamicKw => "dynamic"
  | .elseKw => "else"
  | .exportKw => "export"
  | .extendsKw => "extends"
  | .externalKw => "external"
  | .factoryKw => "factory"
  | .falseKw => "false"
  | .finalKw => "final"
  | .finallyKw => "finally"
  | .forKw => "for"
  | .getKw => "get"
  | .hideKw => "hide"
  | .ifKw => "if"
  | .implementsKw => "implements"
  | .importKw => "import"
  | .inKw => "in"
  | .isKw => "is"
  | .libraryKw => "library"
  | .newKw => "new"
  | .nullKw => "null"
  | .ofKw => "of"
  | .onKw => "on"
  | .operatorKw => "operator"
  | .partKw => "part"
  | .rethrowKw => "rethrow"
  | .returnKw => "return"
  | .setKw => "set"
  | .showKw => "show"
  | .staticKw => "static"
  | .superKw => "super"
  | .switchKw => "switch"
  | .thisKw => "this"
  | .throwKw => "throw"
  | .trueKw => "true"
  | .tryKw => "try"
  | .typedefKw => "typedef"
  | .varKw => "var"
  | .voidKw => "void"
  | .whileKw => "while"
  | .withKw => "with"

def category : Keyword → Category
  | .abstractKw | .asKw | .dynamicKw | .exportKw | .externalKw | .factoryKw | .getKw
  | .implementsKw | .importKw | .libraryKw | .operatorKw | .partKw | .setKw | .staticKw
  | .typedefKw => .builtIn
  | .hideKw | .ofKw | .onKw | .showKw => .pseudo
  | _ => .reserved

/-- The keyword with a given spelling; case counts. -/
def ofSpelling? (word : String) : Option Keyword :=
  all.find? (·.spelling == word)

def isReserved (k : Keyword) : Bool := k.category == .reserved

end Keyword

end DartAnalysis
