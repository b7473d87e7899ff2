import ComponentSurvey.Text.Quoted

/-!
Everything that can go wrong, by cause, and what is said about it.
-/

set_option autoImplicit false

namespace ComponentSurvey

inductive Fault where
  | missing
  | notDirectory
  | isDirectory
  | nameTooLong
  | tooManyLinks
  deriving DecidableEq, Repr

def Fault.number : Fault → Nat
  | .missing => 2
  | .notDirectory => 20
  | .isDirectory => 21
  | .nameTooLong => 36
  | .tooManyLinks => 40

def Fault.text : Fault → String
  | .missing => "No such file or directory"
  | .notDirectory => "Not a directory"
  | .isDirectory => "Is a directory"
  | .nameTooLong => "File name too long"
  | .tooManyLinks => "Too many levels of symbolic links"

inductive Failure where
  /-- A failure of the engine that has no cause of its own. -/
  | engine (text : String)
  /-- The source has a syntax error; its place may be unknown. -/
  | brokenSource (path reason : String) (line column : Option Int)
  | unreadable (path reason : String)
  /-- A record was asked of a node that is none of its kind. -/
  | wrongNode (expected actual : String)
  | unsupportedLanguage (text : String)
  | invalidPattern (pattern : String)
  /-- The recursive wildcard stands inside a longer part of a pattern. -/
  | misplacedRecursion
  /-- A wildcard pattern has no parts; `directory` tells whether it ends with a slash. -/
  | emptyPattern (directory : Bool)
  | nullCharacter
  | notADirectory (path : String)
  | linkLoop (path : String)
  | system (fault : Fault) (path : String)
  deriving DecidableEq, Repr

namespace Failure

def unsupportedSuffix (suffix : String) : Failure :=
  .unsupportedLanguage ("Unsupported file extension: " ++ suffix)

def numberOrNone : Option Int → String
  | none => "None"
  | some n => toString n

def placed (path line column : String) : String := path ++ ":" ++ line ++ ":" ++ column

def brokenSourceText (place reason : String) : String := place ++ ": " ++ reason

def unreadableText (path reason : String) : String := "Cannot read " ++ path ++ ": " ++ reason

def wrongNodeText (expected actual : String) : String :=
  "Expected a " ++ expected ++ " node, got '" ++ actual ++ "'"

def invalidPatternText (quoted : String) : String :=
  "Glob pattern must be relative to the directory: " ++ quoted

def misplacedRecursionText : String :=
  "Invalid pattern: '**' can only be an entire path component"

def emptyPatternText : Bool → String
  | false => "tuple index out of range"
  | true => "'_TerminatingSelector' object has no attribute 'select_from'"

def nullCharacterText : String := "embedded null byte"

def notADirectoryText (path : String) : String := "Not a directory: " ++ path

def linkLoopText (path : String) : String := "Symlink loop from " ++ Text.quoted path

def systemText (fault : Fault) (path : String) : String :=
  "[Errno " ++ toString fault.number ++ "] " ++ fault.text ++ ": " ++ Text.quoted path

def message : Failure → String
  | .engine text => text
  | .brokenSource path reason none _ => brokenSourceText path reason
  | .brokenSource path reason (some line) column =>
    brokenSourceText (placed path (toString line) (numberOrNone column)) reason
  | .unreadable path reason => unreadableText path reason
  | .wrongNode expected actual => wrongNodeText expected actual
  | .unsupportedLanguage text => text
  | .invalidPattern pattern => invalidPatternText (Text.quoted pattern)
  | .misplacedRecursion => misplacedRecursionText
  | .emptyPattern directory => emptyPatternText directory
  | .nullCharacter => nullCharacterText
  | .notADirectory path => notADirectoryText path
  | .linkLoop path => linkLoopText path
  | .system fault path => systemText fault path

/-- Failures of the engine itself, as opposed to the file system and the caller. -/
def isEngine : Failure → Bool
  | .engine _ | .brokenSource .. | .unreadable .. | .wrongNode .. | .unsupportedLanguage _
  | .invalidPattern _ => true
  | _ => false

def isValue : Failure → Bool
  | .unsupportedLanguage _ | .invalidPattern _ | .misplacedRecursion | .nullCharacter => true
  | _ => false

def isSystem : Failure → Bool
  | .notADirectory _ | .system .. => true
  | _ => false

/-- Failures that concern one file and leave a batch, or the command line, in order. -/
def isExpected (f : Failure) : Bool := f.isEngine || f.isSystem

end Failure

end ComponentSurvey
