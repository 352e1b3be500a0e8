/-
Why an operation failed.

A `Failure` is a cause with its data, never a text: callers match on it, and
`Failure.message` is the one place where wording is chosen. Having nothing to
suggest is not a failure.
-/

set_option autoImplicit false

namespace CommandCompletion

/-- What the operating system reports about a path or a file. A cause without a constructor of its
own is kept as the system words it. -/
inductive FileCause where
  | notFound
  | permissionDenied
  | alreadyExists
  | notDirectory
  | isDirectory
  | nameTooLong
  /-- The path holds a NUL character. -/
  | nulInPath
  /-- The file is not valid UTF-8, but text was asked for. -/
  | notText
  | other (text : String)
deriving DecidableEq, Repr, Inhabited

/-- The system's wording, with the number that it gives to the cause. -/
def FileCause.message : FileCause → String
  | notFound => "No such file or directory (os error 2)"
  | permissionDenied => "Permission denied (os error 13)"
  | alreadyExists => "File exists (os error 17)"
  | notDirectory => "Not a directory (os error 20)"
  | isDirectory => "Is a directory (os error 21)"
  | nameTooLong => "File name too long (os error 36)"
  | nulInPath => "file name contained an unexpected NUL byte"
  | notText => "stream did not contain valid UTF-8"
  | other text => text

/-- Causes of failure (specification, § E1.1). -/
inductive Failure where
  /-- No grammar is stored under the key. -/
  | grammarMissing (key : String)
  /-- The document under the key is no grammar. -/
  | grammarMalformed (key reason : String)
  /-- A node names a generator that is not registered. -/
  | generatorUnknown (name : String)
  /-- The resolver cannot load from this location. -/
  | locationUnsupported (location : String)
  | settingsMissing (path : String)
  | settingsMalformed (reason : String)
  | settingInvalid (field value : String)
  | probeNotStarted (command reason : String)
  | probeTimedOut (command : String) (millis : Nat)
  | file (cause : FileCause)
  | json (reason : String)
  /-- A walk reached a state that cannot follow from a command line. -/
  | invalidState (reason : String)
  | other (text : String)
deriving DecidableEq, Repr, Inhabited

/-- The wording of each cause: all that a user gets to see of a failure. -/
def Failure.message : Failure → String
  | grammarMissing key => s!"Catalog error: No spec found for '{key}'"
  | grammarMalformed key reason => s!"Catalog error: Malformed spec '{key}': {reason}"
  | generatorUnknown name => s!"Catalog error: No generator registered as '{name}'"
  | locationUnsupported location => s!"Catalog error: Spec location not supported: {location}"
  | settingsMissing path => s!"Configuration error: Config file not found: {path}"
  | settingsMalformed reason => s!"Configuration error: Invalid config format: {reason}"
  | settingInvalid field value =>
    s!"Configuration error: Invalid value '{value}' for field '{field}'"
  | probeNotStarted command reason => s!"Probe error: Failed to run '{command}': {reason}"
  | probeTimedOut command millis =>
    s!"Probe error: '{command}' did not finish within {millis}ms"
  | file cause => "I/O error: " ++ cause.message
  | json reason => "JSON error: " ++ reason
  | invalidState reason => "Invalid matcher state: " ++ reason
  | other text => text

/-- Whether the failure wraps one reported by the system or by a reader, whose wording ends its own.
-/
def Failure.hasCause : Failure → Bool
  | file _ | json _ => true
  | _ => false

end CommandCompletion
