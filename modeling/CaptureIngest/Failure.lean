import CaptureIngest.Key
import CaptureIngest.Layout.Defect

/-!
# Failures

Why a name, a look-up or a batch is refused. None of them passes with time: the same input fails
in the same way again. Each cause has one wording, given by `Failure.message`.
-/

namespace CaptureIngest

/-- Why something asked for cannot be had. -/
inductive Failure
  /-- No layout is registered under the key. -/
  | notRegistered (key : Key)
  /-- The layout for the key was refused when it was loaded. -/
  | rejected (key : Key) (reason : Defect)
  /-- The text names no transport. -/
  | unsupportedTransport (text : String)
  /-- Two schemas of one batch give the same definition name. -/
  | sharedName (name : String) (first second : Key)
  /-- The text names no protocol. -/
  | unknownProtocol (text : String)
  /-- The text names no encoding. -/
  | unknownEncoding (text : String)
  /-- The text is no version. -/
  | invalidVersion (text : String)
  deriving DecidableEq, Repr

namespace Failure

/-- The wording of a failure. -/
def message : Failure → String
  | notRegistered key => "no schema registered for " ++ key.render
  | rejected key reason => "schema " ++ key.render ++ " rejected: " ++ reason.message
  | unsupportedTransport text =>
    "unsupported transport '" ++ text ++ "' (expected one of: file, bus)"
  | sharedName name first second =>
    "definition name " ++ name ++ " is produced by both " ++ first.render ++ " and " ++ second.render
  | unknownProtocol text => "unknown protocol '" ++ text ++ "'"
  | unknownEncoding text => "unknown encoding '" ++ text ++ "' (expected one of: csv, rowbinary)"
  | invalidVersion text => "invalid schema version '" ++ text ++ "'"

/-- What a failure goes back to, if it goes back to a layout. -/
def cause? : Failure → Option Defect
  | rejected _ reason => some reason
  | _ => none

end Failure

/-! ## Names that must be known -/

/-- The encoding that a text names. -/
def Encoding.ofText (s : String) : Except Failure Encoding :=
  match Encoding.ofText? s with
  | some e => .ok e
  | none => .error (.unknownEncoding s)

/-- The protocol that a text names. -/
def Protocol.ofText (s : String) : Except Failure Protocol :=
  match Protocol.ofText? s with
  | some p => .ok p
  | none => .error (.unknownProtocol s)

/-- The version of exactly this text. -/
def Version.ofString (s : String) : Except Failure Version :=
  match Version.ofString? s with
  | some v => .ok v
  | none => .error (.invalidVersion s)

/-- The version that a text names, white space around it apart. -/
def Version.ofText (s : String) : Except Failure Version :=
  Version.ofString (Text.trim s)

end CaptureIngest
