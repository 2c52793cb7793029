import LicenseHeaders.Path.Basic
import LicenseHeaders.Store.Cause
import LicenseHeaders.Text.Utf8

/-!
What can go wrong. A fault ends the operation in which it arises, except a failed move, which a run
reports with the file and survives. `message` gives each its wording.
-/
namespace LicenseHeaders

structure FailedMove where
  source : Path
  target : Path
  cause : SystemError
deriving DecidableEq, Repr

inductive TemplateFault where
  | unreadable (cause : SystemError)
  | undecodable (cause : Utf8.Malformed)
deriving DecidableEq, Repr

inductive Fault where
  | system (error : SystemError)
  | template (path : Path) (fault : TemplateFault)
  | failedMove (failure : FailedMove)
  | nameless (path : Path)
  | nullInPath
  | tooDeep
deriving DecidableEq, Repr

def FailedMove.message (f : FailedMove) : Text :=
  "Couldn't rename file " ++ f.source.toText ++ " to " ++ f.target.toText ++ ": " ++
    f.cause.message

def TemplateFault.message : TemplateFault → Text
  | .unreadable cause => cause.message
  | .undecodable cause => cause.message

def Fault.message : Fault → Text
  | .system error => error.message
  | .template path fault =>
    "Cannot read template " ++ path.toText ++ ": " ++ fault.message
  | .failedMove failure => failure.message
  | .nameless path => "PosixPath(" ++ Text.quoted path.toText ++ ") has an empty name"
  | .nullInPath => "embedded null byte"
  | .tooDeep => "directories are nested too deeply"

end LicenseHeaders
