import LicenseHeaders.Text.Printable

/-!
Why the file system refuses an operation. Each cause has its code and its words; the error that a
user sees adds the path it is about, or both paths of a move.
-/
namespace LicenseHeaders

inductive Cause where
  | notFound
  | busy
  | notADirectory
  | isADirectory
  | nameTooLong
  | tooManyLinks
deriving DecidableEq, Repr

namespace Cause

def code : Cause → Int
  | .notFound => 2
  | .busy => 16
  | .notADirectory => 20
  | .isADirectory => 21
  | .nameTooLong => 36
  | .tooManyLinks => 40

def text : Cause → Text
  | .notFound => "No such file or directory"
  | .busy => "Device or resource busy"
  | .notADirectory => "Not a directory"
  | .isADirectory => "Is a directory"
  | .nameTooLong => "File name too long"
  | .tooManyLinks => "Too many levels of symbolic links"

end Cause

inductive Subject where
  | nothing
  | path (path : Text)
  | move (source target : Text)
deriving DecidableEq, Repr

inductive SystemError where
  | bare (text : Text)
  | coded (code : Int) (text : Text) (subject : Subject)
deriving DecidableEq, Repr

namespace SystemError

def ofCause (cause : Cause) (path : Text) : SystemError := .coded cause.code cause.text (.path path)

def ofMove (cause : Cause) (source target : Text) : SystemError :=
  .coded cause.code cause.text (.move source target)

def message : SystemError → Text
  | .bare text => text
  | .coded code text subject =>
    "[Errno " ++ Text.signedDecimal code ++ "] " ++ text ++
      match subject with
      | .nothing => []
      | .path path => ": " ++ Text.quoted path
      | .move source target => ": " ++ Text.quoted source ++ " -> " ++ Text.quoted target

end SystemError

end LicenseHeaders
