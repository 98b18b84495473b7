import ImportCensus.FileTree
import ImportCensus.SourceFile
import ImportCensus.Text.LineEnd
import ImportCensus.Text.Quoted
import ImportCensus.Text.Utf8

/-!
# Reading source files

The text of a file in a tree, and the result of reading the file.  A file that cannot be read, or
whose bytes are no text, gives a failure like one that cannot be scanned.  Only a path that cannot
even be asked for breaks the task of reading down.
-/

namespace ImportCensus

/-- Why there is no text to be read at a path. -/
inductive ReadError where
  | embeddedNul
  | unreachable (path : Text) (error : PathError)
  | encoding (error : Utf8.Error)
  deriving DecidableEq, Repr

/-- The wording of an error. -/
def ReadError.message : ReadError → String
  | embeddedNul => Path.nulMessage
  | unreachable path error =>
    "[Errno " ++ toString error.number ++ "] " ++ error.message ++ ": "
      ++ (Text.quoted path).toString
  | encoding error => error.message

/-- The text of the file that a path leads to. -/
def Place.textAt (here : Place) (path : Text) : Except ReadError Text :=
  if Path.holdsNul path then .error .embeddedNul
  else
    match here.bytesAt path with
    | .error e => .error (.unreachable path e)
    | .ok bytes =>
      match Utf8.decode bytes with
      | .error e => .error (.encoding e)
      | .ok text => .ok (Text.unifyLines text)

/-- What a task comes to: the result of reading a file, or a breakdown of some kind, perhaps with
a message. -/
inductive TaskOutcome where
  | finished (result : FileResult)
  | crashed (kind message : String)
  deriving DecidableEq, Repr

/-- The result of the task for a file.  A breakdown is a failure of the file, told by its message
or, where there is none, by its kind. -/
def TaskOutcome.result (filepath : Text) : TaskOutcome → FileResult
  | finished result => result
  | crashed kind message =>
    .failed { filepath, error := if message.isEmpty then kind else message }

namespace SourceFile

/-- What reading the file at a path below `root` comes to, and the error of its first scan where a
second was needed.  A path that cannot be asked for breaks the task down. -/
def attemptAt (here : Place) (root filepath : Text) (label : Option Text) :
    TaskOutcome × Option ScanError :=
  match here.textAt (Path.join root filepath) with
  | .error .embeddedNul => (.crashed "ReadError" ReadError.embeddedNul.message, none)
  | .error e => (.finished (.failed { filepath, error := e.message }), none)
  | .ok contents =>
    let extraction := extract contents (Path.extension filepath)
    (.finished (ofExtraction filepath label extraction), extraction.fallback)

/-- What reading the file at a path below `root` comes to. -/
def parseAt (here : Place) (root filepath : Text) (label : Option Text) : TaskOutcome :=
  (attemptAt here root filepath label).1

end SourceFile

end ImportCensus
