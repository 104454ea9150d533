import BlockIR.Table
import BlockIR.Text

namespace BlockIR

inductive ReadCause where
  | missing
  | notDirectory
  | isDirectory
  | invalid
  | tooLong
  | other (details : String)
deriving DecidableEq

structure ReadFault where
  path : Text
  cause : ReadCause
deriving DecidableEq

namespace ReadFault

def message (e : ReadFault) : String :=
  match e.cause with
  | .missing => String.join ["open ", e.path.shown, ": no such file or directory"]
  | .notDirectory => String.join ["open ", e.path.shown, ": not a directory"]
  | .isDirectory => String.join ["read ", e.path.shown, ": is a directory"]
  | .invalid => String.join ["open ", e.path.shown, ": invalid argument"]
  | .tooLong => String.join ["open ", e.path.shown, ": file name too long"]
  | .other details => String.join ["open ", e.path.shown, ": ", details]

end ReadFault

abbrev Reading := Text → Except ReadFault Text

abbrev Folder := Table String String

namespace Folder

def splitBytes (b : UInt8) : List UInt8 → List (List UInt8)
  | [] => [[]]
  | c :: cs =>
    if c = b then [] :: splitBytes b cs
    else match splitBytes b cs with
      | [] => [[c]]
      | piece :: pieces => (c :: piece) :: pieces

def segments (path : Text) : List Text :=
  (splitBytes 0x2F path.bytes).map .ofBytes

def file? (files : Folder) (names : List Text) : Option String :=
  (files.find? fun f => segments f.1 = names).map (·.2)

def hasFolder (files : Folder) (names : List Text) : Bool :=
  files.keys.any fun k => (names.isPrefixOf (segments k)) && names.length < (segments k).length

def greatestName : Nat := 255

def pathLimit : Nat := 4096

def outside : List Text → ReadCause
  | [] => .isDirectory
  | step :: steps =>
    if step = "" ∨ step = "." ∨ step = ".." then outside steps
    else if greatestName < step.size then .tooLong
    else .missing

def walk (files : Folder) (names : List Text) : List Text → Except ReadCause String
  | [] => .error .isDirectory
  | step :: steps =>
    if step = "" ∨ step = "." then walk files names steps
    else if step = ".." then
      match names with
      | [] => .error (outside steps)
      | _ => walk files names.dropLast steps
    else if greatestName < step.size then .error .tooLong
    else
      let names := names ++ [step]
      match files.file? names with
      | some content => if steps.isEmpty then .ok content else .error .notDirectory
      | none => if files.hasFolder names then walk files names steps else .error .missing

def find (files : Folder) (path : Text) : Except ReadCause String :=
  if 0 ∈ path.bytes then .error .invalid
  else if pathLimit ≤ path.size then .error .tooLong
  else match segments path with
    | [step] => if step = "" then .error .missing else walk files [] [step]
    | step :: steps =>
      if step = "" then .error (outside steps) else walk files [] (step :: steps)
    | [] => .error .missing

def read (files : Folder) : Reading := fun path =>
  match find files path with
  | .ok content => .ok content
  | .error cause => .error ⟨path, cause⟩

end Folder

end BlockIR
