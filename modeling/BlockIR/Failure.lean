import BlockIR.Decode.Failure
import BlockIR.Editor.Uri
import BlockIR.Folder
import BlockIR.Listing.Failure

namespace BlockIR

inductive Failure where
  | decode (e : DecodeFailure)
  | source (e : SourceFailure)
  | notJson
  | unread (e : ReadFault)
  | badUri (e : UriFault)
  | stated (message : String)
  | wrapped (note : String) (cause : Failure)

namespace Failure

def message : Failure → String
  | decode e => e.message
  | source e => e.message
  | notJson => "failed to parse JSON"
  | unread e => e.message
  | badUri e => e.message
  | stated message => message
  | wrapped note cause => String.join [note, ": ", cause.message]

def decode? : Failure → Option DecodeFailure
  | decode e => some e
  | wrapped _ cause => cause.decode?
  | _ => none

def source? : Failure → Option SourceFailure
  | source e => some e
  | wrapped _ cause => cause.source?
  | _ => none

def unread? : Failure → Option ReadFault
  | unread e => some e
  | wrapped _ cause => cause.unread?
  | _ => none

def isDiagnostic (e : Failure) : Bool :=
  e.decode?.isSome || e.source?.isSome

def hasKind (e : Failure) (k : DecodeKind) : Bool :=
  e.decode?.any (·.kind = k)

end Failure

end BlockIR
