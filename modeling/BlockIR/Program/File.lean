import BlockIR.Program.Source

namespace BlockIR

def unreadFile (e : ReadFault) : Failure :=
  .wrapped "failed to read file" (.unread e)

def Program.ofJsonFile (read : Reading) (path : String) : Except Failure Program :=
  match read path with
  | .ok source => ofJson source
  | .error e => .error (if e.cause = .isDirectory then .notJson else unreadFile e)

def Listing.ofFile (read : Reading) (path : String) : Except Failure Listing :=
  match read path with
  | .ok source => (Listing.parse path source.shown).mapError .source
  | .error e => .error (unreadFile e)

end BlockIR
