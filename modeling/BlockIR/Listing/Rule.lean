import BlockIR.Listing.Cursor

/-! Rules of a grammar, each with the way it is written in messages. A rule finds something, finds
nothing, or fails part way. -/

namespace BlockIR.Listing

inductive Outcome (α : Type) where
  | absent
  | found (a : α)
  | failed (e : Fault)

namespace Outcome

variable {α β : Type}

def map (f : α → β) : Outcome α → Outcome β
  | absent => absent
  | found a => found (f a)
  | failed e => failed e

end Outcome

structure Rule (α : Type) where
  text : String
  run : Cursor → Outcome α × Cursor

structure Tail (α : Type) where
  text : String
  run : Cursor → Except Fault α × Cursor

namespace Rule

variable {α β : Type}

def map (f : α → β) (r : Rule α) : Rule β where
  text := r.text
  run c :=
    let (o, c) := r.run c
    (o.map f, c)

def token (text : String) (p : Token → Bool) : Rule Lexeme where
  text := text
  run c :=
    match c.rest with
    | [] => (.absent, c)
    | l :: _ => if p l.token then (.found l, c.advance) else (.absent, c)

def literal (s : String) : Rule Lexeme :=
  token (Text.quoted s) fun t => t.text = s

def ofKind (k : TokenKind) : Rule Lexeme :=
  token k.name fun t => t.kind = k

def seq (r : Rule α) (t : Tail β) : Rule (α × β) where
  text := r.text ++ " " ++ t.text
  run c :=
    match r.run c with
    | (.absent, c) => (.absent, c)
    | (.failed e, c) => (.failed e, c)
    | (.found a, c) =>
      match t.run c with
      | (.error e, c) => (.failed e, c)
      | (.ok b, c) => (.found (a, b), c)

def group (r : Rule α) : Rule α :=
  { r with text := "(" ++ r.text ++ ")" }

def opt (r : Rule α) : Rule (Option α) where
  text := r.text ++ "?"
  run c :=
    match r.run c with
    | (.found a, trial) => (.found (some a), c.accept trial)
    | (.absent, trial) => (.found none, c.accept trial)
    | (.failed e, trial) =>
      let c' := (c.note e).heed trial e
      if c.committed trial then (.failed e, c'.accept trial) else (.found none, c')

def manyFrom (r : Rule α) : Nat → Cursor → Outcome (List α) × Cursor
  | 0, c => (.found [], c)
  | fuel + 1, c =>
    match r.run c with
    | (.found a, trial) =>
      match manyFrom r fuel (c.accept trial) with
      | (.found as, c) => (.found (a :: as), c)
      | (.absent, c) => (.found [a], c)
      | (.failed e, c) => (.failed e, c)
    | (.absent, trial) => (.found [], c.accept trial)
    | (.failed e, trial) =>
      let c' := (c.note e).heed trial e
      if c.committed trial then (.failed e, c'.accept trial) else (.found [], c')

def many (r : Rule α) : Rule (List α) where
  text := r.text ++ "*"
  run c := manyFrom r (c.rest.length + 1) c

def firstOf (worst : Option (Fault × Nat)) : List (Rule α) → Cursor → Outcome α × Cursor
  | [], c =>
    match worst with
    | none => (.absent, c)
    | some (e, _) => (.failed e, c.note e)
  | r :: rs, c =>
    match r.run c with
    | (.found a, trial) => (.found a, c.accept trial)
    | (.absent, _) => firstOf worst rs c
    | (.failed e, trial) =>
      let c' := c.heed trial e
      if c.committed trial then (.failed e, c'.accept trial)
      else
        let furthest := (worst.map (·.2)).getD 0
        firstOf (if furthest ≤ trial.passed then some (e, trial.passed) else worst) rs c'

def choice (rs : List (Rule α)) : Rule α where
  text := String.intercalate " | " (rs.map (·.text))
  run c := firstOf none rs c

def named (name : String) (r : Rule α) : Rule (α × Position) where
  text := name
  run c :=
    match r.run c with
    | (.found a, c') => (.found (a, c.pos), c')
    | (.absent, c') => (.absent, c')
    | (.failed e, c') => (.failed e, c'.note e)

def convert (f : α → Except Fault β) (r : Rule α) : Rule β where
  text := r.text
  run c :=
    match r.run c with
    | (.found a, c') =>
      match f a with
      | .ok b => (.found b, c')
      | .error e => (.failed e, c')
    | (.absent, c') => (.absent, c')
    | (.failed e, c') => (.failed e, c')

end Rule

namespace Tail

variable {α β : Type}

def need (expected : String) (r : Rule α) (c : Cursor) : Except Fault α × Cursor :=
  match r.run c with
  | (.found a, c) => (.ok a, c)
  | (.absent, c) => (.error (c.unexpected (some expected)), c)
  | (.failed e, c) => (.error e, c)

def last (r : Rule α) : Tail α where
  text := r.text
  run := need r.text r

def cons (r : Rule α) (t : Tail β) : Tail (α × β) where
  text := r.text ++ " " ++ t.text
  run c :=
    match need (r.text ++ " " ++ t.text) r c with
    | (.error e, c) => (.error e, c)
    | (.ok a, c) =>
      match t.run c with
      | (.error e, c) => (.error e, c)
      | (.ok b, c) => (.ok (a, b), c)

end Tail

end BlockIR.Listing
