import BlockIR.Decode
import BlockIR.Proofs.Except

/-! The path that is handed down comes back in front. Reading at a path is reading at the empty path, with the
path put in front of where it fails, and so a record is read inside of others as it is on its own. -/

namespace BlockIR

def DecodeFailure.under (path : List String) (e : DecodeFailure) : DecodeFailure :=
  { e with path := path ++ e.path }

namespace Decode

variable {α β : Type}

def within (path : Path) (r : Result α) : Result α :=
  r.mapError (DecodeFailure.under path)

@[simp] lemma within_ok (path : Path) (a : α) : within path (.ok a) = .ok a := rfl

@[simp] lemma within_error (path : Path) (e : DecodeFailure) :
    within path (.error e : Result α) = .error (e.under path) := rfl

lemma within_within (p q : Path) (r : Result α) : within p (within q r) = within (p ++ q) r := by
  cases r with
  | ok a => rfl
  | error e => simp [DecodeFailure.under]

lemma within_bind (path : Path) (r : Result α) (f : α → Result β) :
    within path (r >>= f) = within path r >>= fun a => within path (f a) := by
  cases r <;> rfl

lemma within_map (path : Path) (r : Result α) (f : α → β) : within path (r.map f) = (within path r).map f := by
  cases r <;> rfl

lemma within_eq_error {path : Path} {r : Result α} {e : DecodeFailure} :
    within path r = .error e ↔ ∃ e', r = .error e' ∧ e'.under path = e :=
  mapError_eq_error

/-- The path that a reader is told is put in front of the one at which it fails on its own. -/
def Threaded (r : Path → Result α) : Prop :=
  ∀ path, r path = within path (r [])

lemma threaded_ok (a : α) : Threaded fun _ => (.ok a : Result α) :=
  fun _ => rfl

lemma threaded_fail (cause : DecodeCause) : Threaded fun path => (fail path cause : Result α) := by
  intro path
  simp [fail, DecodeFailure.under]

namespace Threaded

variable {r : Path → Result α} {read : Reader α}

lemma bind {f : α → Path → Result β} (h : Threaded r) (hf : ∀ a, Threaded (f a)) :
    Threaded fun path => r path >>= fun a => f a path := by
  intro path
  change (r path >>= fun a => f a path) = within path (r [] >>= fun a => f a [])
  rw [within_bind, ← h path]
  exact congrArg (r path >>= ·) (funext fun a => hf a path)

lemma map (h : Threaded r) (f : α → β) : Threaded fun path => (r path).map f := by
  intro path
  change (r path).map f = within path ((r []).map f)
  rw [within_map, ← h path]

lemma child (h : Threaded r) (segment : String) : Threaded fun path => r (child path segment) := by
  intro path
  change r (path ++ [segment]) = within path (r [segment])
  rw [h [segment], within_within, ← h]

lemma error_eq (h : Threaded r) {path : Path} {e e' : DecodeFailure} (he : r path = .error e)
    (he' : r [] = .error e') : e = e'.under path := by
  rw [h path, he'] at he
  exact (Except.error.inj he).symm

lemma optional (h : ∀ t, Threaded (read · t)) (fields : Table String Tree) (key : String) :
    Threaded fun path => optionalAt read path fields key := by
  unfold optionalAt
  split
  · exact threaded_ok none
  · exact ((h _).child key).map some

lemma required (h : ∀ t, Threaded (read · t)) (fields : Table String Tree) (key : String) :
    Threaded fun path => requiredAt read path fields key := by
  refine (Threaded.optional h fields key).bind fun o => ?_
  cases o with
  | none => exact threaded_fail (.missingField key)
  | some a => exact threaded_ok a

lemma eachFrom (h : ∀ t, Threaded (read · t)) (key : String) (i : Nat) (ts : List Tree) :
    Threaded fun path => eachFromAt read path key i ts := by
  induction ts generalizing i with
  | nil => exact threaded_ok []
  | cons t ts ih =>
    exact ((h t).child (nth key i)).bind fun a => (ih (i + 1)).bind fun as => threaded_ok (a :: as)

end Threaded

lemma asObjectAt_threaded (t : Tree) : Threaded (asObjectAt · t) := by
  cases t with
  | object fields => exact threaded_ok fields
  | _ => exact threaded_fail _

lemma asListAt_threaded (t : Tree) : Threaded (asListAt · t) := by
  unfold asListAt
  split
  · exact threaded_ok _
  · exact threaded_fail _

lemma asTextAt_threaded (t : Tree) : Threaded (asTextAt · t) := by
  cases t with
  | text s => exact threaded_ok s
  | _ => exact threaded_fail _

lemma asTyAt_threaded (t : Tree) : Threaded (asTyAt · t) := by
  unfold asTyAt
  split
  · split
    · exact threaded_ok _
    · exact threaded_fail _
  · exact threaded_fail _

lemma asLiteralAt_threaded (t : Tree) : Threaded (asLiteralAt · t) := by
  unfold asLiteralAt
  split
  · exact threaded_ok _
  · split
    · exact threaded_ok _
    · exact threaded_fail _
  · exact threaded_fail _

lemma asOpAt_threaded (s : Text) : Threaded (asOpAt · s) := by
  unfold asOpAt
  split
  · exact threaded_ok _
  · exact threaded_fail _

lemma shapedAt_threaded (i : Instr) : Threaded (shapedAt · i) := by
  unfold shapedAt
  split
  · exact threaded_ok i
  · exact threaded_fail _

lemma Threaded.list {read : Reader α} (h : ∀ t, Threaded (read · t)) (fields : Table String Tree) (key : String) :
    Threaded fun path => listAt read path fields key :=
  (Threaded.optional asListAt_threaded fields key).bind fun _ => Threaded.eachFrom h key 0 _

lemma opAt_threaded (fields : Table String Tree) : Threaded (opAt · fields) :=
  (Threaded.required asTextAt_threaded fields "op").bind fun s => (asOpAt_threaded s).child "op"

lemma destAt_threaded (fields : Table String Tree) : Threaded (destAt · fields) := by
  refine (Threaded.optional asTextAt_threaded fields "dest").bind fun dest => ?_
  split
  · exact (threaded_fail .emptyDestination).child "dest"
  · exact threaded_ok dest

lemma instrFieldsAt_threaded (fields : Table String Tree) : Threaded (instrFieldsAt · fields) := by
  refine (opAt_threaded fields).bind fun _ => ?_
  refine (destAt_threaded fields).bind fun _ => ?_
  refine (Threaded.optional asTyAt_threaded fields "type").bind fun _ => ?_
  refine (Threaded.list asTextAt_threaded fields "args").bind fun _ => ?_
  refine (Threaded.list asTextAt_threaded fields "funcs").bind fun _ => ?_
  refine (Threaded.list asTextAt_threaded fields "labels").bind fun _ => ?_
  exact (Threaded.optional asLiteralAt_threaded fields "value").bind fun _ => shapedAt_threaded _

lemma itemAt_threaded (t : Tree) : Threaded (itemAt · t) := by
  refine (asObjectAt_threaded t).bind fun fields => ?_
  split
  · exact (instrFieldsAt_threaded fields).bind fun _ => threaded_ok _
  · split
    · exact (Threaded.required asTextAt_threaded fields "label").bind fun _ => threaded_ok _
    · exact threaded_fail .neitherOpNorLabel

lemma blocksAt_threaded (ts : List Tree) : Threaded (blocksAt · ts) :=
  (Threaded.eachFrom itemAt_threaded "instrs" 0 ts).bind fun _ => threaded_ok _

lemma paramAt_threaded (t : Tree) : Threaded (paramAt · t) := by
  refine (asObjectAt_threaded t).bind fun fields => ?_
  refine (Threaded.required asTextAt_threaded fields "name").bind fun _ => ?_
  exact (Threaded.required asTyAt_threaded fields "type").bind fun _ => threaded_ok _

lemma funcAt_threaded (t : Tree) : Threaded (funcAt · t) := by
  refine (asObjectAt_threaded t).bind fun fields => ?_
  refine (Threaded.required asTextAt_threaded fields "name").bind fun _ => ?_
  refine (Threaded.list paramAt_threaded fields "args").bind fun _ => ?_
  refine (Threaded.optional asTyAt_threaded fields "type").bind fun _ => ?_
  refine (Threaded.optional asListAt_threaded fields "instrs").bind fun _ => ?_
  exact (blocksAt_threaded _).bind fun _ => threaded_ok _

def asObject (t : Tree) : Result (Table String Tree) :=
  asObjectAt [] t

def asList (t : Tree) : Result (List Tree) :=
  asListAt [] t

def asText (t : Tree) : Result Text :=
  asTextAt [] t

def asTy (t : Tree) : Result Ty :=
  asTyAt [] t

def asLiteral (t : Tree) : Result Literal :=
  asLiteralAt [] t

def asOp (s : Text) : Result Op :=
  asOpAt [] s

def asDest (t : Tree) : Result Text := do
  let s ← asText t
  if s = "" then fail [] .emptyDestination else return s

def shaped (i : Instr) : Result Instr :=
  shapedAt [] i

def instrFields (fields : Table String Tree) : Result Instr :=
  instrFieldsAt [] fields

def item (t : Tree) : Result Item :=
  itemAt [] t

def param (t : Tree) : Result Param :=
  paramAt [] t

def optional (read : Tree → Result α) (fields : Table String Tree) (key : String) : Result (Option α) :=
  match fields.get? key with
  | none => .ok none
  | some t => within [key] ((read t).map some)

def required (read : Tree → Result α) (fields : Table String Tree) (key : String) : Result α :=
  match fields.get? key with
  | none => fail [] (.missingField key)
  | some t => within [key] (read t)

def eachFrom (read : Tree → Result α) (key : String) : Nat → List Tree → Result (List α)
  | _, [] => .ok []
  | i, t :: ts => do
    let a ← within [nth key i] (read t)
    let as ← eachFrom read key (i + 1) ts
    return a :: as

def each (read : Tree → Result α) (key : String) (ts : List Tree) : Result (List α) :=
  eachFrom read key 0 ts

def listOf (read : Tree → Result α) (fields : Table String Tree) (key : String) : Result (List α) := do
  let ts ← optional asList fields key
  each read key (ts.getD [])

section

variable {read : Reader α} (h : ∀ t, Threaded (read · t)) (fields : Table String Tree) (key : String)

include h

lemma optionalAt_nil : optionalAt read [] fields key = optional (read []) fields key := by
  unfold optionalAt optional
  cases fields.get? key with
  | none => rfl
  | some t =>
    change (read [key] t).map some = within [key] ((read [] t).map some)
    rw [within_map, ← h t [key]]

lemma requiredAt_nil : requiredAt read [] fields key = required (read []) fields key := by
  rw [requiredAt, optionalAt_nil h, optional, required]
  cases fields.get? key with
  | none => rfl
  | some t =>
    change (within [key] ((read [] t).map some) >>= _) = within [key] (read [] t)
    cases read [] t <;> rfl

lemma eachFromAt_nil (i : Nat) (ts : List Tree) : eachFromAt read [] key i ts = eachFrom (read []) key i ts := by
  induction ts generalizing i with
  | nil => rfl
  | cons t ts ih =>
    have ht : read (index [] key i) t = within [nth key i] (read [] t) := h t [nth key i]
    rw [eachFromAt, eachFrom, ht, ih]

lemma listAt_nil : listAt read [] fields key = listOf (read []) fields key := by
  have hlist : optionalAt asListAt [] fields key = optional asList fields key := optionalAt_nil asListAt_threaded ..
  simp only [listAt, listOf, each, hlist, eachFromAt_nil h]

end

lemma opAt_nil (fields : Table String Tree) : opAt [] fields = required (fun t => asText t >>= asOp) fields "op" := by
  rw [opAt, requiredAt_nil asTextAt_threaded, required, required]
  cases fields.get? "op" with
  | none => rfl
  | some t =>
    change (within ["op"] (asText t) >>= fun s => asOpAt ["op"] s) = within ["op"] (asText t >>= asOp)
    rw [within_bind]
    exact congrArg (within ["op"] (asText t) >>= ·) (funext fun s => asOpAt_threaded s ["op"])

lemma destAt_nil (fields : Table String Tree) : destAt [] fields = optional asDest fields "dest" := by
  rw [destAt, optionalAt_nil asTextAt_threaded, optional, optional]
  cases fields.get? "dest" with
  | none => rfl
  | some t =>
    change (within ["dest"] ((asText t).map some) >>= _) = within ["dest"] ((asText t >>= _).map some)
    cases asText t with
    | error e => rfl
    | ok s =>
      by_cases hs : s = ""
      · subst hs
        rfl
      · have hsome : some s ≠ some "" := fun h => hs (Option.some.inj h)
        change (if some s = some "" then _ else _) = within ["dest"] ((if s = "" then _ else _ : Result Text).map some)
        rw [if_neg hsome, if_neg hs]
        rfl

lemma instrFields_eq (fields : Table String Tree) : instrFields fields = (do
    let op ← required (fun t => asText t >>= asOp) fields "op"
    let dest ← optional asDest fields "dest"
    let type ← optional asTy fields "type"
    let args ← listOf asText fields "args"
    let funcs ← listOf asText fields "funcs"
    let labels ← listOf asText fields "labels"
    let value ← optional asLiteral fields "value"
    shaped ⟨op, dest, type, args, funcs, labels, value⟩) := by
  simp only [instrFields, instrFieldsAt, opAt_nil, destAt_nil, optionalAt_nil asTyAt_threaded,
    listAt_nil asTextAt_threaded, optionalAt_nil asLiteralAt_threaded]
  rfl

lemma item_eq (t : Tree) : item t = (do
    let fields ← asObject t
    if (fields.get? "op").isSome then
      return .instr (← instrFields fields)
    else if (fields.get? "label").isSome then
      return .label (← required asText fields "label")
    else fail [] .neitherOpNorLabel) := by
  simp only [item, itemAt, requiredAt_nil asTextAt_threaded]
  rfl

lemma blocks_eq (ts : List Tree) : blocks ts = (do
    let items ← each item "instrs" ts
    return Block.ofItems items) := by
  rw [blocks, blocksAt, eachFromAt_nil itemAt_threaded]
  rfl

lemma param_eq (t : Tree) : param t = (do
    let fields ← asObject t
    let name ← required asText fields "name"
    let type ← required asTy fields "type"
    return ⟨name, some type⟩) := by
  simp only [param, paramAt, requiredAt_nil asTextAt_threaded, requiredAt_nil asTyAt_threaded]
  rfl

lemma func_eq (t : Tree) : func t = (do
    let fields ← asObject t
    let name ← required asText fields "name"
    let params ← listOf param fields "args"
    let ret ← optional asTy fields "type"
    let records ← optional asList fields "instrs"
    let blocks ← blocks (records.getD [])
    return ⟨name, params, ret, blocks⟩) := by
  simp only [func, funcAt, requiredAt_nil asTextAt_threaded, listAt_nil paramAt_threaded,
    optionalAt_nil asTyAt_threaded, optionalAt_nil asListAt_threaded]
  rfl

lemma funcsFrom_cons (i : Nat) (seen : List Text) (t : Tree) (ts : List Tree) : funcsFrom i seen (t :: ts) = (do
    let f ← within [nth "functions" i] (func t)
    if f.name ∈ seen then
      within [nth "functions" i, "name"] (fail [] (.repeatedFunction f.name))
    else
      let fs ← funcsFrom (i + 1) (f.name :: seen) ts
      return f :: fs) := by
  have hf : funcAt (index [] "functions" i) t = within [nth "functions" i] (func t) :=
    funcAt_threaded t [nth "functions" i]
  rw [funcsFrom, hf]
  rfl

lemma program_eq (t : Tree) : program t = (do
    let fields ← asObject t
    let ts ← required asList fields "functions"
    let fs ← funcsFrom 0 [] ts
    return ⟨fs⟩) := by
  simp only [program, requiredAt_nil asListAt_threaded]
  rfl

end Decode

end BlockIR
