import BlockIR.Proofs.Decode.Threading

namespace BlockIR.Decode

def keys : List String :=
  ["functions", "name", "args", "type", "instrs", "op", "dest", "funcs", "labels", "value", "label"]

inductive IsSegment : String → Prop
  | entry {key : String} : key ∈ keys → IsSegment key
  | item {key : String} (i : Nat) : key ∈ keys → IsSegment (nth key i)

variable {α β : Type}

def Located (r : Result α) : Prop :=
  ∀ e, r = .error e → ∀ s ∈ e.path, IsSegment s

lemma located_ok (a : α) : Located (.ok a) := by
  rintro e ⟨⟩

lemma located_fail (cause : DecodeCause) : Located (fail [] cause : Result α) := by
  rintro e ⟨⟩
  simp

namespace Located

variable {r : Result α} {read : Tree → Result α}

lemma within (h : Located r) {path : Path} (hpath : ∀ s ∈ path, IsSegment s) : Located (within path r) := by
  intro e he
  cases r with
  | ok a => cases he
  | error e' =>
    cases he
    exact List.forall_mem_append.2 ⟨hpath, h e' rfl⟩

lemma bind {f : α → Result β} (h : Located r) (hf : ∀ a, Located (f a)) : Located (r >>= f) := by
  cases r with
  | ok a => exact hf a
  | error e' =>
    rintro e ⟨⟩
    exact h e' rfl

lemma map (h : Located r) (f : α → β) : Located (r.map f) := by
  cases r with
  | ok a => exact located_ok (f a)
  | error e' =>
    rintro e ⟨⟩
    exact h e' rfl

lemma optional (h : ∀ t, Located (read t)) {key : String} (hk : key ∈ keys) (fields : Table String Tree) :
    Located (optional read fields key) := by
  unfold Decode.optional
  split
  · exact located_ok none
  · exact ((h _).map some).within (List.forall_mem_singleton.2 (.entry hk))

lemma required (h : ∀ t, Located (read t)) {key : String} (hk : key ∈ keys) (fields : Table String Tree) :
    Located (required read fields key) := by
  unfold Decode.required
  split
  · exact located_fail _
  · exact (h _).within (List.forall_mem_singleton.2 (.entry hk))

lemma eachFrom (h : ∀ t, Located (read t)) {key : String} (hk : key ∈ keys) (i : Nat) (ts : List Tree) :
    Located (eachFrom read key i ts) := by
  induction ts generalizing i with
  | nil => exact located_ok []
  | cons t ts ih =>
    have ht := (h t).within (List.forall_mem_singleton.2 (.item i hk))
    exact ht.bind fun a => (ih (i + 1)).bind fun as => located_ok (a :: as)

end Located

lemma asObject_located (t : Tree) : Located (asObject t) := by
  cases t with
  | object fields => exact located_ok fields
  | _ => exact located_fail _

lemma asList_located (t : Tree) : Located (asList t) := by
  unfold asList asListAt
  split
  · exact located_ok _
  · exact located_fail _

lemma asText_located (t : Tree) : Located (asText t) := by
  cases t with
  | text s => exact located_ok s
  | _ => exact located_fail _

lemma asTy_located (t : Tree) : Located (asTy t) := by
  unfold asTy asTyAt
  split
  · split
    · exact located_ok _
    · exact located_fail _
  · exact located_fail _

lemma asLiteral_located (t : Tree) : Located (asLiteral t) := by
  unfold asLiteral asLiteralAt
  split
  · exact located_ok _
  · split
    · exact located_ok _
    · exact located_fail _
  · exact located_fail _

lemma asOp_located (s : Text) : Located (asOp s) := by
  unfold asOp asOpAt
  split
  · exact located_ok _
  · exact located_fail _

lemma asDest_located (t : Tree) : Located (asDest t) := by
  refine (asText_located t).bind fun s => ?_
  split
  · exact located_fail _
  · exact located_ok s

lemma shaped_located (i : Instr) : Located (shaped i) := by
  unfold shaped shapedAt
  split
  · exact located_ok i
  · exact located_fail _

lemma Located.listOf {read : Tree → Result α} (h : ∀ t, Located (read t)) {key : String} (hk : key ∈ keys)
    (fields : Table String Tree) : Located (listOf read fields key) :=
  (Located.optional asList_located hk fields).bind fun _ => Located.eachFrom h hk 0 _

lemma instrFields_located (fields : Table String Tree) : Located (instrFields fields) := by
  have hop (t : Tree) : Located (asText t >>= asOp) := (asText_located t).bind asOp_located
  rw [instrFields_eq]
  refine (Located.required hop (by decide) fields).bind fun _ => ?_
  refine (Located.optional asDest_located (by decide) fields).bind fun _ => ?_
  refine (Located.optional asTy_located (by decide) fields).bind fun _ => ?_
  refine (Located.listOf asText_located (by decide) fields).bind fun _ => ?_
  refine (Located.listOf asText_located (by decide) fields).bind fun _ => ?_
  refine (Located.listOf asText_located (by decide) fields).bind fun _ => ?_
  exact (Located.optional asLiteral_located (by decide) fields).bind fun _ => shaped_located _

lemma item_located (t : Tree) : Located (item t) := by
  rw [item_eq]
  refine (asObject_located t).bind fun fields => ?_
  split
  · exact (instrFields_located fields).bind fun _ => located_ok _
  · split
    · exact (Located.required asText_located (by decide) fields).bind fun _ => located_ok _
    · exact located_fail _

lemma param_located (t : Tree) : Located (param t) := by
  rw [param_eq]
  refine (asObject_located t).bind fun fields => ?_
  refine (Located.required asText_located (by decide) fields).bind fun _ => ?_
  exact (Located.required asTy_located (by decide) fields).bind fun _ => located_ok _

lemma func_located (t : Tree) : Located (func t) := by
  rw [func_eq]
  refine (asObject_located t).bind fun fields => ?_
  refine (Located.required asText_located (by decide) fields).bind fun _ => ?_
  refine (Located.listOf param_located (by decide) fields).bind fun _ => ?_
  refine (Located.optional asTy_located (by decide) fields).bind fun _ => ?_
  refine (Located.optional asList_located (by decide) fields).bind fun _ => ?_
  have hitems (ts : List Tree) : Located (blocks ts) := by
    rw [blocks_eq]
    exact (Located.eachFrom item_located (by decide) 0 ts).bind fun its => located_ok (Block.ofItems its)
  exact (hitems _).bind fun _ => located_ok _

lemma funcsFrom_located (i : Nat) (seen : List Text) (ts : List Tree) : Located (funcsFrom i seen ts) := by
  induction ts generalizing i seen with
  | nil => exact located_ok []
  | cons t ts ih =>
    have hi : IsSegment (nth "functions" i) := .item i (by decide)
    rw [funcsFrom_cons]
    refine ((func_located t).within (List.forall_mem_singleton.2 hi)).bind fun f => ?_
    split
    · exact (located_fail _).within (by simpa using ⟨hi, .entry (by decide)⟩)
    · exact (ih (i + 1) (f.name :: seen)).bind fun fs => located_ok (f :: fs)

lemma program_located (t : Tree) : Located (program t) := by
  rw [program_eq]
  refine (asObject_located t).bind fun fields => ?_
  refine (Located.required asList_located (by decide) fields).bind fun ts => ?_
  exact (funcsFrom_located 0 [] ts).bind fun _ => located_ok _

end BlockIR.Decode
