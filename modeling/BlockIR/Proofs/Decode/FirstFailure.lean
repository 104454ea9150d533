import BlockIR.Proofs.Decode.Schema
import BlockIR.Proofs.Number.Decimal

namespace BlockIR.Decode

variable {α : Type} {read : Tree → Result α}

lemma nth_injective {key : String} {i j : Nat} (h : nth key i = nth key j) : i = j := by
  have hlists := congrArg String.toList h
  simp [nth, Decimal.ofNat] at hlists
  exact Decimal.digits_injective hlists

structure FailsFirst (read : Tree → Result α) (ts : List Tree) (j : Nat) (e : DecodeFailure) : Prop where
  fails : ∃ t, ts[j]? = some t ∧ read t = .error e
  earlier : ∀ t ∈ ts.take j, ∃ a, read t = .ok a

lemma failsFirst_nil {j : Nat} {e : DecodeFailure} : ¬ FailsFirst read [] j e := by
  rintro ⟨⟨t, ht, _⟩, _⟩
  cases ht

lemma failsFirst_cons_zero {t : Tree} {ts : List Tree} {e : DecodeFailure} :
    FailsFirst read (t :: ts) 0 e ↔ read t = .error e := by
  constructor
  · rintro ⟨⟨u, hu, h⟩, _⟩
    cases hu
    exact h
  · intro h
    exact ⟨⟨t, rfl, h⟩, by simp⟩

lemma failsFirst_cons_succ {t : Tree} {ts : List Tree} {j : Nat} {e : DecodeFailure} :
    FailsFirst read (t :: ts) (j + 1) e ↔ (∃ a, read t = .ok a) ∧ FailsFirst read ts j e := by
  constructor
  · rintro ⟨hfails, hearlier⟩
    obtain ⟨ht, hts⟩ := List.forall_mem_cons.1 hearlier
    exact ⟨ht, hfails, hts⟩
  · rintro ⟨ht, hfails, hearlier⟩
    exact ⟨hfails, List.forall_mem_cons.2 ⟨ht, hearlier⟩⟩

lemma eachFrom_eq_error {key : String} {i : Nat} {ts : List Tree} {e : DecodeFailure} :
    eachFrom read key i ts = .error e ↔ ∃ j e', FailsFirst read ts j e' ∧ e'.under [nth key (i + j)] = e := by
  induction ts generalizing i with
  | nil => simp [eachFrom, failsFirst_nil]
  | cons t ts ih =>
    simp only [eachFrom, bind_eq_error, within_eq_error, ih]
    constructor
    · rintro (⟨e', he, rfl⟩ | ⟨a, ha, ⟨j, e', hj, rfl⟩ | ⟨as, _, h⟩⟩)
      · exact ⟨0, e', failsFirst_cons_zero.2 he, rfl⟩
      · refine ⟨j + 1, e', failsFirst_cons_succ.2 ⟨⟨a, mapError_eq_ok.1 ha⟩, hj⟩, ?_⟩
        rw [Nat.add_right_comm, Nat.add_assoc]
      · cases h
    · rintro ⟨_ | j, e', hj, rfl⟩
      · exact .inl ⟨e', failsFirst_cons_zero.1 hj, rfl⟩
      · obtain ⟨⟨a, ha⟩, hj⟩ := failsFirst_cons_succ.1 hj
        refine .inr ⟨a, mapError_eq_ok.2 ha, .inl ⟨j, e', hj, ?_⟩⟩
        rw [Nat.add_right_comm, Nat.add_assoc]

lemma exists_failsFirst {ts : List Tree} : (∃ j e, FailsFirst read ts j e) ↔ ∃ t ∈ ts, ∃ e, read t = .error e := by
  constructor
  · rintro ⟨j, e, ⟨t, ht, he⟩, _⟩
    exact ⟨t, List.mem_of_getElem? ht, e, he⟩
  · rintro ⟨t, ht, e, he⟩
    induction ts with
    | nil => cases ht
    | cons u ts ih =>
      cases hu : read u with
      | error e' => exact ⟨0, e', failsFirst_cons_zero.2 hu⟩
      | ok a =>
        have hts : t ∈ ts := by
          refine (List.mem_cons.1 ht).resolve_left ?_
          rintro rfl
          rw [hu] at he
          cases he
        obtain ⟨j, e', hj⟩ := ih hts
        exact ⟨j + 1, e', failsFirst_cons_succ.2 ⟨⟨a, hu⟩, hj⟩⟩

/-- What is wrong with a function record after functions with the names `seen`: it has a failure of its own, or
its name is not new. -/
inductive FuncFailure (seen : List Text) (t : Tree) : DecodeFailure → Prop
  | own {e : DecodeFailure} : func t = .error e → FuncFailure seen t e
  | repeated {f : Func} : func t = .ok f → f.name ∈ seen → FuncFailure seen t ⟨["name"], .repeatedFunction f.name⟩

lemma FuncFailure.mono {seen seen' : List Text} {t : Tree} {e : DecodeFailure} (h : FuncFailure seen t e)
    (hs : seen ⊆ seen') : FuncFailure seen' t e := by
  cases h with
  | own h => exact .own h
  | repeated h hx => exact .repeated h (hs hx)

def FuncFailsFirst (seen : List Text) (ts : List Tree) (j : Nat) (e : DecodeFailure) : Prop :=
  ∃ t fs, ts[j]? = some t ∧ Reads func (ts.take j) fs ∧ (fs.map Func.name).Nodup ∧
    (∀ f ∈ fs, f.name ∉ seen) ∧ FuncFailure (fs.map Func.name ++ seen) t e

section

variable {seen : List Text} {t : Tree} {ts : List Tree} {j : Nat} {e : DecodeFailure}

lemma funcFailsFirst_nil : ¬ FuncFailsFirst seen [] j e := by
  rintro ⟨t, _, ht, _⟩
  cases ht

lemma funcFailsFirst_cons_zero : FuncFailsFirst seen (t :: ts) 0 e ↔ FuncFailure seen t e := by
  constructor
  · rintro ⟨u, fs, hu, hfs, _, _, h⟩
    cases hu
    cases hfs
    exact h
  · intro h
    exact ⟨t, [], rfl, .nil, List.nodup_nil, by simp, h⟩

lemma funcFailsFirst_cons_succ : FuncFailsFirst seen (t :: ts) (j + 1) e ↔
    ∃ f, func t = .ok f ∧ f.name ∉ seen ∧ FuncFailsFirst (f.name :: seen) ts j e := by
  constructor
  · rintro ⟨u, fs, hu, hfs, hnodup, hnew, h⟩
    cases hfs with
    | @cons _ f _ gs hf hgs =>
      obtain ⟨hfresh, hnodup⟩ := List.nodup_cons.1 hnodup
      obtain ⟨hnewf, hnew⟩ := List.forall_mem_cons.1 hnew
      refine ⟨f, hf, hnewf, u, gs, hu, hgs, hnodup, fun g hg hmem => ?_, h.mono List.perm_middle.symm.subset⟩
      rcases List.mem_cons.1 hmem with hgf | hmem
      · exact hfresh (hgf ▸ List.mem_map_of_mem hg)
      · exact hnew g hg hmem
  · rintro ⟨f, hf, hnewf, u, gs, hu, hgs, hnodup, hnew, h⟩
    refine ⟨u, f :: gs, hu, .cons hf hgs, List.nodup_cons.2 ⟨?_, hnodup⟩, ?_, h.mono List.perm_middle.subset⟩
    · intro hmem
      obtain ⟨g, hg, hgf⟩ := List.mem_map.1 hmem
      exact hnew g hg (hgf ▸ List.mem_cons_self)
    · exact List.forall_mem_cons.2 ⟨hnewf, fun g hg hmem => hnew g hg (List.mem_cons_of_mem _ hmem)⟩

lemma funcsFrom_eq_error {i : Nat} : funcsFrom i seen ts = .error e ↔
    ∃ j e', FuncFailsFirst seen ts j e' ∧ e'.under [nth "functions" (i + j)] = e := by
  induction ts generalizing i seen with
  | nil => simp [funcsFrom, funcFailsFirst_nil]
  | cons t ts ih =>
    rw [funcsFrom_cons, bind_eq_error]
    simp only [within_eq_error]
    constructor
    · rintro (⟨e', he, rfl⟩ | ⟨f, hf, h⟩)
      · exact ⟨0, e', funcFailsFirst_cons_zero.2 (.own he), rfl⟩
      · have hf := mapError_eq_ok.1 hf
        split at h
        · cases h
          exact ⟨0, _, funcFailsFirst_cons_zero.2 (.repeated hf ‹_›), rfl⟩
        · rcases bind_eq_error.1 h with h | ⟨fs, _, h⟩
          · obtain ⟨j, e', hj, rfl⟩ := ih.1 h
            refine ⟨j + 1, e', funcFailsFirst_cons_succ.2 ⟨f, hf, ‹_›, hj⟩, ?_⟩
            rw [Nat.add_right_comm, Nat.add_assoc]
          · cases h
    · rintro ⟨_ | j, e', hj, rfl⟩
      · cases funcFailsFirst_cons_zero.1 hj with
        | own he => exact .inl ⟨e', he, rfl⟩
        | repeated hf hseen =>
          refine .inr ⟨_, mapError_eq_ok.2 hf, ?_⟩
          rw [if_pos hseen]
          rfl
      · obtain ⟨f, hf, hnew, hj⟩ := funcFailsFirst_cons_succ.1 hj
        refine .inr ⟨f, mapError_eq_ok.2 hf, ?_⟩
        rw [if_neg hnew]
        refine bind_eq_error.2 (.inl (ih.2 ⟨j, e', hj, ?_⟩))
        rw [Nat.add_right_comm, Nat.add_assoc]

end

section

variable {fields : Table String Tree} {e : DecodeFailure}

lemma program_eq_error {t : Tree} {ts : List Tree} (ht : fields.get? "functions" = some t)
    (hts : t.items? = some ts) : program (.object fields) = .error e ↔
      ∃ j e', FuncFailsFirst [] ts j e' ∧ e'.under [nth "functions" j] = e := by
  have hlist : required asList fields "functions" = .ok ts :=
    required_ok.2 ⟨t, ht, by rw [asList, asListAt, hts]⟩
  have hprogram : program (.object fields) = funcsFrom 0 [] ts >>= fun fs => .ok ⟨fs⟩ := by
    rw [program_eq, asObject_ok.2 rfl, ok_bind, hlist]
    rfl
  rw [hprogram, bind_eq_error, funcsFrom_eq_error]
  simp

lemma func_eq_error {x : Text} {ps : List Param} {ret : Option Ty} {ts : Option (List Tree)}
    (hx : Has asText fields "name" x) (hps : HasList param fields "args" ps) (hret : MayHave asTy fields "type" ret)
    (hts : MayHave asList fields "instrs" ts) : func (.object fields) = .error e ↔
      ∃ j e', FailsFirst item (ts.getD []) j e' ∧ e'.under [nth "instrs" j] = e := by
  have hfunc : func (.object fields) = each item "instrs" (ts.getD []) >>= fun its =>
      .ok ⟨x, ps, ret, Block.ofItems its⟩ := by
    simp only [func_eq, asObject_ok.2 rfl, required_ok.2 hx, listOf_ok.2 hps, optional_ok.2 hret,
      optional_ok.2 hts, blocks_eq, ok_bind]
    cases each item "instrs" (ts.getD []) <;> rfl
  rw [hfunc, bind_eq_error, each, eachFrom_eq_error]
  simp

def Enters (key segment : String) : Prop :=
  key.toList ++ ['['] <+: segment.toList

instance (key segment : String) : Decidable (Enters key segment) :=
  inferInstanceAs (Decidable (_ <+: _))

lemma enters_nth (key : String) (i : Nat) : Enters key (nth key i) :=
  ⟨(Decimal.ofNat i).toList ++ [']'], by simp [nth]⟩

lemma required_head {key : String} (h : required read fields key = .error e) : ∀ s ∈ e.path.head?, s = key := by
  unfold required at h
  split at h
  · cases h
    simp
  · obtain ⟨e', _, rfl⟩ := within_eq_error.1 h
    simp [DecodeFailure.under]

lemma optional_head {key : String} (h : optional read fields key = .error e) : ∀ s ∈ e.path.head?, s = key := by
  unfold optional at h
  split at h
  · cases h
  · obtain ⟨e', _, rfl⟩ := within_eq_error.1 h
    simp [DecodeFailure.under]

lemma listOf_head {key : String} (h : listOf read fields key = .error e) :
    ∀ s ∈ e.path.head?, s = key ∨ ∃ i, s = nth key i := by
  rcases bind_eq_error.1 h with h | ⟨ts, _, h⟩
  · exact fun s hs => .inl (optional_head h s hs)
  · obtain ⟨i, e', _, rfl⟩ := eachFrom_eq_error.1 h
    simp [DecodeFailure.under]

lemma func_failure_cases (h : func (.object fields) = .error e) :
    (∃ ts j e', MayHave asList fields "instrs" ts ∧ FailsFirst item (ts.getD []) j e' ∧
      e'.under [nth "instrs" j] = e) ∨ ∀ s ∈ e.path.head?, ¬ Enters "instrs" s := by
  have hentry {key : String} (hkey : ¬ Enters "instrs" key) (hhead : ∀ s ∈ e.path.head?, s = key) :
      ∀ s ∈ e.path.head?, ¬ Enters "instrs" s := fun s hs => hhead s hs ▸ hkey
  have hfunc := func_eq (.object fields)
  rw [asObject_ok.2 rfl, ok_bind] at hfunc
  rw [hfunc] at h
  rcases bind_eq_error.1 h with hx | ⟨x, hx, h⟩
  · exact .inr (hentry (by decide) (required_head hx))
  rcases bind_eq_error.1 h with hps | ⟨ps, hps, h⟩
  · refine .inr fun s hs => ?_
    rcases listOf_head hps s hs with rfl | ⟨i, rfl⟩
    · decide
    · simp [Enters, nth]
  rcases bind_eq_error.1 h with hret | ⟨ret, hret, h⟩
  · exact .inr (hentry (by decide) (optional_head hret))
  rcases bind_eq_error.1 h with hts | ⟨ts, hts, h⟩
  · exact .inr (hentry (by decide) (optional_head hts))
  · obtain ⟨j, e', hj, rfl⟩ := (func_eq_error (required_ok.1 hx) (listOf_ok.1 hps) (optional_ok.1 hret)
      (optional_ok.1 hts)).1 (by simpa only [hfunc, ok_bind, hx, hps, hret, hts] using h)
    exact .inl ⟨ts, j, e', optional_ok.1 hts, hj, rfl⟩

lemma item_eq_error_iff_instr (h : (fields.get? "op").isSome) :
    item (.object fields) = .error e ↔ instr (.object fields) = .error e := by
  have hitem : item (.object fields) = instr (.object fields) >>= fun i => .ok (.instr i) := by
    simp only [item_eq, asObject_ok.2 rfl, ok_bind, h, if_true]
    rfl
  rw [hitem, bind_eq_error]
  simp

end

/-- Decoding a program stops at the first function record that has a failure of its own or repeats a name, and
decoding a function at the first record of its body that fails. Inside of other records a failure is the same as
on its own, with the path to the record in front. -/
theorem fails_at_first_record (fields : Table String Tree) (t : Tree) (ts : List Tree)
    (ht : fields.get? "functions" = some t) (hts : t.items? = some ts) :
    (∀ i e, program (.object fields) = .error e ∧ e.path.head? = some (nth "functions" i) ↔
      ∃ fs u e', Reads func (ts.take i) fs ∧ (fs.map Func.name).Nodup ∧ ts[i]? = some u ∧
        FuncFailure (fs.map Func.name) u e' ∧ e = e'.under [nth "functions" i]) ∧
    (∀ record x ps ret records, Has asText record "name" x → HasList param record "args" ps →
      MayHave asTy record "type" ret → MayHave asList record "instrs" records →
        ((∃ e, func (.object record) = .error e) ↔ ∃ u ∈ records.getD [], ∃ e, item u = .error e) ∧
        ∀ e, func (.object record) = .error e ↔
          ∃ j e', FailsFirst item (records.getD []) j e' ∧ e = e'.under [nth "instrs" j]) ∧
    (∀ (record : Table String Tree) e, (record.get? "op").isSome →
      (item (.object record) = .error e ↔ instr (.object record) = .error e)) ∧
    (∀ path u, funcAt path u = within path (func u) ∧ itemAt path u = within path (item u)) ∧
    ∀ path u e e', funcAt path u = .error e ∧ func u = .error e' ∨ itemAt path u = .error e ∧ item u = .error e' →
      e.path = path ++ e'.path ∧ e.kind = e'.kind ∧ e.value? = e'.value? ∧ e.detail = e'.detail := by
  refine ⟨fun i e => ?_, fun record x ps ret records hx hps hret hrecords => ?_,
    fun record e h => item_eq_error_iff_instr h, fun path u => ⟨funcAt_threaded u path, itemAt_threaded u path⟩, ?_⟩
  · rw [program_eq_error ht hts]
    constructor
    · rintro ⟨⟨j, e', ⟨u, fs, hu, hfs, hnodup, _, h⟩, rfl⟩, hpath⟩
      obtain rfl := nth_injective (Option.some.inj hpath)
      exact ⟨fs, u, e', hfs, hnodup, hu, by simpa using h, rfl⟩
    · rintro ⟨fs, u, e', hfs, hnodup, hu, h, rfl⟩
      exact ⟨⟨i, e', ⟨u, fs, hu, hfs, hnodup, by simp, by simpa using h⟩, rfl⟩, rfl⟩
  · refine ⟨?_, fun e => ?_⟩
    · simp [func_eq_error hx hps hret hrecords, ← exists_failsFirst]
    · simp [func_eq_error hx hps hret hrecords, eq_comm]
  · intro path u e e' h
    have he : e = e'.under path := by
      rcases h with ⟨hat, hown⟩ | ⟨hat, hown⟩
      · exact (funcAt_threaded u).error_eq hat hown
      · exact (itemAt_threaded u).error_eq hat hown
    subst he
    exact ⟨rfl, rfl, rfl, rfl⟩

theorem fails_at_first_record_unknown_operation :
    let bad : Tree := .object [("op", .text "frob")]
    let records : List Tree := [.object [("label", .text "a")], .object [("op", .text "nop")], bad, .null]
    let f : Tree := .object [("name", .text "f")]
    let g : Table String Tree := [("name", .text "g"), ("instrs", .list records)]
    let fields : Table String Tree := [("functions", .list [f, .object g, f])]
    let e : DecodeFailure := ⟨["op"], .unknownOpcode "frob"⟩
    fields.get? "functions" = some (.list [f, .object g, f]) ∧ instr bad = .error e ∧
      func (.object g) = .error (e.under [nth "instrs" 2]) ∧
      program (.object fields) = .error ((e.under [nth "instrs" 2]).under [nth "functions" 1]) ∧
      (e.under [nth "instrs" 2]).under [nth "functions" 1] =
        ⟨["functions[1]", "instrs[2]", "op"], .unknownOpcode "frob"⟩ := by
  intro bad records f g fields e
  obtain ⟨hfuncs, hbody, hinstr, _⟩ := fails_at_first_record fields _ _ rfl rfl
  have hbad : instr bad = .error e := rfl
  have hfirst : FailsFirst item records 2 e := by
    refine ⟨⟨bad, rfl, (hinstr _ e rfl).2 hbad⟩, ?_⟩
    simp only [records, List.take, List.forall_mem_cons]
    exact ⟨⟨_, rfl⟩, ⟨_, rfl⟩, by simp⟩
  have hg : func (.object g) = .error (e.under [nth "instrs" 2]) := by
    have hname : Has asText g "name" "g" := ⟨_, rfl, rfl⟩
    have hargs : HasList param g "args" [] := ⟨none, rfl, .nil⟩
    have hrecords : MayHave asList g "instrs" (some records) := ⟨_, rfl, rfl⟩
    exact ((hbody g "g" [] none (some records) hname hargs rfl hrecords).2 _).2 ⟨2, e, hfirst, rfl⟩
  have hprogram := (hfuncs 1 _).2 ⟨[⟨"f", [], none, []⟩], .object g, _, .cons rfl .nil, by simp, rfl, .own hg, rfl⟩
  have hpath : [nth "functions" 1, nth "instrs" 2, "op"] = ["functions[1]", "instrs[2]", "op"] := by decide +kernel
  exact ⟨rfl, hbad, hg, hprogram.1, congrArg (DecodeFailure.mk · _) hpath⟩

end BlockIR.Decode
