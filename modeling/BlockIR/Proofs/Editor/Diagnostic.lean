import BlockIR.Editor.Session
import BlockIR.Proofs.Decode.Path
import BlockIR.Proofs.Except
import BlockIR.Proofs.Number.Decimal

namespace BlockIR

lemma Decode.IsSegment.unsigned {s : String} (h : IsSegment s) : '-' ∉ s.toList := by
  have hkeys : ∀ key ∈ keys, '-' ∉ key.toList := by decide
  cases h with
  | entry hk => exact hkeys s hk
  | @item key i hk =>
    have hdigits : '-' ∉ Decimal.digits i := fun hc => absurd (Decimal.isDigit_of_mem_digits _ hc) (by decide)
    simp [nth, Decimal.ofNat, hkeys key hk, hdigits]

namespace Editor

namespace Diagnostic

lemma subset_of_dropFront? {front cs ds : List Char} (h : dropFront? front cs = some ds) : ds ⊆ cs := by
  unfold dropFront? at h
  split at h
  · cases h
    exact List.drop_subset _ _
  · cases h

lemma index?_nonneg {key s : String} {i : Int} (hs : '-' ∉ s.toList) (h : index? key s = some i) : 0 ≤ i := by
  simp only [index?, Option.bind_eq_bind, Option.bind_eq_some_iff] at h
  obtain ⟨cs, hcs, ds, hds, n, hn, h⟩ := h
  cases h
  have hsigns : '-' ∉ ds.reverse := fun hc => hs (subset_of_dropFront? hcs
    (List.mem_reverse.1 (subset_of_dropFront? hds (List.mem_reverse.1 hc))))
  cases hr : Decimal.readInt64 (String.ofList ds.reverse) with
  | error e =>
    rw [hr] at hn
    cases hn
  | ok k =>
    rw [hr] at hn
    cases hn
    have hspells := Decimal.readInt64_ok.1 hr
    rw [String.toList_ofList] at hspells
    generalize n.toInt = m at hspells ⊢
    generalize ds.reverse = cs at hspells hsigns
    cases hspells with
    | plain _ _ => exact Int.natCast_nonneg _
    | plus _ _ => exact Int.natCast_nonneg _
    | minus _ _ => exact absurd List.mem_cons_self hsigns

lemma item?_eq_ok {α : Type} {i : Int} (hi : 0 ≤ i) (xs : List α) : item? xs i = .ok xs[i.toNat]? := by
  simp [item?, Int.not_lt.2 hi]

lemma opName?_eq_ok {i : Int} (hi : 0 ≤ i) (f : Listing.Func) : ∃ o, opName? f i = .ok o := by
  rw [opName?, item?_eq_ok hi]
  cases f.body[i.toNat]? with
  | none => exact ⟨none, rfl⟩
  | some x => cases x <;> exact ⟨_, rfl⟩

lemma nameAt?_eq_ok {path : List String} (h : ∀ s ∈ path, '-' ∉ s.toList) (l : Listing) :
    ∃ o, nameAt? l path = .ok o := by
  have hindex {key : String} {n : Nat} {i : Int} (hi : path[n]? >>= index? key = some i) : 0 ≤ i := by
    obtain ⟨s, hs, hi⟩ := Option.bind_eq_some_iff.1 hi
    exact index?_nonneg (h s (List.mem_of_getElem? hs)) hi
  unfold nameAt?
  split
  · exact ⟨none, rfl⟩
  · rename_i i hi
    rw [item?_eq_ok (hindex hi)]
    cases l.funcs[i.toNat]? with
    | none => exact ⟨none, rfl⟩
    | some f =>
      simp only [bind, Except.bind, pure, Except.pure]
      split
      · exact ⟨some f.name, rfl⟩
      · rename_i j hj
        obtain ⟨o, ho⟩ := opName?_eq_ok (hindex hj) f
        exact ⟨some (o.getD f.name), by rw [ho]⟩

lemma rangeOf_eq_ok {path : List String} (h : ∀ s ∈ path, '-' ∉ s.toList) (l? : Option Listing) :
    ∃ r, rangeOf path l? = .ok r := by
  cases l? with
  | none => exact ⟨_, rfl⟩
  | some l =>
    obtain ⟨o, ho⟩ := nameAt?_eq_ok h l
    exact ⟨_, map_eq_ok.2 ⟨o, ho, rfl⟩⟩

lemma ofFailure_eq_ok {file source : String} {e : Failure} (h : Program.ofText file source = .error e)
    (l? : Option Listing) : ∃ x, ofFailure e l? = .ok x := by
  simp only [Program.ofText, Program.ofListing, Program.ofTree] at h
  cases hl : Listing.parse file source with
  | error f =>
    rw [hl] at h
    cases h
    exact ⟨_, rfl⟩
  | ok l =>
    cases ht : l.toTree file with
    | error f =>
      simp only [hl, Except.mapError, bind, Except.bind, ht] at h
      cases h
      exact ⟨_, rfl⟩
    | ok t =>
      cases hd : Decode.program t with
      | error f =>
        simp only [hl, Except.mapError, bind, Except.bind, ht, hd] at h
        cases h
        have hpath : ∀ s ∈ f.path, '-' ∉ s.toList := fun s hs => (Decode.program_located t f hd s hs).unsigned
        obtain ⟨r, hr⟩ := rangeOf_eq_ok hpath l?
        exact ⟨_, map_eq_ok.2 ⟨r, hr, rfl⟩⟩
      | ok p =>
        simp only [hl, Except.mapError, bind, Except.bind, ht, hd] at h
        cases h

end Diagnostic

namespace Document

lemma analyze_outcome (uri content : String) : (analyze uri content).outcome = Program.ofText uri content := by
  unfold analyze Program.ofText
  cases Listing.parse uri content <;> rfl

def Shows (d : Document) (ds : List Diagnostic) : Prop :=
  match d.outcome with
  | .ok _ => ds = []
  | .error e => ∃ x, Diagnostic.ofFailure e d.listing = .ok x ∧ ds = [x]

lemma analyze_shows {uri content : String} {ds : List Diagnostic} :
    (analyze uri content).Shows ds ↔ ds = (analyze uri content).diagnostics := by
  cases ho : (analyze uri content).outcome with
  | ok p => simp only [Shows, diagnostics, ho]
  | error e =>
    obtain ⟨x, hx⟩ := Diagnostic.ofFailure_eq_ok ((analyze_outcome uri content).symm.trans ho)
      (analyze uri content).listing
    simp [Shows, diagnostics, ho, hx, Except.toOption]

end Document

end Editor

end BlockIR
