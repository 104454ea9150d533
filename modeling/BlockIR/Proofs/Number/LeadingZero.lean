import BlockIR.Proofs.Number.Decimal
import Mathlib.Data.List.Induction

/-! Zeros in front of a numeral. Where the first digit tells the base they make it octal, so it is read as in
base ten only below eight; and they are not written out, so what is written out is shorter. -/

namespace BlockIR.Decimal

/-- The digits start with a zero, and this is not all there is. -/
def Padded (cs : List Char) : Prop :=
  (splitSign cs).2.head? = some '0' ∧ cs ≠ ['0']

instance (cs : List Char) : Decidable (Padded cs) :=
  inferInstanceAs (Decidable (_ ∧ _))

lemma eq_zero_of_not_padded {cs : List Char} (h : ¬ Padded cs) (hz : (splitSign cs).2.head? = some '0') :
    cs = ['0'] := by
  by_contra hcs
  exact h ⟨hz, hcs⟩

section Writing

lemma digitChar_of_digitValue? {c : Char} {d : Nat} (h : digitValue? c = some d) : digitChar d = c := by
  unfold digitValue? at h
  split at h
  · rename_i hc
    have hle : 48 ≤ c.toNat := hc.1
    cases h
    rw [digitChar, Nat.add_sub_cancel' hle, Char.ofNat_toNat]
  · cases h

lemma value_ne_zero {ds : List Char} (hne : ds ≠ []) (hd : ∀ c ∈ ds, isDigit c = true)
    (hz : ds.head? ≠ some '0') : value ds ≠ 0 := by
  obtain ⟨c, ds, rfl⟩ := List.exists_cons_of_ne_nil hne
  obtain ⟨d, _, hc⟩ := isDigit_iff.1 (hd c List.mem_cons_self)
  have hd : d ≠ 0 := by
    rintro rfl
    exact hz (congrArg some (digitChar_of_digitValue? hc).symm)
  have hval : value (c :: ds) = valueFrom 10 d ds := by simp [value, valueFrom, hc]
  have hle := le_valueFrom (by decide : 0 < 10) d ds
  omega

lemma digits_value {ds : List Char} (hne : ds ≠ []) (hd : ∀ c ∈ ds, isDigit c = true)
    (hz : ds.head? ≠ some '0') : digits (value ds) = ds := by
  induction ds using List.reverseRecOn with
  | nil => exact absurd rfl hne
  | append_singleton ds c ih =>
    obtain ⟨hds, hc⟩ := List.forall_mem_append.1 hd
    obtain ⟨d, hlt, hc⟩ := isDigit_iff.1 (hc c (List.mem_singleton_self c))
    have hchar := digitChar_of_digitValue? hc
    rw [value_append_singleton, hc, Option.getD_some, digits]
    by_cases hnil : ds = []
    · subst hnil
      have hval : value [] * 10 + d = d := Nat.zero_add d
      rw [hval, if_pos hlt, hchar]
      rfl
    · rw [List.head?_append_of_ne_nil _ hnil] at hz
      have hpos := value_ne_zero hnil hds hz
      have hdiv : (value ds * 10 + d) / 10 = value ds := by omega
      have hmod : (value ds * 10 + d) % 10 = d := by omega
      rw [if_neg (by omega), hdiv, hmod, ih hnil hds hz, hchar]

lemma toList_ofInt_natCast (n : Nat) : (ofInt n).toList = digits n := by
  simp [ofInt, ofNat]

lemma toList_ofInt_zero : (ofInt 0).toList = ['0'] :=
  (toList_ofInt_natCast 0).trans digits_zero

lemma toList_ofInt_neg {n : Nat} (hn : n ≠ 0) : (ofInt (-(n : Int))).toList = '-' :: digits n := by
  obtain ⟨n, rfl⟩ := Nat.exists_eq_succ_of_ne_zero hn
  change ("-" ++ ofNat (n + 1)).toList = _
  simp [ofNat]

lemma length_ofInt_le (negative : Bool) (n : Nat) :
    (ofInt (if negative then -(n : Int) else n)).toList.length ≤ (digits n).length + negative.toNat := by
  cases negative with
  | false => simp [toList_ofInt_natCast]
  | true =>
    by_cases hn : n = 0
    · simp [hn, toList_ofInt_zero]
    · simp [toList_ofInt_neg hn]

lemma toList_ofInt_of_spells {cs : List Char} {n : Int} (h : Spells cs n) (hp : ¬ Padded cs)
    (hplus : cs.head? ≠ some '+') : (ofInt n).toList = cs := by
  cases h with
  | plain hne hd =>
    rw [toList_ofInt_natCast]
    by_cases hz : cs.head? = some '0'
    · have hcs := eq_zero_of_not_padded hp (by rwa [splitSign_of_isDigit hd])
      rw [hcs]
      exact digits_zero
    · exact digits_value hne hd hz
  | plus _ _ => exact absurd rfl hplus
  | @minus ds hne hd =>
    have hz : ds.head? ≠ some '0' := fun hz => hp ⟨hz, by simp⟩
    rw [toList_ofInt_neg (value_ne_zero hne hd hz), digits_value hne hd hz]

end Writing

section Reading

lemma readPrefixedInt64_octal {s : String} {negative : Bool} {cs : List Char} {k : Int64}
    (hs : splitSign s.toList = (negative, '0' :: cs)) : readPrefixedInt64 s = .ok k ↔
      (∀ c ∈ cs, ∃ d < 8, digitValue? c = some d) ∧
        k.toInt = if negative then -(valueFrom 8 0 cs : Int) else valueFrom 8 0 cs := by
  have hread : readPrefixedInt64 s = magnitude 8 0 cs >>= signed negative := by
    unfold readPrefixedInt64
    rw [hs]
    rfl
  rw [hread]
  exact magnitude_signed_ok (by decide)

lemma readPrefixedInt64_of_not_padded {s : String} (h : ¬ Padded s.toList) :
    readPrefixedInt64 s = readInt64 s := by
  by_cases hz : (splitSign s.toList).2.head? = some '0'
  · -- A zero alone is an octal number without digits.
    have hs := eq_zero_of_not_padded h hz
    simp only [readPrefixedInt64, readInt64, hs, splitSign]
    rfl
  · unfold readPrefixedInt64 readInt64
    split
    · rename_i hs
      rw [hs]
    · rename_i hs
      exact absurd (by rw [hs]; rfl) hz
    · rename_i cs hne _ hs
      obtain ⟨c, cs, rfl⟩ := List.exists_cons_of_ne_nil hne
      rw [hs]

lemma Padded.splitSign {cs : List Char} (h : Padded cs) :
    ∃ negative ds, Decimal.splitSign cs = (negative, '0' :: ds) := by
  obtain ⟨ds, hds⟩ := List.head?_eq_some_iff.1 h.1
  exact ⟨_, ds, Prod.ext rfl hds⟩

lemma Padded.spells {cs : List Char} {n : Int} (hp : Padded cs) (h : Spells cs n) :
    ∃ negative ds, Decimal.splitSign cs = (negative, '0' :: ds) ∧ (∀ c ∈ ds, isDigit c = true) ∧
      n = if negative then -(value ds : Int) else value ds := by
  obtain ⟨negative, ds, hs⟩ := hp.splitSign
  have hspells := spells_iff.1 h
  rw [hs] at hspells
  obtain ⟨_, hd, hn⟩ := hspells
  exact ⟨negative, ds, hs, (List.forall_mem_cons.1 hd).2, hn⟩

lemma valueFrom_mono {base base' n n' : Nat} (hb : base ≤ base') (hn : n ≤ n') (cs : List Char) :
    valueFrom base n cs ≤ valueFrom base' n' cs := by
  induction cs generalizing n n' with
  | nil => exact hn
  | cons c cs ih => exact ih (Nat.add_le_add_right (Nat.mul_le_mul hn hb) _)

lemma valueFrom_strictMono {base n n' : Nat} (hb : 0 < base) (hn : n < n') (cs : List Char) :
    valueFrom base n cs < valueFrom base n' cs := by
  induction cs generalizing n n' with
  | nil => exact hn
  | cons c cs ih => exact ih (Nat.add_lt_add_right (Nat.mul_lt_mul_of_pos_right hn hb) _)

lemma octal_eq_value_iff {cs : List Char} (hd : ∀ c ∈ cs, isDigit c = true) :
    (∀ c ∈ cs, ∃ d < 8, digitValue? c = some d) ∧ valueFrom 8 0 cs = value cs ↔ value cs < 8 := by
  induction cs with
  | nil => simp [value, valueFrom]
  | cons c cs ih =>
    obtain ⟨hc, hcs⟩ := List.forall_mem_cons.1 hd
    obtain ⟨d, _, hc⟩ := isDigit_iff.1 hc
    have hoctal : valueFrom 8 0 (c :: cs) = valueFrom 8 d cs := by simp [valueFrom, hc]
    have hdecimal : value (c :: cs) = valueFrom 10 d cs := by simp [value, valueFrom, hc]
    have hdigit : (∃ e < 8, digitValue? c = some e) ↔ d < 8 := by simp [hc]
    rw [hoctal, hdecimal, List.forall_mem_cons, hdigit]
    rcases Nat.eq_zero_or_pos d with rfl | hpos
    · have hvalue : valueFrom 10 0 cs = value cs := rfl
      simpa [hvalue] using ih hcs
    · cases cs with
      | nil => simp [valueFrom]
      | cons c' cs =>
        -- From the second digit on that counts, the bases differ and ten is reached.
        have hlt : valueFrom 8 d (c' :: cs) < valueFrom 10 d (c' :: cs) :=
          Nat.lt_of_lt_of_le (valueFrom_strictMono (by decide)
            (Nat.add_lt_add_right (Nat.mul_lt_mul_of_pos_left (by decide : 8 < 10) hpos) _) cs)
            (valueFrom_mono (by decide) (Nat.le_refl _) cs)
        have hten := le_valueFrom (by decide : 0 < 10) (d * 10 + (digitValue? c').getD 0) cs
        change d * 10 + (digitValue? c').getD 0 ≤ valueFrom 10 d (c' :: cs) at hten
        omega

variable {s : String} {n : Int64}

lemma readPrefixedInt64_eq_iff (h : Spells s.toList n.toInt) :
    readPrefixedInt64 s = .ok n ↔ (Padded s.toList → n.toInt.natAbs < 8) := by
  by_cases hp : Padded s.toList
  · obtain ⟨negative, cs, hs, hd, hn⟩ := hp.spells h
    have habs : n.toInt.natAbs = value cs := by
      split at hn <;> omega
    have hsame : (n.toInt = if negative then -(valueFrom 8 0 cs : Int) else valueFrom 8 0 cs) ↔
        valueFrom 8 0 cs = value cs := by
      rw [hn]
      split <;> omega
    rw [readPrefixedInt64_octal hs, hsame, octal_eq_value_iff hd, habs]
    simp [hp]
  · rw [readPrefixedInt64_of_not_padded hp, readInt64_ok]
    simp [h, hp]

lemma digitValue?_lt_eight_iff {c : Char} (h : isDigit c = true) :
    (∃ d < 8, digitValue? c = some d) ↔ c ≠ '8' ∧ c ≠ '9' := by
  obtain ⟨d, hlt, hc⟩ := isDigit_iff.1 h
  rw [← digitChar_of_digitValue? hc, digitValue?_digitChar hlt]
  exact (by decide : ∀ d < 10, (∃ e < 8, some d = some e) ↔ digitChar d ≠ '8' ∧ digitChar d ≠ '9') d hlt

lemma mem_splitSign {c : Char} {cs : List Char} (h : isDigit c = true) : c ∈ (splitSign cs).2 ↔ c ∈ cs := by
  have hminus : c ≠ '-' := by
    rintro rfl
    cases h
  have hplus : c ≠ '+' := by
    rintro rfl
    cases h
  unfold splitSign
  split <;> simp [hminus, hplus]

lemma exists_readPrefixedInt64_iff (h : Spells s.toList n.toInt) :
    (∃ k, readPrefixedInt64 s = .ok k) ↔ (Padded s.toList → '8' ∉ s.toList ∧ '9' ∉ s.toList) := by
  by_cases hp : Padded s.toList
  · obtain ⟨negative, cs, hs, hd, hn⟩ := hp.spells h
    have hdigit {c : Char} (hc : isDigit c = true) : c ∈ '0' :: cs ↔ c ∈ s.toList := by
      have hmem : c ∈ (splitSign s.toList).2 ↔ c ∈ s.toList := mem_splitSign hc
      rwa [hs] at hmem
    have hoctal : (∀ c ∈ cs, ∃ d < 8, digitValue? c = some d) ↔ '8' ∉ s.toList ∧ '9' ∉ s.toList := by
      rw [← hdigit (by decide), ← hdigit (by decide)]
      have hforall : (∀ c ∈ cs, ∃ d < 8, digitValue? c = some d) ↔ ∀ c ∈ cs, c ≠ '8' ∧ c ≠ '9' :=
        forall₂_congr fun c hc => digitValue?_lt_eight_iff (hd c hc)
      rw [hforall]
      grind
    simp only [readPrefixedInt64_octal hs, hp, true_imp_iff, hoctal, exists_and_left, and_iff_left_iff_imp]
    -- The digits make a smaller number in base eight, so this is in range too.
    intro _
    have hle : valueFrom 8 0 cs ≤ value cs := valueFrom_mono (by decide) (Nat.le_refl 0) cs
    have hmin : -(Nat.pow 2 63 : Int) ≤ n.toInt := n.le_toInt
    have hmax : n.toInt < (Nat.pow 2 63 : Int) := n.toInt_lt
    cases negative with
    | true =>
      refine ⟨.ofInt (-(valueFrom 8 0 cs : Int)), (ofInt_eq_iff ?_ ?_).1 rfl⟩ <;>
        simp only [if_true] at hn ⊢ <;> omega
    | false =>
      refine ⟨.ofInt (valueFrom 8 0 cs), (ofInt_eq_iff ?_ ?_).1 rfl⟩ <;>
        simp only [Bool.false_eq_true, if_false] at hn ⊢ <;> omega
  · rw [readPrefixedInt64_of_not_padded hp, readInt64_ok.2 h]
    simp [hp]

lemma splitSign_suffix (cs : List Char) : (splitSign cs).2 <:+ cs := by
  unfold splitSign
  split <;> simp

lemma length_splitSign_le (cs : List Char) :
    (splitSign cs).2.length + (splitSign cs).1.toNat ≤ cs.length := by
  unfold splitSign
  split <;> simp

lemma length_ofInt_lt (h : readPrefixedInt64 s = .ok n) (hp : Padded s.toList) :
    (ofInt n.toInt).toList.length < s.toList.length := by
  obtain ⟨negative, cs, hs⟩ := hp.splitSign
  obtain ⟨hd, hn⟩ := (readPrefixedInt64_octal hs).1 h
  have hsign := length_splitSign_le s.toList
  rw [hs, List.length_cons] at hsign
  by_cases hcs : cs = []
  · -- The only digit is zero, so there is a sign in front of it.
    have hzero : n.toInt = 0 := by
      rw [hn, hcs]
      exact ite_self 0
    have hsuffix := splitSign_suffix s.toList
    rw [hs, hcs] at hsuffix
    rw [hzero, toList_ofInt_zero]
    exact Nat.lt_of_le_of_ne hsuffix.length_le fun hlen => hp.2 (hsuffix.eq_of_length hlen).symm
  · -- The first zero is not written out, and in base ten the other digits do not get more.
    have hlt := valueFrom_lt (n := 0) hd
    rw [Nat.zero_add, Nat.one_mul] at hlt
    have hdigits : (digits (valueFrom 8 0 cs)).length ≤ cs.length :=
      length_digits_le (List.length_pos_of_ne_nil hcs)
        (Nat.lt_of_lt_of_le hlt (Nat.pow_le_pow_left (by decide) cs.length))
    have hle := length_ofInt_le negative (valueFrom 8 0 cs)
    rw [hn]
    dsimp only at hsign
    omega

lemma length_ofInt_eq_iff (h : readPrefixedInt64 s = .ok n) (hplus : s.toList.head? ≠ some '+') :
    (ofInt n.toInt).toList.length ≤ s.toList.length ∧
      ((ofInt n.toInt).toList.length = s.toList.length ↔ ¬ Padded s.toList) := by
  by_cases hp : Padded s.toList
  · have hlt := length_ofInt_lt h hp
    exact ⟨Nat.le_of_lt hlt, fun heq => absurd heq (Nat.ne_of_lt hlt), fun hn => absurd hp hn⟩
  · rw [readPrefixedInt64_of_not_padded hp, readInt64_ok] at h
    rw [toList_ofInt_of_spells h hp hplus]
    exact ⟨Nat.le_refl _, fun _ => hp, fun _ => rfl⟩

end Reading

end BlockIR.Decimal
