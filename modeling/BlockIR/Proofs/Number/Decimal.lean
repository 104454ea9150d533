import BlockIR.Number.Decimal
import BlockIR.Proofs.Except

namespace BlockIR.Decimal

lemma digitValue?_digitChar {d : Nat} (h : d < 10) : digitValue? (digitChar d) = some d :=
  (by decide : ∀ d < 10, digitValue? (digitChar d) = some d) d h

lemma isDigit_digitChar {d : Nat} (h : d < 10) : isDigit (digitChar d) = true :=
  (by decide : ∀ d < 10, isDigit (digitChar d) = true) d h

lemma digits_ne_nil (n : Nat) : digits n ≠ [] := by
  rw [digits]
  split <;> simp

lemma digits_zero : digits 0 = ['0'] := by
  rw [digits]
  rfl

lemma isDigit_of_mem_digits {n : Nat} : ∀ c ∈ digits n, isDigit c = true := by
  induction n using digits.induct with
  | case1 n h =>
    rw [digits, if_pos h]
    simpa using isDigit_digitChar h
  | case2 n h ih =>
    rw [digits, if_neg h]
    refine List.forall_mem_append.2 ⟨ih, ?_⟩
    simpa using isDigit_digitChar (Nat.mod_lt n (by decide))

lemma head?_digits_ne_zero {n : Nat} (hn : n ≠ 0) : (digits n).head? ≠ some '0' := by
  induction n using digits.induct with
  | case1 n h =>
    rw [digits, if_pos h]
    have := (by decide : ∀ d < 10, d ≠ 0 → digitChar d ≠ '0') n h hn
    simpa using this
  | case2 n h ih =>
    rw [digits, if_neg h, List.head?_append, Option.or_of_isSome (by simp [digits_ne_nil])]
    exact ih (by omega)

lemma magnitude_append (base n : Nat) (cs ds : List Char) :
    magnitude base n (cs ++ ds) = magnitude base n cs >>= fun m => magnitude base m ds := by
  induction cs generalizing n with
  | nil => rfl
  | cons c cs ih =>
    simp only [List.cons_append, magnitude]
    split
    · rfl
    · split
      · rfl
      · split
        · rfl
        · exact ih _

lemma magnitude_digits {n : Nat} (hn : n < Nat.pow 2 64) : magnitude 10 0 (digits n) = .ok n := by
  induction n using digits.induct with
  | case1 n h =>
    rw [digits, if_pos h]
    simp only [magnitude, digitValue?_digitChar h]
    rw [if_neg (by omega), if_neg (by omega)]
    simp
  | case2 n h ih =>
    have hmod : n % 10 < 10 := Nat.mod_lt n (by decide)
    have hval : n / 10 * 10 + n % 10 = n := Nat.div_add_mod' n 10
    rw [digits, if_neg h, magnitude_append, ih (by omega)]
    change magnitude 10 (n / 10) [digitChar (n % 10)] = .ok n
    simp only [magnitude, digitValue?_digitChar hmod, hval]
    rw [if_neg (by omega), if_neg (by omega)]

lemma value_append_singleton (cs : List Char) (c : Char) :
    value (cs ++ [c]) = value cs * 10 + (digitValue? c).getD 0 := by
  simp [value]

lemma value_digits (n : Nat) : value (digits n) = n := by
  induction n using digits.induct with
  | case1 n h =>
    rw [digits, if_pos h]
    simp [value, digitValue?_digitChar h]
  | case2 n h ih =>
    have hmod : n % 10 < 10 := Nat.mod_lt n (by decide)
    rw [digits, if_neg h, value_append_singleton, ih, digitValue?_digitChar hmod]
    exact Nat.div_add_mod' n 10

lemma digits_injective {m n : Nat} (h : digits m = digits n) : m = n := by
  rw [← value_digits m, h, value_digits]

lemma splitSign_of_isDigit {ds : List Char} (hd : ∀ c ∈ ds, isDigit c = true) : splitSign ds = (false, ds) := by
  unfold splitSign
  split
  · exact absurd (hd '-' List.mem_cons_self) (by decide)
  · exact absurd (hd '+' List.mem_cons_self) (by decide)
  · rfl

lemma splitSign_digits (n : Nat) : splitSign (digits n) = (false, digits n) :=
  splitSign_of_isDigit isDigit_of_mem_digits

lemma readPrefixed_digits {s : String} {negative : Bool} {n : Nat} (hn : n ≠ 0) (hlt : n < Nat.pow 2 64)
    (hs : splitSign s.toList = (negative, digits n)) : readPrefixedInt64 s = signed negative n := by
  unfold readPrefixedInt64
  split
  · rename_i h
    exact absurd (Prod.ext_iff.1 (hs.symm.trans h)).2 (digits_ne_nil n)
  · rename_i cs h
    have hzero : digits n = '0' :: cs := (Prod.ext_iff.1 (hs.symm.trans h)).2
    exact absurd (congrArg List.head? hzero) (head?_digits_ne_zero hn)
  · rename_i cs _ _ h
    obtain ⟨rfl, rfl⟩ := Prod.ext_iff.1 (hs.symm.trans h)
    rw [magnitude_digits hlt]
    rfl

lemma readPrefixedInt64_ofInt (n : Int64) : readPrefixedInt64 (ofInt n.toInt) = .ok n := by
  have hlt := n.toInt_lt
  have hle := n.le_toInt
  have hback := n.ofInt_toInt
  have hpow : Nat.pow 2 63 < Nat.pow 2 64 := by decide
  rcases h : n.toInt with m | m
  · have hm : m < Nat.pow 2 63 := by
      rw [h] at hlt
      exact Int.ofNat_lt.1 hlt
    rcases Nat.eq_zero_or_pos m with rfl | hpos
    · -- Zero is read as an octal number without digits.
      have hs : (ofInt (.ofNat 0)).toList = ['0'] := by simp [ofInt, ofNat, digits_zero]
      rw [← hback, h]
      simp only [readPrefixedInt64, hs, splitSign]
      rfl
    · have hs : splitSign (ofInt (.ofNat m)).toList = (false, digits m) := by
        simp [ofInt, ofNat, splitSign_digits]
      rw [readPrefixed_digits (Nat.ne_of_gt hpos) (by omega) hs, ← hback, h]
      simp [signed, hm]
  · have hm : m + 1 ≤ Nat.pow 2 63 := by
      rw [h] at hle
      exact Int.ofNat_le.1 (Int.neg_le_neg_iff.1 hle)
    have hs : splitSign (ofInt (.negSucc m)).toList = (true, digits (m + 1)) := by
      simp [ofInt, ofNat, splitSign]
    rw [readPrefixed_digits m.succ_ne_zero (by omega) hs, ← hback, h]
    simp [signed, hm, Int.negSucc_eq]

def valueFrom (base n : Nat) (cs : List Char) : Nat :=
  cs.foldl (fun n c => n * base + (digitValue? c).getD 0) n

lemma le_valueFrom {base : Nat} (hb : 0 < base) (n : Nat) (cs : List Char) : n ≤ valueFrom base n cs := by
  induction cs generalizing n with
  | nil => exact Nat.le_refl n
  | cons c cs ih =>
    have hn : n ≤ n * base := Nat.le_mul_of_pos_right n hb
    exact Nat.le_trans (by omega) (ih (n * base + (digitValue? c).getD 0))

lemma magnitude_ok {base : Nat} (hb : 0 < base) {n m : Nat} (hn : n < Nat.pow 2 64) {cs : List Char} :
    magnitude base n cs = .ok m ↔
      (∀ c ∈ cs, ∃ d < base, digitValue? c = some d) ∧ valueFrom base n cs = m ∧ m < Nat.pow 2 64 := by
  induction cs generalizing n with
  | nil =>
    simp only [magnitude, Except.ok.injEq]
    constructor
    · rintro rfl
      exact ⟨by simp, rfl, hn⟩
    · rintro ⟨_, h, _⟩
      exact h
  | cons c cs ih =>
    simp only [magnitude, List.forall_mem_cons]
    cases hc : digitValue? c with
    | none => simp
    | some d =>
      dsimp only
      have hval : valueFrom base n (c :: cs) = valueFrom base (n * base + d) cs := by simp [valueFrom, hc]
      have hle := le_valueFrom hb (n * base + d) cs
      rw [hval]
      by_cases hd : base ≤ d
      · simp only [if_pos hd, reduceCtorEq, Option.some.injEq, false_iff]
        rintro ⟨⟨⟨_, hlt, rfl⟩, _⟩, _⟩
        omega
      · by_cases hm : Nat.pow 2 64 ≤ n * base + d
        · simp only [if_neg hd, if_pos hm, reduceCtorEq, false_iff]
          rintro ⟨_, rfl, hlt⟩
          omega
        · rw [if_neg hd, if_neg hm, ih (by omega)]
          have hdigit : ∃ e < base, some d = some e := ⟨d, by omega, rfl⟩
          simp only [hdigit, true_and]

lemma ofInt_eq_iff {n : Int} {k : Int64} (hle : -(Nat.pow 2 63 : Int) ≤ n) (hlt : n < (Nat.pow 2 63 : Int)) :
    Int64.ofInt n = k ↔ k.toInt = n := by
  have hn : (Int64.ofInt n).toInt = n := Int64.toInt_ofInt_of_le hle hlt
  constructor
  · rintro rfl
    exact hn
  · intro h
    exact Int64.toInt_inj.1 (hn.trans h.symm)

lemma signed_ok {negative : Bool} {n : Nat} {k : Int64} :
    signed negative n = .ok k ↔ k.toInt = if negative then -(n : Int) else n := by
  have hlt : k.toInt < (Nat.pow 2 63 : Int) := k.toInt_lt
  have hle : -(Nat.pow 2 63 : Int) ≤ k.toInt := k.le_toInt
  cases negative with
  | true =>
    simp only [signed, if_true]
    split
    · rw [Except.ok.injEq, ofInt_eq_iff (by omega) (by omega)]
    · simp only [reduceCtorEq, false_iff]
      omega
  | false =>
    simp only [signed, Bool.false_eq_true, if_false]
    split
    · rw [Except.ok.injEq, ofInt_eq_iff (by omega) (by omega)]
    · simp only [reduceCtorEq, false_iff]
      omega

lemma isDigit_iff {c : Char} : isDigit c = true ↔ ∃ d < 10, digitValue? c = some d := by
  constructor
  · intro h
    have hc : '0' ≤ c ∧ c ≤ '9' := of_decide_eq_true h
    have h9 : c.toNat ≤ 57 := hc.2
    exact ⟨c.toNat - 48, by omega, if_pos hc⟩
  · rintro ⟨d, _, hd⟩
    unfold digitValue? at hd
    split at hd
    · exact decide_eq_true ‹_›
    · cases hd

lemma splitSign_cases (cs : List Char) : (∃ ds, cs = '-' :: ds ∧ splitSign cs = (true, ds)) ∨
    (∃ ds, cs = '+' :: ds ∧ splitSign cs = (false, ds)) ∨ splitSign cs = (false, cs) := by
  unfold splitSign
  split <;> simp

/-- Digits, at least one, with or without a sign in front, and the integer that they spell. -/
inductive Spells : List Char → Int → Prop
  | plain {ds : List Char} : ds ≠ [] → (∀ c ∈ ds, isDigit c = true) → Spells ds (value ds)
  | plus {ds : List Char} : ds ≠ [] → (∀ c ∈ ds, isDigit c = true) → Spells ('+' :: ds) (value ds)
  | minus {ds : List Char} : ds ≠ [] → (∀ c ∈ ds, isDigit c = true) → Spells ('-' :: ds) (-(value ds : Int))

lemma spells_iff {cs : List Char} {n : Int} : Spells cs n ↔
    let (negative, ds) := splitSign cs
    ds ≠ [] ∧ (∀ c ∈ ds, isDigit c = true) ∧ n = if negative then -(value ds : Int) else value ds := by
  constructor
  · rintro (⟨hne, hd⟩ | ⟨hne, hd⟩ | ⟨hne, hd⟩)
    · simpa [splitSign_of_isDigit hd, hne] using hd
    · simpa [splitSign, hne] using hd
    · simpa [splitSign, hne] using hd
  · rcases splitSign_cases cs with ⟨ds, rfl, hs⟩ | ⟨ds, rfl, hs⟩ | hs
    · rw [hs]
      rintro ⟨hne, hd, rfl⟩
      exact .minus hne hd
    · rw [hs]
      rintro ⟨hne, hd, rfl⟩
      exact .plus hne hd
    · rw [hs]
      rintro ⟨hne, hd, rfl⟩
      exact .plain hne hd

lemma magnitude_signed_ok {base : Nat} (hb : 0 < base) {negative : Bool} {cs : List Char} {k : Int64} :
    magnitude base 0 cs >>= signed negative = .ok k ↔ (∀ c ∈ cs, ∃ d < base, digitValue? c = some d) ∧
      k.toInt = if negative then -(valueFrom base 0 cs : Int) else valueFrom base 0 cs := by
  simp only [bind_eq_ok, magnitude_ok hb (by decide : 0 < Nat.pow 2 64), signed_ok]
  constructor
  · rintro ⟨_, ⟨hd, rfl, _⟩, hk⟩
    exact ⟨hd, hk⟩
  · rintro ⟨hd, hk⟩
    refine ⟨_, ⟨hd, rfl, ?_⟩, hk⟩
    have hlt : k.toInt < (Nat.pow 2 63 : Int) := k.toInt_lt
    have hle : -(Nat.pow 2 63 : Int) ≤ k.toInt := k.le_toInt
    have hpow : Nat.pow 2 63 < Nat.pow 2 64 := by decide
    split at hk <;> omega

lemma readInt64_ok {s : String} {k : Int64} : readInt64 s = .ok k ↔ Spells s.toList k.toInt := by
  rw [spells_iff]
  unfold readInt64
  split
  · rename_i h
    simp [h]
  · rename_i negative ds hne h
    simp only [h, magnitude_signed_ok (by decide : 0 < 10), ← isDigit_iff]
    constructor
    · rintro ⟨hd, hk⟩
      exact ⟨hne, hd, hk⟩
    · rintro ⟨_, hd, hk⟩
      exact ⟨hd, hk⟩

lemma valueFrom_lt {base n : Nat} {cs : List Char} (h : ∀ c ∈ cs, ∃ d < base, digitValue? c = some d) :
    valueFrom base n cs < (n + 1) * Nat.pow base cs.length := by
  induction cs generalizing n with
  | nil => simp [valueFrom]
  | cons c cs ih =>
    obtain ⟨⟨d, hd, hc⟩, hcs⟩ := List.forall_mem_cons.1 h
    have hval : valueFrom base n (c :: cs) = valueFrom base (n * base + d) cs := by simp [valueFrom, hc]
    have hnext : n * base + d + 1 ≤ (n + 1) * base := by
      rw [Nat.succ_mul]
      omega
    calc valueFrom base n (c :: cs) < (n * base + d + 1) * Nat.pow base cs.length := hval ▸ ih hcs
      _ ≤ (n + 1) * base * Nat.pow base cs.length := Nat.mul_le_mul_right _ hnext
      _ = (n + 1) * Nat.pow base (c :: cs).length := by
        rw [Nat.mul_assoc, Nat.mul_comm base]
        rfl

lemma length_digits_le {n k : Nat} (hk : 0 < k) (hn : n < Nat.pow 10 k) : (digits n).length ≤ k := by
  induction n using digits.induct generalizing k with
  | case1 n h =>
    rw [digits, if_pos h]
    exact hk
  | case2 n h ih =>
    obtain ⟨j, rfl⟩ : ∃ j, k = j + 1 := ⟨k - 1, by omega⟩
    have hstep : Nat.pow 10 (j + 1) = Nat.pow 10 j * 10 := rfl
    have hj : 0 < j := by
      rcases Nat.eq_zero_or_pos j with rfl | hj
      · exact absurd hn h
      · exact hj
    rw [digits, if_neg h, List.length_append, List.length_singleton]
    exact Nat.succ_le_succ (ih hj (by omega))

end BlockIR.Decimal
