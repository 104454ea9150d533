import BlockIR.Text

namespace BlockIR.Text

def bytesLe : List UInt8 → List UInt8 → Bool
  | [], _ => true
  | _ :: _, [] => false
  | a :: as, b :: bs =>
    if a.toNat < b.toNat then true else if b.toNat < a.toNat then false else bytesLe as bs

def le (s t : Text) : Bool :=
  bytesLe s.bytes t.bytes

theorem bytesLe_total (as bs : List UInt8) : bytesLe as bs || bytesLe bs as := by
  induction as generalizing bs with
  | nil => simp [bytesLe]
  | cons a as ih =>
    cases bs with
    | nil => simp [bytesLe]
    | cons b bs =>
      have h := ih bs
      simp only [bytesLe]
      split <;> split <;> simp_all

theorem bytesLe_trans {as bs cs : List UInt8} (h : bytesLe as bs) (h' : bytesLe bs cs) :
    bytesLe as cs := by
  induction as generalizing bs cs with
  | nil => simp [bytesLe]
  | cons a as ih =>
    cases bs with
    | nil => simp [bytesLe] at h
    | cons b bs =>
      cases cs with
      | nil => simp [bytesLe] at h'
      | cons c cs =>
        have h'' := @ih bs cs
        simp only [bytesLe] at h h' ⊢
        grind

theorem bytesLe_antisymm {as bs : List UInt8} (h : bytesLe as bs) (h' : bytesLe bs as) :
    as = bs := by
  induction as generalizing bs with
  | nil => cases bs <;> simp_all [bytesLe]
  | cons a as ih =>
    cases bs with
    | nil => simp [bytesLe] at h
    | cons b bs =>
      have h'' := @ih bs
      simp only [bytesLe] at h h'
      have hab : a.toNat = b.toNat := by grind
      have : a = b := UInt8.toNat_inj.1 hab
      grind

theorem le_total (s t : Text) : le s t || le t s :=
  bytesLe_total s.bytes t.bytes

theorem le_trans (r s t : Text) (h : le r s) (h' : le s t) : le r t :=
  bytesLe_trans h h'

theorem le_antisymm {s t : Text} (h : le s t) (h' : le t s) : s = t :=
  bytes_injective (bytesLe_antisymm h h')

def sorted (xs : List Text) : List Text :=
  xs.mergeSort le

theorem sorted_perm (xs : List Text) : (sorted xs).Perm xs :=
  List.mergeSort_perm xs le

theorem pairwise_sorted (xs : List Text) : (sorted xs).Pairwise (fun s t => le s t) :=
  List.pairwise_mergeSort le_trans le_total xs

end BlockIR.Text
