/-! A window on a source of bytes. It holds bytes taken over from the source and is closed by a zero;
whoever meets a zero has more bytes taken over, from there on. A window that was filled to its end is
made twice as large first. A zero that comes from the source itself looks the same, so the bytes after
it are written over. -/

namespace BlockIR.Json

structure Window where
  /-- The bytes from the reading position to the end of the window. -/
  ahead : List UInt8
  /-- How many bytes of the window lie before the reading position. -/
  behind : Nat := 0
  /-- How many of the bytes ahead count as taken over. -/
  known : Nat := 0
  size : Nat
  full : Bool := false
  ended : Bool := false
  rest : List UInt8

namespace Window

def firstSize : Nat := 512

def onto (source : List UInt8) : Window :=
  { ahead := List.replicate firstSize 0, size := firstSize, rest := source }

def head (w : Window) : UInt8 :=
  w.ahead.headD 0

def skip (n : Nat) (w : Window) : Window :=
  { w with ahead := w.ahead.drop n, behind := w.behind + n, known := w.known - n }

def next (w : Window) : Window :=
  w.skip 1

def remove (n : Nat) (w : Window) : Window :=
  { w with ahead := w.ahead.drop n, known := w.known - n }

def cut (w : Window) : Window :=
  { w with behind := 0 }

def resized (n : Nat) (bs : List UInt8) : List UInt8 :=
  (bs ++ List.replicate (n - bs.length) 0).take n

/-- Takes over as many bytes as there is room for, and at least one. The source has ended when there
was none left to take. -/
def refill (w : Window) : Option Window :=
  if w.ended then none
  else
    let size := if w.full then 2 * w.size else w.size
    let ahead := if w.full then resized (size - w.behind) w.ahead else w.ahead
    let kept := (ahead.take w.known).takeWhile (· ≠ 0)
    let space := ahead.drop kept.length
    let room := max 1 (space.length - 1)
    let chunk := w.rest.take room
    some
      { ahead := kept ++ chunk ++ (space.take room).drop chunk.length ++ [0]
        behind := w.behind
        known := kept.length + chunk.length
        size := size
        full := chunk.length = room
        ended := w.rest.isEmpty
        rest := w.rest.drop chunk.length }

def pending (w : Window) : Nat :=
  w.rest.length + (if w.ended then 0 else 1)

def rank (w : Window) : Nat × Nat :=
  (w.pending, w.ahead.length)

def Before (v w : Window) : Prop :=
  Prod.Lex (· < ·) (· < ·) v.rank w.rank

def NotAfter (v w : Window) : Prop :=
  v.Before w ∨ v.rank = w.rank

theorem before_of_pending {v w : Window} (h : v.pending < w.pending) : v.Before w :=
  Prod.Lex.left _ _ h

theorem before_of_ahead {v w : Window} (h : v.pending = w.pending)
    (h' : v.ahead.length < w.ahead.length) : v.Before w := by
  unfold Before rank
  rw [h]
  exact Prod.Lex.right _ h'

theorem Before.trans {u v w : Window} (h : u.Before v) (h' : v.Before w) : u.Before w := by
  unfold Before at *
  rw [Prod.lex_def] at *
  omega

theorem NotAfter.refl (w : Window) : w.NotAfter w :=
  Or.inr rfl

theorem Before.notAfter {v w : Window} (h : v.Before w) : v.NotAfter w :=
  Or.inl h

theorem Before.trans_notAfter {u v w : Window} (h : u.Before v) (h' : v.NotAfter w) :
    u.Before w := by
  rcases h' with h' | h'
  · exact h.trans h'
  · unfold Before at *
    rwa [← h']

theorem NotAfter.trans_before {u v w : Window} (h : u.NotAfter v) (h' : v.Before w) :
    u.Before w := by
  rcases h with h | h
  · exact h.trans h'
  · unfold Before at *
    rwa [h]

theorem NotAfter.trans {u v w : Window} (h : u.NotAfter v) (h' : v.NotAfter w) : u.NotAfter w := by
  rcases h with h | h
  · exact (h.trans_notAfter h').notAfter
  · rcases h' with h' | h'
    · exact Or.inl (NotAfter.trans_before (Or.inr h) h')
    · exact Or.inr (h.trans h')

theorem skip_before {w : Window} {n : Nat} (h : w.ahead ≠ []) (hn : 0 < n) :
    (w.skip n).Before w := by
  have hl := List.length_pos_iff.2 h
  refine before_of_ahead rfl ?_
  simp only [skip, List.length_drop]
  omega

theorem next_before {w : Window} (h : w.ahead ≠ []) : w.next.Before w :=
  skip_before h Nat.one_pos

theorem next_notAfter (w : Window) : w.next.NotAfter w := by
  by_cases h : w.ahead = []
  · right
    simp [next, skip, rank, pending, h]
  · exact (next_before h).notAfter

theorem remove_notAfter (n : Nat) (w : Window) : (w.remove n).NotAfter w := by
  by_cases h : 0 < n ∧ w.ahead ≠ []
  · have hl := List.length_pos_iff.2 h.2
    have hb : (w.remove n).Before w := by
      refine before_of_ahead rfl ?_
      simp only [remove, List.length_drop]
      omega
    exact hb.notAfter
  · right
    have : w.ahead.drop n = w.ahead := by
      rcases Nat.eq_zero_or_pos n with rfl | hn
      · rfl
      · have : w.ahead = [] := by
          false_or_by_contra
          exact h ⟨hn, by assumption⟩
        simp [this]
    simp [remove, rank, pending, this]

theorem refill_before {v w : Window} (h : w.refill = some v) : v.Before w := by
  unfold refill at h
  split at h
  · cases h
  · rename_i he
    cases h
    refine before_of_pending ?_
    rcases hr : w.rest with _ | ⟨b, bs⟩
    · simp [pending, hr, he]
    · simp only [pending, hr, he]
      simp only [List.length_drop, List.length_take, List.length_cons, List.isEmpty_cons]
      simp only [Bool.false_eq_true, if_false]
      omega

theorem ahead_ne_nil {w : Window} (h : w.head ≠ 0) : w.ahead ≠ [] := by
  intro he
  simp [head, he] at h

def settle (w : Window) : Window :=
  if w.head = 0 then
    match _h : w.refill with
    | some v => v.settle
    | none => w
  else w
termination_by w.rank
decreasing_by exact refill_before _h

theorem settle_notAfter (w : Window) : w.settle.NotAfter w := by
  induction w using settle.induct with
  | case1 w hz v h ih =>
    have he : w.settle = v.settle := by
      rw [settle, if_pos hz]
      split <;> simp_all
    rw [he]
    exact (ih.trans_before (refill_before h)).notAfter
  | case2 w hz h =>
    have he : w.settle = w := by
      rw [settle, if_pos hz]
      split <;> simp_all
    rw [he]
    exact .refl w
  | case3 w hz =>
    rw [settle, if_neg hz]
    exact .refl w

def reach (n : Nat) (w : Window) : Bool × Window :=
  if w.known ≤ n then
    match _h : w.refill with
    | some v => v.reach n
    | none => (false, w)
  else (true, w)
termination_by w.rank
decreasing_by exact refill_before _h

theorem reach_notAfter (n : Nat) (w : Window) : (w.reach n).2.NotAfter w := by
  induction w using reach.induct n with
  | case1 w hz v h ih =>
    have he : w.reach n = v.reach n := by
      rw [reach, if_pos hz]
      split <;> simp_all
    rw [he]
    exact (ih.trans_before (refill_before h)).notAfter
  | case2 w hz h =>
    have he : w.reach n = (false, w) := by
      rw [reach, if_pos hz]
      split <;> simp_all
    rw [he]
    exact .refl w
  | case3 w hz =>
    rw [reach, if_neg hz]
    exact .refl w

def spanFrom (p : UInt8 → Bool) (taken : List UInt8) (w : Window) : List UInt8 × Window :=
  let v := w.settle
  if _h : v.head ≠ 0 ∧ p v.head then spanFrom p (v.head :: taken) v.next
  else (taken, v)
termination_by w.rank
decreasing_by exact (next_before (ahead_ne_nil _h.1)).trans_notAfter (settle_notAfter w)

theorem spanFrom_notAfter (p : UInt8 → Bool) (taken : List UInt8) (w : Window) :
    (w.spanFrom p taken).2.NotAfter w := by
  induction taken, w using spanFrom.induct p with
  | case1 taken w v h ih =>
    rw [spanFrom, dif_pos h]
    exact (ih.trans_before (next_before (ahead_ne_nil h.1))).notAfter.trans (settle_notAfter w)
  | case2 taken w v h =>
    rw [spanFrom, dif_neg h]
    exact settle_notAfter w

def span (p : UInt8 → Bool) (w : Window) : List UInt8 × Window :=
  let (taken, v) := w.spanFrom p []
  (taken.reverse, v)

theorem span_notAfter (p : UInt8 → Bool) (w : Window) : (w.span p).2.NotAfter w :=
  spanFrom_notAfter p [] w

end Window

end BlockIR.Json
