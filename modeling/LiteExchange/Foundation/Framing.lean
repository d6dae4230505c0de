import Mathlib.Data.List.Flatten

/-!
# A stream of frames cut at any position

A stream is a concatenation of frames. After `n` elements of it, `completed` frames
have arrived whole and `leftover` elements belong to the next one. This can be
computed piecewise: what `k` more elements complete is determined by the frames that
are still to come and the leftover elements (`completed_add`).
-/

namespace Foundation.Framing

variable {β : Type*}

/-- The number of frames that the first `n` elements of the stream contain whole. -/
def completed : List (List β) → Nat → Nat
  | [], _ => 0
  | frame :: frames, n =>
    if frame.length ≤ n then completed frames (n - frame.length) + 1 else 0

/-- The number of elements behind the last whole frame. -/
def leftover : List (List β) → Nat → Nat
  | [], n => n
  | frame :: frames, n => if frame.length ≤ n then leftover frames (n - frame.length) else n

/-- The whole frames and the leftover elements are all there is. -/
theorem length_completed (frames : List (List β)) (n : Nat) :
    (frames.take (completed frames n)).flatten.length + leftover frames n = n := by
  induction frames generalizing n with
  | nil => simp [completed, leftover]
  | cons frame frames ih =>
    unfold completed leftover
    split
    · have hrest := ih (n - frame.length)
      simp only [List.take_succ_cons, List.flatten_cons, List.length_append]
      omega
    · simp

theorem take_flatten (frames : List (List β)) (n : Nat) :
    frames.flatten.take n = (frames.take (completed frames n)).flatten ++
      (frames.drop (completed frames n)).flatten.take (leftover frames n) := by
  induction frames generalizing n with
  | nil => simp
  | cons frame frames ih =>
    unfold completed leftover
    split
    · rename_i hle
      rw [List.flatten_cons, List.take_append, List.take_of_length_le hle, ih,
        List.take_succ_cons, List.drop_succ_cons, List.flatten_cons, List.append_assoc]
    · simp

/-- Leftover elements belong to a frame that is not whole yet. -/
theorem leftover_lt (frames : List (List β)) (n : Nat) (h : n ≤ frames.flatten.length) :
    (frames.drop (completed frames n) = [] ∧ leftover frames n = 0) ∨
      ∃ frame rest, frames.drop (completed frames n) = frame :: rest ∧
        leftover frames n < frame.length := by
  induction frames generalizing n with
  | nil =>
    left
    rw [List.flatten_nil, List.length_nil] at h
    exact ⟨List.drop_nil, Nat.le_zero.mp h⟩
  | cons frame frames ih =>
    unfold completed leftover
    split
    · rw [List.drop_succ_cons]
      apply ih
      rw [List.flatten_cons, List.length_append] at h
      omega
    · rename_i hlt
      right
      exact ⟨frame, frames, rfl, Nat.lt_of_not_le hlt⟩

theorem completed_add (frames : List (List β)) (n k : Nat) :
    completed frames (n + k) = completed frames n +
      completed (frames.drop (completed frames n)) (leftover frames n + k) := by
  induction frames generalizing n with
  | nil => simp [completed]
  | cons frame frames ih =>
    rw [completed]
    by_cases hle : frame.length ≤ n
    · have hrest := ih (n - frame.length)
      rw [if_pos (by omega), completed, leftover, if_pos hle, if_pos hle, List.drop_succ_cons,
        show n + k - frame.length = n - frame.length + k by omega, hrest]
      omega
    · simp only [completed, leftover, if_neg hle, List.drop_zero, Nat.zero_add]

/-- More elements complete no fewer frames. -/
theorem completed_mono (frames : List (List β)) {n m : Nat} (h : n ≤ m) :
    completed frames n ≤ completed frames m := by
  have hsum := completed_add frames n (m - n)
  rw [Nat.add_sub_cancel' h] at hsum
  omega

theorem completed_le (frames : List (List β)) (n : Nat) : completed frames n ≤ frames.length := by
  induction frames generalizing n with
  | nil => exact Nat.le_refl _
  | cons frame frames ih =>
    have hrest := ih (n - frame.length)
    rw [completed, List.length_cons]
    split
    · omega
    · omega

/-- All elements complete all frames. -/
theorem completed_flatten (frames : List (List β)) :
    completed frames frames.flatten.length = frames.length := by
  induction frames with
  | nil => rfl
  | cons frame frames ih =>
    rw [completed, List.flatten_cons, List.length_append, if_pos (by omega), Nat.add_sub_cancel_left,
      ih, List.length_cons]

/-! ## A frame up to its delimiter -/

/-- What stands in front of the first delimiter and behind it is determined. -/
theorem ended_unique {delimiter : β} {front other back otherBack : List β}
    (absent : delimiter ∉ front) (absentOther : delimiter ∉ other)
    (h : front ++ delimiter :: back = other ++ delimiter :: otherBack) :
    front = other ∧ back = otherBack := by
  induction front generalizing other with
  | nil =>
    cases other with
    | nil => exact ⟨rfl, (List.cons.inj h).2⟩
    | cons b other =>
      have hfirst : delimiter = b := (List.cons.inj h).1
      exact absurd List.mem_cons_self (hfirst ▸ absentOther)
  | cons a front ih =>
    cases other with
    | nil =>
      have hfirst : a = delimiter := (List.cons.inj h).1
      exact absurd List.mem_cons_self (hfirst ▸ absent)
    | cons b other =>
      obtain ⟨hfirst, hrest⟩ := List.cons.inj h
      rw [List.mem_cons, not_or] at absent absentOther
      obtain ⟨hfront, hback⟩ := ih absent.2 absentOther.2 hrest
      exact ⟨by rw [hfirst, hfront], hback⟩

/-- What stands behind the last delimiter and in front of it is determined. -/
theorem started_unique {delimiter : β} {front other back otherBack : List β}
    (absent : delimiter ∉ back) (absentOther : delimiter ∉ otherBack)
    (h : front ++ delimiter :: back = other ++ delimiter :: otherBack) :
    front = other ∧ back = otherBack := by
  have hbackwards : back.reverse ++ delimiter :: front.reverse =
      otherBack.reverse ++ delimiter :: other.reverse := by
    simpa using congrArg List.reverse h
  obtain ⟨hback, hfront⟩ := ended_unique (by simpa using absent) (by simpa using absentOther)
    hbackwards
  exact ⟨List.reverse_inj.mp hfront, List.reverse_inj.mp hback⟩

end Foundation.Framing
