/-!
# Classes of characters given by ranges

A class of characters is a list of closed intervals of code points in
increasing order. Membership stops at the first interval that starts above
the code point, so a member is always in one of the listed intervals, and
for the low code points only a few of them are looked at.
-/

namespace Scriptlet.Character

/-- A closed interval of code points: its first and its last member. -/
abbrev Interval := Nat × Nat

/-- Whether `code` is in one of the intervals, which are listed in increasing
order. -/
def within (code : Nat) : List Interval → Bool
  | [] => false
  | (first, last) :: later =>
    if code < first then false
    else if code ≤ last then true
    else within code later

/-- A member lies in one of the listed intervals. -/
theorem exists_of_within {code : Nat} {intervals : List Interval}
    (h : within code intervals = true) :
    ∃ interval ∈ intervals, interval.1 ≤ code ∧ code ≤ interval.2 := by
  induction intervals with
  | nil => simp [within] at h
  | cons interval later ih =>
    obtain ⟨first, last⟩ := interval
    simp only [within] at h
    split at h
    · simp at h
    · split at h
      · exact ⟨(first, last), by simp, by simp; omega⟩
      · obtain ⟨found, hmem, hbounds⟩ := ih h
        exact ⟨found, by simp [hmem], hbounds⟩

/-- Whether no code point is in an interval of both lists. -/
def apart (left right : List Interval) : Bool :=
  left.all fun a => right.all fun b => a.2 < b.1 || b.2 < a.1

/-- Classes that are apart have no member in common. -/
theorem within_eq_false_of_apart {left right : List Interval} {code : Nat}
    (h : apart left right = true) (hleft : within code left = true) :
    within code right = false := by
  cases hright : within code right with
  | false => rfl
  | true =>
    obtain ⟨a, ha, ha1, ha2⟩ := exists_of_within hleft
    obtain ⟨b, hb, hb1, hb2⟩ := exists_of_within hright
    have hab := List.all_eq_true.1 (List.all_eq_true.1 h a ha) b hb
    simp only [Bool.or_eq_true, decide_eq_true_eq] at hab
    omega

end Scriptlet.Character
