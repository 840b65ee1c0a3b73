import FieldReplica.Time.Calendar

/-!
# Days and dates

The year of a day is the one in which the day lies, so the date of a day denotes that day again. A date that
there is has a month and a day of at most two digits.
-/
namespace FieldReplica.Time

/-! ### Years -/

def total : List Nat → Nat
  | [] => 0
  | len::rest => len + total rest

private theorem daysBefore_succ (year : Int) :
    daysBefore (year + 1) = daysBefore year + total (monthLengths year) := by
  have hsum : (total (monthLengths year) : Int) = if isLeap year then 366 else 365 := by
    rw [monthLengths]
    cases isLeap year <;> rfl
  rw [hsum,isLeap,daysBefore,daysBefore]
  simp only [decide_eq_true_eq]
  split <;> omega

private theorem daysBefore_yearOf (n : Int) : daysBefore (yearOf n) ≤ n ∧ n < daysBefore (yearOf n + 1) := by
  -- The year by the mean length of years is at most one off.
  have hlow : daysBefore (n * 400 / 146097 + 1 - 1) ≤ n := by
    unfold daysBefore
    omega
  have hhigh : n < daysBefore (n * 400 / 146097 + 1 + 1 + 1) := by
    unfold daysBefore
    omega
  rw [yearOf]
  split
  · next h => exact ⟨hlow,by rw [Int.sub_add_cancel]; exact h⟩
  split
  · next h => exact ⟨h,hhigh⟩
  · next h h' => exact ⟨Int.not_lt.mp h,Int.not_le.mp h'⟩

/-! ### Months -/

private theorem dayOfYear_monthAndDay {lengths : List Nat} {n : Nat} (h : n < total lengths) :
    dayOfYear lengths (monthAndDay lengths n).1 (monthAndDay lengths n).2 = some n := by
  induction lengths generalizing n with
  | nil => cases h
  | cons len rest ih =>
    rw [monthAndDay]
    split
    · next hn => exact if_pos ⟨Nat.le_add_left 1 n,hn⟩
    · next hn =>
      have hn := Nat.not_lt.mp hn
      have hrest := ih (n := n - len) (by rw [total] at h; omega)
      dsimp only
      cases hmonth : (monthAndDay rest (n - len)).1 with
      | zero =>
        -- Months count from one.
        rw [hmonth] at hrest
        cases rest <;> cases hrest
      | succ month =>
        rw [hmonth] at hrest
        rw [dayOfYear,hrest,Option.map_some,Nat.add_sub_cancel' hn]
        exact Nat.succ_ne_zero month

private theorem le_of_dayOfYear {lengths : List Nat} {month day n : Nat} (h : dayOfYear lengths month day = some n) :
    month ≤ lengths.length ∧ ∃ len ∈ lengths, day ≤ len := by
  induction lengths generalizing month n with
  | nil => cases h
  | cons len rest ih =>
    match month with
    | 0 => cases h
    | 1 =>
      rw [dayOfYear] at h
      split at h
      · next hday => exact ⟨Nat.le_add_left 1 _,len,List.mem_cons_self,hday.2⟩
      · cases h
    | month + 2 =>
      obtain ⟨k,hk,_⟩ := Option.map_eq_some_iff.mp h
      obtain ⟨hmonth,len',hlen,hday⟩ := ih hk
      exact ⟨Nat.succ_le_succ hmonth,len',List.mem_cons_of_mem _ hlen,hday⟩

/-! ### Dates -/

namespace Date

private theorem toDay?_eq (d : Date) : d.toDay? =
    (dayOfYear (monthLengths d.year) d.month d.day).map fun n : Nat => daysBefore d.year + n - epoch := by
  rw [toDay?]
  cases dayOfYear (monthLengths d.year) d.month d.day <;> rfl

/-- The date of a day denotes that day. -/
theorem toDay?_ofDay (day : Int) : (ofDay day).toDay? = some day := by
  obtain ⟨hlow,hhigh⟩ := daysBefore_yearOf (day + epoch)
  rw [daysBefore_succ] at hhigh
  have hn : (day + epoch - daysBefore (yearOf (day + epoch))).toNat <
      total (monthLengths (yearOf (day + epoch))) := by omega
  rw [toDay?_eq]
  refine (congrArg (Option.map _) (dayOfYear_monthAndDay hn)).trans (congrArg some ?_)
  change daysBefore (yearOf (day + epoch)) + _ - epoch = day
  omega

theorem le_of_toDay? {d : Date} {day : Int} (h : d.toDay? = some day) : d.month ≤ 12 ∧ d.day ≤ 31 := by
  rw [toDay?_eq] at h
  obtain ⟨n,hn,_⟩ := Option.map_eq_some_iff.mp h
  obtain ⟨hmonth,len,hlen,hday⟩ := le_of_dayOfYear hn
  have hlong : len ≤ 31 := by
    simp only [monthLengths,List.mem_cons,List.not_mem_nil,or_false] at hlen
    split at hlen <;> omega
  exact ⟨hmonth,Nat.le_trans hday hlong⟩

end Date

end FieldReplica.Time
