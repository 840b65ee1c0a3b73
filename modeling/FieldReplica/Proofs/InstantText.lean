import FieldReplica.Proofs.Calendar
import FieldReplica.Time.Instant

/-!
# The text of an instant

Every part of an instant's text is read as what was written, whatever follows it: numbers with their leading
zeros, years with or without a sign, fractions of any of the written lengths, and the second `:60`. So the text
of an instant denotes that instant, if its nanoseconds pass a whole second only where a minute ends. Elsewhere
the text is that of the next second, and it is read so.
-/
namespace FieldReplica.Time.Instant

/-! ### Digits -/

private theorem trimStart_of_not_blank {c : Char} (h : Text.isBlank c = false) (cs : List Char) :
    Text.trimStart (c::cs) = c::cs := by
  rw [Text.trimStart,List.dropWhile_cons_of_neg (by rw [h]; decide)]

private theorem isBlank_of_isDigit {c : Char} (h : c.isDigit = true) : Text.isBlank c = false := by
  have hc : 48 ≤ c.toNat ∧ c.toNat ≤ 57 := Char.isDigit_iff_toNat.mp h
  simp only [Text.isBlank,Bool.or_eq_false_iff,Bool.and_eq_false_iff,decide_eq_false_iff_not]
  omega

private theorem trimStart_digits {ds : List Char} (hne : ds ≠ []) (hd : ∀ c ∈ ds, c.isDigit = true) (rest : List Char) :
    Text.trimStart (ds ++ rest) = ds ++ rest := by
  cases ds with
  | nil => exact absurd rfl hne
  | cons c ds => exact trimStart_of_not_blank (isBlank_of_isDigit (hd c List.mem_cons_self)) _

/-- A run of digits is read whole if it has the full width, or if it is shorter and no digit follows it. -/
theorem digits?_append {width : Nat} {ds rest : List Char} (hne : ds ≠ []) (hd : ∀ c ∈ ds, c.isDigit = true)
    (hw : ds.length = width ∨ ds.length ≤ width ∧ ∀ c ∈ rest.head?, c.isDigit = false) :
    digits? width (ds ++ rest) = some (ds,rest) := by
  have hle : ds.length ≤ width := by omega
  have hstop : (rest.take (width - ds.length)).takeWhile Char.isDigit = [] := by
    rcases hw with rfl | ⟨_,hrest⟩
    · rw [Nat.sub_self]
      rfl
    · cases width - ds.length with
      | zero => rfl
      | succ n =>
        cases rest with
        | nil => rfl
        | cons c rest => exact List.takeWhile_cons_of_neg (by rw [hrest c rfl]; decide)
  have hread : ((ds ++ rest).take width).takeWhile Char.isDigit = ds := by
    rw [List.take_append,List.take_of_length_le hle,List.takeWhile_append_of_pos hd,hstop,List.append_nil]
  rw [digits?,hread]
  cases ds with
  | nil => exact absurd rfl hne
  | cons c ds => exact congrArg (fun cs => some (_,cs)) List.drop_left

/-! ### Padded numbers -/

private theorem padded_ne_nil (width n : Nat) : padded width n ≠ [] :=
  List.append_ne_nil_of_right_ne_nil _ Nat.toDigits_ne_nil

private theorem isDigit_of_mem_padded {width n : Nat} : ∀ c ∈ padded width n, c.isDigit = true := by
  intro c hc
  rcases List.mem_append.mp hc with hc | hc
  · rw [(List.mem_replicate.mp hc).2]
    rfl
  · exact Nat.isDigit_of_mem_toDigits (by decide) (by decide) hc

private theorem length_padded {width n : Nat} (hw : 0 < width) (h : n < Nat.pow 10 width) :
    (padded width n).length = width := by
  have hlen := (Nat.length_toDigits_le_iff (b := 10) (by decide) hw).mpr h
  rw [padded,List.length_append,List.length_replicate]
  omega

private theorem ofDigitChars_padded (width n : Nat) : Nat.ofDigitChars 10 (padded width n) 0 = n := by
  have hzeros : ∀ k, Nat.ofDigitChars 10 (List.replicate k '0' ++ Nat.toDigits 10 n) 0 = n := by
    intro k
    induction k with
    | zero => exact Nat.ofDigitChars_ten_toDigits
    | succ k ih => exact ih
  exact hzeros _

private theorem number?_padded {width n : Nat} (hw : 0 < width) (h : n < Nat.pow 10 width) (rest : List Char) :
    number? width (padded width n ++ rest) = some (n,rest) := by
  rw [number?,trimStart_digits (padded_ne_nil _ _) isDigit_of_mem_padded,
    digits?_append (padded_ne_nil _ _) isDigit_of_mem_padded (.inl (length_padded hw h)),Option.map_some]
  exact congrArg (fun m => some (m,rest)) (ofDigitChars_padded width n)

/-! ### The parts of an instant's text -/

private theorem separator?_cons {sep : Char} (h : Text.isBlank sep = false) (rest : List Char) :
    separator? sep (sep::rest) = some rest := by
  rw [separator?,trimStart_of_not_blank h]
  exact if_pos rfl

/-- A sign lets a year have any number of digits. -/
theorem year?_signed (n : Nat) (rest : List Char) :
    year? ('-'::padded 4 n ++ '-'::rest) = some (-(n : Int),'-'::rest) ∧
      year? ('+'::padded 4 n ++ '-'::rest) = some ((n : Int),'-'::rest) := by
  have hdigits : digits? (padded 4 n ++ '-'::rest).length (padded 4 n ++ '-'::rest) =
      some (padded 4 n,'-'::rest) :=
    digits?_append (padded_ne_nil 4 n) isDigit_of_mem_padded (.inr ⟨by simp,fun c hc => by cases hc; rfl⟩)
  constructor
  all_goals
    rw [List.cons_append,year?,trimStart_of_not_blank (by decide)]
    refine (congrArg (Option.map _) hdigits).trans ?_
    simp only [Option.map_some,ofDigitChars_padded]

private theorem year?_unsigned {n : Nat} (h : n < Nat.pow 10 4) (rest : List Char) :
    year? (padded 4 n ++ rest) = some ((n : Int),rest) := by
  have hdigits : digits? 4 (padded 4 n ++ rest) = some (padded 4 n,rest) :=
    digits?_append (padded_ne_nil 4 n) isDigit_of_mem_padded (.inl (length_padded (by decide) h))
  have hfirst : ∀ c cs, padded 4 n ++ rest = c::cs → c.isDigit = true := by
    intro c cs heq
    cases hp : padded 4 n with
    | nil => exact absurd hp (padded_ne_nil 4 n)
    | cons d ds =>
      rw [hp] at heq
      cases heq
      exact isDigit_of_mem_padded _ (hp ▸ List.mem_cons_self)
  rw [year?,trimStart_digits (padded_ne_nil 4 n) isDigit_of_mem_padded]
  split
  · next heq => cases hfirst _ _ heq
  · next heq => cases hfirst _ _ heq
  · rw [hdigits]
    simp only [Option.map_some,ofDigitChars_padded]

private theorem year?_yearText (year : Int) (rest : List Char) :
    year? (yearText year ++ '-'::rest) = some (year,'-'::rest) := by
  rw [yearText]
  split
  · next h =>
    rw [year?_unsigned (by change year.toNat < 10000; omega),Int.toNat_of_nonneg h.1]
  split
  · rw [(year?_signed _ rest).1]
    congr 2
    omega
  · rw [(year?_signed _ rest).2]
    congr 2
    omega

private theorem fraction?_fractionText {nano : Nat} (h : nano < 1000000000) :
    fraction? (fractionText nano ++ ['Z']) = some (nano,['Z']) := by
  have hread : ∀ width n : Nat, 0 < width → width ≤ 9 → n < Nat.pow 10 width →
      fraction? ('.'::padded width n ++ ['Z']) = some (n * Nat.pow 10 (9 - width),['Z']) := by
    intro width n hw hle hn
    have hlen := length_padded hw hn
    have hdigits : digits? 9 (padded width n ++ ['Z']) = some (padded width n,['Z']) :=
      digits?_append (padded_ne_nil width n) isDigit_of_mem_padded
        (.inr ⟨by rw [hlen]; exact hle,fun c hc => by cases hc; rfl⟩)
    rw [List.cons_append,fraction?,hdigits,Option.map_some]
    simp only [ofDigitChars_padded,hlen]
    rfl
  rw [fractionText]
  split
  · next h0 =>
    rw [h0]
    rfl
  split
  · rw [hread 3 _ (by decide) (by decide) (by change _ < 1000; omega)]
    congr 2
    change _ * 1000000 = nano
    omega
  split
  · rw [hread 6 _ (by decide) (by decide) (by change _ < 1000000; omega)]
    congr 2
    change _ * 1000 = nano
    omega
  · rw [hread 9 _ (by decide) (by decide) h]
    congr 2
    exact Nat.mul_one nano

/-! ### The whole text -/

/-- The nanoseconds of an instant pass a whole second only in the last second of a minute. -/
def Regular (t : Instant) : Prop := 1000000000 ≤ t.nano → t.second % 60 = 59

instance (t : Instant) : Decidable t.Regular := inferInstanceAs (Decidable (_ → _))

/-- The instant that the text of an instant denotes: nanoseconds that pass a whole second elsewhere than at the end
of a minute have become those of the next second. -/
def spoken (t : Instant) : Instant :=
  if h : 1000000000 ≤ t.nano ∧ t.second % 60 ≠ 59 then
    { t with
      second := t.second + 1
      nano := t.nano - 1000000000
      second_lt := by
        have hsecond := t.second_lt
        omega
      nano_lt := by
        have hnano := t.nano_lt
        omega }
  else t

private theorem spoken_of_regular {t : Instant} (h : t.Regular) : t.spoken = t :=
  dif_neg fun hpast => hpast.2 (h hpast.1)

theorem regular_spoken (t : Instant) : t.spoken.Regular := by
  rw [spoken]
  split
  · intro hpast
    have hnano := t.nano_lt
    dsimp only at hpast
    omega
  · next h =>
    intro hpast
    exact Decidable.not_not.mp fun hsecond => h ⟨hpast,hsecond⟩

theorem spoken_eq_self {t : Instant} : t.spoken = t ↔ t.Regular :=
  ⟨fun h => h ▸ t.regular_spoken,spoken_of_regular⟩

theorem toText_spoken (t : Instant) : t.spoken.toText = t.toText := by
  rw [spoken]
  split
  · next h =>
    obtain ⟨hpast,hsecond⟩ := h
    have hnano := t.nano_lt
    have hhour : (t.second + 1) / 3600 = t.second / 3600 := by omega
    have hminute : (t.second + 1) / 60 % 60 = t.second / 60 % 60 := by omega
    have hnext : (t.second + 1) % 60 = t.second % 60 + 1 := by omega
    have hbelow : ¬ 1000000000 ≤ t.nano - 1000000000 := by omega
    rw [toText,toText,toChars,toChars]
    simp only [clockText,hhour,hminute,hnext,if_neg hbelow,if_pos hpast,Nat.add_zero]
  · rfl

private theorem make?_self {t : Instant} (h : t.Regular) : make? t.day t.second t.nano = some t :=
  dif_pos ⟨t.day_mem,t.second_lt,t.nano_lt,h⟩

private theorem regular_of_make? {day : Int} {second nano : Nat} {t : Instant} (h : make? day second nano = some t) :
    t.Regular := by
  rw [make?] at h
  split at h
  · next hparts =>
    cases h
    exact hparts.2.2.2
  · cases h

/-- The parts that are written, with no offset from UTC, denote the instant that has them. -/
theorem ofLocal?_self {t : Instant} (h : t.Regular) :
    ofLocal? (Date.ofDay t.day) (t.second / 3600) (t.second / 60 % 60)
      (t.second % 60 + if 1000000000 ≤ t.nano then 1 else 0)
      (if 1000000000 ≤ t.nano then t.nano - 1000000000 else t.nano) 0 = some t := by
  have hday := t.day_mem
  have hsecond := t.second_lt
  have hbounds : ¬(t.day < minDay ∨ maxDay < t.day ∨ 24 ≤ t.second / 3600 ∨ 60 ≤ t.second / 60 % 60 ∨
      61 ≤ t.second % 60 + (if 1000000000 ≤ t.nano then 1 else 0) ∨ 1440 ≤ (0 : Int).natAbs) := by
    split <;> omega
  -- The second `:60` stands for nanoseconds beyond the last second of the minute.
  have hleap : (if t.second % 60 + (if 1000000000 ≤ t.nano then 1 else 0) = 60
      then (59,(if 1000000000 ≤ t.nano then t.nano - 1000000000 else t.nano) + 1000000000)
      else (t.second % 60 + (if 1000000000 ≤ t.nano then 1 else 0),
        if 1000000000 ≤ t.nano then t.nano - 1000000000 else t.nano)) = (t.second % 60,t.nano) := by
    split
    · next hl =>
      have h59 := h hl
      simp only [h59,if_true,Nat.sub_add_cancel hl]
    · next hl =>
      rw [if_neg (by omega)]
      rfl
  have hminutes : ((t.second / 3600 : Nat) : Int) * 60 + (t.second / 60 % 60 : Nat) - 0 = (t.second / 60 : Nat) := by
    omega
  simp only [ofLocal?,Date.toDay?_ofDay,Option.bind_eq_bind,Option.bind_some,if_neg hbounds,hleap,hminutes]
  refine Eq.trans ?_ (make?_self h)
  congr 1 <;> omega

theorem ofText?_toText_of_regular {t : Instant} (h : t.Regular) : ofText? t.toText = some t := by
  obtain ⟨hmonth,hday⟩ := Date.le_of_toDay? (Date.toDay?_ofDay t.day)
  have hsecond := t.second_lt
  have hnano := t.nano_lt
  have htwo : ∀ n < 100, ∀ rest, number? 2 (padded 2 n ++ rest) = some (n,rest) := fun n hn =>
    number?_padded (by decide) hn
  have hbelow : (if 1000000000 ≤ t.nano then t.nano - 1000000000 else t.nano) < 1000000000 := by
    split <;> omega
  have hleap : (t.second % 60 + if 1000000000 ≤ t.nano then 1 else 0) < 100 := by
    split <;> omega
  have hfraction := fraction?_fractionText hbelow
  have hdash : ∀ rest, separator? '-' ('-'::rest) = some rest := separator?_cons (by decide)
  have hcolon : ∀ rest, separator? ':' (':'::rest) = some rest := separator?_cons (by decide)
  have hbind : ∀ {α β : Type} (a : α) (f : α → Option β), (some a >>= f) = f a := fun _ _ => rfl
  have hm := htwo _ (Nat.lt_of_le_of_lt hmonth (by decide))
  have hd := htwo _ (Nat.lt_of_le_of_lt hday (by decide))
  have hhour := htwo (t.second / 3600) (by omega)
  have hminute := htwo (t.second / 60 % 60) (by omega)
  have hs := htwo _ hleap
  rw [ofText?,toText,String.toList_ofList,toChars]
  simp only [dateText,clockText,List.append_assoc,List.cons_append]
  rw [ofChars?,year?_yearText]
  -- Each part is read in turn, and what is left of the text is the next part.
  rw [hbind]
  dsimp only
  rw [hdash,hbind,hm,hbind]
  dsimp only
  rw [hdash,hbind,hd,hbind]
  dsimp only
  rw [if_pos (.inl rfl),hbind,hhour,hbind]
  dsimp only
  rw [hcolon,hbind,hminute,hbind]
  dsimp only
  rw [hcolon,hbind,hs,hbind]
  dsimp only
  rw [hfraction,hbind]
  exact ofLocal?_self h

theorem ofText?_toText (t : Instant) : ofText? t.toText = some t.spoken := by
  rw [← t.toText_spoken]
  exact ofText?_toText_of_regular t.regular_spoken

private theorem regular_of_ofLocal? {date : Date} {hour minute second nano : Nat} {offset : Int} {t : Instant}
    (h : ofLocal? date hour minute second nano offset = some t) : t.Regular := by
  simp only [ofLocal?,Option.bind_eq_bind,Option.bind_eq_some_iff] at h
  obtain ⟨day,_,h⟩ := h
  split at h
  · cases h
  · exact regular_of_make? h

/-- What is read is regular. -/
theorem regular_of_ofText? {s : String} {t : Instant} (h : ofText? s = some t) : t.Regular := by
  rw [ofText?,ofChars?] at h
  -- A time is the last thing that is made of what is read, whatever the parts before it are.
  iterate 5 obtain ⟨_,_,h⟩ := Option.bind_eq_some_iff.mp h
  dsimp only at h
  split at h
  · split at h
    · iterate 8 obtain ⟨_,_,h⟩ := Option.bind_eq_some_iff.mp h
      split at h
      · exact regular_of_ofLocal? h
      · cases h
    · cases h
  · cases h

theorem toText_inj {t u : Instant} (ht : t.Regular) (hu : u.Regular) : t.toText = u.toText ↔ t = u := by
  constructor
  · intro h
    have hread := ofText?_toText_of_regular ht
    rw [h,ofText?_toText_of_regular hu] at hread
    exact (Option.some.inj hread).symm
  · exact congrArg toText

end FieldReplica.Time.Instant
