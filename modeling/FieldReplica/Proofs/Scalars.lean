import FieldReplica.Proofs.Quotes
import FieldReplica.Proofs.Rendering
import FieldReplica.Toml.Reader

/-!
# Scalars written and read

The digits of a number, a truth value and a string are each read as what they stand for, at the end of a line. The
readers of dates and of doubles are tried before the reader of whole numbers, and leave plain digits to it.
-/
namespace FieldReplica.Toml

/-! ### Leaving a text to another reader -/

/-- A failure after which something else may be tried. -/
def Passes {α : Type} (e : Except Trouble α) : Prop := ∃ t, e = .error t ∧ t.settled = false

namespace Passes

variable {α β : Type} {r s : Reader α} {cs : List Char}

theorem bind {e : Except Trouble α} (h : Passes e) (f : α → Except Trouble β) : Passes (e >>= f) := by
  obtain ⟨t,rfl,ht⟩ := h
  exact ⟨t,rfl,ht⟩

theorem reading (h : Passes (r cs)) (what : String) : Passes (r.reading what cs) := by
  obtain ⟨t,hr,ht⟩ := h
  exact ⟨_,congrArg (Except.mapError _) hr,ht⟩

private theorem orElse_eq (h : Passes (r cs)) (s : Reader α) : r.orElse s cs = s cs := by
  obtain ⟨t,hr,ht⟩ := h
  rw [Reader.orElse,hr]
  exact if_neg (by rw [ht]; exact Bool.false_ne_true)

theorem orElse (hr : Passes (r cs)) (hs : Passes (s cs)) : Passes (r.orElse s cs) := by
  rwa [hr.orElse_eq]

end Passes

/-! ### Digits -/

section Digits

variable {ds : List Char} (hds : ∀ d ∈ ds, d.isDigit = true) (rest : List Char)

include hds

private theorem moreDigits_append : moreDigits Char.isDigit (ds ++ '\n'::rest) = .ok (ds,'\n'::rest) := by
  induction ds with
  | nil => rfl
  | cons d ds ih =>
    have hd : d.isDigit = true := hds d List.mem_cons_self
    have hrest := ih fun e he => hds e (List.mem_cons_of_mem _ he)
    rw [List.cons_append,moreDigits,if_pos hd,hrest]
    · rfl
    · rintro c cs rfl
      cases hd
    · rintro rfl
      cases hd

/-- A fixed count of digits is not the first part of a date or a time, where no more than digits stand on the line. -/
theorem passes_digitsWithin {α : Type} (sep : Char) (hsep : sep.isDigit = false) (hline : sep ≠ '\n')
    (count low high : Nat) (f : Nat × List Char → Unit × List Char → Except Trouble α) :
    Passes (digitsWithin count low high (ds ++ '\n'::rest) >>= fun x => Reader.char sep x.2 >>= f x) := by
  -- With enough digits the character after them is a digit or the end of the line, and neither is the separator.
  by_cases hcount : count ≤ ds.length
  · rw [digitsWithin]
    split
    · exact ⟨_,rfl,rfl⟩
    · split
      · have hchar : Passes (Reader.char sep ((ds ++ '\n'::rest).drop count)) := by
          rw [List.drop_append_of_le_length hcount]
          cases hdrop : ds.drop count with
          | nil => exact ⟨_,if_neg hline,rfl⟩
          | cons d es =>
            have hd : d.isDigit = true := hds d (List.mem_of_mem_drop (by rw [hdrop]; exact List.mem_cons_self))
            exact ⟨_,if_neg (by rintro rfl; rw [hd] at hsep; cases hsep),rfl⟩
        exact hchar.bind _
      · exact ⟨_,rfl,rfl⟩
  · have hshort : (((ds ++ '\n'::rest).take count).takeWhile Char.isDigit).length < count := by
      have htake : ((ds ++ '\n'::rest).take count).takeWhile Char.isDigit = ds := by
        rw [List.take_append,List.take_of_length_le (by omega),List.takeWhile_append_of_pos hds]
        obtain ⟨k,hk⟩ : ∃ k, count - ds.length = k + 1 := ⟨count - ds.length - 1,by omega⟩
        rw [hk,List.take_succ_cons,List.takeWhile_cons_of_neg (by decide),List.append_nil]
      rw [htake]
      omega
    rw [digitsWithin,if_pos hshort]
    exact ⟨_,rfl,rfl⟩

private theorem passes_moment : Passes (moment (ds ++ '\n'::rest)) :=
  have hdate : Passes (date (ds ++ '\n'::rest)) :=
    passes_digitsWithin hds rest '-' rfl (by decide) 4 0 9999 _
  have htime : Passes (time (ds ++ '\n'::rest)) :=
    passes_digitsWithin hds rest ':' rfl (by decide) 2 0 23 _
  .orElse (.reading (hdate.bind _) _) (.reading htime _)

end Digits

/-! ### Whole numbers -/

private theorem isDigit_toDigits (n : Nat) : ∀ d ∈ Nat.toDigits 10 n, d.isDigit = true :=
  fun _ hd => Nat.isDigit_of_mem_toDigits (by decide) (by decide) hd

private theorem exists_toDigits_eq (n : Nat) : ∃ d ds, Nat.toDigits 10 n = d::ds ∧ d.isDigit = true := by
  obtain ⟨d,ds,hds⟩ := List.exists_cons_of_ne_nil (Nat.toDigits_ne_nil (n := n) (b := 10))
  exact ⟨d,ds,hds,isDigit_toDigits n d (by rw [hds]; exact List.mem_cons_self)⟩

private theorem toDigits_cases (n : Nat) : Nat.toDigits 10 n = ['0'] ∨
    ∃ d ds, Nat.toDigits 10 n = d::ds ∧ d.isDigit = true ∧ d ≠ '0' := by
  obtain ⟨d,ds,hds,hdigit⟩ := exists_toDigits_eq n
  by_cases hd : d = '0'
  · subst hd
    obtain rfl := Text.Decimal.eq_zero_of_head hds
    exact .inl rfl
  · exact .inr ⟨d,ds,hds,hdigit,hd⟩

private theorem takeSign_of_isDigit {d : Char} (hd : d.isDigit = true) (cs : List Char) :
    takeSign (d::cs) = (false,d::cs) := by
  rw [takeSign] <;> rintro _ ⟨⟩ <;> cases hd

private theorem decimalDigits_toDigits (n : Nat) (rest : List Char) :
    decimalDigits (Nat.toDigits 10 n ++ '\n'::rest) = .ok ((false,Nat.toDigits 10 n),'\n'::rest) := by
  refine Reader.reading_ok ?_ _
  rcases toDigits_cases n with hn | ⟨d,ds,hn,hdigit,hd⟩
  · rw [hn]
    rfl
  · have hmore := moreDigits_append (isDigit_toDigits n) rest
    have hsign : takeSign (Nat.toDigits 10 n ++ '\n'::rest) = (false,Nat.toDigits 10 n ++ '\n'::rest) := by
      rw [hn]
      exact takeSign_of_isDigit hdigit _
    have hrun : digitRun Char.isDigit (Nat.toDigits 10 n ++ '\n'::rest) = .ok (Nat.toDigits 10 n,'\n'::rest) := by
      rw [← hmore,hn,List.cons_append,digitRun,if_pos hdigit]
    rw [hsign]
    dsimp only
    split
    · next h =>
      rw [hn] at h
      exact absurd (List.cons.inj h).1 hd
    · rw [hrun]
      rfl

private theorem foldl_digits {ds : List Char} (hds : ∀ d ∈ ds, d.isDigit = true) (m : Nat) :
    ds.foldl (fun n d => n * 10 + (Url.hexValue? d).getD 0) m = Nat.ofDigitChars 10 ds m := by
  induction ds generalizing m with
  | nil => rfl
  | cons d ds ih =>
    have hd := hds d List.mem_cons_self
    have hhex : Url.hexValue? d = some (d.toNat - '0'.toNat) := by
      simp only [Char.isDigit,Bool.and_eq_true,decide_eq_true_eq] at hd
      exact if_pos hd
    rw [List.foldl_cons,Nat.ofDigitChars_cons,ih fun e he => hds e (List.mem_cons_of_mem _ he),hhex,Option.getD_some,
      Nat.mul_comm]

private theorem digitsValue_toDigits (n : Nat) : digitsValue 10 (Nat.toDigits 10 n) = n := by
  rw [digitsValue,foldl_digits (isDigit_toDigits n)]
  exact Nat.ofDigitChars_toDigits (by decide) (by decide)

private theorem passes_real (n : Nat) (rest : List Char) : Passes (real (Nat.toDigits 10 n ++ '\n'::rest)) := by
  have hfractional : Passes (fractional (Nat.toDigits 10 n ++ '\n'::rest)) := by
    rw [fractional,decimalDigits_toDigits]
    exact ⟨_,rfl,rfl⟩
  have hspecial : Passes (special (Nat.toDigits 10 n ++ '\n'::rest)) := by
    obtain ⟨d,ds,hn,hdigit⟩ := exists_toDigits_eq n
    rw [hn,List.cons_append,special,takeSign_of_isDigit hdigit]
    dsimp only
    split
    · next h =>
      obtain rfl := (List.cons.inj h).1
      cases hdigit
    · next h =>
      obtain rfl := (List.cons.inj h).1
      cases hdigit
    · exact ⟨_,rfl,rfl⟩
  exact .reading (hfractional.orElse hspecial) _

private theorem integer_toDigits {n : Nat} (h : n ≤ Int64.maxValue.toNatClampNeg) (rest : List Char) :
    integer (Nat.toDigits 10 n ++ '\n'::rest) = .ok ((n : Int),'\n'::rest) := by
  have hbounded : bounded (n : Int) = .ok (n : Int) := by
    have hmax : Int64.maxValue.toNatClampNeg = 9223372036854775807 := by decide
    have hmax' : Int64.maxValue.toInt = 9223372036854775807 := by decide
    have hmin : Int64.minValue.toInt = -9223372036854775808 := by decide
    rw [bounded,if_neg (by omega),if_neg (by omega)]
  have hmark : ∀ c cs, Nat.toDigits 10 n ++ '\n'::rest = '0'::c::cs → c = '\n' := by
    intro c cs hcs
    rcases toDigits_cases n with hn | ⟨d,ds,hn,-,hd⟩
    · rw [hn] at hcs
      exact (List.cons.inj (List.cons.inj hcs).2).1.symm
    · rw [hn] at hcs
      exact absurd (List.cons.inj hcs).1 hd
  rw [integer]
  · refine (bind_of_ok (decimalDigits_toDigits n rest)).trans ?_
    dsimp only
    rw [if_neg Bool.false_ne_true,digitsValue_toDigits,hbounded]
    rfl
  -- The mark of another base would stand after the zero, where the line ends.
  all_goals
    intro cs hcs
    cases hmark _ _ hcs

/-! ### Scalars -/

theorem scalar_toDigits {n : Nat} (h : n ≤ Int64.maxValue.toNatClampNeg) (rest : List Char) :
    scalar (Nat.toDigits 10 n ++ '\n'::rest) = .ok (.integer n,'\n'::rest) := by
  have hinteger : scalarMap .integer integer (Nat.toDigits 10 n ++ '\n'::rest) = .ok (.integer n,'\n'::rest) := by
    rw [scalarMap,integer_toDigits h]
    rfl
  have hmoment := (passes_moment (isDigit_toDigits n) rest).bind
    fun x => Except.ok (Scalar.moment,x.2)
  have hreal := (passes_real n rest).bind fun x => Except.ok (Scalar.float x.1,x.2)
  obtain ⟨d,ds,hn,hdigit⟩ := exists_toDigits_eq n
  have hquote : ¬(d = '"' ∨ d = '\x27') := by rintro (rfl | rfl) <;> cases hdigit
  calc scalar (Nat.toDigits 10 n ++ '\n'::rest)
      = ((scalarMap (fun _ => .moment) moment).orElse ((scalarMap .float real).orElse (scalarMap .integer integer)))
          (Nat.toDigits 10 n ++ '\n'::rest) := by
        rw [hn,List.cons_append,scalar]
        exact (if_neg hquote).trans (if_pos (.inr (.inr hdigit)))
    _ = scalarMap .integer integer (Nat.toDigits 10 n ++ '\n'::rest) := by
        rw [Passes.orElse_eq (r := scalarMap (fun _ => .moment) moment) hmoment,
          Passes.orElse_eq (r := scalarMap .float real) hreal]
    _ = _ := hinteger

theorem scalar_boolean (b : Bool) (rest : List Char) :
    scalar ((toString b).toList ++ '\n'::rest) = .ok (.boolean b,'\n'::rest) := by
  cases b <;> rfl

theorem scalar_quote (s : String) (rest : List Char) :
    scalar (quote s ++ '\n'::rest) = .ok (.string s,'\n'::rest) := by
  have hline : ∀ q, IsQuote q → ('\n'::rest).head? ≠ some q := fun _ hq h => hq.line (Option.some.inj h).symm
  have hread : string (quote s ++ '\n'::rest) = .ok (s,'\n'::rest) :=
    string_quote hline s
  have hquote : ∃ q cs, quote s ++ '\n'::rest = q::cs ∧ (q = '"' ∨ q = '\x27') := by
    rw [quote]
    cases StringForm.choose s.toList with
    | basic => exact ⟨_,_,rfl,.inl rfl⟩
    | literal => exact ⟨_,_,rfl,.inr rfl⟩
    | basicLines => exact ⟨_,_,rfl,.inl rfl⟩
    | literalLines => exact ⟨_,_,rfl,.inr rfl⟩
  obtain ⟨q,cs,htext,hq⟩ := hquote
  rw [htext] at hread ⊢
  rw [scalar,if_pos hq,scalarMap,hread]
  rfl

end FieldReplica.Toml
