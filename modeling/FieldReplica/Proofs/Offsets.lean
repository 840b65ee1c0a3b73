import Mathlib.Data.Prod.Lex
import Mathlib.Order.WithBot
import FieldReplica.Stream.Offset

/-!
# The text and the order of offsets

A text denotes an offset exactly if it is `-1` or two numbers with an underscore between them: the text before the
first underscore and all that follows it each have to be a number, with or without a plus sign and whatever zeros it
begins with. Offsets are ordered as pairs are, with the start of the log below all of them.
-/
namespace FieldReplica

namespace Text.Decimal

/-- A text denotes a number: it is a run of digits that may follow a plus sign. -/
def Denotes (cs : List Char) (n : Nat) : Prop :=
  ∃ ds, (cs = ds ∨ cs = '+'::ds) ∧ ds ≠ [] ∧ (∀ c ∈ ds, c.isDigit = true) ∧ Nat.ofDigitChars 10 ds 0 = n

private theorem digits?_eq_some {cs : List Char} {n : Nat} : digits? cs = some n ↔
    cs ≠ [] ∧ (∀ c ∈ cs, c.isDigit = true) ∧ Nat.ofDigitChars 10 cs 0 = n := by
  rw [digits?,← List.all_eq_true,← and_assoc]
  split
  · next h => rw [Option.some.injEq,and_iff_right h]
  · next h => exact iff_of_false (Option.some_ne_none n).symm fun hn => h hn.1

private theorem natural?_eq_some {cs : List Char} {n : Nat} : natural? cs = some n ↔ Denotes cs n := by
  have hplus : ('+' : Char).isDigit = false := rfl
  constructor
  · intro h
    unfold natural? at h
    split at h
    · exact ⟨_,.inr rfl,digits?_eq_some.mp h⟩
    · exact ⟨_,.inl rfl,digits?_eq_some.mp h⟩
  · rintro ⟨ds,rfl | rfl,hds⟩
    · -- A run of digits does not begin with the sign.
      unfold natural?
      split
      · next cs => exact absurd (hds.2.1 '+' List.mem_cons_self) (by rw [hplus]; decide)
      · exact digits?_eq_some.mpr hds
    · exact digits?_eq_some.mpr hds

private theorem uint64?_eq_some {cs : List Char} {n : UInt64} : uint64? cs = some n ↔ Denotes cs n.toNat := by
  rw [← natural?_eq_some,uint64?,Option.bind_eq_some_iff]
  constructor
  · rintro ⟨m,hm,h⟩
    split at h
    · next hlt => rw [hm,← Option.some.inj h,UInt64.toNat_ofNat_of_lt' hlt]
    · cases h
  · intro h
    exact ⟨_,h,by rw [if_pos n.toNat_lt,UInt64.ofNat_toNat]⟩

end Text.Decimal

namespace LogOffset

open Text.Decimal

private theorem splitAtUnderscore?_eq_some {cs a b : List Char} :
    splitAtUnderscore? cs = some (a,b) ↔ cs = a ++ '_'::b ∧ '_' ∉ a := by
  induction cs generalizing a with
  | nil => simp [splitAtUnderscore?]
  | cons c cs ih =>
    rw [splitAtUnderscore?]
    split
    · next hc =>
      subst hc
      cases a with
      | nil => simp
      | cons d a =>
        refine iff_of_false (by simp) ?_
        rintro ⟨h,hd⟩
        exact hd (List.mem_cons.mpr (.inl (List.cons.inj h).1))
    · next hc =>
      rw [Option.map_eq_some_iff]
      constructor
      · rintro ⟨⟨a',b'⟩,h,he⟩
        obtain ⟨rfl,rfl⟩ := Prod.mk.inj he
        obtain ⟨rfl,ha⟩ := ih.mp h
        exact ⟨rfl,List.not_mem_cons_of_ne_of_not_mem (Ne.symm hc) ha⟩
      · rintro ⟨h,ha⟩
        cases a with
        | nil => exact absurd (List.cons.inj h).1 hc
        | cons d a =>
          obtain ⟨rfl,rfl⟩ := List.cons.inj h
          exact ⟨(a,b),ih.mpr ⟨rfl,List.not_mem_of_not_mem_cons ha⟩,rfl⟩

/-- What the texts of offsets look like. -/
inductive Written : List Char → LogOffset → Prop
  | beforeStart : Written ['-','1'] .beforeStart
  | at {a b : List Char} {tx op : UInt64} : '_' ∉ a → Denotes a tx.toNat → Denotes b op.toNat →
      Written (a ++ '_'::b) (.at tx op)

theorem ofText?_eq_some {s : String} {o : LogOffset} : ofText? s = some o ↔ Written s.toList o := by
  rw [ofText?,ofChars?]
  split
  · next h =>
    rw [h]
    constructor
    · intro ho
      rw [← Option.some.inj ho]
      exact .beforeStart
    · intro hw
      generalize hcs : ['-','1'] = cs at hw
      cases hw with
      | beforeStart => rfl
      | «at» ha _ _ =>
        exact absurd (hcs ▸ List.mem_append_right _ List.mem_cons_self : '_' ∈ ['-','1']) (by decide)
  · next h =>
    simp only [Option.bind_eq_some_iff,Option.map_eq_some_iff,Prod.exists,splitAtUnderscore?_eq_some,uint64?_eq_some]
    constructor
    · rintro ⟨a,b,⟨hs,ha⟩,tx,htx,op,hop,rfl⟩
      rw [hs]
      exact .at ha htx hop
    · intro hw
      generalize hcs : s.toList = cs at hw h
      cases hw with
      | beforeStart => exact absurd rfl h
      | «at» ha htx hop => exact ⟨_,_,⟨rfl,ha⟩,_,htx,_,hop,rfl⟩

private theorem denotes_ofNat (n : Nat) : Denotes (ofNat n) n := natural?_eq_some.mp (natural?_ofNat n)

private theorem written_toChars (o : LogOffset) : Written o.toChars o := by
  cases o with
  | beforeStart => exact .beforeStart
  | «at» tx op =>
    refine .at ?_ (denotes_ofNat _) (denotes_ofNat _)
    exact Nat.underscore_not_in_toDigits

/-- Every offset is what its text denotes. -/
theorem ofText?_toText (o : LogOffset) : ofText? o.toText = some o := by
  rw [ofText?_eq_some,toText,String.toList_ofList]
  exact written_toChars o

/-! ### The order of offsets -/

/-- An offset as a pair, in the order of pairs and with the start of the log below all of them. -/
def place : LogOffset → WithBot (Nat ×ₗ Nat)
  | .beforeStart => ⊥
  | .at tx op => (toLex (tx.toNat,op.toNat) : Nat ×ₗ Nat)

private theorem compare_eq_lt_toNat {a b : UInt64} : Ord.compare a b = .lt ↔ a.toNat < b.toNat := by
  rw [← UInt64.lt_iff_toNat_lt]
  exact compareOfLessAndEq_eq_lt

/-- Offsets are compared as their places are. -/
theorem compare_eq_lt {a b : LogOffset} : a.compare b = .lt ↔ a.place < b.place := by
  cases a with
  | beforeStart => cases b <;> simp [compare,place]
  | «at» tx op =>
    cases b with
    | beforeStart => simp [compare,place]
    | «at» tx' op' =>
      rw [compare,place,place,WithBot.coe_lt_coe,Prod.Lex.toLex_lt_toLex,Ordering.then_eq_lt,compare_eq_lt_toNat,
        compare_eq_lt_toNat,Std.LawfulEqOrd.compare_eq_iff_eq,UInt64.toNat_inj]

theorem compare_eq_eq {a b : LogOffset} : a.compare b = .eq ↔ a = b := by
  cases a <;> cases b <;> simp [compare]

end LogOffset
end FieldReplica
