import Mathlib.Data.List.Infix
import FieldReplica.Text.Search

/-!
# Searching text

A text holds another one exactly if the other one is a piece of it.
-/
namespace FieldReplica.Text

private theorem startsWith_iff (cs part : List Char) : startsWith cs part = true ↔ part <+: cs := by
  induction part generalizing cs with
  | nil => cases cs <;> simp [startsWith]
  | cons d ds ih =>
    cases cs with
    | nil => simp [startsWith]
    | cons c cs =>
      rw [startsWith,Bool.and_eq_true,decide_eq_true_eq,ih,List.cons_prefix_cons,@eq_comm _ c d]

theorem holds_iff (cs part : List Char) : holds cs part = true ↔ part <:+: cs := by
  induction cs with
  | nil => rw [holds,startsWith_iff]; simp
  | cons c cs ih => rw [holds,Bool.or_eq_true,startsWith_iff,ih,List.infix_cons_iff]

/-- What does not have a character ends before it. -/
theorem prefix_append_cons_iff {c : Char} {part : List Char} (hc : c ∉ part) (a b : List Char) :
    part <+: a ++ c::b ↔ part <+: a := by
  induction part generalizing a with
  | nil => simp
  | cons d ds ih =>
    obtain ⟨hd,hds⟩ := List.ne_and_not_mem_of_not_mem_cons hc
    cases a with
    | nil => simp [List.cons_prefix_cons,Ne.symm hd]
    | cons e a => rw [List.cons_append,List.cons_prefix_cons,List.cons_prefix_cons,ih hds]

/-- What does not have a character is held before it or after it. -/
theorem holds_append_cons {c : Char} {part : List Char} (hc : c ∉ part) (a b : List Char) :
    holds (a ++ c::b) part = (holds a part || holds b part) := by
  rw [Bool.eq_iff_iff,Bool.or_eq_true,holds_iff,holds_iff,holds_iff]
  induction a with
  | nil =>
    have hcons := prefix_append_cons_iff hc [] b
    rw [List.nil_append] at hcons
    rw [List.nil_append,List.infix_cons_iff,hcons]
    simp
  | cons d a ih =>
    rw [List.cons_append,List.infix_cons_iff,ih,← List.cons_append,prefix_append_cons_iff hc,
      List.infix_cons_iff,or_assoc]

/-- What a piece of a text holds is held by the text. -/
theorem holds_of_infix {cs ds part : List Char} (h : cs <:+: ds) (hc : holds cs part = true) :
    holds ds part = true := by
  rw [holds_iff] at hc ⊢
  exact hc.trans h

/-! ### Capitals -/

/-- What comes before the letters is no small letter of another character. -/
theorem toLower_eq_iff {c : Char} (hc : c.toNat < 65) (x : Char) : x.toLower = c ↔ x = c := by
  by_cases h : x.val ≥ 'A'.val ∧ x.val ≤ 'Z'.val
  · have hcapital : x.toLower = ⟨x.val + ('a'.val - 'A'.val),_⟩ := dif_pos h
    rw [hcapital]
    have hlow : 65 ≤ x.toNat := UInt32.le_iff_toNat_le.mp h.1
    have hhigh : x.toNat ≤ 90 := UInt32.le_iff_toNat_le.mp h.2
    constructor
    · intro he
      rw [← he] at hc
      simp only [Char.toNat] at hc hlow hhigh
      rw [UInt32.toNat_add] at hc
      have hstep : ('a'.val - 'A'.val).toNat = 32 := by decide
      omega
    · rintro rfl
      omega
  · have hother : x.toLower = x := dif_neg h
    rw [hother]

/-- For a text without letters it does not matter in what case it is looked for. -/
theorem holds_toLower {part : List Char} (hp : ∀ c ∈ part, c.toNat < 65) (cs : List Char) :
    holds (cs.map Char.toLower) part = holds cs part := by
  rw [Bool.eq_iff_iff,holds_iff,holds_iff,List.infix_map_iff]
  have hsame : ∀ ds : List Char, part = ds.map Char.toLower ↔ part = ds := by
    intro ds
    induction part generalizing ds with
    | nil => cases ds <;> simp
    | cons c part ih =>
      obtain ⟨hc,hpart⟩ := List.forall_mem_cons.mp hp
      cases ds with
      | nil => simp
      | cons d ds =>
        rw [List.map_cons,List.cons.injEq,List.cons.injEq,ih hpart,@eq_comm _ c,toLower_eq_iff hc,
          @eq_comm _ d]
  constructor
  · rintro ⟨ds,hds,he⟩
    rw [(hsame ds).mp he]
    exact hds
  · intro h
    exact ⟨part,h,(hsame part).mpr rfl⟩

end FieldReplica.Text
