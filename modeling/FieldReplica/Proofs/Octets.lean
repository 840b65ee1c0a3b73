import Mathlib.Data.List.Forall2
import FieldReplica.Text.Utf8

/-!
# Text as octets

The octets of a text are read as that text, character by character: the first octet of a character asks for as
many tail octets as follow it, within bounds that they keep.
-/
namespace FieldReplica.Text.Utf8

/-- A tail octet keeps the bounds that are set for it. -/
def Keeps (bounds : UInt8 × UInt8) (b : UInt8) : Prop := bounds.1.toNat ≤ b.toNat ∧ b.toNat ≤ bounds.2.toNat

private theorem isTail_of_keeps {bounds : UInt8 × UInt8} {b : UInt8} (h : Keeps bounds b) :
    isTail bounds.1 bounds.2 b = true := by
  rw [isTail,Bool.and_eq_true,decide_eq_true_eq,decide_eq_true_eq,UInt8.le_iff_toNat_le,UInt8.le_iff_toNat_le]
  exact h

private theorem takeTails_append {bounds : List (UInt8 × UInt8)} {taken : List UInt8}
    (h : List.Forall₂ Keeps bounds taken)
    (rest : List UInt8) : takeTails bounds (taken ++ rest) = (taken,true) := by
  induction h with
  | nil => rfl
  | cons hb _ ih => rw [List.cons_append,takeTails,if_pos (isTail_of_keeps hb),ih]

private theorem scan_lead {b : UInt8} {bounds : List (UInt8 × UInt8)} {taken : List UInt8} (hb : tails b = some bounds)
    (ht : List.Forall₂ Keeps bounds taken) (rest : List UInt8) :
    scan (b::(taken ++ rest)) = some (codePoint b taken)::scan rest := by
  have hnext : next b (taken ++ rest) = (some (codePoint b taken),taken.length) := by
    simp only [next,hb,takeTails_append ht,if_true]
  rw [scan,hnext,List.drop_left]

/-! ### How many tails a first octet asks for -/

variable {b : UInt8}

private theorem tails_of_one (h : b.toNat < 0x80) : tails b = some [] := by
  rw [tails,if_pos (UInt8.lt_iff_toNat_lt.mpr h)]

private theorem tails_of_two (h : 0xC2 ≤ b.toNat ∧ b.toNat < 0xE0) : tails b = some [(0x80,0xBF)] := by
  simp only [tails,UInt8.lt_iff_toNat_lt,UInt8.reduceToNat]
  rw [if_neg (by omega),if_neg (by omega),if_pos (by omega)]

private theorem tails_of_three (h : 0xE0 ≤ b.toNat ∧ b.toNat < 0xF0) : tails b =
    some [(if b.toNat = 0xE0 then 0xA0 else 0x80,if b.toNat = 0xED then 0x9F else 0xBF),(0x80,0xBF)] := by
  simp only [tails,UInt8.lt_iff_toNat_lt,← UInt8.toNat_inj,UInt8.reduceToNat]
  rw [if_neg (by omega),if_neg (by omega),if_neg (by omega)]
  by_cases h0 : b.toNat = 0xE0
  · simp [h0]
  · by_cases hd : b.toNat = 0xED
    · simp [hd]
    · simp [h0,hd,h.2]

private theorem tails_of_four (h : 0xF0 ≤ b.toNat ∧ b.toNat < 0xF5) : tails b =
    some [(if b.toNat = 0xF0 then 0x90 else 0x80,if b.toNat = 0xF4 then 0x8F else 0xBF),(0x80,0xBF),(0x80,0xBF)] := by
  simp only [tails,UInt8.lt_iff_toNat_lt,← UInt8.toNat_inj,UInt8.reduceToNat]
  rw [if_neg (by omega),if_neg (by omega),if_neg (by omega),if_neg (by omega),if_neg (by omega),if_neg (by omega)]
  by_cases h0 : b.toNat = 0xF0
  · simp [h0]
  · by_cases h4 : b.toNat = 0xF4
    · simp [h4]
    · have hlt : b.toNat < 0xF4 := by omega
      simp [h0,h4,hlt]

/-! ### Characters -/

private theorem leadBits_eq (b : UInt8) : leadBits b = if b.toNat < 0x80 then b.toNat else if b.toNat < 0xE0 then
    b.toNat % 0x20 else if b.toNat < 0xF0 then b.toNat % 0x10 else b.toNat % 0x08 := by
  simp only [leadBits,UInt8.lt_iff_toNat_lt,UInt8.reduceToNat]

private theorem toNat_ofNat_of_lt {n : Nat} (h : n < 256) : (UInt8.ofNat n).toNat = n :=
  Nat.mod_eq_of_lt h

private theorem scan_utf8EncodeChar (c : Char) (rest : List UInt8) :
    scan (String.utf8EncodeChar c ++ rest) = some c::scan rest := by
  have hc : Char.ofNat c.val.toNat = c := Char.ofNat_toNat c
  have hvalid : c.val.toNat < 0xD800 ∨ 0xDFFF < c.val.toNat ∧ c.val.toNat < 0x110000 := c.valid
  simp only [String.utf8EncodeChar]
  generalize c.val.toNat = v at hc hvalid ⊢
  have htail : ∀ n, (UInt8.ofNat (n % 64 + 128)).toNat = n % 64 + 128 := fun n => toNat_ofNat_of_lt (by omega)
  have hkeeps : ∀ n, Keeps (0x80,0xBF) (UInt8.ofNat (n % 64 + 128)) := fun n => by
    rw [Keeps,htail]
    simp only [UInt8.reduceToNat]
    omega
  split
  · next hv =>
    have hb : (UInt8.ofNat v).toNat = v := toNat_ofNat_of_lt (by omega)
    have hchar : codePoint (UInt8.ofNat v) [] = c := by
      rw [codePoint,leadBits_eq,hb,if_pos (by omega),List.foldl_nil,hc]
    rw [← hchar]
    exact scan_lead (tails_of_one (by omega)) .nil rest
  · split
    · next hv =>
      have hb : (UInt8.ofNat (v / 64 % 32 + 192)).toNat = v / 64 % 32 + 192 := toNat_ofNat_of_lt (by omega)
      have hchar : codePoint (UInt8.ofNat (v / 64 % 32 + 192)) [UInt8.ofNat (v % 64 + 128)] = c := by
        simp only [codePoint,leadBits_eq,hb,htail,List.foldl_cons,List.foldl_nil]
        rw [if_neg (by omega),if_pos (by omega),← hc]
        congr 1
        omega
      rw [← hchar]
      exact scan_lead (tails_of_two (by omega)) (.cons (hkeeps _) .nil) rest
    · split
      · next hv =>
        have hb : (UInt8.ofNat (v / 4096 % 16 + 224)).toNat = v / 4096 % 16 + 224 := toNat_ofNat_of_lt (by omega)
        have hchar : codePoint (UInt8.ofNat (v / 4096 % 16 + 224))
            [UInt8.ofNat (v / 64 % 64 + 128),UInt8.ofNat (v % 64 + 128)] = c := by
          simp only [codePoint,leadBits_eq,hb,htail,List.foldl_cons,List.foldl_nil]
          rw [if_neg (by omega),if_neg (by omega),if_pos (by omega),← hc]
          congr 1
          omega
        rw [← hchar]
        refine scan_lead (tails_of_three (by omega)) (.cons ?_ (.cons (hkeeps _) .nil)) rest
        rw [Keeps,htail,hb]
        constructor <;> dsimp only <;> split <;> simp only [UInt8.reduceToNat] <;> omega
      · have hb : (UInt8.ofNat (v / 262144 % 8 + 240)).toNat = v / 262144 % 8 + 240 := toNat_ofNat_of_lt (by omega)
        have hchar : codePoint (UInt8.ofNat (v / 262144 % 8 + 240))
            [UInt8.ofNat (v / 4096 % 64 + 128),UInt8.ofNat (v / 64 % 64 + 128),UInt8.ofNat (v % 64 + 128)] = c := by
          simp only [codePoint,leadBits_eq,hb,htail,List.foldl_cons,List.foldl_nil]
          rw [if_neg (by omega),if_neg (by omega),if_neg (by omega),← hc]
          congr 1
          omega
        rw [← hchar]
        refine scan_lead (tails_of_four (by omega)) (.cons ?_ (.cons (hkeeps _) (.cons (hkeeps _) .nil))) rest
        rw [Keeps,htail,hb]
        constructor <;> dsimp only <;> split <;> simp only [UInt8.reduceToNat] <;> omega

/-! ### Texts -/

private theorem scan_encode (cs : List Char) : scan (cs.flatMap String.utf8EncodeChar) = cs.map some := by
  induction cs with
  | nil => rw [List.flatMap_nil,scan,List.map_nil]
  | cons c cs ih => rw [List.flatMap_cons,scan_utf8EncodeChar,ih,List.map_cons]

/-- The octets of a text are read as that text. -/
theorem decode?_encode (s : String) : decode? (encode s) = some s := by
  have hall : ∀ cs : List Char, (cs.map some).mapM id = some cs := by
    intro cs
    induction cs with
    | nil => rfl
    | cons c cs ih => rw [List.map_cons,List.mapM_cons,ih]; rfl
  rw [decode?,encode,scan_encode,hall,Option.map_some,String.ofList_toList]

theorem decodeLossy_encode (s : String) : decodeLossy (encode s) = s := by
  rw [decodeLossy,encode,scan_encode,List.map_map]
  exact (congrArg String.ofList (List.map_id _)).trans String.ofList_toList

end FieldReplica.Text.Utf8
