import FieldReplica.Json.Printer
import FieldReplica.Proofs.Codec

/-!
# Values written and read as texts

The compact text of a value is read as that value, if its numbers are whole ones of 64 bits and it is nested no
deeper than texts are read. A double is left out here: its shortest decimal is another matter.
-/
namespace FieldReplica

namespace Text.Decimal

/-- Only the numeral of zero begins with a zero. -/
theorem eq_zero_of_head {n : Nat} {ds : List Char} (h : Nat.toDigits 10 n = '0'::ds) : n = 0 := by
  induction n using Nat.strongRecOn generalizing ds with
  | ind n ih =>
    rcases Nat.lt_or_ge n 10 with hn | hn
    · rw [Nat.toDigits_of_lt_base hn] at h
      exact Nat.digitChar_eq_zero.mp (List.cons.inj h).1
    · rw [Nat.toDigits_of_base_le (by decide) hn] at h
      obtain ⟨c,cs,hc⟩ := List.exists_cons_of_ne_nil (Nat.toDigits_ne_nil (n := n / 10) (b := 10))
      rw [hc,List.cons_append] at h
      obtain ⟨rfl,-⟩ := List.cons.inj h
      have := ih (n / 10) (by omega) hc
      omega

end Text.Decimal

namespace Json

/-! ### Texts -/

private theorem escapeChar_read (c : Char) : ∃ u : TextUnit,
    (∀ n cs us rest, textUnits? n cs = some (us,rest) → textUnits? (n+1) (escapeChar c ++ cs) = some (u::us,rest)) ∧
    ∀ us, joinUnits? (u::us) = (joinUnits? us).map (c::·) := by
  have hshort : ∀ e, escapeChar c = ['\\',e] → e ≠ 'u' → shortEscape? e = some c → ∃ u : TextUnit,
      (∀ n cs us rest, textUnits? n cs = some (us,rest) → textUnits? (n+1) (escapeChar c ++ cs) = some (u::us,rest)) ∧
      ∀ us, joinUnits? (u::us) = (joinUnits? us).map (c::·) := by
    intro e he hu hshort
    refine ⟨.char c,fun n cs us rest h => ?_,fun _ => rfl⟩
    rw [he,List.cons_append,List.cons_append,List.nil_append,textUnits?,if_neg (by decide),if_pos rfl,hshort]
    · simp [h]
    · exact hu
  by_cases hquote : c = '"' ∨ c = '\\'
  · refine hshort c (by rw [escapeChar,if_pos hquote]) ?_ ?_ <;> rcases hquote with rfl | rfl <;> decide
  by_cases hn : c = '\n'
  · subst hn
    exact hshort 'n' rfl (by decide) rfl
  by_cases hr : c = '\r'
  · subst hr
    exact hshort 'r' rfl (by decide) rfl
  by_cases ht : c = '\t'
  · subst ht
    exact hshort 't' rfl (by decide) rfl
  by_cases h8 : c.toNat = 8
  · obtain rfl : c = Char.ofNat 8 := by rw [← h8,Char.ofNat_toNat]
    exact hshort 'b' rfl (by decide) rfl
  by_cases h12 : c.toNat = 12
  · obtain rfl : c = Char.ofNat 12 := by rw [← h12,Char.ofNat_toNat]
    exact hshort 'f' rfl (by decide) rfl
  have hescape : escapeChar c = if c.toNat < 32 then
      ['\\','u','0','0',hexDigit (c.toNat / 16),hexDigit c.toNat] else [c] := by
    rw [escapeChar,if_neg hquote,if_neg hn,if_neg hr,if_neg ht,if_neg h8,if_neg h12]
  by_cases hcontrol : c.toNat < 32
  · have hunit : ∀ m < 32, ∀ cs, codeUnit? ('0' :: '0' :: hexDigit (m / 16) :: hexDigit m :: cs) = some (m,cs) := by
      intro m hm cs
      have hvalue : ∀ m < 32, hexValue? (hexDigit (m / 16)) = some (m / 16) ∧ hexValue? (hexDigit m) = some (m % 16) := by
        decide
      have hzero : hexValue? '0' = some 0 := rfl
      simp only [codeUnit?,hzero,(hvalue m hm).1,(hvalue m hm).2]
      simp only [Option.bind_eq_bind,Option.bind_some,Option.pure_def]
      congr 2
      omega
    refine ⟨.unit c.toNat,fun n cs us rest h => ?_,fun us => ?_⟩
    · rw [hescape,if_pos hcontrol]
      simp [textUnits?,hunit _ hcontrol,h]
    · rw [joinUnits?.eq_def (.unit c.toNat::us)]
      dsimp only
      rw [if_pos (.inl (by omega)),Char.ofNat_toNat]
  · refine ⟨.char c,fun n cs us rest h => ?_,fun us => rfl⟩
    rw [not_or] at hquote
    rw [hescape,if_neg hcontrol,List.cons_append,List.nil_append]
    simp [textUnits?,hquote,Nat.not_lt.mp hcontrol,h]

private theorem escapeChar_ne_nil (c : Char) : escapeChar c ≠ [] := by
  unfold escapeChar
  repeat' split
  all_goals exact List.cons_ne_nil _ _

private theorem length_le_flatMap_escapeChar (cs : List Char) : cs.length ≤ (cs.flatMap escapeChar).length := by
  induction cs with
  | nil => exact Nat.le_refl 0
  | cons c cs ih =>
    have := List.length_pos_of_ne_nil (escapeChar_ne_nil c)
    rw [List.flatMap_cons,List.length_append,List.length_cons]
    omega

private theorem text?_escaped (s : String) (rest : List Char) :
    text? (s.toList.flatMap escapeChar ++ '"'::rest) = some (some s,rest) := by
  have hunits : ∀ (cs : List Char) (n : Nat), cs.length < n → ∃ us,
      textUnits? n (cs.flatMap escapeChar ++ '"'::rest) = some (us,rest) ∧ joinUnits? us = some cs := by
    intro cs
    induction cs with
    | nil =>
      intro n hn
      obtain ⟨n,rfl⟩ := Nat.exists_eq_add_of_lt hn
      exact ⟨[],rfl,rfl⟩
    | cons c cs ih =>
      intro n hn
      obtain ⟨n,rfl⟩ : ∃ m, n = m + 1 := ⟨n - 1,by omega⟩
      obtain ⟨us,hus,hjoin⟩ := ih n (by simpa using hn)
      obtain ⟨u,hread,hu⟩ := escapeChar_read c
      refine ⟨u::us,?_,by rw [hu,hjoin]; rfl⟩
      rw [List.flatMap_cons,List.append_assoc]
      exact hread _ _ _ _ hus
  have hlength := length_le_flatMap_escapeChar s.toList
  obtain ⟨us,hus,hjoin⟩ := hunits s.toList ((s.toList.flatMap escapeChar ++ '"'::rest).length + 1)
    (by rw [List.length_append]; omega)
  rw [text?,hus]
  simp [hjoin]

/-! ### Numbers -/

/-- What may follow a value: nothing, or one of the signs that stand after an item. -/
def Ends (rest : List Char) : Prop := ∀ c ∈ rest.head?, c = ',' ∨ c = ']' ∨ c = '\x7d'

private theorem digitRun?_append {ds rest : List Char} (hne : ds ≠ []) (hd : ∀ c ∈ ds, c.isDigit = true)
    (hrest : ∀ c ∈ rest.head?, c.isDigit = false) : digitRun? (ds ++ rest) = some (ds,rest) := by
  have htake : rest.takeWhile Char.isDigit = [] := by
    cases rest with
    | nil => rfl
    | cons c rest => exact List.takeWhile_cons_of_neg (by rw [hrest c rfl]; decide)
  have hdrop : rest.dropWhile Char.isDigit = rest := by
    cases rest with
    | nil => rfl
    | cons c rest => exact List.dropWhile_cons_of_neg (by rw [hrest c rfl]; decide)
  rw [digitRun?,List.takeWhile_append_of_pos hd,List.dropWhile_append_of_pos hd,htake,hdrop,List.append_nil]
  cases ds with
  | nil => exact absurd rfl hne
  | cons d ds => rfl

private theorem wholePart?_toDigits {n : Nat} {rest : List Char} (hrest : ∀ c ∈ rest.head?, c.isDigit = false) :
    wholePart? (Nat.toDigits 10 n ++ rest) = some (Nat.toDigits 10 n,rest) := by
  rw [wholePart?,digitRun?_append Nat.toDigits_ne_nil
    (fun c hc => Nat.isDigit_of_mem_toDigits (by decide) (by decide) hc) hrest]
  split
  · next heq =>
    -- A longer run that begins with zero would be the numeral of zero, which has one digit.
    obtain ⟨hds,-⟩ := Prod.mk.inj (Option.some.inj heq)
    obtain rfl := Text.Decimal.eq_zero_of_head hds
    cases hds
  · rfl

/-- The text of a whole number: its digits, after a minus sign if it is below zero. -/
theorem toList_toString (n : Int) :
    (toString n).toList = if n < 0 then '-'::Nat.toDigits 10 n.natAbs else Nat.toDigits 10 n.natAbs := by
  cases n with
  | ofNat m =>
    rw [if_neg (by simp)]
    exact Nat.toList_repr
  | negSucc m =>
    rw [if_pos (Int.negSucc_lt_zero m)]
    change ("-" ++ (m + 1).repr).toList = _
    rw [String.toList_append,Nat.toList_repr]
    rfl

private theorem exists_toString_eq (n : Int) : ∃ c cs, (toString n).toList = c::cs ∧ (c = '-' ∨ c.isDigit = true) := by
  rw [toList_toString]
  split
  · exact ⟨_,_,rfl,.inl rfl⟩
  · obtain ⟨c,cs,hcs⟩ := List.exists_cons_of_ne_nil (Nat.toDigits_ne_nil (n := n.natAbs) (b := 10))
    exact ⟨c,cs,hcs,.inr (Nat.isDigit_of_mem_toDigits (b := 10) (by decide) (by decide) (hcs ▸ List.mem_cons_self))⟩

private theorem numeral?_toString (n : Int) {rest : List Char} (hrest : Ends rest) :
    numeral? ((toString n).toList ++ rest) = some (⟨decide (n < 0),Nat.toDigits 10 n.natAbs,[],none⟩,rest) := by
  have hdigit : ∀ c ∈ rest.head?, c.isDigit = false := by
    intro c hc
    rcases hrest c hc with rfl | rfl | rfl <;> rfl
  have hfraction : fractionPart? rest = some ([],rest) := by
    cases rest with
    | nil => rfl
    | cons c rest => rcases hrest c rfl with rfl | rfl | rfl <;> rfl
  have hexponent : exponentPart? rest = some (none,rest) := by
    cases rest with
    | nil => rfl
    | cons c rest => rcases hrest c rfl with rfl | rfl | rfl <;> rfl
  rw [toList_toString]
  split
  · next hn =>
    rw [List.cons_append,numeral?]
    simp [wholePart?_toDigits hdigit,hfraction,hexponent,hn]
  · next hn =>
    obtain ⟨d,ds,hds⟩ := List.exists_cons_of_ne_nil (Nat.toDigits_ne_nil (n := n.natAbs) (b := 10))
    have hd : d ≠ '-' := by
      rintro rfl
      exact absurd (Nat.isDigit_of_mem_toDigits (b := 10) (n := n.natAbs) (by decide) (by decide)
        (hds ▸ List.mem_cons_self)) (by decide)
    have hwhole := wholePart?_toDigits (n := n.natAbs) hdigit
    rw [hds,List.cons_append] at hwhole ⊢
    simp [numeral?,hd,hwhole,hfraction,hexponent,hn]

/-! ### Values -/

mutual

/-- All numbers of the value are whole ones of 64 bits, and it is nested at most so deep. -/
def Plain : Json → Nat → Prop
  | .number (.int n), _ => -9223372036854775808 ≤ n ∧ n ≤ 18446744073709551615
  | .number (.float _), _ => False
  | .array items, depth => 0 < depth ∧ PlainItems items (depth - 1)
  | .object members, depth => 0 < depth ∧ PlainMembers members (depth - 1)
  | _, _ => True

def PlainItems : List Json → Nat → Prop
  | [], _ => True
  | v::vs, depth => Plain v depth ∧ PlainItems vs depth

def PlainMembers : List (String × Json) → Nat → Prop
  | [], _ => True
  | (_,v)::ms, depth => Plain v depth ∧ PlainMembers ms depth

end

private theorem readValue_of_numeral {c : Char} (hc : c = '-' ∨ c.isDigit = true) (fuel depth : Nat) (cs : List Char) :
    readValue (fuel+1) depth (c::cs) = match numeral? (c::cs) with
      | some (x,rest) => (.number x.toNumber?,some rest)
      | none => (.broken,none) := by
  have hne : ∀ d, d ≠ '-' → d.isDigit = false → c ≠ d := by
    rintro d hd hdigit rfl
    rcases hc with rfl | hc
    · exact hd rfl
    · rw [hdigit] at hc
      cases hc
  have hblank : skipBlank (c::cs) = c::cs := by
    refine List.dropWhile_cons_of_neg ?_
    simp [isBlank,hne]
  rw [readValue,hblank]
  split
  · next heq => exact absurd (List.cons.inj heq).1 (hne _ (by decide) rfl)
  · next heq => exact absurd (List.cons.inj heq).1 (hne _ (by decide) rfl)
  · next heq => exact absurd (List.cons.inj heq).1 (hne _ (by decide) rfl)
  · next heq => exact absurd (List.cons.inj heq).1 (hne _ (by decide) rfl)
  · next heq => exact absurd (List.cons.inj heq).1 (hne _ (by decide) rfl)
  · next heq => exact absurd (List.cons.inj heq).1 (hne _ (by decide) rfl)
  · rfl

private theorem readValue_int {n : Int} (hn : -9223372036854775808 ≤ n ∧ n ≤ 18446744073709551615) (fuel depth : Nat)
    {rest : List Char} (hrest : Ends rest) :
    readValue (fuel+1) depth ((toString n).toList ++ rest) = (.number (some (.int n)),some rest) := by
  have hnumeral := numeral?_toString n hrest
  obtain ⟨c,cs,hcs,hc⟩ := exists_toString_eq n
  rw [hcs,List.cons_append] at hnumeral ⊢
  have hnumber := Numeral.toNumber?_eq_int.mpr ⟨Numeral.spells_toDigits n,hn⟩
  simp only [readValue_of_numeral hc,hnumeral,hnumber]

mutual

/-- A value may stand where deeper ones may. -/
theorem Plain.mono : ∀ {v : Json} {levels more : Nat}, v.Plain levels → levels ≤ more → v.Plain more
  | .null, _, _, _, _ | .bool _, _, _, _, _ | .string _, _, _, _, _ => trivial
  | .number (.int _), _, _, h, _ => h
  | .array _, _, _, ⟨h,hitems⟩, hle => ⟨by omega,hitems.mono (by omega)⟩
  | .object _, _, _, ⟨h,hmembers⟩, hle => ⟨by omega,hmembers.mono (by omega)⟩

theorem PlainItems.mono : ∀ {vs : List Json} {levels more : Nat}, PlainItems vs levels → levels ≤ more →
    PlainItems vs more
  | [], _, _, _, _ => trivial
  | _::_, _, _, ⟨h,hrest⟩, hle => ⟨h.mono hle,hrest.mono hle⟩

theorem PlainMembers.mono : ∀ {ms : List (String × Json)} {levels more : Nat}, PlainMembers ms levels →
    levels ≤ more → PlainMembers ms more
  | [], _, _, _, _ => trivial
  | _::_, _, _, ⟨h,hrest⟩, hle => ⟨h.mono hle,hrest.mono hle⟩

end

private theorem exists_chars_eq {v : Json} {depth : Nat} (hv : v.Plain depth) :
    ∃ c cs, chars v = c::cs ∧ isBlank c = false ∧ c ≠ ']' := by
  cases v with
  | null => exact ⟨_,_,rfl,rfl,by decide⟩
  | bool b => cases b <;> exact ⟨_,_,rfl,rfl,by decide⟩
  | string s => exact ⟨_,_,rfl,rfl,by decide⟩
  | array items => exact ⟨_,_,rfl,rfl,by decide⟩
  | object members => exact ⟨_,_,rfl,rfl,by decide⟩
  | number n =>
    cases n with
    | float _ => exact hv.elim
    | int n =>
      obtain ⟨c,cs,hcs,hc⟩ := exists_toString_eq n
      refine ⟨c,cs,hcs,?_,?_⟩
      · rcases hc with rfl | hc
        · rfl
        · refine Bool.eq_false_iff.mpr fun hblank => ?_
          simp only [isBlank,Bool.or_eq_true,decide_eq_true_eq] at hblank
          rcases hblank with ((rfl | rfl) | rfl) | rfl <;> cases hc
      · rintro rfl
        rcases hc with hc | hc
        · cases hc
        · cases hc

private theorem itemChars_cons (v : Json) (vs : List Json) :
    itemChars (v::vs) = chars v ++ if vs = [] then [] else ','::itemChars vs := by
  cases vs with
  | nil => exact (List.append_nil _).symm
  | cons w vs => rfl

private theorem memberChars_cons (k : String) (v : Json) (ms : List (String × Json)) :
    memberChars ((k,v)::ms) = quoted k ++ ':'::chars v ++ if ms = [] then [] else ','::memberChars ms := by
  cases ms with
  | nil => exact (List.append_nil _).symm
  | cons m ms => rfl

private theorem readItems_cons {fuel depth : Nat} {first : Bool} {cs rest : List Char} {d : Doc}
    (hcs : ∃ c ds, cs = c::ds ∧ isBlank c = false ∧ c ≠ ']') (h : readValue fuel depth cs = (d,some rest)) :
    readItems (fuel+1) depth first cs = match skipBlank rest with
      | ','::rest => (d::(readItems fuel depth false rest).1,(readItems fuel depth false rest).2)
      | ']'::rest => ([d],some rest)
      | _ => ([d],none) := by
  obtain ⟨c,ds,rfl,hblank,hc⟩ := hcs
  have hskip : skipBlank (c::ds) = c::ds := List.dropWhile_cons_of_neg (by simp [hblank])
  rw [readItems,hskip]
  split
  · next heq => exact absurd (List.cons.inj heq).1 hc
  · generalize readValue fuel depth (c::ds) = x at h
    subst h
    rfl

/-- One member of an object is read, and then the others. -/
theorem readMembers_cons {fuel depth : Nat} {first : Bool} {k : String} {cs rest : List Char} {d : Doc}
    (h : readValue fuel depth cs = (d,some rest)) :
    readMembers (fuel+1) depth first (quoted k ++ ':'::cs) = match skipBlank rest with
      | ','::rest => ((some k,d)::(readMembers fuel depth false rest).1,(readMembers fuel depth false rest).2)
      | '\x7d'::rest => ([(some k,d)],some rest)
      | _ => ([(some k,d)],none) := by
  have hquoted : quoted k ++ ':'::cs = '"' :: (k.toList.flatMap escapeChar ++ '"' :: ':' :: cs) := by simp [quoted]
  have hquote : skipBlank ('"' :: (k.toList.flatMap escapeChar ++ '"' :: ':' :: cs)) =
      '"' :: (k.toList.flatMap escapeChar ++ '"' :: ':' :: cs) := rfl
  have hcolon : skipBlank (':'::cs) = ':'::cs := rfl
  rw [hquoted,readMembers]
  simp only [hquote,text?_escaped,hcolon]
  generalize readValue fuel depth cs = x at h
  subst h
  rfl

mutual

/-- A value is read from its text, whatever stands after it. -/
theorem readValue_chars : ∀ (v : Json) {levels depth fuel : Nat} {rest : List Char}, v.Plain levels →
    depth + levels ≤ maxDepth → Ends rest → 2 * (chars v).length ≤ fuel + 1 →
    readValue (fuel+1) depth (chars v ++ rest) = (.ofJson v,some rest)
  | .null, _, _, _, _, _, _, _, _ | .bool true, _, _, _, _, _, _, _, _ | .bool false, _, _, _, _, _, _, _, _ => rfl
  | .string s, _, depth, fuel, rest, _, _, _, _ => by
    have hquoted : chars (.string s) ++ rest = '"'::(s.toList.flatMap escapeChar ++ '"'::rest) := by
      simp [chars,quoted]
    have hquote : skipBlank ('"'::(s.toList.flatMap escapeChar ++ '"'::rest)) =
        '"'::(s.toList.flatMap escapeChar ++ '"'::rest) := rfl
    rw [hquoted,readValue]
    simp only [hquote,text?_escaped,Doc.ofJson]
  | .number (.float _), _, _, _, _, h, _, _, _ => h.elim
  | .number (.int n), _, depth, fuel, _, hn, _, hrest, _ => readValue_int hn fuel depth hrest
  | .array items, levels, depth, fuel, rest, hv, hdepth, _, h => by
    obtain ⟨hlevels,hitems⟩ := hv
    have hlength : (chars (.array items)).length = (itemChars items).length + 2 := by simp [chars]
    obtain ⟨fuel,rfl⟩ : ∃ n, fuel = n + 1 := ⟨fuel - 1,by omega⟩
    have hread : readItems (fuel+1) (depth + 1) true (itemChars items ++ ']'::rest) = (Doc.ofItems items,some rest) :=
      readItems_itemChars items hitems (by omega) (fun _ => rfl) (by omega)
    have hbracket : ∀ cs, skipBlank ('['::cs) = '['::cs := fun _ => rfl
    have hchars : chars (.array items) ++ rest = '['::(itemChars items ++ ']'::rest) := by simp [chars]
    rw [hchars,readValue]
    simp only [hbracket,hread,Doc.ofJson,decide_eq_false (show ¬maxDepth < depth + 1 by omega),Option.isSome_some]
  | .object members, levels, depth, fuel, rest, hv, hdepth, _, h => by
    obtain ⟨hlevels,hmembers⟩ := hv
    have hlength : (chars (.object members)).length = (memberChars members).length + 2 := by simp [chars]
    obtain ⟨fuel,rfl⟩ : ∃ n, fuel = n + 1 := ⟨fuel - 1,by omega⟩
    have hread : readMembers (fuel+1) (depth + 1) true (memberChars members ++ '\x7d'::rest) =
        (Doc.ofMembers members,some rest) := readMembers_memberChars members hmembers (by omega) (fun _ => rfl) (by omega)
    have hbrace : ∀ cs, skipBlank ('\x7b'::cs) = '\x7b'::cs := fun _ => rfl
    have hchars : chars (.object members) ++ rest = '\x7b'::(memberChars members ++ '\x7d'::rest) := by
      simp [chars]
    rw [hchars,readValue]
    simp only [hbrace,hread,Doc.ofJson,decide_eq_false (show ¬maxDepth < depth + 1 by omega),Option.isSome_some]

/-- The items of a list are read up to its end. -/
theorem readItems_itemChars : ∀ (vs : List Json) {levels depth fuel : Nat} {first : Bool} {rest : List Char},
    PlainItems vs levels → depth + levels ≤ maxDepth → (vs = [] → first = true) →
    2 * (itemChars vs).length ≤ fuel →
    readItems (fuel+1) depth first (itemChars vs ++ ']'::rest) = (Doc.ofItems vs,some rest)
  | [], _, depth, fuel, first, rest, _, _, hfirst, _ => by
    obtain rfl := hfirst rfl
    rfl
  | v::vs, levels, depth, fuel, first, rest, hv, hdepth, _, h => by
    obtain ⟨hv,hvs⟩ := hv
    obtain ⟨c,cs,hcs,hblank,hc⟩ := exists_chars_eq hv
    have hlength : (itemChars (v::vs)).length = (chars v).length +
        (if vs = [] then [] else ','::itemChars vs).length := by rw [itemChars_cons,List.length_append]
    have hpos : 0 < (chars v).length := by rw [hcs]; exact Nat.succ_pos _
    obtain ⟨fuel,rfl⟩ : ∃ n, fuel = n + 1 := ⟨fuel - 1,by omega⟩
    have hread : ∀ {rest}, Ends rest → readValue (fuel+1) depth (chars v ++ rest) = (.ofJson v,some rest) :=
      fun hrest => readValue_chars v hv hdepth hrest (by omega)
    have hstart : ∀ rest, ∃ c ds, chars v ++ rest = c::ds ∧ isBlank c = false ∧ c ≠ ']' :=
      fun rest => ⟨c,cs ++ rest,by rw [hcs]; rfl,hblank,hc⟩
    rw [itemChars_cons,List.append_assoc]
    by_cases hnil : vs = []
    · subst hnil
      rw [if_pos rfl,List.nil_append,readItems_cons (hstart _) (hread (by simp [Ends]))]
      rfl
    · rw [if_neg hnil,List.length_cons] at hlength
      have hitems : readItems (fuel+1) depth false (itemChars vs ++ ']'::rest) = (Doc.ofItems vs,some rest) :=
        readItems_itemChars vs hvs hdepth (fun h => absurd h hnil) (by omega)
      rw [if_neg hnil,List.cons_append,readItems_cons (hstart _) (hread (by simp [Ends]))]
      have hcomma : ∀ cs, skipBlank (','::cs) = ','::cs := fun _ => rfl
      simp only [hcomma,hitems,Doc.ofItems]

private theorem readMembers_memberChars : ∀ (ms : List (String × Json)) {levels depth fuel : Nat} {first : Bool}
    {rest : List Char}, PlainMembers ms levels → depth + levels ≤ maxDepth → (ms = [] → first = true) →
    2 * (memberChars ms).length ≤ fuel →
    readMembers (fuel+1) depth first (memberChars ms ++ '\x7d'::rest) = (Doc.ofMembers ms,some rest)
  | [], _, depth, fuel, first, rest, _, _, hfirst, _ => by
    obtain rfl := hfirst rfl
    rfl
  | (k,v)::ms, levels, depth, fuel, first, rest, hv, hdepth, _, h => by
    obtain ⟨hv,hms⟩ := hv
    have hlength : (memberChars ((k,v)::ms)).length = (quoted k).length + (1 + (chars v).length +
        (if ms = [] then [] else ','::memberChars ms).length) := by
      rw [memberChars_cons]
      simp only [List.length_append,List.length_cons]
      omega
    have hquoted : 2 ≤ (quoted k).length := by simp [quoted]
    obtain ⟨fuel,rfl⟩ : ∃ n, fuel = n + 1 := ⟨fuel - 1,by omega⟩
    have hread : ∀ {rest}, Ends rest → readValue (fuel+1) depth (chars v ++ rest) = (.ofJson v,some rest) :=
      fun hrest => readValue_chars v hv hdepth hrest (by omega)
    rw [memberChars_cons]
    by_cases hnil : ms = []
    · subst hnil
      rw [if_pos rfl,List.append_nil,List.append_assoc,List.cons_append,readMembers_cons (hread (by simp [Ends]))]
      rfl
    · rw [if_neg hnil,List.length_cons] at hlength
      have hmembers : readMembers (fuel+1) depth false (memberChars ms ++ '\x7d'::rest) = (Doc.ofMembers ms,some rest) :=
        readMembers_memberChars ms hms hdepth (fun h => absurd h hnil) (by omega)
      rw [if_neg hnil,List.append_assoc,List.append_assoc,List.cons_append,List.cons_append,
        readMembers_cons (hread (by simp [Ends]))]
      have hcomma : ∀ cs, skipBlank (','::cs) = ','::cs := fun _ => rfl
      simp only [hcomma,hmembers,Doc.ofMembers]

end

/-- The text of a value is read as that value and nothing more. -/
theorem read_render {v : Json} (h : v.Plain maxDepth) : read v.render = (.ofJson v,true) := by
  have hread : readValue (2 * (chars v).length + 2) 0 (chars v ++ []) = (.ofJson v,some []) :=
    readValue_chars v h (by omega) (by simp [Ends]) (by omega)
  rw [List.append_nil] at hread
  rw [read,render,String.toList_ofList]
  simp [hread,skipBlank]

end Json

theorem Decoder.ofText_render {α : Type} {read : Decoder α} {v : Json} {a : α} (hv : v.Plain Json.maxDepth)
    (h : read .text (.ofJson v) = .ok a) : read.ofText v.render = .ok a := by
  rw [Decoder.ofText,Json.read_render hv]
  simp [h,Decoder.guard]
  rfl

end FieldReplica
