import FieldReplica.Proofs.Escapes
import FieldReplica.Url.Address
import FieldReplica.Url.Endpoint

/-!
# Queries of pairs

A server takes a query apart at its ampersands, and each part at its first equals sign; then plus signs are blanks and
percent signs stand for octets. The pairs that are put at the end of a query are the last ones that are found in it.
-/
namespace FieldReplica.Url

/-- A name or a value as a server reads it: octets that are no text are replaced. -/
def readPairPart (cs : List Char) : String :=
  Text.Utf8.decodeLossy (decodeOctets (cs.map fun c => if c = '+' then ' ' else c))

def readPair (cs : List Char) : String × String :=
  (readPairPart (cs.takeWhile (· ≠ '=')),readPairPart (cs.dropWhile (· ≠ '=')).tail)

/-- The pairs that a server finds in a query; parts without a character are none. -/
def readPairs (cs : List Char) : List (String × String) :=
  ((splitOn '&' cs).filter (· ≠ [])).map readPair

def pairs (u : Url) : List (String × String) := readPairs (u.query.getD [])

theorem splitOn_ne_nil (sep : Char) (cs : List Char) : splitOn sep cs ≠ [] := by
  cases cs with
  | nil => exact List.cons_ne_nil _ _
  | cons c cs =>
    rw [splitOn]
    split
    · exact List.cons_ne_nil _ _
    · split <;> exact List.cons_ne_nil _ _

private theorem splitOn_of_not_mem {sep : Char} {cs : List Char} (h : sep ∉ cs) : splitOn sep cs = [cs] := by
  induction cs with
  | nil => rfl
  | cons c cs ih =>
    rw [List.mem_cons,not_or] at h
    rw [splitOn,if_neg (Ne.symm h.1),ih h.2]

private theorem splitOn_append (sep : Char) (as bs : List Char) :
    splitOn sep (as ++ sep::bs) = splitOn sep as ++ splitOn sep bs := by
  induction as with
  | nil => exact if_pos rfl
  | cons a as ih =>
    rw [List.cons_append,splitOn,splitOn,ih]
    split
    · rfl
    · obtain ⟨part,rest,h⟩ := List.exists_cons_of_ne_nil (splitOn_ne_nil sep as)
      rw [h]
      rfl

private theorem readPairs_append (as bs : List Char) : readPairs (as ++ '&'::bs) = readPairs as ++ readPairs bs := by
  rw [readPairs,splitOn_append,List.filter_append,List.map_append]
  rfl

/-! ### What is written -/

private theorem isPairChar_of_digit {c : Char} (h : c ∈ "0123456789ABCDEF".toList) : isPairChar c = true :=
  have hall : "0123456789ABCDEF".toList.all isPairChar = true := by decide
  List.all_eq_true.mp hall c h

/-- What stands in an encoded name or value. -/
theorem mem_encodePairPart {cs : List Char} {c : Char} (h : c ∈ encodePairPart cs) :
    isPairChar c = true ∨ c = '+' ∨ c = '%' := by
  obtain ⟨d,-,hc⟩ := List.mem_flatMap.mp h
  rw [encodePairChar] at hc
  split at hc
  · next hd =>
    obtain rfl := List.mem_singleton.mp hc
    exact .inl hd
  · split at hc
    · exact .inr (.inl (List.mem_singleton.mp hc))
    · obtain ⟨b,-,hb⟩ := List.mem_flatMap.mp hc
      rcases mem_encodeOctet hb with hc | hc
      · exact .inr (.inr hc)
      · exact .inl (isPairChar_of_digit hc)

/-- None of the characters that separate stands in an encoded name or value. -/
theorem not_mem_encodePairPart {c : Char} (hchar : isPairChar c = false) (hplus : c ≠ '+') (hpercent : c ≠ '%')
    (cs : List Char) : c ∉ encodePairPart cs := by
  intro h
  rcases mem_encodePairPart h with hc | hc | hc
  · rw [hchar] at hc
    cases hc
  · exact hplus hc
  · exact hpercent hc

/-- A name or a value is read as what it was. -/
theorem readPairPart_encodePairPart (s : String) : readPairPart (encodePairPart s.toList) = s := by
  have hoctets : ∀ cs rest : List Char, decodeOctets ((encodePairPart cs).map (fun c => if c = '+' then ' ' else c) ++
      rest) = cs.flatMap String.utf8EncodeChar ++ decodeOctets rest := by
    intro cs rest
    induction cs with
    | nil => rfl
    | cons c cs ih =>
      rw [encodePairPart,List.flatMap_cons,List.map_append,List.append_assoc,← encodePairPart,List.flatMap_cons,
        List.append_assoc,← ih,encodePairChar]
      split
      · next hc =>
        have hplus : c ≠ '+' := by rintro rfl; cases hc
        rw [List.map_singleton,if_neg hplus]
        refine decodeOctets_cons_of_ne ?_ _
        rintro rfl
        cases hc
      · split
        · next hc =>
          subst hc
          exact decodeOctets_cons_of_ne (by decide) _
        · have hplain : ∀ bs : List UInt8,
              (bs.flatMap encodeOctet).map (fun c => if c = '+' then ' ' else c) = bs.flatMap encodeOctet := by
            intro bs
            refine List.map_congr_left (g := id) (fun c hc => ?_) |>.trans (List.map_id _)
            obtain ⟨b,-,hb⟩ := List.mem_flatMap.mp hc
            refine if_neg ?_
            rintro rfl
            rcases mem_encodeOctet hb with hc | hc
            · cases hc
            · revert hc
              decide
          rw [hplain]
          exact decodeOctets_flatMap_encodeOctet _ _
  have hall := hoctets s.toList []
  rw [List.append_nil,decodeOctets,List.append_nil] at hall
  rw [readPairPart,hall]
  exact Text.Utf8.decodeLossy_encode s

private theorem encodePair_ne_nil (p : String × String) : encodePair p ≠ [] := by
  rw [encodePair]
  simp

private theorem readPair_encodePair (p : String × String) : readPair (encodePair p) = p := by
  have hname : '=' ∉ encodePairPart p.1.toList := not_mem_encodePairPart rfl (by decide) (by decide) _
  have hstop : ∀ c ∈ encodePairPart p.1.toList, decide (c ≠ '=') = true := by
    intro c hc
    exact decide_eq_true fun he => hname (he ▸ hc)
  rw [readPair,encodePair,List.takeWhile_append_of_pos hstop,List.dropWhile_append_of_pos hstop]
  simp [readPairPart_encodePairPart]

private theorem ampersand_not_mem_encodePair (p : String × String) : '&' ∉ encodePair p := by
  rw [encodePair,List.mem_append,List.mem_cons]
  rintro (h | h | h)
  · exact not_mem_encodePairPart rfl (by decide) (by decide) _ h
  · cases h
  · exact not_mem_encodePairPart rfl (by decide) (by decide) _ h

private theorem readPairs_encodePair (p : String × String) : readPairs (encodePair p) = [p] := by
  have hkept : [encodePair p].filter (· ≠ []) = [encodePair p] :=
    List.filter_cons_of_pos (decide_eq_true (encodePair_ne_nil p))
  rw [readPairs,splitOn_of_not_mem (ampersand_not_mem_encodePair p),hkept,List.map_singleton,readPair_encodePair]

/-- Pairs are read as what they were. -/
theorem readPairs_encodePairs : ∀ ps : List (String × String), readPairs (encodePairs ps) = ps
  | [] => rfl
  | [p] => readPairs_encodePair p
  | p::q::ps => by
    rw [encodePairs,readPairs_append,readPairs_encodePair,readPairs_encodePairs (q::ps)]
    · rfl
    · exact List.cons_ne_nil _ _

/-- The pairs that are put at the end of a query come after those that it had. -/
theorem pairs_withPairs (u : Url) (ps : List (String × String)) : (u.withPairs ps).pairs = u.pairs ++ ps := by
  have hquery : (u.withPairs ps).query.getD [] = if u.query.getD [] = [] then encodePairs ps
      else if ps = [] then u.query.getD [] else u.query.getD [] ++ '&'::encodePairs ps := by
    rw [withPairs]
    have hsome : ∀ cs : List Char, (if cs = [] then none else some cs).getD [] = cs := by
      intro cs
      split
      · next h => exact h.symm
      · rfl
    exact hsome _
  rw [pairs,hquery,pairs]
  split
  · next h =>
    rw [h,readPairs_encodePairs]
    rfl
  · split
    · next h => rw [h,List.append_nil]
    · rw [readPairs_append,readPairs_encodePairs]

end FieldReplica.Url
