import FieldReplica.Proofs.Octets
import FieldReplica.Url.Encoding

/-!
# What is encoded is decoded

A text that is a part of a URL is read back octet by octet, as long as a percent sign is encoded as well. None of the
characters that are encoded stands in it, save for the percent signs and digits that stand for them.
-/
namespace FieldReplica.Url

private theorem hexValue?_hexDigit : ∀ n < 16, hexValue? (hexDigit n) = some n := by decide

private theorem octet?_hexDigit (b : UInt8) : octet? (hexDigit (b.toNat / 16)) (hexDigit (b.toNat % 16)) = some b := by
  have hb := b.toNat_lt
  have hsum : b.toNat / 16 * 16 + b.toNat % 16 = b.toNat := by omega
  rw [octet?,hexValue?_hexDigit _ (by omega),hexValue?_hexDigit _ (by omega)]
  change some (UInt8.ofNat (b.toNat / 16 * 16 + b.toNat % 16)) = some b
  rw [hsum,UInt8.ofNat_toNat]

private theorem decodeOctets_encodeOctet (b : UInt8) (rest : List Char) :
    decodeOctets (encodeOctet b ++ rest) = b::decodeOctets rest := by
  simp only [encodeOctet,List.cons_append,List.nil_append,decodeOctets,octet?_hexDigit]

theorem decodeOctets_flatMap_encodeOctet (bs : List UInt8) (rest : List Char) :
    decodeOctets (bs.flatMap encodeOctet ++ rest) = bs ++ decodeOctets rest := by
  induction bs with
  | nil => rfl
  | cons b bs ih => rw [List.flatMap_cons,List.append_assoc,decodeOctets_encodeOctet,ih,List.cons_append]

theorem decodeOctets_cons_of_ne {c : Char} (hc : c ≠ '%') (rest : List Char) :
    decodeOctets (c::rest) = String.utf8EncodeChar c ++ decodeOctets rest := by
  rw [decodeOctets]
  exact fun _ _ _ h _ => hc h

private theorem decodeOctets_encode {s : EncodeSet} (hs : s.has '%' = true) (cs rest : List Char) :
    decodeOctets (encode s cs ++ rest) = cs.flatMap String.utf8EncodeChar ++ decodeOctets rest := by
  induction cs with
  | nil => rfl
  | cons c cs ih =>
    rw [encode,List.flatMap_cons,List.append_assoc,List.flatMap_cons,List.append_assoc,← ih,encodeChar]
    split
    · exact decodeOctets_flatMap_encodeOctet _ _
    · next hc =>
      refine decodeOctets_cons_of_ne ?_ _
      rintro rfl
      exact hc hs

/-- The text that a part of a URL stands for. -/
theorem decode?_encode {s : EncodeSet} (hs : s.has '%' = true) (cs : List Char) :
    Text.Utf8.decode? (decodeOctets (encode s cs)) = some (String.ofList cs) := by
  have hoctets := decodeOctets_encode hs cs []
  rw [List.append_nil,decodeOctets,List.append_nil] at hoctets
  rw [hoctets,← Text.Utf8.decode?_encode,Text.Utf8.encode,String.toList_ofList]

theorem encode_injective {s : EncodeSet} (hs : s.has '%' = true) {as bs : List Char} (h : encode s as = encode s bs) :
    as = bs := by
  have has := decode?_encode hs as
  rw [h,decode?_encode hs bs] at has
  exact (String.ofList_injective (Option.some.inj has)).symm

private theorem hexDigit_mem : ∀ n < 16, hexDigit n ∈ "0123456789ABCDEF".toList := by decide

theorem mem_encodeOctet {b : UInt8} {c : Char} (h : c ∈ encodeOctet b) :
    c = '%' ∨ c ∈ "0123456789ABCDEF".toList := by
  have hb := b.toNat_lt
  simp only [encodeOctet,List.mem_cons,List.not_mem_nil,or_false] at h
  rcases h with rfl | rfl | rfl
  · exact .inl rfl
  · exact .inr (hexDigit_mem _ (by omega))
  · exact .inr (hexDigit_mem _ (by omega))

private theorem mem_encode {s : EncodeSet} {cs : List Char} {c : Char} (h : c ∈ encode s cs) :
    s.has c = false ∧ c ∈ cs ∨ c = '%' ∨ c ∈ "0123456789ABCDEF".toList := by
  obtain ⟨d,hd,hc⟩ := List.mem_flatMap.mp h
  rw [encodeChar] at hc
  split at hc
  · obtain ⟨b,-,hb⟩ := List.mem_flatMap.mp hc
    exact .inr (mem_encodeOctet hb)
  · next hset =>
    obtain rfl := List.mem_singleton.mp hc
    exact .inl ⟨Bool.eq_false_iff.mpr hset,hd⟩

/-- A character that is encoded does not stand in an encoded text, unless it stands for others. -/
theorem not_mem_encode {s : EncodeSet} {c : Char} (hs : s.has c = true) (hpercent : c ≠ '%')
    (hdigit : c ∉ "0123456789ABCDEF".toList) (cs : List Char) : c ∉ encode s cs := by
  intro h
  rcases mem_encode h with ⟨hc,-⟩ | hc | hc
  · exact absurd hs (by rw [hc]; decide)
  · exact hpercent hc
  · exact hdigit hc

end FieldReplica.Url
