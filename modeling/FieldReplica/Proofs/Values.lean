import Mathlib.Data.List.Pairwise
import Mathlib.Order.Compare
import FieldReplica.Json.Document

/-!
# Values as they are stored

A value at hand spells its canonical form: what a text says that is written from it, with the members of every object
in the order of their keys. A value that is in that form is left as it is, so that nothing changes a value once it
has been read.
-/
namespace FieldReplica

/-! ### Values at hand -/

namespace Doc

mutual

/-- A value that is at hand spells itself, in canonical order. -/
theorem toJson?_ofJson : ∀ v : Json, (ofJson v).toJson? = some v.canonical
  | .null | .bool _ | .number _ | .string _ => rfl
  | .array items => by rw [ofJson,toJson?,toItems?_ofItems items,Option.map_some,Json.canonical]
  | .object members => by rw [ofJson,toJson?,toMembers?_ofMembers members,Option.map_some,Json.canonical]

private theorem toItems?_ofItems : ∀ vs : List Json, toItems? (ofItems vs) = some (Json.canonicalItems vs)
  | [] => rfl
  | v::vs => by
    rw [ofItems,toItems?,toJson?_ofJson v,toItems?_ofItems vs]
    rfl

private theorem toMembers?_ofMembers : ∀ ms : List (String × Json),
    toMembers? (ofMembers ms) = some (Json.canonicalMembers ms)
  | [] => rfl
  | (k,v)::ms => by
    rw [ofMembers,toMembers?,toJson?_ofJson v,toMembers?_ofMembers ms]
    rfl

end

end Doc

/-! ### The order of members -/

namespace Json

/-- Members in ascending order of their keys, none of which comes twice. -/
def Ascending (ms : List (String × Json)) : Prop := ms.Pairwise fun a b => compare a.1 b.1 = .lt

private theorem mem_insertMember {k : String} {v : Json} {e : String × Json} {ms : List (String × Json)}
    (h : e ∈ insertMember k v ms) : e = (k,v) ∨ e ∈ ms := by
  induction ms with
  | nil => exact .inl (List.mem_singleton.mp h)
  | cons m ms ih =>
    obtain ⟨k',v'⟩ := m
    rw [insertMember] at h
    split at h
    · exact List.mem_cons.mp h
    · exact (List.mem_cons.mp h).imp_right (List.mem_cons_of_mem _)
    · rcases List.mem_cons.mp h with rfl | h
      · exact .inr List.mem_cons_self
      · exact (ih h).imp_right (List.mem_cons_of_mem _)

theorem Ascending.insertMember {k : String} {v : Json} {ms : List (String × Json)} (h : Ascending ms) :
    Ascending (insertMember k v ms) := by
  induction ms with
  | nil => exact List.pairwise_singleton _ _
  | cons m ms ih =>
    obtain ⟨k',v'⟩ := m
    obtain ⟨hm,hms⟩ := List.pairwise_cons.mp h
    rw [Json.insertMember]
    split
    · next hlt =>
      refine List.pairwise_cons.mpr ⟨fun e he => ?_,h⟩
      rcases List.mem_cons.mp he with rfl | he
      · exact hlt
      · exact Std.TransCmp.lt_trans hlt (hm e he)
    · next heq =>
      obtain rfl := Std.LawfulEqOrd.compare_eq_iff_eq.mp heq
      exact List.pairwise_cons.mpr ⟨hm,hms⟩
    · next hgt =>
      refine List.pairwise_cons.mpr ⟨fun e he => ?_,ih hms⟩
      rcases mem_insertMember he with rfl | he
      · exact Std.OrientedCmp.lt_of_gt hgt
      · exact hm e he

private theorem insertMember_of_last {k : String} {v : Json} {ms : List (String × Json)}
    (h : ∀ e ∈ ms, compare e.1 k = .lt) : Json.insertMember k v ms = ms ++ [(k,v)] := by
  induction ms with
  | nil => rfl
  | cons m ms ih =>
    obtain ⟨k',v'⟩ := m
    rw [Json.insertMember,Std.OrientedCmp.gt_of_lt (h _ List.mem_cons_self)]
    exact congrArg _ (ih fun e he => h e (List.mem_cons_of_mem _ he))

private theorem ascending_sortMembers (ms : List (String × Json)) : Ascending (sortMembers ms) := by
  have hacc : ∀ (ms acc : List (String × Json)), Ascending acc →
      Ascending (ms.foldl (fun acc e => Json.insertMember e.1 e.2 acc) acc) := by
    intro ms
    induction ms with
    | nil => exact fun _ h => h
    | cons m ms ih => exact fun acc h => ih _ h.insertMember
  exact hacc ms [] List.Pairwise.nil

private theorem mem_sortMembers {e : String × Json} {ms : List (String × Json)} (h : e ∈ sortMembers ms) : e ∈ ms := by
  have hacc : ∀ (ms acc : List (String × Json)),
      e ∈ ms.foldl (fun acc e => Json.insertMember e.1 e.2 acc) acc → e ∈ acc ∨ e ∈ ms := by
    intro ms
    induction ms with
    | nil => exact fun _ h => .inl h
    | cons m ms ih =>
      intro acc h
      rcases ih _ h with h | h
      · exact (mem_insertMember h).elim (fun he => .inr (he ▸ List.mem_cons_self)) .inl
      · exact .inr (List.mem_cons_of_mem _ h)
  exact (hacc ms [] h).resolve_left List.not_mem_nil

private theorem sortMembers_of_ascending {ms : List (String × Json)} (h : Ascending ms) : sortMembers ms = ms := by
  have hacc : ∀ (ms acc : List (String × Json)), Ascending (acc ++ ms) →
      ms.foldl (fun acc e => Json.insertMember e.1 e.2 acc) acc = acc ++ ms := by
    intro ms
    induction ms with
    | nil => exact fun acc _ => (List.append_nil acc).symm
    | cons m ms ih =>
      intro acc h
      have hlast : ∀ e ∈ acc, compare e.1 m.1 = .lt := fun e he =>
        (List.pairwise_append.mp h).2.2 e he m List.mem_cons_self
      rw [List.foldl_cons,insertMember_of_last hlast,ih]
      · simp
      · simpa using h
  exact hacc ms [] h

private theorem canonicalMembers_eq_self {ms : List (String × Json)} (h : ∀ e ∈ ms, e.2.canonical = e.2) :
    canonicalMembers ms = ms := by
  induction ms with
  | nil => rfl
  | cons m ms ih =>
    rw [canonicalMembers,h m List.mem_cons_self,ih fun e he => h e (List.mem_cons_of_mem _ he)]

mutual

/-- The canonical form is a form: it is its own. -/
theorem canonical_canonical : ∀ v : Json, v.canonical.canonical = v.canonical
  | .null | .bool _ | .number _ | .string _ => rfl
  | .array items => by rw [canonical,canonical,canonicalItems_canonicalItems items]
  | .object members => by
    rw [canonical,mkObject,canonical,mkObject,canonicalMembers_eq_self fun e he =>
      canonical_of_mem members e (mem_sortMembers he),sortMembers_of_ascending (ascending_sortMembers _)]

private theorem canonicalItems_canonicalItems : ∀ vs : List Json, canonicalItems (canonicalItems vs) = canonicalItems vs
  | [] => rfl
  | v::vs => by
    rw [canonicalItems,canonicalItems,canonical_canonical v,canonicalItems_canonicalItems vs]

private theorem canonical_of_mem : ∀ (ms : List (String × Json)), ∀ e ∈ canonicalMembers ms, e.2.canonical = e.2
  | [] => fun _ he => absurd he List.not_mem_nil
  | (_,v)::ms => by
    intro e he
    rcases List.mem_cons.mp he with rfl | he
    · exact canonical_canonical v
    · exact canonical_of_mem ms e he

end

end Json
end FieldReplica
