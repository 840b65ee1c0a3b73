import FieldReplica.Proofs.Documents
import FieldReplica.Settings.File

/-!
# Settings from a document

A document gives some of the settings, in any order and any notation, and settings are completed from it: what it gives
counts, and the rest is as usual. Decoding takes in one member after another, and each changes the setting of its name
and no other.
-/
namespace FieldReplica

open Toml (Members Key Value Entry)

/-! ### Settings by name -/

namespace SyncField

def name : SyncField → String
  | .number name _ _ _ => name
  | .limit name _ _ => name
  | .flag name _ _ => name

def copy (s t : SyncSettings) : SyncField → SyncSettings
  | .number _ _ get set => set (get s) t
  | .limit _ get set => set (get s) t
  | .flag _ get set => set (get s) t

def Same (s t : SyncSettings) : SyncField → Prop
  | .number _ _ get _ => get s = get t
  | .limit _ get _ => get s = get t
  | .flag _ get _ => get s = get t

/-- The number that this setting is, if it is one. -/
def number? (s : SyncSettings) : SyncField → Option Nat
  | .number _ _ get _ => some (get s).toNat
  | .limit _ get _ => (get s).map (·.toNat)
  | .flag _ _ _ => none

/-- What stands on the line of this setting, if it has one. -/
def written? (s : SyncSettings) : SyncField → Option Entry
  | .number name _ get _ => some ⟨name,Nat.toDigits 10 (get s).toNat,.integer (get s).toNat⟩
  | .limit name get _ => (get s).map fun n => ⟨name,Nat.toDigits 10 n.toNat,.integer n.toNat⟩
  | .flag name get _ => some ⟨name,(toString (get s)).toList,.boolean (get s)⟩

/-- A member of a document that gives this setting as it is in `s`. -/
def Gives (s : SyncSettings) (f : SyncField) (m : Key × Value) : Prop := ∃ e, f.written? s = some e ∧ e.Makes m

theorem Same.trans {s t u : SyncSettings} {f : SyncField} (h : f.Same s t) (h' : f.Same t u) : f.Same s u := by
  cases f <;> exact Eq.trans h h'

theorem Same.refl {s : SyncSettings} {f : SyncField} : f.Same s s := by
  cases f <;> rfl

theorem name_of_written {s : SyncSettings} {f : SyncField} {e : Entry} (h : f.written? s = some e) :
    e.name = f.name := by
  cases f with
  | number name expected get set =>
    obtain rfl := Option.some.inj h
    rfl
  | limit name get set =>
    obtain ⟨n,-,rfl⟩ := Option.map_eq_some_iff.mp h
    rfl
  | flag name get set =>
    obtain rfl := Option.some.inj h
    rfl

private theorem Gives.name_eq {s : SyncSettings} {f : SyncField} {m : Key × Value} (h : f.Gives s m) :
    m.1.name = f.name := by
  obtain ⟨e,he,hname,-⟩ := h
  exact hname.trans (name_of_written he)

theorem nodup_names : (SyncSettings.fields.map name).Nodup := by decide

theorem eq_of_name {f g : SyncField} (hf : f ∈ SyncSettings.fields) (hg : g ∈ SyncSettings.fields)
    (h : f.name = g.name) : f = g :=
  List.inj_on_of_nodup_map nodup_names hf hg h

private theorem forall_fields {p : SyncField → Prop} : (∀ f ∈ SyncSettings.fields, p f) ↔
    List.Forall p SyncSettings.fields := List.forall_iff_forall_mem.symm

private theorem same_copy {f : SyncField} (hf : f ∈ SyncSettings.fields) (s t : SyncSettings) : f.Same
    (f.copy s t) s := by
  revert f
  rw [forall_fields]
  exact ⟨rfl,rfl,rfl,rfl,rfl,rfl,rfl⟩

private theorem same_copy_of_ne {f g : SyncField} (hf : f ∈ SyncSettings.fields) (hg : g ∈ SyncSettings.fields)
    (h : f.name ≠ g.name) (s t : SyncSettings) : g.Same (f.copy s t) t := by
  simp only [SyncSettings.fields,List.mem_cons,List.not_mem_nil,or_false] at hf hg
  rcases hf with rfl | rfl | rfl | rfl | rfl | rfl | rfl <;>
    rcases hg with rfl | rfl | rfl | rfl | rfl | rfl | rfl <;> first | exact absurd rfl h | rfl

theorem ext {s t : SyncSettings} (h : ∀ f ∈ SyncSettings.fields, f.Same s t) : s = t := by
  rw [forall_fields] at h
  obtain ⟨h₁,h₂,h₃,h₄,h₅,h₆,h₇⟩ := h
  cases s
  cases t
  simp_all [Same]

/-! ### Settings from documents -/

private theorem read_field {f : SyncField} {s : SyncSettings} {m : Key × Value} (h : f.Gives s m) :
    f.field.read m.2 = .ok fun t => f.copy s t := by
  obtain ⟨e,he,-,span,hvalue⟩ := h
  have hnatural : ∀ (limit n : Nat) (expected : String), n < limit →
      Toml.Decoder.natural limit expected (.scalar span (.integer n)) = .ok n := by
    intro limit n expected hn
    exact if_pos ⟨Int.natCast_nonneg n,Int.ofNat_lt.mpr hn⟩
  rw [hvalue]
  cases f with
  | number name expected get set =>
    obtain rfl := Option.some.inj he
    refine (Toml.bind_of_ok (hnatural _ _ _ (get s).toNat_lt)).trans ?_
    rw [UInt64.ofNat_toNat]
    rfl
  | limit name get set =>
    obtain ⟨n,hn,rfl⟩ := Option.map_eq_some_iff.mp he
    refine (Toml.bind_of_ok (hnatural _ _ _ n.toNat_lt)).trans ?_
    rw [UInt32.ofNat_toNat]
    change _ = Except.ok fun t => set (get s) t
    rw [hn]
    rfl
  | flag name get set =>
    obtain rfl := Option.some.inj he
    rfl

private theorem find?_field {f : SyncField} (hf : f ∈ SyncSettings.fields) {k : Key} (hk : k.name = f.name) :
    (SyncSettings.fields.map field).find? (·.name = k.name) = some f.field := by
  rw [hk]
  simp only [SyncSettings.fields,List.mem_cons,List.not_mem_nil,or_false] at hf
  rcases hf with rfl | rfl | rfl | rfl | rfl | rfl | rfl <;> rfl

end SyncField

private theorem SyncSettings.members_gives {s : SyncSettings} {ms : Members}
    (h : ∀ m ∈ ms, ∃ f ∈ SyncSettings.fields, f.Gives s m) (r : SyncSettings) :
    ∃ t, Toml.Decoder.members (SyncSettings.fields.map SyncField.field) true r ms = .ok t ∧
      ∀ f ∈ SyncSettings.fields, ((∃ m ∈ ms, f.Gives s m) ∨ f.Same r s → f.Same t s) ∧
        ((∀ m ∈ ms, m.1.name ≠ f.name) → f.Same t r) := by
  induction ms generalizing r with
  | nil =>
    refine ⟨r,rfl,fun f _ => ⟨?_,fun _ => .refl⟩⟩
    rintro (⟨m,hm,-⟩ | h)
    · cases hm
    · exact h
  | cons m ms ih =>
    obtain ⟨g,hg,hgives⟩ := h m List.mem_cons_self
    obtain ⟨t,ht,hfields⟩ := ih (fun m' hm => h m' (List.mem_cons_of_mem _ hm)) (g.copy s r)
    have hname : m.1.name = g.name := hgives.name_eq
    refine ⟨t,?_,fun f hf => ?_⟩
    · have hread : (g.field.read m.2).mapError (Toml.Decoder.atKey m.1) = .ok fun t => g.copy s t := by
        rw [SyncField.read_field hgives]
        rfl
      rw [Toml.Decoder.members,SyncField.find?_field hg hname]
      exact (Toml.bind_of_ok hread).trans ht
    · -- The member changes the setting of its name; the other members decide about every other setting.
      obtain ⟨hgiven,homitted⟩ := hfields f hf
      by_cases hfg : f.name = g.name
      · obtain rfl := SyncField.eq_of_name hf hg hfg
        exact ⟨fun _ => hgiven (.inr (SyncField.same_copy hf s r)),fun hne => absurd hname (hne m List.mem_cons_self)⟩
      · have hkeep := SyncField.same_copy_of_ne hg hf (Ne.symm hfg) s r
        refine ⟨?_,fun hne => (homitted fun m' hm => hne m' (List.mem_cons_of_mem _ hm)).trans hkeep⟩
        rintro (⟨m',hm,hgives'⟩ | hsame)
        · rcases List.mem_cons.mp hm with rfl | hm
          · exact absurd (hgives'.name_eq.symm.trans hname) hfg
          · exact hgiven (.inl ⟨m',hm,hgives'⟩)
        · exact hgiven (.inr (hkeep.trans hsame))

/-- A table gives the settings `fs` as they are in `s`, and no others; a limit that is open is not written. -/
structure SyncSettings.Gives (s : SyncSettings) (fs : List SyncField) (ms : Members) : Prop where
  known : ∀ m ∈ ms, ∃ f ∈ fs, f.Gives s m
  given : ∀ f ∈ fs, f.written? s = none ∨ ∃ m ∈ ms, f.Gives s m

/-- Settings that are those of `s` where these are given, and the usual ones elsewhere. -/
structure SyncSettings.Completes (s : SyncSettings) (fs : List SyncField) (t : SyncSettings) : Prop where
  given : ∀ f ∈ fs, f.Same t s
  omitted : ∀ f ∈ SyncSettings.fields, f ∉ fs → f.Same t .default

private theorem SyncField.same_default {s : SyncSettings} {f : SyncField} (hf : f ∈ SyncSettings.fields)
    (h : f.written? s = none) : f.Same .default s := by
  simp only [SyncSettings.fields,List.mem_cons,List.not_mem_nil,or_false] at hf
  rcases hf with rfl | rfl | rfl | rfl | rfl | rfl | rfl
  case inr.inr.inr.inl => exact (Option.map_eq_none_iff.mp h).symm
  all_goals cases h

private theorem SyncSettings.record_gives {s : SyncSettings} {fs : List SyncField} {ms : Members}
    (hfs : fs ⊆ SyncSettings.fields) (h : s.Gives fs ms) :
    ∃ t, Toml.Decoder.members (SyncSettings.fields.map SyncField.field) true .default ms = .ok t ∧ s.Completes fs t := by
  have hknown : ∀ m ∈ ms, ∃ f ∈ SyncSettings.fields, f.Gives s m :=
    fun m hm => (h.known m hm).imp fun f hf => ⟨hfs hf.1,hf.2⟩
  obtain ⟨t,ht,hfields⟩ := members_gives hknown .default
  refine ⟨t,ht,fun f hf => ?_,fun f hf hne => ?_⟩
  · rcases h.given f hf with hnone | hgiven
    · exact (hfields f (hfs hf)).1 (.inr (SyncField.same_default (hfs hf) hnone))
    · exact (hfields f (hfs hf)).1 (.inl hgiven)
  · refine (hfields f hf).2 fun m hm hname => ?_
    obtain ⟨g,hg,hgives⟩ := h.known m hm
    exact hne (SyncField.eq_of_name hf (hfs hg) (hname.symm.trans hgives.name_eq) ▸ hg)

namespace Settings

/-- A document gives the settings `fs`, and the address if `url`, as they are in `s`. -/
structure Gives (s : Settings) (url : Bool) (fs : List SyncField) (ms : Members) : Prop where
  address : ∀ m ∈ ms, m.1.name = "api_url" → ∃ span, m.2 = .scalar span (.string s.apiUrl)
  table : ∀ m ∈ ms, m.1.name = "sync" → ∃ kind span inner, m.2 = .table kind span inner ∧ s.sync.Gives fs inner
  address_iff : (∃ m ∈ ms, m.1.name = "api_url") ↔ url = true
  table_of_ne : fs ≠ [] → ∃ m ∈ ms, m.1.name = "sync"

/-- Settings that are those of `s` where these are given, and the usual ones elsewhere. -/
structure Completes (s : Settings) (url : Bool) (fs : List SyncField) (t : Settings) : Prop where
  address : t.apiUrl = if url then s.apiUrl else default.apiUrl
  sync : s.sync.Completes fs t.sync

/-- How `r` becomes `t` where the address or the table is given. -/
structure Takes (s : Settings) (fs : List SyncField) (a b : Prop) (r t : Settings) : Prop where
  address : a → t.apiUrl = s.apiUrl
  address_kept : ¬a → t.apiUrl = r.apiUrl
  table : b → s.sync.Completes fs t.sync
  table_kept : ¬b → t.sync = r.sync

variable {s : Settings} {fs : List SyncField}

theorem Takes.trans {a a' b b' : Prop} {r r' t : Settings} (h : s.Takes fs a b r r') (h' : s.Takes fs a' b' r' t) :
    s.Takes fs (a ∨ a') (b ∨ b') r t where
  address ha := by
    by_cases ha' : a'
    · exact h'.address ha'
    · exact (h'.address_kept ha').trans (h.address (ha.resolve_right ha'))
  address_kept ha := (h'.address_kept fun h => ha (.inr h)).trans (h.address_kept fun h => ha (.inl h))
  table hb := by
    by_cases hb' : b'
    · exact h'.table hb'
    · rw [h'.table_kept hb']
      exact h.table (hb.resolve_right hb')
  table_kept hb := (h'.table_kept fun h => hb (.inr h)).trans (h.table_kept fun h => hb (.inl h))

private theorem takes_member (hfs : fs ⊆ SyncSettings.fields) {m : Key × Value}
    (haddress : m.1.name = "api_url" → ∃ span, m.2 = .scalar span (.string s.apiUrl))
    (htable : m.1.name = "sync" → ∃ kind span inner, m.2 = .table kind span inner ∧ s.sync.Gives fs inner)
    (ms : Members) (r : Settings) :
    ∃ r', Toml.Decoder.members fileFields false r (m::ms) = Toml.Decoder.members fileFields false r' ms ∧
      s.Takes fs (m.1.name = "api_url") (m.1.name = "sync") r r' := by
  obtain ⟨k,v⟩ := m
  by_cases hurl : k.name = "api_url"
  · obtain ⟨span,rfl⟩ := haddress hurl
    refine ⟨{ r with apiUrl := s.apiUrl },?_,fun _ => rfl,fun h => absurd hurl h,fun h => ?_,fun _ => rfl⟩
    · rw [Toml.Decoder.members,hurl]
      rfl
    · exact absurd (hurl.symm.trans h) (by decide)
  · by_cases hsync : k.name = "sync"
    · obtain ⟨kind,span,inner,rfl,hgives⟩ := htable hsync
      obtain ⟨t,ht,hcompletes⟩ := SyncSettings.record_gives hfs hgives
      refine ⟨{ r with sync := t },?_,fun h => absurd h hurl,fun _ => rfl,fun _ => hcompletes,fun h => absurd hsync h⟩
      have hread : (do
          let sync ← Toml.Decoder.record "struct SyncConfig" (SyncSettings.fields.map SyncField.field) true .default
            (.table kind span inner)
          return fun (s : Settings) => { s with sync }).mapError (Toml.Decoder.atKey k) =
            .ok fun s => { s with sync := t } := by
        rw [Toml.Decoder.record,ht]
        rfl
      rw [Toml.Decoder.members,hsync]
      exact Toml.bind_of_ok hread
    · refine ⟨r,?_,fun h => absurd h hurl,fun _ => rfl,fun h => absurd h hsync,fun _ => rfl⟩
      have hnone : fileFields.find? (·.name = k.name) = none := by
        simp [fileFields,Ne.symm hurl,Ne.symm hsync]
      rw [Toml.Decoder.members,hnone]
      rfl

private theorem takes_members (hfs : fs ⊆ SyncSettings.fields) {ms : Members}
    (haddress : ∀ m ∈ ms, m.1.name = "api_url" → ∃ span, m.2 = .scalar span (.string s.apiUrl))
    (htable : ∀ m ∈ ms, m.1.name = "sync" → ∃ kind span inner, m.2 = .table kind span inner ∧ s.sync.Gives fs inner)
    (r : Settings) :
    ∃ t, Toml.Decoder.members fileFields false r ms = .ok t ∧
      s.Takes fs (∃ m ∈ ms, m.1.name = "api_url") (∃ m ∈ ms, m.1.name = "sync") r t := by
  induction ms generalizing r with
  | nil =>
    exact ⟨r,rfl,fun h => absurd h (by simp),fun _ => rfl,fun h => absurd h (by simp),fun _ => rfl⟩
  | cons m ms ih =>
    obtain ⟨r',hstep,htakes⟩ := takes_member hfs (haddress m List.mem_cons_self) (htable m List.mem_cons_self) ms r
    obtain ⟨t,hrest,htakes'⟩ := ih (fun m' hm => haddress m' (List.mem_cons_of_mem _ hm))
      (fun m' hm => htable m' (List.mem_cons_of_mem _ hm)) r'
    refine ⟨t,hstep.trans hrest,?_⟩
    simp only [List.exists_mem_cons_iff]
    exact htakes.trans htakes'

/-- A document gives settings that are completed from it. -/
theorem ofDocument_gives (hfs : fs ⊆ SyncSettings.fields) {url : Bool} {cs : List Char} {ms : Members}
    (hread : Toml.read cs = .ok ms) (h : s.Gives url fs ms) : ∃ t, ofDocument cs = .ok t ∧ s.Completes url fs t := by
  obtain ⟨t,ht,htakes⟩ := takes_members hfs h.address h.table default
  refine ⟨t,?_,?_,?_⟩
  · rw [ofDocument,hread]
    exact ht
  · by_cases hurl : url = true
    · rw [if_pos hurl]
      exact htakes.address (h.address_iff.mpr hurl)
    · rw [if_neg hurl]
      exact htakes.address_kept fun hm => hurl (h.address_iff.mp hm)
  · by_cases htable : ∃ m ∈ ms, m.1.name = "sync"
    · exact htakes.table htable
    · rw [htakes.table_kept htable]
      have hnil : fs = [] := by
        by_contra hne
        exact htable (h.table_of_ne hne)
      rw [hnil]
      exact ⟨nofun,fun _ _ _ => .refl⟩

end Settings

end FieldReplica
