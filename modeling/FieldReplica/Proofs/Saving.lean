import Mathlib.Algebra.Group.Nat.Defs
import FieldReplica.Proofs.Completion
import FieldReplica.Proofs.Octets

/-!
# Settings saved and loaded

The text that is written for settings is a document that gives them, whole or in part, so that a saved file gives the
same settings again. A number that does not fit into a document is found before the file is opened.
-/
namespace FieldReplica

open Toml (Members Key Value Entry)

namespace SyncField

variable {s : SyncSettings} {f : SyncField} {e : Entry}

private theorem read_written (hfits : f.fits s = true) (h : f.written? s = some e) (rest : List Char) :
    Toml.scalar (e.text ++ '\n'::rest) = .ok (e.scalar,'\n'::rest) := by
  cases f with
  | number name expected get set =>
    obtain rfl := Option.some.inj h
    exact Toml.scalar_toDigits (of_decide_eq_true hfits) rest
  | limit name get set =>
    obtain ⟨n,-,rfl⟩ := Option.map_eq_some_iff.mp h
    have hmax : UInt32.size ≤ Int64.maxValue.toNatClampNeg := by decide
    exact Toml.scalar_toDigits (n.toNat_lt.le.trans hmax) rest
  | flag name get set =>
    obtain rfl := Option.some.inj h
    exact Toml.scalar_boolean _ rest

private theorem name_bare : ∀ f ∈ SyncSettings.fields, f.name.toList ≠
    [] ∧ f.name.toList.all Toml.isBareChar = true := by
  decide

private theorem readable_written (hf : f ∈ SyncSettings.fields) (hfits : f.fits s = true) (h : f.written? s = some e) :
    e.Readable where
  name_ne := name_of_written h ▸ (name_bare f hf).1
  bare := name_of_written h ▸ List.all_eq_true.mp (name_bare f hf).2
  read := read_written hfits h

private theorem entry_eq (name value : String) (sc : Toml.Scalar) :
    entry name value = Entry.line ⟨name,value.toList,sc⟩ := by
  simp [entry,Entry.line]

theorem line_eq (s : SyncSettings) (f : SyncField) : f.line s = ((f.written? s).map Entry.line).getD [] := by
  have hdigits : ∀ n : Nat, (toString n).toList = Nat.toDigits 10 n := fun _ => Nat.toList_repr
  cases f with
  | number name expected get set =>
    rw [line,entry_eq name _ (.integer (get s).toNat),hdigits]
    rfl
  | limit name get set =>
    rw [line,written?]
    cases get s with
    | none => rfl
    | some n =>
      rw [Option.map_some]
      exact (entry_eq name _ (.integer n.toNat)).trans (by rw [hdigits]; rfl)
  | flag name get set => exact entry_eq name _ (.boolean (get s))

private theorem flatMap_line (s : SyncSettings) (fs : List SyncField) :
    fs.flatMap (line s) = (fs.filterMap (written? s)).flatMap Entry.line := by
  induction fs with
  | nil => rfl
  | cons f fs ih =>
    rw [List.flatMap_cons,ih,line_eq]
    cases h : f.written? s with
    | none => rw [List.filterMap_cons_none h]; rfl
    | some e => rw [List.filterMap_cons_some h]; rfl

/-- Different settings stand under different names. -/
theorem nodup_entries {fs : List SyncField} (hfs : fs ⊆ SyncSettings.fields) (hnodup : fs.Nodup) :
    ((fs.filterMap (written? s)).map Entry.name).Nodup := by
  rw [List.Nodup,List.pairwise_map,List.pairwise_filterMap]
  refine hnodup.imp_of_mem fun hf hg hne e he e' he' hname => hne ?_
  exact eq_of_name (hfs hf) (hfs hg) ((name_of_written he).symm.trans (hname.trans (name_of_written he')))

end SyncField

namespace Settings

variable {s : Settings} {fs : List SyncField}

/-- The line with the address. -/
def addressEntry (s : Settings) : Entry := ⟨"api_url",Toml.quote s.apiUrl,.string s.apiUrl⟩

private theorem readable_addressEntry (s : Settings) : s.addressEntry.Readable where
  name_ne := by simp [addressEntry]
  bare := List.all_eq_true.mp (by decide : "api_url".toList.all Toml.isBareChar = true)
  read := Toml.scalar_quote s.apiUrl

/-- The settings of replication in a table, below some blank lines. -/
structure Section where
  blanks : Nat
  fields : List SyncField

def Section.text (t : Section) (s : SyncSettings) : List Char :=
  List.replicate t.blanks '\n' ++ (Toml.headerLine "sync" ++ t.fields.flatMap (SyncField.line s))

/-- The text of a file that leaves settings out: the address if `url`, and a table if there is one. -/
def excerpt (s : Settings) (url : Bool) (table : Option Section) : List Char :=
  (if url then [s.addressEntry] else []).flatMap Entry.line ++ (table.map fun t => t.text s.sync).getD []

private theorem toFile_eq (h : ∀ f ∈ SyncSettings.fields, f.fits s.sync = true) :
    s.toFile = .ok (String.ofList (s.excerpt true (some ⟨1,SyncSettings.fields⟩))) := by
  rw [toFile,if_pos (List.all_eq_true.mpr h)]
  simp [excerpt,Section.text,addressEntry,Entry.line,Toml.headerLine]

/-- The settings of replication that a file gives. -/
def given (table : Option Section) : List SyncField := (table.map Section.fields).getD []

private theorem gives_sync {inner : Members} (h : Entry.MakeAll (fs.filterMap (SyncField.written? s.sync)) inner) :
    s.sync.Gives fs inner where
  known m hm := by
    obtain ⟨e,he,hmakes⟩ := h.known m hm
    obtain ⟨f,hf,hentry⟩ := List.mem_filterMap.mp he
    exact ⟨f,hf,e,hentry,hmakes⟩
  given f hf := by
    cases hentry : f.written? s.sync with
    | none => exact .inl rfl
    | some e =>
      obtain ⟨m,hm,hmakes⟩ := h.made e (List.mem_filterMap.mpr ⟨f,hf,hentry⟩)
      exact .inr ⟨m,hm,e,hentry,hmakes⟩

private theorem mem_of_address {url : Bool} {ms : Members}
    (hms : Entry.MakeAll (if url then [s.addressEntry] else []) ms) :
    ∀ m ∈ ms, url = true ∧ s.addressEntry.Makes m := by
  intro m hm
  obtain ⟨e,he,hmakes⟩ := hms.known m hm
  cases url with
  | false => cases he
  | true =>
    obtain rfl := List.mem_singleton.mp he
    exact ⟨rfl,hmakes⟩

/-- Members that the line of the address makes, and a table after them. -/
theorem gives_append {url : Bool} {ms more : Members}
    (hms : Entry.MakeAll (if url then [s.addressEntry] else []) ms)
    (hmore : ∀ m ∈ more, m.1.name = "sync" ∧ ∃ kind span inner, m.2 = .table kind span inner ∧ s.sync.Gives fs inner)
    (hne : fs ≠ [] → more ≠ []) : s.Gives url fs (ms ++ more) := by
  have hroot := mem_of_address hms
  have hnames : ("api_url" : String) ≠ "sync" := by decide
  refine ⟨fun m hm hname => ?_,fun m hm hname => ?_,⟨?_,?_⟩,fun h => ?_⟩
  · rcases List.mem_append.mp hm with hm | hm
    · exact (hroot m hm).2.2
    · exact absurd (hname.symm.trans (hmore m hm).1) hnames
  · rcases List.mem_append.mp hm with hm | hm
    · exact absurd ((hroot m hm).2.1.symm.trans hname) hnames
    · exact (hmore m hm).2
  · rintro ⟨m,hm,hname⟩
    rcases List.mem_append.mp hm with hm | hm
    · exact (hroot m hm).1
    · exact absurd (hname.symm.trans (hmore m hm).1) hnames
  · rintro rfl
    obtain ⟨m,hm,hmakes⟩ := hms.made _ List.mem_cons_self
    exact ⟨m,List.mem_append_left _ hm,hmakes.1⟩
  · obtain ⟨m,hm⟩ := List.exists_mem_of_ne_nil _ (hne h)
    exact ⟨m,List.mem_append_right _ hm,(hmore m hm).1⟩

private theorem head?_excerpt (s : Settings) (url : Bool) (table : Option Section) :
    (s.excerpt url table).head? ≠ some '\uFEFF' := by
  have haddress : ∀ rest, (s.addressEntry.line ++ rest).head? = some 'a' := fun rest => by
    have hname : s.addressEntry.name.toList.head? = some 'a' := by
      change "api_url".toList.head? = some 'a'
      decide
    rw [Entry.line_append,List.head?_append,hname]
    rfl
  cases url with
  | true =>
    rw [excerpt,if_pos rfl,List.flatMap_singleton,haddress]
    decide
  | false =>
    cases table with
    | none => exact nofun
    | some t =>
      obtain ⟨blanks,fs⟩ := t
      cases blanks with
      | zero => exact fun h => absurd (Option.some.inj h) (by decide)
      | succ n => exact fun h => absurd (Option.some.inj h) (by decide)

private theorem reads_section {t : Section} (hfs : t.fields ⊆ SyncSettings.fields) (hnodup : t.fields.Nodup)
    (hfits : ∀ f ∈ t.fields, f.fits s.sync = true) {root : Members} (hfresh : ∀ m ∈ root, m.1.name ≠ "sync") :
    ∃ k span inner, k.name = "sync" ∧ s.sync.Gives t.fields inner ∧
      Toml.Reads ⟨root,[]⟩ (t.text s.sync) ⟨root ++ [(k,.table .header span inner)],[k]⟩ := by
  have hread : ∀ e ∈ t.fields.filterMap (SyncField.written? s.sync), e.Readable := by
    intro e he
    obtain ⟨f,hf,hentry⟩ := List.mem_filterMap.mp he
    exact SyncField.readable_written (hfs hf) (hfits f hf) hentry
  obtain ⟨k,span,hk,hheader⟩ := Toml.Reads.header (by decide) (List.all_eq_true.mp (by decide)) root hfresh []
    (t.fields.flatMap (SyncField.line s.sync))
  obtain ⟨span',inner,hinner,htable⟩ := Toml.Reads.entries
    (fun span inner => ⟨root ++ [(k,.table .header span inner)],[k]⟩)
    (fun _ _ _ _ h => ⟨_,Toml.Draft.member_table (hk ▸ hfresh) h⟩)
    hread [] (SyncField.nodup_entries hfs hnodup) (some span) []
  rw [List.append_nil,← SyncField.flatMap_line] at htable
  exact ⟨k,span',inner,hk,gives_sync hinner,.newlines (hheader _ (htable _ (.nil _))) t.blanks⟩

private theorem read_excerpt (url : Bool) (table : Option Section) (hfs : given table ⊆ SyncSettings.fields)
    (hnodup : (given table).Nodup) (hfits : ∀ f ∈ given table, f.fits s.sync = true) :
    ∃ ms, Toml.read (s.excerpt url table) = .ok ms ∧ s.Gives url (given table) ms := by
  have hmark := s.head?_excerpt url table
  have hread : ∀ e ∈ if url then [s.addressEntry] else [], e.Readable := by
    intro e he
    cases url with
    | false => cases he
    | true =>
      obtain rfl := List.mem_singleton.mp he
      exact readable_addressEntry s
  have hnames : (([] : Members).map (·.1.name) ++ (if url then [s.addressEntry] else []).map Entry.name).Nodup := by
    cases url <;> simp
  have hroot := Toml.Reads.entries (fun _ ms => ⟨ms,[]⟩)
    (fun _ _ _ _ h => ⟨none,Toml.Draft.member_root h⟩) hread [] hnames none
  cases table with
  | none =>
    obtain ⟨-,ms,hms,hlines⟩ := hroot []
    have hgives : s.Gives url [] (ms ++ []) := gives_append hms nofun fun h => absurd rfl h
    rw [List.append_nil] at hgives
    exact ⟨ms,(hlines _ (.nil _)).read hmark,hgives⟩
  | some t =>
    obtain ⟨-,ms,hms,hlines⟩ := hroot (t.text s.sync)
    have hfresh : ∀ m ∈ ms, m.1.name ≠ "sync" := by
      intro m hm
      rw [(mem_of_address hms m hm).2.1]
      change "api_url" ≠ "sync"
      decide
    obtain ⟨k,span,inner,hk,hinner,hsection⟩ := reads_section hfs hnodup hfits hfresh
    refine ⟨_,(hlines _ hsection).read hmark,gives_append hms (fun m hm => ?_) nofun⟩
    obtain rfl := List.mem_singleton.mp hm
    exact ⟨hk,.header,span,inner,rfl,hinner⟩

/-! ### Files -/

private theorem ofFile_encode (text : String) : ofFile (.ok (Text.Utf8.encode text)) = ofText text := by
  rw [ofFile,Text.Utf8.decode?_encode]

private theorem ofFile_gives (hfs : fs ⊆ SyncSettings.fields) {url : Bool} {text : String} {ms : Members}
    (hread : Toml.read text.toList = .ok ms) (h : s.Gives url fs ms) :
    ∃ t, ofFile (.ok (Text.Utf8.encode text)) = .ok t ∧ s.Completes url fs t := by
  obtain ⟨t,ht,hcompletes⟩ := ofDocument_gives hfs hread h
  refine ⟨t,?_,hcompletes⟩
  rw [ofFile_encode,ofText,ht]
  rfl

/-- Nothing is left to complete where everything is given. -/
theorem Completes.eq {t : Settings} (h : s.Completes true SyncSettings.fields t) : t = s := by
  obtain ⟨hurl,hsync⟩ := h
  have hsame : t.sync = s.sync := SyncField.ext hsync.given
  cases t
  cases s
  exact congr (congrArg Settings.mk hurl) hsame

/-- A number of the settings is beyond every document. -/
def Exceeds (s : Settings) : Prop :=
  ∃ f ∈ SyncSettings.fields, ∃ n, f.number? s.sync = some n ∧ 2 ^ 63 - 1 < n

private theorem fits_iff (s : SyncSettings) (f : SyncField) :
    f.fits s = true ↔ ∀ n, f.number? s = some n → n ≤ 2 ^ 63 - 1 := by
  cases f with
  | number name expected get set =>
    have hmax : SyncField.maxNumber = 2 ^ 63 - 1 := by decide
    simp [SyncField.fits,SyncField.number?,hmax]
  | limit name get set =>
    refine ⟨fun _ n hn => ?_,fun _ => rfl⟩
    obtain ⟨m,-,rfl⟩ := Option.map_eq_some_iff.mp hn
    have := m.toNat_lt
    omega
  | flag name get set => exact ⟨fun _ => nofun,fun _ => rfl⟩

private theorem not_exceeds_iff : ¬s.Exceeds ↔ ∀ f ∈ SyncSettings.fields, f.fits s.sync = true := by
  simp only [Exceeds,not_exists,not_and,Nat.not_lt,fits_iff]

private theorem save_of_exceeds (h : s.Exceeds) (content : Except FileFault (List UInt8)) :
    s.save content = (.error .unwritable,content) := by
  have hfile : s.toFile = .error .unwritable := by
    rw [toFile,if_neg]
    exact fun hall => not_exceeds_iff.mpr (List.all_eq_true.mp hall) h
  rw [save,hfile]

private theorem save_of_fits (h : ¬s.Exceeds) {content : Except FileFault (List UInt8)}
    (hpath : content ≠ .error .isDirectory) :
    s.save content =
      (.ok (),.ok (Text.Utf8.encode (String.ofList (s.excerpt true (some ⟨1,SyncSettings.fields⟩))))) := by
  rw [save,toFile_eq (not_exceeds_iff.mp h)]
  dsimp only
  split
  · exact absurd rfl hpath
  · rfl

private theorem ofFile_excerpt (url : Bool) (table : Option Section) (hfs : given table ⊆ SyncSettings.fields)
    (hnodup : (given table).Nodup) (hfits : ∀ f ∈ given table, f.fits s.sync = true) :
    ∃ t, ofFile (.ok (Text.Utf8.encode (String.ofList (s.excerpt url table)))) = .ok t ∧
      s.Completes url (given table) t := by
  obtain ⟨ms,hread,hgives⟩ := read_excerpt url table hfs hnodup hfits
  exact ofFile_gives hfs (by rwa [String.toList_ofList]) hgives

/-- Settings are saved unless a number is too great, and then the file keeps what it held; a saved file gives the same
settings. Of a file that gives only some of them, as an excerpt or as any document, those count and the rest is as
usual. -/
theorem save_load (s : Settings) (content : Except FileFault (List UInt8)) (hpath : content ≠ .error .isDirectory) :
    ((s.save content).1 = .error .unwritable ↔ s.Exceeds) ∧
      (s.Exceeds → (s.save content).2 = content) ∧
      (¬s.Exceeds → (s.save content).1 = .ok () ∧ ofFile (s.save content).2 = .ok s) ∧
      (∀ (url : Bool) (table : Option Section), given table ⊆ SyncSettings.fields → (given table).Nodup →
        (∀ f ∈ given table, ∀ n, f.number? s.sync = some n → n ≤ 2 ^ 63 - 1) →
        ∃ t, ofFile (.ok (Text.Utf8.encode (String.ofList (s.excerpt url table)))) = .ok t ∧
          s.Completes url (given table) t) ∧
      ∀ (url : Bool) (fs : List SyncField) (text : String) (ms : Members), fs ⊆ SyncSettings.fields →
        Toml.read text.toList = .ok ms → s.Gives url fs ms →
        ∃ t, ofFile (.ok (Text.Utf8.encode text)) = .ok t ∧ s.Completes url fs t := by
  have hload : ¬s.Exceeds → ofFile (s.save content).2 = .ok s := by
    intro h
    have hnodup : SyncSettings.fields.Nodup := List.Nodup.of_map SyncField.name SyncField.nodup_names
    obtain ⟨t,ht,hcompletes⟩ := ofFile_excerpt (s := s) true (some ⟨1,SyncSettings.fields⟩) (List.Subset.refl _) hnodup
      (not_exceeds_iff.mp h)
    rw [save_of_fits h hpath,ht,hcompletes.eq]
  refine ⟨⟨fun herror => ?_,fun h => ?_⟩,fun h => ?_,fun h => ⟨?_,hload h⟩,fun url table hfs hnodup hfits => ?_,
    fun url fs text ms hfs hread h => ofFile_gives hfs hread h⟩
  · by_contra h
    rw [save_of_fits h hpath] at herror
    cases herror
  · rw [save_of_exceeds h]
  · rw [save_of_exceeds h]
  · rw [save_of_fits h hpath]
  · exact ofFile_excerpt url table hfs hnodup fun f hf => (fits_iff s.sync f).mpr (hfits f hf)

/-- An address with quotes, backslashes and a line feed, of which a shorter file keeps the limit alone. -/
theorem save_load_sample :
    let s : Settings := ⟨"say \"hi\"\n\\ \x27now\x27",{ SyncSettings.default with reconnectMaxAttempts := some 5 }⟩
    let limit := SyncSettings.fields[3]
    ¬s.Exceeds ∧ (s.save (.ok [])).1 = .ok () ∧ ofFile (s.save (.ok [])).2 = .ok s ∧
      ∃ t, ofFile (.ok (Text.Utf8.encode (String.ofList (s.excerpt false (some ⟨0,[limit]⟩))))) = .ok t ∧
        s.Completes false [limit] t := by
  intro s limit
  have hfits : ∀ f ∈ SyncSettings.fields, f.fits s.sync = true := by decide
  have hexceeds : ¬s.Exceeds := not_exceeds_iff.mpr hfits
  have hlimit : limit ∈ SyncSettings.fields := List.getElem_mem _
  obtain ⟨-,-,hsave,hexcerpt,-⟩ := save_load s (.ok []) nofun
  refine ⟨hexceeds,(hsave hexceeds).1,(hsave hexceeds).2,hexcerpt false (some ⟨0,[limit]⟩) ?_ ?_ ?_⟩
  · exact fun f hf => List.mem_singleton.mp hf ▸ hlimit
  · exact List.nodup_singleton limit
  · exact fun f hf => List.mem_singleton.mp hf ▸ (fits_iff s.sync limit).mp (hfits limit hlimit)

end Settings

end FieldReplica
